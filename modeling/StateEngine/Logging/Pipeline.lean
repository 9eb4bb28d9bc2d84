import StateEngine.Logging.Files
import StateEngine.Logging.Record
import StateEngine.Settings.Environment

/-! The logging pipeline: the handlers of the root logger, its level, and the listener that takes records
from the queue to the console and a file. -/
namespace StateEngine.Logging

/-- Where a record is written, and in which layout. -/
inductive Sink where
  | console (layout : Layout)
  | file (path : Path) (layout : Layout)

def Sink.layout : Sink → Layout
  | .console l | .file _ l => l

/-- A handler of the root logger: one that writes, or one that queues records for a listener. -/
inductive Handler where
  | direct (sink : Sink)
  | queue

/-- The state of logging. The listener, if one is running, has its sinks; records that no listener has
taken yet wait. -/
structure Pipeline where
  handlers : List Handler := []
  level : Int := 30
  listener : Option (List Sink) := none
  waiting : List LogRecord := []
  console : String := ""
  files : Files := {}
  time : String

namespace Pipeline

/-- Writes a record to a sink. What has no text in the sink's layout is not written. -/
def writeTo (r : LogRecord) (p : Pipeline) (sink : Sink) : Pipeline :=
  match sink.layout.write p.time r, sink with
  | .ok line, .console _ => { p with console := p.console ++ line ++ "\n" }
  | .ok line, .file path _ => { p with files := p.files.appendLine path line }
  | .error _, _ => p

def deliver (sinks : List Sink) (p : Pipeline) (r : LogRecord) : Pipeline :=
  sinks.foldl (writeTo r) p

/-- Stops the listener, if one is running, after it has taken all that waits for it. -/
def shutdown (p : Pipeline) : Pipeline :=
  match p.listener with
  | none => p
  | some sinks => { p.waiting.foldl (deliver sinks) p with listener := none, waiting := [] }

/-- The text that a record carries through the queue: its message is filled in and has the exception
behind it. -/
def prepared (r : LogRecord) : Except Fault LogRecord := do
  return { r with template := .text (← r.fullMessage), arguments := .null, exception := .none }

def handle (r : LogRecord) (p : Pipeline) (handler : Handler) : Pipeline :=
  match handler with
  | .direct sink => p.writeTo r sink
  | .queue =>
    match prepared r with
    | .ok q => { p with waiting := p.waiting ++ [q] }
    | .error _ => p

/-- Without handlers a warning or worse is still shown: its message alone, on the console. -/
def lastResort (r : LogRecord) (level : Int) (p : Pipeline) : Pipeline :=
  if level < 30 then p
  else match r.fullMessage with
    | .ok text => { p with console := p.console ++ text ++ "\n" }
    | .error _ => p

/-- The root level lets through what is at it or above it. Levels from zero down are never let through. -/
def enabled (p : Pipeline) (level : Int) : Bool := decide (0 < level ∧ p.level ≤ level)

/-- Passes a record to the handlers if the root level lets it through. -/
def emit (p : Pipeline) (level : Int) (r : LogRecord) : Pipeline :=
  if !p.enabled level then p
  else if p.handlers.isEmpty then lastResort r level p
  else p.handlers.foldl (handle r) p

/-- Logs a record with extras, none of which may have the name of a record's own attribute. -/
def log (p : Pipeline) (level : Int) (r : LogRecord) (extras : List (Value × Value)) :
    Except Fault Pipeline :=
  if !p.enabled level then .ok p
  else if extras.any (fun e => e.1.text?.any reservedNames.contains) then .error .missingKey
  else .ok (p.emit level (extras.foldl (fun r e => r.setAttribute e.1 e.2) r))

/-- The layout of a name: JSON by its word in any case with blanks around it, plain by anything else. -/
def layoutOf : Value → Except Fault Layout
  | .bytes _ => .ok .plain
  | name => match name.text? with
    | none => .error .missingAttribute
    | some s =>
      .ok (if (Text.strip s).toList.map Char.toLower = "json".toList then .json else .plain)

/-- The text of a level name, in upper case. -/
def levelWord : Value → Except Fault String
  | .bytes _ => .error .wrongType
  | name => (name.text?.map Text.upper).elim (.error .missingAttribute) .ok

/-- What a level word stands for: an unknown one for the middle level; two words are taken for other
things than levels, and those are refused. -/
def levelOf (word : String) : Except Fault Int :=
  match word with
  | "BASIC_FORMAT" =>
    .error (.badValue "Unknown level: '%(levelname)s:%(name)s:%(message)s'")
  | "_STYLES" => .error .wrongType
  | _ => .ok ((levelNumber? word).getD 20)

/-- The path that an option names, if any, and the files with the directories on its way. -/
def preparePath (files : Files) (path : Value) : Except Fault (Option Path × Files) := do
  if !path.truthy then return (none, files)
  match path.text? with
  | none => .error .wrongType
  | some s =>
    let components := Path.components s
    return (some (Path.resolve components), ← files.makeDirectory components.dropLast)

/-- Replaces the handlers: by one for the console, or by a queue with a listener for console and file. -/
def install (p : Pipeline) (level : Int) (console : Sink) (file : Option Sink) : Pipeline :=
  match file with
  | none => { p with level := level, handlers := [.direct console] }
  | some sink =>
    { p with level := level, handlers := [.queue], waiting := [], listener := some [console, sink] }

/-- Puts a configuration in force. The listener before it is stopped first, then directories are made and
the old handlers go; a configuration that fails on the way leaves what was done until then. -/
def configure (p : Pipeline) (o : Settings.LoggingOptions) : Except Fault Unit × Pipeline :=
  let p := p.shutdown
  let start : Except Fault (String × Layout × Option Path × Files) := do
    let word ← levelWord o.levelName
    let layout ← layoutOf o.consoleFormat
    let (path, files) ← preparePath p.files o.filePath
    return (word, layout, path, files)
  match start with
  | .error f => (.error f, p)
  | .ok (word, layout, path, files) =>
    let p := { p with files := files }
    let file : Except Fault (Option Sink) :=
      path.mapM (fun path => (layoutOf o.fileFormat).map (.file path))
    match file, levelOf word with
    | .error f, _ => (.error f, p)
    | .ok _, .error f => (.error f, { p with handlers := [] })
    | .ok file, .ok level => (.ok (), p.install level (.console layout) file)

/-- Configures logging from the environment, unless there are handlers already. -/
def setup (p : Pipeline) (env : Settings.Environment) : Except Fault Unit × Pipeline :=
  if !p.handlers.isEmpty then (.ok (), p)
  else match env.loggingOptions with
    | .ok o => p.configure o
    | .error f => (.error f, p)

def clear (p : Pipeline) : Pipeline := { p with handlers := [] }

end Pipeline

end StateEngine.Logging
