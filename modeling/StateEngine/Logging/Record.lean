import StateEngine.Json
import StateEngine.Logging.Template

/-! Log records and their two layouts: a plain line, and a line of JSON. -/
namespace StateEngine.Logging

/-- The name of a numeric level. -/
def levelName (level : Int) : String :=
  match level with
  | 50 => "CRITICAL"
  | 40 => "ERROR"
  | 30 => "WARNING"
  | 20 => "INFO"
  | 10 => "DEBUG"
  | 0 => "NOTSET"
  | n => "Level " ++ toString n

/-- The number of a level name. -/
def levelNumber? (name : String) : Option Int :=
  match name with
  | "CRITICAL" | "FATAL" => some 50
  | "ERROR" => some 40
  | "WARNING" | "WARN" => some 30
  | "INFO" => some 20
  | "DEBUG" => some 10
  | "NOTSET" => some 0
  | _ => none

/-- What a record shows for a level that is any value: the name of a number, the number of a name, or else
the value itself behind a word. -/
def levelLabel (level : Value) : Except Fault Value :=
  match [50, 40, 30, 20, 10, 0].find? (fun n => level.same (.int n)), level.text?.bind levelNumber? with
  | some n, _ => .ok (.text (levelName n))
  | none, some n => .ok (.int n)
  | none, none =>
    if !level.hashable then .error .wrongType
    else match level with
      | .tuple [v] => .ok (.text ("Level " ++ v.display))
      | .tuple _ => .error .wrongType
      | v => .ok (.text ("Level " ++ v.display))

/-- What a record tells of an exception: nothing, its text, or a value that was put in its place. -/
inductive Trouble where
  | none
  | text (s : String)
  | other (v : Value)

namespace Trouble

/-- A value is read like a triple of a class, an exception and where it was raised. One without the last
two is the text of no exception; all else in their places has no text. -/
private def ofTriple : List Value → Except Fault (Option String)
  | _ :: .null :: .null :: _ => .ok (some "NoneType: None")
  | _ :: _ :: _ :: _ => .error .missingAttribute
  | _ => .error .missingIndex

/-- The text of an exception, if there is any. What counts as false is no exception. -/
def text? : Trouble → Except Fault (Option String)
  | none => .ok Option.none
  | text s => .ok (some s)
  | other v =>
    if !v.truthy then .ok Option.none
    else match v with
      | .list vs | .tuple vs => ofTriple vs
      | .bytes octets => ofTriple (octets.map (fun b => .int b.toNat))
      | .map entries =>
        match [2, 0, 1].map (fun n => entries.find? (fun e => e.1.same (.int n))) with
        | [some third, some first, some second] => ofTriple [first.2, second.2, third.2]
        | _ => .error .missingKey
      | .enumeration .. => .error .missingKey
      | v => match v.text? with
        | some s => ofTriple (s.toList.map (fun c => .text c.toString))
        | Option.none => .error .wrongType

end Trouble

/-- One record. Its extras are the attributes beyond those that every record has. -/
structure LogRecord where
  logger : Value
  levelName : Value
  template : Value
  arguments : Value := .tuple []
  extras : List (Value × Value) := []
  exception : Trouble := .none

/-- Names that every record has for its own data. -/
def recordNames : List String :=
  ["name", "msg", "args", "levelname", "levelno", "pathname", "filename", "module", "exc_info",
    "exc_text", "stack_info", "lineno", "funcName", "created", "msecs", "relativeCreated", "thread",
    "threadName", "processName", "process"]

/-- Names that never count as extras: the record's own ones, those that a layout sets, and the one of
the running task. -/
def standardNames : List String := recordNames ++ ["taskName", "asctime", "message"]

/-- Names that a caller's extras must not have. -/
def reservedNames : List String := recordNames ++ ["asctime", "message"]

/-- The text of an exception: its kind, qualified where the engine defines it, and its message. -/
def exceptionText (kind message : String) : String :=
  let qualified := if Fault.engineKinds.contains kind then "triggerflow.api.errors." ++ kind else kind
  if message = "" then qualified else qualified ++ ": " ++ message

/-- Arguments by place; a single map that holds something stands for its entries. -/
def argumentsOf : List Value → Value
  | [.map (e :: es)] => .map (e :: es)
  | vs => .tuple vs

namespace LogRecord

def make (logger levelName template : Value) (arguments : List Value) (exception : Trouble) :
    LogRecord where
  logger := logger
  levelName := levelName
  template := template
  arguments := argumentsOf arguments
  exception := exception

/-- Sets an attribute; those that every record has are overwritten. -/
def setAttribute (r : LogRecord) (name v : Value) : LogRecord :=
  let added : LogRecord := { r with extras := r.extras ++ [(name, v)] }
  match name.text? with
  | none => added
  | some "name" => { r with logger := v }
  | some "levelname" => { r with levelName := v }
  | some "msg" => { r with template := v }
  | some "args" => { r with arguments := v }
  | some "exc_info" => { r with exception := .other v }
  | some s => if standardNames.contains s then r else added

/-- The message: the template filled with the arguments. An extra with the name of this operation takes
its place, and as a value it does not fill anything. -/
def message (r : LogRecord) : Except Fault String :=
  if r.extras.any (fun e => e.1.same (.text "getMessage")) then .error .wrongType
  else fillTemplate r.template.display r.arguments

/-- The message with the exception on lines of its own. -/
def fullMessage (r : LogRecord) : Except Fault String := do
  let text ← r.message
  match ← r.exception.text? with
  | none => return text
  | some e => return if text.endsWith "\n" then text ++ e else text ++ "\n" ++ e

/-- The plain layout: time, level, logger and full message. -/
def plainLine (time : String) (r : LogRecord) : Except Fault String := do
  return time ++ " " ++ r.levelName.display ++ " " ++ r.logger.display ++ ": " ++ (← r.fullMessage)

/-- The JSON layout as a value: extras, if any, under `fields`, and the exception, if any, apart. -/
def payload (time message : String) (exception : Option String) (r : LogRecord) : Value :=
  .map ([(.text "ts", .text time), (.text "level", r.levelName), (.text "logger", r.logger),
      (.text "msg", .text message)] ++
    (if r.extras.isEmpty then [] else [(.text "fields", .map r.extras)]) ++
    (exception.map (fun e => (Value.text "exc_info", Value.text e))).toList)

def jsonLine (time : String) (r : LogRecord) : Except Fault String := do
  let message ← r.message
  match Json.encode false false (r.payload time message (← r.exception.text?)) with
  | some text => return text
  | none => .error .wrongType

end LogRecord

/-- How a handler writes a record. -/
inductive Layout where
  | plain
  | json
  deriving DecidableEq

namespace Layout

def write (layout : Layout) (time : String) (r : LogRecord) : Except Fault String :=
  match layout with
  | plain => r.plainLine time
  | json => r.jsonLine time

end Layout

end StateEngine.Logging
