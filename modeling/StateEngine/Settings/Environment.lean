import StateEngine.Settings.Options
import StateEngine.Text.Blank
import StateEngine.Text.Uppercase

/-! Options read from environment variables. -/
namespace StateEngine.Settings

/-- The variables that are set, with their texts. -/
abbrev Environment := List (String × String)

namespace Environment

/-- The variables of given names and texts. The character zero ends a text of the system and an equals sign
a name, so neither can be within. -/
def ofEntries (entries : List (Value × Value)) : Except Fault Environment :=
  entries.mapM (fun entry =>
    match entry.1.text?, entry.2.text? with
    | some name, some text =>
      if name.contains '\x00' || text.contains '\x00' then .error (.badValue "embedded null byte")
      else if name.contains '=' then .error (.badValue "illegal environment variable name")
      else .ok (name, text)
    | _, _ => .error .wrongType)

private def lowerWord (s : String) : String := String.ofList ((Text.strip s).toList.map Char.toLower)

private theorem lowerWord_of_blank {s : String} (h : Text.Blank s) : lowerWord s = "" := by
  simp [lowerWord, Text.strip_of_blank h]

/-- A switch is on for `1`, `true`, `yes` and `on` in any case and off for any other text. -/
def switch (env : Environment) (key : String) (default : Bool) : Bool :=
  match env.lookup key with
  | none => default
  | some raw => ["1", "true", "yes", "on"].contains (lowerWord raw)

/-- A blank switch is off, whatever the default. -/
theorem switch_of_blank {env : Environment} {key raw : String} (h : env.lookup key = some raw)
    (blank : Text.Blank raw) (default : Bool) : env.switch key default = false := by
  simp [switch, h, lowerWord_of_blank blank]

/-- A text without the blanks around it; a blank one counts as unset. -/
def word (env : Environment) (key : String) : Option String :=
  match env.lookup key with
  | none => none
  | some raw => if Text.strip raw = "" then none else some (Text.strip raw)

theorem word_of_blank {env : Environment} {key raw : String} (h : env.lookup key = some raw)
    (blank : Text.Blank raw) : env.word key = none := by
  simp [word, h, Text.strip_of_blank blank]

/-- One of a few words in lower case; any other text counts as unset. The words are of ASCII, and no
letter outside it has one of theirs for its lower case. -/
def oneOf (env : Environment) (key : String) (choices : List String) (default : String) : String :=
  match env.lookup key with
  | none => default
  | some raw => if choices.contains (lowerWord raw) then lowerWord raw else default

theorem oneOf_of_blank {env : Environment} {key raw : String} (h : env.lookup key = some raw)
    (blank : Text.Blank raw) {choices : List String} (proper : "" ∉ choices) (default : String) :
    env.oneOf key choices default = default := by
  simp [oneOf, h, lowerWord_of_blank blank, proper]

/-- White space of ASCII among octets. -/
private def isBlankOctet (b : UInt8) : Bool := b == 32 || (9 ≤ b && b ≤ 13)

private def upperOctet (b : UInt8) : UInt8 := if 97 ≤ b && b ≤ 122 then b - 32 else b

private def stripOctets (octets : List UInt8) : List UInt8 :=
  ((octets.dropWhile isBlankOctet).reverse.dropWhile isBlankOctet).reverse

/-- The level name in upper case: the engine's own variable, else the common one, else the default.
Neither variable counts as unset when it is blank, and the default has to be a text or octets. -/
def levelName (env : Environment) (default : Value := .text "INFO") : Except Fault Value :=
  let given := (env.lookup "TRIGGERFLOW_LOG_LEVEL").or (env.lookup "LOG_LEVEL")
  match (given.map Value.text).getD default with
  | .bytes octets => .ok (.bytes ((stripOctets octets).map upperOctet))
  | v => match v.text? with
    | some s => .ok (.text (Text.upper (Text.strip s)))
    | none => .error .missingAttribute

def loggingOptions (env : Environment) : Except Fault LoggingOptions := do
  let level ← env.levelName
  return {
    levelName := level
    consoleFormat := .text (env.oneOf "TRIGGERFLOW_LOG_FORMAT" ["text", "json"] "text")
    filePath := ((env.word "TRIGGERFLOW_LOG_FILE").map Value.text).getD .null
    fileFormat := .text (env.oneOf "TRIGGERFLOW_LOG_FILE_FORMAT" ["text", "json"] "json") }

/-- The options of a machine: its name and initial state come from the caller, and it orders its states
only on the caller's word. -/
def machineOptions (env : Environment) (name : Value := .null) (initial : Value := .text "initial") :
    MachineOptions where
  initial := initial
  sendEvent := .bool (env.switch "TRIGGERFLOW_SEND_EVENT" false)
  autoTransitions := .bool (env.switch "TRIGGERFLOW_AUTO_TRANSITIONS" true)
  ignoreInvalid := .bool (env.switch "TRIGGERFLOW_IGNORE_INVALID_TRIGGERS" false)
  queued := .bool (env.switch "TRIGGERFLOW_QUEUED" false)
  modelAttribute := .text ((env.word "TRIGGERFLOW_MODEL_ATTRIBUTE").getD "state")
  name := name

/-- The same where arguments might be given, none of which are taken. -/
def loggingOptionsOf (env : Environment) (named : List (String × Value)) : Except Fault LoggingOptions :=
  if named.isEmpty then env.loggingOptions else .error .wrongType

/-- The options of a machine with name and initial state given by name; any other name is refused. -/
def machineOptionsOf (env : Environment) (named : List (String × Value)) :
    Except Fault MachineOptions := do
  let signature : Signature := [⟨"name", some .null⟩, ⟨"initial", some (.text "initial")⟩]
  match ← signature.bind [] named with
  | [name, initial] => return env.machineOptions name initial
  | _ => .error .wrongType

end Environment

end StateEngine.Settings
