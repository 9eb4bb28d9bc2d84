import StateEngine.Signature

/-! Option records: the scalar options of a machine and those of the logging pipeline. -/
namespace StateEngine.Settings

/-- The scalar options of a machine. A host may put any value into them. -/
structure MachineOptions where
  initial : Value := .text "initial"
  sendEvent : Value := .bool false
  autoTransitions : Value := .bool true
  orderedTransitions : Value := .bool false
  ignoreInvalid : Value := .bool false
  queued : Value := .bool false
  modelAttribute : Value := .text "state"
  name : Value := .null

namespace MachineOptions

def fields (o : MachineOptions) : List (String × Value) :=
  [("initial", o.initial), ("send_event", o.sendEvent), ("auto_transitions", o.autoTransitions),
    ("ordered_transitions", o.orderedTransitions), ("ignore_invalid_triggers", o.ignoreInvalid),
    ("queued", o.queued), ("model_attribute", o.modelAttribute), ("name", o.name)]

def record (o : MachineOptions) : Value := .record "MachineConfig" o.fields

/-- The options given by name, the others by default; any other name is refused. -/
def ofNamed (named : List (String × Value)) : Except Fault MachineOptions := do
  let signature : Signature := fields {} |>.map (fun f => ⟨f.1, some f.2⟩)
  match ← signature.bind [] named with
  | [initial, sendEvent, autoTransitions, orderedTransitions, ignoreInvalid, queued, modelAttribute,
      name] =>
    return ⟨initial, sendEvent, autoTransitions, orderedTransitions, ignoreInvalid, queued,
      modelAttribute, name⟩
  | _ => .error .wrongType

end MachineOptions

/-- The options of the logging pipeline. -/
structure LoggingOptions where
  levelName : Value := .text "INFO"
  consoleFormat : Value := .text "text"
  filePath : Value := .null
  fileFormat : Value := .text "json"

namespace LoggingOptions

def fields (o : LoggingOptions) : List (String × Value) :=
  [("level_name", o.levelName), ("console_format", o.consoleFormat), ("file_path", o.filePath),
    ("file_format", o.fileFormat)]

def record (o : LoggingOptions) : Value := .record "LoggingConfig" o.fields

/-- The options given by name, the others by default; any other name is refused. -/
def ofNamed (named : List (String × Value)) : Except Fault LoggingOptions := do
  let signature : Signature := fields {} |>.map (fun f => ⟨f.1, some f.2⟩)
  match ← signature.bind [] named with
  | [levelName, consoleFormat, filePath, fileFormat] =>
    return ⟨levelName, consoleFormat, filePath, fileFormat⟩
  | _ => .error .wrongType

end LoggingOptions

end StateEngine.Settings
