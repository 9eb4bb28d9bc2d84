import StateEngine.Value.Equality
import StateEngine.Value.Text

/-! Faults: the ways an operation can fail, each with its kind, its message and its details. -/
namespace StateEngine

/-- How many items or characters one result may take up beyond its parts; more is out of memory. -/
def greatestSize : Nat := Number.twoTo 28

/-- The kinds of fault a host callback raises of its own accord. An abort stands apart: it is a request
to stop and no error, so nothing that handles errors sees it. -/
inductive HostFault where
  | runtime
  | value
  | attribute
  | type
  | abort
  deriving DecidableEq

/-- Why an operation failed. -/
inductive Fault where
  | general (message : String)
  | misuse (message : String)
  | invalidTrigger (message : String) (event state : Value)
  | unknownEvent (event : Value)
  | unregisteredState (name : Value)
  | foreignState (name : Value)
  | reservedTrigger (trigger : Value)
  | tooFewStates
  | argumentCount
  | noInitialState
  | unresolved (name : Value)
  | duplicateState (name : Value)
  | unknownStateStage (stage : Value)
  | unknownTransitionStage (stage : Value)
  | blankAttribute
  | notAMember (value : Value) (enumeration : String)
  | unsupportedState (entry : Value)
  | wrongType
  | missingAttribute
  | missingKey
  | missingIndex
  | changedWhileRead
  | overflow
  | outOfMemory
  | fileExists
  | notADirectory
  | badValue (message : String)
  | raised (kind : HostFault) (message : String)
  deriving Inhabited

namespace Fault

def kind : Fault → String
  | general _ => "TriggerflowError"
  | misuse _ => "MachineError"
  | invalidTrigger .. => "UnknownTriggerError"
  | unknownEvent _ => "UnknownEventError"
  | unregisteredState _ => "RegisteredStateError"
  | foreignState _ => "UnknownStateError"
  | reservedTrigger _ => "TriggerNameError"
  | tooFewStates => "InsufficientStatesError"
  | argumentCount => "ArgumentsError"
  | noInitialState => "InitialStateError"
  | unresolved _ => "CallableError"
  | duplicateState _ | unknownStateStage _ | unknownTransitionStage _ | blankAttribute
  | notAMember .. | badValue _ | raised .value _ => "ValueError"
  | unsupportedState _ | wrongType | raised .type _ => "TypeError"
  | missingAttribute | raised .attribute _ => "AttributeError"
  | missingKey => "KeyError"
  | missingIndex => "IndexError"
  | changedWhileRead | raised .runtime _ => "RuntimeError"
  | overflow => "OverflowError"
  | outOfMemory => "MemoryError"
  | fileExists => "FileExistsError"
  | notADirectory => "NotADirectoryError"
  | raised .abort _ => "Abort"

/-- The message of a fault; those without one are told by their kind alone. -/
def message? : Fault → Option String
  | general m | misuse m | invalidTrigger m _ _ | badValue m | raised _ m => some m
  | unknownEvent event => some ("Do not know event named '" ++ event.display ++ "'.")
  | unregisteredState name => some ("State '" ++ name.display ++ "' is not a registered state.")
  | foreignState name => some ("State " ++ name.display ++ " has not been added to the machine")
  | reservedTrigger _ => some "Trigger name cannot be same as model attribute name."
  | tooFewStates =>
    some "Can't create ordered transitions on a Machine with fewer than 2 states."
  | argumentCount =>
    some "Argument length must be either 1 or the same length as the number of transitions."
  | noInitialState =>
    some "No initial state configured for machine, must specify when adding model."
  | unresolved name =>
    some ("Callable with name '" ++ name.display ++
      "' could neither be retrieved from the passed model nor imported from a module.")
  | duplicateState name => some ("duplicate state name: " ++ name.display)
  | unknownStateStage stage => some ("unknown state callback kind: " ++ stage.display)
  | unknownTransitionStage stage => some ("unknown transition callback kind: " ++ stage.display)
  | blankAttribute => some "attribute must not be empty"
  | notAMember v e => some (v.description ++ " is not a valid " ++ e)
  | unsupportedState entry => some ("unsupported state definition: " ++ entry.description)
  | wrongType | missingAttribute | missingKey | missingIndex | changedWhileRead | overflow | outOfMemory
  | fileExists | notADirectory => none

/-- What a fault says beside its message, for a handler to read. -/
def details : Fault → List (String × Value)
  | invalidTrigger _ event state => [("event", event), ("state", state)]
  | unknownEvent event => [("event", event)]
  | unregisteredState name | foreignState name => [("state", name)]
  | reservedTrigger trigger => [("trigger", trigger)]
  | unresolved name => [("callable_name", name)]
  | _ => []

/-- Whether a handler of errors catches it: everything but an abort. -/
def isError : Fault → Bool
  | raised .abort _ => false
  | _ => true

/-- Whether a lookup that sees it takes the attribute for missing. -/
def isMissingAttribute : Fault → Bool
  | unknownEvent _ | unresolved _ | missingAttribute | raised .attribute _ => true
  | _ => false

/-- The classes of engine faults, in alphabetical order. -/
def engineKinds : List String :=
  ["ArgumentsError", "CallableError", "InitialStateError", "InsufficientStatesError",
    "MachineError", "RegisteredStateError", "TriggerNameError", "TriggerflowError",
    "UnknownEventError", "UnknownStateError", "UnknownTriggerError"]

private def engineFamily : Fault → List String
  | general _ => ["TriggerflowError"]
  | misuse _ => ["MachineError", "TriggerflowError"]
  | invalidTrigger .. => ["UnknownTriggerError", "MachineError", "TriggerflowError"]
  | f => if engineKinds.contains f.kind then [f.kind, "TriggerflowError"] else []

private def hostFamily (f : Fault) : List String :=
  if f.isMissingAttribute then ["AttributeError"]
  else match f with
    | unregisteredState _ | foreignState _ | reservedTrigger _ | tooFewStates | argumentCount
    | noInitialState | duplicateState _ | unknownStateStage _ | unknownTransitionStage _
    | blankAttribute | notAMember .. | badValue _ | raised .value _ => ["ValueError"]
    | unsupportedState _ | wrongType | raised .type _ => ["TypeError"]
    | _ => []

/-- Every class a fault belongs to: the engine's in alphabetical order, then the host's. -/
def classes (f : Fault) : List String :=
  engineKinds.filter (fun k => f.engineFamily.contains k) ++ f.hostFamily

/-- A message given by position: none is empty, one is its text, several are described together. -/
def messageOf : List Value → String
  | [] => ""
  | [v] => v.display
  | vs => (Value.tuple vs).description

private def onlyName (parameter : String) (positional : List Value)
    (named : List (String × Value)) : Option Value :=
  match positional, named with
  | [v], [] => some v
  | [], [(name, v)] => if name = parameter then some v else none
  | _, _ => none

private def eventAndState (named : List (String × Value)) : Option (Value × Value) :=
  match named.lookup "event", named.lookup "state" with
  | some e, some s => some (e, s)
  | _, _ => none

/-- The engine fault of a given class with given arguments, if the class takes such arguments. -/
def ofArguments (kind : String) (positional : List Value) (named : List (String × Value)) :
    Except Fault Fault :=
  let wrong : Except Fault Fault := .error wrongType
  let unary (parameter : String) (make : Value → Fault) : Except Fault Fault :=
    ((onlyName parameter positional named).map make).elim wrong .ok
  let constant (f : Fault) : Except Fault Fault :=
    if positional.isEmpty && named.isEmpty then .ok f else wrong
  match kind with
  | "TriggerflowError" => if named.isEmpty then .ok (general (messageOf positional)) else wrong
  | "MachineError" => if named.isEmpty then .ok (misuse (messageOf positional)) else wrong
  | "UnknownTriggerError" =>
    let message := match positional with
      | [m] => if named.length = 2 then some m else none
      | [] => if named.length = 3 then named.lookup "message" else none
      | _ => none
    match message, eventAndState named with
    | some m, some (e, s) => .ok (invalidTrigger m.display e s)
    | _, _ => wrong
  | "UnknownEventError" => unary "name" unknownEvent
  | "RegisteredStateError" => unary "name" unregisteredState
  | "UnknownStateError" => unary "name" foreignState
  | "TriggerNameError" => unary "trigger" reservedTrigger
  | "CallableError" => unary "name" unresolved
  | "InsufficientStatesError" => constant tooFewStates
  | "ArgumentsError" => constant argumentCount
  | "InitialStateError" => constant noInitialState
  | _ => wrong

end Fault

/-- The fault of a kind that a host raises by name. -/
def Fault.ofHost (kind message : String) : Fault :=
  match kind with
  | "RuntimeError" => .raised .runtime message
  | "ValueError" => .raised .value message
  | "AttributeError" => .raised .attribute message
  | "TypeError" => .raised .type message
  | "Abort" => .raised .abort message
  | _ => .misuse message

end StateEngine
