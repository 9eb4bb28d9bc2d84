import StateEngine.Machine.Basic

/-! What a run shows: the answers to operations, and the history of calls, remarks and state accesses. -/
namespace StateEngine

/-- The parts of the engine that make remarks. -/
inductive Logger where
  | machine
  | event
  | transition
  | state
  deriving DecidableEq

namespace Logger

def all : List Logger := [machine, event, transition, state]

def name : Logger → String
  | machine => "triggerflow.machine"
  | event => "triggerflow.event"
  | transition => "triggerflow.transition"
  | state => "triggerflow.state"

end Logger

/-- How urgent a remark is. -/
inductive Severity where
  | debug
  | info
  | warning
  deriving DecidableEq

namespace Severity

def rank : Severity → Nat
  | debug => 10
  | info => 20
  | warning => 30

def name : Severity → String
  | debug => "DEBUG"
  | info => "INFO"
  | warning => "WARNING"

end Severity

/-- A firing as it stood at one moment. -/
structure Snapshot where
  state : Value
  event : Value
  model : Value
  args : List Value
  named : Named
  transition : Option (Value × Value)
  fault : Option Fault
  result : Bool

/-- A machine as it stood at one moment. -/
structure Overview where
  label : String
  initial : Value
  hasQueue : Value
  modelAttribute : String
  sendEvent : Value
  autoTransitions : Value
  ignore : Value
  models : List Value
  states : List State
  events : List (Value × List (Value × List Transition))
  prepareEvent : List Callback
  beforeChange : List Callback
  afterChange : List Callback
  finalizeEvent : List Callback

/-- The answer to an operation. -/
inductive Reply where
  | value (v : Value)
  | state (s : State)
  | transition (t : Transition)
  | transitions (ts : List Transition)
  | firing (s : Snapshot)
  | executed (fired : Bool) (s : Snapshot)
  | overview (o : Overview)

/-- One entry of a history. -/
inductive Entry where
  | called (label : String) (args : List Value) (named : Named)
  | notified (label : String) (snapshot : Snapshot)
  | performed (verb : String) (result : Except Fault Reply)
  | remarked (severity : Severity) (logger : Logger) (message : String)
  | resolving (name : Value)
  | stateRead (model value : Value)
  | stateWritten (model value : Value)

end StateEngine
