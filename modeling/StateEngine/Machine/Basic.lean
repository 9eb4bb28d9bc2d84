import StateEngine.Line
import StateEngine.Table

/-! What a machine is made of: states, guarded transitions, events, firings, models, and the machine
itself. States, transitions, events and machines are shared objects and are named by their numbers. -/
namespace StateEngine

abbrev StateId := Nat
abbrev TransitionId := Nat
abbrev EventId := Nat
abbrev FiringId := Nat
abbrev MachineId := Nat
abbrev RosterId := Nat
abbrev LedgerId := Nat

/-- A callback is a name to be looked up, or a callable value. -/
abbrev Callback := Value

/-- Arguments given by name. -/
abbrev Named := List (String × Value)

/-- The source that stands for every registered state. -/
def everyState : Value := .text "*"

/-- The destination that stands for the source itself. -/
def sameState : Value := .text "="

/-- A state. Its value is what it writes into a model; a null `ignore` leaves it to the machine whether
triggers that do not apply are ignored. -/
structure State where
  value : Value
  onEnter : List Callback := []
  onExit : List Callback := []
  ignore : Value := .null
  deriving Inhabited

/-- The name under which a value registers: that of a member, or else the value itself. -/
def Value.registrationName : Value → Value
  | .member _ n _ _ => .text n
  | v => v

def State.name (s : State) : Value := s.value.registrationName

/-- The two moments at which a state runs callbacks. -/
inductive StateStage where
  | enter
  | exit
  deriving DecidableEq

namespace StateStage

def word : StateStage → String
  | enter => "enter"
  | exit => "exit"

def all : List StateStage := [enter, exit]

def ofValue? (v : Value) : Option StateStage := all.find? (fun s => v.same (.text s.word))

end StateStage

namespace State

def callbacks (s : State) : StateStage → List Callback
  | .enter => s.onEnter
  | .exit => s.onExit

def addCallback (s : State) (callback : Callback) : StateStage → State
  | .enter => { s with onEnter := s.onEnter ++ [callback] }
  | .exit => { s with onExit := s.onExit ++ [callback] }

end State

/-- A predicate and the result it has to give. -/
structure Guard where
  predicate : Callback
  target : Value
  deriving Inhabited

/-- The callbacks of a transition as they are specified: nothing, one, or several in a container. -/
structure Hooks where
  conditions : Value := .null
  exclusions : Value := .null
  before : Value := .null
  after : Value := .null
  prepare : Value := .null

/-- A candidate move. A null destination makes it internal: its callbacks run and the state stays. -/
structure Transition where
  source : Value
  dest : Value
  prepare : List Callback
  before : List Callback
  after : List Callback
  conditions : List Guard
  exclusions : List Guard
  deriving Inhabited

/-- The moments at which a transition runs callbacks of its own. -/
inductive TransitionStage where
  | before
  | after
  | prepare
  deriving DecidableEq

namespace TransitionStage

def word : TransitionStage → String
  | before => "before"
  | after => "after"
  | prepare => "prepare"

def all : List TransitionStage := [before, after, prepare]

def ofValue? (v : Value) : Option TransitionStage := all.find? (fun s => v.same (.text s.word))

end TransitionStage

namespace Transition

/-- Conditions have to give true and exclusions false. -/
def ofHooks (source dest : Value) (hooks : Hooks) : Transition where
  source := source
  dest := dest
  prepare := hooks.prepare.items
  before := hooks.before.items
  after := hooks.after.items
  conditions := hooks.conditions.items.map (fun c => ⟨c, .bool true⟩)
  exclusions := hooks.exclusions.items.map (fun c => ⟨c, .bool false⟩)

def guards (t : Transition) : List Guard := t.conditions ++ t.exclusions

def internal (t : Transition) : Bool := match t.dest with
  | .null => true
  | _ => false

def addCallback (t : Transition) (callback : Callback) : TransitionStage → Transition
  | .before => { t with before := t.before ++ [callback] }
  | .after => { t with after := t.after ++ [callback] }
  | .prepare => { t with prepare := t.prepare ++ [callback] }

end Transition

/-- A named trigger with its candidates for each source, in order of registration. -/
structure Event where
  name : Value
  machine : MachineId
  candidates : Table Value (List TransitionId) := {}
  deriving Inhabited

/-- One processing of an event: what its callbacks are told. -/
structure Firing where
  state : StateId
  event : EventId
  machine : MachineId
  model : Value
  args : List Value := []
  named : Named := []
  transition : Option TransitionId := none
  fault : Option Fault := none
  result : Bool := false
  deriving Inhabited

/-- A host object: its own attributes, its methods, and its properties, which run a callback whenever
they are read. -/
structure Model where
  attributes : Table String Value := {}
  methods : Table String String := {}
  properties : Table String String := {}
  deriving Inhabited

/-- Where the state of a model is kept: in one of its attributes, or in a ledger of the host that is
known by an attribute name. -/
inductive Accessor where
  | field (name : String)
  | ledger (name : String) (id : LedgerId)

namespace Accessor

instance : Inhabited Accessor := ⟨.field "state"⟩

def name : Accessor → String
  | field n => n
  | ledger n _ => n

end Accessor

/-- How callback names are looked up: on the model and among importable modules, or in a table. -/
inductive Resolver where
  | standard
  | table (callbacks : List (String × String))
  deriving Inhabited

/-- What waits in a machine's line. -/
inductive Task where
  | fire (event : EventId) (model : Value) (args : List Value) (named : Named)
  | call (callback : Callback)
  deriving Inhabited

structure Machine where
  label : String := ""
  accessor : Accessor := .field "state"
  resolver : Resolver := .standard
  hasQueue : Value := .bool false
  line : Line Task := .direct false
  initial : Value := .null
  sendEvent : Value := .bool false
  autoTransitions : Value := .bool true
  ignore : Value := .bool false
  states : Table Value StateId := {}
  events : Table Value EventId := {}
  roster : RosterId := 0
  prepareEvent : List Callback := []
  beforeChange : List Callback := []
  afterChange : List Callback := []
  finalizeEvent : List Callback := []
  deriving Inhabited

end StateEngine
