import StateEngine.Heap
import StateEngine.Machine.History

/-! The world of a run: the models, the machines with all that they share, and the history. -/
namespace StateEngine

/-- Objects that the host has given a name. -/
structure Directory where
  machines : Table String MachineId := {}
  states : Table String StateId := {}
  transitions : Table String TransitionId := {}
  firings : Table String FiringId := {}

/-- All that a run works on. The number of requests so far tells apart what different ones bring along. -/
structure World where
  states : Heap State := {}
  transitions : Heap Transition := {}
  events : Heap Event := {}
  firings : Heap Firing := {}
  rosters : Heap (List Value) := {}
  ledgers : Heap (Table Value Value) := {}
  machines : Heap Machine := {}
  models : Table String Model := {}
  invocations : Table String Nat := {}
  names : Directory := {}
  requests : Nat := 0
  history : Array Entry := #[]

namespace World

def machine (w : World) (m : MachineId) : Machine := w.machines.get m

def updateMachine (m : MachineId) (f : Machine → Machine) (w : World) : World :=
  { w with machines := w.machines.modify m f }

@[simp] theorem machine_updateMachine (w : World) (m n : MachineId) (f : Machine → Machine) :
    (w.updateMachine m f).machine n = if m = n then f (w.machine n) else w.machine n := by
  simp [machine, updateMachine]

def updateState (s : StateId) (f : State → State) (w : World) : World :=
  { w with states := w.states.modify s f }

def updateTransition (t : TransitionId) (f : Transition → Transition) (w : World) : World :=
  { w with transitions := w.transitions.modify t f }

def updateEvent (e : EventId) (f : Event → Event) (w : World) : World :=
  { w with events := w.events.modify e f }

def updateFiring (i : FiringId) (f : Firing → Firing) (w : World) : World :=
  { w with firings := w.firings.modify i f }

def model (w : World) (name : String) : Model := (w.models.find? name).getD default

def updateModel (name : String) (f : Model → Model) (w : World) : World :=
  { w with models := w.models.insert name (f (w.model name)) }

def record (entry : Entry) (w : World) : World := { w with history := w.history.push entry }

/-- The models bound to a machine, in order. -/
def boundModels (w : World) (m : MachineId) : List Value := w.rosters.get (w.machine m).roster

/-- The name that a reference to a state gives: that of a state or member, or else the value itself. -/
def nameOf (w : World) : Value → Value
  | .state s => (w.states.get s).name
  | v => v.registrationName

def snapshot (w : World) (i : FiringId) : Snapshot :=
  let f := w.firings.get i
  { state := (w.states.get f.state).name
    event := (w.events.get f.event).name
    model := f.model
    args := f.args
    named := f.named
    transition := f.transition.map (fun t =>
      ((w.transitions.get t).source, (w.transitions.get t).dest))
    fault := f.fault
    result := f.result }

def overview (w : World) (m : MachineId) : Overview :=
  let machine := w.machine m
  { label := machine.label
    initial := machine.initial
    hasQueue := machine.hasQueue
    modelAttribute := machine.accessor.name
    sendEvent := machine.sendEvent
    autoTransitions := machine.autoTransitions
    ignore := machine.ignore
    models := w.boundModels m
    states := machine.states.values.map w.states.get
    events := machine.events.entries.map (fun e =>
      (e.1, (w.events.get e.2).candidates.entries.map (fun c => (c.1, c.2.map w.transitions.get))))
    prepareEvent := machine.prepareEvent
    beforeChange := machine.beforeChange
    afterChange := machine.afterChange
    finalizeEvent := machine.finalizeEvent }

end World

/-- A computation of the engine. -/
abbrev Run (α : Type) := Act World α

/-- Makes a remark under a machine's label. -/
def remark (m : MachineId) (severity : Severity) (logger : Logger) (message : String) : Run Unit :=
  Act.change (fun w => w.record (.remarked severity logger ((w.machine m).label ++ message)))

end StateEngine
