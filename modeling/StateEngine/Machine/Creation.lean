import StateEngine.Machine.Models
import StateEngine.Settings.Environment

/-! Making a machine from a specification. -/
namespace StateEngine

/-- How a host wants the states of models to be kept: in the attribute of a given name, or in a ledger of
its own that goes by a name. -/
inductive AccessorPlan where
  | field (name : Value)
  | ledger (name : String)

/-- What a machine is made from. Without an accessor of the host its attribute name counts. -/
structure Blueprint where
  options : Settings.MachineOptions := {}
  models : Value := .null
  states : Value := .null
  transitions : Value := .null
  prepareEvent : Value := .null
  beforeChange : Value := .null
  afterChange : Value := .null
  finalizeEvent : Value := .null
  accessor : Option AccessorPlan := none
  resolver : Resolver := .standard

/-- An attribute is named by a text with something but blanks in it, and the blanks around that do not
count. -/
def Accessor.ofName (name : Value) : Except Fault Accessor :=
  match name.text? with
  | none => .error .missingAttribute
  | some s => if Text.strip s = "" then .error .blankAttribute else .ok (.field (Text.strip s))

def World.makeAccessor (w : World) (plan : AccessorPlan) : Except Fault (Accessor × World) :=
  match plan with
  | .field name => (Accessor.ofName name).map (fun a => (a, w))
  | .ledger name =>
    .ok (.ledger name w.ledgers.next, { w with ledgers := w.ledgers.push default })

/-- The text in front of a machine's remarks: its name and a colon, or nothing. -/
def labelOf (name : Value) : String := if name.truthy then name.display ++ ": " else ""

/-- A machine with its options and nothing registered. -/
def World.makeMachine (w : World) (plan : Blueprint) : Except Fault (MachineId × World) := do
  let o := plan.options
  let (accessor, w) ← w.makeAccessor (plan.accessor.getD (.field o.modelAttribute))
  let machine : Machine := {
    label := labelOf o.name
    accessor := accessor
    resolver := plan.resolver
    hasQueue := o.queued
    line := .idle o.queued.truthy
    sendEvent := o.sendEvent
    autoTransitions := o.autoTransitions
    ignore := .bool o.ignoreInvalid.truthy
    roster := w.rosters.next
    prepareEvent := plan.prepareEvent.items
    beforeChange := plan.beforeChange.items
    afterChange := plan.afterChange.items
    finalizeEvent := plan.finalizeEvent.items }
  return (w.machines.next,
    { w with rosters := w.rosters.push [], machines := w.machines.push machine })

def unlessNull (v : Value) (action : Value → Run Unit) : Run Unit :=
  match v with
  | .null => return ()
  | v => action v

/-- Makes a machine and registers all that its specification names: states, the initial state,
transitions, a row through all states, and models, in this order. -/
def Engine.create (E : Engine) (plan : Blueprint) : Run MachineId := do
  let m ← do
    let (m, w) ← Act.ask (fun w => w.makeMachine plan)
    set w
    pure m
  unlessNull plan.states (fun v => E.addStates m v {})
  unlessNull plan.options.initial (E.setInitial m)
  unlessNull plan.transitions (connectDefinitions m)
  if plan.options.orderedTransitions.truthy then connectRow m {}
  unlessNull plan.models (fun v => E.bindModels m v .null)
  return m

end StateEngine
