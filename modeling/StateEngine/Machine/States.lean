import StateEngine.Machine.Engine
import StateEngine.Signature
import StateEngine.Spread

/-! Registering states: their own entries, the callbacks that bound models offer by convention, the
transitions that lead to every state, and rows of transitions through several states. -/
namespace StateEngine

/-- Options of the states that one call registers. -/
structure StateOptions where
  onEnter : Value := .null
  onExit : Value := .null
  ignore : Value := .null

namespace World

def addState (w : World) (s : State) : StateId × World :=
  (w.states.next, { w with states := w.states.push s })

/-- The parameters of a state definition that is given by name. -/
def stateParameters (ignore : Value) : Signature :=
  [⟨"name", none⟩, ⟨"on_enter", some .null⟩, ⟨"on_exit", some .null⟩,
    ⟨"ignore_invalid_triggers", some ignore⟩]

/-- The entries of a map whose keys are all texts. -/
def namedEntries (entries : List (Value × Value)) : Except Fault Named :=
  entries.mapM (fun e => match e.1.text? with
    | some key => .ok (key, e.2)
    | none => .error .wrongType)

/-- The state that an entry defines: a name or member makes one with the options of the call, a map makes
one from its own entries and takes only the ignore flag from the call, and a state stands for itself. -/
def stateOf (w : World) (options : StateOptions) (entry : Value) : Except Fault (StateId × World) := do
  match entry with
  | .text _ | .member .. =>
    return w.addState
      ⟨entry, options.onEnter.items, options.onExit.items, options.ignore⟩
  | .map entries =>
    match ← (stateParameters options.ignore).bind [] (← namedEntries entries) with
    | [name, onEnter, onExit, ignore] => return w.addState ⟨name, onEnter.items, onExit.items, ignore⟩
    | _ => .error .wrongType
  | .state s => return (s, w)
  | v => .error (.unsupportedState v)

/-- Files the state of an entry under its name, which must be new. -/
def enroll (w : World) (m : MachineId) (options : StateOptions) (entry : Value) :
    Except Fault (StateId × World) := do
  let (s, w) ← w.stateOf options entry
  let name := (w.states.get s).name
  if !name.hashable then .error .wrongType
  if (w.machine m).states.contains name then .error (.duplicateState name)
  return (s, w.updateMachine m (fun machine => { machine with states := machine.states.insert name s }))

end World

namespace Engine

/-- The method name that a model offers for a stage of a state. -/
def conventionName (stage : StateStage) (state : State) : String :=
  "on_" ++ stage.word ++ "_" ++ state.name.display

/-- Adds the name of a model's method for a stage of a state to the state's callbacks, once. -/
def bindConvention (E : Engine) (m : MachineId) (s : StateId) (model : Value) (stage : StateStage) :
    Run Unit := do
  let state := (← get).states.get s
  let name := conventionName stage state
  match ← E.readAttribute? model name with
  | some (.method ..) =>
    if !(Value.text name).isIn (((← get).states.get s).callbacks stage) then
      Act.change (World.updateState s (·.addCallback (.text name) stage))
      remark m .debug .machine ("Bound " ++ name ++ " to state " ++ state.name.display ++ ".")
  | _ => return ()

def bindConventions (E : Engine) (m : MachineId) (s : StateId) (model : Value) : Run Unit :=
  StateStage.all.forM (E.bindConvention m s model)

/-- Goes through the models of a roster, which may grow meanwhile. -/
def forRoster (roster : RosterId) (action : Value → Run Unit) : Nat → Nat → Run Unit
  | 0, _ => Act.exhausted
  | fuel + 1, position => do
    match ((← get).rosters.get roster)[position]? with
    | some model =>
      action model
      forRoster roster action fuel (position + 1)
    | none => return ()

/-- Connects a new state with every state registered so far: each other one's trigger leads there from
it, and its own trigger leads to it from everywhere. -/
def connectAutomatically (m : MachineId) (s : StateId) : Run Unit := do
  let w ← get
  let name := (w.states.get s).name
  (w.machine m).states.keys.forM (fun other => do
    let source := if other.same name then everyState else name
    Act.advance (fun w => w.connect m (.text ("to_" ++ other.display)) source other {}))

def addState (E : Engine) (m : MachineId) (options : StateOptions) (entry : Value) : Run Unit := do
  let s ← do
    let (s, w) ← Act.ask (fun w => w.enroll m options entry)
    set w
    pure s
  forRoster ((← get).machine m).roster (E.bindConventions m s) E.bound 0
  if ((← get).machine m).autoTransitions.truthy then connectAutomatically m s

/-- Registers the states of a specification one after the other. -/
def addStates (E : Engine) (m : MachineId) (states : Value) (options : StateOptions) : Run Unit :=
  states.items.forM (E.addState m options)

/-- Makes a state the initial one, and registers it before if its name is new. A state must be the one
that is registered under its name. -/
def setInitial (E : Engine) (m : MachineId) (v : Value) : Run Unit := do
  let w ← get
  let name := w.nameOf v
  if !name.hashable then Act.fail .wrongType
  if !(w.machine m).states.contains name then E.addStates m v {}
  else match v with
    | .state s => if !w.owns m s then Act.fail (.foreignState name)
    | _ => pure ()
  Act.change (World.updateMachine m (fun machine => { machine with initial := name }))

end Engine

/-- A row of transitions: its states, its trigger, and whether and where it closes to a loop. -/
structure Row where
  states : Value := .null
  trigger : Value := .text "next_state"
  loop : Value := .bool true
  loopIncludesInitial : Value := .bool true
  hooks : Hooks := {}

/-- The names from an initial one on, followed by those in front of it; unchanged if it is not there. -/
def rotateTo (initial : Value) (names : List Value) : List Value :=
  let front := names.takeWhile (fun n => !(n == initial))
  if initial.isIn names then names.drop front.length ++ front else names

/-- The moves of a row through its names: each leads to the next, and a loop leads from the last one to
the first, or to the second when the initial state, which comes first, is left out. -/
def rowMoves (initial : Value) (names : List Value) (loop includesInitial : Bool) :
    List (Value × Value) :=
  let row := rotateTo initial names
  let steps := row.zip row.tail
  let target := if initial.isIn names && !includesInitial then row[1]? else row.head?
  match loop, row.getLast?, target with
  | true, some last, some first => steps ++ [(last, first)]
  | _, _, _ => steps

namespace World

/-- One set of callbacks for each of several transitions. -/
def spreadHooks (count : Nat) (hooks : Hooks) : Except Fault (List Hooks) := do
  let conditions ← spread count hooks.conditions
  let exclusions ← spread count hooks.exclusions
  let before ← spread count hooks.before
  let after ← spread count hooks.after
  let prepare ← spread count hooks.prepare
  return (List.range count).map (fun i =>
    { conditions := conditions.getD i .null, exclusions := exclusions.getD i .null
      before := before.getD i .null, after := after.getD i .null, prepare := prepare.getD i .null })

/-- The moves of a row with their callbacks. A row has at least two states. -/
def planRow (w : World) (m : MachineId) (row : Row) : Except Fault (List ((Value × Value) × Hooks)) := do
  let machine := w.machine m
  let names ← match row.states with
    | .null => pure machine.states.keys
    | v => v.items.mapM (w.registeredName m)
  if names.length < 2 then .error .tooFewStates
  let moves := rowMoves machine.initial names row.loop.truthy row.loopIncludesInitial.truthy
  return moves.zip (← spreadHooks moves.length row.hooks)

end World

/-- Registers the transitions of a row in order. -/
def connectRow (m : MachineId) (row : Row) : Run Unit := do
  let plan ← Act.ask (fun w => w.planRow m row)
  plan.forM (fun move =>
    Act.advance (fun w => w.connect m row.trigger move.1.1 move.1.2 move.2))

/-- The parameters of a transition definition. -/
def moveParameters : Signature :=
  [⟨"trigger", none⟩, ⟨"source", none⟩, ⟨"dest", none⟩, ⟨"conditions", some .null⟩,
    ⟨"unless", some .null⟩, ⟨"before", some .null⟩, ⟨"after", some .null⟩, ⟨"prepare", some .null⟩]

def connectBound (w : World) (m : MachineId) : List Value → Except Fault World
  | [trigger, source, dest, conditions, exclusions, before, after, prepare] =>
    w.connect m trigger source dest ⟨conditions, exclusions, before, after, prepare⟩
  | _ => .error .wrongType

/-- Registers the transition of a definition: its parts by position in a list, or by name in a map. -/
def World.connectDefinition (w : World) (m : MachineId) (definition : Value) : Except Fault World := do
  match definition with
  | .list xs | .tuple xs => connectBound w m (← moveParameters.bind xs [])
  | .map entries => connectBound w m (← moveParameters.bind [] (← World.namedEntries entries))
  | _ => .error .wrongType

def connectDefinitions (m : MachineId) (definitions : Value) : Run Unit :=
  definitions.items.forM (fun d => Act.advance (fun w => w.connectDefinition m d))

end StateEngine
