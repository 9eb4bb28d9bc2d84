import StateEngine.Machine.Creation
import StateEngine.Machine.Firing

/-! The operations that a host asks of the engine. -/
namespace StateEngine

/-- The settings of a machine that a host may assign. -/
inductive Setting where
  | prepareEvent
  | beforeChange
  | afterChange
  | finalizeEvent
  | sendEvent
  | autoTransitions
  | ignore

namespace Setting

def assign (s : Setting) (v : Value) (machine : Machine) : Machine :=
  match s with
  | prepareEvent => { machine with prepareEvent := v.items }
  | beforeChange => { machine with beforeChange := v.items }
  | afterChange => { machine with afterChange := v.items }
  | finalizeEvent => { machine with finalizeEvent := v.items }
  | sendEvent => { machine with sendEvent := v }
  | autoTransitions => { machine with autoTransitions := v }
  | ignore => { machine with ignore := v }

def read (s : Setting) (machine : Machine) : Value :=
  match s with
  | prepareEvent => .list machine.prepareEvent
  | beforeChange => .list machine.beforeChange
  | afterChange => .list machine.afterChange
  | finalizeEvent => .list machine.finalizeEvent
  | sendEvent => machine.sendEvent
  | autoTransitions => machine.autoTransitions
  | ignore => machine.ignore

end Setting

/-- What is described: by name of its trigger, but for a state, which is named itself, and a firing. -/
inductive Subject where
  | state (name : Value)
  | event (trigger : Value)
  | transition (trigger : Value)
  | guard (trigger : Value)
  | firing (id : FiringId)

/-- An operation on the machine `m`, or on what is outside of all machines. -/
inductive Operation where
  | create (name : String) (plan : Blueprint)
  | makeState (name : String) (value onEnter onExit ignore : Value)
  | makeTransition (name : String) (source dest : Value) (hooks : Hooks)
  | writeAttribute (model : Value) (name : String) (v : Value)
  | dropAttribute (model : Value) (name : String)
  | bindModels (m : MachineId) (models initial : Value)
  | unbindModels (m : MachineId) (models : Value)
  | findState (m : MachineId) (state : Value)
  | currentState (m : MachineId) (model : Value)
  | isIn (m : MachineId) (model state : Value)
  | place (m : MachineId) (state models : Value)
  | addStates (m : MachineId) (states : Value) (options : StateOptions)
  | setInitial (m : MachineId) (v : Value)
  | assign (m : MachineId) (setting : Setting) (v : Value)
  | hookState (m : MachineId) (state stage : Value) (callback : Callback)
  | hasHook (m : MachineId) (state stage : Value) (callback : Callback)
  | connect (m : MachineId) (trigger source dest : Value) (hooks : Hooks)
  | connectAll (m : MachineId) (definitions : Value)
  | connectRow (m : MachineId) (row : Row)
  | select (m : MachineId) (trigger source dest : Value)
  | disconnect (m : MachineId) (trigger source dest : Value)
  | triggersFrom (m : MachineId) (states : List Value)
  | hookEvent (m : MachineId) (trigger stage : Value) (callback : Callback)
  | hookTransition (t : TransitionId) (stage : Value) (callback : Callback)
  | adopt (m : MachineId) (trigger : Value) (t : TransitionId)
  | trigger (m : MachineId) (model name : Value) (args : List Value) (named : Named)
  | triggerAll (m : MachineId) (name : Value) (args : List Value) (named : Named)
  | submit (m : MachineId) (callback : Callback)
  | pending (m : MachineId)
  | ignoreFlag (m : MachineId) (state : Value)
  | overview (m : MachineId)
  | makeFiring (m : MachineId) (name : String) (model trigger : Value) (args : List Value)
      (named : Named)
  | check (i : FiringId) (guard : Guard)
  | execute (t : TransitionId) (i : FiringId)
  | update (i : FiringId) (state : Value)
  | runStage (m : MachineId) (state : Value) (stage : StateStage) (i : FiringId)
  | runCallbacks (m : MachineId) (callbacks : Value) (i : FiringId)
  | resolve (m : MachineId) (callback : Callback) (i : FiringId) (args : List Value) (named : Named)
  | describe (m : MachineId) (subject : Subject)

/-- The values that a loop over a value goes through. -/
def Value.elements : Value → Except Fault (List Value)
  | .list xs | .tuple xs => .ok xs
  | .enumeration e textual members => .ok (membersOf e textual members)
  | .map entries => .ok (entries.map Prod.fst)
  | .bytes octets => .ok (octets.map (fun b => .int b.toNat))
  | v => match v.text? with
    | some s => .ok (s.toList.map (fun c => .text c.toString))
    | none => .error .wrongType

namespace World

/-- The transition at a place among those of a trigger; negative places count from behind. -/
def transitionAt (w : World) (m : MachineId) (trigger : Value) (index : Int) :
    Except Fault TransitionId := do
  let ts ← w.select m trigger everyState everyState
  let place := if index < 0 then index + ts.length else index
  match if place < 0 then none else ts[place.toNat]? with
  | some t => return t
  | none => .error .missingIndex

private def registeredEvent (w : World) (m : MachineId) (trigger : Value) : Except Fault EventId :=
  match (w.machine m).events.find? trigger with
  | some e => .ok e
  | none => .error .missingKey

private def marked (kind inner : String) : String := "<" ++ kind ++ "(" ++ inner ++ ")@ID>"

private def inQuotes (v : Value) : String := "'" ++ v.display ++ "'"

private def describeTransition (w : World) (t : TransitionId) : String :=
  let transition := w.transitions.get t
  marked "Transition" (inQuotes transition.source ++ ", " ++ inQuotes transition.dest)

private def describeState (w : World) (s : StateId) : String :=
  marked "State" (inQuotes (w.states.get s).name)

/-- The description of something registered, with `ID` in place of its identity. -/
def describe (w : World) (m : MachineId) : Subject → Except Fault String
  | .state name => (w.lookupState m name).map w.describeState
  | .event trigger => do
    let e ← w.registeredEvent m trigger
    return marked "Event" (inQuotes (w.events.get e).name)
  | .transition trigger => (w.transitionAt m trigger 0).map w.describeTransition
  | .guard trigger => do
    let t ← w.transitionAt m trigger 0
    match (w.transitions.get t).conditions with
    | g :: _ => return marked "Condition" g.predicate.display
    | [] => .error .missingIndex
  | .firing i =>
    let f := w.firings.get i
    let move := match f.transition with
      | some t => w.describeTransition t
      | none => "None"
    .ok (marked "EventData" ("'" ++ w.describeState f.state ++ "', " ++ move))

end World

namespace Engine

private def plain (v : Value) : Reply := .value v

private def done : Reply := .value .null

private def stateReply (s : StateId) : Run Reply := Act.view (fun w => .state (w.states.get s))

private def firingReply (i : FiringId) : Run Reply := Act.view (fun w => .firing (w.snapshot i))

/-- Performs an operation. -/
def perform (E : Engine) : Operation → Run Reply
  | .create name plan => do
    let m ← E.create plan
    Act.change (fun w =>
      { w with names := { w.names with machines := w.names.machines.insert name m } })
    return done
  | .makeState name value onEnter onExit ignore => do
    let w ← get
    let (s, w) := w.addState ⟨value, onEnter.items, onExit.items, ignore⟩
    set { w with names := { w.names with states := w.names.states.insert name s } }
    stateReply s
  | .makeTransition name source dest hooks => do
    let w ← get
    let (t, w) := w.addTransition (.ofHooks source dest hooks)
    set { w with names := { w.names with transitions := w.names.transitions.insert name t } }
    return .transition (w.transitions.get t)
  | .writeAttribute model name v => do
    Act.advance (fun w => w.writeAttribute model name v)
    return done
  | .dropAttribute model name => do
    Act.advance (fun w => w.dropAttribute model name)
    return done
  | .bindModels m models initial => do
    E.bindModels m models initial
    return done
  | .unbindModels m models => do
    unbindModels m models
    return done
  | .findState m state => do
    stateReply (← Act.ask (fun w => w.lookupState m state))
  | .currentState m model => do
    stateReply (← E.currentState m model)
  | .isIn m model state => do
    let v ← E.readState m model
    let s ← Act.ask (fun w => w.lookupState m state)
    return plain (.bool (v.same ((← get).states.get s).value))
  | .place m state models => do
    place m state models
    return done
  | .addStates m states options => do
    E.addStates m states options
    return done
  | .setInitial m v => do
    E.setInitial m v
    return plain ((← get).machine m).initial
  | .assign m setting v => do
    Act.change (World.updateMachine m (setting.assign v))
    return plain (setting.read ((← get).machine m))
  | .hookState m state stage callback => do
    Act.advance (fun w => w.hookState m state stage callback)
    return done
  | .hasHook m state stage callback => do
    let s ← Act.ask (fun w => w.lookupState m state)
    let stage := if stage.same (.text "enter") then StateStage.enter else .exit
    return plain (.bool (callback.isIn (((← get).states.get s).callbacks stage)))
  | .connect m trigger source dest hooks => do
    Act.advance (fun w => w.connect m trigger source dest hooks)
    return done
  | .connectAll m definitions => do
    connectDefinitions m definitions
    return done
  | .connectRow m row => do
    StateEngine.connectRow m row
    return done
  | .select m trigger source dest => do
    let ts ← Act.ask (fun w => w.select m trigger source dest)
    return .transitions (ts.map (← get).transitions.get)
  | .disconnect m trigger source dest => do
    Act.advance (fun w => w.disconnect m trigger source dest)
    return done
  | .triggersFrom m states => do
    return plain (.list (← Act.ask (fun w => w.triggersFrom m states)))
  | .hookEvent m trigger stage callback => do
    Act.advance (fun w => w.hookEvent m trigger stage callback)
    return done
  | .hookTransition t stage callback => do
    Act.advance (fun w => w.hookTransition t stage callback)
    return done
  | .adopt m trigger t => do
    Act.advance (fun w => w.adopt m trigger t)
    return done
  | .trigger m model name args named => do
    return plain (← E.trigger m model name args named)
  | .triggerAll m name args named => do
    return plain (← E.triggerAll m name args named)
  | .submit m callback => do
    return plain (← E.submit m (.call callback))
  | .pending m => do
    let line := ((← get).machine m).line
    return plain (.list [.bool line.inFlight, .int line.pending])
  | .ignoreFlag m state => do
    let s ← Act.ask (fun w => w.lookupState m state)
    return plain ((← get).ignoreFlag m s)
  | .overview m => Act.view (fun w => .overview (w.overview m))
  | .makeFiring m name model trigger args named => do
    let s ← E.currentState m model
    let e ← Act.ask (fun w => w.registeredEvent m trigger)
    let w ← get
    let i := w.firings.next
    set { w with
      firings := w.firings.push { state := s, event := e, machine := m, model, args, named }
      names := { w.names with firings := w.names.firings.insert name i } }
    firingReply i
  | .check i guard => do
    return plain (.bool (← E.check ((← get).firings.get i).machine guard i))
  | .execute t i => do
    let fired ← E.execute t i
    return .executed fired ((← get).snapshot i)
  | .update i state => do
    let m := ((← get).firings.get i).machine
    let s ← Act.ask (fun w => w.stateFor m state)
    Act.change (World.updateFiring i (fun f => { f with state := s }))
    firingReply i
  | .runStage m state stage i => do
    let s ← Act.ask (fun w => w.lookupState m state)
    E.runStage ((← get).firings.get i).machine s stage i
    return done
  | .runCallbacks m callbacks i => do
    E.runCallbacks m (← Act.ofExcept callbacks.elements) i
    return done
  | .resolve m callback i args named => do
    let target ← E.resolve m callback i
    return plain (← target.apply E (.arguments args named))
  | .describe m subject => do
    return plain (.text (← Act.ask (fun w => w.describe m subject)))

end Engine

end StateEngine
