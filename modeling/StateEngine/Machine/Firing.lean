import StateEngine.Machine.Models

/-! Firing triggers: which candidate moves the model, which callbacks run around the move, and how the
line of the machine takes the firings. -/
namespace StateEngine.Engine

/-- Runs the callbacks of a state at a stage, those added meanwhile included. -/
def runStage (E : Engine) (m : MachineId) (s : StateId) (stage : StateStage) (i : FiringId) :
    Run Unit := do
  let name := ((← get).states.get s).name.display
  let verb := match stage with
    | .enter => "Entering"
    | .exit => "Exiting"
  remark m .debug .state (verb ++ " state " ++ name ++ ". Processing callbacks...")
  E.runGrowing m (fun w => (w.states.get s).callbacks stage) i E.bound 0
  remark m .info .state ("Finished processing state " ++ name ++ " " ++ stage.word ++ " callbacks.")

/-- Puts the model of a firing into a state, and the firing with it; tells which state that is. -/
def relocate (m : MachineId) (dest : Value) (i : FiringId) : Run StateId := do
  place m dest ((← get).firings.get i).model
  let d ← Act.ask (fun w => w.stateFor m dest)
  Act.change (World.updateFiring i (fun f => { f with state := d }))
  Act.ask (fun w => w.lookupState m dest)

/-- Moves the model of a firing from the source of a transition to its destination: out of the one, into
the model, into the other. -/
def changeState (E : Engine) (m : MachineId) (source dest : Value) (i : FiringId) : Run Unit := do
  let s ← Act.ask (fun w => w.lookupState m source)
  E.runStage m s .exit i
  let d ← relocate m dest i
  E.runStage m d .enter i

/-- Whether all guards let a firing pass; those behind the first that does not are not asked. -/
def checkAll (E : Engine) (m : MachineId) (i : FiringId) : List Guard → Run Bool
  | [] => return true
  | g :: rest => do
    if ← E.check m g i then E.checkAll m i rest
    else
      remark m .debug .transition ("Transition condition failed: " ++ g.predicate.display ++
        "() does not return " ++ g.target.display ++ ". Transition halted.")
      return false

/-- Moves the model of a firing along a transition; an internal one leaves it where it is. -/
def moveAlong (E : Engine) (m : MachineId) (transition : Transition) (i : FiringId) : Run Unit :=
  if transition.internal then return ()
  else E.changeState m transition.source transition.dest i

/-- The part of a transition behind its guards: the callbacks around the move, and the move. -/
def carryOut (E : Engine) (m : MachineId) (t : TransitionId) (transition : Transition) (i : FiringId) :
    Run Unit := do
  let w ← get
  E.runCallbacks m ((w.machine m).beforeChange ++ (w.transitions.get t).before) i
  remark m .debug .transition "Executed callback before transition."
  E.moveAlong m transition i
  let w ← get
  E.runCallbacks m ((w.transitions.get t).after ++ (w.machine m).afterChange) i
  remark m .debug .transition "Executed callback after transition."

/-- Runs a transition for a firing as far as its guards let it; tells whether they did. -/
def execute (E : Engine) (t : TransitionId) (i : FiringId) : Run Bool := do
  let w ← get
  let m := (w.firings.get i).machine
  let transition := w.transitions.get t
  remark m .debug .transition ("Initiating transition from state " ++ transition.source.display ++
    " to state " ++ transition.dest.display ++ "...")
  E.runGrowing m (fun w => (w.transitions.get t).prepare) i E.bound 0
  remark m .debug .transition "Executed callbacks before conditions."
  let passed ← E.checkAll m i ((← get).transitions.get t).guards
  if passed then
    E.carryOut m t transition i
    return true
  else return false

/-- Tries candidates in order up to the first that fires. -/
def tryCandidates (E : Engine) (i : FiringId) : List TransitionId → Run Unit
  | [] => return ()
  | t :: rest => do
    Act.change (World.updateFiring i (fun f => { f with transition := some t }))
    if ← E.execute t i then Act.change (World.updateFiring i (fun f => { f with result := true }))
    else E.tryCandidates i rest

/-- The candidates of an event for the state of a firing. Asking for them files the state among the
sources, even if it has none. -/
def candidatesFor (i : FiringId) : Run (List TransitionId) := do
  let w ← get
  let f := w.firings.get i
  let source := (w.states.get f.state).name
  match (w.events.get f.event).candidates.find? source with
  | some ts => return ts
  | none =>
    Act.change (World.updateEvent f.event (fun e =>
      { e with candidates := e.candidates.insert source [] }))
    return []

/-- The part of a firing ahead of its end: the machine's preparation and the candidates. -/
def attemptMoves (E : Engine) (m : MachineId) (i : FiringId) : Run Unit := do
  E.runCallbacks m ((← get).machine m).prepareEvent i
  remark m .debug .event "Executed machine preparation callbacks before conditions."
  E.tryCandidates i (← candidatesFor i)

/-- Notes in a firing the error that has ended it; an abort is not noted. -/
def noteError (i : FiringId) : Except Fault Unit → Run Unit
  | .ok () => return ()
  | .error f =>
    if f.isError then Act.change (World.updateFiring i (fun x => { x with fault := some f }))
    else return ()

/-- The end of a firing: its finalising callbacks, whose own fault goes ahead of the one so far. -/
def closeFiring (E : Engine) (m : MachineId) (i : FiringId) (ended : Except Fault Unit) :
    Run Value := do
  E.runCallbacks m ((← get).machine m).finalizeEvent i
  remark m .debug .event "Executed machine finalize callbacks"
  Act.ofExcept ended
  return .bool ((← get).firings.get i).result

/-- Processes a firing. However it goes, the finalising callbacks run at its end; an error is noted in
the firing for them, and a fault of their own takes its place. -/
def processFiring (E : Engine) (i : FiringId) : Run Value := do
  let m := ((← get).firings.get i).machine
  let ended ← (E.attemptMoves m i).attempt
  noteError i ended
  E.closeFiring m i ended

/-- Fires an event on a model now. Where the state of the model has no entry, the trigger is ignored
with a warning or refused. -/
def fireNow (E : Engine) (e : EventId) (model : Value) (args : List Value) (named : Named) :
    Run Value := do
  let m := ((← get).events.get e).machine
  let s ← E.currentState m model
  let w ← get
  let event := w.events.get e
  let state := (w.states.get s).name
  if event.candidates.contains state then
    let firing : Firing := { state := s, event := e, machine := m, model := model, args, named }
    set { w with firings := w.firings.push firing }
    E.processFiring w.firings.next
  else
    let message := "Can't trigger event " ++ event.name.display ++ " from state " ++
      state.display ++ "!"
    if (w.ignoreFlag m s).truthy then
      remark m .warning .event message
      return .bool false
    else Act.fail (.invalidTrigger ((w.machine m).label ++ message) event.name state)

/-- Runs a task of a line. -/
def runTask (E : Engine) : Task → Run Value
  | .fire e model args named => E.fireNow e model args named
  | .call callback => (Target.ofValue callback).apply E (.arguments [] [])

/-- The line of a machine in its world, with a name for its remarks. -/
def setting (E : Engine) (m : MachineId) (label : String) : Line.Setting World Task where
  slot := {
    read := fun w => (w.machine m).line
    write := fun line w => w.updateMachine m (fun machine => { machine with line := line }) }
  run := E.runTask
  remark := fun message => Act.change (fun w => w.record (.remarked .debug .machine message))
  label := label
  bound := E.bound

/-- Hands a task to the line of a machine. -/
def submit (E : Engine) (m : MachineId) (task : Task) : Run Value := do
  let label := ((← get).machine m).label
  (E.setting m label).submit task

/-- Names that a trigger's own arguments may not have. -/
def reservedNames : List String := ["self", "model", "trigger_name"]

def clashes (names : List String) (named : Named) : Bool :=
  named.any (fun n => names.contains n.1)

/-- Fires a trigger on a model. An unknown trigger is ignored with a warning or refused, as the state of
the model has it. -/
def trigger (E : Engine) (m : MachineId) (model name : Value) (args : List Value) (named : Named) :
    Run Value :=
  if clashes reservedNames named then Act.fail .wrongType
  else do
    match ← Act.ask (fun w => w.eventOf? m name) with
    | some e => E.submit ((← get).events.get e).machine (.fire e model args named)
    | none =>
      let s ← E.currentState m model
      if ((← get).ignoreFlag m s).truthy then
        remark m .warning .machine ("Ignoring unknown event '" ++ name.display ++ "'.")
        return .bool false
      else Act.fail (.unknownEvent name)

/-- Fires a trigger on the models of a roster in order, those that join it meanwhile included, and tells
whether all firings gave true. -/
def triggerEach (E : Engine) (m : MachineId) (roster : RosterId) (name : Value)
    (args : List Value) (named : Named) : Nat → Nat → Bool → Run Value
  | 0, _, _ => Act.exhausted
  | fuel + 1, position, soFar => do
    match ((← get).rosters.get roster)[position]? with
    | some model =>
      let result ← E.trigger m model name args named
      triggerEach E m roster name args named fuel (position + 1) (soFar && result.truthy)
    | none => return .bool soFar

/-- Fires a trigger on every bound model. -/
def triggerAll (E : Engine) (m : MachineId) (name : Value) (args : List Value) (named : Named) :
    Run Value :=
  if clashes ["self", "trigger_name"] named then Act.fail .wrongType
  else do triggerEach E m ((← get).machine m).roster name args named E.bound 0 true

end StateEngine.Engine
