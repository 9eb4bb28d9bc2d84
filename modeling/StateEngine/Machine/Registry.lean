import StateEngine.Machine.World

/-! The registry of a machine: looking up states, connecting and disconnecting them, and asking what is
connected. Nothing here runs a callback, and a refused change leaves the world as it was. -/
namespace StateEngine.World

/-- The state registered under the name that a reference gives. -/
def lookupState (w : World) (m : MachineId) (reference : Value) : Except Fault StateId :=
  let name := w.nameOf reference
  if name.hashable then
    match (w.machine m).states.find? name with
    | some s => .ok s
    | none => .error (.unregisteredState name)
  else .error .wrongType

/-- The state that a reference stands for: a state for itself, registered or not, and anything else for
the one registered under its name. -/
def stateFor (w : World) (m : MachineId) : Value → Except Fault StateId
  | .state s => .ok s
  | v => w.lookupState m v

/-- Whether the machine has registered this very state. -/
def owns (w : World) (m : MachineId) (s : StateId) : Bool := (w.machine m).states.values.contains s

/-- The name of a registered state; a state is known by identity and anything else by its name. -/
def registeredName (w : World) (m : MachineId) (reference : Value) : Except Fault Value :=
  match reference with
  | .state s =>
    let name := (w.states.get s).name
    if w.owns m s then .ok name else .error (.foreignState name)
  | v => (w.lookupState m v).map (fun _ => w.nameOf v)

/-- The names that a source stands for. -/
def sourceNames (w : World) (m : MachineId) (source : Value) : Except Fault (List Value) :=
  if source.same everyState then .ok (w.machine m).states.keys
  else source.items.mapM (w.registeredName m)

/-- Where a transition from a source leads: to the source itself, to a registered state, or nowhere. -/
def destName (w : World) (m : MachineId) (dest source : Value) : Except Fault Value :=
  if dest.same sameState then .ok source
  else match dest with
    | .null => .ok .null
    | d => w.registeredName m d

/-- Registers a new event under a trigger. -/
def newEvent (w : World) (m : MachineId) (trigger : Value) : World :=
  { w with events := w.events.push { name := trigger, machine := m } }.updateMachine m
    (fun machine => { machine with events := machine.events.insert trigger w.events.next })

/-- The event of a trigger, registered before or now. -/
def ensureEvent (w : World) (m : MachineId) (trigger : Value) : EventId × World :=
  match (w.machine m).events.find? trigger with
  | some e => (e, w)
  | none => (w.events.next, w.newEvent m trigger)

/-- Puts a transition behind the other candidates for its source. -/
def addCandidate (e : EventId) (w : World) (t : TransitionId) : World :=
  let source := (w.transitions.get t).source
  w.updateEvent e (fun event =>
    { event with
      candidates := event.candidates.insert source ((event.candidates.find? source).getD [] ++ [t]) })

def addTransition (w : World) (t : Transition) : TransitionId × World :=
  (w.transitions.next, { w with transitions := w.transitions.push t })

def addMove (hooks : Hooks) (e : EventId) (w : World) (move : Value × Value) : World :=
  let (t, w) := w.addTransition (.ofHooks move.1 move.2 hooks)
  addCandidate e w t

/-- The moves that a source and a destination stand for, all of them checked. -/
def movesOf (w : World) (m : MachineId) (source dest : Value) : Except Fault (List (Value × Value)) := do
  let sources ← w.sourceNames m source
  sources.mapM (fun s => do return (s, ← w.destName m dest s))

/-- Registers a transition under a trigger for each source. All names are checked first. -/
def connect (w : World) (m : MachineId) (trigger source dest : Value) (hooks : Hooks) :
    Except Fault World := do
  if trigger.same (.text (w.machine m).accessor.name) then .error (.reservedTrigger trigger)
  let moves ← w.movesOf m source dest
  if !trigger.hashable then .error .wrongType
  let (e, w) := w.ensureEvent m trigger
  return moves.foldl (addMove hooks e) w

/-- The event of a trigger, if one is registered; only what can be a key is looked up. -/
def eventOf? (w : World) (m : MachineId) (trigger : Value) : Except Fault (Option EventId) :=
  if trigger.hashable then .ok ((w.machine m).events.find? trigger) else .error .wrongType

def eventOf (w : World) (m : MachineId) (trigger : Value) : Except Fault EventId := do
  match ← w.eventOf? m trigger with
  | some e => return e
  | none => .error (.unknownEvent trigger)

private def eventsFor (w : World) (m : MachineId) (trigger : Value) : Except Fault (List EventId) := do
  if trigger.truthy then
    match ← w.eventOf? m trigger with
    | some e => return [e]
    | none => return []
  else return (w.machine m).events.values

/-- The transitions of a trigger, or of all of them, with a given source and destination. -/
def select (w : World) (m : MachineId) (trigger source dest : Value) :
    Except Fault (List TransitionId) := do
  let events ← w.eventsFor m trigger
  let all := events.flatMap (fun e => (w.events.get e).candidates.values.flatten)
  return all.filter (fun t =>
    let transition := w.transitions.get t
    (source.same everyState || transition.source.same source) &&
      (dest.same everyState || transition.dest.same dest))

/-- Which names a filter lets through: all of them, or those that its items give. -/
def filterNames (w : World) (v : Value) : Option (List Value) :=
  if v.same everyState then none else some (v.items.map w.nameOf)

def outside (names : Option (List Value)) (v : Value) : Bool :=
  match names with
  | some names => !v.isIn names
  | none => false

/-- Removes the transitions of a trigger that two filters both let through, and the trigger itself once
it has none left. -/
def disconnect (w : World) (m : MachineId) (trigger source dest : Value) : Except Fault World := do
  let e ← w.eventOf m trigger
  let sources := w.filterNames source
  let dests := w.filterNames dest
  let keeps (t : TransitionId) : Bool :=
    outside sources (w.transitions.get t).source || outside dests (w.transitions.get t).dest
  let rest := (w.events.get e).candidates.entries.filterMap (fun c =>
    let kept := c.2.filter keeps
    if kept.isEmpty then none else some (c.1, kept))
  if rest.isEmpty then
    return w.updateMachine m (fun machine => { machine with events := machine.events.erase trigger })
  else return w.updateEvent e (fun event => { event with candidates := ⟨rest⟩ })

/-- The triggers with an entry for one of some states, in order of registration. -/
def triggersFrom (w : World) (m : MachineId) (states : List Value) : Except Fault (List Value) :=
  let names := states.map w.nameOf
  if names.all Value.hashable then
    .ok (((w.machine m).events.entries.filter (fun e =>
      names.any (fun n => (w.events.get e.2).candidates.contains n))).map Prod.fst)
  else .error .wrongType

/-- Adds a callback to every transition of a trigger; the stage matters only if there is one. -/
def hookEvent (w : World) (m : MachineId) (trigger stage : Value) (callback : Callback) :
    Except Fault World := do
  let e ← w.eventOf m trigger
  let transitions := (w.events.get e).candidates.values.flatten
  match TransitionStage.ofValue? stage, transitions with
  | _, [] => return w
  | some s, ts => return ts.foldl (fun w t => w.updateTransition t (·.addCallback callback s)) w
  | none, _ => .error (.unknownTransitionStage stage)

def hookTransition (w : World) (t : TransitionId) (stage : Value) (callback : Callback) :
    Except Fault World :=
  match TransitionStage.ofValue? stage with
  | some s => .ok (w.updateTransition t (·.addCallback callback s))
  | none => .error (.unknownTransitionStage stage)

def hookState (w : World) (m : MachineId) (state stage : Value) (callback : Callback) :
    Except Fault World := do
  let s ← w.lookupState m state
  match StateStage.ofValue? stage with
  | some st => return w.updateState s (·.addCallback callback st)
  | none => .error (.unknownStateStage stage)

/-- Files a transition made elsewhere under its source. -/
def adopt (w : World) (m : MachineId) (trigger : Value) (t : TransitionId) : Except Fault World := do
  let e ← w.eventOf m trigger
  if (w.transitions.get t).source.hashable then return addCandidate e w t else .error .wrongType

/-- The flag that decides whether a trigger that does not apply in a state is ignored. -/
def ignoreFlag (w : World) (m : MachineId) (s : StateId) : Value :=
  match (w.states.get s).ignore with
  | .null => (w.machine m).ignore
  | v => v

end StateEngine.World
