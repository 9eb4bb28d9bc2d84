import StateEngine.Machine.Program
import StateEngine.Proofs.Going.Firing
import StateEngine.Proofs.Registry.Reachable

/-! Operations and the programs that ask for them go by steps of a kind. What a program asks for may be
restricted by the world in which it asks. So every run in which nothing is asked for against such a restriction is
the run of a host that never asks against it in any world. -/
namespace StateEngine
open Act Relation

/-- A program that asks in every world for what is allowed there. -/
def Program.Asks (P : World → Operation → Prop) : Program → Prop
  | .done _ | .fail _ => True
  | .read _ _ next => ∀ r, (next r).Asks P
  | .perform _ request next => (∀ w op, request w = .ok op → P w op) ∧ ∀ r, (next r).Asks P

theorem Program.Asks.within {p : Program} {P : World → Operation → Prop} {Q : Operation → Prop}
    (hPQ : ∀ w op, P w op → Q op) (h : p.Asks P) : p.Within Q := by
  induction p with
  | done v => trivial
  | fail f => trivial
  | read owner name next ih => exact fun r => ih r (h r)
  | perform verb request next ih => exact ⟨fun w op ho => hPQ w op (h.1 w op ho), fun r => ih r (h.2 r)⟩

/-- A host whose callbacks ask in every world for what is allowed there. -/
def Host.Asks (P : World → Operation → Prop) (host : Host) : Prop :=
  ∀ callback call w count, (host.behaviour callback call w count).Asks P

namespace World

/-- Nothing between two worlds but the notes that the host keeps of a run: the history, the counts of calls and
requests, and the names of objects. -/
def Logged (w v : World) : Prop :=
  v = { w with invocations := v.invocations, names := v.names, requests := v.requests, history := v.history }

theorem logged_record (w : World) (entry : Entry) : Logged w (w.record entry) := rfl

/-- A relation that has the steps by which a world gets more of everything, apart from machines and what is written
into them but their events, and from the states of models. Triggers may be connected as far as `K` says. -/
structure Grants (K : MachineId → Value → Prop) (R : World → World → Prop) : Prop where
  log : ∀ {w v}, Logged w v → ReflTransGen R w v
  makeState : ∀ w s, ReflTransGen R w (w.addState s).2
  hookState : ∀ w s c stage, ReflTransGen R w (w.updateState s (·.addCallback c stage))
  makeTransition : ∀ w t, ReflTransGen R w (w.addTransition t).2
  connect : ∀ {w v m trigger source dest hooks}, K m trigger →
    w.connect m trigger source dest hooks = .ok v → ReflTransGen R w v
  fileSource : ∀ {w i e source}, w.Seeks i e source → ReflTransGen R w (World.updateEvent e (fun event =>
    { event with candidates := event.candidates.insert source [] }) w)
  openFiring : ∀ w firing, ReflTransGen R w { w with firings := w.firings.push firing }

end World

open World

/-- Operations that place no model, hand in no task and leave rosters and registries as they are, or only make
something that nothing refers to yet. -/
def Operation.Plain : Operation → Prop
  | .makeState .. | .makeTransition .. | .findState .. | .currentState .. | .isIn .. | .hookState .. | .hasHook ..
  | .select .. | .triggersFrom .. | .pending .. | .ignoreFlag .. | .overview .. | .makeFiring .. | .check ..
  | .runStage .. | .runCallbacks .. | .resolve .. | .describe .. => True
  | _ => False

variable {E : Engine} {cut : Prop} {K : MachineId → Value → Prop} {R : World → World → Prop}

theorem goes_connect (hG : Grants K R) {m : MachineId} {trigger : Value} (hk : K m trigger)
    (source dest : Value) (hooks : Hooks) :
    Act.Goes cut R (advance (fun w => w.connect m trigger source dest hooks)) :=
  .advance (fun _ _ h => hG.connect hk h)

theorem goes_connectRow (hG : Grants K R) {m : MachineId} {row : Row} (hk : K m row.trigger) :
    Act.Goes cut R (connectRow m row) :=
  .bind (.ask _) (fun _ => .forM (fun _ _ => goes_connect hG hk _ _ _))

/-- A definition of a transition gives a trigger first. -/
def Value.Defines (definition trigger : Value) : Prop :=
  ∃ rest : List Value, (match definition with
    | .list xs | .tuple xs => moveParameters.bind xs []
    | .map entries => namedEntries entries >>= moveParameters.bind []
    | _ => .error .wrongType) = .ok (trigger :: rest)

/-- A definition of a transition connects its trigger. -/
theorem connectDefinition_cases {w v : World} {m : MachineId} {definition : Value}
    (h : w.connectDefinition m definition = .ok v) :
    ∃ trigger source dest hooks, definition.Defines trigger ∧ w.connect m trigger source dest hooks = .ok v := by
  have bound {parts : List Value} (h : connectBound w m parts = .ok v) :
      ∃ trigger source dest hooks rest, parts = trigger :: rest ∧ w.connect m trigger source dest hooks = .ok v := by
    unfold connectBound at h
    split at h
    · exact ⟨_, _, _, _, _, rfl, h⟩
    · cases h
  unfold World.connectDefinition at h
  unfold Value.Defines
  split at h
  · obtain ⟨parts, given, h⟩ := ok_of_bind h
    obtain ⟨trigger, source, dest, hooks, rest, rfl, connected⟩ := bound h
    exact ⟨trigger, source, dest, hooks, ⟨rest, given⟩, connected⟩
  · obtain ⟨parts, given, h⟩ := ok_of_bind h
    obtain ⟨trigger, source, dest, hooks, rest, rfl, connected⟩ := bound h
    exact ⟨trigger, source, dest, hooks, ⟨rest, given⟩, connected⟩
  · obtain ⟨named, keyed, h⟩ := ok_of_bind h
    obtain ⟨parts, given, h⟩ := ok_of_bind h
    obtain ⟨trigger, source, dest, hooks, rest, rfl, connected⟩ := bound h
    refine ⟨trigger, source, dest, hooks, ⟨rest, ?_⟩, connected⟩
    show (namedEntries _ >>= moveParameters.bind []) = _
    rw [keyed]
    exact given
  · cases h

/-- The state of an entry is one that was made before, or is made for it. -/
theorem stateOf_cases {w v : World} {options : StateOptions} {entry : Value} {s : StateId}
    (h : w.stateOf options entry = .ok (s, v)) :
    (entry = .state s ∧ v = w) ∨ ∃ state, s = w.states.next ∧ v = (w.addState state).2 := by
  unfold World.stateOf at h
  split at h
  · cases h
    exact .inr ⟨_, rfl, rfl⟩
  · cases h
    exact .inr ⟨_, rfl, rfl⟩
  · obtain ⟨named, -, h⟩ := ok_of_bind h
    obtain ⟨parts, -, h⟩ := ok_of_bind h
    split at h
    · cases h
      exact .inr ⟨_, rfl, rfl⟩
    · cases h
  · cases h
    exact .inl ⟨rfl, rfl⟩
  · cases h

/-- A state is enrolled under its name, which can be a key and is new. -/
theorem enroll_cases {w v : World} {m : MachineId} {options : StateOptions} {entry : Value} {s : StateId}
    (h : w.enroll m options entry = .ok (s, v)) :
    ∃ u, w.stateOf options entry = .ok (s, u) ∧ (u.states.get s).name.hashable = true ∧
      (u.machine m).states.contains (u.states.get s).name = false ∧
      v = u.updateMachine m (fun machine =>
        { machine with states := machine.states.insert (u.states.get s).name s }) := by
  obtain ⟨⟨s', u⟩, hs, h⟩ := ok_of_bind h
  simp only [] at h
  split at h
  · cases h
  · rename_i hk
    split at h
    · cases h
    · rename_i hnew
      cases h
      exact ⟨u, hs, by simpa using hk, by simpa using hnew, rfl⟩

namespace Engine

theorem goes_bindConvention (hG : Grants K R) {m : MachineId} {s : StateId} {model : Value}
    (hread : ∀ name, Act.Goes cut R (E.readAttribute model name)) (stage : StateStage) :
    Act.Goes cut R (E.bindConvention m s model stage) := by
  refine .bind .get (fun w => .bind (goes_readAttribute?_of (hread _)) (fun found => ?_))
  have bound (name display : String) : Act.Goes cut R (do
      if !(Value.text name).isIn (((← get).states.get s).callbacks stage) then
        Act.change (World.updateState s (·.addCallback (.text name) stage))
        remark m .debug .machine ("Bound " ++ name ++ " to state " ++ display ++ ".") : Run Unit) := by
    refine .bind .get (fun w => .ite (.bind (.change (fun w => hG.hookState w s _ stage)) (fun _ => ?_)) (.pure _))
    exact .change (fun w => hG.log (logged_record w _))
  split
  · exact bound _ _
  · exact .pure _

theorem goes_bindConventions (hG : Grants K R) {m : MachineId} {s : StateId} {model : Value}
    (hread : ∀ name, Act.Goes cut R (E.readAttribute model name)) :
    Act.Goes cut R (E.bindConventions m s model) :=
  .forM (fun stage _ => goes_bindConvention hG hread stage)

theorem goes_bindToStates (hG : Grants K R) {m : MachineId} {model : Value}
    (hread : ∀ name, Act.Goes cut R (E.readAttribute model name)) :
    Act.Goes cut R (E.bindToStates m model) := by
  have steady (count : Nat) : Act.Goes cut R (do
      if ((← get).machine m).states.size ≠ count then Act.fail .changedWhileRead : Run Unit) :=
    .bind .get (fun w => .ite (.fail _) (.pure _))
  refine .bind .get (fun w => .bind (.forM (fun s _ => ?_)) (fun _ => steady _))
  exact .bind (steady _) (fun _ => goes_bindConventions hG hread)

theorem goes_forRoster {roster : RosterId} {action : Value → Run Unit}
    (h : ∀ model, Act.Goes cut R (action model)) (fuel position : Nat) :
    Act.Goes cut R (forRoster roster action fuel position) := by
  induction fuel generalizing position with
  | zero => exact .exhausted
  | succ fuel ih =>
    refine .bind .get (fun w => ?_)
    split
    · exact .bind (h _) (fun _ => ih _)
    · exact .pure _

/-- Registering a state goes by steps where filing it does, and where its triggers may be connected. -/
theorem Goes.addState (hE : E.Goes cut R) (hG : Grants K R) {m : MachineId}
    (henroll : ∀ {w v options entry s}, w.enroll m options entry = .ok (s, v) → ReflTransGen R w v)
    (hk : ∀ name, K m (.text ("to_" ++ name))) (options : StateOptions) (entry : Value) :
    Act.Goes cut R (E.addState m options entry) := by
  have bound (s : StateId) (model : Value) : Act.Goes cut R (E.bindConventions m s model) :=
    goes_bindConventions hG (fun name => hE.readAttribute model name)
  have connected (s : StateId) : Act.Goes cut R (connectAutomatically m s) :=
    .bind .get (fun _ => .forM (fun _ _ => goes_connect hG (hk _) _ _ _))
  have settled (s : StateId) : Act.Goes cut R (do
      forRoster ((← get).machine m).roster (E.bindConventions m s) E.bound 0
      if ((← get).machine m).autoTransitions.truthy then connectAutomatically m s : Run Unit) :=
    .bind .get (fun w => .bind (goes_forRoster (bound s) _ _) (fun _ =>
      .bind .get (fun w => .ite (connected s) (.pure _))))
  exact .ask_set (fun _ _ _ h => henroll h) (fun s => .bind (.pure s) settled)

/-- Settling on an initial state goes by steps if registering its state does, and the entry of a name that is known
then. -/
theorem goesFrom_setInitial {w : World} {m : MachineId} {v : Value}
    (hadd : GoesFrom cut R w (E.addStates m v {}))
    (hsettle : ∀ u, E.addStates m v {} w = (.ok (), u) ∨
        u = w ∧ (w.machine m).states.contains (w.nameOf v) = true →
      ReflTransGen R u (u.updateMachine m (fun machine => { machine with initial := w.nameOf v }))) :
    GoesFrom cut R w (E.setInitial m v) := by
  refine .get_bind ?_
  simp only []
  split
  · exact (Goes.fail _ w).bind (fun _ _ h => by cases h)
  · split
    · exact hadd.bind (fun _ u h => .of_steps (hsettle u (.inl h)))
    · rename_i known
      have settled : GoesFrom cut R w
          (change (updateMachine m (fun machine => { machine with initial := w.nameOf v }))) :=
        .of_steps (hsettle w (.inr ⟨rfl, by simpa using known⟩))
      split
      · split
        · exact (Goes.fail _ w).bind (fun _ _ h => by cases h)
        · exact settled
      · exact settled

/-- Binding models goes by steps if binding each one does, in the state that is given or the initial one. -/
theorem goesFrom_bindModels {w : World} {m : MachineId} {models initial : Value}
    (hbind : ∀ chosen, chosen = initial ∨ chosen = (w.machine m).initial →
      GoesFrom cut R w (models.items.forM (E.bindModel m chosen))) :
    GoesFrom cut R w (E.bindModels m models initial) := by
  unfold Engine.bindModels
  split
  · refine .get_bind ?_
    split
    · exact (Goes.fail _ w).bind (fun _ _ h => by cases h)
    · exact hbind _ (.inr rfl)
  · exact hbind _ (.inl rfl)

theorem goes_bindModels {m : MachineId} {models : Value}
    (hbind : ∀ chosen, ∀ model ∈ models.items, Act.Goes cut R (E.bindModel m chosen model)) (initial : Value) :
    Act.Goes cut R (E.bindModels m models initial) :=
  fun _ => goesFrom_bindModels (fun chosen _ => .forM (hbind chosen))

/-- What comes behind the making of a machine: the registration of all that its specification names. -/
def furnish (E : Engine) (plan : Blueprint) (m : MachineId) : Run MachineId := do
  unlessNull plan.states (fun v => E.addStates m v {})
  unlessNull plan.options.initial (E.setInitial m)
  unlessNull plan.transitions (connectDefinitions m)
  if plan.options.orderedTransitions.truthy then connectRow m {}
  unlessNull plan.models (fun v => E.bindModels m v .null)
  return m

/-- A machine is made, and then furnished. -/
theorem goesFrom_create {w : World} {plan : Blueprint}
    (hmake : ∀ m v, w.makeMachine plan = .ok (m, v) → ReflTransGen R w v ∧ GoesFrom cut R v (E.furnish plan m)) :
    GoesFrom cut R w (E.create plan) := by
  refine .ask_bind (fun made h => .set_bind (hmake made.1 made.2 h).1 ?_)
  exact (hmake made.1 made.2 h).2

/-- Furnishing a machine goes by steps if what its specification names does. -/
theorem goes_furnish {plan : Blueprint} {m : MachineId} (hadd : Act.Goes cut R (E.addStates m plan.states {}))
    (hsettle : Act.Goes cut R (E.setInitial m plan.options.initial))
    (hdefine : Act.Goes cut R (connectDefinitions m plan.transitions)) (hrow : Act.Goes cut R (connectRow m {}))
    (hbind : Act.Goes cut R (E.bindModels m plan.models .null)) : Act.Goes cut R (E.furnish plan m) := by
  have part {v : Value} {action : Value → Run Unit} (h : Act.Goes cut R (action v)) :
      Act.Goes cut R (unlessNull v action) := by
    unfold unlessNull
    split
    · exact .pure _
    · exact h
  refine .bind (part hadd) (fun _ => .bind (part hsettle) (fun _ => .bind (part hdefine) (fun _ => ?_)))
  have ended : Act.Goes cut R (do
      unlessNull plan.models (fun v => E.bindModels m v .null)
      return m) := .bind (part hbind) (fun _ => .pure _)
  exact .ite (.bind hrow (fun _ => ended)) ended

/-- Plain operations go by steps, whatever the callbacks do that they consult. -/
theorem Goes.perform (hE : E.Goes cut R) (hG : Grants K R) {op : Operation} (h : op.Plain) :
    Act.Goes cut R (E.perform op) := by
  cases op with
  | makeState name value onEnter onExit ignore =>
    refine .get_bind (fun w => .set_bind ?_ (Goes.view _ _))
    exact (hG.makeState w _).trans (hG.log rfl)
  | makeTransition name source dest hooks =>
    refine .get_bind (fun w => .set_bind ?_ (Goes.pure _ _))
    exact (hG.makeTransition w _).trans (hG.log rfl)
  | findState m state => exact .bind (.ask _) (fun s => .view _)
  | currentState m model => exact .bind (hE.currentState m model) (fun s => .view _)
  | isIn m model state =>
    exact .bind (hE.readState m model) (fun _ => .bind (.ask _) (fun _ => .bind .get (fun _ => .pure _)))
  | hookState m state stage callback =>
    refine .bind (.advance (fun w v hv => ?_)) (fun _ => .pure _)
    obtain ⟨s, -, hv⟩ := ok_of_bind hv
    split at hv
    · cases hv
      exact hG.hookState w s callback _
    · cases hv
  | hasHook m state stage callback => exact .bind (.ask _) (fun _ => .bind .get (fun _ => .pure _))
  | select m trigger source dest => exact .bind (.ask _) (fun _ => .bind .get (fun _ => .pure _))
  | triggersFrom m states => exact .bind (.ask _) (fun _ => .pure _)
  | pending m => exact .bind .get (fun _ => .pure _)
  | ignoreFlag m state => exact .bind (.ask _) (fun _ => .bind .get (fun _ => .pure _))
  | overview m => exact .view _
  | makeFiring m name model trigger args named =>
    refine .bind (hE.currentState m model) (fun s => .bind (.ask _) (fun e => .get_bind (fun w => ?_)))
    refine .set_bind ?_ (Goes.view _ _)
    exact (hG.openFiring w _).trans (hG.log rfl)
  | check i guard => exact .bind .get (fun _ => .bind (hE.check _ guard i) (fun _ => .pure _))
  | runStage m state stage i =>
    exact .bind (.ask _) (fun s => .bind .get (fun _ => .bind (hE.runStage _ s stage i) (fun _ => .pure _)))
  | runCallbacks m callbacks i =>
    exact .bind (.ofExcept _) (fun cs => .bind (hE.runCallbacks m cs i) (fun _ => .pure _))
  | resolve m callback i args named =>
    exact .bind (hE.resolve m callback i) (fun target => .bind (hE.apply target _) (fun _ => .pure _))
  | describe m subject => exact .bind (.ask _) (fun _ => .pure _)
  | _ => exact h.elim

section Programs

variable {P : World → Operation → Prop} (hlog : ∀ {w v}, Logged w v → ReflTransGen R w v)

include hlog

theorem Goes.runProgram (hE : E.Goes cut R) (hP : ∀ w op, P w op → GoesFrom cut R w (E.perform op))
    {p : Program} (h : p.Asks P) : Act.Goes cut R (E.runProgram p) := by
  induction p with
  | done v => exact .pure v
  | fail f => exact .fail f
  | read owner name next ih => exact .bind (.attempt (hE.readAttribute owner name)) (fun r => ih r (h r))
  | perform verb request next ih =>
    obtain ⟨hop, hnext⟩ := h
    have asked : Act.Goes cut R (E.request request) :=
      .bind (.change (fun _ => hlog rfl)) (fun _ => .ask_bind (fun w op ho => hP w op (hop w op ho)))
    exact .bind (.attempt asked) (fun r => .bind (.change (fun _ => hlog rfl)) (fun _ => ih r (hnext r)))

/-- Callbacks that ask for nothing but what is allowed go by steps if all that is allowed does. -/
theorem goes_ofHost {host : Host} (h : host.Asks P) (bound : Nat)
    (hP : ∀ depth, (ofHost host bound depth).Goes cut R →
      ∀ w op, P w op → GoesFrom cut R w ((ofHost host bound depth).perform op))
    (depth : Nat) : (ofHost host bound depth).Goes cut R := by
  have record (w : World) (entry : Entry) : ReflTransGen R w (w.record entry) :=
    hlog (logged_record w entry)
  induction depth with
  | zero => exact ⟨fun _ _ _ => .exhausted, record⟩
  | succ depth ih =>
    refine ⟨fun label callback call => ?_, record⟩
    have entered : Act.Goes cut R (enterCallback label callback call) :=
      .get_bind (fun w => .set_bind (hlog rfl) (Goes.pure _ _))
    refine .bind entered (fun before => .bind .get (fun w => ?_))
    exact ih.runProgram hlog (hP depth ih) (h callback call w before)

end Programs

end Engine

end StateEngine
