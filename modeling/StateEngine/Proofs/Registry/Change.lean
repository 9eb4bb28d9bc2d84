import StateEngine.Machine.Program
import StateEngine.Proofs.Callbacks

/-! The steps by which the registries of a world change: states, transitions, events and machines. All
that a run does to them is made of these, whatever callbacks do and wherever it is cut short. -/
namespace StateEngine
open Relation

namespace World

/-- Nothing that is registered changes. -/
structure Aside (w v : World) : Prop where
  states : v.states = w.states
  transitions : v.transitions = w.transitions
  events : v.events = w.events
  machines : v.machines = w.machines

/-- The settings of a machine that its registries do not depend on. -/
def Tunes (f : Machine → Machine) : Prop :=
  ∀ machine, (f machine).states = machine.states ∧ (f machine).events = machine.events ∧
    (f machine).accessor = machine.accessor

/-- One change of the registries. A machine never forgets a state. -/
inductive Change : World → World → Prop where
  | aside {w v : World} (h : Aside w v) : Change w v
  | makeState (w : World) (s : State) : Change w (w.addState s).2
  | enroll (w : World) (m : MachineId) (s : StateId) (hk : (w.states.get s).name.hashable = true)
      (hnew : (w.machine m).states.contains (w.states.get s).name = false) :
      Change w (w.updateMachine m (fun machine =>
        { machine with states := machine.states.insert (w.states.get s).name s }))
  | hookState (w : World) (s : StateId) (c : Callback) (stage : StateStage) :
      Change w (w.updateState s (·.addCallback c stage))
  | makeTransition (w : World) (t : Transition) : Change w (w.addTransition t).2
  | connect {w v : World} {m : MachineId} {trigger source dest : Value} {hooks : Hooks}
      (h : w.connect m trigger source dest hooks = .ok v) : Change w v
  | disconnect {w v : World} {m : MachineId} {trigger source dest : Value}
      (h : w.disconnect m trigger source dest = .ok v) : Change w v
  | hookTransition (w : World) (t : TransitionId) (c : Callback) (stage : TransitionStage) :
      Change w (w.updateTransition t (·.addCallback c stage))
  | fileSource {w : World} {i : FiringId} {e : EventId} {source : Value} (h : w.Seeks i e source) :
      Change w (w.updateEvent e (fun event =>
        { event with candidates := event.candidates.insert source [] }))
  | tune (w : World) (m : MachineId) {f : Machine → Machine} (hf : Tunes f) :
      Change w (w.updateMachine m f)
  | makeMachine (w : World) (machine : Machine) (hs : machine.states = {}) (he : machine.events = {}) :
      Change w { w with machines := w.machines.push machine }

abbrev Changes : World → World → Prop := ReflTransGen Change

theorem Aside.steps {w v : World} (h : Aside w v) : Changes w v := .single (.aside h)

/-- Nothing between two worlds but what stands beside the machines: models, ledgers, names and the history.
A model keeps its properties. -/
structure Noted (w v : World) : Prop where
  rest : v = { w with ledgers := v.ledgers, models := v.models, invocations := v.invocations,
                      names := v.names, requests := v.requests, history := v.history }
  properties : ∀ x, (v.model x).properties = (w.model x).properties

theorem Noted.writeAttribute {w v : World} {owner : Value} {name : String} {a : Value}
    (h : w.writeAttribute owner name a = .ok v) : Noted w v := by
  unfold World.writeAttribute at h
  split at h
  · split at h
    · cases h
    · cases h
      refine ⟨rfl, fun x => ?_⟩
      rw [model_updateModel]
      split
      · rename_i hx
        rw [hx]
      · rfl
  · cases h

theorem Noted.dropAttribute {w v : World} {owner : Value} {name : String}
    (h : w.dropAttribute owner name = .ok v) : Noted w v := by
  unfold World.dropAttribute at h
  split at h
  · split at h
    · cases h
      refine ⟨rfl, fun x => ?_⟩
      rw [model_updateModel]
      split
      · rename_i hx
        rw [hx]
      · rfl
    · cases h
  · cases h

/-- One thing that operations of a kind do to a world of their own accord. What is told apart no further
here is how a machine settles on an initial state, takes in models and takes tasks in its line. -/
inductive Step (P : Operation → Prop) : World → World → Prop where
  | note {w v : World} (h : Noted w v) : Step P w v
  | makeState (w : World) (s : State) : Step P w (w.addState s).2
  | enroll (w : World) (m : MachineId) (s : StateId) (hk : (w.states.get s).name.hashable = true)
      (hnew : (w.machine m).states.contains (w.states.get s).name = false) :
      Step P w (w.updateMachine m (fun machine =>
        { machine with states := machine.states.insert (w.states.get s).name s }))
  | hookState (w : World) (s : StateId) (c : Callback) (stage : StateStage) :
      Step P w (w.updateState s (·.addCallback c stage))
  | makeTransition (w : World) (t : Transition) : Step P w (w.addTransition t).2
  | connect {w v : World} {m : MachineId} {trigger source dest : Value} {hooks : Hooks}
      (h : w.connect m trigger source dest hooks = .ok v) : Step P w v
  | disconnect {w v : World} {m : MachineId} {trigger source dest : Value}
      (h : w.disconnect m trigger source dest = .ok v) : Step P w v
  | adopt {w v : World} {m : MachineId} {trigger : Value} {t : TransitionId} (hp : P (.adopt m trigger t))
      (h : w.adopt m trigger t = .ok v) : Step P w v
  | hookTransition (w : World) (t : TransitionId) (c : Callback) (stage : TransitionStage) :
      Step P w (w.updateTransition t (·.addCallback c stage))
  | fileSource {w : World} {i : FiringId} {e : EventId} {source : Value} (h : w.Seeks i e source) :
      Step P w (w.updateEvent e (fun event =>
        { event with candidates := event.candidates.insert source [] }))
  | assign (w : World) (m : MachineId) (setting : Setting) (x : Value) (hp : P (.assign m setting x)) :
      Step P w (w.updateMachine m (setting.assign x))
  | unbind (w : World) (m : MachineId) (model : Value) :
      Step P w ({ w with rosters := w.rosters.push ((w.boundModels m).filter (fun x => !x.same model)) }
        |>.updateMachine m (fun machine => { machine with roster := w.rosters.next }))
  | makeMachine {w v : World} {plan : Blueprint} {m : MachineId} (h : w.makeMachine plan = .ok (m, v)) :
      Step P w v
  | openFiring (w : World) (firing : Firing) : Step P w { w with firings := w.firings.push firing }
  | restate (w : World) (i : FiringId) (s : StateId) :
      Step P w (w.updateFiring i (fun f => { f with state := s }))

/-- A relation between worlds that has all steps of operations of a kind, and what the processing of a new
firing notes in it, unless the relation says nothing of the world in which that is opened. -/
structure Permits (P : Operation → Prop) (R : World → World → Prop) : Prop where
  step : ∀ {w v}, Step P w v → ReflTransGen R w v
  fresh : ∀ w, (∀ v, R w v) ∨ ∀ u f, ReflTransGen R u (u.updateFiring w.firings.next f)

variable {P : Operation → Prop} {R : World → World → Prop}

theorem Permits.note (hR : Permits P R) {w v : World} (h : Noted w v) : ReflTransGen R w v :=
  hR.step (.note h)

/-- Steps of another kind come with a change of what stands beside the machines. -/
theorem Permits.noted (hR : Permits P R) {w v u : World} (h : Step P w v) (hu : Noted v u) :
    ReflTransGen R w u := (hR.step h).trans (hR.note hu)

theorem makeAccessor_cases {w v : World} {plan : AccessorPlan} {a : Accessor}
    (h : w.makeAccessor plan = .ok (a, v)) : ∃ ledgers, v = { w with ledgers := ledgers } := by
  cases plan with
  | field name =>
    cases hn : Accessor.ofName name with
    | error f => simp [makeAccessor, hn, Except.map] at h
    | ok x =>
      simp only [makeAccessor, hn, Except.map, Except.ok.injEq, Prod.mk.injEq] at h
      exact ⟨w.ledgers, h.2.symm⟩
  | ledger name =>
    cases h
    exact ⟨_, rfl⟩

/-- A new machine has nothing registered, no initial state and no models. -/
theorem makeMachine_cases {w v : World} {plan : Blueprint} {m : MachineId}
    (h : w.makeMachine plan = .ok (m, v)) :
    ∃ machine ledgers, m = w.machines.next ∧ machine.states = {} ∧ machine.events = {} ∧
      machine.initial = .null ∧ machine.roster = w.rosters.next ∧
      v = { w with ledgers := ledgers, rosters := w.rosters.push [], machines := w.machines.push machine } := by
  obtain ⟨⟨a, u⟩, ha, h⟩ := ok_of_bind h
  obtain ⟨ledgers, rfl⟩ := makeAccessor_cases ha
  cases h
  exact ⟨_, ledgers, rfl, rfl, rfl, rfl, rfl, rfl⟩

/-- A new machine stands under a number that was not given out before. -/
theorem machine_push (w : World) (machine : Machine) (n : MachineId) :
    ({ w with machines := w.machines.push machine } : World).machine n = w.machine n ∨
      w.machine n = default ∧ ({ w with machines := w.machines.push machine } : World).machine n = machine := by
  by_cases hn : n = w.machines.next
  · refine .inr ⟨Heap.get_of_next_le (Nat.le_of_eq hn.symm), ?_⟩
    rw [World.machine, Heap.get_push, if_pos hn]
  · refine .inl ?_
    rw [World.machine, Heap.get_push, if_neg hn]
    rfl

theorem Noted.aside {w v : World} (h : Noted w v) : Aside w v := by
  have rest := h.rest
  exact ⟨by rw [rest], by rw [rest], by rw [rest], by rw [rest]⟩

theorem changes_makeMachine {w v : World} {plan : Blueprint} {m : MachineId} (h : w.makeMachine plan = .ok (m, v)) :
    Changes w v := by
  obtain ⟨machine, ledgers, -, hs, he, -, -, rfl⟩ := makeMachine_cases h
  have prepared : Aside w { w with ledgers := ledgers, rosters := w.rosters.push [] } := ⟨rfl, rfl, rfl, rfl⟩
  exact prepared.steps.tail (.makeMachine _ machine hs he)

/-- Steps of operations that check what they register change the registries by steps. -/
theorem Step.changes (hP : ∀ m trigger t, ¬ P (.adopt m trigger t)) {w v : World} (h : Step P w v) :
    Changes w v := by
  cases h with
  | note h => exact h.aside.steps
  | makeState s => exact .single (.makeState w s)
  | enroll m s hk hnew => exact .single (.enroll w m s hk hnew)
  | hookState s c stage => exact .single (.hookState w s c stage)
  | makeTransition t => exact .single (.makeTransition w t)
  | connect h => exact .single (.connect h)
  | disconnect h => exact .single (.disconnect h)
  | adopt hp h => exact absurd hp (hP _ _ _)
  | hookTransition t c stage => exact .single (.hookTransition w t c stage)
  | fileSource h => exact .single (.fileSource h)
  | assign m setting x hp =>
    refine .single (.tune w m (fun machine => ?_))
    cases setting <;> exact ⟨rfl, rfl, rfl⟩
  | unbind m model =>
    have renewed : Tunes (fun machine : Machine => { machine with roster := w.rosters.next }) :=
      fun _ => ⟨rfl, rfl, rfl⟩
    have pushed : Aside w { w with
      rosters := w.rosters.push ((w.boundModels m).filter (fun x => !x.same model)) } := ⟨rfl, rfl, rfl, rfl⟩
    exact pushed.steps.tail (.tune _ m renewed)
  | makeMachine h => exact changes_makeMachine h
  | openFiring firing => exact Aside.steps ⟨rfl, rfl, rfl, rfl⟩
  | restate i s => exact Aside.steps ⟨rfl, rfl, rfl, rfl⟩

theorem permits_change (hP : ∀ m trigger t, ¬ P (.adopt m trigger t)) : Permits P Change where
  step := Step.changes hP
  fresh _ := .inr (fun _ _ => Aside.steps ⟨rfl, rfl, rfl, rfl⟩)

end World

open World Act

variable {P : Operation → Prop} {R : World → World → Prop}

theorem walks_note (hR : Permits P R) {f : World → World} (hf : ∀ w, Noted w (f w)) :
    Act.Walks R (change f) :=
  .change (fun w => hR.note (hf w))

theorem walks_connect (hR : Permits P R) (m : MachineId) (trigger source dest : Value) (hooks : Hooks) :
    Act.Walks R (advance (fun w => w.connect m trigger source dest hooks)) :=
  .advance (fun _ _ h => hR.step (.connect h))

theorem noted_place (m : MachineId) (state models : Value) : Act.Walks Noted (Engine.place m state models) :=
  Engine.walks_place_of (fun _ _ _ _ _ h => .writeAttribute h) (fun _ _ _ _ => ⟨rfl, fun _ => rfl⟩) m state
    models

theorem walks_placing (hR : Permits P R) (m : MachineId) (state models : Value) :
    Act.Walks R (Engine.place m state models) :=
  (noted_place m state models).mono (fun _ _ h => hR.note h)

end StateEngine
