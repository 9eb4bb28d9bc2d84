import StateEngine.Proofs.Firing.Conduct
import StateEngine.Proofs.Going.Operations
import StateEngine.Proofs.Registry.Upkeep

/-! Growth of a machine: what is registered later comes behind what was there. States and transitions that were there
stay as they are, and so do the candidates of an event, to which others are added. -/
namespace StateEngine
open Act Relation

namespace Table

variable {κ α : Type} [BEq κ]

/-- Whatever key is looked up, what is filed behind the others of a key comes behind what was found. -/
theorem find?_insert_behind {t : Table κ (List α)} {other : κ} {ts : List α} (h : t.find? other = some ts) (key : κ) (a : α) :
    ∃ more, (t.insert key ((t.find? key).getD [] ++ [a])).find? other = some (ts ++ more) := by
  cases hold : t.find? key with
  | none =>
    have new : t.contains key = false := by rw [contains, hold]; rfl
    exact ⟨[], by rw [List.append_nil]; exact find?_insert_of_not_contains new h⟩
  | some old =>
    obtain ⟨front, k, back, -, before, after⟩ := entries_insert_of_find? hold (old ++ [a])
    rw [Option.getD_some]
    unfold find? at h ⊢
    rw [before] at h
    rw [after]
    -- the first entry for the other key stands where it stood
    cases hfront : front.find? (fun e => e.1 == other) with
    | some e =>
      rw [List.find?_append, hfront] at h ⊢
      exact ⟨[], by rw [List.append_nil]; exact h⟩
    | none =>
      rw [List.find?_append, hfront, Option.none_or, List.find?_cons] at h ⊢
      cases same : k == other with
      | true =>
        rw [same] at h
        obtain rfl := Option.some.inj h
        exact ⟨[a], rfl⟩
      | false =>
        rw [same] at h
        exact ⟨[], by rw [List.append_nil]; exact h⟩

end Table

namespace World

variable {m : MachineId} {w v u : World}

/-- One world has grown out of another one: what a machine had registered is as it was, and the candidates of events come
first among those that they have now. -/
structure Grown (m : MachineId) (w v : World) : Prop where
  made : w.states.next ≤ v.states.next ∧ w.transitions.next ≤ v.transitions.next ∧ w.events.next ≤ v.events.next
  names : ∀ s < w.states.next, (v.states.get s).name = (w.states.get s).name
  states : ∀ s ∈ (w.machine m).states.values, v.states.get s = w.states.get s
  transitions : ∀ t < w.transitions.next, v.transitions.get t = w.transitions.get t
  owners : ∀ e < w.events.next, (v.events.get e).name = (w.events.get e).name ∧
    (v.events.get e).machine = (w.events.get e).machine
  candidates : ∀ e < w.events.next, ∀ source ts, (w.events.get e).candidates.find? source = some ts →
    ∃ more, (v.events.get e).candidates.find? source = some (ts ++ more)
  registered : ∀ name s, (w.machine m).states.find? name = some s → (v.machine m).states.find? name = some s
  listed : ∀ trigger e, (w.machine m).events.find? trigger = some e → (v.machine m).events.find? trigger = some e
  machine : ∃ states events, v.machine m = { w.machine m with states := states, events := events }
  others : ∀ n, n ≠ m → v.machine n = w.machine n
  firings : v.firings = w.firings
  rosters : v.rosters = w.rosters

theorem Grown.refl (m : MachineId) (w : World) : Grown m w w where
  made := ⟨Nat.le_refl _, Nat.le_refl _, Nat.le_refl _⟩
  names _ _ := rfl
  states _ _ := rfl
  transitions _ _ := rfl
  owners _ _ := ⟨rfl, rfl⟩
  candidates _ _ _ ts h := ⟨[], by rw [List.append_nil]; exact h⟩
  registered _ _ := id
  listed _ _ := id
  machine := ⟨(w.machine m).states, (w.machine m).events, rfl⟩
  others _ _ := rfl
  firings := rfl
  rosters := rfl

/-- What callbacks do that perform no operation on a machine does not matter. -/
theorem Grown.steady (h : Grown m w v) (hu : Steady v u) : Grown m w u := by
  have machine (n : MachineId) : u.machine n = v.machine n := by rw [World.machine, hu.machines, World.machine]
  obtain ⟨states, transitions, events, firings, rosters, -⟩ := hu
  refine ⟨?_, ?_, ?_, ?_, ?_, ?_, ?_, ?_, ?_, fun n hn => (machine n).trans (h.others n hn), firings.trans h.firings,
    rosters.trans h.rosters⟩
  · rw [states, transitions, events]
    exact h.made
  · rw [states]
    exact h.names
  · rw [states]
    exact h.states
  · rw [transitions]
    exact h.transitions
  · rw [events]
    exact h.owners
  · rw [events]
    exact h.candidates
  · rw [machine]
    exact h.registered
  · rw [machine]
    exact h.listed
  · rw [machine]
    exact h.machine

/-- A state may be made. -/
theorem Grown.makeState (h : Grown m w v) (hs : ∀ s ∈ (w.machine m).states.values, s < w.states.next) (state : State) :
    Grown m w (v.addState state).2 := by
  have older {s : StateId} (hlt : s < w.states.next) : (v.addState state).2.states.get s = v.states.get s := by
    have hne : s ≠ v.states.next := Nat.ne_of_lt (Nat.lt_of_lt_of_le hlt h.made.1)
    simp [World.addState, hne]
  exact { h with
    made := ⟨Nat.le_trans h.made.1 (by simp [World.addState]), h.made.2⟩
    names := fun s hlt => by rw [older hlt]; exact h.names s hlt
    states := fun s hmem => (older (hs s hmem)).trans (h.states s hmem) }

/-- A state that the machine did not have may get a callback. -/
theorem Grown.hookState (h : Grown m w v) {s : StateId} (hs : s ∉ (w.machine m).states.values) (c : Callback)
    (stage : StateStage) : Grown m w (v.updateState s (·.addCallback c stage)) := by
  have name (i : StateId) : ((v.updateState s (·.addCallback c stage)).states.get i).name = (v.states.get i).name := by
    by_cases hi : s = i
    · cases stage <;> simp [updateState, hi, State.addCallback, State.name]
    · simp [updateState, hi]
  refine { h with
    made := ⟨Nat.le_trans h.made.1 (Heap.next_le_next_modify _ _ _), h.made.2⟩
    names := fun i hi => (name i).trans (h.names i hi)
    states := fun i hmem => ?_ }
  have hne : s ≠ i := fun same => hs (same ▸ hmem)
  rw [updateState, Heap.get_modify, if_neg hne]
  exact h.states i hmem

/-- A state may be registered under a new name. -/
theorem Grown.enroll (h : Grown m w v) {s : StateId} {name : Value} (hnew : (v.machine m).states.contains name = false) :
    Grown m w (v.updateMachine m (fun machine => { machine with states := machine.states.insert name s })) := by
  have here : (v.updateMachine m (fun machine => { machine with states := machine.states.insert name s })).machine m =
      { v.machine m with states := (v.machine m).states.insert name s } := by rw [machine_updateMachine, if_pos rfl]
  obtain ⟨states, events, machine⟩ := h.machine
  refine { h with registered := ?_, listed := ?_, machine := ?_, others := fun n hn => ?_ }
  · intro other i found
    rw [here]
    exact Table.find?_insert_of_not_contains hnew (h.registered other i found)
  · rw [here]
    exact h.listed
  · exact ⟨_, _, by rw [here, machine]⟩
  · rw [machine_updateMachine, if_neg hn.symm]
    exact h.others n hn

/-- An event may be made for a new trigger. -/
theorem Grown.newEvent (h : Grown m w v) {trigger : Value} (hnew : (v.machine m).events.find? trigger = none) :
    Grown m w (v.newEvent m trigger) := by
  have unlisted : (v.machine m).events.contains trigger = false := by rw [Table.contains, hnew]; rfl
  have here : (v.newEvent m trigger).machine m =
      { v.machine m with events := (v.machine m).events.insert trigger v.events.next } := by
    rw [World.newEvent, machine_updateMachine, if_pos rfl]
    rfl
  have older {e : EventId} (he : e < w.events.next) : (v.newEvent m trigger).events.get e = v.events.get e := by
    rw [event_newEvent, if_neg (Nat.ne_of_lt (Nat.lt_of_lt_of_le he h.made.2.2))]
  obtain ⟨states, events, machine⟩ := h.machine
  have next : (v.newEvent m trigger).events.next = v.events.next + 1 := Heap.next_push _ _
  refine { h with
    made := ⟨h.made.1, h.made.2.1, by rw [next]; exact Nat.le_succ_of_le h.made.2.2⟩, owners := ?_, candidates := ?_,
    registered := ?_, listed := ?_, machine := ?_, others := fun n hn => ?_ }
  · intro e he
    rw [older he]
    exact h.owners e he
  · intro e he
    rw [older he]
    exact h.candidates e he
  · rw [here]
    exact h.registered
  · intro other e found
    rw [here]
    exact Table.find?_insert_of_not_contains unlisted (h.listed other e found)
  · exact ⟨_, _, by rw [here, machine]⟩
  · rw [World.newEvent, machine_updateMachine, if_neg hn.symm]
    exact h.others n hn

/-- A transition may be made, and filed behind the other candidates for its source. -/
theorem Grown.addMove (h : Grown m w v) (hooks : Hooks) (e : EventId) (move : Value × Value) :
    Grown m w (World.addMove hooks e v move) := by
  obtain ⟨u, hu⟩ : ∃ u, u = World.addMove hooks e v move := ⟨_, rfl⟩
  have transitions : u.transitions = v.transitions.push (.ofHooks move.1 move.2 hooks) := by
    rw [hu]
    rfl
  have events : u.events = v.events.modify e (fun event => { event with
      candidates := event.candidates.insert move.1 ((event.candidates.find? move.1).getD [] ++ [v.transitions.next]) }) := by
    simp [hu, World.addMove, addCandidate, updateEvent, addTransition, Transition.ofHooks]
  have rest : u = { v with transitions := u.transitions, events := u.events } := by
    rw [hu]
    rfl
  have machine (n : MachineId) : u.machine n = v.machine n := by
    rw [rest]
    rfl
  have states : u.states = v.states := by rw [rest]
  rw [← hu]
  refine ⟨?_, ?_, ?_, ?_, ?_, ?_, ?_, ?_, ?_, fun n hn => (machine n).trans (h.others n hn), ?_, ?_⟩
  · obtain ⟨hs, ht, he⟩ := h.made
    refine ⟨by rw [states]; exact hs, ?_, ?_⟩
    · rw [transitions, Heap.next_push]
      exact Nat.le_succ_of_le ht
    · rw [events]
      exact Nat.le_trans he (Heap.next_le_next_modify _ _ _)
  · rw [states]
    exact h.names
  · rw [states]
    exact h.states
  · intro t ht
    rw [transitions, Heap.get_push, if_neg (Nat.ne_of_lt (Nat.lt_of_lt_of_le ht h.made.2.1))]
    exact h.transitions t ht
  · intro i hi
    obtain ⟨name, owner⟩ := h.owners i hi
    rw [events, Heap.get_modify]
    split
    · exact ⟨name, owner⟩
    · exact ⟨name, owner⟩
  · intro i hi source ts found
    obtain ⟨more, found'⟩ := h.candidates i hi source ts found
    rw [events, Heap.get_modify]
    split
    · obtain ⟨more', found''⟩ := Table.find?_insert_behind found' move.1 v.transitions.next
      exact ⟨more ++ more', by rw [← List.append_assoc]; exact found''⟩
    · exact ⟨more, found'⟩
  · rw [machine]
    exact h.registered
  · rw [machine]
    exact h.listed
  · rw [machine]
    exact h.machine
  · rw [rest]
    exact h.firings
  · rw [rest]
    exact h.rosters

/-- A trigger may be connected. -/
theorem Grown.connect (h : Grown m w v) {trigger source dest : Value} {hooks : Hooks}
    (hu : v.connect m trigger source dest hooks = .ok u) : Grown m w u := by
  obtain ⟨-, moves, -, rfl⟩ := connect_cases hu
  have ensured : Grown m w (v.ensureEvent m trigger).2 := by
    rcases ensureEvent_cases v m trigger with ⟨e, -, he⟩ | ⟨hnew, he⟩
    · rw [he]
      exact h
    · rw [he]
      exact h.newEvent hnew
  generalize (v.ensureEvent m trigger).1 = e at *
  generalize (v.ensureEvent m trigger).2 = z at *
  clear hu h
  induction moves generalizing z with
  | nil => exact ensured
  | cons move moves ih => exact ih _ (ensured.addMove hooks e move)

/-- Every registered state has been made, and is registered under its name. -/
structure Rooted (m : MachineId) (w : World) : Prop where
  made : ∀ s ∈ (w.machine m).states.values, s < w.states.next
  filed : ∀ s ∈ (w.machine m).states.values, ∃ s', (w.machine m).states.find? (w.states.get s).name = some s'

theorem Reachable.rooted (hw : w.Reachable) (hn : w.PlainNames m) : w.Rooted m := by
  have named {x : Value × StateId} (hx : x ∈ (w.machine m).states.entries) : (w.states.get x.2).name = x.1 :=
    hw.regular.filed m hn x hx
  refine ⟨fun s hs => ?_, fun s hs => ?_⟩
  · obtain ⟨x, hx, rfl⟩ := List.mem_map.mp hs
    obtain ⟨a, ha⟩ := hn _ (mem_keys hx)
    exact lt_of_name_text ((named hx).trans ha)
  · obtain ⟨x, hx, rfl⟩ := List.mem_map.mp hs
    exact Table.find?_of_mem hx (by rw [named hx]; exact ReflBEq.rfl)

/-- What a call registers is new. -/
theorem Grown.enrolled (h : Grown m w v) (hw : w.Rooted m) {options : StateOptions} {entry : Value} {s : StateId}
    (hu : v.enroll m options entry = .ok (s, u)) : Grown m w u ∧ s ∉ (w.machine m).states.values := by
  obtain ⟨z, hz, -, hnew, rfl⟩ := enroll_cases hu
  have grown : Grown m w z := by
    rcases stateOf_cases hz with ⟨-, rfl⟩ | ⟨state, -, rfl⟩
    · exact h
    · exact h.makeState hw.made state
  refine ⟨grown.enroll hnew, fun hs => ?_⟩
  obtain ⟨s', found⟩ := hw.filed s hs
  have there := grown.registered _ s' found
  rw [← grown.names s (hw.made s hs)] at there
  rw [Table.contains, there] at hnew
  cases hnew

/-- A step that keeps to what has grown out of a world. -/
def Growing (m : MachineId) (w : World) (v u : World) : Prop := Grown m w v → Grown m w u

theorem Grown.of_steps (h : Grown m w v) (steps : ReflTransGen (Growing m w) v u) : Grown m w u := by
  induction steps with
  | refl => exact h
  | tail _ step ih => exact step ih

end World

/-- Requests that register states and transitions of a machine. -/
inductive Operation.Enlarges (m : MachineId) : Operation → Prop where
  | connect (trigger source dest : Value) (hooks : Hooks) : Enlarges m (.connect m trigger source dest hooks)
  | connectAll (definitions : Value) : Enlarges m (.connectAll m definitions)
  | connectRow (row : Row) : Enlarges m (.connectRow m row)
  | addStates (states : Value) (options : StateOptions) : Enlarges m (.addStates m states options)

namespace Engine
open World

variable {E : Engine} {m : MachineId} {w v u : World}

/-- Requests that register go by steps of a kind if connecting and adding one state do. -/
theorem walks_enlarges_of {R : World → World → Prop}
    (connect : ∀ {v u trigger source dest hooks}, v.connect m trigger source dest hooks = .ok u → R v u)
    (add : ∀ options entry, Act.Walks R (E.addState m options entry)) {op : Operation} (hop : op.Enlarges m) :
    Act.Walks R (E.perform op) := by
  have connected (trigger source dest : Value) (hooks : Hooks) :
      Act.Walks R (Act.advance (fun v => v.connect m trigger source dest hooks)) :=
    .advance (fun _ _ hu => .single (connect hu))
  cases hop with
  | connect trigger source dest hooks => exact .bind (connected trigger source dest hooks) (fun _ => .pure _)
  | connectAll definitions =>
    refine .bind (.forM (fun definition => .advance (fun v u hu => .single ?_))) (fun _ => .pure _)
    obtain ⟨trigger, source, dest, hooks, -, hu⟩ := connectDefinition_cases hu
    exact connect hu
  | connectRow row => exact .bind (.bind (.ask _) (fun _ => .forM (fun _ => connected _ _ _ _))) (fun _ => .pure _)
  | addStates states options => exact .bind (.forM (fun entry => add options entry)) (fun _ => .pure _)

theorem growing_steady (hE : E.Walks Steady) : E.Walks (Growing m w) where
  call label callback call v := .single (fun h => h.steady (.of_steps (hE.call label callback call v)))
  record v entry := .single (fun h => h.steady (.of_steps (hE.record v entry)))

/-- Behind the enrolment of a new state come its callbacks and its transitions. -/
theorem growing_settleState (hE : E.Walks Steady) {s : StateId} (hs : s ∉ (w.machine m).states.values) :
    Act.Walks (Growing m w) (do
      forRoster ((← get).machine m).roster (E.bindConventions m s) E.bound 0
      if ((← get).machine m).autoTransitions.truthy then connectAutomatically m s : Run Unit) := by
  have walks : E.Walks (Growing m w) := growing_steady hE
  refine walks_settleState_of (fun model => ?_) (fun _ _ _ _ => .advance (fun _ _ hu => .single (fun h => h.connect hu)))
  exact walks_bindConventions_of (walks.readAttribute model) (fun _ c stage => .single (fun h => h.hookState hs c stage))
    walks.record m

theorem growing_addState (hE : E.Walks Steady) (hw : w.Rooted m) (options : StateOptions) (entry : Value) :
    Act.Walks (Growing m w) (E.addState m options entry) := by
  intro v
  refine .single (fun h => ?_)
  unfold Engine.addState
  cases enrolled : v.enroll m options entry with
  | error f =>
    have asked : Act.ask (fun w => w.enroll m options entry) v = (.error (.fault f), v) := by
      rw [ask_apply, enrolled]
      rfl
    rw [bind_of_error asked]
    exact h
  | ok p =>
    obtain ⟨s, z⟩ := p
    obtain ⟨grown, hs⟩ := h.enrolled hw enrolled
    rw [bind_of_ok (ask_ok (f := fun w : World => w.enroll m options entry) enrolled)]
    exact grown.of_steps (growing_settleState hE hs z)

/-- A request that registers states or transitions of a machine, and succeeds. -/
def Enlarges (E : Engine) (m : MachineId) (w v : World) : Prop :=
  ∃ op reply, op.Enlarges m ∧ E.perform op w = (.ok reply, v)

/-- Registering more, a machine grows. -/
theorem grown_of_enlarges (hE : E.Walks Steady) (hw : w.Reachable) (hn : w.PlainNames m)
    (history : ReflTransGen (E.Enlarges m) w v) : Grown m w v := by
  induction history with
  | refl => exact .refl m w
  | tail _ last ih =>
    obtain ⟨op, reply, hop, ran⟩ := last
    have growing := walks_enlarges_of (R := Growing m w) (fun hu h => h.connect hu) (growing_addState hE (hw.rooted hn)) hop
    exact ih.of_steps (growing.steps ran)

end Engine

/-- Two worlds with the same models, in the same states. -/
def World.SameModels (w v : World) : Prop := v.models = w.models ∧ v.ledgers = w.ledgers

namespace World

variable {m : MachineId} {w v u : World}

theorem SameModels.trans (h : SameModels w v) (h' : SameModels v u) : SameModels w u :=
  ⟨h'.1.trans h.1, h'.2.trans h.2⟩

theorem SameModels.of_steps (h : ReflTransGen SameModels w v) : SameModels w v := by
  induction h with
  | refl => exact ⟨rfl, rfl⟩
  | tail _ step ih => exact ih.trans step

theorem sameModels_connect {trigger source dest : Value} {hooks : Hooks}
    (hu : v.connect m trigger source dest hooks = .ok u) : SameModels v u := by
  obtain ⟨-, moves, -, rfl⟩ := connect_cases hu
  have ensured : SameModels v (v.ensureEvent m trigger).2 := by
    rcases ensureEvent_cases v m trigger with ⟨e, -, he⟩ | ⟨-, he⟩
    · rw [he]
      exact ⟨rfl, rfl⟩
    · rw [he]
      exact ⟨rfl, rfl⟩
  generalize (v.ensureEvent m trigger).1 = e at *
  generalize (v.ensureEvent m trigger).2 = z at *
  clear hu
  induction moves generalizing z with
  | nil => exact ensured
  | cons move moves ih => exact ih _ (ensured.trans ⟨rfl, rfl⟩)

end World

namespace Engine
open World

variable {E : Engine} {m : MachineId} {w v : World}

/-- What is registered leaves models in their states, as far as the properties do that are read meanwhile. -/
theorem sameModels_of_enlarges (reads : ∀ owner name, Act.Walks SameModels (E.readAttribute owner name))
    (history : ReflTransGen (E.Enlarges m) w v) : SameModels w v := by
  have add (options : StateOptions) (entry : Value) : Act.Walks SameModels (E.addState m options entry) := by
    refine .ask_set (fun v s u hu => .single ?_) (fun s => .bind (.pure s) (fun s => ?_))
    · obtain ⟨z, hz, -, -, rfl⟩ := enroll_cases hu
      rcases stateOf_cases hz with ⟨-, rfl⟩ | ⟨state, -, rfl⟩
      · exact ⟨rfl, rfl⟩
      · exact ⟨rfl, rfl⟩
    · refine walks_settleState_of (fun model => ?_) (fun _ _ _ _ => .advance (fun _ _ hu => .single (sameModels_connect hu)))
      exact walks_bindConventions_of (reads model) (fun _ _ _ => .single ⟨rfl, rfl⟩) (fun _ _ => .single ⟨rfl, rfl⟩) m
  induction history with
  | refl => exact ⟨rfl, rfl⟩
  | tail _ last ih =>
    obtain ⟨op, reply, hop, ran⟩ := last
    exact ih.trans (.of_steps ((walks_enlarges_of sameModels_connect add hop).steps ran))

end Engine

end StateEngine
