import StateEngine.Proofs.Journey.Place
import StateEngine.Proofs.Registry.Lookup
import StateEngine.Proofs.Registry.Removal

/-! Routes: under a trigger of its own every state of a machine is reached from every one, by transitions without
guards and callbacks. What is registered, removed and hooked under other triggers leaves them as they are. -/
namespace StateEngine
open Relation

namespace Table

variable {α κ : Type}

/-- What is filed behind the others of its key comes to the whole, and nothing else does. -/
theorem perm_flatten_insert [BEq κ] (t : Table κ (List α)) (key : κ) (a : α) :
    ((t.insert key ((t.find? key).getD [] ++ [a])).values.flatten).Perm (t.values.flatten ++ [a]) := by
  unfold values
  cases h : t.find? key with
  | none =>
    have new : t.contains key = false := by rw [contains, h]; rfl
    rw [entries_insert_of_not_contains new]
    simp
  | some old =>
    obtain ⟨front, k, back, -, before, after⟩ := entries_insert_of_find? h (old ++ [a])
    rw [Option.getD_some, before, after]
    simp only [List.map_append, List.map_cons, List.flatten_append, List.flatten_cons, List.append_assoc]
    exact (List.perm_append_comm.append_left old).append_left _

/-- What is inserted under one text is found under no other one. -/
theorem find?_insert_text (t : Table Value α) {key : Value} {s : String} (hk : key.text? = some s) (b : String) (a : α) :
    (t.insert key a).find? (.text b) = if s = b then some a else t.find? (.text b) := by
  have equal {k : Value} {c : String} (h : k.text? = some c) (d : String) : (k == .text d) = decide (c = d) := by
    refine Bool.eq_iff_iff.mpr (Value.beq_text_iff.trans ?_)
    rw [h, Option.some.injEq, decide_eq_true_iff]
  rw [find?_insert_of a, equal hk]
  · simp only [decide_eq_true_iff]
  · intro k h
    rw [equal ((Value.beq_iff_text_of hk).mp h), equal hk]
  · intro h k
    have hb : s = b := by simpa [equal hk] using h
    refine Bool.eq_iff_iff.mpr (Value.beq_text_iff.trans ?_)
    rw [Value.beq_iff_text_of hk, hb]

/-- A key that is new and differs from another one leaves what is found under that. -/
theorem find?_insert_of_ne [BEq κ] {t : Table κ α} {key other : κ} (a : α) (hnew : t.contains key = false)
    (hne : (key == other) = false) : (t.insert key a).find? other = t.find? other := by
  unfold find?
  rw [entries_insert_of_not_contains hnew, List.find?_append]
  cases t.entries.find? (fun e => e.1 == other) with
  | some e => rfl
  | none => simp [hne]

/-- What is erased under a key leaves what is found under another one, if nothing equals both. -/
theorem find?_erase_of [BEq κ] {t : Table κ α} {key other : κ} (h : ∀ k, (k == other) = true → (k == key) = false) :
    (t.erase key).find? other = t.find? other := by
  unfold find? erase
  rw [List.find?_filter]
  congr 1
  refine List.find?_congr (fun e _ => ?_)
  by_cases he : (e.1 == other) = true
  · simp [he, h e.1 he]
  · simp [he]

end Table

/-- The trigger that leads to the state of a name. -/
def toTrigger (b : String) : Value := .text ("to_" ++ b)

/-- A trigger is one that leads to a state of some name. -/
def Value.Aims (trigger : Value) : Prop := ∃ b : String, trigger.text? = some ("to_" ++ b)

/-- The transition from one state to another, without guards and callbacks. -/
def route (a b : Value) : Transition := .ofHooks a b {}

theorem toTrigger_injective {b c : String} (h : "to_" ++ b = "to_" ++ c) : b = c := by
  simpa using h

namespace World

variable {m n : MachineId} {w v u : World} {e : EventId} {b : String} {sources : List Value}

/-- An event holds one route to a state from each of some sources, and nothing else. -/
structure Spans (w : World) (e : EventId) (b : String) (sources : List Value) : Prop where
  found : ∀ a : String, .text a ∈ sources → ∃ t, (w.events.get e).candidates.find? (.text a) = some [t] ∧
    w.transitions.get t = route (.text a) (.text b)
  rest : ∀ a : String, .text a ∉ sources → ((w.events.get e).candidates.find? (.text a)).getD [] = []
  all : ((w.events.get e).candidates.values.flatten.map w.transitions.get).Perm
    (sources.map (fun k => route k (.text b)))
  made : ∀ t ∈ (w.events.get e).candidates.values.flatten, t < w.transitions.next

/-- A machine has registered its states under texts that stand for nothing else where transitions are connected, and the
triggers that lead to them are not called like the attribute for the state. -/
def WellNamed (w : World) (m : MachineId) : Prop :=
  ∀ k ∈ (w.machine m).states.keys, ∃ a : String, k = .text a ∧ a ≠ "*" ∧ a ≠ "=" ∧
    "to_" ++ a ≠ (w.machine m).accessor.name

/-- The trigger of a state leads there from some sources, once from each. -/
def Routed (w : World) (m : MachineId) (b : String) (sources : List Value) : Prop :=
  ∃ e, (w.machine m).events.find? (toTrigger b) = some e ∧ w.Spans e b sources

/-- Every state of a machine is reached by its trigger from every one, itself included, and no trigger leads anywhere
else. -/
structure Linked (w : World) (m : MachineId) : Prop where
  leads : ∀ b : String, .text b ∈ (w.machine m).states.keys → w.Routed m b (w.machine m).states.keys
  unused : ∀ b : String, .text b ∉ (w.machine m).states.keys → (w.machine m).events.find? (toTrigger b) = none

theorem WellNamed.plain (h : w.WellNamed m) : w.PlainNames m := fun k hk => by
  obtain ⟨a, ha, -⟩ := h k hk
  exact ⟨a, ha⟩

/-- What is well named was so before. -/
theorem WellNamed.earlier (h : v.WellNamed m) (hv : Changes w v) : w.WellNamed m := by
  intro k hk
  obtain ⟨a, ha, all, same, reserved⟩ := h k (hv.extends.1.keys m k hk)
  refine ⟨a, ha, all, same, ?_⟩
  have made : m < w.machines.next := by
    refine Nat.lt_of_not_le (fun hle => ?_)
    rw [World.machine, Heap.get_of_next_le hle] at hk
    cases hk
  rwa [hv.accessor.2 m made] at reserved

/-- The event of a trigger is none that another trigger stands for, on any machine. -/
theorem Reachable.event_unique (hw : w.Reachable) {e' : EventId} {trigger : Value}
    (h : (w.machine m).events.find? (toTrigger b) = some e) (h' : (w.machine n).events.find? trigger = some e')
    (ha : n = m → trigger.text? ≠ some ("to_" ++ b)) : e' ≠ e := by
  rintro rfl
  obtain ⟨k, hk, hmem⟩ := Table.mem_of_find? h
  obtain ⟨k', hk', hmem'⟩ := Table.mem_of_find? h'
  have same : n = m := by
    rw [← (hw.regular.owned n _ hmem').2, (hw.regular.owned m _ hmem).2]
  subst same
  obtain rfl : k = k' := (hw.sorted.listed n _ hmem).name.symm.trans (hw.sorted.listed n _ hmem').name
  exact ha rfl ((Value.beq_iff_of_text (Value.beq_text_iff.mp hk)).mp hk')

/-- An event and its transitions stay as they are. -/
theorem Spans.kept (h : w.Spans e b sources) (hc : (v.events.get e).candidates = (w.events.get e).candidates)
    (ht : ∀ t < w.transitions.next, w.Filed e t → v.transitions.get t = w.transitions.get t)
    (hn : w.transitions.next ≤ v.transitions.next) : v.Spans e b sources := by
  have kept (t : TransitionId) (hmem : t ∈ (w.events.get e).candidates.values.flatten) :
      v.transitions.get t = w.transitions.get t := by
    refine ht t (h.made t hmem) ?_
    obtain ⟨ts, hts, hmem⟩ := List.mem_flatten.mp hmem
    obtain ⟨x, hx, rfl⟩ := List.mem_map.mp hts
    exact ⟨x, hx, hmem⟩
  refine ⟨fun a ha => ?_, fun a ha => hc ▸ h.rest a ha, ?_, fun t hmem => ?_⟩
  · obtain ⟨t, found, leads⟩ := h.found a ha
    refine ⟨t, hc ▸ found, ?_⟩
    obtain ⟨k, -, hmem⟩ := Table.mem_of_find? found
    rw [kept t (List.mem_flatten.mpr ⟨[t], List.mem_map_of_mem hmem, List.mem_singleton_self t⟩), leads]
  · rw [hc, List.map_congr_left kept]
    exact h.all
  · exact Nat.lt_of_lt_of_le (h.made t (hc ▸ hmem)) hn

theorem event_addMoves_of_ne {e' : EventId} (hne : e' ≠ e) (hooks : Hooks) (moves : List (Value × Value)) (w : World) :
    (moves.foldl (addMove hooks e') w).events.get e = w.events.get e := by
  induction moves generalizing w with
  | nil => rfl
  | cons move moves ih =>
    have first : (addMove hooks e' w move).events.get e = w.events.get e := by
      simp [addMove, addCandidate, updateEvent, addTransition, hne]
    exact (ih _).trans first

/-- Connecting another trigger, or one of another machine, leaves the event of a trigger as it is. -/
theorem unreached_connect (hw : w.Reachable) {trigger source dest : Value} {hooks : Hooks}
    (h : w.connect n trigger source dest hooks = .ok v) (ha : n = m → trigger.text? ≠ some ("to_" ++ b)) :
    (v.machine m).events.find? (toTrigger b) = (w.machine m).events.find? (toTrigger b) ∧
      ∀ e sources, (w.machine m).events.find? (toTrigger b) = some e → w.Spans e b sources → v.Spans e b sources := by
  have transitions (t : TransitionId) (ht : t < w.transitions.next) : v.transitions.get t = w.transitions.get t :=
    transition_connect h ht
  have next := (event_connect h).1
  obtain ⟨-, moves, -, rfl⟩ := connect_cases h
  have machines := (event_addMoves hooks (w.ensureEvent n trigger).1 0 moves (w.ensureEvent n trigger).2).2.2.2
  have spans (e : EventId) (sources : List Value) (hne : (w.ensureEvent n trigger).1 ≠ e)
      (hevent : (w.ensureEvent n trigger).2.events.get e = w.events.get e) (hs : w.Spans e b sources) :
      (moves.foldl (addMove hooks (w.ensureEvent n trigger).1) (w.ensureEvent n trigger).2).Spans e b sources := by
    refine hs.kept ?_ (fun t ht _ => transitions t ht) next
    rw [event_addMoves_of_ne hne, hevent]
  rw [World.machine, machines]
  rcases ensureEvent_cases w n trigger with ⟨e', found, hens⟩ | ⟨hnew, hens⟩
  · refine ⟨by rw [hens]; rfl, fun e sources he hs => spans e sources ?_ (by rw [hens]) hs⟩
    rw [hens]
    exact hw.event_unique he found ha
  · have listed : ((w.newEvent n trigger).machine m).events.find? (toTrigger b) =
        (w.machine m).events.find? (toTrigger b) := by
      rw [newEvent, machine_updateMachine]
      split
      · rename_i hnm
        subst hnm
        have unlisted : (w.machine n).events.contains trigger = false := by rw [Table.contains, hnew]; rfl
        refine Table.find?_insert_of_ne _ unlisted (Bool.eq_false_iff.mpr (fun same => ha rfl ?_))
        exact Value.beq_text_iff.mp same
      · rfl
    refine ⟨by rw [hens]; exact listed, fun e sources he hs => ?_⟩
    obtain ⟨k, -, hmem⟩ := Table.mem_of_find? he
    have older : e < w.events.next := (hw.regular.owned m _ hmem).1
    refine spans e sources ?_ ?_ hs
    · rw [hens]
      exact Nat.ne_of_gt older
    · rw [hens]
      exact (event_newEvent w n trigger e).trans (if_neg (Nat.ne_of_lt older))

/-- What lies between two worlds bypasses the routes of a machine. -/
structure Bypasses (m : MachineId) (w v : World) : Prop where
  changes : Changes w v
  keys : (v.machine m).states.keys = (w.machine m).states.keys
  auto : (w.machine m).autoTransitions.truthy = true → (v.machine m).autoTransitions.truthy = true
  properties : ∀ x, (v.model x).properties = (w.model x).properties
  events : ∀ b, (v.machine m).events.find? (toTrigger b) = (w.machine m).events.find? (toTrigger b)
  spans : ∀ b e sources, (w.machine m).events.find? (toTrigger b) = some e → w.Spans e b sources → v.Spans e b sources

/-- A machine keeps its states and its triggers, and goes on connecting new states if it does so. -/
structure Seated (m : MachineId) (w v : World) : Prop where
  states : (v.machine m).states = (w.machine m).states
  events : (v.machine m).events = (w.machine m).events
  auto : (w.machine m).autoTransitions.truthy = true → (v.machine m).autoTransitions.truthy = true

theorem Seated.of_machine (h : v.machine m = w.machine m) : Seated m w v :=
  ⟨by rw [h], by rw [h], by rw [h]; exact id⟩

theorem Seated.of_machines (h : v.machines = w.machines) : Seated m w v :=
  .of_machine (by rw [World.machine, World.machine, h])

theorem Seated.bypasses (h : Seated m w v) (hc : Changes w v) (hp : ∀ x, (v.model x).properties = (w.model x).properties)
    (hs : ∀ b e sources, (w.machine m).events.find? (toTrigger b) = some e → w.Spans e b sources → v.Spans e b sources) :
    Bypasses m w v where
  changes := hc
  keys := by rw [h.states]
  auto := h.auto
  properties := hp
  events b := by rw [h.events]
  spans := hs

/-- Neither events nor transitions change. -/
theorem Seated.bypasses_of_same (h : Seated m w v) (hc : Changes w v)
    (hp : ∀ x, (v.model x).properties = (w.model x).properties) (he : v.events = w.events)
    (ht : v.transitions = w.transitions) : Bypasses m w v :=
  h.bypasses hc hp (fun _ _ _ _ hs =>
    hs.kept (by rw [he]) (fun _ _ _ => by rw [ht]) (Nat.le_of_eq (by rw [ht])))

theorem bypasses_aside (h : Aside w v) (hp : ∀ x, (v.model x).properties = (w.model x).properties) :
    Bypasses m w v :=
  (Seated.of_machines h.machines).bypasses_of_same h.steps hp h.events h.transitions

theorem bypasses_makeState (w : World) (s : State) : Bypasses m w (w.addState s).2 :=
  Seated.bypasses_of_same (.of_machine rfl) (.single (.makeState w s)) (fun _ => rfl) rfl rfl

theorem bypasses_hookState (w : World) (s : StateId) (c : Callback) (stage : StateStage) :
    Bypasses m w (w.updateState s (·.addCallback c stage)) :=
  Seated.bypasses_of_same (.of_machine rfl) (.single (.hookState w s c stage)) (fun _ => rfl) rfl rfl

theorem bypasses_makeTransition (w : World) (t : Transition) : Bypasses m w (w.addTransition t).2 := by
  refine Seated.bypasses (.of_machine rfl) (.single (.makeTransition w t)) (fun _ => rfl) (fun _ _ _ _ hs => ?_)
  refine hs.kept rfl (fun i hi _ => ?_) (Nat.le_of_lt (by simp [addTransition]))
  have hne : i ≠ w.transitions.next := Nat.ne_of_lt hi
  simp [addTransition, hne]

theorem bypasses_tune {f : Machine → Machine} (hf : Tunes f)
    (ha : n = m → (w.machine m).autoTransitions.truthy = true → (f (w.machine m)).autoTransitions.truthy = true) :
    Bypasses m w (w.updateMachine n f) := by
  have seated : Seated m w (w.updateMachine n f) := by
    by_cases hn : n = m
    · subst hn
      have machine : (w.updateMachine n f).machine n = f (w.machine n) := by rw [machine_updateMachine, if_pos rfl]
      obtain ⟨states, events, -⟩ := hf (w.machine n)
      exact ⟨by rw [machine, states], by rw [machine, events], by rw [machine]; exact ha rfl⟩
    · exact .of_machine (by rw [machine_updateMachine, if_neg hn])
  exact seated.bypasses_of_same (.single (.tune w n hf)) (fun _ => rfl) rfl rfl

/-- Another machine may register a state. -/
theorem bypasses_enroll {s : StateId} (hn : n ≠ m) (hk : (w.states.get s).name.hashable = true)
    (hnew : (w.machine n).states.contains (w.states.get s).name = false) :
    Bypasses m w (w.updateMachine n (fun machine =>
      { machine with states := machine.states.insert (w.states.get s).name s })) :=
  Seated.bypasses_of_same (.of_machine (by rw [machine_updateMachine, if_neg hn])) (.single (.enroll w n s hk hnew))
    (fun _ => rfl) rfl rfl

/-- Machines keep their settings, and their triggers but for those that do not lead to states. -/
theorem Relisted.bypasses (h : Relisted w v) (hc : Changes w v)
    (he : ∀ b, (v.machine m).events.find? (toTrigger b) = (w.machine m).events.find? (toTrigger b))
    (hs : ∀ b e sources, (w.machine m).events.find? (toTrigger b) = some e → w.Spans e b sources → v.Spans e b sources) :
    Bypasses m w v := by
  obtain ⟨events, hm⟩ := h.machine m
  have rest := h.rest
  exact ⟨hc, by rw [hm], by rw [hm]; exact id, fun x => by rw [rest]; rfl, he, hs⟩

theorem bypasses_connect (hw : w.Reachable) {trigger source dest : Value} {hooks : Hooks}
    (ha : n = m → ¬ trigger.Aims) (h : w.connect n trigger source dest hooks = .ok v) : Bypasses m w v := by
  have unaimed (b : String) : n = m → trigger.text? ≠ some ("to_" ++ b) := fun hn hb => ha hn ⟨b, hb⟩
  exact (relisted_connect h).bypasses (.single (.connect h)) (fun b => (unreached_connect hw h (unaimed b)).1)
    (fun b => (unreached_connect hw h (unaimed b)).2)

theorem bypasses_disconnect (hw : w.Reachable) {trigger source dest : Value} (ha : n = m → ¬ trigger.Aims)
    (h : w.disconnect n trigger source dest = .ok v) : Bypasses m w v := by
  refine (relisted_disconnect h).bypasses (.single (.disconnect h)) (fun b => ?_) (fun b e sources he hs => ?_)
  · obtain ⟨e', -, ⟨-, rfl⟩ | ⟨-, rfl⟩⟩ := disconnect_cases h
    · rw [machine_updateMachine]
      split
      · rename_i hn
        subst hn
        refine Table.find?_erase_of (fun k hk => Bool.eq_false_iff.mpr (fun same => ha rfl ⟨b, ?_⟩))
        exact (Value.beq_iff_of_text (Value.beq_text_iff.mp hk)).mp same
      · rfl
    · rfl
  · obtain ⟨e', found, ⟨-, rfl⟩ | ⟨-, rfl⟩⟩ := disconnect_cases h
    · exact hs.kept rfl (fun _ _ _ => rfl) (Nat.le_refl _)
    · have hne : e' ≠ e := hw.event_unique he (find?_of_eventOf found).2 (fun hn hb => ha hn ⟨b, hb⟩)
      exact hs.kept (by simp [updateEvent, hne]) (fun _ _ _ => rfl) (Nat.le_refl _)

/-- A transition may be hooked that is no route. -/
theorem bypasses_hookTransition {t : TransitionId}
    (ht : ∀ b e, (w.machine m).events.find? (toTrigger b) = some e → ¬ w.Filed e t) (c : Callback)
    (stage : TransitionStage) : Bypasses m w (w.updateTransition t (·.addCallback c stage)) := by
  refine Seated.bypasses (.of_machine rfl) (.single (.hookTransition w t c stage)) (fun _ => rfl)
    (fun b e _ he hs => hs.kept rfl (fun i _ hi => ?_) (Heap.next_le_next_modify _ _ _))
  have hne : t ≠ i := by
    rintro rfl
    exact ht b e he hi
  simp [updateTransition, hne]

/-- A state may be filed among the sources of an event, without transitions. -/
theorem bypasses_fileSource {i : FiringId} {e' : EventId} {source : Value} (h : w.Seeks i e' source) :
    Bypasses m w (w.updateEvent e' (fun event =>
      { event with candidates := event.candidates.insert source [] })) := by
  refine Seated.bypasses (.of_machine rfl) (.single (.fileSource h)) (fun _ => rfl) (fun b e sources _ hs => ?_)
  by_cases hne : e' = e
  · subst hne
    have new : (w.events.get e').candidates.contains source = false := by rw [Table.contains, h.missing]; rfl
    have candidates : ((w.updateEvent e' (fun event =>
        { event with candidates := event.candidates.insert source [] })).events.get e').candidates =
          (w.events.get e').candidates.insert source [] := by simp [updateEvent]
    have whole : ((w.events.get e').candidates.insert source []).values.flatten =
        (w.events.get e').candidates.values.flatten := by
      simp [Table.values, Table.entries_insert_of_not_contains new]
    refine ⟨fun a ha => ?_, fun a ha => ?_, ?_, fun t ht => ?_⟩
    · obtain ⟨t, found, leads⟩ := hs.found a ha
      exact ⟨t, by rw [candidates, Table.find?_insert_of_not_contains new found], leads⟩
    · rw [candidates]
      by_cases same : (source == .text a) = true
      · rw [Table.find?_insert_text _ (Value.beq_text_iff.mp same), if_pos rfl]
        rfl
      · rw [Table.find?_insert_of_ne _ new (Bool.eq_false_iff.mpr same)]
        exact hs.rest a ha
    · rw [candidates, whole]
      exact hs.all
    · rw [candidates, whole] at ht
      exact hs.made t ht
  · exact hs.kept (by simp [updateEvent, hne]) (fun _ _ _ => rfl) (Nat.le_refl _)

theorem auto_makeMachine {plan : Blueprint} (h : w.makeMachine plan = .ok (n, v)) :
    (v.machine n).autoTransitions = plan.options.autoTransitions := by
  obtain ⟨⟨accessor, u⟩, ha, h⟩ := ok_of_bind h
  obtain ⟨ledgers, rfl⟩ := makeAccessor_cases ha
  cases h
  exact congrArg Machine.autoTransitions ((Heap.get_push ..).trans (if_pos rfl))

/-- A machine may be made, and it is to connect its states if it is the one in question. -/
theorem bypasses_makeMachine {plan : Blueprint} (ha : n = m → plan.options.autoTransitions.truthy = true)
    (h : w.makeMachine plan = .ok (n, v)) : Bypasses m w v := by
  have changes := changes_makeMachine h
  have auto := auto_makeMachine h
  obtain ⟨machine, ledgers, rfl, hs, he, -, -, hv⟩ := makeMachine_cases h
  have properties (x : String) : (v.model x).properties = (w.model x).properties := by rw [hv]; rfl
  have made (k : MachineId) : v.machine k = if k = w.machines.next then machine else w.machine k := by
    rw [hv]
    exact Heap.get_push ..
  by_cases hn : w.machines.next = m
  · subst hn
    have blank : w.machine w.machines.next = default := Heap.get_of_next_le (Nat.le_refl _)
    have new : v.machine w.machines.next = machine := (made _).trans (if_pos rfl)
    have unlisted (b : String) : (w.machine w.machines.next).events.find? (toTrigger b) = none := by rw [blank]; rfl
    refine ⟨changes, by rw [new, hs, blank]; rfl, fun _ => ?_, properties, fun b => ?_, fun b e _ found => ?_⟩
    · rw [auto]
      exact ha rfl
    · rw [unlisted, new, he]
      rfl
    · rw [unlisted] at found
      cases found
  · have same : v.machine m = w.machine m := (made m).trans (if_neg (fun hm => hn hm.symm))
    exact (Seated.of_machine same).bypasses_of_same changes properties (by rw [hv]) (by rw [hv])

end World

end StateEngine
