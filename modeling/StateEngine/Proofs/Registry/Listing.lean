import StateEngine.Proofs.Registry.Lookup

/-! Two views of what a machine can fire in a state: the triggers that it lists for the state, which have an entry for
it, and the transitions that it selects for it, which are in such entries. They differ by entries without transitions
only, and such an entry is what a firing leaves that has looked for candidates in vain. -/
namespace StateEngine
open Relation

namespace World

variable {w v : World} {m n : MachineId} {e i : EventId} {k : Value} {t a : String}

/-- An event has an entry for a source and no transition in it. -/
def Hollow (w : World) (e : EventId) (source : Value) : Prop := (source, []) ∈ (w.events.get e).candidates.entries

/-- A firing of an event has looked for candidates from a source, for which there was no entry, and since then the
world has become what it is. -/
def SoughtInVain (w : World) (e : EventId) (source : Value) : Prop :=
  ∃ u v i, u.Reachable ∧ u.Seeks i e source ∧ Engine.candidatesFor i u = (.ok [], v) ∧ Changes v w

theorem SoughtInVain.later (h : w.SoughtInVain e k) (hv : Changes w v) : v.SoughtInVain e k := by
  obtain ⟨u, u', i, reached, seeks, asked, steps⟩ := h
  exact ⟨u, u', i, reached, seeks, asked, steps.trans hv⟩

/-- A machine lists no trigger twice. -/
def ListsOnce (w : World) (m : MachineId) : Prop :=
  (w.machine m).events.entries.Pairwise (fun x y => (x.1 == y.1) = false)

/-- Triggers are listed once, and entries without transitions are left by firings only. -/
structure Tidy (w : World) : Prop where
  once : ∀ m, w.ListsOnce m
  hollow : ∀ e source, w.Hollow e source → w.SoughtInVain e source

theorem ListsOnce.newEvent (h : w.ListsOnce m) {trigger : Value}
    (hnew : (w.machine n).events.find? trigger = none) : (w.newEvent n trigger).ListsOnce m := by
  unfold ListsOnce
  rw [World.newEvent, machine_updateMachine]
  split
  · rename_i hnm
    subst hnm
    have unlisted : (w.machine n).events.contains trigger = false := by rw [Table.contains, hnew]; rfl
    exact Table.Distinct.insert h unlisted w.events.next
  · exact h

theorem ListsOnce.connect (h : w.ListsOnce m) {trigger source dest : Value} {hooks : Hooks}
    (hc : w.connect n trigger source dest hooks = .ok v) : v.ListsOnce m := by
  obtain ⟨-, moves, -, rfl⟩ := connect_cases hc
  obtain ⟨-, -, -, machines⟩ := event_addMoves hooks (w.ensureEvent n trigger).1 0 moves (w.ensureEvent n trigger).2
  unfold ListsOnce
  rw [World.machine, machines]
  rcases ensureEvent_cases w n trigger with ⟨e, -, hens⟩ | ⟨hnew, hens⟩
  · rw [hens]
    exact h
  · rw [hens]
    exact h.newEvent hnew

theorem ListsOnce.disconnect (h : w.ListsOnce m) {trigger source dest : Value}
    (hd : w.disconnect n trigger source dest = .ok v) : v.ListsOnce m := by
  obtain ⟨e, -, ⟨-, rfl⟩ | ⟨-, rfl⟩⟩ := disconnect_cases hd
  · unfold ListsOnce
    rw [machine_updateMachine]
    split
    · exact List.Pairwise.filter _ h
    · exact h
  · exact h

/-- New candidates leave no entry without transitions that was not there. -/
theorem hollow_addMoves (hooks : Hooks) (e i : EventId) (moves : List (Value × Value))
    (h : (moves.foldl (addMove hooks e) w).Hollow i k) : w.Hollow i k := by
  induction moves generalizing w with
  | nil => exact h
  | cons move moves ih =>
    have added : (addMove hooks e w move).Hollow i k := ih h
    unfold Hollow addMove addCandidate updateEvent at added
    simp only [Heap.get_modify] at added
    split at added
    · rcases Table.mem_entries_insert added with old | ⟨-, filled⟩
      · exact old
      · simp at filled
    · exact added

theorem hollow_connect {trigger source dest : Value} {hooks : Hooks}
    (hc : w.connect n trigger source dest hooks = .ok v) (h : v.Hollow i k) : w.Hollow i k := by
  obtain ⟨-, moves, -, rfl⟩ := connect_cases hc
  have old := hollow_addMoves hooks _ i moves h
  rcases ensureEvent_cases w n trigger with ⟨e, -, hens⟩ | ⟨-, hens⟩
  · rwa [hens] at old
  · rw [hens] at old
    unfold Hollow at old
    rw [event_newEvent] at old
    split at old
    · cases old
    · exact old

/-- A removal leaves no entry without transitions. -/
theorem hollow_disconnect {trigger source dest : Value} (hd : w.disconnect n trigger source dest = .ok v)
    (h : v.Hollow i k) : w.Hollow i k := by
  obtain ⟨e, -, ⟨-, rfl⟩ | ⟨-, rfl⟩⟩ := disconnect_cases hd
  · exact h
  · unfold Hollow at h
    simp only [updateEvent, Heap.get_modify] at h
    split at h
    · obtain ⟨c, -, kept⟩ := List.mem_filterMap.mp h
      simp only [] at kept
      split at kept
      · cases kept
      · rename_i some_left
        have none_left := congrArg Prod.snd (Option.some.inj kept)
        simp only [] at none_left
        rw [none_left] at some_left
        exact absurd rfl some_left
    · exact h

/-- A firing that looks for candidates where there is no entry finds none, and leaves an entry. -/
theorem Seeks.candidatesFor {j : FiringId} (h : w.Seeks j e k) :
    Engine.candidatesFor j w = (.ok [], w.updateEvent e (fun event =>
      { event with candidates := event.candidates.insert k [] })) := by
  obtain ⟨fires, named, missing⟩ := h
  unfold Engine.candidatesFor
  rw [Act.bind_of_ok (Act.get_apply w)]
  simp only [fires, named, missing]
  rfl

theorem Seeks.hollow {j : FiringId} (h : w.Seeks j e k) {source : Value}
    (hs : (w.updateEvent e (fun event => { event with candidates := event.candidates.insert k [] })).Hollow i source) :
    w.Hollow i source ∨ (i = e ∧ source = k) := by
  unfold Hollow at hs
  simp only [updateEvent, Heap.get_modify] at hs
  split at hs
  · rename_i hei
    subst hei
    have unlisted : (w.events.get e).candidates.contains k = false := by rw [Table.contains, h.missing]; rfl
    rw [Table.entries_insert_of_not_contains unlisted] at hs
    rcases List.mem_append.mp hs with old | new
    · exact .inl old
    · exact .inr ⟨rfl, congrArg Prod.fst (List.mem_singleton.mp new)⟩
  · exact .inl hs

theorem Tidy.step (h : w.Tidy) (reached : w.Reachable) (hv : Change w v) : v.Tidy := by
  have later {e : EventId} {source : Value} (old : w.Hollow e source) : v.SoughtInVain e source :=
    (h.hollow e source old).later (.single hv)
  rcases hv.sorts with hb | ⟨n, trigger, source, dest, hooks, hc⟩ | ⟨n, trigger, source, dest, hd⟩ | ⟨j, e, source, seeks, rfl⟩
  · refine ⟨fun m => ?_, fun e source hs => later ?_⟩
    · have once := h.once m
      unfold ListsOnce at once ⊢
      rwa [(hb.machine m).1]
    · unfold Hollow at hs ⊢
      rwa [hb.events] at hs
  · exact ⟨fun m => (h.once m).connect hc, fun _ _ hs => later (hollow_connect hc hs)⟩
  · exact ⟨fun m => (h.once m).disconnect hd, fun _ _ hs => later (hollow_disconnect hd hs)⟩
  · refine ⟨h.once, fun i k hs => ?_⟩
    rcases seeks.hollow hs with old | ⟨rfl, rfl⟩
    · exact later old
    · exact ⟨w, _, j, reached, seeks, seeks.candidatesFor, .refl⟩

/-- In every reachable world. -/
theorem Reachable.tidy (h : w.Reachable) : w.Tidy := by
  obtain ⟨start, blank, steps⟩ := h
  induction steps with
  | refl =>
    refine ⟨fun m => ?_, fun e source hs => ?_⟩
    · unfold ListsOnce
      rw [blank.machine]
      exact .nil
    · unfold Hollow at hs
      rw [blank.event] at hs
      cases hs
  | tail steps step ih => exact ih.step ⟨start, blank, steps⟩ step

/-- The triggers listed for some states are in order of registration, and none comes twice. -/
theorem triggersFrom_texts (names : List String) : w.triggersFrom m (names.map .text) =
    .ok (((w.machine m).events.entries.filter (fun x =>
      names.any (fun a => (w.events.get x.2).candidates.contains (.text a)))).map Prod.fst) := by
  have named : (names.map Value.text).map w.nameOf = names.map .text := by
    rw [List.map_map]
    rfl
  unfold triggersFrom
  simp only [named]
  rw [if_pos]
  · simp only [List.any_map]
    rfl
  · simp

/-- A trigger is listed for a state if its event has an entry for the state. -/
theorem isIn_triggersFrom_iff (h : w.ListsOnce m) {ts : List Value} (hts : w.triggersFrom m [.text a] = .ok ts) :
    (Value.text t).isIn ts = true ↔
      ∃ e, (w.machine m).events.find? (.text t) = some e ∧ (w.events.get e).candidates.contains (.text a) = true := by
  have listed := triggersFrom_texts (w := w) (m := m) [a]
  obtain rfl := Except.ok.inj (hts.symm.trans listed)
  simp only [Value.isIn, List.any_eq_true, List.mem_map, List.mem_filter, List.any_cons, List.any_nil, Bool.or_false]
  constructor
  · rintro ⟨_, ⟨x, ⟨hx, entry⟩, rfl⟩, hk⟩
    exact ⟨x.2, Table.Distinct.find_text h hx (Value.beq_text_iff.mp hk), entry⟩
  · rintro ⟨e, he, entry⟩
    obtain ⟨k, hk, hmem⟩ := Table.mem_of_find? he
    exact ⟨k, ⟨(k, e), ⟨hmem, entry⟩, rfl⟩, hk⟩

/-- The transitions selected for a trigger and a source are the candidates of its event from there. -/
theorem select_text (ht : t ≠ "") (ha : a ≠ "*") : w.select m (.text t) (.text a) everyState =
    .ok (match (w.machine m).events.find? (.text t) with
      | some e => ((w.events.get e).candidates.values.flatten).filter (fun t =>
          (w.transitions.get t).source.same (.text a))
      | none => []) := by
  have one : (Value.text a).same everyState = false := by simpa [everyState] using ha
  have all : everyState.same everyState = true := by simp [everyState]
  have asked : (Value.text t).truthy = true := by simpa [Value.truthy] using ht
  have found : w.eventOf? m (.text t) = .ok ((w.machine m).events.find? (.text t)) := by simp [eventOf?]
  unfold select
  change ((if (Value.text t).truthy = true then _ else _) >>= _) = _
  rw [if_pos asked, found]
  simp only [one, all, Bool.false_or, Bool.true_or, Bool.and_true]
  cases (w.machine m).events.find? (.text t) with
  | none => rfl
  | some e =>
    show Except.ok _ = Except.ok _
    simp

/-- An entry without transitions stands under the name of a state, so under a text itself. -/
theorem Tidy.hollow_text (h : w.Tidy) (hk : k.text? = some a) (hs : w.Hollow e k) : k = .text a := by
  obtain ⟨u, -, j, -, seeks, -⟩ := h.hollow e k hs
  have name : u.nameOf (.state (u.firings.get j).state) = k := seeks.named
  rw [← name] at hk ⊢
  exact nameOf_text hk

/-- An event has an entry for a state exactly if it has a transition from there, or an entry without any. -/
theorem contains_iff (hw : w.Reachable) (he : (w.events.get e).machine = m) (hn : w.PlainNames m) :
    (w.events.get e).candidates.contains (.text a) = true ↔
      ((w.events.get e).candidates.values.flatten.filter (fun t =>
        (w.transitions.get t).source.same (.text a))) ≠ [] ∨ w.Hollow e (.text a) := by
  rw [← he] at hn
  have connected := hw.regular.connected e hn
  -- transitions stand in an entry for their source, and both are the same text
  have source {x : Value × List TransitionId} (hx : x ∈ (w.events.get e).candidates.entries) {t : TransitionId}
      (ht : t ∈ x.2) : ∃ b, (w.transitions.get t).source = .text b ∧ x.1.text? = some b := by
    have connects := connected x hx t ht
    obtain ⟨b, hb⟩ := hn _ connects.source
    have key := connects.key
    rw [hb] at key
    exact ⟨b, hb, Value.beq_text_iff.mp key⟩
  constructor
  · intro entry
    obtain ⟨us, hus⟩ := Option.isSome_iff_exists.mp entry
    obtain ⟨k, hk, hmem⟩ := Table.mem_of_find? hus
    have hk := Value.beq_text_iff.mp hk
    cases us with
    | nil => exact .inr (hw.tidy.hollow_text hk hmem ▸ hmem)
    | cons t rest =>
      refine .inl (List.ne_nil_of_mem (a := t) (List.mem_filter.mpr ⟨?_, ?_⟩))
      · exact List.mem_flatten.mpr ⟨t :: rest, List.mem_map_of_mem hmem, List.mem_cons_self⟩
      · obtain ⟨b, hb, hkb⟩ := source hmem (List.mem_cons_self (a := t))
        rw [hb, Value.same_text, beq_iff_eq]
        exact Option.some.inj (hkb.symm.trans hk)
  · rintro (selected | hollow)
    · obtain ⟨t, ht⟩ := List.exists_mem_of_ne_nil _ selected
      obtain ⟨ht, hsource⟩ := List.mem_filter.mp ht
      obtain ⟨_, hus, hmem⟩ := List.mem_flatten.mp ht
      obtain ⟨x, hx, rfl⟩ := List.mem_map.mp hus
      obtain ⟨b, hb, hkb⟩ := source hx hmem
      rw [hb, Value.same_text, beq_iff_eq] at hsource
      obtain ⟨_, found⟩ := Table.find?_of_mem hx (Value.beq_text_iff.mpr (hsource ▸ hkb))
      rw [Table.contains, found]
      rfl
    · obtain ⟨_, found⟩ := Table.find?_of_mem hollow (ReflBEq.rfl (a := Value.text a))
      rw [Table.contains, found]
      rfl

end World

end StateEngine
