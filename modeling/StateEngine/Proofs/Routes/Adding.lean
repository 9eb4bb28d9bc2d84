import StateEngine.Proofs.Registry.Reading
import StateEngine.Proofs.Routes.Basic

/-! Adding a state keeps the routes complete: the triggers of the older states lead there from the new one, and its own
trigger leads to it from all. -/
namespace StateEngine
open Act Relation

namespace World

variable {m : MachineId} {w v u : World} {e : EventId} {b c : String} {sources : List Value}

/-- A route from one more state goes behind the others. -/
theorem Spans.addMove (h : w.Spans e b sources) {a : String} (hnew : .text a ∉ sources) :
    (addMove {} e w (.text a, .text b)).Spans e b (sources ++ [.text a]) := by
  obtain ⟨v, hv⟩ : ∃ v, v = World.addMove {} e w (.text a, .text b) := ⟨_, rfl⟩
  rw [← hv]
  have transitions : v.transitions = w.transitions.push (route (.text a) (.text b)) := by rw [hv]; rfl
  have candidates : (v.events.get e).candidates = (w.events.get e).candidates.insert (.text a)
      (((w.events.get e).candidates.find? (.text a)).getD [] ++ [w.transitions.next]) := by
    simp [hv, World.addMove, addCandidate, updateEvent, addTransition, Transition.ofHooks]
  have found (d : String) : (v.events.get e).candidates.find? (.text d) =
      if a = d then some [w.transitions.next] else (w.events.get e).candidates.find? (.text d) := by
    rw [candidates, Table.find?_insert_text _ (s := a) rfl, h.rest a hnew]
    rfl
  have whole : (v.events.get e).candidates.values.flatten.Perm
      ((w.events.get e).candidates.values.flatten ++ [w.transitions.next]) := by
    rw [candidates]
    exact Table.perm_flatten_insert _ _ _
  have old (t : TransitionId) (ht : t < w.transitions.next) : v.transitions.get t = w.transitions.get t := by
    rw [transitions, Heap.get_push, if_neg (Nat.ne_of_lt ht)]
  have new : v.transitions.get w.transitions.next = route (.text a) (.text b) := by
    rw [transitions, Heap.get_push, if_pos rfl]
  refine ⟨fun d hd => ?_, fun d hd => ?_, ?_, fun t ht => ?_⟩
  · by_cases had : a = d
    · subst had
      exact ⟨w.transitions.next, by rw [found, if_pos rfl], new⟩
    · have hd : Value.text d ∈ sources := by simpa [Ne.symm had] using hd
      obtain ⟨t, ht, leads⟩ := h.found d hd
      obtain ⟨k, -, hmem⟩ := Table.mem_of_find? ht
      have made := h.made t (List.mem_flatten.mpr ⟨[t], List.mem_map_of_mem hmem, List.mem_singleton_self t⟩)
      exact ⟨t, by rw [found, if_neg had, ht], by rw [old t made, leads]⟩
  · have hne : Value.text d ∉ sources ∧ d ≠ a := by simpa using hd
    rw [found, if_neg (fun h => hne.2 h.symm)]
    exact h.rest d hne.1
  · refine (whole.map _).trans ?_
    rw [List.map_append, List.map_append, List.map_congr_left (fun t ht => old t (h.made t ht))]
    exact h.all.append (by rw [List.map_singleton, new]; exact .refl _)
  · rw [transitions, Heap.next_push]
    rcases List.mem_append.mp (whole.mem_iff.mp ht) with ht | ht
    · exact Nat.lt_succ_of_lt (h.made t ht)
    · rw [List.mem_singleton.mp ht]
      exact Nat.lt_succ_self _

/-- Routes from several more states go behind the others one after the other. -/
theorem Spans.addMoves (h : w.Spans e b sources) {more : List Value} (htext : ∀ k ∈ more, ∃ a : String, k = .text a)
    (hnodup : (sources ++ more).Nodup) :
    ((more.map (fun k => (k, Value.text b))).foldl (World.addMove {} e) w).Spans e b (sources ++ more) := by
  induction more generalizing w sources with
  | nil => simpa using h
  | cons k more ih =>
    obtain ⟨a, rfl⟩ := htext k List.mem_cons_self
    have fresh : Value.text a ∉ sources := fun hmem =>
      (List.nodup_append.mp hnodup).2.2 _ hmem _ List.mem_cons_self rfl
    have rest := ih (h.addMove fresh) (fun k hk => htext k (List.mem_cons_of_mem _ hk)) (by simpa using hnodup)
    simpa using rest

/-- The trigger of a state leads there from some sources; without sources it may stand for nothing yet. -/
def Served (w : World) (m : MachineId) (b : String) (sources : List Value) : Prop :=
  (sources = [] ∧ (w.machine m).events.find? (toTrigger b) = none) ∨ w.Routed m b sources

/-- A new event has no routes. -/
theorem Served.ensured (h : w.Served m b sources) :
    (((w.ensureEvent m (toTrigger b)).2.machine m).events.find? (toTrigger b)) = some (w.ensureEvent m (toTrigger b)).1 ∧
      (w.ensureEvent m (toTrigger b)).2.Spans (w.ensureEvent m (toTrigger b)).1 b sources := by
  rcases h with ⟨rfl, unused⟩ | ⟨e, found, spans⟩
  · have event : (w.newEvent m (toTrigger b)).events.get w.events.next = { name := toTrigger b, machine := m } := by
      rw [event_newEvent, if_pos rfl]
    simp only [ensureEvent, unused]
    refine ⟨?_, ?_⟩
    · rw [newEvent, machine_updateMachine, if_pos rfl]
      exact (Table.find?_insert_text _ (s := "to_" ++ b) rfl ("to_" ++ b) _).trans (if_pos rfl)
    · refine ⟨fun a ha => ?_, fun a _ => by rw [event]; rfl, by rw [event]; exact .refl _, fun t ht => ?_⟩
      · cases ha
      · rw [event] at ht
        cases ht
  · simp only [ensureEvent, found]
    exact ⟨trivial, spans⟩

/-- Connecting the trigger of a state with sources it did not have yet. -/
theorem Served.connect (h : w.Served m b sources) {source : Value} {more : List Value}
    (hname : "to_" ++ b ≠ (w.machine m).accessor.name)
    (hmoves : w.movesOf m source (.text b) = .ok (more.map (fun k => (k, .text b))))
    (htext : ∀ k ∈ more, ∃ a : String, k = .text a) (hnodup : (sources ++ more).Nodup) :
    ∃ v, w.connect m (toTrigger b) source (.text b) {} = .ok v ∧ v.Routed m b (sources ++ more) := by
  obtain ⟨found, spans⟩ := h.ensured
  have free : (toTrigger b).same (.text (w.machine m).accessor.name) = false := by
    rw [toTrigger, Value.same_text]
    exact beq_false_of_ne hname
  have connected : w.connect m (toTrigger b) source (.text b) {} =
      .ok ((more.map (fun k => (k, Value.text b))).foldl (World.addMove {} (w.ensureEvent m (toTrigger b)).1)
        (w.ensureEvent m (toTrigger b)).2) := by
    unfold World.connect
    rw [free, hmoves]
    simp [toTrigger, bind, Except.bind, pure, Except.pure]
  refine ⟨_, connected, (w.ensureEvent m (toTrigger b)).1, ?_, spans.addMoves htext hnodup⟩
  rw [World.machine, (event_addMoves {} _ 0 _ _).2.2.2]
  exact found

/-- A registered name stands for itself. -/
theorem registeredName_text {a : String} (h : .text a ∈ (w.machine m).states.keys) :
    w.registeredName m (.text a) = .ok (.text a) := by
  obtain ⟨s, hs⟩ := lookupState_key h
  simp only [registeredName, hs]
  rfl

/-- What leads to a registered state leads there from every source. -/
theorem movesOf_text (hn : w.WellNamed m) (hb : .text b ∈ (w.machine m).states.keys) {source : Value}
    {names : List Value} (hs : w.sourceNames m source = .ok names) :
    w.movesOf m source (.text b) = .ok (names.map (fun k => (k, .text b))) := by
  obtain ⟨a, ha, -, notSame, -⟩ := hn _ hb
  cases ha
  have dest (k : Value) : w.destName m (.text b) k = .ok (.text b) := by
    have other : (Value.text b).same sameState = false := by
      rw [sameState, Value.same_text]
      exact beq_false_of_ne notSame
    simp only [destName, other]
    exact registeredName_text hb
  unfold movesOf
  rw [hs]
  simp only [bind, Except.bind, dest]
  exact List.mapM_pure

theorem sourceNames_text (hn : w.WellNamed m) {a : String} (ha : .text a ∈ (w.machine m).states.keys) :
    w.sourceNames m (.text a) = .ok [.text a] := by
  obtain ⟨c, hc, notAll, -, -⟩ := hn _ ha
  cases hc
  have other : (Value.text a).same everyState = false := by
    rw [everyState, Value.same_text]
    exact beq_false_of_ne notAll
  unfold sourceNames
  rw [if_neg (by simp [other])]
  simp [Value.items, registeredName_text ha]

/-- In the midst of connecting a new state with all: the states still to come are reached from the older ones only, and
the new one not at all, and those dealt with are reached from all. -/
structure Midway (m : MachineId) (older : List Value) (c : String) (todo : List Value) (w : World) : Prop where
  reachable : w.Reachable
  named : w.WellNamed m
  keys : (w.machine m).states.keys = older ++ [.text c]
  ahead : ∀ b, .text b ∈ todo → w.Served m b (if b = c then [] else older)
  behind : ∀ b, .text b ∈ older ++ [.text c] → .text b ∉ todo → w.Routed m b (older ++ [.text c])
  unused : ∀ b, .text b ∉ older ++ [.text c] → (w.machine m).events.find? (toTrigger b) = none

theorem Reachable.keys_nodup (h : w.Reachable) (m : MachineId) : (w.machine m).states.keys.Nodup := by
  rw [Table.keys, List.Nodup, List.pairwise_map]
  refine (h.distinct_states m).imp (fun differ same => ?_)
  rw [same, ReflBEq.rfl] at differ
  cases differ

/-- What is said of another trigger goes on holding when one is connected. -/
theorem Routed.connect (h : w.Routed m c sources) (hw : w.Reachable) {source dest : Value} (hne : c ≠ b)
    (hv : w.connect m (toTrigger b) source dest {} = .ok v) : v.Routed m c sources := by
  obtain ⟨e, found, spans⟩ := h
  have other : m = m → (toTrigger b).text? ≠ some ("to_" ++ c) := fun _ same =>
    hne (toTrigger_injective (Option.some.inj same)).symm
  obtain ⟨same, kept⟩ := unreached_connect hw hv other
  exact ⟨e, same.trans found, kept e sources found spans⟩

/-- Connecting one more of the states. -/
theorem Midway.step {older todo : List Value} (h : Midway m older c (.text b :: todo) w)
    (hnodup : (Value.text b :: todo).Nodup) (hb : .text b ∈ older ++ [.text c]) :
    ∃ v, w.connect m (toTrigger b) (if b = c then everyState else .text c) (.text b) {} = .ok v ∧
      Midway m older c todo v := by
  obtain ⟨k, hk, -, -, reserved⟩ := h.named _ (h.keys ▸ hb)
  cases hk
  have nodup : (older ++ [Value.text c]).Nodup := h.keys ▸ h.reachable.keys_nodup m
  have texts (k : Value) (hk : k ∈ older ++ [.text c]) : ∃ a : String, k = .text a := h.named.plain k (h.keys ▸ hk)
  have added : ∃ v, w.connect m (toTrigger b) (if b = c then everyState else .text c) (.text b) {} = .ok v ∧
      v.Routed m b (older ++ [.text c]) := by
    have served := h.ahead b List.mem_cons_self
    have moves (source : Value) (names : List Value) (hs : w.sourceNames m source = .ok names) :=
      movesOf_text h.named (h.keys ▸ hb) hs
    by_cases hbc : b = c
    · rw [if_pos hbc] at served ⊢
      have every : w.sourceNames m everyState = .ok (older ++ [.text c]) := by
        rw [← h.keys, sourceNames, if_pos (by simp [everyState])]
      simpa using served.connect reserved (moves _ _ every) texts (by simpa using nodup)
    · rw [if_neg hbc] at served ⊢
      have one := sourceNames_text h.named (h.keys ▸ List.mem_append_right older (List.mem_singleton_self (Value.text c)))
      exact served.connect reserved (moves _ _ one) (fun k hk => texts k (List.mem_append_right _ hk)) nodup
  obtain ⟨v, connected, routed⟩ := added
  refine ⟨v, connected, h.reachable.later (.single (.connect connected)), ?_, ?_, fun d hd => ?_, fun d hd hnot => ?_,
    fun d hd => ?_⟩
  · obtain ⟨events, hm⟩ := (relisted_connect connected).machine m
    intro k hk
    rw [hm] at hk ⊢
    exact h.named k hk
  · rw [(relisted_connect connected).states m]
    exact h.keys
  · have hne : d ≠ b := fun same => (List.nodup_cons.mp hnodup).1 (same ▸ hd)
    rcases h.ahead d (List.mem_cons_of_mem _ hd) with ⟨none, unused⟩ | routed
    · refine .inl ⟨none, (unreached_connect h.reachable connected (fun _ same => ?_)).1.trans unused⟩
      exact hne (toTrigger_injective (Option.some.inj same)).symm
    · exact .inr (routed.connect h.reachable hne connected)
  · by_cases hdb : d = b
    · exact hdb ▸ routed
    · exact (h.behind d hd (by simpa [hdb] using hnot)).connect h.reachable hdb connected
  · refine (unreached_connect h.reachable connected (fun _ same => ?_)).1.trans (h.unused d hd)
    exact hd (toTrigger_injective (Option.some.inj same) ▸ hb)

end World

open World

namespace Engine

variable {m : MachineId} {w v u : World}

/-- Connecting a new state with all that are registered completes the routes. -/
theorem linked_connectAutomatically {older : List Value} {c : String} {s : StateId}
    (hs : (w.states.get s).name = .text c) (h : Midway m older c (older ++ [.text c]) w) :
    ∃ v, connectAutomatically m s w = (.ok (), v) ∧ v.Linked m := by
  have loop (todo : List Value) (hnodup : todo.Nodup) (htodo : ∀ k ∈ todo, k ∈ older ++ [.text c]) (w : World)
      (h : Midway m older c todo w) : ∃ v, (todo.forM (fun other =>
        let source := if other.same (.text c) then everyState else .text c
        Act.advance (fun w => w.connect m (.text ("to_" ++ other.display)) source other {})) : Run Unit) w =
          (.ok (), v) ∧ Midway m older c [] v := by
    induction todo generalizing w with
    | nil => exact ⟨w, rfl, h⟩
    | cons k todo ih =>
      obtain ⟨b, rfl⟩ := h.named.plain k (h.keys ▸ htodo k List.mem_cons_self)
      obtain ⟨v, connected, rest⟩ := h.step hnodup (htodo _ List.mem_cons_self)
      obtain ⟨u, ended, done⟩ :=
        ih (List.nodup_cons.mp hnodup).2 (fun k hk => htodo k (List.mem_cons_of_mem _ hk)) v rest
      refine ⟨u, (bind_of_ok (advance_ok (t := v) ?_)).trans ended, done⟩
      simpa only [toTrigger, Value.same_text, beq_iff_eq, Value.display_text] using connected
  obtain ⟨v, ended, done⟩ := loop (older ++ [.text c]) (h.keys ▸ h.reachable.keys_nodup m) (fun _ hk => hk) w h
  refine ⟨v, ?_, fun b hb => ?_, fun b hb => ?_⟩
  · unfold connectAutomatically
    rw [bind_of_ok (get_apply w)]
    simp only [hs, h.keys]
    exact ended
  · rw [done.keys] at hb ⊢
    exact done.behind b hb List.not_mem_nil
  · exact done.unused b (done.keys ▸ hb)

end Engine

end StateEngine
