import StateEngine.Proofs.Rows.Plan

/-! A row of transitions under a trigger that is not in use yet is laid from one end to the other: what is made is what was
planned, in this order, and nothing else changes. -/
namespace StateEngine
open Act

/-- A planned transition: its two ends and its callbacks. -/
abbrev Planned := (Value × Value) × Hooks

def Planned.made (p : Planned) : Transition := .ofHooks p.1.1 p.1.2 p.2

namespace World

variable {m : MachineId} {trigger : String} {plan rest : List Planned} {w v u : World}

/-- Behind everything that was there, a machine has got one trigger more, with transitions that were made one after the
other and are filed, each by itself, under their sources. -/
structure Laid (w : World) (m : MachineId) (trigger : String) (plan : List Planned) (v : World) : Prop where
  rest : v = { w with transitions := v.transitions, events := v.events, machines := v.machines }
  machine : v.machine m = { w.machine m with
    events := (w.machine m).events.insert (.text trigger) w.events.next }
  others : ∀ n, n ≠ m → v.machine n = w.machine n
  transitions : v.transitions.cells.toList = w.transitions.cells.toList ++ plan.map Planned.made
  events : v.events.next = w.events.next + 1
  older : ∀ e < w.events.next, v.events.get e = w.events.get e
  event : v.events.get w.events.next =
    { name := .text trigger, machine := m
      candidates := ⟨plan.zipIdx.map (fun p => (p.1.1.1, [w.transitions.next + p.2]))⟩ }

theorem Laid.next (h : Laid w m trigger plan v) : v.transitions.next = w.transitions.next + plan.length := by
  have := congrArg List.length h.transitions
  simpa [Heap.next] using this

/-- The transitions that were made are those planned, in order. -/
theorem Laid.transition (h : Laid w m trigger plan v) {i : Nat} {p : Planned} (hp : plan[i]? = some p) :
    v.transitions.get (w.transitions.next + i) = p.made := by
  have there : v.transitions.cells.toList[w.transitions.next + i]? = some p.made := by
    rw [h.transitions, List.getElem?_append_right (by simp [Heap.next])]
    simp [Heap.next, hp]
  rw [Heap.get, ← Array.getElem?_toList, there]
  rfl

theorem Laid.older_transition (h : Laid w m trigger plan v) {t : TransitionId} (ht : t < w.transitions.next) :
    v.transitions.get t = w.transitions.get t := by
  have there : v.transitions.cells.toList[t]? = w.transitions.cells.toList[t]? := by
    rw [h.transitions, List.getElem?_append_left (by simpa [Heap.next] using ht)]
  rw [Heap.get, Heap.get, ← Array.getElem?_toList, there, Array.getElem?_toList]

theorem Laid.found (h : Laid w m trigger plan v) : (v.machine m).events.find? (.text trigger) = some w.events.next := by
  rw [h.machine]
  exact (Table.find?_insert_text _ (s := trigger) rfl trigger _).trans (if_pos rfl)

/-- To begin with there is the trigger alone. -/
theorem laid_newEvent (w : World) (m : MachineId) (trigger : String) :
    Laid w m trigger [] (w.newEvent m (.text trigger)) := by
  refine ⟨rfl, ?_, fun n hn => ?_, ?_, ?_, fun e he => ?_, ?_⟩
  · rw [newEvent, machine_updateMachine, if_pos rfl]
    rfl
  · rw [newEvent, machine_updateMachine, if_neg (Ne.symm hn)]
    rfl
  · exact (List.append_nil _).symm
  · exact Heap.next_push _ _
  · rw [event_newEvent, if_neg (Nat.ne_of_lt he)]
  · rw [event_newEvent, if_pos rfl]
    rfl

/-- For what is no source of a plan there is no candidate. -/
theorem Laid.missing (h : Laid w m trigger plan v) {a : String} (other : ∀ p ∈ plan, (p.1.1 == Value.text a) = false) :
    (v.events.get w.events.next).candidates.find? (.text a) = none := by
  rw [h.event, Table.find?, Option.map_eq_none_iff, List.find?_eq_none]
  intro x hx same
  obtain ⟨⟨p, i⟩, hp, rfl⟩ := List.mem_map.mp hx
  exact Bool.false_ne_true ((other p (List.fst_mem_of_mem_zipIdx hp)).symm.trans same)

/-- One transition more is made behind the others. -/
theorem Laid.addMove (h : Laid w m trigger plan v) {a b : String} {hooks : Hooks}
    (fresh : ∀ p ∈ plan, (p.1.1 == Value.text a) = false) :
    Laid w m trigger (plan ++ [((.text a, .text b), hooks)])
      (World.addMove hooks w.events.next v (.text a, .text b)) := by
  obtain ⟨u, hu⟩ : ∃ u, u = World.addMove hooks w.events.next v (.text a, .text b) := ⟨_, rfl⟩
  have transitions : u.transitions = v.transitions.push (.ofHooks (.text a) (.text b) hooks) := by
    rw [hu]
    rfl
  have same : u.machines = v.machines := by
    rw [hu]
    rfl
  have events : u.events = v.events.modify w.events.next (fun event => { event with
      candidates := event.candidates.insert (.text a)
        ((event.candidates.find? (.text a)).getD [] ++ [v.transitions.next]) }) := by
    simp [hu, World.addMove, addCandidate, updateEvent, addTransition, Transition.ofHooks]
  have made : w.events.next < v.events.next := by
    rw [h.events]
    exact Nat.lt_succ_self _
  -- no transition of the plan is filed under this source yet
  have none := h.missing fresh
  have filed : (v.events.get w.events.next).candidates.insert (.text a) [v.transitions.next] =
      ⟨(v.events.get w.events.next).candidates.entries ++ [(.text a, [v.transitions.next])]⟩ := by
    have missing : (v.events.get w.events.next).candidates.contains (.text a) = false := by rw [Table.contains, none]; rfl
    exact congrArg Table.mk (Table.entries_insert_of_not_contains missing)
  rw [← hu]
  refine ⟨?_, ?_, fun n hn => ?_, ?_, ?_, fun e he => ?_, ?_⟩
  · have rest : u = { v with transitions := u.transitions, events := u.events, machines := u.machines } := by
      rw [hu]
      rfl
    rw [rest, h.rest]
  · rw [World.machine, same]
    exact h.machine
  · rw [World.machine, same]
    exact h.others n hn
  · rw [transitions, Heap.push, Array.toList_push, h.transitions, List.map_append, List.append_assoc]
    rfl
  · rw [events, Heap.next_modify made, h.events]
  · rw [events, Heap.get_modify, if_neg (Nat.ne_of_gt he), h.older e he]
  · rw [events, Heap.get_modify, if_pos rfl, none, Option.getD_none, List.nil_append, filed, h.event, h.next,
      List.zipIdx_append, List.map_append]
    simp

/-- A transition that is planned between registered states, which stand for nothing else. -/
def Joins (w : World) (m : MachineId) (p : Planned) : Prop :=
  ∃ a b : String, p.1 = (.text a, .text b) ∧ a ≠ "*" ∧ b ≠ "=" ∧ .text a ∈ (w.machine m).states.keys ∧
    .text b ∈ (w.machine m).states.keys

/-- The transition that was planned from a state is the only candidate there. -/
theorem Laid.leads (h : Laid w m trigger plan v) (distinct : (plan.map (·.1.1)).Nodup)
    (joins : ∀ p ∈ plan, w.Joins m p) {i : Nat} {p : Planned} (hp : plan[i]? = some p) :
    (v.events.get w.events.next).candidates.find? p.1.1 = some [w.transitions.next + i] := by
  obtain ⟨hlt, hp⟩ := List.getElem?_eq_some_iff.mp hp
  subst hp
  rw [h.event, Table.find?, Option.map_eq_some_iff]
  refine ⟨(plan[i].1.1, [w.transitions.next + i]), List.find?_eq_some_iff_getElem.mpr ⟨ReflBEq.rfl, i, ?_, ?_, ?_⟩, rfl⟩
  · simpa using hlt
  · simp
  · intro j hj
    obtain ⟨a, b, here, -⟩ := joins _ (List.getElem_mem hlt)
    obtain ⟨c, d, there, -⟩ := joins _ (List.getElem_mem (Nat.lt_trans hj hlt))
    have differ := List.pairwise_iff_getElem.mp distinct j i (by simpa using Nat.lt_trans hj hlt) (by simpa using hlt) hj
    simp only [List.getElem_map, here, there] at differ
    have other : (c == a) = false := beq_false_of_ne (fun same => differ (congrArg Value.text same))
    simp [here, there, other]

/-- Connecting one registered state with another makes one transition. -/
theorem connect_joins {p : Planned} (h : w.Joins m p) (free : trigger ≠ (w.machine m).accessor.name) :
    w.connect m (.text trigger) p.1.1 p.1.2 p.2 =
      .ok (World.addMove p.2 (w.ensureEvent m (.text trigger)).1 (w.ensureEvent m (.text trigger)).2 p.1) := by
  obtain ⟨⟨source, dest⟩, hooks⟩ := p
  obtain ⟨a, b, ends, notAll, notSame, ha, hb⟩ := h
  obtain ⟨rfl, rfl⟩ := Prod.mk.inj ends
  have unreserved : (Value.text trigger).same (.text (w.machine m).accessor.name) = false := by
    rw [Value.same_text]
    exact beq_false_of_ne free
  have one : (Value.text a).same everyState = false := by
    rw [everyState, Value.same_text]
    exact beq_false_of_ne notAll
  have other : (Value.text b).same sameState = false := by
    rw [sameState, Value.same_text]
    exact beq_false_of_ne notSame
  have moves : w.movesOf m (.text a) (.text b) = .ok [(.text a, .text b)] := by
    simp [movesOf, sourceNames, destName, one, other, Value.items, registeredName_text ha, registeredName_text hb,
      bind, Except.bind, pure, Except.pure]
  unfold World.connect
  rw [unreserved, moves]
  simp [bind, Except.bind, pure, Except.pure]

theorem Joins.laid {p : Planned} (hp : w.Joins m p) (h : Laid w m trigger plan v) : v.Joins m p := by
  obtain ⟨a, b, ends, notAll, notSame, ha, hb⟩ := hp
  exact ⟨a, b, ends, notAll, notSame, by rw [h.machine]; exact ha, by rw [h.machine]; exact hb⟩

/-- The rest of a plan is laid behind what was laid before. -/
theorem Laid.connect (h : Laid w m trigger plan v) (free : trigger ≠ (w.machine m).accessor.name)
    (joins : ∀ p ∈ plan ++ rest, w.Joins m p) (distinct : ((plan ++ rest).map (·.1.1)).Nodup) :
    ∃ u, rest.forM (fun p => Act.advance (fun w => w.connect m (.text trigger) p.1.1 p.1.2 p.2)) v = (.ok (), u) ∧
      Laid w m trigger (plan ++ rest) u := by
  induction rest generalizing plan v with
  | nil => exact ⟨v, rfl, by rwa [List.append_nil]⟩
  | cons p rest ih =>
    have join := (joins p (by simp)).laid h
    have ensured : v.ensureEvent m (.text trigger) = (w.events.next, v) := by simp only [ensureEvent, h.found]
    have connected : v.connect m (.text trigger) p.1.1 p.1.2 p.2 = .ok (World.addMove p.2 w.events.next v p.1) := by
      rw [connect_joins join (by rw [h.machine]; exact free), ensured]
    obtain ⟨⟨source, dest⟩, hooks⟩ := p
    obtain ⟨a, b, ends, -⟩ := join
    obtain ⟨rfl, rfl⟩ := Prod.mk.inj ends
    have fresh : ∀ q ∈ plan, (q.1.1 == Value.text a) = false := by
      intro q hq
      obtain ⟨c, d, hc, -⟩ := joins q (List.mem_append_left _ hq)
      have differ : q.1.1 ≠ .text a := by
        rw [List.map_append, List.nodup_append] at distinct
        exact distinct.2.2 _ (List.mem_map_of_mem hq) _ (by simp)
      rw [hc] at differ ⊢
      rw [Value.text_beq_text, beq_eq_false_iff_ne]
      exact fun same => differ (congrArg Value.text same)
    obtain ⟨u, ran, whole⟩ := ih (h.addMove fresh) (by simpa using joins) (by simpa using distinct)
    exact ⟨u, (bind_of_ok (advance_ok connected)).trans ran, by simpa using whole⟩

/-- A plan is laid under a trigger that is not in use. -/
theorem connect_laid (unused : (w.machine m).events.find? (.text trigger) = none)
    (free : trigger ≠ (w.machine m).accessor.name) (joins : ∀ p ∈ plan, w.Joins m p)
    (distinct : (plan.map (·.1.1)).Nodup) (some : plan ≠ []) :
    ∃ v, plan.forM (fun p => Act.advance (fun w => w.connect m (.text trigger) p.1.1 p.1.2 p.2)) w = (.ok (), v) ∧
      Laid w m trigger plan v := by
  obtain ⟨v, ran, laid⟩ := (laid_newEvent w m trigger).connect free joins distinct
  refine ⟨v, ?_, laid⟩
  obtain ⟨p, rest, rfl⟩ := List.exists_cons_of_ne_nil some
  -- the first transition makes the event, which makes no difference to what is connected
  have join := joins p List.mem_cons_self
  have begun := laid_newEvent w m trigger
  have direct := connect_joins join free
  have after := connect_joins (join.laid begun) (by rw [begun.machine]; exact free)
  simp only [ensureEvent, unused] at direct
  simp only [ensureEvent, begun.found] at after
  exact (bind_of_ok (advance_ok direct)).trans ((bind_of_ok (advance_ok after)).symm.trans ran)

theorem moveCount_le {length : Nat} (loop : Bool) : moveCount length loop ≤ length := by
  unfold moveCount
  split <;> omega

/-- A row of registered states is planned between these. -/
theorem rowPlan_joins {names : List String} {row : Row} (hreg : ∀ a ∈ names, .text a ∈ (w.machine m).states.keys)
    (hplain : ∀ a ∈ names, a ≠ "*" ∧ a ≠ "=") (hlen : 2 ≤ names.length) : ∀ p ∈ w.rowPlan m names row, w.Joins m p := by
  intro p hp
  obtain ⟨i, hi, rfl⟩ := List.mem_map.mp hp
  have hi := Nat.lt_of_lt_of_le (List.mem_range.mp hi) (moveCount_le _)
  have here := getD_rowFrom_mem (w.machine m).initial hi
  have there := getD_rowFrom_mem (w.machine m).initial (placeAfter_lt hlen
    (loopEnd_le_one (w.machine m).initial names row.loopIncludesInitial.truthy) i)
  exact ⟨_, _, rfl, (hplain _ here).1, (hplain _ there).2, hreg _ here, hreg _ there⟩

/-- The transitions of a row have different sources. -/
theorem rowPlan_sources {names : List String} (hnodup : names.Nodup) (row : Row) :
    ((w.rowPlan m names row).map (·.1.1)).Nodup := by
  rw [rowPlan, List.map_map]
  refine List.nodup_range.map_on (fun i hi j hj same => ?_)
  have hi := Nat.lt_of_lt_of_le (List.mem_range.mp hi) (moveCount_le _)
  have hj := Nat.lt_of_lt_of_le (List.mem_range.mp hj) (moveCount_le _)
  exact getD_rowFrom_inj hnodup hi hj (Value.text.inj same)

/-- The transitions of a row are made in order, one from each of its states to the next and one that closes the loop if
there is to be one, and each with its own entries of the arguments. -/
theorem connectRow_laid {names : List String} {row : Row} (hstates : row.states.items = names.map .text)
    (htrigger : row.trigger = .text trigger) (hreg : ∀ a ∈ names, .text a ∈ (w.machine m).states.keys)
    (hplain : ∀ a ∈ names, a ≠ "*" ∧ a ≠ "=") (hnodup : names.Nodup) (hlen : 2 ≤ names.length)
    (unused : (w.machine m).events.find? (.text trigger) = none) (free : trigger ≠ (w.machine m).accessor.name)
    (hfit : row.hooks.Fit (moveCount names.length row.loop.truthy)) :
    ∃ v, connectRow m row w = (.ok (), v) ∧ Laid w m trigger (w.rowPlan m names row) v := by
  have planned : Act.ask (fun w => w.planRow m row) w = (.ok (w.rowPlan m names row), w) := by
    rw [ask_apply, planRow_eq hstates hreg hlen hfit]
    rfl
  have some : w.rowPlan m names row ≠ [] := by
    intro none
    have length := congrArg List.length none
    rw [rowPlan, List.length_map, List.length_range, List.length_nil, moveCount] at length
    split at length <;> omega
  obtain ⟨v, ran, laid⟩ := connect_laid unused free (rowPlan_joins hreg hplain hlen) (rowPlan_sources hnodup row) some
  refine ⟨v, ?_, laid⟩
  rw [connectRow, bind_of_ok planned, htrigger]
  exact ran

end World

end StateEngine
