import StateEngine.Proofs.Registry.Sound

/-! How transitions are filed: each under one event for good, and each event under one trigger of one
machine. A removal is the only way out of an event, and nothing that is out comes back. -/
namespace StateEngine.World
open Relation

/-- A transition is a candidate of an event, for whatever source. -/
def Filed (w : World) (e : EventId) (t : TransitionId) : Prop :=
  ∃ x ∈ (w.events.get e).candidates.entries, t ∈ x.2

/-- An event is listed by a machine under its own name, which is not that of the state attribute. -/
structure Listed (w : World) (m : MachineId) (x : Value × EventId) : Prop where
  made : x.2 < w.events.next
  name : (w.events.get x.2).name = x.1
  free : x.1.same (.text (w.machine m).accessor.name) = false

/-- Nothing between two worlds but transitions, events and the lists that machines have of them. -/
structure Relisted (w v : World) : Prop where
  rest : v = { w with transitions := v.transitions, events := v.events, machines := v.machines }
  machine : ∀ n, ∃ events, v.machine n = { w.machine n with events := events }

theorem Relisted.refl (w : World) : Relisted w w := ⟨rfl, fun n => ⟨(w.machine n).events, rfl⟩⟩

theorem Relisted.trans {w v u : World} (h : Relisted w v) (h' : Relisted v u) : Relisted w u := by
  refine ⟨by rw [h'.rest, h.rest], fun n => ?_⟩
  obtain ⟨events, hv⟩ := h.machine n
  obtain ⟨events', hu⟩ := h'.machine n
  exact ⟨events', by rw [hu, hv]⟩

theorem relisted_updateEvent (w : World) (e : EventId) (f : Event → Event) : Relisted w (w.updateEvent e f) :=
  ⟨rfl, fun n => ⟨(w.machine n).events, rfl⟩⟩

theorem relisted_updateMachine (w : World) (m : MachineId) (f : Table Value EventId → Table Value EventId) :
    Relisted w (w.updateMachine m (fun machine => { machine with events := f machine.events })) := by
  refine ⟨rfl, fun n => ?_⟩
  rw [machine_updateMachine]
  split
  · exact ⟨_, rfl⟩
  · exact ⟨(w.machine n).events, rfl⟩

theorem relisted_addMoves (hooks : Hooks) (e : EventId) (moves : List (Value × Value)) (w : World) :
    Relisted w (moves.foldl (addMove hooks e) w) := by
  induction moves generalizing w with
  | nil => exact .refl w
  | cons move moves ih =>
    have made : Relisted w (addMove hooks e w move) := ⟨rfl, fun n => ⟨(w.machine n).events, rfl⟩⟩
    exact made.trans (ih _)

theorem relisted_newEvent (w : World) (m : MachineId) (trigger : Value) : Relisted w (w.newEvent m trigger) := by
  have pushed : Relisted w { w with events := w.events.push { name := trigger, machine := m } } :=
    ⟨rfl, fun n => ⟨(w.machine n).events, rfl⟩⟩
  exact pushed.trans (relisted_updateMachine _ m (fun events => events.insert trigger w.events.next))

theorem relisted_ensureEvent (w : World) (m : MachineId) (trigger : Value) :
    Relisted w (w.ensureEvent m trigger).2 := by
  unfold ensureEvent
  split
  · exact .refl w
  · exact relisted_newEvent w m trigger

/-- A trigger that is connected is none of the names that are taken, and its event has new candidates. -/
theorem connect_cases {w v : World} {m : MachineId} {trigger source dest : Value} {hooks : Hooks}
    (h : w.connect m trigger source dest hooks = .ok v) :
    trigger.same (.text (w.machine m).accessor.name) = false ∧
      ∃ moves, w.movesOf m source dest = .ok moves ∧
        v = moves.foldl (addMove hooks (w.ensureEvent m trigger).1) (w.ensureEvent m trigger).2 := by
  unfold World.connect at h
  simp only [] at h
  split at h
  · cases h
  · rename_i hname
    obtain ⟨moves, hmoves, h⟩ := ok_of_bind h
    split at h
    · cases h
    · cases h
      exact ⟨by simpa using hname, moves, hmoves, rfl⟩

/-- Whether a removal leaves a transition where it is. -/
def spares (w : World) (source dest : Value) (t : TransitionId) : Bool :=
  outside (w.filterNames source) (w.transitions.get t).source ||
    outside (w.filterNames dest) (w.transitions.get t).dest

/-- What a removal leaves of the candidates of an event. -/
def remaining (w : World) (e : EventId) (source dest : Value) : List (Value × List TransitionId) :=
  (w.events.get e).candidates.entries.filterMap (fun c =>
    let kept := c.2.filter (w.spares source dest)
    if kept.isEmpty then none else some (c.1, kept))

/-- An event with something left keeps that only; one with nothing left is struck off the list as it
is. -/
theorem disconnect_cases {w v : World} {m : MachineId} {trigger source dest : Value}
    (h : w.disconnect m trigger source dest = .ok v) :
    ∃ e, w.eventOf m trigger = .ok e ∧
      ((w.remaining e source dest = [] ∧
          v = w.updateMachine m (fun machine => { machine with events := machine.events.erase trigger })) ∨
        (w.remaining e source dest ≠ [] ∧
          v = w.updateEvent e (fun event => { event with candidates := ⟨w.remaining e source dest⟩ }))) := by
  obtain ⟨e, he, h⟩ := ok_of_bind h
  refine ⟨e, he, ?_⟩
  change (if (w.remaining e source dest).isEmpty then Except.ok _ else Except.ok _) = _ at h
  split at h
  · rename_i hrest
    cases h
    exact .inl ⟨by simpa using hrest, rfl⟩
  · rename_i hrest
    cases h
    exact .inr ⟨by simpa using hrest, rfl⟩

/-- What is left is what the removal spares. -/
theorem mem_remaining {w : World} {e : EventId} {source dest : Value} {x : Value × List TransitionId}
    (h : x ∈ w.remaining e source dest) {t : TransitionId} (ht : t ∈ x.2) :
    w.Filed e t ∧ w.spares source dest t = true := by
  obtain ⟨c, hc, hx⟩ := List.mem_filterMap.mp h
  simp only [] at hx
  split at hx
  · cases hx
  · cases hx
    obtain ⟨hmem, hs⟩ := List.mem_filter.mp ht
    exact ⟨⟨c, hc, hmem⟩, hs⟩

theorem relisted_connect {w v : World} {m : MachineId} {trigger source dest : Value} {hooks : Hooks}
    (h : w.connect m trigger source dest hooks = .ok v) : Relisted w v := by
  obtain ⟨-, moves, -, rfl⟩ := connect_cases h
  exact (relisted_ensureEvent w m trigger).trans (relisted_addMoves hooks _ moves _)

theorem relisted_disconnect {w v : World} {m : MachineId} {trigger source dest : Value}
    (h : w.disconnect m trigger source dest = .ok v) : Relisted w v := by
  obtain ⟨e, -, ⟨-, rfl⟩ | ⟨-, rfl⟩⟩ := disconnect_cases h
  · exact relisted_updateMachine w m (fun events => events.erase trigger)
  · exact relisted_updateEvent w e _

theorem relisted_adopt {w v : World} {m : MachineId} {trigger : Value} {t : TransitionId}
    (h : w.adopt m trigger t = .ok v) : Relisted w v := by
  obtain ⟨e, -, h⟩ := ok_of_bind h
  split at h
  · cases h
    exact relisted_updateEvent w e _
  · cases h

section Candidates

variable {w : World} {e e' : EventId} {t t' : TransitionId}

theorem event_addCandidate (w : World) (e e' : EventId) (t : TransitionId) :
    ((addCandidate e w t).events.get e').name = (w.events.get e').name ∧
      w.events.next ≤ (addCandidate e w t).events.next := by
  refine ⟨?_, Heap.next_le_next_modify _ _ _⟩
  by_cases he : e = e' <;> simp [addCandidate, updateEvent, he]

theorem filed_addCandidate (h : (addCandidate e w t).Filed e' t') : w.Filed e' t' ∨ (e' = e ∧ t' = t) := by
  obtain ⟨x, hx, ht⟩ := h
  by_cases he : e = e'
  · subst he
    simp only [addCandidate, updateEvent, Heap.get_modify, if_true] at hx
    rcases Table.mem_entries_insert hx with hx | ⟨-, hx⟩
    · exact .inl ⟨x, hx, ht⟩
    · rw [hx] at ht
      rcases List.mem_append.mp ht with ht | ht
      · cases hf : (w.events.get e).candidates.find? (w.transitions.get t).source with
        | none => simp [hf] at ht
        | some ts =>
          rw [hf] at ht
          obtain ⟨k, -, hmem⟩ := Table.mem_of_find? hf
          exact .inl ⟨(k, ts), hmem, ht⟩
      · exact .inr ⟨rfl, List.mem_singleton.mp ht⟩
  · exact .inl ⟨x, by simpa [addCandidate, updateEvent, he] using hx, ht⟩

theorem next_addMove (hooks : Hooks) (e : EventId) (w : World) (move : Value × Value) :
    (addMove hooks e w move).transitions.next = w.transitions.next + 1 := Heap.next_push ..

/-- Events keep their names, and machines their lists, while an event gets more candidates. -/
theorem event_addMoves (hooks : Hooks) (e e' : EventId) (moves : List (Value × Value)) (w : World) :
    ((moves.foldl (addMove hooks e) w).events.get e').name = (w.events.get e').name ∧
      w.events.next ≤ (moves.foldl (addMove hooks e) w).events.next ∧
      w.transitions.next ≤ (moves.foldl (addMove hooks e) w).transitions.next ∧
      (moves.foldl (addMove hooks e) w).machines = w.machines := by
  induction moves generalizing w with
  | nil => exact ⟨rfl, Nat.le_refl _, Nat.le_refl _, rfl⟩
  | cons move moves ih =>
    obtain ⟨name, events, transitions, machines⟩ := ih (addMove hooks e w move)
    obtain ⟨name', events'⟩ := event_addCandidate (w.addTransition (.ofHooks move.1 move.2 hooks)).2 e e'
      w.transitions.next
    rw [next_addMove] at transitions
    exact ⟨name.trans name', Nat.le_trans events' events, Nat.le_of_succ_le transitions, machines⟩

/-- Only new transitions become candidates, and all of them of one event. -/
theorem filed_addMoves (hooks : Hooks) (e : EventId) (moves : List (Value × Value))
    (h : (moves.foldl (addMove hooks e) w).Filed e' t) :
    w.Filed e' t ∨ (e' = e ∧ w.transitions.next ≤ t ∧
      t < (moves.foldl (addMove hooks e) w).transitions.next) := by
  induction moves generalizing w with
  | nil => exact .inl h
  | cons move moves ih =>
    have next := next_addMove hooks e w move
    rcases ih h with h | ⟨he, hnext, hlt⟩
    · rcases filed_addCandidate h with h | ⟨he, ht⟩
      · exact .inl h
      · obtain ⟨-, -, grown, -⟩ := event_addMoves hooks e e' moves (addMove hooks e w move)
        rw [next] at grown
        have ht : t = w.transitions.next := ht
        exact .inr ⟨he, Nat.le_of_eq ht.symm, ht ▸ grown⟩
    · rw [next] at hnext
      exact .inr ⟨he, Nat.le_of_succ_le hnext, hlt⟩

end Candidates

section NewEvents

variable {w : World} {m n : MachineId} {trigger : Value} {e : EventId} {t : TransitionId}

theorem mem_newEvent (hnew : (w.machine m).events.find? trigger = none) {x : Value × EventId}
    (h : x ∈ ((w.newEvent m trigger).machine n).events.entries) :
    x ∈ (w.machine n).events.entries ∨ (n = m ∧ x = (trigger, w.events.next)) := by
  have unlisted : (w.machine m).events.contains trigger = false := by rw [Table.contains, hnew]; rfl
  rw [newEvent, machine_updateMachine] at h
  split at h
  · rename_i hmn
    subst hmn
    have entries := Table.entries_insert_of_not_contains (a := w.events.next) unlisted
    have h : x ∈ ((w.machine m).events.insert trigger w.events.next).entries := h
    rw [entries] at h
    rcases List.mem_append.mp h with h | h
    · exact .inl h
    · exact .inr ⟨rfl, List.mem_singleton.mp h⟩
  · exact .inl h

theorem filed_newEvent (h : (w.newEvent m trigger).Filed e t) : w.Filed e t := by
  obtain ⟨x, hx, ht⟩ := h
  rw [event_newEvent] at hx
  split at hx
  · cases hx
  · exact ⟨x, hx, ht⟩

/-- The event of a trigger was listed, or is a new one without candidates. -/
theorem ensureEvent_cases (w : World) (m : MachineId) (trigger : Value) :
    (∃ e, (w.machine m).events.find? trigger = some e ∧ w.ensureEvent m trigger = (e, w)) ∨
      ((w.machine m).events.find? trigger = none ∧
        w.ensureEvent m trigger = (w.events.next, w.newEvent m trigger)) := by
  unfold ensureEvent
  cases hf : (w.machine m).events.find? trigger with
  | some e => exact .inl ⟨e, rfl, rfl⟩
  | none => exact .inr ⟨rfl, rfl⟩

end NewEvents

/-- Nothing between two worlds that has to do with events. -/
structure Bystanding (w v : World) : Prop where
  events : v.events = w.events
  next : w.transitions.next ≤ v.transitions.next
  machine : ∀ n, (v.machine n).events = (w.machine n).events ∧
    ((w.machine n).events.entries ≠ [] → (v.machine n).accessor = (w.machine n).accessor)

theorem Bystanding.of_machines {w v : World} (he : v.events = w.events)
    (ht : w.transitions.next ≤ v.transitions.next) (hm : v.machines = w.machines) : Bystanding w v :=
  ⟨he, ht, fun n => by simp [World.machine, hm]⟩

theorem bystanding_updateMachine {w : World} {m : MachineId} {f : Machine → Machine}
    (hf : (f (w.machine m)).events = (w.machine m).events ∧
      (f (w.machine m)).accessor = (w.machine m).accessor) : Bystanding w (w.updateMachine m f) := by
  refine ⟨rfl, Nat.le_refl _, fun n => ?_⟩
  rw [machine_updateMachine]
  split
  · rename_i hmn
    subst hmn
    exact ⟨hf.1, fun _ => hf.2⟩
  · exact ⟨rfl, fun _ => rfl⟩

/-- The sorts of changes, as events see them. -/
theorem Change.sorts {w v : World} (h : Change w v) :
    Bystanding w v ∨ (∃ m trigger source dest hooks, w.connect m trigger source dest hooks = .ok v) ∨
      (∃ m trigger source dest, w.disconnect m trigger source dest = .ok v) ∨
      ∃ i e source, w.Seeks i e source ∧ v = w.updateEvent e (fun event =>
        { event with candidates := event.candidates.insert source [] }) := by
  cases h with
  | aside h => exact .inl (.of_machines h.events (Nat.le_of_eq (by rw [h.transitions])) h.machines)
  | makeState s => exact .inl (.of_machines rfl (Nat.le_refl _) rfl)
  | enroll m s hk hnew => exact .inl (bystanding_updateMachine ⟨rfl, rfl⟩)
  | hookState s c stage => exact .inl (.of_machines rfl (Nat.le_refl _) rfl)
  | makeTransition t => exact .inl (.of_machines rfl (by simp [addTransition]) rfl)
  | connect h => exact .inr (.inl ⟨_, _, _, _, _, h⟩)
  | disconnect h => exact .inr (.inr (.inl ⟨_, _, _, _, h⟩))
  | hookTransition t c stage => exact .inl (.of_machines rfl (Heap.next_le_next_modify _ _ _) rfl)
  | fileSource h => exact .inr (.inr (.inr ⟨_, _, _, h, rfl⟩))
  | tune m hf =>
    obtain ⟨-, events, accessor⟩ := hf (w.machine m)
    exact .inl (bystanding_updateMachine ⟨events, accessor⟩)
  | makeMachine machine hs he =>
    refine .inl ⟨rfl, Nat.le_refl _, fun n => ?_⟩
    rcases machine_push w machine n with kept | ⟨old, new⟩
    · rw [kept]
      exact ⟨rfl, fun _ => rfl⟩
    · rw [old, new, he]
      exact ⟨rfl, fun h => absurd rfl h⟩

section Steps

variable {w v : World} {e : EventId} {t : TransitionId} {n : MachineId}

theorem filed_fileSource {e' : EventId} {source : Value} (h : (w.updateEvent e' (fun event =>
    { event with candidates := event.candidates.insert source [] })).Filed e t) : w.Filed e t := by
  obtain ⟨x, hx, ht⟩ := h
  by_cases he : e' = e
  · subst he
    simp only [updateEvent, Heap.get_modify, if_true] at hx
    rcases Table.mem_entries_insert hx with hx | ⟨-, hx⟩
    · exact ⟨x, hx, ht⟩
    · rw [hx] at ht
      cases ht
  · exact ⟨x, by simpa [updateEvent, he] using hx, ht⟩

/-- What a firing may select is filed under its event. -/
theorem filed_of_candidatesFor {u u' : World} {i : FiringId} {ts : List TransitionId}
    (h : Engine.candidatesFor i u = (.ok ts, u')) {t : TransitionId} (ht : t ∈ ts) :
    u.Filed (u.firings.get i).event t := by
  unfold Engine.candidatesFor at h
  rw [Act.bind_of_ok (Act.get_apply u)] at h
  cases hf : (u.events.get (u.firings.get i).event).candidates.find?
      (u.states.get (u.firings.get i).state).name with
  | some us =>
    rw [hf] at h
    cases h
    obtain ⟨k, -, hmem⟩ := Table.mem_of_find? hf
    exact ⟨(k, ts), hmem, ht⟩
  | none =>
    rw [hf] at h
    cases h
    cases ht

theorem filed_disconnect {m : MachineId} {trigger source dest : Value}
    (h : w.disconnect m trigger source dest = .ok v) (hf : v.Filed e t) : w.Filed e t := by
  obtain ⟨e', -, ⟨-, rfl⟩ | ⟨-, rfl⟩⟩ := disconnect_cases h
  · exact hf
  · obtain ⟨x, hx, ht⟩ := hf
    by_cases he : e' = e
    · subst he
      simp only [updateEvent, Heap.get_modify, if_true] at hx
      exact (mem_remaining hx ht).1
    · exact ⟨x, by simpa [updateEvent, he] using hx, ht⟩

theorem filed_connect {m : MachineId} {trigger source dest : Value} {hooks : Hooks}
    (h : w.connect m trigger source dest hooks = .ok v) (hf : v.Filed e t) :
    w.Filed e t ∨ (e = (w.ensureEvent m trigger).1 ∧ w.transitions.next ≤ t ∧ t < v.transitions.next) := by
  obtain ⟨-, moves, -, rfl⟩ := connect_cases h
  rcases ensureEvent_cases w m trigger with ⟨e', -, hens⟩ | ⟨-, hens⟩
  · rw [hens] at hf ⊢
    exact filed_addMoves hooks e' moves hf
  · rw [hens] at hf ⊢
    exact (filed_addMoves hooks _ moves hf).imp_left filed_newEvent

theorem listed_connect {m : MachineId} {trigger source dest : Value} {hooks : Hooks}
    (h : w.connect m trigger source dest hooks = .ok v) {x : Value × EventId}
    (hx : x ∈ (v.machine n).events.entries) :
    x ∈ (w.machine n).events.entries ∨
      (n = m ∧ x = (trigger, w.events.next) ∧ x.2 < v.events.next ∧ (v.events.get x.2).name = trigger) := by
  obtain ⟨-, moves, -, rfl⟩ := connect_cases h
  obtain ⟨name, events, -, machines⟩ :=
    event_addMoves hooks (w.ensureEvent m trigger).1 x.2 moves (w.ensureEvent m trigger).2
  rw [World.machine, machines] at hx
  rw [name]
  rcases ensureEvent_cases w m trigger with ⟨e', -, hens⟩ | ⟨hnew, hens⟩
  · rw [hens] at hx
    exact .inl hx
  · rw [hens] at hx events ⊢
    rcases mem_newEvent hnew hx with hx | ⟨hn, rfl⟩
    · exact .inl hx
    · refine .inr ⟨hn, rfl, Nat.lt_of_lt_of_le ?_ events, ?_⟩
      · show w.events.next < (w.newEvent m trigger).events.next
        exact Nat.lt_of_lt_of_eq (Nat.lt_succ_self _) (Heap.next_push ..).symm
      · show ((w.newEvent m trigger).events.get w.events.next).name = trigger
        rw [event_newEvent, if_pos rfl]

theorem event_connect {m : MachineId} {trigger source dest : Value} {hooks : Hooks}
    (h : w.connect m trigger source dest hooks = .ok v) :
    w.transitions.next ≤ v.transitions.next ∧ w.events.next ≤ v.events.next ∧
      ∀ e < w.events.next, (v.events.get e).name = (w.events.get e).name := by
  obtain ⟨-, moves, -, rfl⟩ := connect_cases h
  have grown (e : EventId) := event_addMoves hooks (w.ensureEvent m trigger).1 e moves (w.ensureEvent m trigger).2
  rcases ensureEvent_cases w m trigger with ⟨e', -, hens⟩ | ⟨-, hens⟩
  · rw [hens] at grown ⊢
    obtain ⟨-, events, transitions, -⟩ := grown 0
    exact ⟨transitions, events, fun e _ => (grown e).1⟩
  · rw [hens] at grown ⊢
    obtain ⟨-, events, transitions, -⟩ := grown 0
    have pushed : (w.newEvent m trigger).events.next = w.events.next + 1 := Heap.next_push ..
    rw [pushed] at events
    refine ⟨transitions, Nat.le_of_succ_le events, fun e he => (grown e).1.trans ?_⟩
    rw [event_newEvent, if_neg (Nat.ne_of_lt he)]

theorem listed_disconnect {m : MachineId} {trigger source dest : Value}
    (h : w.disconnect m trigger source dest = .ok v) {x : Value × EventId}
    (hx : x ∈ (v.machine n).events.entries) : x ∈ (w.machine n).events.entries := by
  obtain ⟨e', -, ⟨-, rfl⟩ | ⟨-, rfl⟩⟩ := disconnect_cases h
  · rw [machine_updateMachine] at hx
    split at hx
    · exact (List.mem_filter.mp hx).1
    · exact hx
  · exact hx

theorem event_updateEvent {e : EventId} {f : Event → Event} (hf : ∀ event, (f event).name = event.name) :
    w.events.next ≤ (w.updateEvent e f).events.next ∧
      ∀ e', ((w.updateEvent e f).events.get e').name = (w.events.get e').name := by
  refine ⟨Heap.next_le_next_modify _ _ _, fun e' => ?_⟩
  by_cases he : e = e' <;> simp [updateEvent, he, hf]

theorem event_disconnect {m : MachineId} {trigger source dest : Value}
    (h : w.disconnect m trigger source dest = .ok v) :
    v.transitions = w.transitions ∧ w.events.next ≤ v.events.next ∧
      ∀ e, (v.events.get e).name = (w.events.get e).name := by
  obtain ⟨e', -, ⟨-, rfl⟩ | ⟨-, rfl⟩⟩ := disconnect_cases h
  · exact ⟨rfl, Nat.le_refl _, fun _ => rfl⟩
  · exact ⟨rfl, event_updateEvent (fun _ => rfl)⟩

/-- A step makes transitions and events and takes none back, and events keep their names. -/
theorem Change.grows (h : Change w v) :
    w.transitions.next ≤ v.transitions.next ∧ w.events.next ≤ v.events.next ∧
      ∀ e < w.events.next, (v.events.get e).name = (w.events.get e).name := by
  rcases h.sorts with h | ⟨m, trigger, source, dest, hooks, h⟩ | ⟨m, trigger, source, dest, h⟩ | ⟨_, e, source, -, rfl⟩
  · exact ⟨h.next, Nat.le_of_eq (by rw [h.events]), fun _ _ => by rw [h.events]⟩
  · exact event_connect h
  · obtain ⟨transitions, next, names⟩ := event_disconnect h
    exact ⟨Nat.le_of_eq (by rw [transitions]), next, fun e _ => names e⟩
  · obtain ⟨next, names⟩ := event_updateEvent (w := w) (e := e) (f := fun event =>
      { event with candidates := event.candidates.insert source [] }) (fun _ => rfl)
    exact ⟨Nat.le_refl _, next, fun e _ => names e⟩

/-- A transition that was made becomes a candidate of no other event by a step. -/
theorem Change.filed (h : Change w v) (ht : t < w.transitions.next) (hf : v.Filed e t) : w.Filed e t := by
  rcases h.sorts with h | ⟨m, trigger, source, dest, hooks, h⟩ | ⟨m, trigger, source, dest, h⟩ | ⟨_, e', source, -, rfl⟩
  · unfold Filed at hf
    rwa [h.events] at hf
  · rcases filed_connect h hf with hf | ⟨-, new, -⟩
    · exact hf
    · exact absurd ht (Nat.not_lt_of_le new)
  · exact filed_disconnect h hf
  · exact filed_fileSource hf

/-- An event that was made comes on no other list by a step. -/
theorem Change.listed (h : Change w v) {x : Value × EventId} (he : x.2 < w.events.next)
    (hx : x ∈ (v.machine n).events.entries) : x ∈ (w.machine n).events.entries := by
  rcases h.sorts with h | ⟨m, trigger, source, dest, hooks, h⟩ | ⟨m, trigger, source, dest, h⟩ | ⟨_, e', source, -, rfl⟩
  · rwa [(h.machine n).1] at hx
  · rcases listed_connect h hx with hx | ⟨-, new, -⟩
    · exact hx
    · rw [new] at he
      exact absurd he (Nat.lt_irrefl _)
  · exact listed_disconnect h hx
  · exact hx

theorem Changes.grows (h : Changes w v) :
    w.transitions.next ≤ v.transitions.next ∧ w.events.next ≤ v.events.next ∧
      ∀ e < w.events.next, (v.events.get e).name = (w.events.get e).name := by
  induction h with
  | refl => exact ⟨Nat.le_refl _, Nat.le_refl _, fun _ _ => rfl⟩
  | tail _ step ih =>
    obtain ⟨transitions, events, names⟩ := step.grows
    refine ⟨Nat.le_trans ih.1 transitions, Nat.le_trans ih.2.1 events, fun e he => ?_⟩
    exact (names e (Nat.lt_of_lt_of_le he ih.2.1)).trans (ih.2.2 e he)

/-- A transition that was made never becomes a candidate of another event. -/
theorem Changes.filed (h : Changes w v) (ht : t < w.transitions.next) (hf : v.Filed e t) : w.Filed e t := by
  induction h with
  | refl => exact hf
  | tail steps step ih => exact ih (step.filed (Nat.lt_of_lt_of_le ht (Changes.grows steps).1) hf)

/-- An event that was made never comes on another list. -/
theorem Changes.listed (h : Changes w v) {x : Value × EventId} (he : x.2 < w.events.next)
    (hx : x ∈ (v.machine n).events.entries) : x ∈ (w.machine n).events.entries := by
  induction h with
  | refl => exact hx
  | tail steps step ih => exact ih (step.listed (Nat.lt_of_lt_of_le he (Changes.grows steps).2.1) hx)

end Steps

/-- Every transition is filed under one event at most, and every event is listed under its own name. -/
structure Sorted (w : World) : Prop where
  once : ∀ e e' t, w.Filed e t → w.Filed e' t → e = e'
  made : ∀ e t, w.Filed e t → t < w.transitions.next
  listed : ∀ m, ∀ x ∈ (w.machine m).events.entries, w.Listed m x

/-- What was filed and listed before stays sorted. -/
theorem Sorted.of_old {w v : World} (h : w.Sorted) (hf : ∀ e t, v.Filed e t → w.Filed e t)
    (ht : w.transitions.next ≤ v.transitions.next) (he : w.events.next ≤ v.events.next)
    (hn : ∀ e < w.events.next, (v.events.get e).name = (w.events.get e).name)
    (hl : ∀ m, ∀ x ∈ (v.machine m).events.entries, x ∈ (w.machine m).events.entries ∧
      (v.machine m).accessor = (w.machine m).accessor) : v.Sorted where
  once e e' t h₁ h₂ := h.once e e' t (hf e t h₁) (hf e' t h₂)
  made e t h₁ := Nat.lt_of_lt_of_le (h.made e t (hf e t h₁)) ht
  listed m x hx := by
    obtain ⟨hx, accessor⟩ := hl m x hx
    obtain ⟨made, name, free⟩ := h.listed m x hx
    exact ⟨Nat.lt_of_lt_of_le made he, (hn _ made).trans name, accessor ▸ free⟩

theorem Sorted.connect {w v : World} (h : w.Sorted) {m : MachineId} {trigger source dest : Value}
    {hooks : Hooks} (hc : w.connect m trigger source dest hooks = .ok v) : v.Sorted := by
  obtain ⟨transitions, events, names⟩ := event_connect hc
  obtain ⟨free, -⟩ := connect_cases hc
  have accessor (n : MachineId) : (v.machine n).accessor = (w.machine n).accessor := by
    obtain ⟨_, hn⟩ := (relisted_connect hc).machine n
    rw [hn]
  refine ⟨fun e e' t h₁ h₂ => ?_, fun e t h₁ => ?_, fun n x hx => ?_⟩
  · rcases filed_connect hc h₁ with h₁ | ⟨he, new, -⟩
    · rcases filed_connect hc h₂ with h₂ | ⟨-, new, -⟩
      · exact h.once e e' t h₁ h₂
      · exact absurd (h.made e t h₁) (Nat.not_lt_of_le new)
    · rcases filed_connect hc h₂ with h₂ | ⟨he', -, -⟩
      · exact absurd (h.made e' t h₂) (Nat.not_lt_of_le new)
      · exact he.trans he'.symm
  · rcases filed_connect hc h₁ with h₁ | ⟨-, -, made⟩
    · exact Nat.lt_of_lt_of_le (h.made e t h₁) transitions
    · exact made
  · rcases listed_connect hc hx with hx | ⟨rfl, rfl, made, name⟩
    · obtain ⟨made, name, free⟩ := h.listed n x hx
      exact ⟨Nat.lt_of_lt_of_le made events, (names _ made).trans name, (accessor n).symm ▸ free⟩
    · exact ⟨made, name, (accessor n).symm ▸ free⟩

theorem Sorted.step {w v : World} (h : w.Sorted) (hs : Change w v) : v.Sorted := by
  obtain ⟨transitions, events, names⟩ := hs.grows
  rcases hs.sorts with hb | ⟨m, trigger, source, dest, hooks, hc⟩ | ⟨m, trigger, source, dest, hd⟩ | ⟨_, e, source, -, rfl⟩
  · refine h.of_old (fun e t hf => ?_) transitions events names (fun m x hx => ?_)
    · unfold Filed at hf
      rwa [hb.events] at hf
    · obtain ⟨same, accessor⟩ := hb.machine m
      rw [same] at hx
      exact ⟨hx, accessor (List.ne_nil_of_mem hx)⟩
  · exact h.connect hc
  · refine h.of_old (fun e t hf => filed_disconnect hd hf) transitions events names (fun m x hx => ?_)
    obtain ⟨_, hm⟩ := (relisted_disconnect hd).machine m
    exact ⟨listed_disconnect hd hx, by rw [hm]⟩
  · exact h.of_old (fun e t hf => filed_fileSource hf) transitions events names (fun m x hx => ⟨hx, rfl⟩)

/-- In every reachable world transitions and events are sorted. -/
theorem Reachable.sorted {w : World} (h : w.Reachable) : w.Sorted := by
  obtain ⟨start, blank, steps⟩ := h
  induction steps with
  | refl =>
    have unfiled (e : EventId) (t : TransitionId) : ¬ start.Filed e t := by
      rintro ⟨x, hx, -⟩
      rw [blank.event] at hx
      cases hx
    refine ⟨fun e _ t hf => absurd hf (unfiled e t), fun e t hf => absurd hf (unfiled e t), fun m x hx => ?_⟩
    rw [blank.machine] at hx
    cases hx
  | tail _ step ih => exact ih.step step

end StateEngine.World
