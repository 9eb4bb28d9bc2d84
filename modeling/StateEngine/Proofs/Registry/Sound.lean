import StateEngine.Proofs.Registry.Reachable

/-! What holds of the registries in every reachable world: states are filed under their names, events
belong to the machine that lists them, and candidates lead from and to registered states. -/
namespace StateEngine.World
open Relation

/-- A machine has registered its states under texts only, which is what a state is to be named by. -/
def PlainNames (w : World) (m : MachineId) : Prop :=
  ∀ k ∈ (w.machine m).states.keys, ∃ a : String, k = .text a

/-- A transition that is filed under a source leads from a registered state of that name, and to one if
it leads anywhere. -/
structure Connects (w : World) (m : MachineId) (k : Value) (t : TransitionId) : Prop where
  made : t < w.transitions.next
  key : (k == (w.transitions.get t).source) = true
  source : (w.transitions.get t).source ∈ (w.machine m).states.keys
  dest : (w.transitions.get t).dest = .null ∨ (w.transitions.get t).dest ∈ (w.machine m).states.keys

/-- The registries agree with each other. -/
structure Regular (w : World) : Prop where
  owned : ∀ m, ∀ x ∈ (w.machine m).events.entries,
    x.2 < w.events.next ∧ (w.events.get x.2).machine = m
  filed : ∀ m, w.PlainNames m → ∀ x ∈ (w.machine m).states.entries, (w.states.get x.2).name = x.1
  connected : ∀ e, w.PlainNames (w.events.get e).machine →
    ∀ x ∈ (w.events.get e).candidates.entries, ∀ t ∈ x.2, w.Connects (w.events.get e).machine x.1 t

/-- What no step takes back: names once given, transitions once made, states once registered. -/
structure Extends (w v : World) : Prop where
  names : ∀ s, s < w.states.next → (v.states.get s).name = (w.states.get s).name
  made : w.transitions.next ≤ v.transitions.next
  moves : ∀ t, t < w.transitions.next →
    (v.transitions.get t).source = (w.transitions.get t).source ∧
      (v.transitions.get t).dest = (w.transitions.get t).dest
  keys : ∀ m, ∀ k ∈ (w.machine m).states.keys, k ∈ (v.machine m).states.keys

theorem Extends.refl (w : World) : Extends w w :=
  ⟨fun _ _ => rfl, Nat.le_refl _, fun _ _ => ⟨rfl, rfl⟩, fun _ _ h => h⟩

theorem Extends.trans {w v u : World} (h : Extends w v) (h' : Extends v u)
    (hs : w.states.next ≤ v.states.next) : Extends w u where
  names s hlt := (h'.names s (Nat.lt_of_lt_of_le hlt hs)).trans (h.names s hlt)
  made := Nat.le_trans h.made h'.made
  moves t hlt := by
    obtain ⟨hs', hd'⟩ := h'.moves t (Nat.lt_of_lt_of_le hlt h.made)
    obtain ⟨hs, hd⟩ := h.moves t hlt
    exact ⟨hs'.trans hs, hd'.trans hd⟩
  keys m k hk := h'.keys m k (h.keys m k hk)

theorem Extends.plainNames {w v : World} (h : Extends w v) {m : MachineId} (hv : v.PlainNames m) :
    w.PlainNames m := fun k hk => hv k (h.keys m k hk)

theorem Extends.connects {w v : World} (h : Extends w v) {m : MachineId} {k : Value} {t : TransitionId}
    (hc : w.Connects m k t) : v.Connects m k t := by
  obtain ⟨hs, hd⟩ := h.moves t hc.made
  refine ⟨Nat.lt_of_lt_of_le hc.made h.made, hs ▸ hc.key, hs ▸ h.keys m _ hc.source, ?_⟩
  rw [hd]
  exact hc.dest.imp_right (h.keys m _)

/-- A state with a text for a name has been made. -/
theorem lt_of_name_text {w : World} {s : StateId} {a : String} (h : (w.states.get s).name = .text a) :
    s < w.states.next := by
  refine Nat.lt_of_not_le (fun hle => ?_)
  rw [Heap.get_of_next_le hle] at h
  cases h

theorem mem_keys {w : World} {m : MachineId} {x : Value × StateId}
    (h : x ∈ (w.machine m).states.entries) : x.1 ∈ (w.machine m).states.keys :=
  List.mem_map_of_mem h

/-- What is filed under a name that is a text stays so when more is registered. -/
theorem Regular.filed_of_extends {w v : World} (h : w.Regular) (hx : Extends w v) {m : MachineId}
    (hv : v.PlainNames m) {x : Value × StateId} (hmem : x ∈ (w.machine m).states.entries) :
    (v.states.get x.2).name = x.1 := by
  have hname := h.filed m (hx.plainNames hv) x hmem
  obtain ⟨a, ha⟩ := hx.plainNames hv x.1 (mem_keys hmem)
  rw [hx.names x.2 (lt_of_name_text (hname.trans ha)), hname]

/-- More may be made while events and machines stay as they are. -/
theorem Regular.of_extends {w v : World} (h : w.Regular) (hx : Extends w v) (he : v.events = w.events)
    (hm : ∀ m, (v.machine m).states = (w.machine m).states ∧ (v.machine m).events = (w.machine m).events) :
    v.Regular where
  owned m x hmem := by
    rw [(hm m).2] at hmem
    rw [he]
    exact h.owned m x hmem
  filed m hv x hmem := by
    rw [(hm m).1] at hmem
    exact h.filed_of_extends hx hv hmem
  connected e hv x hmem t ht := by
    rw [he] at hv hmem ⊢
    exact hx.connects (h.connected e (hx.plainNames hv) x hmem t ht)

/-- Machines keep their states and events, and states and transitions their names and ends. -/
theorem Extends.of_registries {w v : World}
    (hs : v.states = w.states) (ht : v.transitions = w.transitions)
    (hm : ∀ m, ∀ k ∈ (w.machine m).states.keys, k ∈ (v.machine m).states.keys) : Extends w v :=
  ⟨fun _ _ => by rw [hs], Nat.le_of_eq (by rw [ht]), fun _ _ => by rw [ht]; exact ⟨rfl, rfl⟩, hm⟩

theorem extends_addState (w : World) (s : State) : Extends w (w.addState s).2 := by
  refine ⟨fun i hi => ?_, Nat.le_refl _, fun _ _ => ⟨rfl, rfl⟩, fun _ _ h => h⟩
  have hne : i ≠ w.states.next := Nat.ne_of_lt hi
  simp [addState, hne]

theorem extends_hookState (w : World) (s : StateId) (c : Callback) (stage : StateStage) :
    Extends w (w.updateState s (·.addCallback c stage)) := by
  refine ⟨fun i _ => ?_, Nat.le_refl _, fun _ _ => ⟨rfl, rfl⟩, fun _ _ h => h⟩
  by_cases hi : s = i
  · cases stage <;> simp [updateState, hi, State.addCallback, State.name]
  · simp [updateState, hi]

theorem extends_addTransition (w : World) (t : Transition) : Extends w (w.addTransition t).2 := by
  refine ⟨fun _ _ => rfl, by simp [addTransition], fun i hi => ?_, fun _ _ h => h⟩
  have hne : i ≠ w.transitions.next := Nat.ne_of_lt hi
  simp [addTransition, hne]

theorem extends_hookTransition (w : World) (t : TransitionId) (c : Callback) (stage : TransitionStage) :
    Extends w (w.updateTransition t (·.addCallback c stage)) := by
  refine ⟨fun _ _ => rfl, Heap.next_le_next_modify _ _ _, fun i _ => ?_, fun _ _ h => h⟩
  by_cases hi : t = i
  · cases stage <;> simp [updateTransition, hi, Transition.addCallback]
  · simp [updateTransition, hi]

/-- A name that is textual is a text. -/
theorem nameOf_text {w : World} {v : Value} {a : String} (h : (w.nameOf v).text? = some a) :
    w.nameOf v = .text a := by
  have named {x : Value} (h : x.registrationName.text? = some a) : x.registrationName = .text a := by
    cases x with
    | member e n textual own => simpa [Value.registrationName, Value.text?] using h
    | text b => simpa [Value.registrationName, Value.text?] using h
    | _ => cases h
  obtain ⟨x, hx⟩ : ∃ x : Value, w.nameOf v = x.registrationName := by
    cases hv : v with
    | state s => exact ⟨(w.states.get s).value, rfl⟩
    | _ => exact ⟨v, by rw [hv]; rfl⟩
  rw [hx] at h ⊢
  exact named h

/-- What is looked up with success has a text for a name, and is what is filed under it. -/
theorem lookupState_text {w : World} {m : MachineId} (hn : w.PlainNames m) {v : Value} {s : StateId}
    (h : w.lookupState m v = .ok s) :
    ∃ a : String, w.nameOf v = .text a ∧ w.lookupState m (.text a) = .ok s ∧
      (.text a, s) ∈ (w.machine m).states.entries := by
  have found := h
  unfold lookupState at h
  simp only [] at h
  split at h
  · split at h
    · rename_i s' hf
      cases h
      obtain ⟨k, hk, hmem⟩ := Table.mem_of_find? hf
      obtain ⟨a, rfl⟩ := hn k (mem_keys hmem)
      have name := nameOf_text (Value.text_beq_iff.mp hk)
      refine ⟨a, name, ?_, hmem⟩
      unfold lookupState at found ⊢
      rw [name] at found
      exact found
    · cases h
  · cases h

/-- A key of a machine can be looked up. -/
theorem lookupState_key {w : World} {m : MachineId} {a : String}
    (h : .text a ∈ (w.machine m).states.keys) : ∃ s, w.lookupState m (.text a) = .ok s := by
  obtain ⟨x, hx, hk⟩ := List.mem_map.mp h
  obtain ⟨s, hs⟩ := Table.find?_of_mem hx (by rw [hk]; exact ReflBEq.rfl)
  exact ⟨s, by simp [lookupState, nameOf, Value.registrationName, hs]⟩

/-- The name by which a registered state is referred to is a key. -/
theorem registeredName_mem {w : World} {m : MachineId} (hw : w.Regular) (hn : w.PlainNames m)
    {v name : Value} (h : w.registeredName m v = .ok name) : name ∈ (w.machine m).states.keys := by
  unfold registeredName at h
  split at h
  · rename_i s
    simp only [] at h
    split at h
    · rename_i howns
      cases h
      have hs : s ∈ (w.machine m).states.values := by simpa [owns] using howns
      obtain ⟨x, hx, rfl⟩ := List.mem_map.mp hs
      exact hw.filed m hn x hx ▸ mem_keys hx
    · cases h
  · cases hl : w.lookupState m v with
    | error f => simp [hl, Except.map] at h
    | ok s =>
      obtain ⟨a, ha, -, hmem⟩ := lookupState_text hn hl
      simp only [hl, Except.map, Except.ok.injEq] at h
      rw [← h, ha]
      exact mem_keys hmem

/-- The outcomes of a list, one by one. -/
theorem forall_mem_of_mapM {α β ε : Type} {f : α → Except ε β} {P : β → Prop}
    {xs : List α} {ys : List β} (hf : ∀ a ∈ xs, ∀ b, f a = .ok b → P b) (h : xs.mapM f = .ok ys) :
    ∀ y ∈ ys, P y := by
  induction xs generalizing ys with
  | nil =>
    rw [List.mapM_nil] at h
    cases h
    simp
  | cons x xs ih =>
    rw [List.mapM_cons] at h
    obtain ⟨y, hy, h⟩ := ok_of_bind h
    obtain ⟨rest, hrest, h⟩ := ok_of_bind h
    cases h
    intro z hz
    rcases List.mem_cons.mp hz with rfl | hz
    · exact hf x List.mem_cons_self _ hy
    · exact ih (fun a ha => hf a (List.mem_cons_of_mem _ ha)) hrest z hz

/-- The moves of a connection lead from registered states, and to one or nowhere. -/
theorem movesOf_mem {w : World} {m : MachineId} (hw : w.Regular) (hn : w.PlainNames m)
    {source dest : Value} {moves : List (Value × Value)} (h : w.movesOf m source dest = .ok moves) :
    ∀ move ∈ moves, move.1 ∈ (w.machine m).states.keys ∧
      (move.2 = .null ∨ move.2 ∈ (w.machine m).states.keys) := by
  obtain ⟨sources, hs, h⟩ := ok_of_bind h
  have hsources : ∀ s ∈ sources, s ∈ (w.machine m).states.keys := by
    unfold sourceNames at hs
    split at hs
    · cases hs
      exact fun _ hs => hs
    · exact forall_mem_of_mapM (fun _ _ _ => registeredName_mem hw hn) hs
  have hdest {s d : Value} (hs : s ∈ (w.machine m).states.keys) (h : w.destName m dest s = .ok d) :
      d = .null ∨ d ∈ (w.machine m).states.keys := by
    unfold destName at h
    split at h
    · cases h
      exact .inr hs
    · split at h
      · cases h
        exact .inl rfl
      · exact .inr (registeredName_mem hw hn h)
  refine forall_mem_of_mapM (fun s hs move hmove => ?_) h
  obtain ⟨d, hd, hmove⟩ := ok_of_bind hmove
  cases hmove
  exact ⟨hsources s hs, hdest (hsources s hs) hd⟩

/-- A candidate is put behind the others of its source. -/
theorem Regular.candidate {w : World} (h : w.Regular) {e : EventId} {t : TransitionId}
    (ht : w.PlainNames (w.events.get e).machine → t < w.transitions.next ∧
      (w.transitions.get t).source ∈ (w.machine (w.events.get e).machine).states.keys ∧
      ((w.transitions.get t).dest = .null ∨
        (w.transitions.get t).dest ∈ (w.machine (w.events.get e).machine).states.keys)) :
    (addCandidate e w t).Regular := by
  have same (i : EventId) : ((addCandidate e w t).events.get i).machine = (w.events.get i).machine := by
    by_cases hi : e = i
    · simp [addCandidate, updateEvent, hi]
    · simp [addCandidate, updateEvent, hi]
  refine ⟨fun m x hx => ?_, h.filed, fun i hn x hx u hu => ?_⟩
  · obtain ⟨hlt, hm⟩ := h.owned m x hx
    exact ⟨Nat.lt_of_lt_of_le hlt (Heap.next_le_next_modify _ _ _), (same x.2).trans hm⟩
  · rw [same i] at hn ⊢
    have hn : w.PlainNames (w.events.get i).machine := hn
    suffices w.Connects (w.events.get i).machine x.1 u from ⟨this.made, this.key, this.source, this.dest⟩
    by_cases hi : e = i
    · subst hi
      obtain ⟨made, source, dest⟩ := ht hn
      obtain ⟨a, ha⟩ := hn _ source
      simp only [addCandidate, updateEvent, Heap.get_modify, if_true] at hx
      rcases Table.mem_entries_insert hx with hx | ⟨hk, hx⟩
      · exact h.connected e hn x hx u hu
      · rw [hx] at hu
        rcases List.mem_append.mp hu with hu | hu
        · cases hf : (w.events.get e).candidates.find? (w.transitions.get t).source with
          | none => simp [hf] at hu
          | some ts =>
            rw [hf] at hu
            obtain ⟨k, hkey, hmem⟩ := Table.mem_of_find? hf
            have old := h.connected e hn (k, ts) hmem u hu
            -- both keys stand for one text, the common source
            obtain ⟨b, hb⟩ := hn _ old.source
            have hkb := old.key
            rw [hb, Value.beq_text_iff] at hkb
            rw [ha, Value.beq_text_iff] at hkey hk
            refine ⟨old.made, ?_, old.source, old.dest⟩
            rw [hb, Value.beq_text_iff, hk, ← hkey, hkb]
        · cases List.mem_singleton.mp hu
          exact ⟨made, hk, source, dest⟩
    · have hx' : x ∈ (w.events.get i).candidates.entries := by
        simpa [addCandidate, updateEvent, hi] using hx
      exact h.connected i hn x hx' u hu

theorem states_newEvent (w : World) (m n : MachineId) (trigger : Value) :
    ((w.newEvent m trigger).machine n).states = (w.machine n).states := by
  rw [newEvent, machine_updateMachine]
  split <;> rfl

theorem event_newEvent (w : World) (m : MachineId) (trigger : Value) (e : EventId) :
    (w.newEvent m trigger).events.get e =
      if e = w.events.next then { name := trigger, machine := m } else w.events.get e :=
  Heap.get_push ..

/-- A new event has no candidates yet and belongs to the machine that lists it. -/
theorem Regular.newEvent {w : World} (h : w.Regular) (m : MachineId) (trigger : Value) :
    (w.newEvent m trigger).Regular := by
  have extends' : Extends w (w.newEvent m trigger) :=
    .of_registries rfl rfl (fun n k hk => by rw [states_newEvent]; exact hk)
  have next : (w.newEvent m trigger).events.next = w.events.next + 1 := Heap.next_push ..
  refine ⟨fun n x hx => ?_, fun n hn x hx => ?_, fun e hn x hx t ht => ?_⟩
  · have old (hx : x ∈ (w.machine n).events.entries) : x.2 < (w.newEvent m trigger).events.next ∧
        ((w.newEvent m trigger).events.get x.2).machine = n := by
      obtain ⟨hlt, hm⟩ := h.owned n x hx
      rw [next, event_newEvent, if_neg (Nat.ne_of_lt hlt)]
      exact ⟨Nat.lt_succ_of_lt hlt, hm⟩
    have hx' := hx
    rw [World.newEvent, machine_updateMachine] at hx'
    split at hx'
    · rename_i hmn
      rcases Table.mem_entries_insert hx' with hx' | ⟨-, hx'⟩
      · exact old hx'
      · rw [hx', next, event_newEvent, if_pos rfl]
        exact ⟨Nat.lt_succ_self _, hmn⟩
    · exact old hx'
  · rw [states_newEvent] at hx
    exact h.filed n (extends'.plainNames hn) x hx
  · rw [event_newEvent] at hn hx ⊢
    split at hx
    · cases hx
    · rename_i he
      rw [if_neg he] at hn ⊢
      exact extends'.connects (h.connected e (extends'.plainNames hn) x hx t ht)

/-- The event of a trigger belongs to the machine, and nothing else is made for it. -/
theorem Regular.ensureEvent {w v : World} (h : w.Regular) {m : MachineId} {trigger : Value} {e : EventId}
    (he : w.ensureEvent m trigger = (e, v)) :
    v.Regular ∧ (v.events.get e).machine = m ∧ v.transitions = w.transitions ∧
      ∀ n, (v.machine n).states = (w.machine n).states := by
  unfold World.ensureEvent at he
  split at he
  · rename_i e' hf
    cases he
    obtain ⟨k, -, hmem⟩ := Table.mem_of_find? hf
    exact ⟨h, (h.owned m _ hmem).2, rfl, fun _ => rfl⟩
  · cases he
    refine ⟨h.newEvent m trigger, ?_, rfl, fun n => states_newEvent w m n trigger⟩
    rw [event_newEvent, if_pos rfl]

/-- Connecting two registered states keeps the registries in agreement. -/
theorem Regular.addMove {w : World} (h : w.Regular) {e : EventId} {hooks : Hooks} {move : Value × Value}
    (hm : w.PlainNames (w.events.get e).machine →
      move.1 ∈ (w.machine (w.events.get e).machine).states.keys ∧
        (move.2 = .null ∨ move.2 ∈ (w.machine (w.events.get e).machine).states.keys)) :
    (addMove hooks e w move).Regular := by
  have made : (w.addTransition (.ofHooks move.1 move.2 hooks)).2.Regular :=
    h.of_extends (extends_addTransition w _) rfl (fun _ => ⟨rfl, rfl⟩)
  have new : (w.addTransition (.ofHooks move.1 move.2 hooks)).2.transitions.get w.transitions.next =
      .ofHooks move.1 move.2 hooks := by simp [addTransition]
  refine made.candidate (fun hn => ?_)
  obtain ⟨hs, hd⟩ := hm hn
  have fresh : w.transitions.next <
      (w.addTransition (.ofHooks move.1 move.2 hooks)).2.transitions.next := by simp [addTransition]
  exact ⟨fresh, by rw [new]; exact hs, by rw [new]; exact hd⟩

theorem machine_addMove (hooks : Hooks) (e i : EventId) (w : World) (move : Value × Value) :
    ((addMove hooks e w move).events.get i).machine = (w.events.get i).machine := by
  by_cases hi : e = i
  · simp [addMove, addCandidate, updateEvent, addTransition, hi]
  · simp [addMove, addCandidate, updateEvent, addTransition, hi]

theorem Regular.addMoves {w : World} (h : w.Regular) {e : EventId} {hooks : Hooks}
    {moves : List (Value × Value)}
    (hm : w.PlainNames (w.events.get e).machine → ∀ move ∈ moves,
      move.1 ∈ (w.machine (w.events.get e).machine).states.keys ∧
        (move.2 = .null ∨ move.2 ∈ (w.machine (w.events.get e).machine).states.keys)) :
    (moves.foldl (World.addMove hooks e) w).Regular := by
  induction moves generalizing w with
  | nil => exact h
  | cons move moves ih =>
    refine ih (h.addMove (fun hn => hm hn move List.mem_cons_self)) ?_
    rw [machine_addMove]
    exact fun hn x hx => hm hn x (List.mem_cons_of_mem _ hx)

theorem Regular.connect {w v : World} (h : w.Regular) {m : MachineId} {trigger source dest : Value}
    {hooks : Hooks} (hc : w.connect m trigger source dest hooks = .ok v) : v.Regular := by
  unfold World.connect at hc
  simp only [] at hc
  split at hc
  · cases hc
  · obtain ⟨moves, hmoves, hc⟩ := ok_of_bind hc
    split at hc
    · cases hc
    · cases hc
      obtain ⟨hu, hm, -, hs⟩ := h.ensureEvent (Prod.eta (w.ensureEvent m trigger)).symm
      refine hu.addMoves (fun hn x hx => ?_)
      simp only [hm, hs]
      refine movesOf_mem h (fun k hk => ?_) hmoves x hx
      rw [hm] at hn
      exact hn k (by rw [hs]; exact hk)

/-- Filed candidates may become fewer. -/
theorem Regular.refile {w : World} (h : w.Regular) (e : EventId) {table : Table Value (List TransitionId)}
    (ht : ∀ x ∈ table.entries, x.2 = [] ∨
      ∃ ts, (x.1, ts) ∈ (w.events.get e).candidates.entries ∧ ∀ t ∈ x.2, t ∈ ts) :
    (w.updateEvent e (fun event => { event with candidates := table })).Regular := by
  have same (i : EventId) : ((w.updateEvent e (fun event =>
      { event with candidates := table })).events.get i).machine = (w.events.get i).machine := by
    by_cases hi : e = i <;> simp [updateEvent, hi]
  refine ⟨fun m x hx => ?_, h.filed, fun i hn x hx t hmem => ?_⟩
  · obtain ⟨hlt, hm⟩ := h.owned m x hx
    exact ⟨Nat.lt_of_lt_of_le hlt (Heap.next_le_next_modify _ _ _), (same x.2).trans hm⟩
  · rw [same i] at hn ⊢
    have hn : w.PlainNames (w.events.get i).machine := hn
    suffices w.Connects (w.events.get i).machine x.1 t from ⟨this.made, this.key, this.source, this.dest⟩
    by_cases hi : e = i
    · subst hi
      simp only [updateEvent, Heap.get_modify, if_true] at hx
      rcases ht x hx with hnil | ⟨ts, hts, hsub⟩
      · simp [hnil] at hmem
      · exact h.connected e hn (x.1, ts) hts t (hsub t hmem)
    · have hx' : x ∈ (w.events.get i).candidates.entries := by simpa [updateEvent, hi] using hx
      exact h.connected i hn x hx' t hmem

/-- A machine that keeps its states may list fewer events. -/
theorem Regular.updateMachine {w : World} (h : w.Regular) {m : MachineId} {f : Machine → Machine}
    (hs : (f (w.machine m)).states = (w.machine m).states)
    (he : ∀ x ∈ (f (w.machine m)).events.entries, x ∈ (w.machine m).events.entries) :
    (w.updateMachine m f).Regular := by
  have states (n : MachineId) : ((w.updateMachine m f).machine n).states = (w.machine n).states := by
    rw [machine_updateMachine]
    split
    · rename_i hmn
      exact hmn ▸ hs
    · rfl
  have grown : Extends w (w.updateMachine m f) :=
    .of_registries rfl rfl (fun n k hk => by rw [states]; exact hk)
  refine ⟨fun n x hx => h.owned n x ?_, fun n hn x hx => ?_, fun e hn x hx t ht => ?_⟩
  · rw [machine_updateMachine] at hx
    split at hx
    · rename_i hmn
      subst hmn
      exact he x hx
    · exact hx
  · rw [states] at hx
    exact h.filed n (grown.plainNames hn) x hx
  · exact grown.connects (h.connected e (grown.plainNames hn) x hx t ht)

theorem Regular.disconnect {w v : World} (h : w.Regular) {m : MachineId} {trigger source dest : Value}
    (hd : w.disconnect m trigger source dest = .ok v) : v.Regular := by
  obtain ⟨e, -, hd⟩ := ok_of_bind hd
  simp only [] at hd
  split at hd
  · cases hd
    exact h.updateMachine rfl (fun x hx => (List.mem_filter.mp hx).1)
  · cases hd
    refine h.refile e (fun x hx => .inr ?_)
    obtain ⟨c, hc, hx⟩ := List.mem_filterMap.mp hx
    split at hx
    · cases hx
    · cases hx
      exact ⟨c.2, hc, fun t ht => (List.mem_filter.mp ht).1⟩

/-- A state is registered under its name. -/
theorem Regular.enroll {w : World} (h : w.Regular) {m : MachineId} {s : StateId}
    (hnew : (w.machine m).states.contains (w.states.get s).name = false) :
    (w.updateMachine m (fun machine =>
      { machine with states := machine.states.insert (w.states.get s).name s })).Regular := by
  have hentries := Table.entries_insert_of_not_contains (a := s) hnew
  have grown : Extends w (w.updateMachine m (fun machine =>
      { machine with states := machine.states.insert (w.states.get s).name s })) := by
    refine .of_registries rfl rfl (fun n k hk => ?_)
    rw [machine_updateMachine]
    split
    · rename_i hmn
      subst hmn
      rw [Table.keys_insert_of_not_contains hnew]
      exact List.mem_append_left _ hk
    · exact hk
  refine ⟨fun n x hx => h.owned n x ?_, fun n hn x hx => ?_, fun e hn x hx t ht => ?_⟩
  · rw [machine_updateMachine] at hx
    split at hx
    · rename_i hmn
      exact hmn ▸ hx
    · exact hx
  · have old := h.filed n (grown.plainNames hn) x
    rw [machine_updateMachine] at hx
    split at hx
    · rename_i hmn
      subst hmn
      rw [hentries] at hx
      rcases List.mem_append.mp hx with hx | hx
      · exact old hx
      · cases List.mem_singleton.mp hx
        rfl
    · exact old hx
  · exact grown.connects (h.connected e (grown.plainNames hn) x hx t ht)

theorem Regular.makeMachine {w : World} (h : w.Regular) {machine : Machine} (hs : machine.states = {})
    (he : machine.events = {}) : { w with machines := w.machines.push machine }.Regular := by
  have same (m : MachineId) :
      ({ w with machines := w.machines.push machine }.machine m).states = (w.machine m).states ∧
        ({ w with machines := w.machines.push machine }.machine m).events = (w.machine m).events := by
    rcases machine_push w machine m with kept | ⟨old, new⟩
    · rw [kept]
      exact ⟨rfl, rfl⟩
    · rw [old, new, hs, he]
      exact ⟨rfl, rfl⟩
  exact h.of_extends (.of_registries rfl rfl (fun m k hk => by rw [(same m).1]; exact hk)) rfl same

theorem Regular.step {w v : World} (h : w.Regular) (hs : Change w v) : v.Regular := by
  cases hs with
  | aside ha =>
    refine h.of_extends (.of_registries ha.states ha.transitions (fun m k hk => ?_)) ha.events (fun m => ?_)
    · simpa [machine, ha.machines] using hk
    · simp [machine, ha.machines]
  | makeState s => exact h.of_extends (extends_addState w s) rfl (fun _ => ⟨rfl, rfl⟩)
  | enroll m s hk hnew => exact h.enroll hnew
  | hookState s c stage => exact h.of_extends (extends_hookState w s c stage) rfl (fun _ => ⟨rfl, rfl⟩)
  | makeTransition t => exact h.of_extends (extends_addTransition w t) rfl (fun _ => ⟨rfl, rfl⟩)
  | connect hc => exact h.connect hc
  | disconnect hd => exact h.disconnect hd
  | hookTransition t c stage =>
    exact h.of_extends (extends_hookTransition w t c stage) rfl (fun _ => ⟨rfl, rfl⟩)
  | @fileSource i e source _ =>
    refine h.refile e (fun x hx => ?_)
    rcases Table.mem_entries_insert hx with hx | ⟨-, hx⟩
    · exact .inr ⟨x.2, hx, fun _ ht => ht⟩
    · exact .inl hx
  | tune m hf =>
    obtain ⟨hs, he, -⟩ := hf (w.machine m)
    exact h.updateMachine hs (fun x hx => he ▸ hx)
  | makeMachine machine hs he => exact h.makeMachine hs he

/-- In every reachable world the registries agree with each other. -/
theorem Reachable.regular {w : World} (h : w.Reachable) : w.Regular := by
  obtain ⟨start, blank, steps⟩ := h
  induction steps with
  | refl =>
    refine ⟨fun m x hx => ?_, fun m _ x hx => ?_, fun e _ x hx => ?_⟩
    · rw [blank.machine] at hx
      cases hx
    · rw [blank.machine] at hx
      cases hx
    · rw [blank.event] at hx
      cases hx
  | tail _ step ih => exact ih.step step

/-- A state that was looked up is filed under its name. -/
theorem Regular.lookup_name {w : World} (h : w.Regular) {m : MachineId} (hn : w.PlainNames m) {v : Value}
    {s : StateId} (hs : w.lookupState m v = .ok s) :
    ∃ a : String, (w.states.get s).name = .text a ∧ w.lookupState m (.text a) = .ok s := by
  obtain ⟨a, -, hl, hmem⟩ := lookupState_text hn hs
  exact ⟨a, h.filed m hn _ hmem, hl⟩

/-- A transition leads from a registered state, and to one if it leads anywhere. -/
structure Leads (w : World) (m : MachineId) (s : StateId) (t : Transition) : Prop where
  source : ∃ a : String, t.source = .text a ∧ w.lookupState m (.text a) = .ok s
  dest : t.dest = .null ∨
    ∃ (a : String) (d : StateId), t.dest = .text a ∧ w.lookupState m (.text a) = .ok d

/-- The candidates for a state of a machine lead from it. -/
theorem Regular.leads {w : World} (h : w.Regular) {m : MachineId} (hn : w.PlainNames m) {e : EventId}
    (hm : (w.events.get e).machine = m) {v : Value} {s : StateId} (hs : w.lookupState m v = .ok s)
    {us : List TransitionId} (hu : (w.events.get e).candidates.find? (w.states.get s).name = some us) :
    ∀ u ∈ us, w.Leads m s (w.transitions.get u) := by
  intro u hmem
  obtain ⟨b, hb, hl⟩ := h.lookup_name hn hs
  rw [hb] at hu
  obtain ⟨k, hk, hentry⟩ := Table.mem_of_find? hu
  have connects := h.connected e (hm ▸ hn) (k, us) hentry u hmem
  rw [hm] at connects
  obtain ⟨a, ha⟩ := hn _ connects.source
  have hsame := connects.key
  rw [ha, Value.beq_text_iff, Value.beq_text_iff.mp hk] at hsame
  cases hsame
  refine ⟨⟨b, ha, hl⟩, connects.dest.imp_right (fun hd => ?_)⟩
  obtain ⟨c, hc⟩ := hn _ hd
  rw [hc] at hd
  obtain ⟨d, hd⟩ := lookupState_key hd
  exact ⟨c, d, hc, hd⟩

end StateEngine.World
