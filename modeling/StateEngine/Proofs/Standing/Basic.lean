import StateEngine.Proofs.Journey.History

/-! In what states the models are that are bound to a machine. As long as only the machine writes where it keeps their
states, and writes no state there but those it has registered, each of them is in one of these. -/
namespace StateEngine
open Act Relation

namespace World

variable {m n : MachineId} {x : String} {w v u : World}

/-- A machine has registered its states under texts, and no transition leads to a state object that it was given. -/
structure Textual (w : World) (m : MachineId) : Prop where
  names : w.PlainNames m
  dests : ∀ t s, (w.transitions.get t).dest ≠ .state s

/-- A machine that shares the place where it keeps the states of models with no other one. -/
structure Sheltered (w : World) (m : MachineId) : Prop extends Textual w m where
  alone : ∀ n < w.machines.next, n ≠ m → (w.machine m).accessor.Apart (w.machine n).accessor

theorem Textual.earlier (h : v.Textual m) (hv : Changes w v) : w.Textual m := by
  have extends' := (Changes.extends hv).1
  refine ⟨extends'.plainNames h.names, fun t s ht => h.dests t s ?_⟩
  have made : t < w.transitions.next := by
    refine Nat.lt_of_not_le (fun hle => ?_)
    rw [Heap.get_of_next_le hle] at ht
    cases ht
  rw [(extends'.moves t made).2, ht]

theorem Sheltered.earlier (h : v.Sheltered m) (hm : m < w.machines.next) (hv : Changes w v) : w.Sheltered m := by
  obtain ⟨more, same⟩ := hv.accessor
  refine ⟨h.toTextual.earlier hv, fun n hn hne => ?_⟩
  rw [← same m hm, ← same n hn]
  exact h.alone n (Nat.lt_of_lt_of_le hn more) hne

theorem made_of_find {k : Value} {s : StateId} (h : (w.machine n).states.find? k = some s) : n < w.machines.next := by
  refine Nat.lt_of_not_le (fun hle => ?_)
  rw [World.machine, Heap.get_of_next_le hle] at h
  cases h

/-- A reference gives a state to a machine `n` that has been made, and to `m` itself one that it has registered. -/
def Fits (m n : MachineId) (state : Value) (w : World) : Prop :=
  w.Textual m → ∀ s, state = .state s → n < w.machines.next ∧ (n = m → w.owns m s = true)

/-- A value that a machine `n` may write for a state is, if `n` is `m` itself, the value of a state that it finds by
its name. -/
def Suits (m n : MachineId) (a : Value) (w : World) : Prop :=
  w.Textual m → n < w.machines.next ∧ (n = m → ∃ s b, a = (w.states.get s).value ∧
    (w.states.get s).name = .text b ∧ w.lookupState m (.text b) = .ok s)

/-- What holds of a world and of all that become of it. -/
def Stable (I : World → Prop) : Prop := ∀ w v, Changes w v → I w → I v

theorem stable_fits (m n : MachineId) (state : Value) : Stable (Fits m n state) := by
  intro w v hv h ht s hs
  obtain ⟨made, owned⟩ := h (ht.earlier hv) s hs
  exact ⟨Nat.lt_of_lt_of_le made hv.accessor.1, fun hn => hv.owns (owned hn)⟩

theorem stable_suits (m n : MachineId) (a : Value) : Stable (Suits m n a) := by
  intro w v hv h ht
  obtain ⟨made, known⟩ := h (ht.earlier hv)
  refine ⟨Nat.lt_of_lt_of_le made hv.accessor.1, fun hn => ?_⟩
  obtain ⟨s, b, rfl, named, found⟩ := known hn
  have hs : s < w.states.next := lt_of_name_text named
  exact ⟨s, b, (hv.value hs).symm, ((Changes.extends hv).1.names s hs).trans named, hv.lookup_text found⟩

theorem stable_made (n : MachineId) : Stable (fun w => n < w.machines.next) :=
  fun _ _ hv h => Nat.lt_of_lt_of_le h hv.accessor.1

theorem stable_true : Stable (fun _ => True) := fun _ _ _ _ => trivial

theorem Stable.and {I J : World → Prop} (hI : Stable I) (hJ : Stable J) : Stable (fun w => I w ∧ J w) :=
  fun w v hv h => ⟨hI w v hv h.1, hJ w v hv h.2⟩

/-- The state for which a fitting reference stands has a value that suits. -/
theorem suits_of_fits {state : Value} {s : StateId} (hw : w.Reachable) (h : Fits m n state w)
    (hs : w.stateFor n state = .ok s) : Suits m n (w.states.get s).value w := by
  intro ht
  have by_name (hs : w.lookupState n state = .ok s) : n < w.machines.next ∧
      (n = m → ∃ s' b, (w.states.get s).value = (w.states.get s').value ∧
        (w.states.get s').name = .text b ∧ w.lookupState m (.text b) = .ok s') := by
    constructor
    · unfold lookupState at hs
      simp only [] at hs
      split at hs
      · split at hs
        · rename_i found
          exact made_of_find found
        · cases hs
      · cases hs
    · rintro rfl
      obtain ⟨b, named, found⟩ := hw.regular.lookup_name ht.names hs
      exact ⟨s, b, rfl, named, found⟩
  cases state with
  | state s' =>
    cases hs
    obtain ⟨made, owned⟩ := h ht s rfl
    refine ⟨made, fun hn => ?_⟩
    obtain ⟨b, named, found⟩ := hw.lookup_owned ht.names (owned hn)
    exact ⟨s, b, rfl, named, found⟩
  | _ => exact by_name hs

/-- The models bound to a machine are in states that it has registered, once it has been made and if it is sheltered;
and what else this rests on. -/
structure Standing (m : MachineId) (w : World) : Prop where
  reachable : w.Reachable
  initial : w.PlainNames m → ∀ s, (w.machine m).initial ≠ .state s
  rosters : ∀ n < w.machines.next, (w.machine n).roster < w.rosters.next ∧
    ∀ k < w.machines.next, (w.machine k).roster = (w.machine n).roster → k = n
  bound : m < w.machines.next → w.Sheltered m → ∀ y ∈ w.boundModels m, ∃ x a s, y = .model x ∧ w.In m x a s

/-- Where nothing has been made, nothing is bound. -/
theorem Blank.standing (h : w.Blank) (m : MachineId) : Standing m w where
  reachable := ⟨w, h, .refl⟩
  initial _ s := by
    rw [h.machine]
    nofun
  rosters n hn := by
    rw [h.machines] at hn
    exact absurd hn (Nat.not_lt_zero n)
  bound hm := by
    rw [h.machines] at hm
    exact absurd hm (Nat.not_lt_zero m)

/-- More is registered or noted, and neither a roster nor the state of a model is touched. -/
structure Undisturbed (m : MachineId) (w v : World) : Prop where
  changes : Changes w v
  holds : ∀ x b, w.Holds m x b → v.Holds m x b
  count : v.machines.next = w.machines.next
  rosters : v.rosters = w.rosters
  seats : ∀ n, (v.machine n).roster = (w.machine n).roster ∧ (v.machine n).initial = (w.machine n).initial

theorem Undisturbed.standing (h : Undisturbed m w v) (hw : Standing m w) : Standing m v where
  reachable := hw.reachable.later h.changes
  initial hn := by
    rw [(h.seats m).2]
    exact hw.initial ((Changes.extends h.changes).1.plainNames hn)
  rosters n hn := by
    rw [h.count] at hn
    rw [h.rosters, (h.seats n).1]
    refine ⟨(hw.rosters n hn).1, fun k hk same => ?_⟩
    rw [h.count] at hk
    exact (hw.rosters n hn).2 k hk (by rw [← (h.seats k).1, same])
  bound hm hs y hy := by
    rw [h.count] at hm
    have hy : y ∈ w.boundModels m := by
      rw [boundModels, h.rosters, (h.seats m).1] at hy
      exact hy
    obtain ⟨x, a, s, rfl, here⟩ := hw.bound hm (hs.earlier hm h.changes) y hy
    exact ⟨x, a, s, rfl, here.later h.changes (h.holds x)⟩

theorem undisturbed_of_rests (h : ∀ x, Rests m x w v) (count : v.machines.next = w.machines.next)
    (rosters : v.rosters = w.rosters)
    (seats : ∀ n, (v.machine n).roster = (w.machine n).roster ∧ (v.machine n).initial = (w.machine n).initial) :
    Undisturbed m w v :=
  ⟨.single (h "").1, fun x => (h x).2, count, rosters, seats⟩

theorem undisturbed_aside (h : Aside w v) (hx : v.models = w.models) (hl : v.ledgers = w.ledgers)
    (hr : v.rosters = w.rosters) : Undisturbed m w v := by
  refine undisturbed_of_rests (fun x => rests_aside h hx (fun _ => by rw [hl])) (by rw [h.machines]) hr (fun n => ?_)
  rw [machine, machine, h.machines]
  exact ⟨rfl, rfl⟩

/-- A machine that has been made may be tuned, apart from its roster and its initial state. -/
theorem undisturbed_tune {f : Machine → Machine} (hn : n < w.machines.next) (hf : Tunes f)
    (seats : ∀ machine, (f machine).roster = machine.roster ∧ (f machine).initial = machine.initial) :
    Undisturbed m w (w.updateMachine n f) := by
  refine undisturbed_of_rests (fun x => rests_tune hf) (Heap.next_modify hn f) rfl (fun k => ?_)
  rw [machine_updateMachine]
  split
  · exact seats _
  · exact ⟨rfl, rfl⟩

theorem undisturbed_relisted (h : Relisted w v) (hc : Change w v) (count : v.machines.next = w.machines.next) :
    Undisturbed m w v := by
  refine undisturbed_of_rests (fun x => h.rests hc) count (by rw [h.rest]) (fun k => ?_)
  obtain ⟨_, hk⟩ := h.machine k
  rw [hk]
  exact ⟨rfl, rfl⟩

theorem undisturbed_connect {trigger source dest : Value} {hooks : Hooks} (hn : n < w.machines.next)
    (h : w.connect n trigger source dest hooks = .ok v) : Undisturbed m w v := by
  refine undisturbed_relisted (relisted_connect h) (.connect h) ?_
  obtain ⟨-, moves, -, rfl⟩ := connect_cases h
  obtain ⟨-, -, -, machines⟩ := event_addMoves hooks (w.ensureEvent n trigger).1 0 moves (w.ensureEvent n trigger).2
  rw [machines]
  rcases ensureEvent_cases w n trigger with ⟨e, -, hens⟩ | ⟨-, hens⟩ <;> rw [hens]
  exact Heap.next_modify hn _

theorem undisturbed_disconnect {trigger source dest : Value} (hn : n < w.machines.next)
    (h : w.disconnect n trigger source dest = .ok v) : Undisturbed m w v := by
  refine undisturbed_relisted (relisted_disconnect h) (.disconnect h) ?_
  obtain ⟨e, -, ⟨-, rfl⟩ | ⟨-, rfl⟩⟩ := disconnect_cases h
  · exact Heap.next_modify hn _
  · rfl

theorem undisturbed_enroll {s : StateId} (hn : n < w.machines.next) (hk : (w.states.get s).name.hashable = true)
    (hnew : (w.machine n).states.contains (w.states.get s).name = false) :
    Undisturbed m w (w.updateMachine n (fun machine =>
      { machine with states := machine.states.insert (w.states.get s).name s })) := by
  refine undisturbed_of_rests (fun x => .of_same (.enroll w n s hk hnew) ?_ rfl (fun _ => rfl))
    (Heap.next_modify hn _) rfl (fun k => ?_)
  · rw [machine_updateMachine]
    split <;> rfl
  · rw [machine_updateMachine]
    split <;> exact ⟨rfl, rfl⟩

/-- Making a machine gives it a roster of its own, which is empty. -/
theorem standing_makeMachine {plan : Blueprint} (h : w.makeMachine plan = .ok (n, v)) (hw : Standing m w) :
    Standing m v := by
  have changes := changes_makeMachine h
  have later (hm : m < w.machines.next) (x : String) (b : Value) (held : w.Holds m x b) : v.Holds m x b :=
    holds_of_rests (rests_makeMachine hm h) held
  obtain ⟨machine, ledgers, -, -, -, hi, hr, rfl⟩ := makeMachine_cases h
  have old {k : MachineId} (hk : k < w.machines.next) :
      ({ w with ledgers := ledgers, rosters := w.rosters.push [], machines := w.machines.push machine } :
        World).machine k = w.machine k := by
    rw [World.machine, Heap.get_push, if_neg (Nat.ne_of_lt hk)]
    rfl
  have new : ({ w with ledgers := ledgers, rosters := w.rosters.push [], machines := w.machines.push machine } :
        World).machine w.machines.next = machine := by
    rw [World.machine, Heap.get_push, if_pos rfl]
  have sorts {k : MachineId} (hk : k < (w.machines.push machine).next) :
      k < w.machines.next ∨ k = w.machines.next := by
    rw [Heap.next_push] at hk
    exact Nat.lt_succ_iff_lt_or_eq.mp hk
  refine ⟨hw.reachable.later changes, fun hn s => ?_, fun k hk => ?_, fun hm hs y hy => ?_⟩
  · rcases machine_push w machine m with same | ⟨-, fresh⟩
    · exact (congrArg Machine.initial same).trans_ne (hw.initial ((Changes.extends changes).1.plainNames hn) s)
    · intro named
      have none : machine.initial = .state s := (congrArg Machine.initial fresh).symm.trans named
      rw [hi] at none
      cases none
  · have seat {j : MachineId} (hj : j < w.machines.next) : (w.machine j).roster < w.rosters.next :=
      (hw.rosters j hj).1
    have rosters : (w.rosters.push []).next = w.rosters.next + 1 := Heap.next_push ..
    rcases sorts hk with hk | rfl
    · rw [old hk]
      refine ⟨rosters ▸ Nat.lt_succ_of_lt (seat hk), fun j hj same => ?_⟩
      rcases sorts hj with hj | rfl
      · rw [old hj] at same
        exact (hw.rosters k hk).2 j hj same
      · rw [new, hr] at same
        exact absurd same.symm (Nat.ne_of_lt (seat hk))
    · rw [new, hr]
      refine ⟨rosters ▸ Nat.lt_succ_self _, fun j hj same => ?_⟩
      rcases sorts hj with hj | rfl
      · rw [old hj] at same
        exact absurd same (Nat.ne_of_lt (seat hj))
      · rfl
  · rcases sorts hm with hm | rfl
    · have hy : y ∈ w.boundModels m := by
        rw [boundModels, old hm, Heap.get_push, if_neg (Nat.ne_of_lt (hw.rosters m hm).1)] at hy
        exact hy
      obtain ⟨x, a, s, rfl, here⟩ := hw.bound hm (hs.earlier hm changes) y hy
      exact ⟨x, a, s, rfl, here.later changes (later hm x)⟩
    · rw [boundModels, new, hr, Heap.get_push, if_pos rfl] at hy
      cases hy

/-- Models are unbound by making a roster of those that stay. -/
theorem standing_unbind (hw : Standing m w) (hn : n < w.machines.next) {kept : List Value}
    (hk : ∀ y ∈ kept, y ∈ w.boundModels n) :
    Standing m ({ w with rosters := w.rosters.push kept }.updateMachine n
      (fun machine => { machine with roster := w.rosters.next })) := by
  obtain ⟨u, hu⟩ : ∃ u, u = { w with rosters := w.rosters.push kept } := ⟨_, rfl⟩
  obtain ⟨v, hv⟩ : ∃ v, v = u.updateMachine n (fun machine => { machine with roster := w.rosters.next }) := ⟨_, rfl⟩
  rw [← hu, ← hv]
  have pushed : Aside w u := by
    rw [hu]
    exact ⟨rfl, rfl, rfl, rfl⟩
  have rests (x : String) : Rests m x u v := hv ▸ rests_tune (fun _ => ⟨rfl, rfl, rfl⟩)
  have changes : Changes w v := pushed.steps.tail (rests "").1
  have count : v.machines.next = w.machines.next := by
    rw [hv, hu]
    exact Heap.next_modify hn _
  have rosters : v.rosters = w.rosters.push kept := by rw [hv, hu]; rfl
  have seat (k : MachineId) : (v.machine k).initial = (w.machine k).initial ∧
      (v.machine k).roster = if n = k then w.rosters.next else (w.machine k).roster := by
    rw [hv, machine_updateMachine, World.machine, World.machine, pushed.machines]
    split <;> exact ⟨rfl, rfl⟩
  refine ⟨hw.reachable.later changes, fun hp => ?_, fun k hk => ?_, fun hm hs y hy => ?_⟩
  · rw [(seat m).1]
    exact hw.initial ((Changes.extends changes).1.plainNames hp)
  · rw [count] at hk
    have old (j : MachineId) (hj : j < w.machines.next) := Nat.ne_of_lt (hw.rosters j hj).1
    rw [(seat k).2, rosters, Heap.next_push]
    constructor
    · split
      · exact Nat.lt_succ_self _
      · exact Nat.lt_succ_of_lt (hw.rosters k hk).1
    · intro j hj same
      rw [count] at hj
      rw [(seat j).2] at same
      split at same <;> split at same
      · rename_i hnj hnk
        exact hnj.symm.trans hnk
      · exact absurd same.symm (old k hk)
      · exact absurd same (old j hj)
      · exact (hw.rosters k hk).2 j hj same
  · rw [count] at hm
    have hy : y ∈ w.boundModels m := by
      rw [boundModels, rosters, (seat m).2] at hy
      split at hy
      · rename_i hnm
        rw [Heap.get_push, if_pos rfl] at hy
        exact hnm ▸ hk y hy
      · rw [Heap.get_push, if_neg (Nat.ne_of_lt (hw.rosters m hm).1)] at hy
        exact hy
    obtain ⟨x, a, s, rfl, here⟩ := hw.bound hm (hs.earlier hm changes) y hy
    refine ⟨x, a, s, rfl, here.later changes (fun b held => (rests x).2 b ?_)⟩
    rw [hu]
    exact held.of_same rfl rfl (fun _ => rfl)

/-- A model that is in a registered state may join the roster of the machine. -/
theorem standing_join (hw : Standing m w) (hn : n < w.machines.next) {y : Value}
    (hy : n = m → w.Sheltered m → ∃ x a s, y = .model x ∧ w.In m x a s) :
    Standing m { w with rosters := w.rosters.modify (w.machine n).roster (· ++ [y]) } := by
  obtain ⟨v, hv⟩ : ∃ v, v = { w with rosters := w.rosters.modify (w.machine n).roster (· ++ [y]) } := ⟨_, rfl⟩
  rw [← hv]
  have aside : Aside w v := by
    rw [hv]
    exact ⟨rfl, rfl, rfl, rfl⟩
  have machine (k : MachineId) : v.machine k = w.machine k := by rw [World.machine, World.machine, aside.machines]
  have rosters : v.rosters = w.rosters.modify (w.machine n).roster (· ++ [y]) := by rw [hv]
  refine ⟨hw.reachable.later aside.steps, fun hp => ?_, fun k hk => ?_, fun hm hs z hz => ?_⟩
  · rw [machine]
    exact hw.initial ((Changes.extends aside.steps).1.plainNames hp)
  · rw [aside.machines] at hk ⊢
    simp only [machine, rosters]
    exact ⟨Nat.lt_of_lt_of_le (hw.rosters k hk).1 (Heap.next_le_next_modify _ _ _), (hw.rosters k hk).2⟩
  · rw [aside.machines] at hm
    have hs : w.Sheltered m := hs.earlier hm aside.steps
    suffices ∃ x a s, z = .model x ∧ w.In m x a s by
      obtain ⟨x, a, s, rfl, here⟩ := this
      refine ⟨x, a, s, rfl, here.later aside.steps (fun b held => ?_)⟩
      rw [hv]
      exact held.of_same rfl rfl (fun _ => rfl)
    rw [boundModels, machine, rosters, Heap.get_modify] at hz
    split at hz
    · rename_i same
      rcases List.mem_append.mp hz with old | new
      · exact hw.bound hm hs z old
      · rw [List.mem_singleton.mp new]
        exact hy ((hw.rosters m hm).2 n hn same) hs
    · exact hw.bound hm hs z hz

/-- A machine may settle on any name that is none of a state object. -/
theorem standing_initial (hw : Standing m w) (hn : n < w.machines.next) {name : Value}
    (hname : n = m → w.PlainNames m → ∀ s, name ≠ .state s) :
    Standing m (w.updateMachine n (fun machine => { machine with initial := name })) := by
  have rests (x : String) : Rests m x w (w.updateMachine n (fun machine => { machine with initial := name })) :=
    rests_tune (fun _ => ⟨rfl, rfl, rfl⟩)
  have changes : Changes w _ := .single (rests "").1
  have count : (w.machines.modify n (fun machine => { machine with initial := name })).next = w.machines.next :=
    Heap.next_modify hn _
  have seat (k : MachineId) : ((w.updateMachine n (fun machine => { machine with initial := name })).machine k).roster =
      (w.machine k).roster := by
    rw [machine_updateMachine]
    split <;> rfl
  refine ⟨hw.reachable.later changes, fun hp => ?_, fun k hk => ?_, fun hm hs y hy => ?_⟩
  · have hp := (Changes.extends changes).1.plainNames hp
    rw [machine_updateMachine]
    split
    · rename_i hnm
      exact hname hnm hp
    · exact hw.initial hp
  · rw [seat]
    refine ⟨(hw.rosters k (count ▸ hk)).1, fun j hj same => ?_⟩
    rw [seat] at same
    exact (hw.rosters k (count ▸ hk)).2 j (count ▸ hj) same
  · have hm : m < w.machines.next := count ▸ hm
    have hy : y ∈ w.boundModels m := by
      rw [boundModels, seat] at hy
      exact hy
    obtain ⟨x, a, s, rfl, here⟩ := hw.bound hm (hs.earlier hm changes) y hy
    exact ⟨x, a, s, rfl, here.later changes (rests x).2⟩

theorem writeState_error {y a : Value} {e : Stop} (h : Engine.writeState n y a w = (.error e, v)) : v = w := by
  unfold Engine.writeState at h
  rw [bind_of_ok (get_apply w)] at h
  cases hacc : (w.machine n).accessor with
  | field name =>
    simp only [hacc] at h
    cases hwrite : w.writeAttribute y name a with
    | error f =>
      rw [advance_error hwrite] at h
      exact (Prod.mk.inj h).2.symm
    | ok u =>
      rw [advance_ok hwrite] at h
      cases h
  | ledger name id =>
    simp only [hacc, change_apply] at h
    cases h

/-- What stands beside the machines may change, if bound models are in registered states then too. -/
theorem standing_aside (hw : Standing m w) (aside : Aside w v) (rosters : v.rosters = w.rosters)
    (h : m < w.machines.next → w.Sheltered m → ∀ x a s, .model x ∈ w.boundModels m → w.In m x a s →
      ∃ a s, v.In m x a s) : Standing m v := by
  have machine (k : MachineId) : v.machine k = w.machine k := by rw [World.machine, World.machine, aside.machines]
  refine ⟨hw.reachable.later aside.steps, fun hn => ?_, fun k hk => ?_, fun hm hs y hy => ?_⟩
  · rw [machine]
    exact hw.initial ((Changes.extends aside.steps).1.plainNames hn)
  · rw [aside.machines] at hk ⊢
    simp only [machine, rosters]
    exact hw.rosters k hk
  · rw [aside.machines] at hm
    have hs : w.Sheltered m := hs.earlier hm aside.steps
    rw [boundModels, machine, rosters] at hy
    obtain ⟨x, a, s, rfl, here⟩ := hw.bound hm hs y hy
    obtain ⟨b, d, there⟩ := h hm hs x a s hy here
    exact ⟨x, b, d, rfl, there⟩

/-- Writing a value that suits leaves every bound model in a registered state, the one written included. -/
theorem standing_writeState (hw : Standing m w) {y a : Value} (h : Suits m n a w) :
    Standing m (Engine.writeState n y a w).2 := by
  have written := written_writeState n y a w
  have wrote : (Engine.writeState n y a w) = ((Engine.writeState n y a w).1, (Engine.writeState n y a w).2) := rfl
  generalize (Engine.writeState n y a w).1 = r, (Engine.writeState n y a w).2 = v at written wrote
  have aside : Aside w v := by
    rw [show v = _ from written]
    exact ⟨rfl, rfl, rfl, rfl⟩
  refine standing_aside hw aside (by rw [show v = _ from written]) (fun hm hs x b s _ here => ?_)
  obtain ⟨made, known⟩ := h hs.toTextual
  have other (apart : y = .model x → w.Elsewhere m n) : ∃ b s, v.In m x b s := by
    have same := rests_writeState (a := a) apart
    rw [wrote] at same
    rcases same with same | rests
    · rw [show v = w from same]
      exact ⟨b, s, here⟩
    · exact ⟨b, s, here.stay rests⟩
  by_cases hnm : n = m
  · by_cases hyx : y = .model x
    · subst hnm hyx
      cases r with
      | error e =>
        rw [writeState_error wrote]
        exact ⟨b, s, here⟩
      | ok _ =>
        obtain ⟨d, c, rfl, named, found⟩ := known rfl
        refine ⟨c, d, ?_, aside.steps.lookup_text found, ?_⟩
        · rw [aside.states]
          exact named
        · rw [aside.states]
          exact (holds_of_writeState wrote).1
    · exact other (fun same => absurd same hyx)
  · exact other (fun _ => ⟨made, hs.alone n made hnm⟩)

/-- Attributes of models may be written or removed, but not the one in which a bound model keeps its state. -/
theorem standing_attribute (hw : Standing m w) (hv : Noted w v)
    (h : m < w.machines.next → ∀ x, .model x ∈ w.boundModels m → Rests m x w v) : Standing m v :=
  standing_aside hw hv.aside (by rw [hv.rest]) (fun hm _ x a s hx here => ⟨a, s, here.stay (h hm x hx)⟩)

end World

end StateEngine
