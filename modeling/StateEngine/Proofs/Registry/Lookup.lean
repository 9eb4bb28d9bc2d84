import StateEngine.Proofs.Registry.Filing

/-! What is registered under a name stays there. So a transition that has been filed finds the states it
leads from and to at every later moment, whatever callbacks do meanwhile. -/
namespace StateEngine
open Act Relation

namespace Value

theorem amount_of_text {v : Value} {a : String} (h : v.text? = some a) : v.amount? = none := by
  cases v <;> first | rfl | cases h

/-- As a key a text equals what is the same text. -/
theorem beq_iff_of_text {v w : Value} {a : String} (hv : v.text? = some a) : (v == w) = true ↔ w.text? = some a := by
  have atoms : v.same w = v.sameAtom w := by
    cases v <;> first | simp only [same] | cases hv
  have double : v.sameDouble w = false := by
    cases v <;> first | rfl | cases hv
  change (v.sameDouble w || v.same w) = true ↔ _
  rw [double, Bool.false_or, atoms]
  unfold sameAtom
  rw [amount_of_text hv, hv]
  cases hw : w.text? with
  | none => cases w.amount? <;> simp
  | some b =>
    rw [amount_of_text hw]
    simp only [beq_iff_eq, Option.some.injEq]
    exact eq_comm

theorem beq_iff_text_of {v w : Value} {a : String} (hw : w.text? = some a) : (v == w) = true ↔ v.text? = some a := by
  cases hv : v.text? with
  | some b =>
    rw [beq_iff_of_text hv, hw]
    simp only [Option.some.injEq]
    exact eq_comm
  | none =>
    have double : v.sameDouble w = false := by
      cases w <;> first | (cases hw; done) | (cases v <;> rfl)
    have differ : v.same w = false := by
      cases v with
      | list | tuple | map | record => cases w <;> first | (cases hw; done) | simp [same]
      | _ =>
        simp only [same]
        unfold sameAtom
        rw [amount_of_text hw, hw, hv]
        rfl
    change (v.sameDouble w || v.same w) = true ↔ _
    rw [double, differ]
    simp

end Value

namespace Table

variable {α : Type}

/-- No key comes twice. -/
def Distinct (t : Table Value α) : Prop := t.entries.Pairwise (fun x y => (x.1 == y.1) = false)

theorem Distinct.insert {t : Table Value α} (h : t.Distinct) {key : Value} (hnew : t.contains key = false) (a : α) :
    (t.insert key a).Distinct := by
  unfold Distinct
  rw [entries_insert_of_not_contains hnew, List.pairwise_append]
  refine ⟨h, List.pairwise_singleton _ _, fun x hx y hy => ?_⟩
  obtain rfl := List.mem_singleton.mp hy
  refine Bool.eq_false_iff.mpr (fun same => ?_)
  obtain ⟨other, found⟩ := find?_of_mem hx same
  rw [contains, found] at hnew
  cases hnew

/-- What is entered under a text is what is found under it. -/
theorem Distinct.find_text {t : Table Value α} (h : t.Distinct) {x : Value × α} (hx : x ∈ t.entries) {s : String}
    (hk : x.1.text? = some s) : t.find? (.text s) = some x.2 := by
  obtain ⟨a, ha⟩ := find?_of_mem hx (Value.beq_text_iff.mpr hk)
  obtain ⟨key, hkey, hmem⟩ := mem_of_find? ha
  have same {y z : Value × α} (hy : y.1.text? = some s) (hz : z.1.text? = some s) : (y.1 == z.1) ≠ false := by
    rw [(Value.beq_iff_of_text hy).mpr hz]
    nofun
  obtain ⟨i, hi, rfl⟩ := List.getElem_of_mem hx
  obtain ⟨j, hj, hother⟩ := List.getElem_of_mem hmem
  have hkey' : t.entries[j].1.text? = some s := by
    rw [hother]
    exact Value.beq_text_iff.mp hkey
  rcases Nat.lt_trichotomy i j with hij | rfl | hji
  · exact absurd (List.pairwise_iff_getElem.mp h i j hi hj hij) (same hk hkey')
  · rw [ha, hother]
  · exact absurd (List.pairwise_iff_getElem.mp h j i hj hi hji) (same hkey' hk)

end Table

namespace World

variable {w v u : World} {m : MachineId}

theorem Relisted.states (h : Relisted w v) (n : MachineId) : (v.machine n).states = (w.machine n).states := by
  obtain ⟨_, hn⟩ := h.machine n
  rw [hn]

/-- A machine keeps its states, or registers one more under a new name. -/
theorem Change.states (h : Change w v) (n : MachineId) :
    (v.machine n).states = (w.machine n).states ∨
      ∃ k s, (w.machine n).states.contains k = false ∧
        (v.machine n).states = (w.machine n).states.insert k s := by
  cases h with
  | aside h => exact .inl (by rw [machine, machine, h.machines])
  | makeState s => exact .inl rfl
  | enroll m s hk hnew =>
    rw [machine_updateMachine]
    split
    · rename_i hmn
      subst hmn
      exact .inr ⟨_, s, hnew, rfl⟩
    · exact .inl rfl
  | hookState s c stage => exact .inl rfl
  | makeTransition t => exact .inl rfl
  | connect h => exact .inl ((relisted_connect h).states n)
  | disconnect h => exact .inl ((relisted_disconnect h).states n)
  | hookTransition t c stage => exact .inl rfl
  | fileSource _ => exact .inl rfl
  | tune m hf =>
    rw [machine_updateMachine]
    split
    · exact .inl (hf _).1
    · exact .inl rfl
  | makeMachine machine hs he =>
    rcases machine_push w machine n with kept | ⟨old, new⟩
    · exact .inl (by rw [kept])
    · exact .inl (by rw [old, new, hs]; rfl)

theorem Change.keys (h : Change w v) (n : MachineId) :
    ∀ k ∈ (w.machine n).states.keys, k ∈ (v.machine n).states.keys := by
  intro k hk
  rcases h.states n with same | ⟨_, _, hnew, more⟩
  · rwa [same]
  · rw [more, Table.keys_insert_of_not_contains hnew]
    exact List.mem_append_left _ hk

theorem Change.find (h : Change w v) {k : Value} {s : StateId}
    (hf : (w.machine m).states.find? k = some s) : (v.machine m).states.find? k = some s := by
  rcases h.states m with same | ⟨_, _, hnew, more⟩
  · rwa [same]
  · rw [more]
    exact Table.find?_insert_of_not_contains hnew hf

theorem Reachable.distinct_states (h : w.Reachable) (m : MachineId) : (w.machine m).states.Distinct := by
  obtain ⟨start, blank, steps⟩ := h
  induction steps with
  | refl =>
    rw [blank.machine]
    exact .nil
  | tail _ step ih =>
    rcases step.states m with same | ⟨_, s, hnew, more⟩
    · rwa [same]
    · rw [more]
      exact ih.insert hnew s

/-- A state that is registered is found under its name. -/
theorem Reachable.lookup_owned (h : w.Reachable) (hn : w.PlainNames m) {s : StateId} (hs : w.owns m s = true) :
    ∃ a : String, (w.states.get s).name = .text a ∧ w.lookupState m (.text a) = .ok s := by
  have hs : s ∈ (w.machine m).states.values := by simpa [owns] using hs
  obtain ⟨x, hx, rfl⟩ := List.mem_map.mp hs
  obtain ⟨a, ha⟩ := hn x.1 (mem_keys hx)
  have found := (h.distinct_states m).find_text hx (s := a) (by rw [ha]; rfl)
  exact ⟨a, (h.regular.filed m hn x hx).trans ha, by simp [lookupState, nameOf, Value.registrationName, found]⟩

theorem Change.owns (h : Change w v) {s : StateId} (hs : w.owns m s = true) : v.owns m s = true := by
  unfold World.owns at hs ⊢
  rcases h.states m with same | ⟨_, s', hnew, more⟩
  · rwa [same]
  · simp only [List.contains_iff_mem, Table.values] at hs ⊢
    rw [more, Table.entries_insert_of_not_contains hnew, List.map_append]
    exact List.mem_append_left _ hs

theorem Changes.owns (h : Changes w v) {s : StateId} (hs : w.owns m s = true) : v.owns m s = true := by
  induction h with
  | refl => exact hs
  | tail _ step ih => exact step.owns ih

theorem transition_addMoves (hooks : Hooks) (e : EventId) (moves : List (Value × Value)) (w : World)
    {t : TransitionId} (ht : t < w.transitions.next) :
    (moves.foldl (addMove hooks e) w).transitions.get t = w.transitions.get t := by
  induction moves generalizing w with
  | nil => rfl
  | cons move moves ih =>
    have next := next_addMove hooks e w move
    have kept : (addMove hooks e w move).transitions.get t = w.transitions.get t := by
      have hne : t ≠ w.transitions.next := Nat.ne_of_lt ht
      simp [addMove, addCandidate, updateEvent, addTransition, hne]
    exact (ih _ (next ▸ Nat.lt_succ_of_lt ht)).trans kept

theorem transition_connect {trigger source dest : Value} {hooks : Hooks}
    (h : w.connect m trigger source dest hooks = .ok v) {t : TransitionId} (ht : t < w.transitions.next) :
    v.transitions.get t = w.transitions.get t := by
  obtain ⟨-, moves, -, rfl⟩ := connect_cases h
  have same : (w.ensureEvent m trigger).2.transitions = w.transitions := by
    rcases ensureEvent_cases w m trigger with ⟨e, -, he⟩ | ⟨-, he⟩ <;> rw [he]
    rfl
  rw [transition_addMoves hooks _ moves _ (same ▸ ht), same]

/-- No change takes back a name, the ends of a transition or a state of a machine. -/
theorem Change.extends (h : Change w v) : Extends w v ∧ w.states.next ≤ v.states.next := by
  have keys := h.keys
  cases h with
  | aside h => exact ⟨.of_registries h.states h.transitions keys, Nat.le_of_eq (by rw [h.states])⟩
  | makeState s => exact ⟨extends_addState w s, by simp [addState]⟩
  | enroll m s hk hnew => exact ⟨.of_registries rfl rfl keys, Nat.le_refl _⟩
  | hookState s c stage => exact ⟨extends_hookState w s c stage, Heap.next_le_next_modify _ _ _⟩
  | makeTransition t => exact ⟨extends_addTransition w t, Nat.le_refl _⟩
  | connect h =>
    have states : v.states = w.states := by rw [(relisted_connect h).rest]
    refine ⟨⟨fun _ _ => by rw [states], (event_connect h).1, fun t ht => ?_, keys⟩,
      Nat.le_of_eq (by rw [states])⟩
    rw [transition_connect h ht]
    exact ⟨rfl, rfl⟩
  | disconnect h =>
    obtain ⟨e, -, ⟨-, rfl⟩ | ⟨-, rfl⟩⟩ := disconnect_cases h
    · exact ⟨.of_registries rfl rfl keys, Nat.le_refl _⟩
    · exact ⟨.of_registries rfl rfl keys, Nat.le_refl _⟩
  | hookTransition t c stage => exact ⟨extends_hookTransition w t c stage, Nat.le_refl _⟩
  | fileSource _ => exact ⟨.of_registries rfl rfl keys, Nat.le_refl _⟩
  | tune m hf => exact ⟨.of_registries rfl rfl keys, Nat.le_refl _⟩
  | makeMachine machine hs he => exact ⟨.of_registries rfl rfl keys, Nat.le_refl _⟩

theorem Changes.extends (h : Changes w v) : Extends w v ∧ w.states.next ≤ v.states.next := by
  induction h with
  | refl => exact ⟨.refl w, Nat.le_refl _⟩
  | tail _ step ih =>
    obtain ⟨more, states⟩ := step.extends
    exact ⟨ih.1.trans more ih.2, Nat.le_trans ih.2 states⟩

theorem Changes.find (h : Changes w v) {k : Value} {s : StateId}
    (hf : (w.machine m).states.find? k = some s) : (v.machine m).states.find? k = some s := by
  induction h with
  | refl => exact hf
  | tail _ step ih => exact step.find ih

/-- From a world on, whoever looks for the state of a name finds this one. -/
def Finds (w : World) (m : MachineId) (name : Value) (s : StateId) : Prop :=
  ∀ v, Changes w v → v.lookupState m name = .ok s

theorem Finds.later {name : Value} {s : StateId} (h : w.Finds m name s) (hv : Changes w v) :
    v.Finds m name s := fun u hu => h u (hv.trans hu)

/-- A key of a machine is found for good. -/
theorem finds_key {a : String} (h : .text a ∈ (w.machine m).states.keys) : ∃ s, w.Finds m (.text a) s := by
  obtain ⟨x, hx, hk⟩ := List.mem_map.mp h
  obtain ⟨s, hs⟩ := Table.find?_of_mem hx (by rw [hk]; exact ReflBEq.rfl)
  refine ⟨s, fun v hv => ?_⟩
  simp [lookupState, nameOf, Value.registrationName, hv.find hs]

end World

open World

namespace Engine

variable {E : Engine} {m : MachineId} {w : World}

/-- The way of a firing's model from one state to another, with both at hand. -/
def cross (E : Engine) (m : MachineId) (s d : StateId) (i : FiringId) : Run Unit := do
  E.runStage m s .exit i
  place m (.state d) ((← get).firings.get i).model
  Act.change (World.updateFiring i (fun f => { f with state := d }))
  E.runStage m d .enter i

/-- A name that is found places a model as the state itself does. -/
theorem place_of_finds {a : String} {d : StateId} (h : w.lookupState m (.text a) = .ok d) (models : Value) :
    place m (.text a) models w = place m (.state d) models w := by
  have name : Act.ask (fun w => w.stateFor m (.text a)) w = (.ok d, w) := by
    have asked : w.stateFor m (.text a) = .ok d := h
    rw [ask_apply, asked]
    rfl
  have itself : Act.ask (fun w => w.stateFor m (.state d)) w = (.ok d, w) := rfl
  unfold place
  rw [bind_of_ok name, bind_of_ok itself]

theorem changeState_eq_cross (hE : E.Walks Change) {a b : String} {s d : StateId}
    (hs : w.Finds m (.text a) s) (hd : w.Finds m (.text b) d) (i : FiringId) :
    E.changeState m (.text a) (.text b) i w = E.cross m s d i w := by
  have source : w.lookupState m (.text a) = .ok s := hs w .refl
  unfold changeState cross
  rw [bind_of_ok (by rw [ask_apply, source]; rfl)]
  refine bind_congr_of_ok (fun _ v left => ?_)
  have hv : Changes w v := (hE.runStage m s .exit i).steps left
  unfold relocate
  simp only [bind_assoc]
  rw [bind_of_ok (get_apply v), bind_of_ok (get_apply v)]
  have placed := place_of_finds (hd v hv) (v.firings.get i).model
  rw [bind_apply, placed, bind_apply]
  rcases arrived : place m (.state d) (v.firings.get i).model v with ⟨e | _, u⟩
  · rfl
  · have hu : Changes w u := hv.trans ((walks_placing permits_checked m _ _).steps arrived)
    have restated : Changes w (u.updateFiring i (fun f => { f with state := d })) :=
      hu.tail (.aside ⟨rfl, rfl, rfl, rfl⟩)
    have found : u.stateFor m (.text b) = .ok d := hd u hu
    simp only []
    rw [bind_of_ok (by rw [ask_apply, found]; rfl), bind_of_ok (change_apply _ u),
      bind_of_ok (by rw [ask_apply, hd _ restated]; rfl), bind_of_ok (change_apply _ u)]

/-- A move along a transition looks for no state in vain: an internal one leads nowhere, and any other one
is the way between two states that the machine has registered. -/
def FindsWay (E : Engine) (m : MachineId) (t : Transition) (w : World) : Prop :=
  (t.internal = true ∧ ∀ i, E.moveAlong m t i w = (.ok (), w)) ∨
    ∃ s d, w.lookupState m t.source = .ok s ∧ w.lookupState m t.dest = .ok d ∧
      ∀ i, E.moveAlong m t i w = E.cross m s d i w

end Engine

theorem World.Connects.findsWay {E : Engine} (hE : E.Walks Change) {w v u : World} {m : MachineId}
    (hn : w.PlainNames m) {k : Value} {t : TransitionId} (h : w.Connects m k t) (hv : Changes w v)
    (hu : Changes v u) : E.FindsWay m (v.transitions.get t) u := by
  obtain ⟨hsource, hdest⟩ := hv.extends.1.moves t h.made
  obtain ⟨a, ha⟩ := hn _ h.source
  obtain ⟨s, hs⟩ := finds_key (ha ▸ h.source)
  rcases h.dest with none | some
  · have internal : (v.transitions.get t).internal = true := by rw [Transition.internal, hdest, none]
    refine .inl ⟨internal, fun i => ?_⟩
    rw [Engine.moveAlong, if_pos internal]
    rfl
  · obtain ⟨b, hb⟩ := hn _ some
    obtain ⟨d, hd⟩ := finds_key (hb ▸ some)
    have external : (v.transitions.get t).internal = false := by rw [Transition.internal, hdest, hb]
    have later := hv.trans hu
    refine .inr ⟨s, d, ?_, ?_, fun i => ?_⟩
    · rw [hsource, ha]
      exact hs u later
    · rw [hdest, hb]
      exact hd u later
    · rw [Engine.moveAlong, external, hsource, hdest, ha, hb]
      exact Engine.changeState_eq_cross hE (hs.later later) (hd.later later) i

end StateEngine
