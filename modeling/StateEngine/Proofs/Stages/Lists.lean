import StateEngine.Proofs.Firing.Amid
import StateEngine.Proofs.Registry.Lookup

/-! What callbacks leave of what a firing goes by. They may put others behind the callbacks of a state or a transition
at any time, but take none away, nor any state that is registered; and what the firing has noted stays. -/
namespace StateEngine

/-- What registering callbacks leaves of a transition: what it prepares gets longer at most, and it goes the way and has
the guards that it was made with. -/
structure Transition.Lengthened (a b : Transition) : Prop where
  prepare : a.prepare <+: b.prepare
  source : b.source = a.source
  dest : b.dest = a.dest
  guards : b.guards = a.guards

theorem Transition.Lengthened.refl (a : Transition) : Lengthened a a := ⟨List.prefix_rfl, rfl, rfl, rfl⟩

theorem Transition.Lengthened.trans {a b c : Transition} (h : Lengthened a b) (h' : Lengthened b c) : Lengthened a c :=
  ⟨h.prepare.trans h'.prepare, h'.source.trans h.source, h'.dest.trans h.dest, h'.guards.trans h.guards⟩

theorem Transition.lengthened_addCallback (t : Transition) (c : Callback) (stage : TransitionStage) :
    Lengthened t (t.addCallback c stage) := by
  cases stage with
  | prepare => exact ⟨List.prefix_append _ _, rfl, rfl, rfl⟩
  | before | after => exact ⟨List.prefix_rfl, rfl, rfl, rfl⟩

theorem State.callbacks_prefix (s : State) (c : Callback) (added stage : StateStage) :
    s.callbacks stage <+: (s.addCallback c added).callbacks stage := by
  cases added <;> cases stage <;>
  first
  | exact List.prefix_append _ _
  | exact List.prefix_rfl

namespace World
open Relation

/-- Lists of callbacks have got longer at their ends, if at all, and states that are registered stay so. -/
structure Longer (w v : World) : Prop where
  registered : ∀ m k s, (w.machine m).states.find? k = some s → (v.machine m).states.find? k = some s
  states : ∀ s stage, (w.states.get s).callbacks stage <+: (v.states.get s).callbacks stage
  made : w.transitions.next ≤ v.transitions.next
  transitions : ∀ t < w.transitions.next, (w.transitions.get t).Lengthened (v.transitions.get t)

/-- A firing that has been made stays as it is, but for its state. -/
def Abides (i : FiringId) (w v : World) : Prop :=
  i < w.firings.next → i < v.firings.next ∧ ∃ s, v.firings.get i = { w.firings.get i with state := s }

variable {i : FiringId} {w v u : World} {P : Operation → Prop}

theorem Longer.refl (w : World) : Longer w w :=
  ⟨fun _ _ _ => id, fun _ _ => List.prefix_rfl, Nat.le_refl _, fun _ _ => .refl _⟩

theorem Longer.trans (h : Longer w v) (h' : Longer v u) : Longer w u :=
  ⟨fun m k s hk => h'.registered m k s (h.registered m k s hk),
    fun s stage => (h.states s stage).trans (h'.states s stage), Nat.le_trans h.made h'.made,
    fun t ht => (h.transitions t ht).trans (h'.transitions t (Nat.lt_of_lt_of_le ht h.made))⟩

theorem Longer.of_steps (h : ReflTransGen Longer w v) : Longer w v := by
  induction h with
  | refl => exact .refl w
  | tail _ step ih => exact ih.trans step

/-- A transition that is still to be made prepares nothing. -/
theorem Longer.prepare (h : Longer w v) (t : TransitionId) :
    (w.transitions.get t).prepare <+: (v.transitions.get t).prepare := by
  by_cases ht : t < w.transitions.next
  · exact (h.transitions t ht).prepare
  · rw [Heap.get_of_next_le (Nat.le_of_not_lt ht)]
    exact List.nil_prefix

theorem Abides.refl (w : World) : Abides i w w := fun hi => ⟨hi, _, rfl⟩

theorem Abides.trans (h : Abides i w v) (h' : Abides i v u) : Abides i w u := fun hi => by
  obtain ⟨made, s, hs⟩ := h hi
  obtain ⟨made', s', hs'⟩ := h' made
  exact ⟨made', s', by rw [hs', hs]⟩

theorem Abides.of_steps (h : ReflTransGen (Abides i) w v) : Abides i w v := by
  induction h with
  | refl => exact .refl w
  | tail _ step ih => exact ih.trans step

theorem abides_of_firings (h : v.firings = w.firings) : Abides i w v := fun hi => by
  rw [h]
  exact ⟨hi, _, rfl⟩

theorem longer_of_same (hm : ∀ m, (v.machine m).states = (w.machine m).states) (hs : v.states = w.states)
    (ht : v.transitions = w.transitions) : Longer w v := by
  refine ⟨fun m k s hk => ?_, fun s stage => ?_, Nat.le_of_eq (by rw [ht]), fun t _ => ?_⟩
  · rw [hm]
    exact hk
  · exact hs ▸ List.prefix_rfl
  · rw [ht]
    exact .refl _

/-- A change of a machine that leaves its states. -/
theorem states_updateMachine {m : MachineId} {f : Machine → Machine}
    (hf : (f (w.machine m)).states = (w.machine m).states) (n : MachineId) :
    ((w.updateMachine m f).machine n).states = (w.machine n).states := by
  rw [machine_updateMachine]
  split
  · rename_i hn
    subst hn
    exact hf
  · rfl

theorem longer_updateState (s : StateId) (c : Callback) (stage : StateStage) :
    Longer w (w.updateState s (·.addCallback c stage)) := by
  refine ⟨fun _ _ _ => id, fun s' stage' => ?_, Nat.le_refl _, fun _ _ => .refl _⟩
  show _ <+: ((w.states.modify s (·.addCallback c stage)).get s').callbacks stage'
  rw [Heap.get_modify]
  split
  · exact State.callbacks_prefix _ c stage stage'
  · exact List.prefix_rfl

theorem longer_updateTransition (t : TransitionId) (c : Callback) (stage : TransitionStage) :
    Longer w (w.updateTransition t (·.addCallback c stage)) := by
  refine ⟨fun _ _ _ => id, fun _ _ => List.prefix_rfl, Heap.next_le_next_modify _ _ _, fun t' _ => ?_⟩
  show Transition.Lengthened _ ((w.transitions.modify t (·.addCallback c stage)).get t')
  rw [Heap.get_modify]
  split
  · exact Transition.lengthened_addCallback _ c stage
  · exact .refl _

/-- A new state stands under a number under which there were no callbacks. -/
theorem longer_addState (s : State) : Longer w (w.addState s).2 := by
  refine ⟨fun _ _ _ => id, fun s' stage => ?_, Nat.le_refl _, fun _ _ => .refl _⟩
  show _ <+: ((w.states.push s).get s').callbacks stage
  rw [Heap.get_push]
  split
  · rename_i hs
    rw [Heap.get_of_next_le (Nat.le_of_eq hs.symm)]
    cases stage <;> exact List.nil_prefix
  · exact List.prefix_rfl

theorem longer_addTransition (t : Transition) : Longer w (w.addTransition t).2 := by
  refine ⟨fun _ _ _ => id, fun _ _ => List.prefix_rfl, by simp [addTransition], fun t' ht => ?_⟩
  show Transition.Lengthened _ ((w.transitions.push t).get t')
  rw [Heap.get_push, if_neg (Nat.ne_of_lt ht)]
  exact .refl _

theorem longer_addMoves (hooks : Hooks) (e : EventId) (moves : List (Value × Value)) (w : World) :
    Longer w (moves.foldl (addMove hooks e) w) := by
  induction moves generalizing w with
  | nil => exact .refl w
  | cons move moves ih =>
    have made : Longer w (w.addTransition (.ofHooks move.1 move.2 hooks)).2 := longer_addTransition _
    have filed : Longer (w.addTransition (.ofHooks move.1 move.2 hooks)).2 (addMove hooks e w move) :=
      longer_of_same (fun _ => rfl) rfl rfl
    exact (made.trans filed).trans (ih (addMove hooks e w move))

theorem longer_connect {m : MachineId} {trigger source dest : Value} {hooks : Hooks}
    (h : w.connect m trigger source dest hooks = .ok v) : Longer w v := by
  obtain ⟨-, moves, -, rfl⟩ := connect_cases h
  have ensured : Longer w (w.ensureEvent m trigger).2 := by
    unfold ensureEvent
    split
    · exact .refl w
    · exact longer_of_same (relisted_newEvent w m trigger).states rfl rfl
  exact ensured.trans (longer_addMoves hooks _ moves _)

theorem longer_disconnect {m : MachineId} {trigger source dest : Value}
    (h : w.disconnect m trigger source dest = .ok v) : Longer w v := by
  have states := (relisted_disconnect h).states
  obtain ⟨e, -, ⟨-, rfl⟩ | ⟨-, rfl⟩⟩ := disconnect_cases h
  · exact longer_of_same states rfl rfl
  · exact longer_of_same states rfl rfl

theorem longer_adopt {m : MachineId} {trigger : Value} {t : TransitionId} (h : w.adopt m trigger t = .ok v) :
    Longer w v := by
  obtain ⟨e, -, h⟩ := ok_of_bind h
  split at h
  · cases h
    exact longer_of_same (fun _ => rfl) rfl rfl
  · cases h

/-- A state is registered under a name that is new. -/
theorem longer_enroll {m : MachineId} {s : StateId}
    (hnew : (w.machine m).states.contains (w.states.get s).name = false) :
    Longer w (w.updateMachine m (fun machine =>
      { machine with states := machine.states.insert (w.states.get s).name s })) := by
  refine ⟨fun n k s' hk => ?_, fun _ _ => List.prefix_rfl, Nat.le_refl _, fun _ _ => .refl _⟩
  rw [machine_updateMachine]
  split
  · rename_i hn
    subst hn
    exact Table.find?_insert_of_not_contains hnew hk
  · exact hk

theorem Step.longer (h : Step P w v) : Longer w v := by
  cases h with
  | note h => exact longer_of_same (fun m => by rw [h.rest]; rfl) (by rw [h.rest]) (by rw [h.rest])
  | makeState s => exact longer_addState s
  | enroll m s hk hnew => exact longer_enroll hnew
  | hookState s c stage => exact longer_updateState s c stage
  | makeTransition t => exact longer_addTransition t
  | hookTransition t c stage => exact longer_updateTransition t c stage
  | connect h => exact longer_connect h
  | disconnect h => exact longer_disconnect h
  | adopt hp h => exact longer_adopt h
  | assign m setting x hp =>
    exact longer_of_same (states_updateMachine (by cases setting <;> rfl)) rfl rfl
  | unbind m model =>
    have pushed : Longer w { w with
      rosters := w.rosters.push ((w.boundModels m).filter (fun x => !x.same model)) } :=
      longer_of_same (fun _ => rfl) rfl rfl
    exact pushed.trans (longer_of_same (states_updateMachine rfl) rfl rfl)
  | makeMachine h =>
    obtain ⟨machine, ledgers, -, -, -, -, -, rfl⟩ := makeMachine_cases h
    refine ⟨fun m k s hk => ?_, fun _ _ => List.prefix_rfl, Nat.le_refl _, fun _ _ => .refl _⟩
    rcases machine_push w machine m with kept | ⟨old, -⟩
    · exact (congrArg (fun x : Machine => x.states.find? k = some s) kept).mpr hk
    · rw [old] at hk
      cases hk
  | fileSource | openFiring | restate => exact longer_of_same (fun _ => rfl) rfl rfl

theorem Step.abides (h : Step P w v) : Abides i w v := by
  cases h with
  | note h => exact abides_of_firings (by rw [h.rest])
  | connect h => exact abides_of_firings (by rw [(relisted_connect h).rest])
  | disconnect h => exact abides_of_firings (by rw [(relisted_disconnect h).rest])
  | adopt hp h => exact abides_of_firings (by rw [(relisted_adopt h).rest])
  | makeMachine h =>
    obtain ⟨machine, ledgers, -, -, -, -, -, rfl⟩ := makeMachine_cases h
    exact abides_of_firings rfl
  | openFiring firing =>
    refine fun hi => ⟨Nat.lt_of_lt_of_le hi (by simp), (w.firings.get i).state, ?_⟩
    rw [Heap.get_push, if_neg (Nat.ne_of_lt hi)]
  | restate k s =>
    refine fun hi => ⟨Nat.lt_of_lt_of_le hi (Heap.next_le_next_modify _ _ _), ?_⟩
    by_cases hk : k = i
    · exact ⟨s, by simp [updateFiring, hk]⟩
    · exact ⟨(w.firings.get i).state, by simp [updateFiring, hk]⟩
  | makeState | enroll | hookState | makeTransition | hookTransition | fileSource | assign | unbind =>
    exact abides_of_firings rfl

theorem permits_longer (P : Operation → Prop) : Permits P Longer where
  step h := .single h.longer
  fresh _ := .inr (fun _ _ => .single (longer_of_same (fun _ => rfl) rfl rfl))

theorem permits_abides (P : Operation → Prop) (i : FiringId) : Permits P (Abides i) where
  step h := .single h.abides
  fresh w := by
    by_cases hi : i < w.firings.next
    · refine .inr (fun u f => .single (fun made => ⟨Nat.lt_of_lt_of_le made (Heap.next_le_next_modify _ _ _),
        (u.firings.get i).state, ?_⟩))
      rw [updateFiring, Heap.get_modify, if_neg (Nat.ne_of_gt hi)]
    · exact .inl (fun v made => absurd made hi)

end World

namespace Engine
open World

/-- Whatever callbacks do goes by steps of a kind, if these need not tell apart what rosters and machines have noted
besides states. -/
theorem walks_ofHost_beside {R : World → World → Prop} (hR : Permits (fun _ => True) R)
    (beside : ∀ w v : World, v = { w with machines := v.machines, rosters := v.rosters } →
      (∀ m, (v.machine m).states = (w.machine m).states) → R w v)
    (host : Host) (bound depth : Nat) : (ofHost host bound depth).Walks R := by
  have all : host.Within (fun _ => True) := fun _ _ _ _ => within_all _
  refine walks_ofHost all hR (fun _ _ _ _ => trivial) bound (fun depth hE => ⟨?_, ?_, ?_⟩) depth
  · exact fun m initial _ => hE.bindModel hR (fun w => .single (beside w _ rfl (fun _ => rfl))) initial
  · exact fun m v _ => hE.setInitial hR (fun _ w => .single (beside w _ rfl (states_updateMachine rfl))) v
  · exact fun m task => hE.submit hR (fun _ w => .single (beside w _ rfl (states_updateMachine rfl))) task

theorem longer_ofHost (host : Host) (bound depth : Nat) : (ofHost host bound depth).Walks Longer :=
  walks_ofHost_beside (permits_longer _) (fun _ _ h hm => longer_of_same hm (by rw [h]) (by rw [h])) host bound depth

theorem abides_ofHost (host : Host) (i : FiringId) (bound depth : Nat) :
    (ofHost host bound depth).Walks (Abides i) :=
  walks_ofHost_beside (permits_abides _ i) (fun _ _ h _ => abides_of_firings (by rw [h])) host bound depth

end Engine

end StateEngine
