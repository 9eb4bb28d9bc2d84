import StateEngine.Proofs.Journey.Place
import StateEngine.Proofs.Registry.Lookup

/-! What goes on beside a model: as long as its machine has a task in hand the model rests, lines with a task in
hand only get longer, and firings keep what they are about. -/
namespace StateEngine
open Act Relation

/-- A firing is about the same as another one. -/
structure Firing.Keeps (f g : Firing) : Prop where
  model : g.model = f.model
  machine : g.machine = f.machine
  event : g.event = f.event

theorem Firing.Keeps.refl (f : Firing) : f.Keeps f := ⟨rfl, rfl, rfl⟩

theorem Firing.Keeps.trans {f g h : Firing} (hg : f.Keeps g) (hh : g.Keeps h) : f.Keeps h :=
  ⟨hh.model.trans hg.model, hh.machine.trans hg.machine, hh.event.trans hg.event⟩

namespace World

variable {m : MachineId} {x : String} {T : World → Prop} {A : MachineId → Prop} {b : Prop} {w v u : World}

/-- Firings that have been made keep what they are about, and those of the model on the machine their states; no
roster gets anything that covers the model; and a line with a task in hand stays as it is. -/
structure Spared (m : MachineId) (x : String) (w v : World) : Prop where
  firings : ∀ i < w.firings.next, i < v.firings.next ∧ (w.firings.get i).Keeps (v.firings.get i) ∧
    ((w.firings.get i).machine = m → (w.firings.get i).model = .model x →
      (v.firings.get i).state = (w.firings.get i).state)
  rosters : ∀ r < w.rosters.next, r < v.rosters.next ∧
    ∀ y ∈ v.rosters.get r, y.Covers x → y ∈ w.rosters.get r
  lines : ∀ n, (w.machine n).line.inFlight = true → (v.machine n).line = (w.machine n).line

theorem Spared.of_same (hf : v.firings = w.firings) (hr : v.rosters = w.rosters)
    (hl : ∀ n, (w.machine n).line.inFlight = true → (v.machine n).line = (w.machine n).line) : Spared m x w v where
  firings i hi := by
    rw [hf]
    exact ⟨hi, .refl _, fun _ _ => rfl⟩
  rosters r hr' := by
    rw [hr]
    exact ⟨hr', fun _ hy _ => hy⟩
  lines := hl

/-- What one world has of another. The lines in `A` are watched, and where `b` says so a model rests as long as its
machine has a task in hand. Whatever `T` says of the model's way so far stays true. -/
structure Bears (m : MachineId) (x : String) (T : World → Prop) (A : MachineId → Prop) (b : Prop) (w v : World) :
    Prop where
  changes : Changes w v
  firings : ∀ i < w.firings.next, i < v.firings.next ∧ (w.firings.get i).Keeps (v.firings.get i)
  rosters : ∀ r < w.rosters.next, r < v.rosters.next ∧
    ∀ y ∈ v.rosters.get r, y.Covers x → y ∈ w.rosters.get r
  lines : ∀ n, A n → (w.machine n).line.inFlight = true → (w.machine n).line.Stays (v.machine n).line ∧
    ∀ task ∈ (v.machine n).line.tasks, task ∈ (w.machine n).line.tasks ∨ v.Allows m x n task
  rests : b → (w.machine m).line.inFlight = true → ReflTransGen (Rests m x) w v ∧
    ∀ i < w.firings.next, (w.firings.get i).machine = m → (w.firings.get i).model = .model x →
      (v.firings.get i).state = (w.firings.get i).state
  way : v.PlainNames m → T w → T v

/-- A world in which all that is registered agrees, and in which a machine has been made. -/
structure Ready (m : MachineId) (w : World) : Prop where
  reachable : w.Reachable
  made : m < w.machines.next

theorem Ready.later (h : Ready m w) (hv : Changes w v) : Ready m v := by
  obtain ⟨start, blank, steps⟩ := h.reachable
  exact ⟨⟨start, blank, steps.trans hv⟩, Nat.lt_of_lt_of_le h.made hv.accessor.1⟩

theorem changes_of_rests (h : ReflTransGen (Rests m x) w v) : Changes w v :=
  h.lift id (fun _ _ step => step.1)

theorem holds_of_rests {a : Value} (h : ReflTransGen (Rests m x) w v) (hw : w.Holds m x a) : v.Holds m x a := by
  induction h with
  | refl => exact hw
  | tail _ step ih => exact step.2 a ih

/-- What is said of a model on its way stays true while the model rests. -/
def Endures (m : MachineId) (x : String) (T : World → Prop) : Prop := ∀ w v, Rests m x w v → T w → T v

theorem Endures.later (hT : Endures m x T) (h : ReflTransGen (Rests m x) w v) (hw : T w) : T v := by
  induction h with
  | refl => exact hw
  | tail _ step ih => exact hT _ _ step ih

/-- Where a model rests and is spared, everything is borne. -/
theorem Spared.bears (h : Spared m x w v) (hT : Endures m x T) (hr : ReflTransGen (Rests m x) w v) :
    Bears m x T A b w v where
  changes := changes_of_rests hr
  firings i hi := by
    obtain ⟨made, same, -⟩ := h.firings i hi
    exact ⟨made, same⟩
  rosters := h.rosters
  lines n _ hbusy := by
    rw [h.lines n hbusy]
    exact ⟨.refl hbusy, fun _ htask => .inl htask⟩
  rests _ _ := ⟨hr, fun i hi => (h.firings i hi).2.2⟩
  way _ := hT.later hr

theorem Bears.refl (w : World) : Bears m x T A b w w where
  changes := .refl
  firings _ hi := ⟨hi, .refl _⟩
  rosters _ hr := ⟨hr, fun _ hy _ => hy⟩
  lines _ _ hbusy := ⟨.refl hbusy, fun _ htask => .inl htask⟩
  rests _ _ := ⟨.refl, fun _ _ _ _ => rfl⟩
  way _ h := h

/-- What was borne by one world and is by the next is from the first one on. For a model to rest throughout, the
line of its own machine has to be watched. -/
theorem Bears.trans (hb : b → A m) (hw : Ready m w) (h : Bears m x T A b w v) (h' : Bears m x T A b v u) :
    Bears m x T A b w u where
  changes := h.changes.trans h'.changes
  firings i hi := by
    obtain ⟨made, same⟩ := h.firings i hi
    obtain ⟨made', same'⟩ := h'.firings i made
    exact ⟨made', same.trans same'⟩
  rosters r hr := by
    obtain ⟨made, old⟩ := h.rosters r hr
    obtain ⟨made', old'⟩ := h'.rosters r made
    exact ⟨made', fun y hy covers => old y (old' y hy covers) covers⟩
  lines n hn hbusy := by
    obtain ⟨stays, tasks⟩ := h.lines n hn hbusy
    obtain ⟨stays', tasks'⟩ := h'.lines n hn stays.inFlight
    refine ⟨stays.trans stays', fun task htask => ?_⟩
    rcases tasks' task htask with htask | allowed
    · exact (tasks task htask).imp_right (fun allowed => allowed.later (hw.later h.changes).made h'.changes)
    · exact .inr allowed
  rests hrests hbusy := by
    obtain ⟨stays, -⟩ := h.lines m (hb hrests) hbusy
    obtain ⟨rests, states⟩ := h.rests hrests hbusy
    obtain ⟨rests', states'⟩ := h'.rests hrests stays.inFlight
    refine ⟨rests.trans rests', fun i hi hm hx => ?_⟩
    obtain ⟨made, same⟩ := h.firings i hi
    exact (states' i made (same.machine.trans hm) (same.model.trans hx)).trans (states i hi hm hx)
  way hn hw := h'.way hn (h.way ((Changes.extends h'.changes).1.plainNames hn) hw)

/-- Less may be watched. -/
theorem Bears.weaken {A' : MachineId → Prop} {b' : Prop} (h : Bears m x T A b w v) (hA : ∀ n, A' n → A n)
    (hb : b' → b) : Bears m x T A' b' w v :=
  ⟨h.changes, h.firings, h.rosters, fun n hn => h.lines n (hA n hn), fun hr => h.rests (hb hr), h.way⟩

/-- Steps that bear with a model, from worlds in which all agrees. -/
abbrev Bearing (m : MachineId) (x : String) (T : World → Prop) (A : MachineId → Prop) (b : Prop) :
    World → World → Prop := Under (Ready m) (Bears m x T A b)

theorem Bears.bearing (h : Bears m x T A b w v) : Bearing m x T A b w v :=
  fun hw => ⟨h, hw.later h.changes⟩

/-- Many such steps are one. -/
theorem bears_of_steps (hb : b → A m) (h : ReflTransGen (Bearing m x T A b) w v) (hw : Ready m w) :
    Bears m x T A b w v := by
  induction h with
  | refl => exact .refl w
  | tail steps step ih =>
    exact ih.trans hb hw (step (hw.later ih.changes)).1

/-- A step with which a model rests and is spared. -/
theorem Spared.step (h : Spared m x w v) (hT : Endures m x T) (hr : ReflTransGen (Rests m x) w v) :
    ReflTransGen (Bearing m x T A b) w v := .single (h.bears hT hr).bearing

section Grants

theorem rests_tune {n : MachineId} {f : Machine → Machine} (hf : Tunes f) : Rests m x w (w.updateMachine n f) := by
  refine .of_same (.tune w n hf) ?_ rfl (fun _ => rfl)
  rw [machine_updateMachine]
  split
  · exact (hf _).2.2
  · rfl

theorem rests_aside (h : Aside w v) (hx : v.models = w.models)
    (hl : ∀ id, v.ledgers.get id = w.ledgers.get id) : Rests m x w v :=
  .of_same (.aside h) (by rw [machine, machine, h.machines]) hx hl

theorem Relisted.spared (h : Relisted w v) : Spared m x w v := by
  refine .of_same (by rw [h.rest]) (by rw [h.rest]) (fun n _ => ?_)
  obtain ⟨_, hn⟩ := h.machine n
  rw [hn]

theorem Relisted.rests (h : Relisted w v) (hc : Change w v) : Rests m x w v := by
  refine .of_same hc ?_ (by rw [h.rest]) (fun _ => by rw [h.rest])
  obtain ⟨_, hn⟩ := h.machine m
  rw [hn]

/-- A firing may be noted in and, if it is none of the model on its machine, put into another state. -/
theorem spared_updateFiring {i : FiringId} {f : Firing → Firing}
    (hf : ∀ y : Firing, y.Keeps (f y))
    (hs : (w.firings.get i).machine = m → (w.firings.get i).model = .model x →
      (f (w.firings.get i)).state = (w.firings.get i).state) : Spared m x w (w.updateFiring i f) where
  firings j hj := by
    refine ⟨Nat.lt_of_lt_of_le hj (Heap.next_le_next_modify _ _ _), ?_⟩
    simp only [updateFiring, Heap.get_modify]
    split
    · rename_i hij
      subst hij
      exact ⟨hf _, hs⟩
    · exact ⟨.refl _, fun _ _ => rfl⟩
  rosters r hr := ⟨hr, fun _ hy _ => hy⟩
  lines _ _ := rfl

/-- A ledger that is made is empty, as one that has not been made. -/
theorem ledgers_makeMachine {plan : Blueprint} {n : MachineId} (h : w.makeMachine plan = .ok (n, v))
    (id : LedgerId) : v.ledgers.get id = w.ledgers.get id := by
  obtain ⟨⟨a, u⟩, ha, h⟩ := ok_of_bind h
  cases h
  show u.ledgers.get id = _
  cases hplan : plan.accessor.getD (.field plan.options.modelAttribute) with
  | field name =>
    rw [hplan] at ha
    cases hn : Accessor.ofName name with
    | error f => simp [makeAccessor, hn, Except.map] at ha
    | ok _ =>
      simp only [makeAccessor, hn, Except.map, Except.ok.injEq, Prod.mk.injEq] at ha
      rw [ha.2]
  | ledger name =>
    rw [hplan] at ha
    cases ha
    rw [Heap.get_push]
    split
    · rename_i hid
      exact (Heap.get_of_next_le (Nat.le_of_eq hid.symm)).symm
    · rfl

theorem rests_makeMachine {plan : Blueprint} {n : MachineId} (hm : m < w.machines.next)
    (h : w.makeMachine plan = .ok (n, v)) : ReflTransGen (Rests m x) w v := by
  have kept := ledgers_makeMachine h
  obtain ⟨machine, ledgers, -, hs, he, -, -, rfl⟩ := makeMachine_cases h
  have prepared : Rests m x w { w with ledgers := ledgers, rosters := w.rosters.push [] } :=
    rests_aside ⟨rfl, rfl, rfl, rfl⟩ rfl kept
  refine .tail (.single prepared) (.of_same (.makeMachine _ machine hs he) ?_ rfl (fun _ => rfl))
  exact congrArg Machine.accessor (show ((w.machines.push machine).get m) = _ by
    rw [Heap.get_push, if_neg (Nat.ne_of_lt hm)]
    rfl)

/-- All that makes more of everything bears with a model. -/
theorem grants_bearing (hT : Endures m x T) : Grants (fun _ _ => True) (Bearing m x T A b) where
  log h := by
    refine Spared.step (.of_same ?_ ?_ (fun n _ => ?_)) hT (.single (rests_aside ⟨?_, ?_, ?_, ?_⟩ ?_ (fun _ => ?_)))
    all_goals first | rw [machine, machine, h] | rw [h]
  makeState w s :=
    Spared.step (.of_same rfl rfl (fun _ _ => rfl)) hT (.single (.of_same (.makeState w s) rfl rfl (fun _ => rfl)))
  hookState w s c stage :=
    Spared.step (.of_same rfl rfl (fun _ _ => rfl)) hT
      (.single (.of_same (.hookState w s c stage) rfl rfl (fun _ => rfl)))
  makeTransition w t :=
    Spared.step (.of_same rfl rfl (fun _ _ => rfl)) hT
      (.single (.of_same (.makeTransition w t) rfl rfl (fun _ => rfl)))
  connect _ h := Spared.step (relisted_connect h).spared hT (.single ((relisted_connect h).rests (.connect h)))
  fileSource h :=
    Spared.step (.of_same rfl rfl (fun _ _ => rfl)) hT (.single (.of_same (.fileSource h) rfl rfl (fun _ => rfl)))
  openFiring w firing := by
    refine Spared.step ⟨fun i hi => ⟨by simpa using Nat.lt_succ_of_lt hi, ?_⟩, fun r hr => ⟨hr, fun _ hy _ => hy⟩,
      fun _ _ => rfl⟩ hT (.single (rests_aside ⟨rfl, rfl, rfl, rfl⟩ rfl (fun _ => rfl)))
    rw [Heap.get_push, if_neg (Nat.ne_of_lt hi)]
    exact ⟨.refl _, fun _ _ => rfl⟩

/-- Noting in a firing how it goes on bears with a model. -/
theorem steps_note (hT : Endures m x T) (w : World) (i : FiringId) {f : Firing → Firing} (hf : Firing.Notes f) :
    ReflTransGen (Bearing m x T A b) w (w.updateFiring i f) := by
  refine Spared.step (spared_updateFiring (fun y => ?_) (fun _ _ => ?_)) hT
    (.single (rests_aside ⟨rfl, rfl, rfl, rfl⟩ rfl (fun _ => rfl)))
  · obtain ⟨_, _, _, hy⟩ := hf y
    rw [hy]
    exact ⟨rfl, rfl, rfl⟩
  · obtain ⟨_, _, _, hy⟩ := hf (w.firings.get i)
    rw [hy]

end Grants

end World

end StateEngine
