import StateEngine.Proofs.Firing.Amid
import StateEngine.Proofs.Firing.Commit
import StateEngine.Proofs.Going.Operations

/-! The place in which a machine keeps the state of a model, and what may be done without reaching it. -/
namespace StateEngine
open Act Relation

/-- Two places for the states of models that have nothing in common. -/
def Accessor.Apart : Accessor → Accessor → Prop
  | .field a, .field b => a ≠ b
  | .ledger _ i, .ledger _ j => i ≠ j
  | _, _ => True

/-- To place this is to place the model, alone or among others: it is the model, or holds it, or is nothing and so
stands for all that are bound. -/
def Value.Covers (v : Value) (x : String) : Prop := v = .null ∨ .model x ∈ v.items

/-- The tasks that wait in a line, the running one included. -/
def Line.tasks {τ : Type} : Line τ → List τ
  | .direct _ => []
  | .queued tasks => tasks

theorem Table.find?_erase_of_ne {α : Type} (t : Table String α) {key other : String} (h : other ≠ key) :
    (t.erase key).find? other = t.find? other := by
  unfold Table.find? Table.erase
  rw [List.find?_filter]
  congr 1
  refine List.find?_congr (fun e _ => ?_)
  by_cases he : e.1 = other
  · simp [he, h]
  · simp [he]

namespace World

variable {m n : MachineId} {x : String} {w v u : World}

/-- A machine that has been made and keeps the states of models elsewhere than another one. -/
def Elsewhere (w : World) (m n : MachineId) : Prop :=
  n < w.machines.next ∧ (w.machine m).accessor.Apart (w.machine n).accessor

/-- The models that a specification stands for where models are placed. -/
def chosen (w : World) (n : MachineId) : Value → List Value
  | .null => w.boundModels n
  | v => v.items

/-- What waits in a line may fire a trigger on what covers the model only if it is the model itself and its
machine, or a machine that keeps its state elsewhere. -/
def Allows (m : MachineId) (x : String) (w : World) (n : MachineId) : Task → Prop
  | .fire e y _ _ => e < w.events.next ∧ (w.events.get e).machine = n ∧
      (y.Covers x → (n = m ∧ y = .model x) ∨ w.Elsewhere m n)
  | .call _ => True

/-- One change of the registries, or of what stands beside them, that leaves a model in its state. -/
def Rests (m : MachineId) (x : String) (w v : World) : Prop :=
  Change w v ∧ ∀ a, w.Holds m x a → v.Holds m x a

theorem Holds.of_same {a : Value} (h : w.Holds m x a) (hacc : (v.machine m).accessor = (w.machine m).accessor)
    (hx : v.model x = w.model x) (hl : ∀ id, v.ledgers.get id = w.ledgers.get id) : v.Holds m x a := by
  unfold Holds at h ⊢
  rw [hacc]
  cases hw : (w.machine m).accessor with
  | field name =>
    rw [hw] at h
    rw [hx]
    exact h
  | ledger name id =>
    rw [hw] at h
    simp only [hl]
    exact h

/-- A model has one state only. -/
theorem Holds.unique {a b : Value} (h : w.Holds m x a) (h' : w.Holds m x b) : a = b := by
  unfold Holds at h h'
  cases hw : (w.machine m).accessor with
  | field name =>
    rw [hw] at h h'
    exact Option.some.inj (h.2.symm.trans h'.2)
  | ledger name id =>
    rw [hw] at h h'
    exact Option.some.inj (h.symm.trans h')

theorem machine_addMoves (hooks : Hooks) (e i : EventId) (moves : List (Value × Value)) (w : World) :
    ((moves.foldl (addMove hooks e) w).events.get i).machine = (w.events.get i).machine := by
  induction moves generalizing w with
  | nil => rfl
  | cons move moves ih => exact (ih _).trans (machine_addMove hooks e i w move)

/-- Events stay with their machines. -/
theorem Change.owner (h : Change w v) {e : EventId} (he : e < w.events.next) :
    (v.events.get e).machine = (w.events.get e).machine := by
  have refiled (i : EventId) (table : Table Value (List TransitionId)) :
      ((w.updateEvent i (fun event => { event with candidates := table })).events.get e).machine =
        (w.events.get e).machine := by
    by_cases hi : i = e <;> simp [updateEvent, hi]
  rcases h.sorts with h | ⟨m, trigger, source, dest, hooks, h⟩ | ⟨m, trigger, source, dest, h⟩ | ⟨_, i, source, -, rfl⟩
  · rw [h.events]
  · obtain ⟨-, moves, -, rfl⟩ := connect_cases h
    rw [machine_addMoves]
    rcases ensureEvent_cases w m trigger with ⟨i, -, hens⟩ | ⟨-, hens⟩ <;> rw [hens]
    show ((w.newEvent m trigger).events.get e).machine = _
    rw [event_newEvent, if_neg (Nat.ne_of_lt he)]
  · obtain ⟨i, -, ⟨-, rfl⟩ | ⟨-, rfl⟩⟩ := disconnect_cases h
    · rfl
    · exact refiled i _
  · by_cases hi : i = e <;> simp [updateEvent, hi]

/-- Machines that have been made keep the states of models where they do. -/
theorem Change.accessor (h : Change w v) : w.machines.next ≤ v.machines.next ∧
    ∀ n < w.machines.next, (v.machine n).accessor = (w.machine n).accessor := by
  have tuned (m : MachineId) (f : Machine → Machine) (hf : (f (w.machine m)).accessor = (w.machine m).accessor) :
      w.machines.next ≤ (w.updateMachine m f).machines.next ∧
        ∀ n < w.machines.next, ((w.updateMachine m f).machine n).accessor = (w.machine n).accessor := by
    refine ⟨Heap.next_le_next_modify _ _ _, fun n _ => ?_⟩
    rw [machine_updateMachine]
    split
    · rename_i hmn
      exact hmn ▸ hf
    · rfl
  cases h with
  | aside h => exact ⟨Nat.le_of_eq (by rw [h.machines]), fun n _ => by rw [machine, machine, h.machines]⟩
  | makeState s => exact ⟨Nat.le_refl _, fun _ _ => rfl⟩
  | enroll m s hk hnew => exact tuned m _ rfl
  | hookState s c stage => exact ⟨Nat.le_refl _, fun _ _ => rfl⟩
  | makeTransition t => exact ⟨Nat.le_refl _, fun _ _ => rfl⟩
  | @connect _ m trigger source dest hooks h =>
    refine ⟨?_, fun n _ => ?_⟩
    · obtain ⟨-, moves, -, rfl⟩ := connect_cases h
      obtain ⟨-, -, -, machines⟩ := event_addMoves hooks (w.ensureEvent m trigger).1 0 moves
        (w.ensureEvent m trigger).2
      rw [machines]
      rcases ensureEvent_cases w m trigger with ⟨e, -, hens⟩ | ⟨-, hens⟩ <;> rw [hens]
      exact Heap.next_le_next_modify _ _ _
    · obtain ⟨_, hn⟩ := (relisted_connect h).machine n
      rw [hn]
  | disconnect h =>
    obtain ⟨e, -, ⟨-, rfl⟩ | ⟨-, rfl⟩⟩ := disconnect_cases h
    · exact tuned _ _ rfl
    · exact ⟨Nat.le_refl _, fun _ _ => rfl⟩
  | hookTransition t c stage => exact ⟨Nat.le_refl _, fun _ _ => rfl⟩
  | fileSource _ => exact ⟨Nat.le_refl _, fun _ _ => rfl⟩
  | tune m hf => exact tuned m _ (hf _).2.2
  | makeMachine machine hs he =>
    refine ⟨by simp, fun n hn => ?_⟩
    rw [World.machine, Heap.get_push, if_neg (Nat.ne_of_lt hn)]
    rfl

theorem Changes.owner (h : Changes w v) {e : EventId} (he : e < w.events.next) :
    (v.events.get e).machine = (w.events.get e).machine := by
  induction h with
  | refl => rfl
  | tail steps step ih => exact (step.owner (Nat.lt_of_lt_of_le he (Changes.grows steps).2.1)).trans ih

theorem Changes.accessor (h : Changes w v) : w.machines.next ≤ v.machines.next ∧
    ∀ n < w.machines.next, (v.machine n).accessor = (w.machine n).accessor := by
  induction h with
  | refl => exact ⟨Nat.le_refl _, fun _ _ => rfl⟩
  | tail _ step ih =>
    obtain ⟨more, same⟩ := step.accessor
    exact ⟨Nat.le_trans ih.1 more, fun n hn => (same n (Nat.lt_of_lt_of_le hn ih.1)).trans (ih.2 n hn)⟩

/-- What is kept elsewhere stays elsewhere. -/
theorem Elsewhere.later (h : w.Elsewhere m n) (hm : m < w.machines.next) (hv : Changes w v) :
    v.Elsewhere m n := by
  obtain ⟨more, same⟩ := hv.accessor
  refine ⟨Nat.lt_of_lt_of_le h.1 more, ?_⟩
  rw [same m hm, same n h.1]
  exact h.2

theorem Allows.later {task : Task} (h : w.Allows m x n task) (hm : m < w.machines.next) (hv : Changes w v) :
    v.Allows m x n task := by
  cases task with
  | call callback => trivial
  | fire e y args named =>
    obtain ⟨made, owner, reach⟩ := h
    refine ⟨Nat.lt_of_lt_of_le made hv.grows.2.1, (hv.owner made).trans owner, fun covers => ?_⟩
    exact (reach covers).imp_right (fun apart => apart.later hm hv)

/-- A machine does not keep the states of models elsewhere than it does. -/
theorem not_elsewhere_self (w : World) (m : MachineId) : ¬ w.Elsewhere m m := by
  rintro ⟨-, apart⟩
  cases hacc : (w.machine m).accessor with
  | field name =>
    rw [hacc] at apart
    exact apart rfl
  | ledger name id =>
    rw [hacc] at apart
    exact apart rfl

theorem Rests.of_same (h : Change w v) (hacc : (v.machine m).accessor = (w.machine m).accessor)
    (hx : v.models = w.models) (hl : ∀ id, v.ledgers.get id = w.ledgers.get id) : Rests m x w v :=
  ⟨h, fun _ held => held.of_same hacc (by rw [model, model, hx]) hl⟩

/-- Another attribute than the one in which the state of a model is kept may be written or removed. -/
theorem rests_attribute {z name : String} {f : Model → Model} (h : z = x → (w.machine m).accessor ≠ .field name)
    (hp : ∀ y, (f y).properties = y.properties)
    (hf : ∀ y k, k ≠ name → (f y).attributes.find? k = y.attributes.find? k) :
    Rests m x w (w.updateModel z f) := by
  refine ⟨.aside ⟨rfl, rfl, rfl, rfl⟩, fun a held => ?_⟩
  by_cases hz : z = x
  · subst hz
    unfold Holds at held ⊢
    rw [show (w.updateModel z f).machine m = w.machine m from rfl]
    cases hm : (w.machine m).accessor with
    | field own =>
      rw [hm] at held
      have other : own ≠ name := fun same => h rfl (by rw [hm, same])
      simp only [model_updateModel, if_true, hp, hf _ own other]
      exact held
    | ledger own id =>
      rw [hm] at held
      exact held
  · exact held.of_same rfl (by rw [model_updateModel, if_neg hz]) (fun _ => rfl)

theorem rests_writeAttribute {owner a : Value} {name : String}
    (h : owner = .model x → (w.machine m).accessor ≠ .field name) (hv : w.writeAttribute owner name a = .ok v) :
    Rests m x w v := by
  unfold writeAttribute at hv
  split at hv
  · split at hv
    · cases hv
    · cases hv
      refine rests_attribute (fun hz => h (by rw [hz])) (fun _ => rfl) (fun y k hk => ?_)
      have other : (name == k) = false := by simpa using hk.symm
      simp only [Table.find?_insert, other]
      rfl
  · cases hv

theorem rests_dropAttribute {owner : Value} {name : String}
    (h : owner = .model x → (w.machine m).accessor ≠ .field name) (hv : w.dropAttribute owner name = .ok v) :
    Rests m x w v := by
  unfold dropAttribute at hv
  split at hv
  · split at hv
    · cases hv
      refine rests_attribute (fun hz => h (by rw [hz])) (fun _ => rfl) (fun y k hk => ?_)
      exact Table.find?_erase_of_ne _ hk
    · cases hv
  · cases hv

/-- The state of a model is written without another one being reached, or this one where its machine keeps its
state elsewhere. -/
theorem rests_writeState {y a : Value} (h : y = .model x → w.Elsewhere m n) :
    (Engine.writeState n y a w).2 = w ∨ Rests m x w (Engine.writeState n y a w).2 := by
  unfold Engine.writeState
  rw [bind_of_ok (get_apply w)]
  cases hacc : (w.machine n).accessor with
  | field name =>
    simp only []
    cases hwrite : w.writeAttribute y name a with
    | error f => exact .inl (by rw [advance_error hwrite])
    | ok v =>
      rw [advance_ok hwrite]
      refine .inr (rests_writeAttribute (fun hy same => ?_) hwrite)
      obtain ⟨-, apart⟩ := h hy
      rw [hacc, same] at apart
      exact apart rfl
  | ledger name id =>
    simp only [change_apply]
    refine .inr ⟨.aside ⟨rfl, rfl, rfl, rfl⟩, fun b held => ?_⟩
    unfold Holds at held ⊢
    rw [show (({ w with ledgers := w.ledgers.modify id (·.insert y a) } : World).record
      (.stateWritten y a)).machine m = w.machine m from rfl]
    cases hm : (w.machine m).accessor with
    | field own =>
      rw [hm] at held
      exact held
    | ledger own j =>
      rw [hm] at held
      show ((w.ledgers.modify id (·.insert y a)).get j).find? (.model x) = some b
      rw [Heap.get_modify]
      split
      · rename_i hid
        -- both machines use this ledger, so the model that is written is another one
        have other : y ≠ .model x := fun hy => by
          obtain ⟨-, apart⟩ := h hy
          rw [hacc, hm] at apart
          exact apart hid.symm
        rw [Table.find?_insert_besides _ other]
        exact held
      · exact held

end World

end StateEngine
