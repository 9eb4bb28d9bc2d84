import StateEngine.Proofs.Journey.Underway

/-! Over a whole history of operations a model goes from state to state along transitions only that its machine had
registered. -/
namespace StateEngine
open Act Relation World

variable {E : Engine} {cut : Prop} {m n : MachineId} {x : String} {T : World → Prop} {w v : World}

section Elsewhere

variable (hE : E.Goes cut (Regards m x T)) (hT : Endures m x T)

include hE hT

end Elsewhere

section Binding

variable {a : String}

/-- What was written without error is what the model has for its state. -/
theorem holds_of_writeState {b : Value} (h : Engine.writeState m (.model x) b w = (.ok (), v)) :
    v.Holds m x b ∧ World.Written w v := by
  have written := written_writeState m (.model x) b w
  rw [h] at written
  refine ⟨?_, written⟩
  have machine : v.machine m = w.machine m := by
    rw [show v = _ from written]
    rfl
  unfold Holds
  rw [machine]
  unfold Engine.writeState at h
  rw [bind_of_ok (get_apply w)] at h
  cases hacc : (w.machine m).accessor with
  | field name =>
    simp only [hacc] at h ⊢
    cases hwrite : w.writeAttribute (.model x) name b with
    | error f =>
      rw [advance_error hwrite] at h
      cases h
    | ok u =>
      rw [advance_ok hwrite] at h
      obtain rfl := (Prod.mk.inj h).2
      unfold World.writeAttribute at hwrite
      simp only [] at hwrite
      split at hwrite
      · cases hwrite
      · rename_i free
        cases hwrite
        simp only [model_updateModel, if_true, Table.find?_insert, beq_self_eq_true]
        exact ⟨by simpa [Table.contains] using free, trivial⟩
  | ledger name id =>
    simp only [hacc, change_apply] at h ⊢
    obtain rfl := (Prod.mk.inj h).2
    show ((w.ledgers.modify id (·.insert (.model x) b)).get id).find? (.model x) = some b
    rw [Heap.get_modify, if_pos rfl, Table.find?_insert_model, if_pos rfl]

/-- A model that was placed has the value of the state that the reference stood for. -/
theorem holds_of_place {state : Value} (h : Engine.place m state (.model x) w = (.ok (), v)) :
    ∃ s, w.stateFor m state = .ok s ∧ v.Holds m x (w.states.get s).value ∧ World.Written w v := by
  obtain ⟨s, u, asked, placed⟩ := ok_of_bind_apply h
  obtain ⟨found, rfl⟩ := ok_of_ask asked
  have wrote : (Engine.writeState m (.model x) (u.states.get s).value >>= fun _ => pure ⟨⟩) u = (.ok (), v) := placed
  obtain ⟨_, v', hwrite, rest⟩ := ok_of_bind_apply wrote
  obtain rfl := (Prod.mk.inj rest).2
  exact ⟨s, found, holds_of_writeState hwrite⟩

end Binding

end StateEngine
