import StateEngine.Proofs.Firing.Order
import StateEngine.Proofs.Growth.Apace

/-! A machine and what it has grown into move a model along the same transition. -/
namespace StateEngine
open Act World Relation

namespace World

variable {m : MachineId} {e : EventId} {line : Line Task} {w v u u' : World} {i : FiringId} {model : Value} {result : Bool}

theorem Apace.updateModel (h : Apace m line w v u u') (x : String) (f : Model → Model) :
    Apace m line w v (u.updateModel x f) (u'.updateModel x f) := by
  have models : (u'.updateModel x f).models = (u.updateModel x f).models := by
    rw [World.updateModel, World.updateModel, h.sameModel, h.models]
  exact ⟨⟨h.firings, h.rosters, h.ledgers, models, h.invocations, h.history⟩, h.left, h.right, h.machine, h.others⟩

theorem Apace.updateLedger (h : Apace m line w v u u') (id : LedgerId) (f : Table Value Value → Table Value Value) :
    Apace m line w v { u with ledgers := u.ledgers.modify id f } { u' with ledgers := u'.ledgers.modify id f } :=
  ⟨⟨h.firings, h.rosters, by rw [h.ledgers], h.models, h.invocations, h.history⟩, h.left, h.right, h.machine, h.others⟩

theorem Apace.writeAttribute (h : Apace m line w v u u') (owner : Value) (name : String) (a : Value) :
    (∃ f, u.writeAttribute owner name a = .error f ∧ u'.writeAttribute owner name a = .error f) ∨
      ∃ z z', u.writeAttribute owner name a = .ok z ∧ u'.writeAttribute owner name a = .ok z' ∧ Apace m line w v z z' := by
  cases owner with
  | model x =>
    simp only [World.writeAttribute, h.sameModel]
    split
    · exact .inl ⟨_, rfl, rfl⟩
    · exact .inr ⟨_, _, rfl, rfl, h.updateModel x _⟩
  | _ => exact .inl ⟨_, rfl, rfl⟩

/-- A transition that was filed before is as it was. -/
theorem Apace.transition (h : Apace m line w v u u') (hg : Outgrown m e w v) {t : TransitionId} (ht : w.Filed e t) :
    u.transitions.get t = w.transitions.get t ∧ u'.transitions.get t = w.transitions.get t := by
  rw [h.left.2.1, h.right.2.1]
  exact ⟨rfl, hg.transitions t ht⟩

end World

namespace Engine

variable {E : Engine} {m : MachineId} {e : EventId} {line : Line Task} {w v u u' : World} {i : FiringId} {model : Value}
  {result : Bool} {s : StateId} {t : TransitionId}

section Moving

variable (hg : Outgrown m e w v)

include hg

theorem apace_writeState (model a : Value) :
    InStep (Apace m line w v) (writeState m model a) (writeState m model a) := by
  refine .get_bind (fun u u' h => ?_)
  rw [h.field hg (fun machine => machine.accessor) (fun _ _ _ => rfl)]
  split
  · exact InStep.advance (fun u u' h => h.writeAttribute model _ a) u u' h
  · exact InStep.change (fun u u' h => (h.updateLedger _ _).record _) u u' h

/-- Models are placed in the same state, which had been registered before. -/
theorem apace_place {a : String} (hs : w.lookupState m (.text a) = .ok s) (models : Value) :
    InStep (Apace m line w v) (place m (.text a) models) (place m (.text a) models) := by
  intro u u' h
  obtain ⟨found, found'⟩ := h.lookupState hg hs
  have chosen : u'.boundModels m = u.boundModels m := by
    rw [boundModels, boundModels, h.rosters, h.field hg (fun machine => machine.roster) (fun _ _ _ => rfl)]
  have value : (u'.states.get s).value = (u.states.get s).value := by
    rw [h.left.1, h.right.1, hg.states s (hg.lookup _ s hs).2]
  refine .bind_ok (ask_ok (f := fun w : World => w.stateFor m (.text a)) found) (ask_ok found') (.get_bind ?_)
  simp only [chosen, value]
  exact InStep.forM (fun model => apace_writeState hg model _) u u' h

/-- The model of a firing is put into the same state, and the firing with it. -/
theorem paced_relocate {a : String} (hs : w.lookupState m (.text a) = .ok s) :
    InStep (Pacing m line w v e model i result) (relocate m (.text a) i) (relocate m (.text a) i) := by
  have placing (models : Value) : Act.Walks Steady (place m (.text a) models) := by
    refine (walks_place m (.text a) models).mono (fun _ _ written => .single ?_)
    rw [written]
    exact ⟨rfl, rfl, rfl, rfl, rfl, rfl⟩
  unfold relocate
  refine .get_bind (fun u u' h => ?_)
  rw [h.firings]
  refine .bind (pacing_of_apace (placing _) h (apace_place hg hs _ u u' h.toApace)) (fun _ z z' _ _ h => ?_)
  obtain ⟨found, found'⟩ := h.lookupState hg hs
  refine .bind_ok (ask_ok (f := fun w : World => w.stateFor m (.text a)) found) (ask_ok found') ?_
  have noted : Pacing m line w v e model i result (z.updateFiring i (fun f => { f with state := s }))
      (z'.updateFiring i (fun f => { f with state := s })) :=
    h.updateFiring (fun f hf => { hf with state := (hg.lookup _ s hs).2 })
  refine .bind ⟨rfl, noted⟩ (fun _ z z' _ _ h => ?_)
  refine InStep.ask (fun z z' h => ?_) z z' h
  obtain ⟨found, found'⟩ := h.lookupState hg hs
  rw [found, found']

variable (hE : E.Repeats m line w v)

include hE

/-- A model goes from one registered state to another one. -/
theorem paced_changeState {source : Value} {a : String} {d : StateId} (hs : w.lookupState m source = .ok s)
    (hd : w.lookupState m (.text a) = .ok d) :
    InStep (Pacing m line w v e model i result) (E.changeState m source (.text a) i)
      (E.changeState m source (.text a) i) := by
  intro u u' h
  obtain ⟨found, found'⟩ := h.lookupState hg hs
  refine .bind_ok (ask_ok (f := fun w : World => w.lookupState m source) found) (ask_ok found') ?_
  refine .bind (paced_runStage hE hg (hg.lookup _ s hs).2 .exit u u' h) (fun _ z z' _ _ h => ?_)
  refine .bind (paced_relocate hg hd z z' h) (fun there z z' hz _ h => ?_)
  obtain ⟨z₀, -, hthere, rfl⟩ := relocate_ok hz
  have known : z₀.lookupState m (.text a) = .ok d := (h.lookupState hg hd).1
  obtain rfl : there = d := Except.ok.inj (hthere.symm.trans known)
  exact paced_runStage hE hg (hg.lookup _ there hd).2 .enter _ _ h

theorem paced_moveAlong (ht : w.Filed e t) :
    InStep (Pacing m line w v e model i result) (E.moveAlong m (w.transitions.get t) i)
      (E.moveAlong m (w.transitions.get t) i) := by
  unfold moveAlong
  rcases hg.dest t ht with nowhere | ⟨a, d, hdest, hd⟩
  · rw [if_pos nowhere]
    exact .pure _
  · obtain ⟨s, hs⟩ := hg.source t ht
    rw [hdest]
    exact .ite (.pure _) (paced_changeState hg hE hs hd)

theorem paced_carryOut (ht : w.Filed e t) :
    InStep (Pacing m line w v e model i result) (E.carryOut m t (w.transitions.get t) i)
      (E.carryOut m t (w.transitions.get t) i) := by
  unfold carryOut
  refine .get_bind (fun u u' h => ?_)
  rw [(h.transition hg ht).1, (h.transition hg ht).2, h.field hg (fun machine => machine.beforeChange) (fun _ _ _ => rfl)]
  refine InStep.bind (paced_runCallbacks hE hg _) (fun _ => .bind (paced_remark hg _ _ _) (fun _ =>
    .bind (paced_moveAlong hg hE ht) (fun _ => .get_bind (fun u u' h => ?_)))) u u' h
  rw [(h.transition hg ht).1, (h.transition hg ht).2, h.field hg (fun machine => machine.afterChange) (fun _ _ _ => rfl)]
  exact InStep.bind (paced_runCallbacks hE hg _) (fun _ => paced_remark hg _ _ _) u u' h

/-- A candidate that was filed before goes the same way. -/
theorem paced_execute (ht : w.Filed e t) :
    InStep (Pacing m line w v e model i result) (E.execute t i) (E.execute t i) := by
  unfold execute
  refine .get_bind (fun u u' h => ?_)
  simp only [h.firings, h.firing.machine, (h.transition hg ht).1, (h.transition hg ht).2]
  have prepares (u u' : World) (h : Pacing m line w v e model i result u u') :
      (u'.transitions.get t).prepare = (u.transitions.get t).prepare := by
    rw [(h.transition hg ht).1, (h.transition hg ht).2]
  refine InStep.bind (paced_remark hg _ _ _) (fun _ => .bind (paced_runGrowing hE hg prepares _ _) (fun _ =>
    .bind (paced_remark hg _ _ _) (fun _ => .get_bind (fun u u' h => ?_)))) u u' h
  rw [(h.transition hg ht).1, (h.transition hg ht).2]
  exact InStep.bind (paced_checkAll hE hg _) (fun passed =>
    .ite (.bind (paced_carryOut hg hE ht) (fun _ => .pure _)) (.pure _)) u u' h

end Moving

end Engine

end StateEngine
