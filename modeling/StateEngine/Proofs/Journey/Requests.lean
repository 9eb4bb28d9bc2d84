import StateEngine.Proofs.Journey.Regard

/-! What callbacks may ask for where a machine alone is to move a model bears with the model, and so do the
callbacks. -/
namespace StateEngine
open Act Relation World

variable {E : Engine} {cut : Prop} {m n : MachineId} {x : String} {T : World → Prop} {w v : World}

namespace World

theorem rests_hookTransition (w : World) (t : TransitionId) (c : Callback) (stage : TransitionStage) :
    Spared m x w (w.updateTransition t (·.addCallback c stage)) ∧
      Rests m x w (w.updateTransition t (·.addCallback c stage)) :=
  ⟨.of_same rfl rfl (fun _ _ => rfl), .of_same (.hookTransition w t c stage) rfl rfl (fun _ => rfl)⟩

end World

namespace Engine

section Triggers

variable (hE : E.Goes cut (Regards m x T)) (hT : Endures m x T) (hM : E.Moves cut m x T)

include hE hT hM

end Triggers

section Registering

variable (hT : Endures m x T) (hE : E.Goes cut (Regards m x T))

include hT

end Registering

end Engine

end StateEngine
