import StateEngine.Proofs.Registry.Change

/-! Firing a trigger goes by steps, and so does all that stands between a callback and the machine. -/
namespace StateEngine
open Act World

namespace Line.Setting

variable {σ τ : Type} {R : σ → σ → Prop} {S : Setting σ τ}

/-- What a line needs for its work to go by steps. -/
structure Walks (R : σ → σ → Prop) (S : Setting σ τ) : Prop where
  run : ∀ task, Act.Walks R (S.run task)
  write : ∀ line s, Relation.ReflTransGen R s (S.slot.write line s)
  remark : ∀ message, Act.Walks R (S.remark message)

theorem Walks.store (h : S.Walks R) (line : Line τ) : Act.Walks R (S.store line) :=
  .change (h.write line)

theorem Walks.serve (h : S.Walks R) (task : τ) : Act.Walks R (S.serve task) := by
  refine .bind (h.run task) (fun _ => .bind .get (fun s => ?_))
  split
  · exact h.store _
  · exact .fail _

theorem Walks.abandon (h : S.Walks R) (f : Fault) : Act.Walks R (S.abandon f) := by
  unfold Setting.abandon
  cases f.isError with
  | false => exact .fail f
  | true =>
    exact .bind .get (fun s => .bind (h.remark _) (fun _ => .bind (h.store _) (fun _ => .fail f)))

theorem Walks.drain (h : S.Walks R) (fuel : Nat) : Act.Walks R (S.drain fuel) := by
  induction fuel with
  | zero => exact .exhausted
  | succ fuel ih =>
    refine .bind .get (fun s => ?_)
    split
    · refine .bind (.attempt (h.serve _)) (fun r => ?_)
      cases r with
      | ok _ => exact ih
      | error f => exact h.abandon f
    · exact .pure _

theorem Walks.submit (h : S.Walks R) (task : τ) : Act.Walks R (S.submit task) := by
  refine .bind .get (fun s => ?_)
  split
  · exact .fail _
  · exact .bind (h.store _) (fun _ => .bind (.attempt (h.run task)) (fun r =>
      .bind (h.store _) (fun _ => .ofExcept r)))
  · exact .bind (h.store _) (fun _ => h.drain _)
  · exact .bind (h.store _) (fun _ => .bind (h.remark _) (fun _ => .pure _))

end Line.Setting

namespace Engine

variable {E : Engine} {P : Operation → Prop} {R : World → World → Prop}

theorem walks_relocate (hR : Permits P R) (m : MachineId) (dest : Value) (i : FiringId) :
    Act.Walks R (relocate m dest i) := by
  refine .bind .get (fun w => .bind (walks_placing hR m dest _) (fun _ => .bind (.ask _) (fun d => ?_)))
  exact .bind (.change (fun w => hR.step (.restate w i d))) (fun _ => .ask _)

theorem Walks.changeState (hE : E.Walks R) (hR : Permits P R) (m : MachineId) (source dest : Value)
    (i : FiringId) : Act.Walks R (E.changeState m source dest i) := by
  refine .bind (.ask _) (fun s => .bind (hE.runStage m s .exit i) (fun _ => ?_))
  exact .bind (walks_relocate hR m dest i) (fun d => hE.runStage m d .enter i)

theorem Walks.moveAlong (hE : E.Walks R) (hR : Permits P R) (m : MachineId) (transition : Transition)
    (i : FiringId) : Act.Walks R (E.moveAlong m transition i) :=
  .ite (.pure _) (hE.changeState hR m _ _ i)

theorem Walks.carryOut (hE : E.Walks R) (hR : Permits P R) (m : MachineId) (t : TransitionId)
    (transition : Transition) (i : FiringId) : Act.Walks R (E.carryOut m t transition i) := by
  refine .bind .get (fun w => .bind (hE.runCallbacks m _ i) (fun _ => ?_))
  refine .bind (hE.remark _ _ _ _) (fun _ => .bind (hE.moveAlong hR m transition i) (fun _ => ?_))
  exact .bind .get (fun w => .bind (hE.runCallbacks m _ i) (fun _ => hE.remark _ _ _ _))

theorem Walks.execute (hE : E.Walks R) (hR : Permits P R) (t : TransitionId) (i : FiringId) :
    Act.Walks R (E.execute t i) := by
  refine .bind .get (fun w => .bind (hE.remark _ _ _ _) (fun _ => ?_))
  refine .bind (hE.runGrowing _ _ i _ _) (fun _ => .bind (hE.remark _ _ _ _) (fun _ => ?_))
  refine .bind .get (fun w => .bind (hE.checkAll _ i _) (fun passed => .ite ?_ (.pure _)))
  exact .bind (hE.carryOut hR _ t _ i) (fun _ => .pure _)

theorem walks_candidatesFor (hR : Permits P R) (i : FiringId) : Act.Walks R (candidatesFor i) := by
  refine .get_bind (fun w => ?_)
  simp only []
  split
  · exact Walks.pure _ w
  · rename_i missing
    exact WalksFrom.bind (hR.step (.fileSource ⟨rfl, rfl, missing⟩)) (fun _ v _ => Walks.pure _ v)

theorem Walks.closeFiring (hE : E.Walks R) (m : MachineId) (i : FiringId) (ended : Except Fault Unit) :
    Act.Walks R (E.closeFiring m i ended) := by
  refine .bind .get (fun w => .bind (hE.runCallbacks m _ i) (fun _ => ?_))
  exact .bind (hE.remark _ _ _ _) (fun _ => .bind (.ofExcept ended) (fun _ => .bind .get (fun w => .pure _)))

section Processing

variable {i : FiringId} (hi : ∀ w f, Relation.ReflTransGen R w (w.updateFiring i f))

include hi

theorem Walks.tryCandidates (hE : E.Walks R) (hR : Permits P R) (ts : List TransitionId) :
    Act.Walks R (E.tryCandidates i ts) := by
  induction ts with
  | nil => exact .pure _
  | cons t rest ih =>
    exact .bind (.change (fun w => hi w _)) (fun _ => .bind (hE.execute hR t i) (fun fired =>
      .ite (.change (fun w => hi w _)) ih))

theorem Walks.attemptMoves (hE : E.Walks R) (hR : Permits P R) (m : MachineId) :
    Act.Walks R (E.attemptMoves m i) :=
  .bind .get (fun _ => .bind (hE.runCallbacks m _ i) (fun _ => .bind (hE.remark _ _ _ _) (fun _ =>
    .bind (walks_candidatesFor hR i) (fun ts => hE.tryCandidates hi hR ts))))

theorem walks_noteError (ended : Except Fault Unit) : Act.Walks R (noteError i ended) := by
  cases ended with
  | ok _ => exact .pure _
  | error f => exact .ite (.change (fun w => hi w _)) (.pure _)

theorem Walks.processFiring (hE : E.Walks R) (hR : Permits P R) : Act.Walks R (E.processFiring i) := by
  refine .bind .get (fun w => .bind (.attempt (hE.attemptMoves hi hR _)) (fun ended => ?_))
  exact .bind (walks_noteError hi ended) (fun _ => hE.closeFiring _ i ended)

end Processing

theorem Walks.fireNow (hE : E.Walks R) (hR : Permits P R) (e : EventId) (model : Value) (args : List Value)
    (named : Named) : Act.Walks R (E.fireNow e model args named) := by
  refine .bind .get (fun w => .bind (hE.currentState _ model) (fun s => .get_bind (fun w => ?_)))
  simp only []
  split
  · rcases hR.fresh w with free | progress
    · exact .single (free _)
    · refine WalksFrom.bind ?_ (fun _ v _ => hE.processFiring progress hR v)
      exact hR.step (.openFiring w _)
  · exact Walks.ite (.bind (hE.remark _ _ _ _) (fun _ => .pure _)) (.fail _) w

theorem Walks.runTask (hE : E.Walks R) (hR : Permits P R) (task : Task) : Act.Walks R (E.runTask task) := by
  cases task with
  | fire e model args named => exact hE.fireNow hR e model args named
  | call callback => exact hE.apply _ _

/-- Handing in a task goes by steps where the line may be written in any way. -/
theorem Walks.submit (hE : E.Walks R) (hR : Permits P R) {m : MachineId}
    (hm : ∀ line (w : World), Relation.ReflTransGen R w
      (w.updateMachine m (fun machine => { machine with line := line }))) (task : Task) :
    Act.Walks R (E.submit m task) := by
  refine .bind .get (fun w => Line.Setting.Walks.submit ⟨hE.runTask hR, hm, fun message => ?_⟩ task)
  exact walks_note hR (fun _ => ⟨rfl, fun _ => rfl⟩)

section Submitting

variable (hs : ∀ m task, Act.Walks R (E.submit m task))

include hs

theorem Walks.trigger (hE : E.Walks R) (m : MachineId) (model name : Value) (args : List Value)
    (named : Named) : Act.Walks R (E.trigger m model name args named) := by
  refine .ite (.fail _) (.bind (.ask _) (fun e => ?_))
  split
  · exact .bind .get (fun w => hs _ _)
  · refine .bind (hE.currentState m model) (fun s => .bind .get (fun w => .ite ?_ (.fail _)))
    exact .bind (hE.remark _ _ _ _) (fun _ => .pure _)

theorem Walks.triggerEach (hE : E.Walks R) (m : MachineId) (roster : RosterId) (name : Value)
    (args : List Value) (named : Named) (fuel position : Nat) (soFar : Bool) :
    Act.Walks R (E.triggerEach m roster name args named fuel position soFar) := by
  induction fuel generalizing position soFar with
  | zero => exact .exhausted
  | succ fuel ih =>
    refine .bind .get (fun w => ?_)
    split
    · exact .bind (hE.trigger hs m _ name args named) (fun _ => ih _ _)
    · exact .pure _

theorem Walks.triggerAll (hE : E.Walks R) (m : MachineId) (name : Value) (args : List Value)
    (named : Named) : Act.Walks R (E.triggerAll m name args named) :=
  .ite (.fail _) (.bind .get (fun _ => hE.triggerEach hs m _ name args named _ _ _))

end Submitting

end Engine

end StateEngine
