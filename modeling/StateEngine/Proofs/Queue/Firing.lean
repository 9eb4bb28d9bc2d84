import StateEngine.Proofs.Queue.Echoes

/-! Two engines whose calls of host code echo each other process a firing alike. -/
namespace StateEngine
open Act World

namespace Joint

variable {m : MachineId} {R : World → World → Prop}

theorem writeState (hR : Joint m R) (n : MachineId) (model x : Value) :
    Echoes R (Engine.writeState n model x) (Engine.writeState n model x) := by
  unfold Engine.writeState
  refine .get_bind (fun w v h => ?_)
  have accessor := (hR.alike h).field Machine.accessor (fun _ _ _ => rfl) n
  rw [accessor]
  split
  · exact hR.advance (fun w v h => h.writeAttribute model _ x) w v h
  · next name id _ =>
    have plain : ∀ verb r, Entry.stateWritten model x ≠ .performed verb r := fun _ _ h => by cases h
    refine hR.change (fun w v h => ?_) (fun w => ?_) (fun v => ?_) w v h
    · have written : ({ w with ledgers := w.ledgers.modify id (·.insert model x) } : World).Alike m
          { v with ledgers := v.ledgers.modify id (·.insert model x) } := by
        refine { h with ledgers := ?_ }
        simp only [h.ledgers]
      exact written.record (.inl rfl)
    · refine Keeps.trans ?_ (.record { w with ledgers := w.ledgers.modify id (·.insert model x) } plain)
      exact .of_same rfl rfl rfl
    · refine Keeps.trans ?_ (.record { v with ledgers := v.ledgers.modify id (·.insert model x) } plain)
      exact .of_same rfl rfl rfl

theorem place (hR : Joint m R) (n : MachineId) (state models : Value) :
    Echoes R (Engine.place n state models) (Engine.place n state models) := by
  unfold Engine.place
  refine (hR.stateFor n state).bind (fun s => .get_bind (fun w v h => ?_))
  have bound : v.boundModels n = w.boundModels n := by
    unfold World.boundModels
    rw [(hR.alike h).rosters, (hR.alike h).field Machine.roster (fun _ _ _ => rfl)]
  simp only [bound, (hR.alike h).states]
  exact Echoes.forM (fun model => hR.writeState n model _) w v h

theorem relocate (hR : Joint m R) (n : MachineId) (dest : Value) (i : FiringId) :
    Echoes R (Engine.relocate n dest i) (Engine.relocate n dest i) := by
  unfold Engine.relocate
  refine .get_bind (fun w v h => ?_)
  rw [(hR.alike h).firings]
  exact ((hR.place n dest _).bind (fun _ => (hR.stateFor n dest).bind (fun d =>
    (hR.updateFiring i _).bind (fun _ => hR.lookupState n dest)))) w v h

/-- Asking for the candidates files the state in both worlds. -/
theorem candidatesFor (hR : Joint m R) (i : FiringId) :
    Echoes R (Engine.candidatesFor i) (Engine.candidatesFor i) := by
  unfold Engine.candidatesFor
  refine .get_bind (fun w v h => ?_)
  simp only [(hR.alike h).firings, (hR.alike h).states, (hR.alike h).events]
  split
  · exact .pure h _
  · have owners (e : EventId) (table : Event → Table Value (List TransitionId)) (w : World) :
        w.Keeps m (w.updateEvent e (fun event => { event with candidates := table event })) := by
      refine ⟨rfl, fun k => ?_, [], by simp [World.updateEvent], by simp⟩
      simp only [World.updateEvent, Heap.get_modify]
      split <;> rfl
    exact ((hR.change (fun w v h => h.updateEvent _ _) (owners _ _) (owners _ _)).bind
      (fun _ => .pure _)) w v h

theorem noteError (hR : Joint m R) (i : FiringId) (ended : Except Fault Unit) :
    Echoes R (Engine.noteError i ended) (Engine.noteError i ended) := by
  cases ended with
  | ok _ => exact .pure _
  | error f => exact .ite (hR.updateFiring i _) (.pure _)

end Joint

namespace Engine

variable {E E' : Engine} {m : MachineId} {R : World → World → Prop}

theorem Echoes.changeState (hE : E.Echoes E' m R) (n : MachineId) (source dest : Value) (i : FiringId) :
    Act.Echoes R (E.changeState n source dest i) (E'.changeState n source dest i) :=
  (hE.joint.lookupState n source).bind (fun s => (hE.runStage n s .exit i).bind (fun _ =>
    (hE.joint.relocate n dest i).bind (fun d => hE.runStage n d .enter i)))

theorem Echoes.moveAlong (hE : E.Echoes E' m R) (n : MachineId) (t : Transition) (i : FiringId) :
    Act.Echoes R (E.moveAlong n t i) (E'.moveAlong n t i) := by
  unfold Engine.moveAlong
  exact .ite (.pure _) (hE.changeState n _ _ i)

theorem Echoes.carryOut (hE : E.Echoes E' m R) (n : MachineId) (t : TransitionId) (transition : Transition)
    (i : FiringId) : Act.Echoes R (E.carryOut n t transition i) (E'.carryOut n t transition i) := by
  unfold Engine.carryOut
  refine .get_bind (fun w v h => ?_)
  rw [(hE.joint.alike h).transitions, (hE.joint.alike h).field Machine.beforeChange (fun _ _ _ => rfl)]
  refine (hE.runCallbacks n _ i).bind (fun _ => (hE.joint.remark _ _ _ _).bind (fun _ =>
    (hE.moveAlong n transition i).bind (fun _ => ?_))) w v h
  refine .get_bind (fun w v h => ?_)
  rw [(hE.joint.alike h).transitions, (hE.joint.alike h).field Machine.afterChange (fun _ _ _ => rfl)]
  exact (hE.runCallbacks n _ i).bind (fun _ => hE.joint.remark _ _ _ _) w v h

theorem Echoes.execute (hE : E.Echoes E' m R) (t : TransitionId) (i : FiringId) :
    Act.Echoes R (E.execute t i) (E'.execute t i) := by
  unfold Engine.execute
  refine .get_bind (fun w v h => ?_)
  simp only [(hE.joint.alike h).transitions, (hE.joint.alike h).firings, hE.bound]
  have prepares (w v : World) (h : w.Alike m v) :
      (v.transitions.get t).prepare = (w.transitions.get t).prepare := by rw [h.transitions]
  refine ((hE.joint.remark _ _ _ _).bind (fun _ => (hE.runGrowing _ prepares i _ _).bind (fun _ =>
    (hE.joint.remark _ _ _ _).bind (fun _ => .get_bind (fun w v h => ?_))))) w v h
  rw [(hE.joint.alike h).transitions]
  exact ((hE.checkAll _ i _).bind (fun passed =>
    .ite ((hE.carryOut _ t _ i).bind (fun _ => .pure _)) (.pure _))) w v h

theorem Echoes.tryCandidates (hE : E.Echoes E' m R) (i : FiringId) (ts : List TransitionId) :
    Act.Echoes R (E.tryCandidates i ts) (E'.tryCandidates i ts) := by
  induction ts with
  | nil => exact .pure _
  | cons t rest ih =>
    exact (hE.joint.updateFiring i _).bind (fun _ => (hE.execute t i).bind (fun fired =>
      .ite (hE.joint.updateFiring i _) ih))

theorem Echoes.attemptMoves (hE : E.Echoes E' m R) (n : MachineId) (i : FiringId) :
    Act.Echoes R (E.attemptMoves n i) (E'.attemptMoves n i) := by
  unfold Engine.attemptMoves
  refine .get_bind (fun w v h => ?_)
  rw [(hE.joint.alike h).field Machine.prepareEvent (fun _ _ _ => rfl)]
  exact (hE.runCallbacks n _ i).bind (fun _ => (hE.joint.remark _ _ _ _).bind (fun _ =>
    (hE.joint.candidatesFor i).bind (fun ts => hE.tryCandidates i ts))) w v h

theorem Echoes.closeFiring (hE : E.Echoes E' m R) (n : MachineId) (i : FiringId) {ended : Except Fault Unit}
    (hended : NoAbort ended) : Act.Echoes R (E.closeFiring n i ended) (E'.closeFiring n i ended) := by
  unfold Engine.closeFiring
  refine .get_bind (fun w v h => ?_)
  rw [(hE.joint.alike h).field Machine.finalizeEvent (fun _ _ _ => rfl)]
  refine (hE.runCallbacks n _ i).bind (fun _ => (hE.joint.remark _ _ _ _).bind (fun _ =>
    (Act.Echoes.ofExcept hended).bind (fun _ => .get_bind (fun w v h => ?_)))) w v h
  rw [(hE.joint.alike h).firings]
  exact .pure h _

theorem Echoes.processFiring (hE : E.Echoes E' m R) (i : FiringId) :
    Act.Echoes R (E.processFiring i) (E'.processFiring i) := by
  unfold Engine.processFiring
  refine .get_bind (fun w v h => ?_)
  simp only [(hE.joint.alike h).firings]
  exact (hE.attemptMoves _ i).attempt_bind (fun ended hended =>
    (hE.joint.noteError i ended).bind (fun _ => hE.closeFiring _ i hended)) w v h

/-- Firing an event now is firing it alike, refusals included. -/
theorem Echoes.fireNow (hE : E.Echoes E' m R) (e : EventId) (model : Value) (args : List Value)
    (named : Named) : Act.Echoes R (E.fireNow e model args named) (E'.fireNow e model args named) := by
  unfold Engine.fireNow
  refine .get_bind (fun w v h => ?_)
  simp only [(hE.joint.alike h).events]
  refine ((hE.currentState _ model).bind (fun s => .get_bind (fun w v h => ?_))) w v h
  have alike := hE.joint.alike h
  have flag (n : MachineId) : v.ignoreFlag n s = w.ignoreFlag n s := by
    unfold World.ignoreFlag
    rw [alike.states, alike.field Machine.ignore (fun _ _ _ => rfl)]
  simp only [alike.events, alike.states, alike.firings, flag, alike.field Machine.label (fun _ _ _ => rfl)]
  split
  · refine EchoesAt.bind ?_ (fun _ w v _ _ h => hE.processFiring _ w v h)
    refine fun _ => ⟨.ok _, _, _, rfl, rfl, hE.joint.keep h ?_ (.of_same rfl rfl rfl)
      (.of_same rfl alike.events.symm rfl), .ok _⟩
    exact { alike with states := rfl, events := rfl, firings := rfl }
  · split
    · exact (hE.joint.remark _ _ _ _).bind (fun _ => .pure _) w v h
    · exact .fail h rfl

end Engine

end StateEngine
