import StateEngine.Proofs.Growth.Firing

/-! What a machine did for a trigger before it had grown it does then, too: candidates that came later are not tried
as long as one of the earlier ones decides. -/
namespace StateEngine
open Act World Relation

namespace Engine

variable {E : Engine} {m : MachineId} {e : EventId} {line : Line Task} {w v u u' : World} {i : FiringId} {model : Value}
  {result : Bool} {s : StateId} {ts : List TransitionId}

/-- All candidates that a firing has decline it. -/
def Declines (E : Engine) (m : MachineId) (i : FiringId) (w : World) : Prop :=
  ∃ v, E.attemptMoves m i w = (.ok (), v) ∧ (v.firings.get i).result = false

/-- A trigger finds candidates for the state that a model is in, and not all of them decline: one of them fires, or
something is raised before. -/
def Decides (E : Engine) (m : MachineId) (e : EventId) (model : Value) (args : List Value) (named : Named) (w : World) :
    Prop :=
  ∃ s v ts, E.currentState m model w = (.ok s, v) ∧ (v.events.get e).candidates.find? (v.states.get s).name = some ts ∧
    ¬ E.Declines m v.firings.next
      (v.opened { state := s, event := e, machine := m, model := model, args := args, named := named })

/-- The end of a firing, whatever its result. -/
def Closing (m : MachineId) (line : Line Task) (w v : World) (e : EventId) (model : Value) (i : FiringId) (u u' : World) :
    Prop :=
  ∃ result, Pacing m line w v e model i result u u'

section Deciding

variable (hg : Outgrown m e w v) (hE : E.Repeats m line w v)

include hg hE

/-- Candidates are tried up to the first that fires or raises. If there is one, those behind it do not matter. -/
theorem paced_tryCandidates (hts : ∀ t ∈ ts, w.Filed e t) (more : List TransitionId)
    (h : Pacing m line w v e model i false u u')
    (decides : ¬ ∃ z, E.tryCandidates i ts u = (.ok (), z) ∧ (z.firings.get i).result = false) :
    InStepAt (Closing m line w v e model i) u u' (E.tryCandidates i ts) (E.tryCandidates i (ts ++ more)) := by
  induction ts generalizing u u' with
  | nil => exact absurd ⟨u, rfl, h.firing.result⟩ decides
  | cons t rest ih =>
    have ht : w.Filed e t := hts t List.mem_cons_self
    have noted : Pacing m line w v e model i false (u.updateFiring i (fun f => { f with transition := some t }))
        (u'.updateFiring i (fun f => { f with transition := some t })) := by
      refine h.updateFiring (fun f hf => { hf with transition := fun t' ht' => ?_ })
      obtain rfl := Option.some.inj ht'
      exact ht
    refine .bind_ok (change_apply _ u) (change_apply _ u') ?_
    refine .bind_of (fun _ _ h => ⟨false, h⟩) (paced_execute hg hE ht _ _ noted) (fun fired z z' hz _ h => ?_)
    cases fired with
    | true => exact ⟨rfl, true, h.updateFiring (fun f hf => { hf with result := rfl })⟩
    | false =>
      refine ih (fun t ht => hts t (List.mem_cons_of_mem _ ht)) h (fun ⟨z₁, hrest, declined⟩ => decides ⟨z₁, ?_, declined⟩)
      unfold tryCandidates
      rw [bind_of_ok (change_apply _ u), bind_of_ok hz]
      exact hrest

/-- The machine's preparation goes the same way, and the candidates are found before those that came later. -/
theorem paced_attemptMoves (hc : (w.events.get e).candidates.find? (w.states.get s).name = some ts)
    (h : Pacing m line w v e model i false u u') (hs : (u.firings.get i).state = s) (decides : ¬ E.Declines m i u) :
    InStepAt (Closing m line w v e model i) u u' (E.attemptMoves m i) (E.attemptMoves m i) := by
  obtain ⟨more, hmore⟩ := hg.candidates _ ts hc
  have filed : ∀ t ∈ ts, w.Filed e t := by
    intro t ht
    obtain ⟨k, -, hmem⟩ := Table.mem_of_find? hc
    exact ⟨(k, ts), hmem, ht⟩
  have attempting : E.attemptMoves m i u = (do
      E.runCallbacks m (u.machine m).prepareEvent i
      remark m .debug .event "Executed machine preparation callbacks before conditions."
      E.tryCandidates i (← candidatesFor i) : Run Unit) u := rfl
  unfold attemptMoves
  refine .get_bind ?_
  rw [h.field hg (fun machine => machine.prepareEvent) (fun _ _ _ => rfl)]
  refine .bind_of (fun _ _ h => ⟨false, h⟩) (paced_runCallbacks hE hg _ u u' h) (fun _ z z' hz _ h => ?_)
  have firings : z.firings = u.firings := (Steady.of_steps ((hE.steady.runCallbacks _ _ _).steps hz)).firings
  refine .bind_of (fun _ _ h => ⟨false, h⟩) (paced_remark hg _ _ _ z z' h) (fun _ z₁ z₁' hz₁ _ h => ?_)
  have state : (z₁.firings.get i).state = s := by
    cases hz₁
    show (z.firings.get i).state = s
    rw [firings, hs]
  have found : candidatesFor i z₁ = (.ok ts, z₁) := by
    apply candidatesFor_apply
    rw [h.firing.event, state, h.left.1, h.left.2.2]
    exact hc
  have found' : candidatesFor i z₁' = (.ok (ts ++ more), z₁') := by
    apply candidatesFor_apply
    rw [h.firings, h.firing.event, state, h.right.1, h.right.2.2, hg.states s (state ▸ h.firing.state)]
    exact hmore
  refine .bind_ok found found' (paced_tryCandidates hg hE filed more h (fun ⟨z₂, hrest, declined⟩ => decides ⟨z₂, ?_, declined⟩))
  rw [attempting, bind_of_ok hz, bind_of_ok hz₁, bind_of_ok found]
  exact hrest

theorem paced_closeFiring (ended : Except Fault Unit) :
    InStep (Pacing m line w v e model i result) (E.closeFiring m i ended) (E.closeFiring m i ended) := by
  unfold closeFiring
  refine .get_bind (fun u u' h => ?_)
  rw [h.field hg (fun machine => machine.finalizeEvent) (fun _ _ _ => rfl)]
  refine InStep.bind (paced_runCallbacks hE hg _) (fun _ => .bind (paced_remark hg _ _ _) (fun _ =>
    .bind (.ofExcept ended) (fun _ => .get_bind (fun u u' h => ?_)))) u u' h
  rw [h.firings]
  exact .pure h _

/-- A firing that is decided before the later candidates is processed the same way. -/
theorem paced_processFiring (hc : (w.events.get e).candidates.find? (w.states.get s).name = some ts)
    (h : Pacing m line w v e model i false u u') (hs : (u.firings.get i).state = s) (decides : ¬ E.Declines m i u) :
    InStepAt (Apace m line w v) u u' (E.processFiring i) (E.processFiring i) := by
  unfold processFiring
  refine .get_bind ?_
  simp only [h.firings, h.firing.machine]
  have attempted := (paced_attemptMoves hg hE hc h hs decides).attempt
  refine .bind_of (fun _ _ ⟨_, h⟩ => h.toApace) attempted (fun ended z z' _ _ h => ?_)
  obtain ⟨result, h⟩ := h
  have noted : InStep (Pacing m line w v e model i result) (noteError i ended) (noteError i ended) := by
    cases ended with
    | ok _ => exact .pure _
    | error f => exact .ite (.change (fun _ _ h => h.updateFiring (fun _ hf => { hf with }))) (.pure _)
  exact (noted.bind (fun _ => paced_closeFiring hg hE ended) z z' h).mono (fun _ _ h => h.toApace)

/-- A model is found in the same state. -/
theorem apace_currentState (h : Apace m line w v u u') {z : World} (hs : E.currentState m model u = (.ok s, z)) :
    ∃ z', E.currentState m model u' = (.ok s, z') ∧ Apace m line w v z z' ∧ s ∈ (w.machine m).states.values := by
  unfold currentState at hs ⊢
  obtain ⟨a, z₀, hread, hask⟩ := ok_of_bind_apply hs
  obtain ⟨found, rfl⟩ := ok_of_ask hask
  obtain ⟨z', hread', h'⟩ := (apace_readState hE hg model u u' h).ends hread
  have known : w.lookupState m a = .ok s := (lookupState_congr h'.left.1 h'.machine.1 a).symm.trans found
  refine ⟨z', ?_, h', (hg.lookup a s known).2⟩
  rw [bind_of_ok hread']
  exact ask_ok (h'.lookupState hg known).2

/-- An event that decides is fired the same way. -/
theorem apace_fireNow (owned : (w.events.get e).machine = m) {args : List Value} {named : Named}
    (decides : E.Decides m e model args named u) (h : Apace m line w v u u') :
    InStepAt (Apace m line w v) u u' (E.fireNow e model args named) (E.fireNow e model args named) := by
  obtain ⟨s, z, ts, hs, hc, decides⟩ := decides
  obtain ⟨z', hs', h', hmem⟩ := apace_currentState hg hE h hs
  rw [h'.left.1, h'.left.2.2] at hc
  obtain ⟨more, hmore⟩ := hg.candidates _ ts hc
  obtain ⟨firing, hfiring⟩ : ∃ firing : Firing, firing =
      { state := s, event := e, machine := m, model := model, args := args, named := named } := ⟨_, rfl⟩
  rw [← hfiring] at decides
  have opened : E.fireNow e model args named u = E.processFiring z.firings.next (z.opened firing) := by
    rw [hfiring]
    refine fireNow_opened (by rw [h.left.2.2, owned]) hs ?_
    rw [h'.left.1, h'.left.2.2, Table.contains, hc]
    rfl
  have opened' : E.fireNow e model args named u' = E.processFiring z'.firings.next (z'.opened firing) := by
    rw [hfiring]
    refine fireNow_opened (by rw [h.right.2.2, hg.owner.2, owned]) hs' ?_
    rw [h'.right.1, h'.right.2.2, hg.states s hmem, Table.contains, hmore]
    rfl
  have there : (z.opened firing).firings.get z.firings.next = firing := by simp [World.opened]
  have pacing : Pacing m line w v e model z.firings.next false (z.opened firing) (z'.opened firing) := by
    refine ⟨h'.openFiring firing, ?_⟩
    rw [there, hfiring]
    exact ⟨rfl, rfl, rfl, hmem, fun _ ht => (by cases ht), rfl⟩
  have processed := paced_processFiring hg hE hc pacing (by rw [there, hfiring]) decides
  unfold InStepAt at processed ⊢
  rw [opened, opened', h'.firings]
  exact processed

end Deciding

end Engine

end StateEngine
