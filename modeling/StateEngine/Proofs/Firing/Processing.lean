import StateEngine.Proofs.Firing.Plays

/-! The processing of a firing takes its course, from the machine's preparation to the finalising
callbacks. -/
namespace StateEngine

/-- A world with a firing that has just been opened. -/
def World.opened (w : World) (firing : Firing) : World := { w with firings := w.firings.push firing }

namespace Engine
open Act World

variable {E : Engine} {m : MachineId} {i : FiringId} {w₀ : World} {s : StateId}

theorem quiet_progress {w : World} {f : Firing → Firing}
    (hf : ∃ transition fault result, f (w.firings.get i) =
      { w.firings.get i with transition, fault, result }) : Quiet i w (w.updateFiring i f) := by
  refine ⟨rfl, fun j hj => ?_, ?_, [], by simp [updateFiring], by simp⟩
  · simp [updateFiring, hj.symm]
  · simpa [updateFiring] using hf

/-- An event that has an entry for the state of a model is processed. -/
theorem fireNow_opened {w v : World} {e : EventId} {model : Value} {args : List Value} {named : Named} {s : StateId}
    (hm : (w.events.get e).machine = m) (hs : E.currentState m model w = (.ok s, v))
    (hc : (v.events.get e).candidates.contains (v.states.get s).name = true) :
    E.fireNow e model args named w = E.processFiring v.firings.next
      (v.opened { state := s, event := e, machine := m, model := model, args := args, named := named }) := by
  unfold Engine.fireNow
  rw [bind_of_ok (get_apply w)]
  simp only [hm]
  rw [bind_of_ok hs, bind_of_ok (get_apply v)]
  simp only [hc, if_true]
  rw [bind_of_ok (set_apply _ _)]
  rfl

/-- The candidates are tried in order, and the firing notes whether one of them fired. -/
theorem tryCandidates_tries (hE : E.Calm) (hroom : E.Roomy w₀) (hm : (w₀.firings.get i).machine = m)
    {us : List TransitionId} (hl : ∀ u ∈ us, w₀.Leads m s (w₀.transitions.get u)) {w : World}
    (hw : Still i w₀ w) (hr : (w.firings.get i).result = false) :
    ∃ ys verdict v, E.tryCandidates i us w = ((verdict.map fun _ => ()).mapError .fault, v) ∧
      E.Conducts m i w ys v ∧
      Tries ((us.map w₀.transitions.get).map (w₀.candidateCues m s)) ys verdict ∧
      ∀ fired, verdict = .ok fired → (v.firings.get i).result = fired := by
  induction us generalizing w with
  | nil =>
    refine ⟨[], .ok false, w, rfl, .done w, .none, fun fired h => ?_⟩
    cases h
    exact hr
  | cons u us ih =>
    have noted : Quiet i w (w.updateFiring i (fun f => { f with transition := some u })) :=
      quiet_progress ⟨_, _, _, rfl⟩
    have executed := Plays.execute hE hroom hm (hl u List.mem_cons_self)
    obtain ⟨xs, r, v, hx, hc, hres, hf⟩ := executed _ (hw.trans noted.still)
    have hres : (v.firings.get i).result = false := by
      rw [hres]
      simpa [updateFiring] using hr
    have begun : E.tryCandidates i (u :: us) w = (do
        if ← E.execute u i then Act.change (updateFiring i (fun f => { f with result := true }))
        else E.tryCandidates i us : Run Unit) (w.updateFiring i (fun f => { f with transition := some u })) :=
      rfl
    rw [begun, bind_apply, hx]
    cases r with
    | error e =>
      exact ⟨xs, .error e, v, rfl, .quiet noted hc, .settled _ hf (fun h => by cases h),
        fun fired h => by cases h⟩
    | ok fired =>
      cases fired with
      | true =>
        have settled : Quiet i v (v.updateFiring i (fun f => { f with result := true })) :=
          quiet_progress ⟨_, _, _, rfl⟩
        refine ⟨xs, .ok true, _, rfl, ?_, .settled _ hf (fun h => by cases h), fun fired h => ?_⟩
        · rw [← List.append_nil xs]
          exact .quiet noted (hc.trans (.single_quiet settled))
        · cases h
          simp [updateFiring]
      | false =>
        have still := (hw.trans noted.still).trans (hc.still hE)
        obtain ⟨ys, verdict, z, ht, hc', htries, hfired⟩ :=
          ih (fun x hx => hl x (List.mem_cons_of_mem _ hx)) still hres
        exact ⟨xs ++ ys, verdict, z, ht, .quiet noted (hc.trans hc'), .halted hf htries, hfired⟩

/-- A firing that has just begun, for an event with some candidates for its state. -/
structure Begun (w : World) (m : MachineId) (i : FiringId) (s : StateId) (us : List TransitionId) :
    Prop where
  machine : (w.firings.get i).machine = m
  state : (w.firings.get i).state = s
  result : (w.firings.get i).result = false
  candidates : (w.events.get (w.firings.get i).event).candidates.find? (w.states.get s).name = some us
  leads : ∀ u ∈ us, w.Leads m s (w.transitions.get u)

theorem candidatesFor_apply {w : World} {us : List TransitionId}
    (h : (w.events.get (w.firings.get i).event).candidates.find?
      (w.states.get (w.firings.get i).state).name = some us) :
    candidatesFor i w = (.ok us, w) := by
  unfold candidatesFor
  rw [bind_apply, get_apply]
  simp only [h]
  rfl

/-- What comes ahead of the end of a firing: the preparation, and the candidates unless it failed. -/
theorem attemptMoves_plays (hE : E.Calm) (hroom : E.Roomy w₀) {us : List TransitionId}
    (hb : Begun w₀ m i s us) :
    ∃ xs ended v, E.attemptMoves m i w₀ = (ended.mapError .fault, v) ∧ E.Conducts m i w₀ xs v ∧
      ((∃ f, ended = .error f ∧ Follows ((w₀.machine m).prepareEvent.map .run) xs (.error f)) ∨
        ∃ ps ys verdict, xs = ps ++ ys ∧ ended = verdict.map (fun _ => ()) ∧
          Follows ((w₀.machine m).prepareEvent.map .run) ps (.ok true) ∧
          Tries ((us.map w₀.transitions.get).map (w₀.candidateCues m s)) ys verdict ∧
          ∀ fired, verdict = .ok fired → (v.firings.get i).result = fired) := by
  have preparing : E.Plays m i w₀ (E.runCallbacks m (w₀.machine m).prepareEvent i) _ :=
    .runCallbacks hE _
  obtain ⟨ps, r, v, hp, hc, hres, hf⟩ := preparing w₀ (.refl w₀)
  have begun : E.attemptMoves m i w₀ = (do
      E.runCallbacks m (w₀.machine m).prepareEvent i
      remark m .debug .event "Executed machine preparation callbacks before conditions."
      E.tryCandidates i (← candidatesFor i) : Run Unit) w₀ := rfl
  rw [begun, bind_apply, hp]
  cases r with
  | error f => exact ⟨ps, .error f, v, rfl, hc, .inl ⟨f, rfl, hf⟩⟩
  | ok _ =>
    have remarked := quiet_record (i := i) (w := v) .debug .event
      ((v.machine m).label ++ "Executed machine preparation callbacks before conditions.")
    obtain ⟨v', hv'⟩ : ∃ v', v' = v.record (.remarked .debug .event
      ((v.machine m).label ++ "Executed machine preparation callbacks before conditions.")) := ⟨_, rfl⟩
    rw [← hv'] at remarked
    have still := (hc.still hE).trans remarked.still
    have state : (v'.firings.get i).state = (w₀.firings.get i).state := by
      rw [hv']
      exact hc.state hE (hf.still (by simp [Cue.moves]))
    have found : candidatesFor i v' = (.ok us, v') := by
      refine candidatesFor_apply ?_
      rw [still.events, still.states, still.told.1, state, hb.state]
      exact hb.candidates
    have result : (v'.firings.get i).result = false := by
      rw [hv']
      exact hres.trans hb.result
    obtain ⟨ys, verdict, u, ht, hc', htries, hfired⟩ :=
      tryCandidates_tries hE hroom hb.machine hb.leads still result
    refine ⟨ps ++ ys, verdict.map (fun _ => ()), u, ?_, hc.trans (.quiet remarked hc'),
      .inr ⟨ps, ys, verdict, rfl, rfl, hf, htries, hfired⟩⟩
    have rest : (do
        remark m .debug .event "Executed machine preparation callbacks before conditions."
        E.tryCandidates i (← candidatesFor i) : Run Unit) v = (candidatesFor i >>= E.tryCandidates i) v' := by
      rw [hv']
      rfl
    show (do
        remark m .debug .event "Executed machine preparation callbacks before conditions."
        E.tryCandidates i (← candidatesFor i) : Run Unit) v = _
    rw [rest, bind_apply, found]
    exact ht

/-- An error is noted quietly. -/
theorem noteError_quiet (ended : Except Fault Unit) (w : World) :
    ∃ v, noteError i ended w = (.ok (), v) ∧ Quiet i w v ∧
      (v.firings.get i).result = (w.firings.get i).result := by
  have same : Quiet i w w := ⟨rfl, fun _ _ => rfl, ⟨_, _, _, rfl⟩, [], by simp, by simp⟩
  cases ended with
  | ok _ => exact ⟨w, rfl, same, rfl⟩
  | error f =>
    cases hf : f.isError with
    | true =>
      refine ⟨w.updateFiring i (fun x => { x with fault := some f }), ?_, quiet_progress ⟨_, _, _, rfl⟩, ?_⟩
      · simp [noteError, hf]
      · simp [updateFiring]
    | false => exact ⟨w, by simp [noteError, hf], same, rfl⟩

/-- At its end a firing runs the finalising callbacks and then ends as it was to end, or with its result. -/
theorem Plays.closeFiring (hE : E.Calm) (ended : Except Fault Unit) (fired : Bool) {w : World}
    (hw : Still i w₀ w) (hr : ended = .ok () → (w.firings.get i).result = fired) :
    E.PlaysAt m i w (E.closeFiring m i ended) (fun zs r => ∃ closing,
      Follows ((w₀.machine m).finalizeEvent.map .run) zs closing ∧
        r = closing >>= fun _ => ended.map (fun _ => .bool fired)) := by
  have finalizing : E.Plays m i w₀ (E.runCallbacks m (w₀.machine m).finalizeEvent i) _ :=
    .runCallbacks hE _
  obtain ⟨zs, r, v, hz, hc, hres, hf⟩ := finalizing w hw
  have begun : E.closeFiring m i ended w = (do
      E.runCallbacks m (w₀.machine m).finalizeEvent i
      StateEngine.remark m .debug .event "Executed machine finalize callbacks"
      Act.ofExcept ended
      return .bool ((← get).firings.get i).result : Run Value) w := by
    have finalize : (w.machine m).finalizeEvent = (w₀.machine m).finalizeEvent := by rw [hw.machine m]
    rw [← finalize]
    rfl
  unfold PlaysAt
  rw [begun, bind_apply, hz]
  cases r with
  | error f => exact ⟨zs, .error f, v, rfl, hc, hres, .error f, hf, rfl⟩
  | ok _ =>
    have remarked := quiet_record (i := i) (w := v) .debug .event
      ((v.machine m).label ++ "Executed machine finalize callbacks")
    have conducts := hc.trans (.single_quiet remarked)
    rw [List.append_nil] at conducts
    cases ended with
    | error f => exact ⟨zs, .error f, _, rfl, conducts, hres, .ok true, hf, rfl⟩
    | ok _ =>
      refine ⟨zs, .ok (.bool fired), _, ?_, conducts, hres, .ok true, hf, rfl⟩
      rw [← hr rfl, ← hres]
      rfl

/-- The processing of a firing takes its course, and its answer tells whether a candidate fired. -/
theorem processFiring_course (hE : E.Calm) (hroom : E.Roomy w₀) {us : List TransitionId}
    (hb : Begun w₀ m i s us) :
    ∃ xs verdict v, E.processFiring i w₀ = ((verdict.map Value.bool).mapError .fault, v) ∧
      E.Conducts m i w₀ xs v ∧ Course w₀ m s (us.map w₀.transitions.get) xs verdict := by
  obtain ⟨xs, ended, v, ha, hc, hbody⟩ := attemptMoves_plays hE hroom hb
  have begun : E.processFiring i w₀ = (do
      noteError i ended
      E.closeFiring m i ended : Run Value) v := by
    unfold Engine.processFiring
    rw [bind_apply, get_apply]
    simp only [hb.machine]
    rw [bind_apply, attempt_apply ha]
  obtain ⟨v', hn, quiet, hresult⟩ := noteError_quiet (i := i) ended v
  have still := (hc.still hE).trans quiet.still
  rw [begun, bind_apply, hn]
  rcases hbody with ⟨f, rfl, hp⟩ | ⟨ps, ys, verdict, rfl, rfl, hp, ht, hfired⟩
  · obtain ⟨zs, r, u, hz, hc', -, closing, hf, rfl⟩ :=
      Plays.closeFiring (m := m) hE (.error f) false still (fun h => by cases h)
    refine ⟨xs ++ zs, closing >>= fun _ => .error f, u, ?_, hc.trans (.quiet quiet hc'), .unprepared hp hf⟩
    show E.closeFiring m i (.error f) v' = _
    rw [hz]
    cases closing <;> rfl
  · cases verdict with
    | error f =>
      obtain ⟨zs, r, u, hz, hc', -, closing, hf, rfl⟩ :=
        Plays.closeFiring (m := m) hE (.error f) false still (fun h => by cases h)
      refine ⟨ps ++ ys ++ zs, closing >>= fun _ => .error f, u, ?_, hc.trans (.quiet quiet hc'),
        .prepared hp ht hf⟩
      show E.closeFiring m i (.error f) v' = _
      rw [hz]
      cases closing <;> rfl
    | ok fired =>
      obtain ⟨zs, r, u, hz, hc', -, closing, hf, rfl⟩ :=
        Plays.closeFiring (m := m) hE (.ok ()) fired still (fun _ => hresult.trans (hfired fired rfl))
      refine ⟨ps ++ ys ++ zs, closing >>= fun _ => .ok fired, u, ?_, hc.trans (.quiet quiet hc'),
        .prepared hp ht hf⟩
      show E.closeFiring m i (.ok ()) v' = _
      rw [hz]
      cases closing <;> rfl

theorem steady_currentState (hE : E.Calm) {model : Value} {w v : World} {r : Except Stop StateId}
    (h : E.currentState m model w = (r, v)) : Steady w v := by
  have walked : Relation.ReflTransGen Steady w (E.currentState m model w).2 := hE.walks.currentState m model w
  rw [h] at walked
  exact .of_steps walked

/-- Firing an event on a model takes its course from the state that the model is in, if there is an entry
for that state. -/
theorem fireNow_course (hE : E.Calm) {w v : World} {e : EventId} {model : Value} (args : List Value)
    (named : Named) {us : List TransitionId} (hroom : E.Roomy w) (hm : (w.events.get e).machine = m)
    (hs : E.currentState m model w = (.ok s, v))
    (hu : (w.events.get e).candidates.find? (w.states.get s).name = some us)
    (hl : ∀ u ∈ us, w.Leads m s (w.transitions.get u)) :
    ∃ xs verdict u, E.fireNow e model args named w = ((verdict.map Value.bool).mapError .fault, u) ∧
      E.Conducts m v.firings.next
        (v.opened { state := s, event := e, machine := m, model := model, args := args, named := named }) xs u ∧
      Course w m s (us.map w.transitions.get) xs verdict := by
  obtain ⟨firing, hfiring⟩ : ∃ firing : Firing, firing =
      { state := s, event := e, machine := m, model := model, args := args, named := named } := ⟨_, rfl⟩
  have steady := steady_currentState hE hs
  have opened : (v.opened firing).firings.get v.firings.next = firing := by simp [World.opened]
  have machine : (v.opened firing).machine m = { w.machine m with line := (w.machine m).line } := by
    show v.machines.get m = w.machines.get m
    rw [steady.machines]
  have states : (v.opened firing).states = w.states := steady.states
  have room : E.Roomy (v.opened firing) := by
    refine ⟨hroom.turns, fun t => ?_, fun s stage => ?_⟩
    · show (v.transitions.get t).prepare.length < E.bound
      rw [steady.transitions]
      exact hroom.prepare t
    · rw [states]
      exact hroom.stages s stage
  have begun : Begun (v.opened firing) m v.firings.next s us := by
    refine ⟨by rw [opened, hfiring], by rw [opened, hfiring], by rw [opened, hfiring], ?_, fun u hmem => ?_⟩
    · rw [opened, hfiring]
      show (v.events.get e).candidates.find? (v.states.get s).name = some us
      rw [steady.events, steady.states]
      exact hu
    · show (v.opened firing).Leads m s (v.transitions.get u)
      rw [steady.transitions]
      obtain ⟨⟨a, ha, hsource⟩, hdest⟩ := hl u hmem
      refine ⟨⟨a, ha, (lookupState_congr states machine _).trans hsource⟩, hdest.imp_right ?_⟩
      rintro ⟨b, d, hb, hd⟩
      exact ⟨b, d, hb, (lookupState_congr states machine _).trans hd⟩
  obtain ⟨xs, verdict, u, hp, hc, hcourse⟩ := processFiring_course hE room begun
  rw [← hfiring]
  refine ⟨xs, verdict, u, ?_, hc, ?_⟩
  · have listed : (v.events.get e).candidates.contains (v.states.get s).name = true := by
      rw [steady.events, steady.states, Table.contains, hu]
      rfl
    unfold Engine.fireNow
    rw [bind_apply, get_apply]
    simp only [hm]
    rw [bind_apply, hs]
    simp only [bind_apply, get_apply, listed, if_true, set_apply]
    rw [hfiring] at hp
    exact hp
  · have transitions : (v.opened firing).transitions = w.transitions := steady.transitions
    rw [← transitions]
    exact hcourse.congr states machine

end Engine

end StateEngine
