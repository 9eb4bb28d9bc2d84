import StateEngine.Proofs.Firing.Amid
import StateEngine.Proofs.Firing.Order

/-! The end of a firing. However the rest of it has gone, and whatever callbacks do, the finalising callbacks
run once, behind all others, and what they are told and what the caller gets is settled by the rest and by
them. -/
namespace StateEngine
open Act World Relation

/-- A candidate that was tried, and how its execution ended. -/
structure Trial where
  candidate : TransitionId
  outcome : Except Fault Bool

def Trial.fired (x : Trial) : Bool := match x.outcome with
  | .ok fired => fired
  | .error _ => false

/-- The error that the rest of a firing has ended with. An abort is none. -/
def errorOf : Except Fault Unit → Option Fault
  | .ok () => none
  | .error f => if f.isError then some f else none

/-- What a firing tells of the rest of it: the candidate that was tried last, whether one of them has fired,
and an error that has ended it. -/
structure World.Tells (w : World) (i : FiringId) (trials : List Trial) (ended : Except Fault Unit) : Prop where
  transition : (w.firings.get i).transition = trials.getLast?.map Trial.candidate
  result : (w.firings.get i).result = trials.any Trial.fired
  fault : (w.firings.get i).fault = errorOf ended

namespace Engine

variable {E : Engine} {m : MachineId} {i : FiringId}

/-- Candidates tried one after the other, up to the first that fires or fails. -/
inductive Attempts (E : Engine) (i : FiringId) :
    List TransitionId → World → List Trial → Except Fault Unit → World → Prop where
  | none (w : World) : Attempts E i [] w [] (.ok ()) w
  | declined {t : TransitionId} {ts : List TransitionId} {w v u : World} {trials : List Trial}
      {ended : Except Fault Unit}
      (h : E.execute t i (w.updateFiring i (fun f => { f with transition := some t })) = (.ok false, v))
      (more : Attempts E i ts v trials ended u) : Attempts E i (t :: ts) w (⟨t, .ok false⟩ :: trials) ended u
  | fired {t : TransitionId} (ts : List TransitionId) {w v : World}
      (h : E.execute t i (w.updateFiring i (fun f => { f with transition := some t })) = (.ok true, v)) :
      Attempts E i (t :: ts) w [⟨t, .ok true⟩] (.ok ()) (v.updateFiring i (fun f => { f with result := true }))
  | failed {t : TransitionId} (ts : List TransitionId) {w v : World} {f : Fault}
      (h : E.execute t i (w.updateFiring i (fun f => { f with transition := some t })) =
        (.error (.fault f), v)) :
      Attempts E i (t :: ts) w [⟨t, .error f⟩] (.error f) v

/-- The rest of a firing: the machine's preparation, and the candidates unless that has failed. -/
inductive Rest (E : Engine) (m : MachineId) (i : FiringId) (w : World) :
    List Trial → Except Fault Unit → World → Prop where
  | unprepared {v : World} {f : Fault}
      (h : E.runCallbacks m (w.machine m).prepareEvent i w = (.error (.fault f), v)) : Rest E m i w [] (.error f) v
  | prepared {w₁ w₂ w₃ v : World} {ts : List TransitionId} {trials : List Trial} {ended : Except Fault Unit}
      (h : E.runCallbacks m (w.machine m).prepareEvent i w = (.ok (), w₁))
      (hr : StateEngine.remark m .debug .event "Executed machine preparation callbacks before conditions." w₁ =
        (.ok (), w₂))
      (hc : candidatesFor i w₂ = (.ok ts, w₃)) (ht : Attempts E i ts w₃ trials ended v) :
      Rest E m i w trials ended v

/-- Callbacks of a list are run one after the other, up to the first that fails; at each of them the world has
come there by steps. -/
theorem runCallbacks_conducts {R : World → World → Prop} (hE : E.Walks R) {cs : List Callback} {w u : World}
    {r : Except Stop Unit} (h : E.runCallbacks m cs i w = (r, u)) (hr : r ≠ .error .exhausted) :
    ∃ zs verdict, E.Conducts m i w zs u ∧ Follows (cs.map .run) zs verdict ∧
      r = (verdict.map fun _ => ()).mapError .fault ∧
      ∀ z ∈ zs, ReflTransGen R w z.before ∧ ReflTransGen R w z.after := by
  induction cs generalizing w r with
  | nil =>
    obtain ⟨rfl, rfl⟩ := Prod.mk.inj h
    exact ⟨[], .ok true, .done w, .done, rfl, by simp⟩
  | cons c cs ih =>
    have begun : E.runCallbacks m (c :: cs) i w = (do
        let _ ← E.consult m c i
        StateEngine.remark m .debug .machine ("Executed callback '" ++ c.display ++ "'")
        E.runCallbacks m cs i : Run Unit) w := by
      show ((E.consult m c i >>= fun _ => StateEngine.remark m _ _ _) >>= fun _ => E.runCallbacks m cs i) w = _
      rw [bind_assoc]
    rw [begun] at h
    rcases hc : E.consult m c i w with ⟨e, v⟩
    by_cases he : e = .error .exhausted
    · subst he
      rw [bind_of_error hc] at h
      exact absurd (Prod.mk.inj h).1.symm hr
    · obtain ⟨outcome, rfl⟩ := Stop.exists_of_ne_exhausted he
      have walked : ReflTransGen R w v := (hE.consult m c i).steps hc
      have taken : E.takeUp m i (.run c) w = (outcome.mapError .fault, v) := hc
      cases outcome with
      | error f =>
        rw [bind_of_error hc] at h
        obtain ⟨rfl, rfl⟩ := Prod.mk.inj h
        refine ⟨[⟨.run c, w, .error f, v⟩], .error f, .single_moment taken, .failed _ rfl rfl, rfl, ?_⟩
        intro z hz
        rw [List.mem_singleton.mp hz]
        exact ⟨.refl, walked⟩
      | ok x =>
        obtain ⟨v', hv'⟩ : ∃ v', v' = v.record (.remarked .debug .machine
          ((v.machine m).label ++ ("Executed callback '" ++ c.display ++ "'"))) := ⟨_, rfl⟩
        have quiet : Quiet i v v' := hv' ▸ quiet_record _ _ _
        have recorded : ReflTransGen R v v' := hv' ▸ hE.record v _
        rw [bind_of_ok hc] at h
        have rest : E.runCallbacks m cs i v' = (r, u) := by
          rw [hv']
          exact h
        obtain ⟨zs, verdict, conducts, follows, hverdict, steps⟩ := ih rest hr
        refine ⟨⟨.run c, w, .ok x, v⟩ :: zs, verdict, ?_, .passed rfl rfl rfl follows, hverdict, ?_⟩
        · exact .moment (x := ⟨.run c, w, .ok x, v⟩) taken (.quiet quiet conducts)
        · intro z hz
          rcases List.mem_cons.mp hz with rfl | hz
          · exact ⟨.refl, walked⟩
          · obtain ⟨before, after⟩ := steps z hz
            exact ⟨(walked.trans recorded).trans before, (walked.trans recorded).trans after⟩

end Engine

/-- What a firing has noted of candidates that were tried, and what its machine has kept meanwhile. -/
structure World.Noting (m : MachineId) (i : FiringId) (trials : List Trial) (w v : World) : Prop where
  engaged : Engaged m w v
  made : i < v.firings.next
  transition : (v.firings.get i).transition =
    (trials.getLast?.map Trial.candidate).or (w.firings.get i).transition
  result : (v.firings.get i).result = (trials.any Trial.fired || (w.firings.get i).result)
  fault : (v.firings.get i).fault = (w.firings.get i).fault

namespace World

variable {m : MachineId} {i : FiringId} {trials : List Trial} {w v u : World}

/-- Where no candidate is tried, the firing notes nothing. -/
theorem Amid.noting (h : Amid m (some i) w v) : Noting m i [] w v := by
  obtain ⟨s, hs⟩ := h.firing i rfl
  exact ⟨h.engaged, h.made i rfl, by rw [hs]; rfl, by rw [hs]; rfl, by rw [hs]⟩

/-- What comes before the candidates. -/
theorem Noting.after (h : Amid m (some i) w v) (h' : Noting m i trials v u) : Noting m i trials w u := by
  obtain ⟨s, hs⟩ := h.firing i rfl
  refine ⟨h.engaged.trans h'.engaged, h'.made, ?_, ?_, ?_⟩
  · rw [h'.transition, hs]
  · rw [h'.result, hs]
  · rw [h'.fault, hs]

/-- A candidate that is tried is noted first. -/
theorem Noting.first {t : TransitionId} (hw : (w.machine m).line.inFlight = true)
    (h : Amid m (some i) (w.updateFiring i (fun f => { f with transition := some t })) v) :
    Engaged m w v ∧ i < v.firings.next ∧
      (v.firings.get i).transition = some t ∧
      (v.firings.get i).result = (w.firings.get i).result ∧
      (v.firings.get i).fault = (w.firings.get i).fault := by
  obtain ⟨s, hs⟩ := h.firing i rfl
  have noted : Engaged m w (w.updateFiring i (fun f => { f with transition := some t })) := ⟨.refl hw, rfl⟩
  refine ⟨noted.trans h.engaged, h.made i rfl, ?_, ?_, ?_⟩ <;>
  · rw [hs]
    simp [updateFiring]

end World

namespace Engine

variable {E : Engine} {m : MachineId} {i : FiringId}

/-- What the firing has noted when the candidates have been tried is what came of them. -/
theorem tryCandidates_attempts (hE : E.Walks (Heeds m (some i))) {ts : List TransitionId} {w v : World}
    {r : Except Stop Unit} (hbusy : (w.machine m).line.inFlight = true) (hi : i < w.firings.next)
    (h : E.tryCandidates i ts w = (r, v)) (hr : r ≠ .error .exhausted) :
    ∃ trials ended, r = ended.mapError .fault ∧ E.Attempts i ts w trials ended v ∧
      World.Noting m i trials w v := by
  induction ts generalizing w with
  | nil =>
    obtain ⟨rfl, rfl⟩ := Prod.mk.inj h
    exact ⟨[], .ok (), rfl, .none w, (Heeds.amid .refl hbusy hi).noting⟩
  | cons t ts ih =>
    obtain ⟨w', hw'⟩ : ∃ w', w' = w.updateFiring i (fun f => { f with transition := some t }) := ⟨_, rfl⟩
    have begun : E.tryCandidates i (t :: ts) w = (do
        if ← E.execute t i then Act.change (updateFiring i (fun f => { f with result := true }))
        else E.tryCandidates i ts : Run Unit) w' := by
      rw [hw']
      rfl
    rw [begun] at h
    rcases hx : E.execute t i w' with ⟨e, u⟩
    have amid : Amid m (some i) w' u := by
      refine Heeds.amid ((hE.execute (permits_heeds m (some i)) t i).steps hx) ?_ ?_
      · rw [hw']
        exact hbusy
      · rw [hw']
        exact Nat.lt_of_lt_of_le hi (Heap.next_le_next_modify _ _ _)
    by_cases he : e = .error .exhausted
    · subst he
      rw [bind_of_error hx] at h
      exact absurd (Prod.mk.inj h).1.symm hr
    · obtain ⟨outcome, rfl⟩ := Stop.exists_of_ne_exhausted he
      rw [hw'] at amid hx
      obtain ⟨engaged, made, transition, result, fault⟩ := World.Noting.first hbusy amid
      cases outcome with
      | error f =>
        rw [hw', bind_of_error hx] at h
        obtain ⟨rfl, rfl⟩ := Prod.mk.inj h
        exact ⟨[⟨t, .error f⟩], .error f, rfl, .failed ts hx, engaged, made, transition, result, fault⟩
      | ok fired =>
        rw [hw', bind_of_ok hx] at h
        cases fired with
        | true =>
          obtain ⟨rfl, rfl⟩ := Prod.mk.inj h
          refine ⟨[⟨t, .ok true⟩], .ok (), rfl, .fired ts hx, ⟨engaged.line, engaged.finalize⟩,
            Nat.lt_of_lt_of_le made (Heap.next_le_next_modify _ _ _), ?_, ?_, ?_⟩
          · simpa [updateFiring] using transition
          · simp [updateFiring, Trial.fired]
          · simpa [updateFiring] using fault
        | false =>
          obtain ⟨trials, ended, hended, attempts, noting⟩ := ih engaged.line.inFlight made h
          refine ⟨⟨t, .ok false⟩ :: trials, ended, hended, .declined hx attempts,
            engaged.trans noting.engaged, noting.made, ?_, ?_, ?_⟩
          · rw [noting.transition, transition]
            cases hl : trials.getLast? <;> simp [List.getLast?_cons, hl]
          · rw [noting.result, result]
            simp [Trial.fired]
          · rw [noting.fault, fault]

theorem candidatesFor_ok (i : FiringId) (w : World) : ∃ ts v, candidatesFor i w = (.ok ts, v) := by
  unfold candidatesFor
  rw [bind_of_ok (get_apply w)]
  cases (w.events.get (w.firings.get i).event).candidates.find? (w.states.get (w.firings.get i).state).name
  · exact ⟨_, _, rfl⟩
  · exact ⟨_, _, rfl⟩

/-- What the firing has noted when the rest of it is over. -/
theorem attemptMoves_rest (hE : E.Walks (Heeds m (some i))) {w v : World} {r : Except Stop Unit}
    (hbusy : (w.machine m).line.inFlight = true) (hi : i < w.firings.next)
    (h : E.attemptMoves m i w = (r, v)) (hr : r ≠ .error .exhausted) :
    ∃ trials ended, r = ended.mapError .fault ∧ E.Rest m i w trials ended v ∧ World.Noting m i trials w v := by
  have begun : E.attemptMoves m i w = (do
      E.runCallbacks m (w.machine m).prepareEvent i
      StateEngine.remark m .debug .event "Executed machine preparation callbacks before conditions."
      E.tryCandidates i (← candidatesFor i) : Run Unit) w := rfl
  rw [begun] at h
  rcases hp : E.runCallbacks m (w.machine m).prepareEvent i w with ⟨e, w₁⟩
  have prepared : Amid m (some i) w w₁ :=
    Heeds.amid ((hE.runCallbacks m (w.machine m).prepareEvent i).steps hp) hbusy hi
  by_cases he : e = .error .exhausted
  · subst he
    rw [bind_of_error hp] at h
    exact absurd (Prod.mk.inj h).1.symm hr
  · obtain ⟨outcome, rfl⟩ := Stop.exists_of_ne_exhausted he
    cases outcome with
    | error f =>
      rw [bind_of_error hp] at h
      obtain ⟨rfl, rfl⟩ := Prod.mk.inj h
      exact ⟨[], .error f, rfl, .unprepared hp, prepared.noting⟩
    | ok _ =>
      obtain ⟨w₂, hw₂⟩ : ∃ w₂, StateEngine.remark m .debug .event
        "Executed machine preparation callbacks before conditions." w₁ = (.ok (), w₂) := ⟨_, rfl⟩
      rw [bind_of_ok hp, bind_of_ok hw₂] at h
      obtain ⟨ts, w₃, hc⟩ := candidatesFor_ok i w₂
      rw [bind_of_ok hc] at h
      have steps : ReflTransGen (Heeds m (some i)) w₁ w₃ := by
        have remarked := hE.remark m .debug .event "Executed machine preparation callbacks before conditions."
        have selected := walks_candidatesFor (permits_heeds m (some i)) i
        exact (remarked.steps hw₂).trans (selected.steps hc)
      have amid := prepared.trans (Heeds.amid steps prepared.engaged.line.inFlight (prepared.made i rfl))
      obtain ⟨trials, ended, hended, attempts, noting⟩ :=
        tryCandidates_attempts hE amid.engaged.line.inFlight (amid.made i rfl) h hr
      exact ⟨trials, ended, hended, .prepared hp hw₂ hc attempts, noting.after amid⟩

/-- An error is noted, and that is all. -/
theorem noteError_tells (ended : Except Fault Unit) {w : World} (hi : i < w.firings.next)
    (hbusy : (w.machine m).line.inFlight = true) (hf : (w.firings.get i).fault = none) :
    ∃ v, noteError i ended w = (.ok (), v) ∧ Engaged m w v ∧ i < v.firings.next ∧
      (v.firings.get i).transition = (w.firings.get i).transition ∧
      (v.firings.get i).result = (w.firings.get i).result ∧ (v.firings.get i).fault = errorOf ended := by
  cases ended with
  | ok _ => exact ⟨w, rfl, .refl hbusy, hi, rfl, rfl, hf⟩
  | error f =>
    cases he : f.isError with
    | true =>
      refine ⟨w.updateFiring i (fun x => { x with fault := some f }), by simp [noteError, he],
        ⟨.refl hbusy, rfl⟩, Nat.lt_of_lt_of_le hi (Heap.next_le_next_modify _ _ _), ?_, ?_, ?_⟩ <;>
      simp [updateFiring, errorOf, he]
    | false => exact ⟨w, by simp [noteError, he], .refl hbusy, hi, rfl, rfl, by simp [hf, errorOf, he]⟩

end Engine

theorem World.Amid.tells {m : MachineId} {i : FiringId} {w v : World} (h : Amid m (some i) w v) {trials : List Trial}
    {ended : Except Fault Unit} (hw : w.Tells i trials ended) : v.Tells i trials ended := by
  obtain ⟨s, hs⟩ := h.firing i rfl
  exact ⟨by rw [hs]; exact hw.transition, by rw [hs]; exact hw.result, by rw [hs]; exact hw.fault⟩

/-- The end of a firing from a world on: the rest of it, then what is noted of it, and then the finalising
callbacks in order, all of which are told the same. Their fault is the verdict, or else that of the rest,
or else whether a candidate has fired. -/
structure Engine.Closes (E : Engine) (m : MachineId) (i : FiringId) (w u : World) (verdict : Except Fault Value)
    (trials : List Trial) (ended : Except Fault Unit) (closing : Except Fault Bool) (zs : List Moment) :
    Prop where
  rest : ∃ v v', E.Rest m i w trials ended v ∧ noteError i ended v = (.ok (), v') ∧ E.Conducts m i v' zs u
  pass : Follows ((w.machine m).finalizeEvent.map .run) zs closing
  told : ∀ z ∈ zs, z.before.Tells i trials ended ∧ z.after.Tells i trials ended
  verdict : verdict = closing >>= fun _ => ended.map fun _ => .bool (trials.any Trial.fired)

namespace Engine

variable {E : Engine} {m : MachineId} {i : FiringId}

/-- The finalising callbacks run in order, and what the firing tells stays as it is meanwhile. -/
theorem closeFiring_follows (hE : E.Walks (Heeds m (some i))) {v u : World} {trials : List Trial}
    {ended : Except Fault Unit} {r : Except Stop Value} (hbusy : (v.machine m).line.inFlight = true)
    (hi : i < v.firings.next) (tells : v.Tells i trials ended) (h : E.closeFiring m i ended v = (r, u))
    (hr : r ≠ .error .exhausted) :
    ∃ (closing : Except Fault Bool) (zs : List Moment),
      r = (closing >>= fun _ => ended.map fun _ => Value.bool (trials.any Trial.fired)).mapError .fault ∧
        E.Conducts m i v zs u ∧ Follows ((v.machine m).finalizeEvent.map .run) zs closing ∧
        (∀ z ∈ zs, z.before.Tells i trials ended ∧ z.after.Tells i trials ended) ∧ Engaged m v u := by
  have closing : E.closeFiring m i ended v = (do
      E.runCallbacks m (v.machine m).finalizeEvent i
      StateEngine.remark m .debug .event "Executed machine finalize callbacks"
      Act.ofExcept ended
      return .bool ((← get).firings.get i).result : Run Value) v := rfl
  rw [closing] at h
  rcases hz : E.runCallbacks m (v.machine m).finalizeEvent i v with ⟨e, v'⟩
  have amid : Amid m (some i) v v' :=
    Heeds.amid ((hE.runCallbacks m (v.machine m).finalizeEvent i).steps hz) hbusy hi
  by_cases he : e = .error .exhausted
  · subst he
    rw [bind_of_error hz] at h
    exact absurd (Prod.mk.inj h).1.symm hr
  obtain ⟨zs, verdict, conducts, follows, rfl, steps⟩ := runCallbacks_conducts hE hz he
  have told : ∀ z ∈ zs, z.before.Tells i trials ended ∧ z.after.Tells i trials ended := by
    intro z hmem
    obtain ⟨before, after⟩ := steps z hmem
    exact ⟨(Heeds.amid before hbusy hi).tells tells, (Heeds.amid after hbusy hi).tells tells⟩
  cases verdict with
  | error f =>
    rw [bind_of_error hz] at h
    obtain ⟨rfl, rfl⟩ := Prod.mk.inj h
    exact ⟨.error f, zs, rfl, conducts, follows, told, amid.engaged⟩
  | ok passed =>
    obtain ⟨v₃, hv₃⟩ : ∃ v₃, StateEngine.remark m .debug .event "Executed machine finalize callbacks" v' =
      (.ok (), v₃) := ⟨_, rfl⟩
    have record : v₃ = v'.record (.remarked .debug .event
        ((v'.machine m).label ++ "Executed machine finalize callbacks")) := (Prod.mk.inj hv₃).2.symm
    have remarked : Quiet i v' v₃ := record ▸ quiet_record _ _ _
    have whole := conducts.trans (.single_quiet remarked)
    rw [List.append_nil] at whole
    have engaged : Engaged m v v₃ := by
      rw [record]
      exact ⟨amid.engaged.line, amid.engaged.finalize⟩
    have last : (v₃.firings.get i).result = trials.any Trial.fired := by
      rw [record]
      exact (amid.tells tells).result
    rw [bind_of_ok hz, bind_of_ok hv₃] at h
    obtain ⟨rfl, rfl⟩ : r = (ended.map fun _ => Value.bool (trials.any Trial.fired)).mapError .fault ∧ v₃ = u := by
      cases ended with
      | error f => exact ⟨(Prod.mk.inj h).1.symm, (Prod.mk.inj h).2⟩
      | ok _ => exact ⟨last ▸ (Prod.mk.inj h).1.symm, (Prod.mk.inj h).2⟩
    exact ⟨.ok passed, zs, rfl, whole, follows, told, engaged⟩

theorem processFiring_closes (hE : E.Walks (Heeds m (some i))) {w u : World} {r : Except Stop Value}
    (hbusy : (w.machine m).line.inFlight = true) (hi : i < w.firings.next)
    (hm : (w.firings.get i).machine = m) (hnew : w.Tells i [] (.ok ()))
    (h : E.processFiring i w = (r, u)) (hr : r ≠ .error .exhausted) :
    ∃ verdict trials ended closing zs, r = verdict.mapError .fault ∧
      E.Closes m i w u verdict trials ended closing zs ∧ Engaged m w u := by
  have begun : E.processFiring i w = (do
      let ended ← (E.attemptMoves m i).attempt
      noteError i ended
      E.closeFiring m i ended : Run Value) w := by
    unfold Engine.processFiring
    rw [bind_of_ok (get_apply w), hm]
  rw [begun] at h
  rcases ha : E.attemptMoves m i w with ⟨e, v⟩
  by_cases he : e = .error .exhausted
  · subst he
    rw [bind_of_error (attempt_exhausted ha)] at h
    exact absurd (Prod.mk.inj h).1.symm hr
  obtain ⟨trials, ended, rfl, rest, noting⟩ := attemptMoves_rest hE hbusy hi ha he
  rw [bind_of_ok (attempt_apply ha)] at h
  obtain ⟨v', hn, engaged, made, transition, result, fault⟩ := noteError_tells ended noting.made
    noting.engaged.line.inFlight (noting.fault.trans hnew.fault)
  rw [bind_of_ok hn] at h
  have tells : v'.Tells i trials ended := by
    refine ⟨?_, ?_, fault⟩
    · rw [transition, noting.transition, hnew.transition]
      cases trials.getLast? <;> rfl
    · rw [result, noting.result, hnew.result]
      simp
  have kept := noting.engaged.trans engaged
  obtain ⟨closing, zs, hverdict, conducts, follows, told, ended_engaged⟩ :=
    closeFiring_follows hE kept.line.inFlight made tells h hr
  rw [kept.finalize] at follows
  exact ⟨_, trials, ended, closing, zs, hverdict, ⟨⟨v, v', rest, hn, conducts⟩, follows, told, rfl⟩,
    kept.trans ended_engaged⟩

/-- What becomes of the verdict on a task that a machine has taken up. On a direct line the caller gets it. On
a queued one a fault ends the work on the queue, and so what its first caller does; without one the work goes
on behind the task, and no value but true comes of it. -/
structure Settles (E : Engine) (m : MachineId) (task : Task) (w u : World) (verdict : Except Fault Value) :
    Prop where
  direct : ∀ w₀, (w₀.machine m).line = .direct false → w = w₀.taking m task →
    ∃ u', E.submit m task w₀ = (verdict.mapError .fault, u') ∧ Relined m u u'
  first : ∀ w₀ task, (w₀.machine m).line = .queued [] →
    E.submit m task w₀ = (E.setting m (w₀.machine m).label).drain E.bound (w₀.taking m task)
  failed : ∀ label fuel rest f, (w.machine m).line = .queued (task :: rest) → verdict = .error f →
    ∃ u', (E.setting m label).drain (fuel + 1) w = (.error (.fault f), u') ∧ Relined m u u'
  served : ∀ label fuel rest x, (w.machine m).line = .queued (task :: rest) → verdict = .ok x →
    ∃ u', (E.setting m label).drain (fuel + 1) w = (E.setting m label).drain fuel u' ∧ Relined m u u'
  value : ∀ label fuel w' u' x, (E.setting m label).drain fuel w' = (.ok x, u') → x = .bool true

theorem settles_of_run {task : Task} {w u : World} {verdict : Except Fault Value}
    (hrun : E.runTask task w = (verdict.mapError .fault, u)) (hkept : (w.machine m).line.Stays (u.machine m).line) :
    E.Settles m task w u verdict where
  direct w₀ hline hw := by
    obtain ⟨label, hlabel⟩ : ∃ label, label = (w₀.machine m).label := ⟨_, rfl⟩
    have start : E.submit m task w₀ = (E.setting m label).submit task w₀ := by
      rw [hlabel]
      rfl
    rw [hw, taking, hline] at hrun
    rw [start]
    exact ⟨_, Line.Setting.submit_direct (S := E.setting m label) hline hrun, relined_write m (.direct false) u⟩
  first w₀ task hline := by
    have taken : w₀.taking m task = (E.setting m (w₀.machine m).label).slot.write (.queued [task]) w₀ := by
      rw [taking, hline]
      rfl
    rw [taken]
    exact Line.Setting.submit_queued (S := E.setting m (w₀.machine m).label) hline
  failed label fuel rest f hline hf := by
    rw [hf] at hrun
    rw [Line.Setting.drain_cons_error (S := E.setting m label) hline hrun]
    exact abandon_relined E m label f u
  served label fuel rest x hline hx := by
    rw [hx] at hrun
    obtain ⟨more, hmore⟩ : ∃ more, (u.machine m).line = .queued (task :: rest ++ more) := by
      rw [hline] at hkept
      generalize (u.machine m).line = line at hkept
      cases hkept with
      | queued _ _ more => exact ⟨more, rfl⟩
    exact ⟨_, Line.Setting.drain_cons_ok (S := E.setting m label) hline hrun hmore,
      relined_write m (.queued (rest ++ more)) u⟩
  value label fuel w' u' x h := (E.setting m label).drain_true h

/-- An event that has candidates for the state of a model is processed on a machine that has taken it up,
whatever callbacks do but to put other finalising callbacks in place: the finalising callbacks run in order
and once, after the rest and however that has ended, and all of them are told the error that has ended it,
the candidate tried last, and whether one has fired. The verdict is a fault of theirs, or else of the rest,
or else whether a candidate has fired, and it is what settles the task. -/
theorem firing_is_finalized_once {host : Host} (hhost : host.Within (Operation.LeavesEnd m))
    (bound depth : Nat) {w v u : World} {e : EventId} {model : Value} {args : List Value} {named : Named}
    {s : StateId} {r : Except Stop Value} (hm : (w.events.get e).machine = m)
    (hbusy : (w.machine m).line.inFlight = true)
    (hs : (ofHost host bound depth).currentState m model w = (.ok s, v))
    (hc : (v.events.get e).candidates.contains (v.states.get s).name = true)
    (h : (ofHost host bound depth).fireNow e model args named w = (r, u)) (hr : r ≠ .error .exhausted) :
    ∃ verdict trials ended closing zs, r = verdict.mapError .fault ∧
      (ofHost host bound depth).Closes m v.firings.next
        (v.opened { state := s, event := e, machine := m, model := model, args := args, named := named }) u
        verdict trials ended closing zs ∧
      (v.machine m).finalizeEvent = (w.machine m).finalizeEvent ∧
      (ofHost host bound depth).Settles m (.fire e model args named) w u verdict := by
  obtain ⟨E, hE⟩ : ∃ E, E = ofHost host bound depth := ⟨_, rfl⟩
  rw [← hE] at hs h ⊢
  obtain ⟨firing, hfiring⟩ : ∃ firing : Firing, firing =
      { state := s, event := e, machine := m, model := model, args := args, named := named } := ⟨_, rfl⟩
  have looked : Engaged m w v := by
    have walks : E.Walks (Heeds m none) := hE ▸ heeds_ofHost hhost bound depth none
    have steps := (walks.currentState m model).steps hs
    exact (Heeds.of_steps steps hbusy (fun _ hj => by cases hj)).engaged
  have opened : (v.opened firing).firings.get v.firings.next = firing := by simp [World.opened]
  have processed : E.fireNow e model args named w = E.processFiring v.firings.next (v.opened firing) :=
    hfiring ▸ fireNow_opened hm hs hc
  have walks : E.Walks (Heeds m (some v.firings.next)) := hE ▸ heeds_ofHost hhost bound depth _
  have tells : (v.opened firing).Tells v.firings.next [] (.ok ()) := by
    refine ⟨?_, ?_, ?_⟩ <;>
    · rw [opened, hfiring]
      rfl
  have busy : ((v.opened firing).machine m).line.inFlight = true := looked.line.inFlight
  have made : v.firings.next < (v.opened firing).firings.next := by simp [World.opened]
  have machine : ((v.opened firing).firings.get v.firings.next).machine = m := by rw [opened, hfiring]
  rw [processed] at h
  obtain ⟨verdict, trials, ended, closing, zs, hverdict, closes, engaged⟩ :=
    processFiring_closes walks busy made machine tells h hr
  rw [hverdict] at h
  refine ⟨verdict, trials, ended, closing, zs, hverdict, hfiring ▸ closes, looked.finalize, ?_⟩
  exact settles_of_run (processed.trans h) (looked.line.trans engaged.line)

end Engine

/-- Callbacks that give nothing, but for one that fails. -/
def bellHost : Host where
  behaviour := fun callback _ _ _ =>
    if callback = "jam" then .fail (.raised .runtime "jammed") else .done .null

/-- A door with a bell that rings at the end of every push, and that jams once it is open. -/
def bellPlan : Blueprint where
  options := { initial := .text "shut", autoTransitions := .bool false }
  states := .list [.text "shut", .text "open"]
  transitions := .list [
    .list [.text "push", .text "shut", .text "open", .null, .null, .null, .callback "jam"]]
  models := .model "door"
  finalizeEvent := .list [.callback "ring"]

def bellEngine : Engine := Engine.ofHost bellHost 4 1

/-- The door while it is pushed. -/
def bellWorld : World :=
  (bellEngine.perform (.create "doors" bellPlan) {}).2.taking 0 (.fire 0 (.model "door") [] [])

theorem bellWorld_facts :
    (bellWorld.events.get 0).machine = 0 ∧ (bellWorld.machine 0).line.inFlight = true ∧
      (bellEngine.currentState 0 (.model "door") bellWorld).1 = .ok 0 ∧
      (fun v : World => (v.events.get 0).candidates.contains (v.states.get 0).name)
        (bellEngine.currentState 0 (.model "door") bellWorld).2 = true ∧
      (bellEngine.fireNow 0 (.model "door") [] [] bellWorld).1 =
        .error (.fault (.raised .runtime "jammed")) ∧
      ((bellEngine.fireNow 0 (.model "door") [] [] bellWorld).2.model "door").attributes.find? "state" =
        some (.text "open") := by
  -- each run is evaluated once for all that is looked up at its end
  have built : (some bellWorld).map (fun w => ((w.events.get 0).machine, (w.machine 0).line.inFlight)) =
      some (0, true) := by cbv
  have read : Prod.map id (fun v : World => (v.events.get 0).candidates.contains (v.states.get 0).name)
      (bellEngine.currentState 0 (.model "door") bellWorld) = (.ok 0, true) := by cbv
  have pushed : Prod.map id (fun v : World => (v.model "door").attributes.find? "state")
      (bellEngine.fireNow 0 (.model "door") [] [] bellWorld) =
        (.error (.fault (.raised .runtime "jammed")), some (.text "open")) := by cbv
  obtain ⟨machine, busy⟩ := Prod.mk.inj (Option.some.inj built)
  obtain ⟨state, listed⟩ := Prod.mk.inj read
  obtain ⟨failed, moved⟩ := Prod.mk.inj pushed
  exact ⟨machine, busy, state, listed, failed, moved⟩

/-- The door is open when the push fails, and the bell rings all the same; it is told of the error, and that
no candidate has fired. -/
theorem jammed_push_is_finalized :
    ∃ (v u : World) (verdict : Except Fault Value) (trials : List Trial) (ended : Except Fault Unit)
      (closing : Except Fault Bool) (zs : List Moment),
      bellEngine.fireNow 0 (.model "door") [] [] bellWorld = (.error (.fault (.raised .runtime "jammed")), u) ∧
      (u.model "door").attributes.find? "state" = some (.text "open") ∧
      (.error (.fault (.raised .runtime "jammed")) : Except Stop Value) = verdict.mapError .fault ∧
      bellEngine.Closes 0 v.firings.next
        (v.opened { state := 0, event := 0, machine := 0, model := .model "door", args := [], named := [] }) u
        verdict trials ended closing zs ∧
      (v.machine 0).finalizeEvent = (bellWorld.machine 0).finalizeEvent ∧
      bellEngine.Settles 0 (.fire 0 (.model "door") [] []) bellWorld u verdict := by
  obtain ⟨hm, hbusy, hs, hc, hr, hopen⟩ := bellWorld_facts
  have leaves : bellHost.Within (Operation.LeavesEnd 0) := by
    intro callback call w count
    unfold bellHost
    simp only []
    split <;> trivial
  obtain ⟨verdict, trials, ended, closing, zs, h⟩ := Engine.firing_is_finalized_once leaves 4 1 hm hbusy
    (Prod.ext hs rfl) hc (Prod.ext hr rfl) (by simp)
  exact ⟨_, _, verdict, trials, ended, closing, zs, Prod.ext hr rfl, hopen, h⟩

end StateEngine
