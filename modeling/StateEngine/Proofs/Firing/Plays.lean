import StateEngine.Proofs.Firing.Conduct
import StateEngine.Proofs.Registry.Sound

/-! Every part of a firing plays the cues that are its own. -/
namespace StateEngine
open Act World

namespace Engine

variable {E : Engine} {m : MachineId} {i : FiringId} {w₀ : World} {α β : Type}

/-- From a world on, a computation conducts a firing in a way that fits a description, and leaves the
result of the firing alone. -/
def PlaysAt (E : Engine) (m : MachineId) (i : FiringId) (w : World) (x : Run α)
    (G : List Moment → Except Fault α → Prop) : Prop :=
  ∃ xs r v, x w = (r.mapError .fault, v) ∧ E.Conducts m i w xs v ∧
    (v.firings.get i).result = (w.firings.get i).result ∧ G xs r

/-- The same from every world in the course of a firing. -/
def Plays (E : Engine) (m : MachineId) (i : FiringId) (w₀ : World) (x : Run α)
    (G : List Moment → Except Fault α → Prop) : Prop :=
  ∀ w, Still i w₀ w → E.PlaysAt m i w x G

variable {x : Run α} {f : α → Run β} {G : List Moment → Except Fault α → Prop}
  {K : List Moment → Except Fault β → Prop}

theorem PlaysAt.mono {H : List Moment → Except Fault α → Prop} {w : World} (h : E.PlaysAt m i w x G)
    (hGH : ∀ xs r, G xs r → H xs r) : E.PlaysAt m i w x H := by
  obtain ⟨xs, r, v, hx, hc, hr, hG⟩ := h
  exact ⟨xs, r, v, hx, hc, hr, hGH xs r hG⟩

theorem Plays.mono {H : List Moment → Except Fault α → Prop} (h : E.Plays m i w₀ x G)
    (hGH : ∀ xs r, G xs r → H xs r) : E.Plays m i w₀ x H :=
  fun w hw => (h w hw).mono hGH

theorem Plays.pure {a : α} (h : G [] (.ok a)) : E.Plays m i w₀ (Pure.pure a) G :=
  fun w _ => ⟨[], .ok a, w, rfl, .done w, rfl, h⟩

/-- One part after the other, unless the first one fails. -/
theorem PlaysAt.bind (hE : E.Calm) {w : World} (hw : Still i w₀ w) (hx : E.PlaysAt m i w x G)
    (cut : ∀ xs e, G xs (.error e) → K xs (.error e))
    (hf : ∀ xs a, G xs (.ok a) → E.Plays m i w₀ (f a) (fun ys r => K (xs ++ ys) r)) :
    E.PlaysAt m i w (x >>= f) K := by
  obtain ⟨xs, r, v, hx, hc, hr, hG⟩ := hx
  cases r with
  | error e =>
    refine ⟨xs, .error e, v, ?_, hc, hr, cut xs e hG⟩
    rw [bind_apply, hx]
    rfl
  | ok a =>
    obtain ⟨ys, r, u, hf, hc', hr', hK⟩ := hf xs a hG v (hw.trans (hc.still hE))
    refine ⟨xs ++ ys, r, u, ?_, hc.trans hc', hr'.trans hr, hK⟩
    rw [bind_apply, hx]
    exact hf

theorem Plays.bind (hE : E.Calm) (hx : E.Plays m i w₀ x G)
    (cut : ∀ xs e, G xs (.error e) → K xs (.error e))
    (hf : ∀ xs a, G xs (.ok a) → E.Plays m i w₀ (f a) (fun ys r => K (xs ++ ys) r)) :
    E.Plays m i w₀ (x >>= f) K :=
  fun w hw => (hx w hw).bind hE hw cut hf

theorem Plays.get_bind {f : World → Run β} (hf : ∀ w, Still i w₀ w → E.PlaysAt m i w (f w) K) :
    E.Plays m i w₀ (get >>= f) K := hf

/-- Asking what has the same answer throughout. -/
theorem Plays.ask_bind {q : World → Except Fault α} {a : α}
    (hq : ∀ w, Still i w₀ w → q w = .ok a) (hf : E.Plays m i w₀ (f a) K) :
    E.Plays m i w₀ (Act.ask q >>= f) K := by
  intro w hw
  have h := hf w hw
  unfold PlaysAt at h ⊢
  rw [bind_apply, ask_apply, hq w hw]
  exact h

/-- What quiet lies in between does not matter. -/
theorem Plays.quiet {q : World → World} (hq : ∀ w, Quiet i w (q w))
    (hr : ∀ w, ((q w).firings.get i).result = (w.firings.get i).result) :
    E.Plays m i w₀ (change q) (fun xs r => xs = [] ∧ r = .ok ()) :=
  fun w _ => ⟨[], .ok (), q w, rfl, .single_quiet (hq w), hr w, rfl, rfl⟩

theorem quiet_record {i : FiringId} {w : World} (severity : Severity) (logger : Logger) (message : String) :
    Quiet i w (w.record (.remarked severity logger message)) := by
  refine ⟨rfl, fun _ _ => rfl, ⟨_, _, _, rfl⟩,
    [.remarked severity logger message], Array.toList_push, fun entry he => ?_⟩
  exact ⟨severity, logger, message, List.mem_singleton.mp he⟩

theorem Plays.remark (n : MachineId) (severity : Severity) (logger : Logger) (message : String) :
    E.Plays m i w₀ (StateEngine.remark n severity logger message) (fun xs r => xs = [] ∧ r = .ok ()) :=
  .quiet (fun _ => quiet_record _ _ _) (fun _ => rfl)

/-- A remark ahead. -/
theorem Plays.remark_bind (hE : E.Calm) {n : MachineId} {severity : Severity} {logger : Logger}
    {message : String} {f : Unit → Run β} (hf : E.Plays m i w₀ (f ()) K) :
    E.Plays m i w₀ (StateEngine.remark n severity logger message >>= f) K := by
  refine .bind hE (.remark n severity logger message) (fun xs e h => ?_) (fun xs a h => ?_)
  · cases h.2
  · rw [h.1]
    exact hf

/-- A remark behind. -/
theorem Plays.bind_remark (hE : E.Calm) {n : MachineId} {severity : Severity} {logger : Logger}
    {message : String} {cues : List Cue}
    (hx : E.Plays m i w₀ x (fun xs r => Follows cues xs (r.map fun _ => true))) :
    E.Plays m i w₀ (x >>= fun _ => StateEngine.remark n severity logger message)
      (fun xs r => Follows cues xs (r.map fun _ => true)) := by
  refine .bind hE hx (fun xs e h => h) (fun xs a h => ?_)
  refine (Plays.remark n severity logger message).mono (fun ys r hr => ?_)
  rw [hr.1, hr.2, List.append_nil]
  exact h

/-- Cues one part after the other. -/
theorem Plays.follow (hE : E.Calm) {cues more : List Cue}
    (hx : E.Plays m i w₀ x (fun xs r => Follows cues xs (r.map fun _ => true)))
    (hf : ∀ a, E.Plays m i w₀ (f a) (fun xs r => Follows more xs (r.map fun _ => true))) :
    E.Plays m i w₀ (x >>= f) (fun xs r => Follows (cues ++ more) xs (r.map fun _ => true)) :=
  .bind hE hx (fun _ _ h => h.cut (fun hv => by cases hv) more)
    (fun xs a h => (hf a).mono (fun ys r h' => h.append h'))

/-- A cue that is taken up. -/
theorem Plays.takeUp (hE : E.Calm) (cue : Cue) :
    E.Plays m i w₀ (E.takeUp m i cue)
      (fun xs r => ∃ x : Moment, x.cue = cue ∧ x.outcome = r ∧ xs = [x]) := by
  intro w _
  obtain ⟨r, v, h⟩ := (hE.definite_takeUp m i cue).exists_end w
  have result := (hE.still_takeUp m i cue w).2
  rw [h] at result
  exact ⟨[⟨cue, w, r, v⟩], r, v, h, .single_moment h, result, _, rfl, rfl, rfl⟩

theorem Plays.runCallback (hE : E.Calm) (c : Callback) :
    E.Plays m i w₀ (E.runCallback m c i) (fun xs r => Follows [.run c] xs (r.map fun _ => true)) := by
  refine .bind hE (Plays.takeUp hE (.run c)) ?_ ?_
  · rintro xs e ⟨x, hc, ho, rfl⟩
    exact .failed [] hc ho
  · rintro xs v ⟨x, hc, ho, rfl⟩
    refine (Plays.remark _ _ _ _).mono (fun ys r hr => ?_)
    rw [hr.1, hr.2]
    exact .passed hc ho rfl .done

theorem Plays.runCallbacks (hE : E.Calm) (cs : List Callback) :
    E.Plays m i w₀ (E.runCallbacks m cs i)
      (fun xs r => Follows (cs.map .run) xs (r.map fun _ => true)) := by
  induction cs with
  | nil => exact .pure .done
  | cons c cs ih => exact .follow hE (.runCallback hE c) (fun _ => ih)

/-- A list that stays the same is run through to its end. -/
theorem Plays.runGrowing (hE : E.Calm) {read : World → List Callback} {cs : List Callback}
    (hread : ∀ w, Still i w₀ w → read w = cs) {fuel position : Nat} (hpos : position ≤ cs.length)
    (hfuel : cs.length < fuel + position) :
    E.Plays m i w₀ (E.runGrowing m read i fuel position)
      (fun xs r => Follows ((cs.drop position).map .run) xs (r.map fun _ => true)) := by
  induction fuel generalizing position with
  | zero => omega
  | succ fuel ih =>
    refine .get_bind (fun w hw => ?_)
    rw [hread w hw]
    rcases Nat.lt_or_eq_of_le hpos with hlt | rfl
    · rw [List.getElem?_eq_getElem hlt, List.drop_eq_getElem_cons hlt, List.map_cons]
      have room : cs.length < fuel + (position + 1) := by omega
      exact Plays.follow hE (.runCallback hE cs[position]) (fun _ => ih hlt room) w hw
    · rw [List.getElem?_eq_none (Nat.le_refl _), List.drop_length]
      exact Plays.pure .done w hw

/-- The callbacks of a stage, where there is room for them. -/
theorem Plays.runStage (hE : E.Calm) {s : StateId} {stage : StateStage}
    (hroom : ((w₀.states.get s).callbacks stage).length < E.bound) :
    E.Plays m i w₀ (E.runStage m s stage i)
      (fun xs r => Follows (((w₀.states.get s).callbacks stage).map .run) xs (r.map fun _ => true)) := by
  have same (w : World) (hw : Still i w₀ w) :
      (w.states.get s).callbacks stage = (w₀.states.get s).callbacks stage := by rw [hw.states]
  have all : E.Plays m i w₀ (E.runGrowing m (fun w => (w.states.get s).callbacks stage) i E.bound 0)
      (fun xs r => Follows (((w₀.states.get s).callbacks stage).map .run) xs (r.map fun _ => true)) :=
    .runGrowing hE same (Nat.zero_le _) hroom
  exact .get_bind (fun w hw => Plays.remark_bind hE (.bind_remark hE all) w hw)

theorem Plays.checkAll (hE : E.Calm) (guards : List Guard) :
    E.Plays m i w₀ (E.checkAll m i guards) (fun xs r => Follows (guards.map .ask) xs r) := by
  induction guards with
  | nil => exact .pure .done
  | cons g guards ih =>
    have asked : E.Plays m i w₀ (E.check m g i) (fun xs r => ∃ x : Moment, x.cue = .ask g ∧ xs = [x] ∧
        r = x.outcome.map (fun v => v.same g.target)) := by
      refine .bind hE (Plays.takeUp hE (.ask g)) ?_ ?_
      · rintro xs e ⟨x, hc, ho, rfl⟩
        exact ⟨x, hc, rfl, by rw [ho]; rfl⟩
      · rintro xs v ⟨x, hc, ho, rfl⟩
        exact .pure ⟨x, hc, rfl, by rw [ho]; rfl⟩
    refine .bind hE asked ?_ ?_
    · rintro xs e ⟨x, hc, rfl, hr⟩
      cases ho : x.outcome with
      | error e' =>
        rw [ho] at hr
        cases hr
        exact .failed _ hc ho
      | ok v =>
        rw [ho] at hr
        cases hr
    · rintro xs passed ⟨x, hc, rfl, hr⟩
      cases ho : x.outcome with
      | error e' =>
        rw [ho] at hr
        cases hr
      | ok v =>
        rw [ho] at hr
        cases hr
        by_cases hp : v.same g.target = true
        · rw [if_pos hp]
          exact ih.mono (fun ys r h => .passed hc ho hp h)
        · rw [if_neg hp]
          refine .remark_bind hE (.pure ?_)
          exact .halted _ hc ho (eq_false_of_ne_true hp)

/-- A text stands for the state that is registered under it. -/
theorem lookupState_still {w : World} (hw : Still i w₀ w) (n : MachineId) (a : String) :
    w.lookupState n (.text a) = w₀.lookupState n (.text a) := by
  unfold lookupState nameOf
  rw [hw.machine n]

/-- A move ends in the state that is registered under the name of its destination. -/
theorem Plays.relocate (hE : E.Calm) {a : String} {d : StateId}
    (hd : w₀.lookupState m (.text a) = .ok d) :
    E.Plays m i w₀ (StateEngine.Engine.relocate m (.text a) i)
      (fun xs r => Follows [.move (.text a)] xs (r.map fun _ => true) ∧ ∀ d', r = .ok d' → d' = d) := by
  intro w hw
  obtain ⟨r, v, h⟩ := (definite_relocate m (.text a) i).exists_end w
  have taken : E.takeUp m i (.move (.text a)) w =
      ((r.map fun _ => Value.null).mapError .fault, v) := by
    show (StateEngine.Engine.relocate m (.text a) i >>= fun _ => Pure.pure Value.null) w = _
    rw [bind_apply, h]
    cases r <;> rfl
  obtain ⟨still, result⟩ := hE.still_takeUp m i (.move (.text a)) w
  rw [taken] at still result
  refine ⟨_, r, v, h, .single_moment taken, result, ?_, fun d' hr => ?_⟩
  · cases r with
    | error e => exact .failed (x := ⟨.move (.text a), w, .error e, v⟩) [] rfl rfl
    | ok d' => exact .passed (x := ⟨.move (.text a), w, .ok .null, v⟩) rfl rfl rfl .done
  · cases hr
    obtain ⟨u, -, hl, hv⟩ := relocate_ok h
    have after : v.lookupState m (.text a) = .ok d' := by
      rw [hv]
      exact hl
    rw [lookupState_still (hw.trans still), hd] at after
    cases after
    rfl

end Engine

/-- An engine goes more rounds than any list of callbacks is long that may grow while it is run. -/
structure Engine.Roomy (E : Engine) (w : World) : Prop where
  turns : 1 < E.bound
  prepare : ∀ t, (w.transitions.get t).prepare.length < E.bound
  stages : ∀ s stage, ((w.states.get s).callbacks stage).length < E.bound

namespace Engine

variable {E : Engine} {m : MachineId} {i : FiringId} {w₀ : World} {s : StateId} {t : Transition}

theorem Plays.moveAlong (hE : E.Calm) (hroom : E.Roomy w₀) (ht : w₀.Leads m s t) :
    E.Plays m i w₀ (E.moveAlong m t i)
      (fun xs r => Follows (w₀.passageCues m s t) xs (r.map fun _ => true)) := by
  unfold Engine.moveAlong World.passageCues
  rcases ht.dest with hd | ⟨b, d, hd, hdest⟩
  · have internal : t.internal = true := by simp [Transition.internal, hd]
    rw [if_pos internal, if_pos internal]
    exact .pure .done
  · obtain ⟨a, hs, hsource⟩ := ht.source
    have external : ¬ t.internal = true := by simp [Transition.internal, hd]
    rw [if_neg external, if_neg external, hs, hd]
    have entered : E.Plays m i w₀ (E.runStage m d .enter i)
        (fun xs r => Follows (w₀.entryCues m (.text b)) xs (r.map fun _ => true)) := by
      unfold World.entryCues
      rw [hdest]
      exact .runStage hE (hroom.stages d .enter)
    have moved : E.Plays m i w₀ (do
          let d ← StateEngine.Engine.relocate m (.text b) i
          E.runStage m d .enter i)
        (fun xs r => Follows ([.move (.text b)] ++ w₀.entryCues m (.text b)) xs
          (r.map fun _ => true)) := by
      refine .bind hE (.relocate hE hdest) (fun xs e h => h.1.cut (fun hv => by cases hv) _) ?_
      rintro xs d' ⟨h, hd'⟩
      rw [hd' d' rfl]
      exact entered.mono (fun ys r h' => h.append h')
    have found (w : World) (hw : Still i w₀ w) : w.lookupState m (.text a) = .ok s := by
      rw [lookupState_still hw, hsource]
    exact .ask_bind found (.follow hE (.runStage hE (hroom.stages s .exit)) (fun _ => moved))

theorem Plays.carryOut (hE : E.Calm) (hroom : E.Roomy w₀) {u : TransitionId}
    (ht : w₀.Leads m s (w₀.transitions.get u)) :
    E.Plays m i w₀ (E.carryOut m u (w₀.transitions.get u) i)
      (fun xs r => Follows (((w₀.machine m).beforeChange ++ (w₀.transitions.get u).before).map .run ++
        w₀.passageCues m s (w₀.transitions.get u) ++
          ((w₀.transitions.get u).after ++ (w₀.machine m).afterChange).map .run) xs
            (r.map fun _ => true)) := by
  have around (w : World) (hw : Still i w₀ w) :
      (w.machine m).beforeChange ++ (w.transitions.get u).before =
          (w₀.machine m).beforeChange ++ (w₀.transitions.get u).before ∧
        (w.transitions.get u).after ++ (w.machine m).afterChange =
          (w₀.transitions.get u).after ++ (w₀.machine m).afterChange := by
    rw [hw.machine m, hw.transitions]
    exact ⟨rfl, rfl⟩
  refine .get_bind (fun w hw => ?_)
  rw [(around w hw).1, List.append_assoc]
  refine Plays.follow hE (.runCallbacks hE _) (fun _ => .remark_bind hE ?_) w hw
  refine .follow hE (.moveAlong hE hroom ht) (fun _ => .get_bind (fun w hw => ?_))
  rw [(around w hw).2]
  exact Plays.bind_remark hE (.runCallbacks hE _) w hw

/-- Executing a candidate plays its cues; it fires if they all pass. -/
theorem Plays.execute (hE : E.Calm) (hroom : E.Roomy w₀) {u : TransitionId}
    (hm : (w₀.firings.get i).machine = m) (ht : w₀.Leads m s (w₀.transitions.get u)) :
    E.Plays m i w₀ (E.execute u i) (Follows (w₀.candidateCues m s (w₀.transitions.get u))) := by
  have prepared : E.Plays m i w₀
      (E.runGrowing m (fun w => (w.transitions.get u).prepare) i E.bound 0)
      (fun xs r => Follows ((w₀.transitions.get u).prepare.map .run) xs (r.map fun _ => true)) := by
    have same (w : World) (hw : Still i w₀ w) :
        (w.transitions.get u).prepare = (w₀.transitions.get u).prepare := by rw [hw.transitions]
    exact .runGrowing hE same (Nat.zero_le _) (hroom.prepare u)
  refine .get_bind (fun w hw => ?_)
  have machine : (w.firings.get i).machine = m := hw.told.2.1.trans hm
  simp only [machine, hw.transitions]
  refine Plays.remark_bind hE ?_ w hw
  unfold World.candidateCues
  rw [List.append_assoc (List.map Cue.run (w₀.transitions.get u).prepare)]
  refine .bind hE prepared (fun xs e h => h.cut (fun hv => by cases hv) _) (fun xs _ h => ?_)
  refine .remark_bind hE (.get_bind (fun w hw => ?_))
  rw [hw.transitions]
  refine Plays.bind hE (.checkAll hE _) (fun ys e h' => ?_) (fun ys passed h' => ?_) w hw
  · exact h.append (h'.cut (fun hv => by cases hv) _)
  · cases passed with
    | false =>
      refine .pure ?_
      rw [List.append_nil]
      exact h.append (h'.cut (fun hv => by cases hv) _)
    | true =>
      refine .bind hE (.carryOut hE hroom ht) (fun zs e h'' => ?_) (fun zs _ h'' => .pure ?_)
      · exact h.append (h'.append h'')
      · rw [List.append_nil]
        exact h.append (h'.append h'')

end Engine

end StateEngine
