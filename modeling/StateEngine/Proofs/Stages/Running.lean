import StateEngine.Proofs.Firing.Closing
import StateEngine.Proofs.Stages.Lists

/-! Running the callbacks of a stage: most stages take up what is listed when they begin, and some what is listed when
they are over. A stage that comes to no end has a callback that comes to none, or its list has grown all the time. -/
namespace StateEngine
open Act World Relation

/-- The stages of a firing; those between its ends are of candidates and states. Moving the model is one, too. -/
inductive Stage where
  | prepareEvent
  | prepare (t : TransitionId)
  | guards (t : TransitionId)
  | before (t : TransitionId)
  | state (s : StateId) (stage : StateStage)
  | move (dest : Value)
  | after (t : TransitionId)
  | finalizeEvent

namespace Stage

/-- What is registered for a stage. -/
def cues (m : MachineId) (w : World) : Stage → List Cue
  | prepareEvent => (w.machine m).prepareEvent.map .run
  | prepare t => (w.transitions.get t).prepare.map .run
  | guards t => (w.transitions.get t).guards.map .ask
  | before t => ((w.machine m).beforeChange ++ (w.transitions.get t).before).map .run
  | state s stage => ((w.states.get s).callbacks stage).map .run
  | move dest => [.move dest]
  | after t => ((w.transitions.get t).after ++ (w.machine m).afterChange).map .run
  | finalizeEvent => (w.machine m).finalizeEvent.map .run

/-- Whether a stage goes through its list as it is at each turn, and not as it was in the beginning. -/
def live : Stage → Bool
  | prepare _ | state .. => true
  | _ => false

/-- What is registered for a stage that goes through its list turn by turn is there until the end of it. -/
theorem cues_longer {stage : Stage} (hl : stage.live = true) (m : MachineId) {w v : World} (h : Longer w v) :
    stage.cues m w <+: stage.cues m v := by
  cases stage with
  | prepare t => exact (h.prepare t).map _
  | state s stage => exact (h.states s stage).map _
  | prepareEvent | guards | before | move | after | finalizeEvent => cases hl

end Stage

namespace Engine

/-- How a list of cues is taken up: in order, up to the first that fails or does not pass, unless there is no end to
it. Then one that comes to no end itself stands behind others that have passed, or else all that were taken up have
passed, and these are as many as there may be. -/
inductive Takes (E : Engine) (m : MachineId) (i : FiringId) (limit : Option Nat) (cues : List Cue) (w : World) :
    List Moment → Except Stop Bool → World → Prop where
  | ended (verdict : Except Fault Bool) {xs : List Moment} {v : World} (hc : E.Conducts m i w xs v)
      (hf : Follows cues xs verdict) : Takes E m i limit cues w xs (verdict.mapError .fault) v
  | stuck {xs : List Moment} {cue : Cue} {v u : World} (hc : E.Conducts m i w xs v)
      (hf : Follows (xs.map Moment.cue) xs (.ok true)) (hp : xs.map Moment.cue ++ [cue] <+: cues)
      (hs : E.takeUp m i cue v = (.error .exhausted, u)) : Takes E m i limit cues w xs (.error .exhausted) u
  | overrun {xs : List Moment} {v : World} (hc : E.Conducts m i w xs v)
      (hf : Follows (xs.map Moment.cue) xs (.ok true)) (hp : xs.map Moment.cue <+: cues)
      (hl : limit = some xs.length) : Takes E m i limit cues w xs (.error .exhausted) v

variable {E : Engine} {m : MachineId} {i : FiringId} {limit : Option Nat} {cue : Cue} {cues : List Cue}
  {w v u : World} {xs : List Moment} {r : Except Stop Bool}

namespace Takes

/-- A remark ahead of the stage is nothing to it. -/
theorem of_quiet (hq : Quiet i w v) (h : E.Takes m i limit cues v xs r u) : E.Takes m i limit cues w xs r u := by
  cases h with
  | ended verdict hc hf => exact .ended verdict (.quiet hq hc) hf
  | stuck hc hf hp hs => exact .stuck (.quiet hq hc) hf hp hs
  | overrun hc hf hp hl => exact .overrun (.quiet hq hc) hf hp hl

/-- Nor is one behind it. -/
theorem quiet {b : Bool} (h : E.Takes m i limit cues w xs (.ok b) v) (hq : Quiet i v u) :
    E.Takes m i limit cues w xs (.ok b) u := by
  generalize he : (Except.ok b : Except Stop Bool) = e at h
  cases h with
  | ended verdict hc hf =>
    have whole := hc.trans (.single_quiet hq)
    rw [List.append_nil] at whole
    exact .ended verdict whole hf
  | stuck => cases he
  | overrun => cases he

/-- Whatever is taken up is what has been done at its moment. -/
theorem conducts (h : E.Takes m i limit cues w xs r v) : ∃ u, E.Conducts m i w xs u := by
  cases h with
  | ended _ hc | stuck hc | overrun hc => exact ⟨_, hc⟩

/-- A stage with nothing to take up is over. -/
theorem nil (w : World) : E.Takes m i limit [] w [] (.ok true) w := .ended (.ok true) (.done w) .done

theorem cons {a : Value} (h : E.takeUp m i cue w = (.ok a, v)) (hp : cue.passes a = true) (limit : Option Nat)
    (ht : E.Takes m i limit cues v xs r u) :
    E.Takes m i (limit.map (· + 1)) (cue :: cues) w (⟨cue, w, .ok a, v⟩ :: xs) r u := by
  have taken {xs : List Moment} {u : World} (hc : E.Conducts m i v xs u) :
      E.Conducts m i w (⟨cue, w, .ok a, v⟩ :: xs) u := .moment (x := ⟨cue, w, .ok a, v⟩) h hc
  have passed {xs : List Moment} (hf : Follows (xs.map Moment.cue) xs (.ok true)) :
      Follows ((⟨cue, w, .ok a, v⟩ :: xs).map Moment.cue) (⟨cue, w, .ok a, v⟩ :: xs) (.ok true) := .passed rfl rfl hp hf
  cases ht with
  | ended verdict hc hf => exact .ended verdict (taken hc) (.passed rfl rfl hp hf)
  | stuck hc hf hpre hs => exact .stuck (taken hc) (passed hf) ((List.prefix_cons_inj cue).mpr hpre) hs
  | overrun hc hf hpre hl => exact .overrun (taken hc) (passed hf) ((List.prefix_cons_inj cue).mpr hpre) (by simp [hl])

/-- A cue that gives no value is the last one, whether it fails or comes to no end. -/
theorem broken {e : Stop} (h : E.takeUp m i cue w = (.error e, v)) (limit : Option Nat) (cues : List Cue) :
    ∃ xs, E.Takes m i limit (cue :: cues) w xs (.error e) v := by
  cases e with
  | fault f =>
    exact ⟨[⟨cue, w, .error f, v⟩], .ended (.error f) (.single_moment h) (.failed cues rfl rfl)⟩
  | exhausted => exact ⟨[], .stuck (.done w) .done ((List.prefix_cons_inj cue).mpr List.nil_prefix) h⟩

theorem halted {a : Value} (h : E.takeUp m i cue w = (.ok a, v)) (hp : cue.passes a = false) (limit : Option Nat)
    (cues : List Cue) : E.Takes m i limit (cue :: cues) w [⟨cue, w, .ok a, v⟩] (.ok false) v :=
  .ended (.ok false) (.single_moment (r := .ok a) h) (.halted cues rfl rfl hp)

end Takes

/-- The callbacks of a list that is fixed are run in order. -/
theorem runCallbacks_takes {cs : List Callback} {r : Except Stop Unit} (h : E.runCallbacks m cs i w = (r, v)) :
    ∃ xs, E.Takes m i none (cs.map .run) w xs (r.map fun _ => true) v := by
  induction cs generalizing w with
  | nil =>
    obtain ⟨rfl, rfl⟩ := Prod.mk.inj h
    exact ⟨[], .nil w⟩
  | cons c cs ih =>
    have begun : E.runCallbacks m (c :: cs) i w = (do
        let _ ← E.consult m c i
        remark m .debug .machine ("Executed callback '" ++ c.display ++ "'")
        E.runCallbacks m cs i : Run Unit) w := by
      show ((E.consult m c i >>= fun _ => remark m _ _ _) >>= fun _ => E.runCallbacks m cs i) w = _
      rw [bind_assoc]
    rw [begun] at h
    rcases hc : E.consult m c i w with ⟨e | a, t⟩
    · have taken : E.takeUp m i (.run c) w = (.error e, t) := hc
      rw [bind_of_error hc] at h
      obtain ⟨rfl, rfl⟩ := Prod.mk.inj h
      exact Takes.broken taken none _
    · have taken : E.takeUp m i (.run c) w = (.ok a, t) := hc
      rw [bind_of_ok hc] at h
      obtain ⟨xs, takes⟩ := ih h
      exact ⟨_, .cons taken rfl none (.of_quiet (quiet_record _ _ _) takes)⟩

/-- The guards of a list are asked in order, up to the first that does not let the firing pass. -/
theorem checkAll_takes {gs : List Guard} (h : E.checkAll m i gs w = (r, v)) :
    ∃ xs, E.Takes m i none (gs.map .ask) w xs r v := by
  induction gs generalizing w with
  | nil =>
    obtain ⟨rfl, rfl⟩ := Prod.mk.inj h
    exact ⟨[], .nil w⟩
  | cons g gs ih =>
    unfold checkAll check at h
    rw [bind_assoc] at h
    rcases hc : E.consult m g.predicate i w with ⟨e | a, t⟩
    · have taken : E.takeUp m i (.ask g) w = (.error e, t) := hc
      rw [bind_of_error hc] at h
      obtain ⟨rfl, rfl⟩ := Prod.mk.inj h
      exact Takes.broken taken none _
    · have taken : E.takeUp m i (.ask g) w = (.ok a, t) := hc
      rw [bind_of_ok hc, pure_bind] at h
      cases ha : a.same g.target with
      | true =>
        rw [ha, if_pos rfl] at h
        obtain ⟨xs, takes⟩ := ih h
        exact ⟨_, .cons taken ha none takes⟩
      | false =>
        rw [ha, if_neg (by simp)] at h
        obtain ⟨rfl, rfl⟩ := Prod.mk.inj h
        exact ⟨_, (Takes.halted taken ha none _).quiet (quiet_record _ _ _)⟩

/-- The callbacks of a list that gets longer are run in order, those added meanwhile included. -/
theorem runGrowing_takes {R : World → World → Prop} (hE : E.Walks R) {read : World → List Callback}
    (grows : ∀ {w v}, ReflTransGen R w v → read w <+: read v) {fuel position : Nat} {r : Except Stop Unit}
    (h : E.runGrowing m read i fuel position w = (r, v)) :
    ∃ xs, E.Takes m i (some fuel) (((read v).drop position).map .run) w xs (r.map fun _ => true) v := by
  induction fuel generalizing w position with
  | zero =>
    obtain ⟨rfl, rfl⟩ := Prod.mk.inj h
    exact ⟨[], .overrun (.done w) .done List.nil_prefix rfl⟩
  | succ fuel ih =>
    have walked : ReflTransGen R w v := (hE.runGrowing m read i (fuel + 1) position).steps h
    rw [runGrowing, bind_of_ok (get_apply w)] at h
    cases hc : (read w)[position]? with
    | none =>
      simp only [hc] at h
      obtain ⟨rfl, rfl⟩ := Prod.mk.inj h
      rw [List.drop_of_length_le (List.getElem?_eq_none_iff.mp hc)]
      exact ⟨[], .nil w⟩
    | some c =>
      simp only [hc] at h
      -- the callback has the same place in the list at the end
      have next : ((read v).drop position).map Cue.run = .run c :: ((read v).drop (position + 1)).map .run := by
        obtain ⟨more, hmore⟩ := grows walked
        obtain ⟨hlt, rfl⟩ := List.getElem?_eq_some_iff.mp hc
        have hlt' : position < (read v).length := by
          rw [← hmore, List.length_append]
          omega
        rw [List.drop_eq_getElem_cons hlt', List.map_cons]
        simp only [← hmore, List.getElem_append_left hlt]
      rw [next]
      unfold runCallback at h
      rw [bind_assoc] at h
      rcases hx : E.consult m c i w with ⟨e | a, t⟩
      · have taken : E.takeUp m i (.run c) w = (.error e, t) := hx
        rw [bind_of_error hx] at h
        obtain ⟨rfl, rfl⟩ := Prod.mk.inj h
        exact Takes.broken taken _ _
      · have taken : E.takeUp m i (.run c) w = (.ok a, t) := hx
        rw [bind_of_ok hx] at h
        obtain ⟨xs, takes⟩ := ih h
        exact ⟨_, .cons taken rfl (some fuel) (.of_quiet (quiet_record _ _ _) takes)⟩

/-- A callback that puts itself behind the others whenever it is run is run without end: there are never turns
enough. -/
theorem runGrowing_endless (read : World → List Callback) {c : Callback} {I : World → Prop}
    (again : ∀ w, I w → ∃ v, E.runCallback m c i w = (.ok (), v) ∧ I v ∧ read v = read w ++ [c]) (hw : I w)
    (fuel position n : Nat) (hc : (read w).drop position = List.replicate (n + 1) c) :
    (E.runGrowing m read i fuel position w).1 = .error .exhausted := by
  induction fuel generalizing w position with
  | zero => rfl
  | succ fuel ih =>
    have here : (read w)[position]? = some c := by
      rw [← List.head?_drop, hc]
      rfl
    obtain ⟨v, hv, kept, added⟩ := again w hw
    rw [runGrowing, bind_of_ok (get_apply w), here]
    simp only []
    rw [bind_of_ok hv]
    refine ih kept (position + 1) ?_
    -- the turn that has been had is made up for at the end of the list
    have long : position < (read w).length := (List.getElem?_eq_some_iff.mp here).1
    have rest : (read w).drop (position + 1) = List.replicate n c := by
      rw [← List.drop_drop, hc]
      rfl
    rw [added, List.drop_append_of_le_length long, rest, ← List.replicate_succ']

/-- Moving the model comes to an end, and where it succeeds the destination is registered. -/
theorem relocate_takes {dest : Value} {r : Except Stop StateId} (h : relocate m dest i w = (r, v)) :
    (∃ xs, E.Takes m i none [.move dest] w xs (r.map fun _ => true) v) ∧
      ∀ d, r = .ok d → v.lookupState m dest = .ok d := by
  have taken : E.takeUp m i (.move dest) w = (r.map fun _ => .null, v) := by
    show (relocate m dest i >>= fun _ => pure Value.null) w = _
    rw [bind_apply, h]
    cases r <;> rfl
  cases r with
  | error e => exact ⟨Takes.broken taken none [], fun d hd => by cases hd⟩
  | ok d =>
    refine ⟨⟨_, .cons taken rfl none (.nil v)⟩, fun d' hd => ?_⟩
    cases hd
    obtain ⟨w', w'', hg, hrun⟩ := ok_of_bind_apply h
    obtain ⟨⟨⟩, u, -, hset⟩ := ok_of_bind_apply hrun
    obtain ⟨d', u', -, hchange⟩ := ok_of_bind_apply hset
    obtain ⟨⟨⟩, u'', -, hask⟩ := ok_of_bind_apply hchange
    obtain ⟨hl, rfl⟩ := ok_of_ask hask
    exact hl

end Engine

end StateEngine
