import StateEngine.Proofs.Stages.Account

/-! Every firing goes by its account, whatever callbacks do: its stages come in order, and what is taken up in them is
what is listed for them. -/
namespace StateEngine
open Act World Relation

namespace World

/-- A firing of a machine under way, and whether it has noted that a candidate has fired. -/
structure Underway (w : World) (m : MachineId) (i : FiringId) (fired : Bool) : Prop where
  made : i < w.firings.next
  machine : (w.firings.get i).machine = m
  result : (w.firings.get i).result = fired

variable {w v : World} {m : MachineId} {i : FiringId} {fired : Bool}

theorem Underway.of_abides (h : w.Underway m i fired) (hr : Abides i w v) : v.Underway m i fired := by
  obtain ⟨made, s, hs⟩ := hr h.made
  exact ⟨made, by rw [hs]; exact h.machine, by rw [hs]; exact h.result⟩

theorem Underway.updateFiring (h : w.Underway m i fired) {f : Firing → Firing}
    (hf : (f (w.firings.get i)).machine = (w.firings.get i).machine) :
    (w.updateFiring i f).Underway m i (f (w.firings.get i)).result :=
  ⟨Nat.lt_of_lt_of_le h.made (Heap.next_le_next_modify _ _ _), by simp [World.updateFiring, hf, h.machine],
    by simp [World.updateFiring]⟩

theorem underway_opened (w : World) (firing : Firing) :
    (w.opened { firing with result := false }).Underway firing.machine w.firings.next false := by
  refine ⟨by simp [opened], ?_, ?_⟩ <;> simp [opened]

end World

namespace Engine

variable {E : Engine} {m : MachineId} {i : FiringId} {w v u : World} {α β : Type}

/-- From a world on, a computation goes by an account, with passes that take up what they are to. -/
def Renders (E : Engine) (m : MachineId) (i : FiringId) (w : World) (x : Run α) (passed : α → Bool) (A : Account) :
    Prop :=
  ∃ ps, A w ps ((x w).1.map passed) (x w).2 ∧ ∀ p ∈ ps, p.Sound E m i

namespace Renders

variable {x : Run α} {f : α → Run β} {passed : α → Bool} {A B : Account}

theorem congr {y : Run α} (h : x w = y w) (hy : E.Renders m i w y passed A) : E.Renders m i w x passed A := by
  unfold Renders
  rw [h]
  exact hy

/-- One part behind another. -/
theorem bind {passed : β → Bool} (hx : E.Renders m i w x (fun _ => true) A)
    (hf : ∀ a v, x w = (.ok a, v) → E.Renders m i v (f a) passed B) :
    E.Renders m i w (x >>= f) passed (A.andThen B) := by
  obtain ⟨ps, account, sound⟩ := hx
  rcases hw : x w with ⟨e | a, v⟩
  · rw [hw] at account
    refine ⟨ps, ?_, sound⟩
    rw [bind_of_error hw]
    exact .cut account (fun h => by cases h)
  · rw [hw] at account
    obtain ⟨qs, account', sound'⟩ := hf a v hw
    refine ⟨ps ++ qs, ?_, fun p hp => (List.mem_append.mp hp).elim (sound p) (sound' p)⟩
    rw [bind_of_ok hw]
    exact .on account account'

/-- A part behind another one that may decline. -/
theorem guarded {x : Run Bool} {y : Run Unit} (hx : E.Renders m i w x id A)
    (hy : ∀ v, x w = (.ok true, v) → E.Renders m i v y (fun _ => true) B) :
    E.Renders m i w (do if ← x then (do y; return true) else return false) id (A.andThen B) := by
  obtain ⟨ps, account, sound⟩ := hx
  rcases hw : x w with ⟨e | passed, v⟩
  · rw [hw] at account
    refine ⟨ps, ?_, sound⟩
    rw [bind_of_error hw]
    exact .cut account (fun h => by cases h)
  · rw [hw] at account
    cases passed with
    | false =>
      refine ⟨ps, ?_, sound⟩
      rw [bind_of_ok hw]
      exact .cut account (fun h => by cases h)
    | true =>
      obtain ⟨qs, account', sound'⟩ := hy v hw
      refine ⟨ps ++ qs, ?_, fun p hp => (List.mem_append.mp hp).elim (sound p) (sound' p)⟩
      rw [bind_of_ok hw, if_pos rfl, bind_apply]
      refine .on account ?_
      rcases hz : y v with ⟨e | _, u⟩ <;> rw [hz] at account' <;> exact account'

/-- A pass through a stage whose list was fixed in the beginning. -/
theorem fixed {stage : Stage} (hl : stage.live = false)
    (h : ∀ {r v}, x w = (r, v) → ∃ xs, E.Takes m i none (stage.cues m w) w xs (r.map passed) v) :
    E.Renders m i w x passed (.stage stage) := by
  rcases hw : x w with ⟨r, v⟩
  obtain ⟨xs, takes⟩ := h hw
  refine ⟨[⟨stage, w, xs, r.map passed, v⟩], ?_, fun p hp => ?_⟩
  · rw [hw]
    exact ⟨xs, rfl⟩
  · obtain rfl := List.mem_singleton.mp hp
    refine ⟨?_, fun live => absurd live (by simp [hl])⟩
    simp only [Pass.listed, hl]
    exact takes

/-- A pass through a stage that goes through its list turn by turn. -/
theorem live {stage : Stage} (hl : stage.live = true) (walks : Act.Walks Longer x)
    (h : ∀ {r v}, x w = (r, v) → ∃ xs, E.Takes m i (some E.bound) (stage.cues m v) w xs (r.map passed) v) :
    E.Renders m i w x passed (.stage stage) := by
  rcases hw : x w with ⟨r, v⟩
  obtain ⟨xs, takes⟩ := h hw
  have longer : Longer w v := .of_steps (walks.steps hw)
  refine ⟨[⟨stage, w, xs, r.map passed, v⟩], ?_, fun p hp => ?_⟩
  · rw [hw]
    exact ⟨xs, rfl⟩
  · obtain rfl := List.mem_singleton.mp hp
    refine ⟨?_, fun _ => ?_⟩
    · simp only [Pass.listed, hl, if_true]
      exact takes
    · simp only [Pass.listed, hl, if_true]
      exact Stage.cues_longer hl m longer

end Renders

/-- Callbacks of a fixed list, and a remark behind them. -/
theorem renders_runCallbacks (stage : Stage) (hl : stage.live = false) {cs : List Callback}
    (hc : stage.cues m w = cs.map .run) (severity : Severity) (logger : Logger) (message : String) :
    E.Renders m i w (do E.runCallbacks m cs i; remark m severity logger message) (fun _ => true) (.stage stage) := by
  refine .fixed hl (fun h => ?_)
  rw [hc]
  rcases hr : E.runCallbacks m cs i w with ⟨r, v⟩
  obtain ⟨xs, takes⟩ := runCallbacks_takes hr
  cases r with
  | error e =>
    rw [bind_of_error hr] at h
    obtain ⟨rfl, rfl⟩ := Prod.mk.inj h
    exact ⟨xs, takes⟩
  | ok _ =>
    rw [bind_of_ok hr] at h
    obtain ⟨rfl, rfl⟩ := Prod.mk.inj h
    exact ⟨xs, takes.quiet (quiet_record _ _ _)⟩

/-- Callbacks of a list that gets longer, between two remarks. -/
theorem renders_runGrowing (hE : E.Walks Longer) (stage : Stage) (hl : stage.live = true) {read : World → List Callback}
    (hc : ∀ v, stage.cues m v = (read v).map .run) (grows : ∀ {w v}, Longer w v → read w <+: read v)
    (severity severity' : Severity) (logger : Logger) (message message' : String) :
    E.Renders m i w (do
      remark m severity logger message
      E.runGrowing m read i E.bound 0
      remark m severity' logger message') (fun _ => true) (.stage stage) := by
  have walks : Act.Walks Longer (do
      remark m severity logger message
      E.runGrowing m read i E.bound 0
      remark m severity' logger message') :=
    .bind (hE.remark _ _ _ _) (fun _ => .bind (hE.runGrowing m read i _ _) (fun _ => hE.remark _ _ _ _))
  refine .live hl walks (fun h => ?_)
  obtain ⟨w', hw'⟩ : ∃ w', remark m severity logger message w = (.ok (), w') := ⟨_, rfl⟩
  have quiet : Quiet i w w' := (Prod.mk.inj hw').2 ▸ quiet_record _ _ _
  rw [bind_of_ok hw'] at h
  rcases hr : E.runGrowing m read i E.bound 0 w' with ⟨r, u⟩
  obtain ⟨xs, takes⟩ := runGrowing_takes hE (fun h => grows (.of_steps h)) hr
  rw [List.drop_zero, ← hc] at takes
  cases r with
  | error e =>
    rw [bind_of_error hr] at h
    obtain ⟨rfl, rfl⟩ := Prod.mk.inj h
    exact ⟨xs, .of_quiet quiet takes⟩
  | ok _ =>
    rw [bind_of_ok hr] at h
    obtain ⟨rfl, rfl⟩ := Prod.mk.inj h
    exact ⟨xs, .of_quiet quiet (takes.quiet (quiet_record _ _ _))⟩

theorem renders_runStage (hE : E.Walks Longer) (s : StateId) (stage : StateStage) :
    E.Renders m i w (E.runStage m s stage i) (fun _ => true) (.stage (.state s stage)) := by
  obtain ⟨message, message', parts⟩ : ∃ message message', E.runStage m s stage i w = (do
      remark m .debug .state message
      E.runGrowing m (fun w => (w.states.get s).callbacks stage) i E.bound 0
      remark m .info .state message' : Run Unit) w := by
    unfold runStage
    rw [bind_of_ok (get_apply w)]
    exact ⟨_, _, rfl⟩
  exact .congr parts (renders_runGrowing hE (.state s stage) rfl (fun _ => rfl) (fun h => h.states s stage) _ _ _ _ _)

theorem renders_moveAlong (hE : E.Walks Longer) (t : Transition) :
    E.Renders m i w (E.moveAlong m t i) (fun _ => true) (.passage m t) := by
  unfold moveAlong
  cases ht : t.internal with
  | true => exact ⟨[], .internal ht, by simp⟩
  | false =>
    rw [if_neg (by simp)]
    unfold changeState
    cases hs : w.lookupState m t.source with
    | error f =>
      have lost : Act.ask (fun w => w.lookupState m t.source) w = (.error (.fault f), w) := by
        rw [ask_apply, hs]
        rfl
      refine ⟨[], ?_, by simp⟩
      rw [bind_of_error lost]
      exact .lost ht hs
    | ok s =>
      have way : E.Renders m i w (do E.runStage m s .exit i; E.runStage m (← relocate m t.dest i) .enter i)
          (fun _ => true) ((Account.stage (.state s .exit)).andThen
            ((Account.stage (.move t.dest)).andThen (.entry m t.dest))) := by
        refine .bind (renders_runStage hE s .exit) (fun _ v _ => ?_)
        refine .bind (.fixed rfl (fun h => (relocate_takes h).1)) (fun d u hd => ?_)
        have found := (relocate_takes (E := E) hd).2 d rfl
        obtain ⟨ps, entered, sound⟩ : E.Renders m i u _ _ _ := renders_runStage hE d .enter
        exact ⟨ps, ⟨d, found, entered⟩, sound⟩
      have left : Act.ask (fun w => w.lookupState m t.source) w = (.ok s, w) := ask_ok hs
      obtain ⟨ps, account, sound⟩ := way
      refine ⟨ps, ?_, sound⟩
      rw [bind_of_ok left]
      exact .way ht hs account

theorem renders_carryOut (hE : E.Walks Longer) (t : TransitionId) (transition : Transition) :
    E.Renders m i w (E.carryOut m t transition i) (fun _ => true)
      ((Account.stage (.before t)).andThen (.andThen (.passage m transition) (.stage (.after t)))) := by
  have parts : E.carryOut m t transition i = (do
      (do
        let w ← get
        E.runCallbacks m ((w.machine m).beforeChange ++ (w.transitions.get t).before) i
        remark m .debug .transition "Executed callback before transition.")
      E.moveAlong m transition i
      let w ← get
      E.runCallbacks m ((w.transitions.get t).after ++ (w.machine m).afterChange) i
      remark m .debug .transition "Executed callback after transition.") := by
    simp only [carryOut, bind_assoc]
  rw [parts]
  refine .bind ?_ (fun _ _ _ => .bind (renders_moveAlong hE transition) (fun _ _ _ => ?_))
  · exact renders_runCallbacks (.before t) rfl rfl _ _ _
  · exact renders_runCallbacks (.after t) rfl rfl _ _ _

theorem renders_execute (hE : E.Walks Longer) {t : TransitionId} (hm : (w.firings.get i).machine = m) :
    E.Renders m i w (E.execute t i) id (.execution m t) := by
  have parts : E.execute t i w = (do
      (do
        remark m .debug .transition ("Initiating transition from state " ++ (w.transitions.get t).source.display ++
          " to state " ++ (w.transitions.get t).dest.display ++ "...")
        E.runGrowing m (fun w => (w.transitions.get t).prepare) i E.bound 0
        remark m .debug .transition "Executed callbacks before conditions.")
      if ← (do E.checkAll m i ((← get).transitions.get t).guards) then
        E.carryOut m t (w.transitions.get t) i
        return true
      else return false : Run Bool) w := by
    simp only [execute, bind_assoc]
    rw [bind_of_ok (get_apply w), hm]
  refine .congr parts (.bind ?_ (fun _ u _ => .guarded (.fixed rfl (fun h => ?_)) (fun v _ => renders_carryOut hE t _)))
  · exact renders_runGrowing hE (.prepare t) rfl (fun _ => rfl) (fun h => h.prepare t) _ _ _ _ _
  · rw [bind_of_ok (get_apply u)] at h
    obtain ⟨xs, takes⟩ := checkAll_takes h
    exact ⟨xs, by rwa [Except.map_id]⟩

/-- The candidates are tried in order, and the firing notes whether one of them has fired. -/
theorem tryCandidates_trials (hE : E.Walks Longer) (hR : E.Walks (Abides i)) {ts : List TransitionId}
    {r : Except Stop Unit} (hw : w.Underway m i false) (h : E.tryCandidates i ts w = (r, v)) :
    ∃ ps verdict, r = verdict.map (fun _ => ()) ∧ Account.trials m i ts w ps verdict v ∧
      (∀ p ∈ ps, p.Sound E m i) ∧ ∀ fired, verdict = .ok fired → v.Underway m i fired := by
  induction ts generalizing w with
  | nil =>
    obtain ⟨rfl, rfl⟩ := Prod.mk.inj h
    exact ⟨[], .ok false, rfl, .none w, by simp, fun fired hf => Except.ok.inj hf ▸ hw⟩
  | cons t ts ih =>
    have begun : E.tryCandidates i (t :: ts) w = (do
        if ← E.execute t i then Act.change (updateFiring i (fun f => { f with result := true }))
        else E.tryCandidates i ts : Run Unit) (w.updateFiring i (fun f => { f with transition := some t })) := rfl
    have noted : (w.updateFiring i (fun f => { f with transition := some t })).Underway m i false :=
      hw.result ▸ hw.updateFiring rfl
    rw [begun] at h
    obtain ⟨ps, account, sound⟩ := renders_execute (t := t) hE noted.machine
    rcases hx : E.execute t i (w.updateFiring i (fun f => { f with transition := some t })) with ⟨e | fired, u⟩
    · rw [hx] at account
      rw [bind_of_error hx] at h
      obtain ⟨rfl, rfl⟩ := Prod.mk.inj h
      exact ⟨ps, .error e, rfl, .failed ts account, sound, fun fired hf => by cases hf⟩
    · rw [hx] at account
      rw [bind_of_ok hx] at h
      have kept : u.Underway m i false :=
        noted.of_abides (.of_steps ((hR.execute (permits_abides (fun _ => True) i) t i).steps hx))
      cases fired with
      | true =>
        obtain ⟨rfl, rfl⟩ := Prod.mk.inj h
        exact ⟨ps, .ok true, rfl, .fired ts account, sound, fun fired hf => Except.ok.inj hf ▸ kept.updateFiring rfl⟩
      | false =>
        obtain ⟨qs, verdict, hr, trials, sound', under⟩ := ih kept h
        exact ⟨ps ++ qs, verdict, hr, .declined account trials,
          fun p hp => (List.mem_append.mp hp).elim (sound p) (sound' p), under⟩

/-- The machine's preparation, and the candidates unless that has failed. -/
theorem attemptMoves_selection (hE : E.Walks Longer) (hR : E.Walks (Abides i)) {r : Except Stop Unit}
    (hw : w.Underway m i false) (h : E.attemptMoves m i w = (r, v)) :
    ∃ ps verdict, r = verdict.map (fun _ => ()) ∧
      ((Account.stage .prepareEvent).andThen (.selection m i)) w ps verdict v ∧
      (∀ p ∈ ps, p.Sound E m i) ∧ ∀ fired, verdict = .ok fired → v.Underway m i fired := by
  have parts : E.attemptMoves m i w = (do
      (do
        E.runCallbacks m (w.machine m).prepareEvent i
        remark m .debug .event "Executed machine preparation callbacks before conditions.")
      E.tryCandidates i (← candidatesFor i) : Run Unit) w := by
    simp only [attemptMoves, bind_assoc]
    rw [bind_of_ok (get_apply w)]
  rw [parts] at h
  have permits := permits_abides (fun _ => True) i
  have walks : Act.Walks (Abides i) (do
      E.runCallbacks m (w.machine m).prepareEvent i
      remark m .debug .event "Executed machine preparation callbacks before conditions.") :=
    .bind (hR.runCallbacks m _ i) (fun _ => hR.remark _ _ _ _)
  have rendered : E.Renders m i w (do
      E.runCallbacks m (w.machine m).prepareEvent i
      remark m .debug .event "Executed machine preparation callbacks before conditions.") (fun _ => true)
      (.stage .prepareEvent) := renders_runCallbacks .prepareEvent rfl rfl _ _ _
  obtain ⟨ps, account, sound⟩ := rendered
  rcases hp : (do
      E.runCallbacks m (w.machine m).prepareEvent i
      remark m .debug .event "Executed machine preparation callbacks before conditions." : Run Unit) w with ⟨e | _, w'⟩
  · rw [hp] at account
    rw [bind_of_error hp] at h
    obtain ⟨rfl, rfl⟩ := Prod.mk.inj h
    exact ⟨ps, .error e, rfl, .cut account (fun he => by cases he), sound, fun fired hf => by cases hf⟩
  · rw [hp] at account
    rw [bind_of_ok hp] at h
    obtain ⟨ts, u, hc⟩ := candidatesFor_ok i w'
    rw [bind_of_ok hc] at h
    have prepared : w'.Underway m i false := hw.of_abides (.of_steps (walks.steps hp))
    have found : u.Underway m i false := prepared.of_abides (.of_steps ((walks_candidatesFor permits i).steps hc))
    obtain ⟨qs, verdict, hr, trials, sound', under⟩ := tryCandidates_trials hE hR found h
    exact ⟨ps ++ qs, verdict, hr, .on account ⟨ts, u, hc, trials⟩,
      fun p hp => (List.mem_append.mp hp).elim (sound p) (sound' p), under⟩

/-- Where the rest has given a verdict there is no error to be noted. -/
theorem noteError_underway (ended : Except Fault Bool) (hw : ∀ fired, ended = .ok fired → w.Underway m i fired) :
    ∃ v, noteError i (ended.map fun _ => ()) w = (.ok (), v) ∧ ∀ fired, ended = .ok fired → v.Underway m i fired := by
  cases ended with
  | ok fired => exact ⟨w, rfl, hw⟩
  | error f =>
    refine ⟨(noteError i (.error f) w).2, ?_, fun fired hf => by cases hf⟩
    simp only [noteError, Except.map]
    split <;> rfl

/-- The end of a firing: its finalising callbacks, and the verdict on the rest behind them. -/
theorem closeFiring_stage (hR : E.Walks (Abides i)) {ended : Except Fault Bool} {r : Except Stop Value}
    (hw : ∀ fired, ended = .ok fired → w.Underway m i fired)
    (h : E.closeFiring m i (ended.map fun _ => ()) w = (r, v)) :
    ∃ ps closing, r = (closing >>= fun _ => ended.mapError .fault).map Value.bool ∧
      Account.stage .finalizeEvent w ps closing v ∧ ∀ p ∈ ps, p.Sound E m i := by
  have parts : E.closeFiring m i (ended.map fun _ => ()) w = (do
      (do
        E.runCallbacks m (w.machine m).finalizeEvent i
        remark m .debug .event "Executed machine finalize callbacks")
      Act.ofExcept (ended.map fun _ => ())
      return .bool ((← get).firings.get i).result : Run Value) w := by
    simp only [closeFiring, bind_assoc]
    rw [bind_of_ok (get_apply w)]
  rw [parts] at h
  have walks : Act.Walks (Abides i) (do
      E.runCallbacks m (w.machine m).finalizeEvent i
      remark m .debug .event "Executed machine finalize callbacks") :=
    .bind (hR.runCallbacks m _ i) (fun _ => hR.remark _ _ _ _)
  have rendered : E.Renders m i w (do
      E.runCallbacks m (w.machine m).finalizeEvent i
      remark m .debug .event "Executed machine finalize callbacks") (fun _ => true) (.stage .finalizeEvent) :=
    renders_runCallbacks .finalizeEvent rfl rfl _ _ _
  obtain ⟨ps, account, sound⟩ := rendered
  rcases hp : (do
      E.runCallbacks m (w.machine m).finalizeEvent i
      remark m .debug .event "Executed machine finalize callbacks" : Run Unit) w with ⟨e | _, u⟩
  · rw [hp] at account
    rw [bind_of_error hp] at h
    obtain ⟨rfl, rfl⟩ := Prod.mk.inj h
    exact ⟨ps, .error e, rfl, account, sound⟩
  · rw [hp] at account
    rw [bind_of_ok hp] at h
    cases ended with
    | error f =>
      obtain ⟨rfl, rfl⟩ := Prod.mk.inj h
      exact ⟨ps, .ok true, rfl, account, sound⟩
    | ok fired =>
      have closed := (hw fired rfl).of_abides (.of_steps (walks.steps hp))
      obtain ⟨rfl, rfl⟩ := Prod.mk.inj h
      exact ⟨ps, .ok true, congrArg (fun b => Except.ok (Value.bool b)) closed.result, account, sound⟩

theorem processFiring_processing (hE : E.Walks Longer) (hR : E.Walks (Abides i)) {r : Except Stop Value}
    (hw : w.Underway m i false) (h : E.processFiring i w = (r, v)) :
    ∃ ps verdict, r = verdict.map Value.bool ∧ Account.processing m i w ps verdict v ∧ ∀ p ∈ ps, p.Sound E m i := by
  unfold processFiring at h
  rw [bind_of_ok (get_apply w), hw.machine] at h
  rcases ha : E.attemptMoves m i w with ⟨e, u⟩
  obtain ⟨ps, verdict, rfl, account, sound, under⟩ := attemptMoves_selection hE hR hw ha
  by_cases hv : verdict = .error .exhausted
  · subst hv
    rw [bind_of_error (attempt_exhausted ha)] at h
    obtain ⟨rfl, rfl⟩ := Prod.mk.inj h
    exact ⟨ps, .error .exhausted, rfl, .endless account, sound⟩
  · obtain ⟨ended, rfl⟩ := Stop.exists_of_ne_exhausted hv
    have attempted : (E.attemptMoves m i).attempt w = (.ok (ended.map fun _ => ()), u) := by
      refine attempt_apply (ha.trans ?_)
      cases ended <;> rfl
    rw [bind_of_ok attempted] at h
    obtain ⟨u', hn, kept⟩ := noteError_underway ended (fun fired hf => under fired (by rw [hf]; rfl))
    rw [bind_of_ok hn] at h
    obtain ⟨qs, closing, rfl, closed, sound'⟩ := closeFiring_stage hR kept h
    exact ⟨ps ++ qs, _, rfl, .closed account hn closed, fun p hp => (List.mem_append.mp hp).elim (sound p) (sound' p)⟩

/-- A firing that is opened for an event is processed stage by stage, whatever callbacks do. What a stage takes up, in
order and up to the first that fails or does not pass, is what was listed for it in the beginning: the machine's
preparation, the guards, the callbacks before and after the move, and the end. Where it is the preparation of a
candidate or the exit or entry of a state, it is what was listed in the end, when others may have come behind. If there
is no end to the firing, then a callback has come to none, or such a list has got longer all the time. -/
theorem stages_take_up_what_is_listed (host : Host) (bound depth : Nat) (w : World) (firing : Firing) :
    ∃ ps verdict u, (ofHost host bound depth).processFiring w.firings.next (w.opened { firing with result := false }) =
        (verdict.map Value.bool, u) ∧
      Account.processing firing.machine w.firings.next (w.opened { firing with result := false }) ps verdict u ∧
      (∀ p ∈ ps, p.Sound (ofHost host bound depth) firing.machine w.firings.next) ∧
      (verdict = .error .exhausted → ∃ p ∈ ps, p.Endless (ofHost host bound depth) firing.machine w.firings.next) := by
  rcases h : (ofHost host bound depth).processFiring w.firings.next (w.opened { firing with result := false })
    with ⟨r, u⟩
  obtain ⟨ps, verdict, rfl, account, sound⟩ := processFiring_processing (longer_ofHost host bound depth)
    (abides_ofHost host _ bound depth) (underway_opened w firing) h
  refine ⟨ps, verdict, u, rfl, account, sound, fun hv => ?_⟩
  obtain ⟨p, hp, he⟩ := (Account.attests_processing firing.machine _).endless _ ps u (hv ▸ account)
  exact ⟨p, hp, (sound p hp).endless he⟩

end Engine

/-- The labels of the calls in a history. -/
def World.callLabels (w : World) : List String := w.history.toList.filterMap (fun entry => match entry with
  | .called label _ _ => some label
  | _ => none)

/-- What a callback does that adds another one to the entry of a state. -/
def addition (state callback : String) : Program :=
  .perform "add" (fun _ => .ok (.hookState 0 (.text state) (.text "enter") (.callback callback))) (fun _ => .done .null)

/-- A callback that adds another one to the lit state, one that adds itself to the hot state, and others that do
nothing. -/
def stoveHost : Host where
  behaviour := fun callback _ _ _ =>
    if callback = "kindle" then addition "lit" "smoke"
    else if callback = "stoke" then addition "hot" "stoke"
    else .done .null

def stoveEngine (bound : Nat) : Engine := Engine.ofHost stoveHost bound 2

/-- A stove that is kindled when it is lit and stoked when it is hot. -/
def stovePlan : Blueprint where
  options := { initial := .text "cold", autoTransitions := .bool false }
  states := .list [.text "cold", .map [(.text "name", .text "lit"), (.text "on_enter", .callback "kindle")],
    .map [(.text "name", .text "hot"), (.text "on_enter", .callback "stoke")]]
  transitions := .list [
    .list [.text "light", .text "cold", .text "lit"],
    .list [.text "heat", .text "cold", .text "hot"]]
  models := .model "stove"

def stoveWorld : World := ((stoveEngine 8).perform (.create "stoves" stovePlan) {}).2

/-- The stove with its machine told to light it. -/
def stoveLit : World := ((stoveEngine 8).perform (.trigger 0 (.model "stove") (.text "light") [] []) stoveWorld).2

theorem stoveWorld_facts : (stoveWorld.states.get 1).onEnter = [.callback "kindle"] ∧
    (stoveWorld.states.get 2).onEnter = [.callback "stoke"] ∧ stoveWorld.lookupState 0 (.text "hot") = .ok 2 ∧
      (stoveWorld.machine 0).sendEvent = .bool false := by
  have look : (some stoveWorld).map (fun w => ((w.states.get 1).onEnter, (w.states.get 2).onEnter,
      w.lookupState 0 (.text "hot"), (w.machine 0).sendEvent)) =
      some ([.callback "kindle"], [.callback "stoke"], .ok 2, .bool false) := by cbv
  simpa only [Option.map_some, Option.some.injEq, Prod.mk.injEq] using look

/-- What is kept of the stove as long as it is stoked: its hot state, and that callbacks get the trigger's arguments. -/
structure StoveKept (w : World) : Prop where
  hot : w.lookupState 0 (.text "hot") = .ok 2
  plain : (w.machine 0).sendEvent = .bool false

/-- The world in which a callback has stoked the stove. -/
def stoked (w : World) : World :=
  (World.updateState 2 (·.addCallback (.callback "stoke") .enter) { w with requests := w.requests + 1 }).record
    (.performed "add" (.ok (.value .null)))

theorem stoke_runs (bound : Nat) {w : World} (hot : w.lookupState 0 (.text "hot") = .ok 2) :
    (Engine.ofHost stoveHost bound 1).runProgram (addition "hot" "stoke") w = (.ok .null, stoked w) := by
  obtain ⟨u, hu⟩ : ∃ u : World, u = { w with requests := w.requests + 1 } := ⟨_, rfl⟩
  have found : u.lookupState 0 (.text "hot") = .ok 2 := by
    rw [hu]
    exact hot
  have hooked : u.hookState 0 (.text "hot") (.text "enter") (.callback "stoke") =
      .ok (World.updateState 2 (·.addCallback (.callback "stoke") .enter) u) := by
    have named : StateStage.ofValue? (.text "enter") = some .enter := by cbv
    unfold World.hookState
    rw [found]
    simp only [named, bind, Except.bind, pure, Except.pure]
  have performed : (Engine.ofHost stoveHost bound 1).request
      (fun _ => .ok (.hookState 0 (.text "hot") (.text "enter") (.callback "stoke"))) w =
        (.ok (.value .null), World.updateState 2 (·.addCallback (.callback "stoke") .enter) u) := by
    show (Act.advance (fun w => w.hookState 0 (.text "hot") (.text "enter") (.callback "stoke")) >>= fun _ =>
      pure (Reply.value .null)) { w with requests := w.requests + 1 } = _
    rw [← hu, Act.bind_of_ok (Act.advance_ok hooked)]
    rfl
  unfold addition
  rw [Engine.runProgram, Act.bind_of_ok (Act.attempt_apply (r := .ok _) performed), hu]
  rfl

/-- Whoever stokes the stove has to do it again. -/
theorem stoke_adds_itself (bound : Nat) {i : FiringId} {w : World} (hw : StoveKept w) :
    ∃ v, (stoveEngine bound).runCallback 0 (.callback "stoke") i w = (.ok (), v) ∧ StoveKept v ∧
      (v.states.get 2).onEnter = (w.states.get 2).onEnter ++ [.callback "stoke"] := by
  obtain ⟨w', hw'⟩ : ∃ w' : World, w' = { w with
      invocations := w.invocations.insert "stoke" ((w.invocations.find? "stoke").getD 0 + 1)
      history := w.history.push (.called "stoke" (w.firings.get i).args (w.firings.get i).named) } := ⟨_, rfl⟩
  have called : (stoveEngine bound).call "stoke" "stoke"
      (.arguments (w.firings.get i).args (w.firings.get i).named) w = (.ok .null, stoked w') := by
    have entered : (stoveEngine bound).call "stoke" "stoke"
        (.arguments (w.firings.get i).args (w.firings.get i).named) w =
          (Engine.ofHost stoveHost bound 1).runProgram (addition "hot" "stoke") w' := by
      rw [hw']
      rfl
    rw [entered]
    exact stoke_runs bound (hw' ▸ hw.hot)
  have consulted : (stoveEngine bound).consult 0 (.callback "stoke") i w = (.ok .null, stoked w') := by
    unfold Engine.consult Engine.resolve Engine.callFor
    simp only [Value.text?, pure_bind, bind_assoc]
    rw [Act.bind_of_ok (Act.get_apply w), hw.plain, if_neg (by simp [Value.truthy]), pure_bind]
    exact called
  refine ⟨(stoked w').record (.remarked .debug .machine
    (((stoked w').machine 0).label ++ ("Executed callback '" ++ (Value.callback "stoke").display ++ "'"))), ?_, ?_, ?_⟩
  · unfold Engine.runCallback
    rw [Act.bind_of_ok consulted]
    rfl
  · rw [hw']
    exact ⟨hw.hot, hw.plain⟩
  · rw [hw']
    show ((w.states.modify 2 _).get 2).onEnter = _
    rw [Heap.get_modify, if_pos rfl]
    rfl

theorem StoveKept.opened {w : World} (hw : StoveKept w) (firing : Firing) : StoveKept (w.opened firing) :=
  ⟨hw.hot, hw.plain⟩

/-- However many turns there may be, stoking uses them up. -/
theorem stoking_has_no_end (bound : Nat) (i : FiringId) {w : World} (hw : StoveKept w)
    (hc : (w.states.get 2).onEnter = [.callback "stoke"]) :
    ((stoveEngine bound).runStage 0 2 .enter i w).1 = .error .exhausted := by
  unfold Engine.runStage
  rw [Act.bind_of_ok (Act.get_apply w)]
  simp only []
  obtain ⟨message, hmessage⟩ : ∃ message, remark 0 .debug .state ("Entering" ++ " state " ++
      (w.states.get 2).name.display ++ ". Processing callbacks...") w = (.ok (), w.record message) := ⟨_, rfl⟩
  rw [Act.bind_of_ok hmessage]
  have kept : StoveKept (w.record message) := ⟨hw.hot, hw.plain⟩
  have endless : ((stoveEngine bound).runGrowing 0 (fun w => (w.states.get 2).callbacks .enter) i
      (stoveEngine bound).bound 0 (w.record message)).1 = .error .exhausted :=
    Engine.runGrowing_endless _ (fun _ hw => stoke_adds_itself bound hw) kept _ 0 0 hc
  rw [Act.bind_of_error (Prod.ext endless rfl)]

theorem stoveLit_calls : stoveLit.callLabels = ["kindle", "smoke"] := by cbv

/-- Entering the lit state runs a callback that was not registered when it began, and entering the hot one has no
end. -/
theorem stove_burns_what_is_added :
    (stoveWorld.states.get 1).onEnter = [.callback "kindle"] ∧ stoveLit.callLabels = ["kindle", "smoke"] ∧
      (stoveWorld.states.get 2).onEnter = [.callback "stoke"] ∧
      ∀ bound, ((stoveEngine bound).runStage 0 2 .enter stoveWorld.firings.next
        (stoveWorld.opened { state := 0, event := 1, machine := 0, model := .model "stove" })).1 =
          .error .exhausted := by
  obtain ⟨lit, hot, found, plain⟩ := stoveWorld_facts
  have kept : StoveKept stoveWorld := ⟨found, plain⟩
  exact ⟨lit, stoveLit_calls, hot, fun bound => stoking_has_no_end bound _ (kept.opened _) hot⟩

end StateEngine
