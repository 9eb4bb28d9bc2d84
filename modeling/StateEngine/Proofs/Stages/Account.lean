import StateEngine.Proofs.Stages.Running

/-! The account of a firing: which passes it makes through which stages, one after the other, and that every one of them
takes up what is listed for it. -/
namespace StateEngine
open Act World Relation

/-- One pass through a stage: where it began, what was taken up, how it went, and where it ended. -/
structure Pass where
  stage : Stage
  start : World
  moments : List Moment
  verdict : Except Stop Bool
  finish : World

namespace Pass

/-- What a pass is to take up: what was listed for its stage in the beginning, or in the end where it goes through the
list turn by turn. -/
def listed (p : Pass) (m : MachineId) : List Cue := p.stage.cues m (if p.stage.live then p.finish else p.start)

/-- A pass that takes up what it is to. What is listed in the end was listed in the beginning, but for what has come
behind it. -/
structure Sound (p : Pass) (E : Engine) (m : MachineId) (i : FiringId) : Prop where
  takes : E.Takes m i (if p.stage.live then some E.bound else none) (p.listed m) p.start p.moments p.verdict p.finish
  longer : p.stage.live = true → p.stage.cues m p.start <+: p.listed m

/-- A pass that comes to no end. All that it has taken up has passed, and what is next comes to no end itself, or
the stage goes through its list turn by turn and has had as many turns as there may be. -/
structure Endless (p : Pass) (E : Engine) (m : MachineId) (i : FiringId) : Prop where
  passed : Follows (p.moments.map Moment.cue) p.moments (.ok true)
  cause : (∃ cue v u, p.moments.map Moment.cue ++ [cue] <+: p.listed m ∧ E.takeUp m i cue v = (.error .exhausted, u)) ∨
    p.stage.live = true ∧ p.moments.length = E.bound

variable {p : Pass} {E : Engine} {m : MachineId} {i : FiringId}

theorem Sound.endless (h : p.Sound E m i) (he : p.verdict = .error .exhausted) : p.Endless E m i := by
  obtain ⟨s, w, xs, r, v⟩ := p
  obtain ⟨takes, -⟩ := h
  cases takes with
  | ended outcome hc hf => cases outcome <;> cases he
  | stuck hc hf hp hs => exact ⟨hf, .inl ⟨_, _, _, hp, hs⟩⟩
  | overrun hc hf hp hl =>
    refine ⟨hf, .inr ?_⟩
    split at hl
    · rename_i live
      exact ⟨live, (Option.some.inj hl).symm⟩
    · cases hl

end Pass

/-- An account of a part of a firing: from which world on which passes are made, and to what verdict and world they
lead. -/
abbrev Account := World → List Pass → Except Stop Bool → World → Prop

namespace Account

/-- One pass through a stage. -/
def stage (stage : Stage) : Account := fun w ps r v => ∃ xs, ps = [⟨stage, w, xs, r, v⟩]

/-- One part behind another, if all has passed there. -/
inductive andThen (A B : Account) (w : World) : List Pass → Except Stop Bool → World → Prop where
  | cut {ps : List Pass} {r : Except Stop Bool} {v : World} (h : A w ps r v) (hr : r ≠ .ok true) : andThen A B w ps r v
  | on {ps qs : List Pass} {r : Except Stop Bool} {v u : World} (h : A w ps (.ok true) v) (h' : B v qs r u) :
      andThen A B w (ps ++ qs) r u

/-- Entering the state that is registered for a destination. -/
def entry (m : MachineId) (dest : Value) : Account :=
  fun w ps r v => ∃ d, w.lookupState m dest = .ok d ∧ stage (.state d .enter) w ps r v

/-- The way along a transition: none where it is internal, or where its source is not registered any more. -/
inductive passage (m : MachineId) (t : Transition) (w : World) : List Pass → Except Stop Bool → World → Prop where
  | internal (h : t.internal = true) : passage m t w [] (.ok true) w
  | lost {f : Fault} (h : t.internal = false) (hs : w.lookupState m t.source = .error f) :
      passage m t w [] (.error (.fault f)) w
  | way {s : StateId} {ps : List Pass} {r : Except Stop Bool} {v : World} (h : t.internal = false)
      (hs : w.lookupState m t.source = .ok s)
      (hw : andThen (stage (.state s .exit)) (andThen (stage (.move t.dest)) (entry m t.dest)) w ps r v) :
      passage m t w ps r v

/-- The execution of a candidate. -/
def execution (m : MachineId) (t : TransitionId) : Account := fun w =>
  andThen (stage (.prepare t)) (andThen (stage (.guards t)) (andThen (stage (.before t))
    (andThen (passage m (w.transitions.get t)) (stage (.after t))))) w

/-- Candidates tried one after the other, up to the first that fires or that gives no verdict. -/
inductive trials (m : MachineId) (i : FiringId) : List TransitionId → Account where
  | none (w : World) : trials m i [] w [] (.ok false) w
  | declined {t : TransitionId} {ts : List TransitionId} {w v u : World} {ps qs : List Pass} {r : Except Stop Bool}
      (h : execution m t (w.updateFiring i (fun f => { f with transition := some t })) ps (.ok false) v)
      (more : trials m i ts v qs r u) : trials m i (t :: ts) w (ps ++ qs) r u
  | fired {t : TransitionId} (ts : List TransitionId) {w v : World} {ps : List Pass}
      (h : execution m t (w.updateFiring i (fun f => { f with transition := some t })) ps (.ok true) v) :
      trials m i (t :: ts) w ps (.ok true) (v.updateFiring i (fun f => { f with result := true }))
  | failed {t : TransitionId} (ts : List TransitionId) {w v : World} {ps : List Pass} {e : Stop}
      (h : execution m t (w.updateFiring i (fun f => { f with transition := some t })) ps (.error e) v) :
      trials m i (t :: ts) w ps (.error e) v

/-- The candidates that there are for a firing, tried one after the other. -/
def selection (m : MachineId) (i : FiringId) : Account :=
  fun w ps r v => ∃ ts u, Engine.candidatesFor i w = (.ok ts, u) ∧ trials m i ts u ps r v

/-- The processing of a firing: the machine's preparation and the candidates, and behind them the end, unless there
is no end to them. -/
inductive processing (m : MachineId) (i : FiringId) (w : World) : List Pass → Except Stop Bool → World → Prop where
  | endless {ps : List Pass} {v : World}
      (h : andThen (stage .prepareEvent) (selection m i) w ps (.error .exhausted) v) :
      processing m i w ps (.error .exhausted) v
  | closed {ps qs : List Pass} {ended : Except Fault Bool} {v v' u : World} {closing : Except Stop Bool}
      (h : andThen (stage .prepareEvent) (selection m i) w ps (ended.mapError .fault) v)
      (hn : Engine.noteError i (ended.map fun _ => ()) v = (.ok (), v')) (hz : stage .finalizeEvent v' qs closing u) :
      processing m i w (ps ++ qs) (closing >>= fun _ => ended.mapError .fault) u

/-- An account that is true to its passes: by it there is no end only where one of them comes to none, and there is a
verdict only where all of them come to one. -/
structure Attests (A : Account) : Prop where
  endless : ∀ w ps v, A w ps (.error .exhausted) v → ∃ p ∈ ps, p.verdict = .error .exhausted
  settled : ∀ w ps b v, A w ps (.ok b) v → ∀ p ∈ ps, ∀ e, p.verdict ≠ .error e

theorem attests_stage (s : Stage) : Attests (stage s) := by
  refine ⟨?_, ?_⟩
  · rintro w ps v ⟨xs, rfl⟩
    exact ⟨_, List.mem_singleton_self _, rfl⟩
  · rintro w ps b v ⟨xs, rfl⟩ p hp
    obtain rfl := List.mem_singleton.mp hp
    nofun

theorem Attests.andThen {A B : Account} (hA : A.Attests) (hB : B.Attests) : Attests (A.andThen B) := by
  refine ⟨fun w ps v h => ?_, fun w ps b v h => ?_⟩
  · cases h with
    | cut h => exact hA.endless w ps v h
    | on h h' =>
      obtain ⟨p, hp, he⟩ := hB.endless _ _ _ h'
      exact ⟨p, List.mem_append_right _ hp, he⟩
  · cases h with
    | cut h => exact hA.settled w ps b v h
    | on h h' => exact fun p hp => (List.mem_append.mp hp).elim (hA.settled _ _ _ _ h p) (hB.settled _ _ _ _ h' p)

theorem attests_entry (m : MachineId) (dest : Value) : Attests (entry m dest) where
  endless := fun w ps v ⟨_, _, h⟩ => (attests_stage _).endless w ps v h
  settled := fun w ps b v ⟨_, _, h⟩ => (attests_stage _).settled w ps b v h

theorem attests_passage (m : MachineId) (t : Transition) : Attests (passage m t) := by
  have way (s : StateId) := (attests_stage (.state s .exit)).andThen
    ((attests_stage (.move t.dest)).andThen (attests_entry m t.dest))
  refine ⟨fun w ps v h => ?_, fun w ps b v h => ?_⟩
  · cases h with
    | way _ _ hw => exact (way _).endless w ps v hw
  · cases h with
    | internal => simp
    | way _ _ hw => exact (way _).settled w ps b v hw

theorem attests_execution (m : MachineId) (t : TransitionId) : Attests (execution m t) := by
  have parts (w : World) := (attests_stage (.prepare t)).andThen ((attests_stage (.guards t)).andThen
    ((attests_stage (.before t)).andThen
      ((attests_passage m (w.transitions.get t)).andThen (attests_stage (.after t)))))
  exact ⟨fun w => (parts w).endless w, fun w => (parts w).settled w⟩

theorem attests_trials (m : MachineId) (i : FiringId) (ts : List TransitionId) : Attests (trials m i ts) := by
  refine ⟨fun w ps v h => ?_, fun w ps b v h => ?_⟩
  · generalize hr : (Except.error Stop.exhausted : Except Stop Bool) = r at h
    induction h with
    | none | fired => cases hr
    | declined h more ih =>
      obtain ⟨p, hp, he⟩ := ih hr
      exact ⟨p, List.mem_append_right _ hp, he⟩
    | failed ts h =>
      cases hr
      exact (attests_execution m _).endless _ _ _ h
  · generalize hr : (Except.ok b : Except Stop Bool) = r at h
    induction h with
    | none => simp
    | declined h more ih =>
      exact fun p hp => (List.mem_append.mp hp).elim ((attests_execution m _).settled _ _ _ _ h p) (ih hr p)
    | fired ts h => exact (attests_execution m _).settled _ _ _ _ h
    | failed => cases hr

theorem attests_selection (m : MachineId) (i : FiringId) : Attests (selection m i) where
  endless := fun _ ps v ⟨ts, u, _, h⟩ => (attests_trials m i ts).endless u ps v h
  settled := fun _ ps b v ⟨ts, u, _, h⟩ => (attests_trials m i ts).settled u ps b v h

theorem attests_processing (m : MachineId) (i : FiringId) : Attests (processing m i) := by
  have rest := (attests_stage .prepareEvent).andThen (attests_selection m i)
  have last := attests_stage .finalizeEvent
  refine ⟨fun w ps v h => ?_, fun w ps b v h => ?_⟩
  · generalize hr : (Except.error Stop.exhausted : Except Stop Bool) = r at h
    cases h with
    | endless h => exact rest.endless w ps v h
    | @closed ps qs ended _ _ _ closing h hn hz =>
      cases closing with
      | error e =>
        cases hr
        obtain ⟨p, hp, he⟩ := last.endless _ _ _ hz
        exact ⟨p, List.mem_append_right _ hp, he⟩
      | ok _ => cases ended <;> cases hr
  · generalize hr : (Except.ok b : Except Stop Bool) = r at h
    cases h with
    | endless => cases hr
    | @closed ps qs ended _ _ _ closing h hn hz =>
      cases closing with
      | error e => cases hr
      | ok _ =>
        cases ended with
        | error f => cases hr
        | ok b =>
          exact fun p hp => (List.mem_append.mp hp).elim (rest.settled _ _ _ _ h p) (last.settled _ _ _ _ hz p)

end Account

end StateEngine
