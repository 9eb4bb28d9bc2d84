import StateEngine.Proofs.Firing.Course

/-! Where in the course of a firing the model is moved: at most once, for the candidate that all that is
ahead of its move lets pass. -/
namespace StateEngine

namespace Follows

variable {cues more : List Cue} {xs ys ls ms : List Moment} {verdict other : Except Fault Bool}

/-- How the same cues go on is decided by their outcomes alone. -/
theorem unique (h : Follows cues xs verdict) (h' : Follows cues ys other) (he : xs ++ ls = ys ++ ms) :
    xs = ys ∧ verdict = other := by
  induction h generalizing ys with
  | done =>
    cases h'
    exact ⟨rfl, rfl⟩
  | passed _ ho hp _ ih =>
    cases h' with
    | passed _ ho' _ h' =>
      obtain ⟨rfl, htail⟩ := List.cons.inj he
      obtain ⟨rfl, rfl⟩ := ih h' htail
      exact ⟨rfl, rfl⟩
    | halted _ _ ho' hp' =>
      obtain ⟨rfl, -⟩ := List.cons.inj he
      cases ho.symm.trans ho'
      cases hp.symm.trans hp'
    | failed _ _ ho' =>
      obtain ⟨rfl, -⟩ := List.cons.inj he
      cases ho.symm.trans ho'
  | halted _ _ ho hp =>
    cases h' with
    | passed _ ho' hp' _ =>
      obtain ⟨rfl, -⟩ := List.cons.inj he
      cases ho.symm.trans ho'
      cases hp.symm.trans hp'
    | halted _ _ _ _ =>
      obtain ⟨rfl, -⟩ := List.cons.inj he
      exact ⟨rfl, rfl⟩
    | failed _ _ ho' =>
      obtain ⟨rfl, -⟩ := List.cons.inj he
      cases ho.symm.trans ho'
  | failed _ _ ho =>
    cases h' with
    | passed _ ho' _ _ =>
      obtain ⟨rfl, -⟩ := List.cons.inj he
      cases ho.symm.trans ho'
    | halted _ _ ho' _ =>
      obtain ⟨rfl, -⟩ := List.cons.inj he
      cases ho.symm.trans ho'
    | failed _ _ ho' =>
      obtain ⟨rfl, -⟩ := List.cons.inj he
      cases ho.symm.trans ho'
      exact ⟨rfl, rfl⟩

/-- What follows two lists of cues stops in the first one or goes through it into the second one. -/
theorem split (h : Follows (cues ++ more) xs verdict) :
    (Follows cues xs verdict ∧ verdict ≠ .ok true) ∨
      ∃ ys zs, xs = ys ++ zs ∧ Follows cues ys (.ok true) ∧ Follows more zs verdict := by
  induction cues generalizing xs with
  | nil => exact .inr ⟨[], xs, rfl, .done, h⟩
  | cons cue cues ih =>
    cases h with
    | passed hc ho hp h =>
      rcases ih h with ⟨h, hv⟩ | ⟨ys, zs, rfl, hy, hz⟩
      · exact .inl ⟨.passed hc ho hp h, hv⟩
      · exact .inr ⟨_ :: ys, zs, rfl, .passed hc ho hp hy, hz⟩
    | halted _ hc ho hp => exact .inl ⟨.halted _ hc ho hp, fun hv => by cases hv⟩
    | failed _ hc ho => exact .inl ⟨.failed _ hc ho, fun hv => by cases hv⟩

/-- Only a guard can halt a course. -/
theorem not_halted (h : Follows cues xs verdict) (hg : ∀ cue ∈ cues, ∀ v, cue.passes v = true) :
    verdict ≠ .ok false := by
  induction h with
  | done => exact fun hv => by cases hv
  | passed _ _ _ _ ih => exact ih (fun cue hcue => hg cue (List.mem_cons_of_mem _ hcue))
  | @halted cue x v cues _ _ hp =>
    rw [hg cue List.mem_cons_self v] at hp
    cases hp
  | failed => exact fun hv => by cases hv

end Follows

namespace World

/-- All that is ahead of the move of a candidate. -/
def aheadCues (w : World) (m : MachineId) (s : StateId) (t : Transition) : List Cue :=
  t.prepare.map .run ++ (t.conditions ++ t.exclusions).map .ask ++
    (((w.machine m).beforeChange ++ t.before).map .run ++ (w.states.get s).onExit.map .run)

/-- All that is behind it. -/
def behindCues (w : World) (m : MachineId) (t : Transition) : List Cue :=
  w.entryCues m t.dest ++ (t.after ++ (w.machine m).afterChange).map .run

variable {w : World} {m : MachineId} {s : StateId} {t : Transition}

theorem candidateCues_external (h : t.internal = false) :
    w.candidateCues m s t = w.aheadCues m s t ++ .move t.dest :: w.behindCues m t := by
  simp [candidateCues, passageCues, aheadCues, behindCues, h]

theorem aheadCues_still : ∀ cue ∈ w.aheadCues m s t, cue.moves = false := by
  simp only [aheadCues, List.mem_append, List.mem_map]
  rintro cue ((⟨_, -, rfl⟩ | ⟨_, -, rfl⟩) | ⟨_, -, rfl⟩ | ⟨_, -, rfl⟩) <;> rfl

theorem entryCues_run (name : Value) : ∃ cs : List Callback, w.entryCues m name = cs.map .run := by
  unfold entryCues
  split
  · exact ⟨_, rfl⟩
  · exact ⟨[], rfl⟩

theorem behindCues_run : ∃ cs : List Callback, w.behindCues m t = cs.map .run := by
  obtain ⟨cs, hcs⟩ := entryCues_run (w := w) (m := m) t.dest
  exact ⟨cs ++ (t.after ++ (w.machine m).afterChange), by rw [behindCues, hcs, ← List.map_append]⟩

end World

/-- A candidate that is tried at all, and that all ahead of its move lets pass: it leads somewhere, the
machine's preparation has ended, and the candidates in front of it have declined. -/
inductive Arrives (w : World) (m : MachineId) (s : StateId) (candidates : List Transition) :
    Transition → List Moment → Prop where
  | intro {t : Transition} {declined rest : List Transition} {ps qs xs : List Moment}
      (hc : candidates = declined ++ t :: rest) (ht : t.internal = false)
      (hp : Follows ((w.machine m).prepareEvent.map .run) ps (.ok true))
      (hq : Tries (declined.map (w.candidateCues m s)) qs (.ok false))
      (hx : Follows (w.aheadCues m s t) xs (.ok true)) :
      Arrives w m s candidates t (ps ++ qs ++ xs)

variable {w : World} {m : MachineId} {s : StateId} {t : Transition} {candidates : List Transition}
  {xs ys ls ms : List Moment} {verdict : Except Fault Bool}

theorem run_still (cs : List Callback) : ∀ cue ∈ cs.map Cue.run, cue.moves = false := by
  intro cue hcue
  obtain ⟨c, -, rfl⟩ := List.mem_map.mp hcue
  rfl

/-- A candidate that declines has not moved the model. -/
theorem Follows.declined_still (h : Follows (w.candidateCues m s t) xs (.ok false)) :
    ∀ x ∈ xs, x.cue.moves = false := by
  unfold World.candidateCues at h
  rcases h.split with ⟨h, -⟩ | ⟨ys, zs, rfl, -, hz⟩
  · refine h.still ?_
    simp only [List.mem_append, List.mem_map]
    rintro cue (⟨_, -, rfl⟩ | ⟨_, -, rfl⟩) <;> rfl
  · have run (cs : List Callback) : ∀ cue ∈ cs.map Cue.run, ∀ v, cue.passes v = true := by
      intro cue hcue v
      obtain ⟨c, -, rfl⟩ := List.mem_map.mp hcue
      rfl
    have passage : ∀ cue ∈ w.passageCues m s t, ∀ v, cue.passes v = true := by
      unfold World.passageCues
      split
      · exact fun _ h => by cases h
      · obtain ⟨cs, hcs⟩ := World.entryCues_run (w := w) (m := m) t.dest
        rw [hcs]
        intro cue hcue v
        rcases List.mem_append.mp hcue with hcue | hcue
        · exact run _ cue hcue v
        · rcases List.mem_cons.mp hcue with rfl | hcue
          · rfl
          · exact run _ cue hcue v
    refine absurd rfl (hz.not_halted (fun cue hcue v => ?_))
    rcases List.mem_append.mp hcue with hcue | hcue
    · rcases List.mem_append.mp hcue with hcue | hcue
      · exact run _ cue hcue v
      · exact passage cue hcue v
    · exact run _ cue hcue v

theorem Tries.declined_still (h : Tries (candidates.map (w.candidateCues m s)) xs (.ok false)) :
    ∀ x ∈ xs, x.cue.moves = false := by
  induction candidates generalizing xs with
  | nil =>
    cases h
    exact fun _ h => by cases h
  | cons t candidates ih =>
    cases h with
    | halted h hr =>
      intro x hx
      rcases List.mem_append.mp hx with hx | hx
      · exact h.declined_still x hx
      · exact ih hr x hx
    | settled _ _ hv => exact absurd rfl hv

/-- Candidates that have declined are done with, and the next one is tried. -/
theorem Tries.skip {cs ds : List (List Cue)} (h : Tries (cs ++ ds) xs verdict) (hc : Tries cs ys (.ok false))
    (he : ys ++ ls = xs ++ ms) : ∃ zs, xs = ys ++ zs ∧ Tries ds zs verdict := by
  induction cs generalizing xs ys with
  | nil =>
    cases hc
    exact ⟨xs, rfl, h⟩
  | cons cues cs ih =>
    cases hc with
    | settled _ _ hv => exact absurd rfl hv
    | @halted _ _ as bs _ ha hb =>
      rw [List.append_assoc] at he
      cases h with
      | @halted _ _ as' bs' _ ha' hb' =>
        rw [List.append_assoc] at he
        obtain ⟨rfl, -⟩ := ha.unique ha' he
        obtain ⟨zs, rfl, hz⟩ := ih hb' hb (List.append_cancel_left he)
        exact ⟨zs, (List.append_assoc ..).symm, hz⟩
      | settled _ ha' hv' =>
        obtain ⟨-, rfl⟩ := ha.unique ha' he
        exact absurd rfl hv'

/-- A candidate that arrives moves the model next. -/
theorem Course.moves_of_arrives (h : Course w m s candidates xs verdict)
    (ha : Arrives w m s candidates t ys) (he : ys ++ ls = xs) : ∃ x ∈ xs, x.cue = .move t.dest := by
  cases ha with
  | @intro declined rest ps qs as hcand ht hp hq hx =>
  cases h with
  | unprepared hp' hf =>
    rw [List.append_assoc, List.append_assoc] at he
    obtain ⟨-, hv⟩ := hp.unique hp' he
    cases hv
  | @prepared ps' ys' zs' verdict' closing hp' hc hf =>
    rw [List.append_assoc, List.append_assoc, List.append_assoc] at he
    obtain ⟨rfl, -⟩ := hp.unique hp' he
    have he := List.append_cancel_left he
    rw [hcand, List.map_append, List.map_cons] at hc
    obtain ⟨zs, rfl, hz⟩ := hc.skip hq he
    rw [List.append_assoc] at he
    have he := List.append_cancel_left he
    -- the candidate itself was tried, and what it did goes through its move
    have through {as' : List Moment} {other : Except Fault Bool} {ks : List Moment}
        (h : Follows (w.candidateCues m s t) as' other) (he : as ++ ls = as' ++ ks) :
        ∃ x ∈ as', x.cue = .move t.dest := by
      rw [World.candidateCues_external ht] at h
      rcases h.split with ⟨h, hv⟩ | ⟨bs, cs, rfl, -, hmove⟩
      · obtain ⟨-, rfl⟩ := hx.unique h he
        exact absurd rfl hv
      · cases hmove with
        | passed hc _ _ _ => exact ⟨_, by simp, hc⟩
        | halted _ hc _ _ => exact ⟨_, by simp, hc⟩
        | failed _ hc _ => exact ⟨_, by simp, hc⟩
    cases hz with
    | halted h _ =>
      obtain ⟨x, hmem, hmove⟩ := through h (by rw [he, List.append_assoc])
      exact ⟨x, by simp [hmem], hmove⟩
    | settled _ h _ =>
      obtain ⟨x, hmem, hmove⟩ := through h he
      exact ⟨x, by simp [hmem], hmove⟩

theorem candidateCues_internal (ht : t.internal = true) :
    ∀ cue ∈ w.candidateCues m s t, cue.moves = false := by
  simp only [World.candidateCues, World.passageCues, ht, if_true, List.append_nil, List.mem_append,
    List.mem_map]
  rintro cue ((⟨_, -, rfl⟩ | ⟨_, -, rfl⟩) | ⟨_, -, rfl⟩ | ⟨_, -, rfl⟩) <;> rfl

/-- What a move and all behind it may come to: the move fails, or callbacks run on from there. -/
def Lands (w : World) (m : MachineId) (t : Transition) (x : Moment) (ys : List Moment) : Prop :=
  x.cue = .move t.dest ∧ ((∃ f, x.outcome = .error f) ∧ ys = [] ∨
    (∃ v, x.outcome = .ok v) ∧ ∃ verdict, Follows (w.behindCues m t) ys verdict)

theorem Lands.still {x : Moment} (h : Lands w m t x ys) : ∀ y ∈ ys, y.cue.moves = false := by
  rcases h.2 with ⟨-, rfl⟩ | ⟨-, verdict, hf⟩
  · exact fun _ h => by cases h
  · obtain ⟨cs, hcs⟩ := World.behindCues_run (w := w) (m := m) (t := t)
    rw [hcs] at hf
    exact hf.still (run_still cs)

/-- The candidates do not move the model, or one of them arrives and moves it. -/
theorem Tries.passage (h : Tries (candidates.map (w.candidateCues m s)) xs verdict) :
    (∀ x ∈ xs, x.cue.moves = false) ∨
      ∃ declined t rest qs as x ys, candidates = declined ++ t :: rest ∧ t.internal = false ∧
        Tries (declined.map (w.candidateCues m s)) qs (.ok false) ∧
        Follows (w.aheadCues m s t) as (.ok true) ∧ Lands w m t x ys ∧ xs = qs ++ as ++ x :: ys := by
  induction candidates generalizing xs with
  | nil =>
    cases h
    exact .inl (fun _ h => by cases h)
  | cons t candidates ih =>
    cases h with
    | @halted _ _ as bs _ h hr =>
      rcases ih hr with hstill | ⟨declined, t', rest, qs, as', x, ys, rfl, ht, hq, ha, hl, rfl⟩
      · refine .inl (fun x hx => ?_)
        rcases List.mem_append.mp hx with hx | hx
        · exact h.declined_still x hx
        · exact hstill x hx
      · refine .inr ⟨t :: declined, t', rest, as ++ qs, as', x, ys, rfl, ht, .halted h hq, ha, hl, ?_⟩
        simp only [List.append_assoc]
    | settled _ h hv =>
      cases ht : t.internal with
      | true => exact .inl (h.still (candidateCues_internal ht))
      | false =>
        rw [World.candidateCues_external ht] at h
        rcases h.split with ⟨h, -⟩ | ⟨as, bs, rfl, ha, hb⟩
        · exact .inl (h.still World.aheadCues_still)
        · cases hb with
          | @passed _ x v _ ys _ hc ho _ hb =>
            exact .inr ⟨[], t, candidates, [], as, x, ys, rfl, ht, .none, ha,
              ⟨hc, .inr ⟨⟨v, ho⟩, verdict, hb⟩⟩, rfl⟩
          | halted _ hc ho hp => cases hp
          | @failed _ x f _ hc ho =>
            exact .inr ⟨[], t, candidates, [], as, x, [], rfl, ht, .none, ha, ⟨hc, .inl ⟨⟨f, ho⟩, rfl⟩⟩, rfl⟩

/-- A course moves the model for a candidate that arrives, and once, or not at all. -/
theorem Course.passage (h : Course w m s candidates xs verdict) :
    (∀ x ∈ xs, x.cue.moves = false) ∨
      ∃ t pre x ys zs closing, Arrives w m s candidates t pre ∧ Lands w m t x ys ∧
        Follows ((w.machine m).finalizeEvent.map .run) zs closing ∧ xs = pre ++ x :: (ys ++ zs) ∧
        (∀ y ∈ pre, y.cue.moves = false) := by
  have both {as bs : List Moment} (ha : ∀ x ∈ as, x.cue.moves = false)
      (hb : ∀ x ∈ bs, x.cue.moves = false) : ∀ x ∈ as ++ bs, x.cue.moves = false := by
    intro x hx
    rcases List.mem_append.mp hx with hx | hx
    · exact ha x hx
    · exact hb x hx
  cases h with
  | unprepared hp hf => exact .inl (both (hp.still (run_still _)) (hf.still (run_still _)))
  | @prepared ps _ zs _ closing hp hc hf =>
    rcases hc.passage with hstill | ⟨declined, t, rest, qs, as, x, ys, hcand, ht, hq, ha, hl, rfl⟩
    · exact .inl (both (both (hp.still (run_still _)) hstill) (hf.still (run_still _)))
    · refine .inr ⟨t, ps ++ qs ++ as, x, ys, zs, closing, .intro hcand ht hp hq ha, hl, hf, ?_, ?_⟩
      · simp only [List.append_assoc, List.cons_append]
      · exact both (both (hp.still (run_still _)) hq.declined_still) (ha.still World.aheadCues_still)

end StateEngine
