import Mathlib
import StateEngine.Proofs.Line.Failure

/-! A direct line runs one task at a time. What a running task hands in is refused, as often as it tries
and whatever it makes of that, and the line is free again when the task has ended, however it ended. -/
namespace StateEngine.Line

variable {η τ : Type}

/-- What a task is told that comes to a direct line while another one runs. -/
def refusal (label : String) : Fault := .misuse (busyMessage label)

@[simp] def Note.ended? (n : Note τ) : Option τ := match n.happening with
  | .ended task _ => some task
  | _ => none

/-- The tasks that have come to an end, in order. -/
def stops (notes : List (Note τ)) : List τ := notes.filterMap Note.ended?

@[simp] theorem stops_nil : stops ([] : List (Note τ)) = [] := rfl

@[simp] theorem stops_cons (n : Note τ) (notes : List (Note τ)) :
    stops (n :: notes) = n.ended?.toList ++ stops notes := by
  rw [stops, List.filterMap_cons]
  cases n.ended? <;> rfl

@[simp] theorem stops_append (a b : List (Note τ)) : stops (a ++ b) = stops a ++ stops b :=
  List.filterMap_append

/-- The notes of tasks that a running one hands in: each is refused, and the line stays taken. -/
def refusals (label : String) : List τ → List (Note τ)
  | [] => []
  | task :: rest =>
    ⟨.called task, .direct true⟩ :: ⟨.answered task (.error (refusal label)), .direct true⟩ ::
      refusals label rest

/-- The notes of a task that comes to a free line. -/
def soleNotes (label : String) (turn : Turn τ) : List (Note τ) :=
  ⟨.called turn.task, .direct false⟩ :: ⟨.started turn.task, .direct true⟩ ::
    (refusals label turn.handed ++
      [⟨.ended turn.task turn.outcome, .direct true⟩, ⟨.answered turn.task turn.outcome, .direct false⟩])

namespace Desk

/-- Visits as they would be if tasks ran with no line at all and every task that a running one hands in
were answered by the refusal. -/
def soloSession (code : τ → Job η τ) (label : String) :
    List (Visit η τ) → Act (Desk η τ) (List (Except Fault Value))
  | [] => return []
  | visit :: rest => do
    Act.change (fun d => { d with host := visit.prepare d.host })
    let answer ← (perform (fun _ => Act.fail (refusal label)) (code visit.task)).attempt
    let answers ← soloSession code label rest
    return answer :: answers

variable (code : τ → Job η τ) (label : String) (bound : Nat)

theorem hand_refused (depth : Nat) (task : τ) {d : Desk η τ} (hd : d.line = .direct true) :
    hand code label bound (depth + 1) task d =
      (.error (.fault (refusal label)), { d with notes := d.notes ++ refusals label [task] }) := by
  let d₀ : Desk η τ := { d with notes := d.notes ++ [⟨.called task, d.line⟩] }
  have hs : (setting label bound (work code (hand code label bound depth))).submit task d₀ =
      (.error (.fault (refusal label)), d₀) := by
    simp [Setting.submit, Act.bind_apply, setting, slot, hd, d₀, refusal]
  rw [hand]
  simp only [note, Act.bind_apply, Act.change_apply]
  rw [Act.attempt_apply (r := .error (refusal label)) hs]
  simp [Act.ofExcept_apply, Except.mapError, refusals, hd, d₀]

/-- A task at a taken line goes as if what it hands in were refused out of hand. -/
theorem perform_refused (depth : Nat) (job : Job η τ) {d e : Desk η τ} (hd : d.line = .direct true)
    (hh : e.host = d.host) :
    ∃ (outcome : Except Fault Value) (host : η) (tried : List τ),
      perform (hand code label bound (depth + 1)) job d =
        (outcome.mapError .fault, { d with host := host, notes := d.notes ++ refusals label tried }) ∧
      perform (fun _ => Act.fail (refusal label)) job e =
        (outcome.mapError .fault, { e with host := host }) := by
  induction job generalizing d e with
  | done v => exact ⟨.ok v, d.host, [], by simp [perform, refusals, Except.mapError], by rw [← hh]; rfl⟩
  | fail f => exact ⟨.error f, d.host, [], by simp [perform, refusals, Except.mapError], by rw [← hh]; rfl⟩
  | look next ih =>
    obtain ⟨outcome, host, tried, h, h₀⟩ := ih d.host hd hh
    refine ⟨outcome, host, tried, h, ?_⟩
    rw [← hh] at h₀
    exact h₀
  | change f next ih =>
    exact ih (d := { d with host := f d.host }) (e := { e with host := f e.host }) hd (by rw [hh])
  | submit task next ih =>
    obtain ⟨outcome, host, tried, h, h₀⟩ := ih (.error (refusal label))
      (d := { d with notes := d.notes ++ refusals label [task] }) hd hh
    refine ⟨outcome, host, task :: tried, ?_, ?_⟩
    · rw [perform, Act.bind_apply,
        Act.attempt_apply (r := .error (refusal label)) (hand_refused code label bound depth task hd)]
      simpa [refusals] using h
    · rw [perform, Act.bind_apply, Act.attempt_apply (r := .error (refusal label)) (Act.fail_apply _ e)]
      exact h₀

/-- A task that comes to a free line runs, and leaves the line free. -/
theorem hand_free (depth : Nat) (task : τ) {d e : Desk η τ} (hd : d.line = .direct false)
    (hh : e.host = d.host) :
    ∃ (turn : Turn τ) (host : η), turn.task = task ∧
      hand code label bound (depth + 2) task d =
        (turn.outcome.mapError .fault,
          { line := .direct false, host := host, notes := d.notes ++ soleNotes label turn }) ∧
      perform (fun _ => Act.fail (refusal label)) (code task) e =
        (turn.outcome.mapError .fault, { e with host := host }) := by
  let S := setting label bound (work code (hand code label bound (depth + 1)))
  let d₁ : Desk η τ :=
    { line := .direct false, host := d.host, notes := d.notes ++ [⟨.called task, .direct false⟩] }
  let d₂ : Desk η τ :=
    { d₁ with line := .direct true, notes := d₁.notes ++ [⟨.started task, .direct true⟩] }
  obtain ⟨outcome, host, tried, h, h₀⟩ := perform_refused code label bound depth (code task) (d := d₂) (e := e)
    rfl hh
  let d₃ : Desk η τ := { d₂ with host := host, notes := d₂.notes ++ refusals label tried }
  let d₄ : Desk η τ := { d₃ with notes := d₃.notes ++ [⟨.ended task outcome, .direct true⟩] }
  have hrun : S.run task (S.slot.write (.direct true) d₁) = (outcome.mapError .fault, d₄) := by
    show work code (hand code label bound (depth + 1)) task { d₁ with line := .direct true } = _
    rw [work]
    simp only [note, Act.bind_apply, Act.change_apply]
    rw [Act.attempt_apply h]
    simp only [Act.ofExcept_apply]
    rfl
  have hs := Setting.submit_direct (S := S) (s := d₁) rfl hrun
  refine ⟨⟨task, tried, outcome⟩, host, rfl, ?_, h₀⟩
  rw [hand]
  simp only [note, Act.bind_apply, Act.change_apply, hd]
  rw [Act.attempt_apply hs]
  simp only [Act.ofExcept_apply]
  simp [d₄, d₃, d₂, d₁, S, setting, slot, soleNotes]

/-- Each visit finds the line free and leaves it so. -/
theorem session_free (depth : Nat) (visits : List (Visit η τ)) {d e : Desk η τ}
    (hd : d.line = .direct false) (hh : e.host = d.host) :
    ∃ (turns : List (Turn τ)) (host : η), turns.map Turn.task = visits.map Visit.task ∧
      session code label bound (depth + 2) visits d =
        (.ok (turns.map Turn.outcome),
          { line := .direct false, host := host, notes := d.notes ++ turns.flatMap (soleNotes label) }) ∧
      soloSession code label visits e = (.ok (turns.map Turn.outcome), { e with host := host }) := by
  induction visits generalizing d e with
  | nil => exact ⟨[], d.host, rfl, by simp [session, ← hd], by simp [soloSession, ← hh]⟩
  | cons visit rest ih =>
    obtain ⟨turn, host, ht, h, h₀⟩ := hand_free code label bound depth visit.task
      (d := { d with host := visit.prepare d.host })
      (e := { e with host := visit.prepare e.host }) hd (by rw [hh])
    obtain ⟨turns, last, hts, hs, hs₀⟩ := ih
      (d := { line := .direct false, host := host, notes := d.notes ++ soleNotes label turn })
      (e := { e with host := host }) rfl rfl
    refine ⟨turn :: turns, last, by simp [ht, hts], ?_, ?_⟩
    · rw [session]
      simp only [Act.bind_apply, Act.change_apply]
      rw [Act.attempt_apply h]
      simp only [hs]
      simp
    · rw [soloSession]
      simp only [Act.bind_apply, Act.change_apply]
      rw [Act.attempt_apply h₀]
      simp only [hs₀]
      simp

end Desk

/-- What one note shows, with those before it and behind it: the line is taken exactly from the start of
a task to its end, a task handed in meanwhile is refused at once, and any other starts at once. -/
structure Guarded (label : String) (before : List (Note τ)) (n : Note τ) (after : List (Note τ)) :
    Prop where
  flag : n.line = .direct true ∧ (starts (before ++ [n])).length = (stops before).length + 1 ∨
    n.line = .direct false ∧ (starts (before ++ [n])).length = (stops before).length
  refused : ∀ task, n.happening = .called task → n.line = .direct true →
    ∃ rest, after = ⟨.answered task (.error (refusal label)), .direct true⟩ :: rest
  taken : ∀ task, n.happening = .called task → n.line = .direct false →
    ∃ rest, after = ⟨.started task, .direct true⟩ :: rest

/-- A note stays guarded among more notes, where as many tasks have ended before as have started. -/
theorem Guarded.among {label : String} {before after : List (Note τ)} {n : Note τ}
    (h : Guarded label before n after) (earlier later : List (Note τ))
    (hb : (starts earlier).length = (stops earlier).length) :
    Guarded label (earlier ++ before) n (after ++ later) where
  flag := by
    rw [List.append_assoc, starts_append, stops_append, List.length_append, List.length_append, hb]
    rcases h.flag with ⟨hl, hc⟩ | ⟨hl, hc⟩
    · exact .inl ⟨hl, by omega⟩
    · exact .inr ⟨hl, by omega⟩
  refused := fun task hn hl => by
    obtain ⟨rest, rfl⟩ := h.refused task hn hl
    exact ⟨rest ++ later, rfl⟩
  taken := fun task hn hl => by
    obtain ⟨rest, rfl⟩ := h.taken task hn hl
    exact ⟨rest ++ later, rfl⟩

theorem views_refusals (label : String) (tried : List τ) :
    starts (refusals label tried) = [] ∧ stops (refusals label tried) = [] ∧
      edges (refusals label tried) = [] := by
  induction tried with
  | nil => exact ⟨rfl, rfl, rfl⟩
  | cons task tried ih => simpa [refusals] using ih

theorem views_soleNotes (label : String) (turn : Turn τ) :
    starts (soleNotes label turn) = [turn.task] ∧ stops (soleNotes label turn) = [turn.task] ∧
      edges (soleNotes label turn) = [.start turn.task, .stop turn.task] := by
  obtain ⟨hs, he, hd⟩ := views_refusals label turn.handed
  simp [soleNotes, hs, he, hd]

theorem views_soles (label : String) (turns : List (Turn τ)) :
    starts (turns.flatMap (soleNotes label)) = turns.map Turn.task ∧
      edges (turns.flatMap (soleNotes label)) =
        (turns.map Turn.task).flatMap (fun task => [.start task, .stop task]) := by
  induction turns with
  | nil => exact ⟨rfl, rfl⟩
  | cons turn turns ih =>
    obtain ⟨hs, -, he⟩ := views_soleNotes label turn
    simp [hs, he, ih.1, ih.2]

/-- Whatever a running task hands in is refused, and the line stays taken. -/
private theorem place_in_refusals {label : String} {tried : List τ} {before after : List (Note τ)}
    {n : Note τ} (h : refusals label tried = before ++ n :: after) :
    n.line = .direct true ∧ starts (before ++ [n]) = [] ∧ stops before = [] ∧
      ∀ task, n.happening = .called task →
        ∃ rest, after = ⟨.answered task (.error (refusal label)), .direct true⟩ :: rest := by
  induction tried generalizing before with
  | nil => simp [refusals] at h
  | cons tried more ih =>
    rcases before with _ | ⟨called, _ | ⟨answered, before⟩⟩
    · obtain ⟨rfl, hr⟩ := List.cons.inj h
      refine ⟨rfl, rfl, rfl, fun task htask => ?_⟩
      obtain rfl : tried = task := by simpa using htask
      exact ⟨_, hr.symm⟩
    · obtain ⟨rfl, hr⟩ := List.cons.inj h
      obtain ⟨rfl, -⟩ := List.cons.inj hr
      exact ⟨rfl, rfl, rfl, fun task htask => by cases htask⟩
    · obtain ⟨rfl, hr⟩ := List.cons.inj h
      obtain ⟨rfl, hq⟩ := List.cons.inj hr
      obtain ⟨hl, hs, ht, hr⟩ := ih hq
      exact ⟨hl, by simpa using hs, by simpa using ht, hr⟩

private theorem guarded_sole {label : String} {turn : Turn τ} {before after : List (Note τ)} {n : Note τ}
    (h : soleNotes label turn = before ++ n :: after) : Guarded label before n after := by
  obtain ⟨hs, ht, -⟩ := views_refusals label turn.handed
  rcases before with _ | ⟨called, _ | ⟨started, before⟩⟩
  · obtain ⟨rfl, hr⟩ := List.cons.inj h
    refine ⟨.inr ⟨rfl, rfl⟩, fun _ _ hl => (by cases hl), fun task htask _ => ?_⟩
    obtain rfl : turn.task = task := by simpa using htask
    exact ⟨_, hr.symm⟩
  · obtain ⟨rfl, hr⟩ := List.cons.inj h
    obtain ⟨rfl, -⟩ := List.cons.inj hr
    exact ⟨.inl ⟨rfl, rfl⟩, fun _ hn => (by cases hn), fun _ hn => (by cases hn)⟩
  · obtain ⟨rfl, hr⟩ := List.cons.inj h
    obtain ⟨rfl, hq⟩ := List.cons.inj hr
    rcases place_in_append hq with ⟨rest, hp, rfl⟩ | ⟨front, rfl, hp⟩
    · obtain ⟨hl, hs, ht, hr⟩ := place_in_refusals hp
      refine ⟨.inl ⟨hl, by simpa [ht] using hs⟩, fun task hn _ => ?_, fun _ _ hf => ?_⟩
      · obtain ⟨rest, rfl⟩ := hr task hn
        exact ⟨_, rfl⟩
      · rw [hl] at hf
        cases hf
    · rcases front with _ | ⟨ended, _ | ⟨answered, front⟩⟩
      · obtain ⟨rfl, -⟩ := List.cons.inj hp
        exact ⟨.inl ⟨rfl, by simp [hs, ht]⟩, fun _ hn => (by cases hn), fun _ hn => (by cases hn)⟩
      · obtain ⟨rfl, hlast⟩ := List.cons.inj hp
        obtain ⟨rfl, -⟩ := List.cons.inj hlast
        exact ⟨.inr ⟨rfl, by simp [hs, ht]⟩, fun _ hn => (by cases hn), fun _ hn => (by cases hn)⟩
      · simp at hp

private theorem guarded_soles {label : String} {turns : List (Turn τ)} {before after : List (Note τ)}
    {n : Note τ} (h : turns.flatMap (soleNotes label) = before ++ n :: after) :
    Guarded label before n after := by
  induction turns generalizing before with
  | nil => simp at h
  | cons turn turns ih =>
    rw [List.flatMap_cons] at h
    rcases place_in_append h with ⟨rest, hp, rfl⟩ | ⟨front, rfl, hp⟩
    · exact (guarded_sole hp).among [] _ rfl
    · obtain ⟨hs, ht, -⟩ := views_soleNotes label turn
      simpa using (ih hp).among (soleNotes label turn) [] (by rw [hs, ht])

/-- What the notes of calls show that came one after the other to a direct line, for these tasks: `order`
says that they have run and no other, and `apart` that no two did at a time. -/
structure Exclusive (label : String) (tops : List τ) (notes : List (Note τ)) : Prop where
  order : starts notes = tops
  apart : edges notes = tops.flatMap (fun task => [.start task, .stop task])
  guarded : ∀ before n after, notes = before ++ n :: after → Guarded label before n after

/-- Calls one after the other at a direct line with nothing in flight, whatever tasks do: they may hand in
others as often as they like, pass the refusal on or handle it, and end with a value, an error or an
abort. Every call runs its task, and no task handed in meanwhile runs. Each call ends as its task does
where every task that it hands in is answered by the refusal, and the line is free after it. -/
theorem direct_line_runs_one_task (code : τ → Job η τ) (label : String) (bound depth : Nat)
    (visits : List (Visit η τ)) {d : Desk η τ} (hidle : d.line = .direct false) :
    ∃ answers host notes,
      Desk.session code label bound (depth + 2) visits d =
        (.ok answers, { line := .direct false, host := host, notes := d.notes ++ notes }) ∧
      Desk.soloSession code label visits d = (.ok answers, { d with host := host }) ∧
      Exclusive label (visits.map Visit.task) notes := by
  obtain ⟨turns, host, ht, h, h₀⟩ := Desk.session_free code label bound depth visits hidle rfl
  obtain ⟨hs, he⟩ := views_soles label turns
  exact ⟨_, host, _, h, h₀, hs.trans ht, ht ▸ he, fun _ _ _ hn => guarded_soles hn⟩

/-- Task 0 hands in itself and handles the refusal, then task 1 and passes it on; task 1 aborts. -/
private def stubborn : Nat → Job Nat Nat
  | 0 => .submit 0 (fun _ => .change (· + 1) (.submit 1 (fun
    | .ok v => .done v
    | .error f => .fail f)))
  | 1 => .fail (.raised .abort "")
  | _ => .look (fun count => .done (.int count))

theorem direct_line_runs_one_stubborn_task :
    ∃ d : Desk Nat Nat,
      Desk.session stubborn "" 9 2 [⟨id, 0⟩, ⟨id, 1⟩, ⟨id, 2⟩] ⟨.direct false, 0, []⟩ =
        (.ok [.error (refusal ""), .error (.raised .abort ""), .ok (.int 1)], d) ∧
      d.line = .direct false ∧ calls d.notes = [0, 0, 1, 1, 2] ∧ Exclusive "" [0, 1, 2] d.notes := by
  obtain ⟨answers, host, notes, h, -, he⟩ := direct_line_runs_one_task stubborn "" 9 0
    [⟨id, 0⟩, ⟨id, 1⟩, ⟨id, 2⟩] (d := ⟨.direct false, 0, []⟩) rfl
  have hrun : Desk.session stubborn "" 9 2 [⟨id, 0⟩, ⟨id, 1⟩, ⟨id, 2⟩] ⟨.direct false, 0, []⟩ =
    (.ok [.error (refusal ""), .error (.raised .abort ""), .ok (.int 1)],
      (Desk.session stubborn "" 9 2 [⟨id, 0⟩, ⟨id, 1⟩, ⟨id, 2⟩] ⟨.direct false, 0, []⟩).2) := rfl
  refine ⟨_, hrun, ?_, by rfl, ?_⟩
  · rw [h]
  · rw [h, List.nil_append]
    exact he

end StateEngine.Line
