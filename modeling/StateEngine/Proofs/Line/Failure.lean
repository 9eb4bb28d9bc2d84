import StateEngine.Proofs.Line.Idle
import StateEngine.Proofs.Line.Order

/-! What a fault leaves of a queued line. An error discards all that waits, and the line is as good as new;
an abort leaves the task that raised it at the head for ever, and no task is run again. -/
namespace StateEngine

namespace Act

variable {σ α β : Type} {f : σ → σ}

/-- A computation that goes the same way whether the world is altered ahead of it or behind it. -/
def Unaware (f : σ → σ) (x : Act σ α) : Prop := ∀ s, x (f s) = ((x s).1, f (x s).2)

namespace Unaware

theorem pure (a : α) : Unaware f (Pure.pure a : Act σ α) := fun _ => rfl

theorem fail (e : Fault) : Unaware f (Act.fail e : Act σ α) := fun _ => rfl

theorem exhausted : Unaware f (Act.exhausted : Act σ α) := fun _ => rfl

theorem ofExcept (r : Except Fault α) : Unaware f (Act.ofExcept r : Act σ α) := by
  intro s
  cases r <;> rfl

theorem change {g : σ → σ} (h : ∀ s, g (f s) = f (g s)) : Unaware f (Act.change g) := by
  intro s
  rw [change_apply, change_apply, h]

theorem bind {x : Act σ α} {k : α → Act σ β} (hx : Unaware f x) (hk : ∀ a, Unaware f (k a)) :
    Unaware f (x >>= k) := by
  intro s
  rw [bind_apply, bind_apply, hx s]
  rcases x s with ⟨e | a, t⟩
  · rfl
  · exact hk a t

/-- Going on with what is the same in both worlds. -/
theorem get_bind {k : σ → Act σ β} (hf : ∀ s, k (f s) = k s) (hk : ∀ s, Unaware f (k s)) :
    Unaware f (MonadState.get >>= k) := by
  intro s
  show k (f s) (f s) = _
  rw [hf]
  exact hk s s

theorem attempt {x : Act σ α} (hx : Unaware f x) : Unaware f x.attempt := by
  intro s
  unfold Act.attempt
  rw [hx s]
  rcases x s with ⟨(e | _) | a, t⟩ <;> rfl

theorem ite {c : Prop} [Decidable c] {x y : Act σ α} (hx : Unaware f x) (hy : Unaware f y) :
    Unaware f (if c then x else y) := by
  split
  · exact hx
  · exact hy

end Unaware

end Act

namespace Line

variable {η τ : Type}

/-- A call at a line from outside: what has become of the shared state by then, and the task. -/
structure Visit (η τ : Type) where
  prepare : η → η
  task : τ

namespace Desk

/-- A desk with earlier notes in front of its own. -/
def behind (earlier : List (Note τ)) (d : Desk η τ) : Desk η τ := { d with notes := earlier ++ d.notes }

/-- A desk with a new line, at which nothing has happened yet. -/
def fresh (host : η) : Desk η τ := { line := .queued [], host := host }

variable (code : τ → Job η τ) (label : String) (bound depth : Nat)

/-- Visits one after the other, with what each was told. One that never returns has none behind it. -/
def session : List (Visit η τ) → Act (Desk η τ) (List (Except Fault Value))
  | [] => return []
  | visit :: rest => do
    Act.change (fun d => { d with host := visit.prepare d.host })
    let answer ← (hand code label bound depth visit.task).attempt
    let answers ← session rest
    return answer :: answers

variable {code label bound depth} {earlier : List (Note τ)}

theorem unaware_note (h : Happening τ) : Act.Unaware (behind (η := η) earlier) (note h) :=
  .change (fun d => by simp [behind])

theorem unaware_perform {hand : τ → Act (Desk η τ) Value} (hh : ∀ task, Act.Unaware (behind earlier) (hand task))
    (job : Job η τ) : Act.Unaware (behind earlier) (perform hand job) := by
  induction job with
  | done v => exact .pure v
  | fail f => exact .fail f
  | look next ih => exact .get_bind (fun d => rfl) (fun d => ih d.host)
  | change f next ih => exact .bind (.change (fun d => rfl)) (fun _ => ih)
  | submit task next ih => exact .bind (.attempt (hh task)) (fun answer => ih answer)

theorem unaware_work {hand : τ → Act (Desk η τ) Value} (hh : ∀ task, Act.Unaware (behind earlier) (hand task))
    (task : τ) : Act.Unaware (behind earlier) (work code hand task) := by
  refine .bind (unaware_note _) (fun _ => .bind (.attempt (unaware_perform hh _)) (fun outcome => ?_))
  exact .bind (unaware_note _) (fun _ => .ofExcept outcome)

section Line

variable {run : τ → Act (Desk η τ) Value}

theorem unaware_store (line : Line τ) :
    Act.Unaware (behind (η := η) earlier) ((setting label bound run).store line) :=
  .change (fun _ => rfl)

theorem unaware_serve (hr : ∀ task, Act.Unaware (behind earlier) (run task)) (task : τ) :
    Act.Unaware (behind earlier) ((setting label bound run).serve task) := by
  refine .bind (hr task) (fun _ => .get_bind (fun _ => rfl) (fun d => ?_))
  split
  · exact unaware_store _
  · exact .fail _

theorem unaware_abandon (f : Fault) :
    Act.Unaware (behind (η := η) earlier) ((setting label bound run).abandon f) := by
  intro d
  rw [abandon_apply, abandon_apply]
  rfl

theorem unaware_drain (hr : ∀ task, Act.Unaware (behind earlier) (run task)) (fuel : Nat) :
    Act.Unaware (behind earlier) ((setting label bound run).drain fuel) := by
  induction fuel with
  | zero => exact .exhausted
  | succ fuel ih =>
    refine .get_bind (fun _ => rfl) (fun d => ?_)
    split
    · refine .bind (.attempt (unaware_serve hr _)) (fun ended => ?_)
      cases ended with
      | ok _ => exact ih
      | error f => exact unaware_abandon f
    · exact .pure _

theorem unaware_submit (hr : ∀ task, Act.Unaware (behind earlier) (run task)) (task : τ) :
    Act.Unaware (behind earlier) ((setting label bound run).submit task) := by
  refine .get_bind (fun _ => rfl) (fun d => ?_)
  split
  · exact .fail _
  · refine .bind (unaware_store _) (fun _ => .bind (.attempt (hr task)) (fun ended => ?_))
    exact .bind (unaware_store _) (fun _ => .ofExcept ended)
  · exact .bind (unaware_store _) (fun _ => unaware_drain hr bound)
  · exact .bind (unaware_store _) (fun _ => .bind (.pure _) (fun _ => .pure _))

end Line

/-- What is handed in, and all that follows from it, goes the same way whatever happened earlier. -/
theorem unaware_hand (task : τ) : Act.Unaware (behind earlier) (hand code label bound depth task) := by
  induction depth generalizing task with
  | zero => exact .exhausted
  | succ depth ih =>
    refine .bind (unaware_note _) (fun _ => .bind (.attempt (unaware_submit ?_ task)) (fun answer => ?_))
    · exact unaware_work ih
    · exact .bind (unaware_note _) (fun _ => .ofExcept answer)

theorem unaware_session (visits : List (Visit η τ)) :
    Act.Unaware (behind earlier) (session code label bound depth visits) := by
  induction visits with
  | nil => exact .pure _
  | cons visit rest ih =>
    refine .bind (.change (fun _ => rfl)) (fun _ => .bind (.attempt (unaware_hand _)) (fun answer => ?_))
    exact .bind ih (fun answers => .pure _)

/-- A session at an idle line is one at a new line, behind the notes so far. -/
theorem session_fresh {d : Desk η τ} (hd : d.line = .queued []) (visits : List (Visit η τ)) :
    session code label bound depth visits d =
      ((session code label bound depth visits (fresh d.host)).1,
        (session code label bound depth visits (fresh d.host)).2.behind d.notes) := by
  have renewed : d = (fresh d.host).behind d.notes := by
    cases d
    simp only at hd
    simp [fresh, behind, hd]
  conv => lhs; rw [renewed]
  exact unaware_session visits (fresh d.host)

/-- Behind a task that has aborted, visits only make the queue longer. -/
theorem session_stuck {d : Desk η τ} {queue : List τ} (hd : d.line = .queued queue) (hq : queue ≠ [])
    (visits : List (Visit η τ)) :
    ∃ d', session code label bound (depth + 1) visits d = (.ok (visits.map fun _ => .ok (.bool true)), d') ∧
      d'.line = .queued (queue ++ visits.map Visit.task) ∧
      d'.notes = d.notes ++ takings queue (visits.map Visit.task) := by
  induction visits generalizing d queue with
  | nil => exact ⟨d, rfl, by simpa using hd, by simp [takings]⟩
  | cons visit rest ih =>
    obtain ⟨d₁, hd₁⟩ : ∃ d₁ : Desk η τ, d₁ = { d with host := visit.prepare d.host } := ⟨_, rfl⟩
    have line : d₁.line = .queued queue := by rw [hd₁, hd]
    have taken : hand code label bound (depth + 1) visit.task d₁ = (.ok (.bool true), { d₁ with
        line := .queued (queue ++ [visit.task]), notes := d₁.notes ++ takings queue [visit.task] }) :=
      hand_busy depth visit.task line hq
    obtain ⟨d₂, hd₂⟩ : ∃ d₂ : Desk η τ, d₂ = { d₁ with
        line := .queued (queue ++ [visit.task]), notes := d₁.notes ++ takings queue [visit.task] } := ⟨_, rfl⟩
    rw [← hd₂] at taken
    have longer : d₂.line = .queued (queue ++ [visit.task]) := by rw [hd₂]
    obtain ⟨d', hrest, hline, hnotes⟩ := ih longer (by simp)
    refine ⟨d', ?_, by simpa using hline, ?_⟩
    · have begun : session code label bound (depth + 1) (visit :: rest) d = (do
          let answer ← (hand code label bound (depth + 1) visit.task).attempt
          let answers ← session code label bound (depth + 1) rest
          return answer :: answers : Act (Desk η τ) (List (Except Fault Value))) d₁ := by
        rw [hd₁]
        rfl
      rw [begun, Act.bind_of_ok (Act.attempt_apply (r := .ok (.bool true)) taken), Act.bind_of_ok hrest]
      rfl
    · rw [hnotes, hd₂, hd₁, List.append_assoc, ← takings_append]
      rfl

/-- The notes of a turn that never ends break off while its task runs. -/
theorem work_endless (depth : Nat) {d d' : Desk η τ} {task : τ} {queue : List τ}
    (hd : d.line = .queued queue) (hq : queue ≠ [])
    (h : work code (hand code label bound depth) task d = (.error .exhausted, d')) :
    ∃ handed, d'.notes = d.notes ++ (⟨.started task, .queued queue⟩ :: takings queue handed) := by
  rw [work, Act.bind_apply] at h
  simp only [note, Act.change_apply, Act.bind_apply] at h
  obtain ⟨d₀, hd₀⟩ : ∃ d₀ : Desk η τ, d₀ = { d with notes := d.notes ++ [⟨.started task, d.line⟩] } := ⟨_, rfl⟩
  have line : d₀.line = .queued queue := by rw [hd₀, hd]
  rw [← hd₀] at h
  rcases hp : perform (hand code label bound depth) (code task) d₀ with ⟨e, d₁⟩
  obtain ⟨handed, -, hn⟩ := perform_busy depth (code task) line hq hp
  by_cases he : e = .error .exhausted
  · subst he
    rw [Act.attempt_exhausted hp] at h
    obtain ⟨-, rfl⟩ := Prod.mk.inj h
    exact ⟨handed, by rw [hn, hd₀, hd, List.append_assoc, List.singleton_append]⟩
  · obtain ⟨outcome, rfl⟩ := Stop.exists_of_ne_exhausted he
    rw [Act.attempt_apply hp] at h
    simp only [Act.ofExcept_apply] at h
    exact absurd (Prod.mk.inj h).1 he

theorem serve_endless (depth : Nat) {d d' : Desk η τ} {task : τ} {queue : List τ}
    (hd : d.line = .queued (task :: queue))
    (h : (setting label bound (work code (hand code label bound depth))).serve task d =
      (.error .exhausted, d')) :
    ∃ handed, d'.notes = d.notes ++
      (⟨.started task, .queued (task :: queue)⟩ :: takings (task :: queue) handed) := by
  rw [Setting.serve, Act.bind_apply] at h
  rcases hw : work code (hand code label bound depth) task d with ⟨e, d₁⟩
  have hrun : (setting label bound (work code (hand code label bound depth))).run task d = (e, d₁) := hw
  rw [hrun] at h
  cases e with
  | error e =>
    obtain ⟨he, rfl⟩ := Prod.mk.inj h
    cases he
    exact work_endless depth hd (by simp) hw
  | ok v =>
    obtain ⟨line, host, notes⟩ := d₁
    rcases line with busy | (_ | ⟨head, rest⟩) <;> cases h

/-- Whatever has run by some moment stood in the queue at first or was handed in since, and has run in that
order. -/
theorem drain_starts (fuel : Nat) {d d' : Desk η τ} {r : Except Stop Value} {queue : List τ}
    (hd : d.line = .queued queue)
    (h : (setting label bound (work code (hand code label bound depth))).drain fuel d = (r, d')) :
    ∃ later, d'.notes = d.notes ++ later ∧ starts later <+: queue ++ calls later := by
  induction fuel generalizing d queue with
  | zero =>
    obtain ⟨-, rfl⟩ := Prod.mk.inj h
    exact ⟨[], by simp, by simp⟩
  | succ fuel ih =>
    rw [Setting.drain, Act.bind_apply] at h
    cases queue with
    | nil =>
      simp only [Act.get_apply, setting, slot, hd, Act.pure_apply] at h
      obtain ⟨-, rfl⟩ := Prod.mk.inj h
      exact ⟨[], by simp, by simp⟩
    | cons task queue =>
      have hread : (setting label bound (work code (hand code label bound depth))).slot.read d =
        .queued (task :: queue) := hd
      simp only [Act.get_apply, hread, Act.bind_apply] at h
      rcases hs : (setting label bound (work code (hand code label bound depth))).serve task d with ⟨e, d₁⟩
      by_cases he : e = .error .exhausted
      · subst he
        rw [Act.attempt_exhausted hs] at h
        obtain ⟨-, rfl⟩ := Prod.mk.inj h
        obtain ⟨handed, hn⟩ := serve_endless depth hd hs
        obtain ⟨hc, hst, -⟩ := views_takings (task :: queue) handed
        exact ⟨_, hn, by simp [hc, hst]⟩
      · obtain ⟨turn, ht, hn, hend⟩ := serve_busy depth hd hs he
        obtain ⟨hc, hst, -⟩ := views_turn (task :: queue) turn
        cases ho : turn.outcome with
        | ok v =>
          rw [ho] at hend
          obtain ⟨rfl, hl⟩ := hend
          rw [Act.attempt_apply (r := .ok ()) hs] at h
          obtain ⟨later, hn', hp⟩ := ih hl h
          refine ⟨turnNotes (task :: queue) turn ++ later, by rw [hn', hn, List.append_assoc], ?_⟩
          rw [starts_append, calls_append, hst, hc, ht, ← List.append_assoc]
          exact (List.prefix_cons_inj task).mpr hp
        | error f =>
          rw [ho] at hend
          obtain ⟨rfl, -⟩ := hend
          rw [Act.attempt_apply (r := .error f) hs] at h
          simp only [abandon_apply] at h
          obtain ⟨-, rfl⟩ := Prod.mk.inj h
          exact ⟨_, hn, by simp [hst, ht]⟩

/-- On a queued line nothing runs but what was handed in before, and the line stays a queued one. -/
theorem hand_starts (depth : Nat) (task : τ) {d d' : Desk η τ} {r : Except Stop Value} {queue : List τ}
    (hd : d.line = .queued queue) (h : hand code label bound depth task d = (r, d')) :
    (∃ later, d'.notes = d.notes ++ later ∧ (starts later).Sublist (calls later)) ∧
      (r ≠ .error .exhausted → ∃ queue', d'.line = .queued queue') := by
  cases depth with
  | zero =>
    obtain ⟨rfl, rfl⟩ := Prod.mk.inj h
    exact ⟨⟨[], by simp, by simp⟩, fun hr => absurd rfl hr⟩
  | succ depth =>
    by_cases hq : queue = []
    · subst hq
      refine ⟨?_, fun hr => ?_⟩
      · rw [hand] at h
        simp only [note, Act.bind_apply, Act.change_apply] at h
        let S := setting label bound (work code (hand code label bound depth))
        let d₁ : Desk η τ := { d with notes := d.notes ++ [⟨.called task, d.line⟩] }
        have hsub : S.submit task d₁ = S.drain bound { d₁ with line := .queued [task] } :=
          Setting.submit_queued hd
        rcases hs : S.drain bound { d₁ with line := .queued [task] } with ⟨e, d₂⟩
        obtain ⟨later, hn, hp⟩ := drain_starts bound rfl hs
        have ordered : (starts later).Sublist (task :: calls later) := hp.sublist
        by_cases he : e = .error .exhausted
        · subst he
          rw [Act.attempt_exhausted (hsub.trans hs)] at h
          obtain ⟨-, rfl⟩ := Prod.mk.inj h
          exact ⟨⟨.called task, d.line⟩ :: later, by simp [hn, d₁], by simpa using ordered⟩
        · obtain ⟨answer, rfl⟩ := Stop.exists_of_ne_exhausted he
          rw [Act.attempt_apply (hsub.trans hs)] at h
          simp only [Act.ofExcept_apply] at h
          obtain ⟨-, rfl⟩ := Prod.mk.inj h
          exact ⟨⟨.called task, d.line⟩ :: later ++ [⟨.answered task answer, d₂.line⟩],
            by simp [hn, d₁], by simpa using ordered⟩
      · obtain ⟨turns, rest, answer, -, -, -, hc⟩ := hand_idle depth hd h hr
        rcases hc with ⟨-, -, hl⟩ | ⟨f, done, last, -, -, -, hl⟩
        · exact ⟨_, hl⟩
        · exact ⟨_, hl⟩
    · rw [hand_busy depth task hd hq] at h
      obtain ⟨-, rfl⟩ := Prod.mk.inj h
      obtain ⟨-, hs, -⟩ := views_takings queue [task]
      exact ⟨⟨_, rfl, by simp [hs]⟩, fun _ => ⟨_, rfl⟩⟩

theorem session_starts (visits : List (Visit η τ)) {d d' : Desk η τ}
    {r : Except Stop (List (Except Fault Value))} {queue : List τ} (hd : d.line = .queued queue)
    (h : session code label bound depth visits d = (r, d')) :
    ∃ later, d'.notes = d.notes ++ later ∧ (starts later).Sublist (calls later) := by
  induction visits generalizing d d' queue r with
  | nil =>
    obtain ⟨-, rfl⟩ := Prod.mk.inj h
    exact ⟨[], by simp, by simp⟩
  | cons visit rest ih =>
    rw [session] at h
    simp only [Act.bind_apply, Act.change_apply] at h
    let d₀ : Desk η τ := { d with host := visit.prepare d.host }
    rcases hh : hand code label bound depth visit.task d₀ with ⟨e, d₁⟩
    obtain ⟨⟨later, hn, hs⟩, hl⟩ := hand_starts (d := d₀) depth visit.task hd hh
    by_cases he : e = .error .exhausted
    · subst he
      rw [Act.attempt_exhausted hh] at h
      obtain ⟨-, rfl⟩ := Prod.mk.inj h
      exact ⟨later, hn, hs⟩
    · obtain ⟨queue', hq⟩ := hl he
      obtain ⟨answer, rfl⟩ := Stop.exists_of_ne_exhausted he
      rw [Act.attempt_apply hh] at h
      simp only at h
      rcases hrest : session code label bound depth rest d₁ with ⟨e', d₂⟩
      obtain ⟨later', hn', hs'⟩ := ih hq hrest
      have last : d' = d₂ := by
        rw [hrest] at h
        cases e' <;> exact (Prod.mk.inj h).2.symm
      refine ⟨later ++ later', by rw [last, hn', hn, List.append_assoc], ?_⟩
      rw [starts_append, calls_append]
      exact hs.append hs'

end Desk

/-- Turns of which the last one has raised end with the note of that, its task still at the head. -/
private theorem tale_breaks {queue rest : List τ} {done : List (Turn τ)} {last : Turn τ}
    (h : Serves queue (done ++ [last]) rest) :
    ∃ earlier, tale queue (done ++ [last]) =
      earlier ++ [⟨.ended last.task last.outcome, .queued (last.task :: rest)⟩] := by
  induction done generalizing queue with
  | nil =>
    cases h with
    | turn _ more =>
      have none := more.order
      simp only [List.flatMap_nil, List.append_nil, List.map_nil, List.nil_append] at none
      exact ⟨_, by rw [← none]; exact List.append_nil _⟩
  | cons turn done ih =>
    cases h with
    | turn _ more =>
      obtain ⟨earlier, he⟩ := ih more
      exact ⟨turnNotes (turn.task :: _) turn ++ earlier, by
        rw [List.append_assoc, ← he]
        rfl⟩

/-- What the notes of a call show that came to a fault: the tasks run are the first of those handed in, one
after the other, and the last of them has raised what the caller gets. `waiting` are the others. -/
structure Broken (top : τ) (f : Fault) (last : τ) (waiting : List τ) (notes : List (Note τ)) : Prop where
  first : (calls notes).head? = some top
  order : calls notes = starts notes ++ waiting
  latest : (starts notes).getLast? = some last
  apart : edges notes = (starts notes).flatMap (fun task => [.start task, .stop task])
  raised : ∃ earlier line, notes = earlier ++
    [⟨.ended last (.error f), .queued (last :: waiting)⟩, ⟨.answered top (.error f), line⟩]

private theorem broken_tale {top : τ} {f : Fault} {done : List (Turn τ)} {last : Turn τ} {rest : List τ}
    {line : Line τ} (h : Serves [top] (done ++ [last]) rest) (hf : last.outcome = .error f) :
    Broken top f last.task rest
      (⟨.called top, .queued []⟩ :: tale [top] (done ++ [last]) ++ [⟨.answered top (.error f), line⟩]) := by
  obtain ⟨hc, hs, he⟩ := views_tale [top] (done ++ [last])
  obtain ⟨earlier, hlast⟩ := tale_breaks h
  have order := h.order
  refine ⟨by simp, ?_, ?_, ?_, ?_⟩
  · simpa [hc, hs] using order
  · simp [hs]
  · simp [hs, he, List.flatMap_map]
  · refine ⟨⟨.called top, .queued []⟩ :: earlier, line, ?_⟩
    rw [hlast, hf]
    simp

/-- Handing in a task at a queued line with nothing in flight, whatever tasks do, where the call ends with a
fault: it is the one that the last task run has raised, and the tasks run are the first of those handed
in. After an error the queue is empty, and whatever comes later goes as on a new line, so that nothing
runs but what is handed in then. After an abort the queue still holds the task that raised it and those
that have not run, and whatever comes later is put behind them and told that it was taken; no task runs
again. -/
theorem queue_stops_at_fault (code : τ → Job η τ) (label : String) (bound depth : Nat) (top : τ)
    {d d' : Desk η τ} {f : Fault} (hidle : d.line = .queued [])
    (h : Desk.hand code label bound depth top d = (.error (.fault f), d')) :
    ∃ notes last waiting, d'.notes = d.notes ++ notes ∧ Broken top f last waiting notes ∧
      (f.isError = true → d'.line = .queued [] ∧ ∀ visits,
        Desk.session code label bound depth visits d' =
          ((Desk.session code label bound depth visits (.fresh d'.host)).1,
            (Desk.session code label bound depth visits (.fresh d'.host)).2.behind d'.notes) ∧
        ∃ later, (Desk.session code label bound depth visits d').2.notes = d'.notes ++ later ∧
          (starts later).Sublist (calls later)) ∧
      (f.isError = false → d'.line = .queued (last :: waiting) ∧ ∀ visits,
        ∃ later, Desk.session code label bound depth visits d' =
            (.ok (visits.map fun _ => .ok (.bool true)),
              (Desk.session code label bound depth visits d').2) ∧
          (Desk.session code label bound depth visits d').2.notes = d'.notes ++ later ∧
          (Desk.session code label bound depth visits d').2.line =
            .queued (last :: waiting ++ visits.map Visit.task) ∧
          calls later = visits.map Visit.task ∧ starts later = []) := by
  cases depth with
  | zero => cases h
  | succ depth =>
    obtain ⟨turns, rest, answer, ha, hn, hs, hc⟩ := Desk.hand_idle depth hidle h (by simp)
    rcases hc with ⟨hv, -, -⟩ | ⟨f', done, last, hf, rfl, hlast, hl⟩
    · cases hv
    · obtain rfl : f = f' := by simpa using hf
      obtain rfl : answer = .error f := by
        cases answer with
        | ok v => cases ha
        | error g => rw [Stop.fault.inj (Except.error.inj ha)]
      refine ⟨_, last.task, rest, hn, broken_tale hs hlast, fun he => ?_, fun he => ?_⟩
      · simp only [he, if_true] at hl
        exact ⟨hl, fun visits => ⟨Desk.session_fresh hl visits, Desk.session_starts visits hl rfl⟩⟩
      · simp only [he] at hl
        refine ⟨hl, fun visits => ?_⟩
        obtain ⟨d₂, hd₂, line, notes⟩ := Desk.session_stuck hl (by simp) visits
        obtain ⟨hc, hst, -⟩ := views_takings (last.task :: rest) (visits.map Visit.task)
        rw [hd₂]
        exact ⟨_, rfl, notes, line, hc, hst⟩

/-- Task 0 hands in three others, and the second of them raises. -/
private def crash (f : Fault) : Nat → Job Unit Nat
  | 0 => .submit 1 (fun _ => .submit 2 (fun _ => .submit 3 (fun _ => .done .null)))
  | 2 => .fail f
  | _ => .done .null

theorem queue_stops_at_crash :
    ∃ d d' : Desk Unit Nat,
      Desk.hand (crash .missingKey) "" 9 2 0 ⟨.queued [], (), []⟩ = (.error (.fault .missingKey), d) ∧
      (starts d.notes = [0, 1, 2] ∧ calls d.notes = [0, 1, 2, 3] ∧ d.line = .queued []) ∧
      (Desk.session (crash .missingKey) "" 9 2 [⟨id, 3⟩] d).2.line = .queued [] ∧
      Desk.hand (crash (.raised .abort "")) "" 9 2 0 ⟨.queued [], (), []⟩ =
        (.error (.fault (.raised .abort "")), d') ∧
      (starts d'.notes = [0, 1, 2] ∧ d'.line = .queued [2, 3]) ∧
      ∀ visits, (Desk.session (crash (.raised .abort "")) "" 9 2 visits d').2.line =
        .queued (2 :: 3 :: visits.map Visit.task) := by
  have h : Desk.hand (crash .missingKey) "" 9 2 0 ⟨.queued [], (), []⟩ = (.error (.fault .missingKey),
    (Desk.hand (crash .missingKey) "" 9 2 0 ⟨.queued [], (), []⟩).2) := rfl
  have h' : Desk.hand (crash (.raised .abort "")) "" 9 2 0 ⟨.queued [], (), []⟩ =
    (.error (.fault (.raised .abort "")),
      (Desk.hand (crash (.raised .abort "")) "" 9 2 0 ⟨.queued [], (), []⟩).2) := rfl
  obtain ⟨-, -, -, -, -, emptied, -⟩ := queue_stops_at_fault _ "" 9 2 0 rfl h
  obtain ⟨-, last, waiting, -, -, -, stuck⟩ := queue_stops_at_fault _ "" 9 2 0 rfl h'
  obtain ⟨hl, again⟩ := emptied rfl
  obtain ⟨hl', later⟩ := stuck rfl
  have kept : Line.queued [2, 3] = .queued (last :: waiting) := hl'
  obtain ⟨rfl, rfl⟩ : 2 = last ∧ [3] = waiting := by simpa using kept
  refine ⟨_, _, h, ⟨rfl, rfl, hl⟩, ?_, h', ⟨rfl, hl'⟩, fun visits => ?_⟩
  · rw [(again [⟨id, 3⟩]).1]
    rfl
  · obtain ⟨_, -, -, line, -⟩ := later visits
    exact line

end Line

end StateEngine
