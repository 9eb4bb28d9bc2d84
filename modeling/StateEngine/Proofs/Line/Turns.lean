import StateEngine.Proofs.Line.Desk

/-! The turns of a queued line: each runs the task at the head of the queue, to the end of which go the
tasks that it hands in. The notes of a whole run are spelled out from its turns. -/
namespace StateEngine.Line

variable {η τ : Type}

/-- One run of a task: what it handed in meanwhile, and how it ended. -/
structure Turn (τ : Type) where
  task : τ
  handed : List τ
  outcome : Except Fault Value

/-- The notes of tasks that a running task hands in: each is taken at once, and no more. -/
def takings (queue : List τ) : List τ → List (Note τ)
  | [] => []
  | task :: rest =>
    ⟨.called task, .queued queue⟩ ::
      ⟨.answered task (.ok (.bool true)), .queued (queue ++ [task])⟩ :: takings (queue ++ [task]) rest

/-- The notes of one turn, whose task stands at the head of the queue. -/
def turnNotes (queue : List τ) (turn : Turn τ) : List (Note τ) :=
  ⟨.started turn.task, .queued queue⟩ :: takings queue turn.handed ++
    [⟨.ended turn.task turn.outcome, .queued (queue ++ turn.handed)⟩]

/-- The notes of turns one after the other. -/
def tale : List τ → List (Turn τ) → List (Note τ)
  | _, [] => []
  | queue, turn :: rest => turnNotes queue turn ++ tale (queue ++ turn.handed).tail rest

/-- Turns that work off a queue from its head, and the queue behind the last of them. -/
inductive Serves : List τ → List (Turn τ) → List τ → Prop where
  | none (queue : List τ) : Serves queue [] queue
  | turn {queue rest : List τ} {turns : List (Turn τ)} (turn : Turn τ)
      (more : Serves (queue ++ turn.handed) turns rest) :
      Serves (turn.task :: queue) (turn :: turns) rest

/-- The tasks served are those that stood in the queue and those handed in meanwhile, in this order. -/
theorem Serves.order {queue rest : List τ} {turns : List (Turn τ)} (h : Serves queue turns rest) :
    queue ++ turns.flatMap Turn.handed = turns.map Turn.task ++ rest := by
  induction h with
  | none queue => simp
  | turn turn _ ih => simp [← ih]

theorem takings_append (queue a b : List τ) :
    takings queue (a ++ b) = takings queue a ++ takings (queue ++ a) b := by
  induction a generalizing queue with
  | nil => simp [takings]
  | cons task a ih => simp [takings, ih, List.append_assoc]

namespace Desk

variable {code : τ → Job η τ} {label : String} {bound : Nat}

/-- A task that is handed in while another one runs goes to the end of the queue, and that is all. -/
theorem hand_busy (depth : Nat) (task : τ) {d : Desk η τ} {queue : List τ}
    (hd : d.line = .queued queue) (hq : queue ≠ []) :
    hand code label bound (depth + 1) task d =
      (.ok (.bool true), { d with
        line := .queued (queue ++ [task]), notes := d.notes ++ takings queue [task] }) := by
  obtain ⟨head, rest, rfl⟩ := List.exists_cons_of_ne_nil hq
  have hs : (setting label bound (work code (hand code label bound depth))).submit task
        { d with notes := d.notes ++ [⟨.called task, d.line⟩] } =
      (.ok (.bool true), { d with
        line := .queued (head :: rest ++ [task]), notes := d.notes ++ [⟨.called task, d.line⟩] }) := by
    simp [Setting.submit, Act.bind_apply, Act.map_apply, setting, slot, hd]
  rw [hand]
  simp only [note, Act.bind_apply, Act.change_apply]
  rw [Act.attempt_apply (r := .ok (.bool true)) hs]
  simp [Act.ofExcept_apply, Act.mapError_ok, takings, hd]

/-- While a task runs, the queue only grows, and nothing else starts, even if the task never ends. -/
theorem perform_busy (depth : Nat) (job : Job η τ) {d d' : Desk η τ} {r : Except Stop Value}
    {queue : List τ} (hd : d.line = .queued queue) (hq : queue ≠ [])
    (h : perform (hand code label bound depth) job d = (r, d')) :
    ∃ handed, d'.line = .queued (queue ++ handed) ∧ d'.notes = d.notes ++ takings queue handed := by
  induction job generalizing d queue with
  | done v =>
    obtain ⟨-, rfl⟩ := Prod.mk.inj h
    exact ⟨[], by simpa using hd, by simp [takings]⟩
  | fail f =>
    obtain ⟨-, rfl⟩ := Prod.mk.inj h
    exact ⟨[], by simpa using hd, by simp [takings]⟩
  | look next ih => exact ih d.host hd hq h
  | change f next ih =>
    obtain ⟨handed, hl, hn⟩ := ih (d := { d with host := f d.host }) hd hq h
    exact ⟨handed, hl, hn⟩
  | submit task next ih =>
    cases depth with
    | zero =>
      obtain ⟨-, rfl⟩ := Prod.mk.inj h
      exact ⟨[], by simpa using hd, by simp [takings]⟩
    | succ depth =>
      rw [perform, Act.bind_apply,
        Act.attempt_apply (r := .ok (.bool true)) (hand_busy depth task hd hq)] at h
      obtain ⟨handed, hl, hn⟩ := ih (.ok (.bool true)) rfl (by simp) h
      refine ⟨task :: handed, by simpa using hl, ?_⟩
      rw [hn, List.append_assoc, ← takings_append, List.singleton_append]

/-- The task at the head has its turn. -/
theorem work_busy (depth : Nat) (task : τ) {d d' : Desk η τ} {r : Except Stop Value} {queue : List τ}
    (hd : d.line = .queued queue) (hq : queue ≠ [])
    (h : work code (hand code label bound depth) task d = (r, d')) (hr : r ≠ .error .exhausted) :
    ∃ turn : Turn τ, turn.task = task ∧ r = turn.outcome.mapError .fault ∧
      d'.line = .queued (queue ++ turn.handed) ∧ d'.notes = d.notes ++ turnNotes queue turn := by
  rw [work, Act.bind_apply] at h
  simp only [note, Act.change_apply, Act.bind_apply] at h
  let d₀ : Desk η τ := { d with notes := d.notes ++ [⟨.started task, d.line⟩] }
  rcases hp : perform (hand code label bound depth) (code task) d₀ with ⟨e, d₁⟩
  by_cases he : e = .error .exhausted
  · subst he
    rw [Act.attempt_exhausted hp] at h
    exact absurd (Prod.mk.inj h).1.symm hr
  · obtain ⟨handed, hl, hn⟩ := perform_busy depth _ (d := d₀) hd hq hp
    obtain ⟨outcome, rfl⟩ := Stop.exists_of_ne_exhausted he
    rw [Act.attempt_apply hp] at h
    simp only [Act.ofExcept_apply] at h
    obtain ⟨rfl, rfl⟩ := Prod.mk.inj h
    exact ⟨⟨task, handed, outcome⟩, rfl, rfl, hl, by simp [hn, hl, hd, d₀, turnNotes]⟩

/-- A turn that ends well takes the head off the queue, which is never found empty. -/
theorem serve_busy (depth : Nat) {d d' : Desk η τ} {r : Except Stop Unit} {task : τ} {queue : List τ}
    (hd : d.line = .queued (task :: queue))
    (h : (setting label bound (work code (hand code label bound depth))).serve task d = (r, d'))
    (hr : r ≠ .error .exhausted) :
    ∃ turn : Turn τ, turn.task = task ∧ d'.notes = d.notes ++ turnNotes (task :: queue) turn ∧
      match turn.outcome with
      | .ok _ => r = .ok () ∧ d'.line = .queued (queue ++ turn.handed)
      | .error f => r = .error (.fault f) ∧ d'.line = .queued (task :: queue ++ turn.handed) := by
  rw [Setting.serve, Act.bind_apply] at h
  rcases hw : work code (hand code label bound depth) task d with ⟨e, d₁⟩
  have hrun : (setting label bound (work code (hand code label bound depth))).run task d = (e, d₁) := hw
  rw [hrun] at h
  have he : e ≠ .error .exhausted := by
    rintro rfl
    exact absurd (Prod.mk.inj h).1.symm hr
  obtain ⟨turn, ht, rfl, hl, hn⟩ := work_busy depth task hd (by simp) hw he
  refine ⟨turn, ht, ?_⟩
  cases ho : turn.outcome with
  | error f =>
    rw [ho] at h
    obtain ⟨rfl, rfl⟩ := Prod.mk.inj h
    exact ⟨hn, rfl, hl⟩
  | ok v =>
    rw [ho] at h
    simp only [Act.mapError_ok, Act.bind_apply, Act.get_apply, setting, slot, hl, List.cons_append,
      Setting.store_apply] at h
    obtain ⟨rfl, rfl⟩ := Prod.mk.inj h
    exact ⟨hn, rfl, rfl⟩

theorem abandon_apply (run : τ → Act (Desk η τ) Value) (f : Fault) (d : Desk η τ) :
    (setting label bound run).abandon f d =
      (.error (.fault f), { d with line := if f.isError then .queued [] else d.line }) := by
  cases hf : f.isError <;> simp [Setting.abandon, hf, Act.bind_apply, setting, slot]

/-- How the work on a queue ends: with the queue itself, or with the first task that raises. An error
empties the queue; an abort leaves the task that raised it and all behind it. -/
def Closes (r : Except Stop Value) (turns : List (Turn τ)) (rest : List τ) (line : Line τ) : Prop :=
  (r = .ok (.bool true) ∧ rest = [] ∧ line = .queued []) ∨
    ∃ f done last, r = .error (.fault f) ∧ turns = done ++ [last] ∧ last.outcome = .error f ∧
      line = .queued (if f.isError then [] else last.task :: rest)

/-- A queue is worked off turn by turn from its head. -/
theorem drain_tale (depth fuel : Nat) {d d' : Desk η τ} {r : Except Stop Value} {queue : List τ}
    (hd : d.line = .queued queue)
    (h : (setting label bound (work code (hand code label bound depth))).drain fuel d = (r, d'))
    (hr : r ≠ .error .exhausted) :
    ∃ (turns : List (Turn τ)) (rest : List τ),
      d'.notes = d.notes ++ tale queue turns ∧
      Serves queue turns rest ∧
      Closes r turns rest d'.line := by
  induction fuel generalizing d queue with
  | zero => exact absurd (Prod.mk.inj h).1.symm hr
  | succ fuel ih =>
    rw [Setting.drain, Act.bind_apply] at h
    cases queue with
    | nil =>
      simp only [Act.get_apply, setting, slot, hd, Act.pure_apply] at h
      obtain ⟨rfl, rfl⟩ := Prod.mk.inj h
      exact ⟨[], [], by simp [tale], .none [], .inl ⟨rfl, rfl, hd⟩⟩
    | cons task queue =>
      have hread : (setting label bound (work code (hand code label bound depth))).slot.read d =
        .queued (task :: queue) := hd
      simp only [Act.get_apply, hread, Act.bind_apply] at h
      rcases hs : (setting label bound (work code (hand code label bound depth))).serve task d
        with ⟨e, d₁⟩
      have he : e ≠ .error .exhausted := by
        rintro rfl
        rw [Act.attempt_exhausted hs] at h
        exact absurd (Prod.mk.inj h).1.symm hr
      obtain ⟨turn, ht, hn, hend⟩ := serve_busy depth hd hs he
      cases ho : turn.outcome with
      | ok v =>
        rw [ho] at hend
        obtain ⟨rfl, hl⟩ := hend
        rw [Act.attempt_apply (r := .ok ()) hs] at h
        obtain ⟨turns, rest, hn', hq, hend⟩ := ih hl h
        refine ⟨turn :: turns, rest, ?_, ?_, ?_⟩
        · rw [hn', hn, tale, List.append_assoc]
          rfl
        · exact ht ▸ .turn turn hq
        · rcases hend with hok | ⟨f, done, last, hf, rfl, hlast⟩
          · exact .inl hok
          · exact .inr ⟨f, turn :: done, last, hf, rfl, hlast⟩
      | error f =>
        rw [ho] at hend
        obtain ⟨rfl, hl⟩ := hend
        rw [Act.attempt_apply (r := .error f) hs] at h
        simp only [abandon_apply] at h
        obtain ⟨rfl, rfl⟩ := Prod.mk.inj h
        refine ⟨[turn], queue ++ turn.handed, by simp [hn, tale], ht ▸ .turn turn (.none _),
          .inr ⟨f, [], turn, rfl, rfl, ho, ?_⟩⟩
        cases hf : f.isError <;> simp [hl, ht]

/-- A task that is handed in at an idle queue is served first, and its caller serves all that follow. -/
theorem hand_idle (depth : Nat) {top : τ} {d d' : Desk η τ} {r : Except Stop Value}
    (hd : d.line = .queued []) (h : hand code label bound (depth + 1) top d = (r, d'))
    (hr : r ≠ .error .exhausted) :
    ∃ (turns : List (Turn τ)) (rest : List τ) (answer : Except Fault Value),
      r = answer.mapError .fault ∧
      d'.notes = d.notes ++
        (⟨.called top, .queued []⟩ :: tale [top] turns ++ [⟨.answered top answer, d'.line⟩]) ∧
      Serves [top] turns rest ∧ Closes r turns rest d'.line := by
  rw [hand] at h
  simp only [note, Act.bind_apply, Act.change_apply] at h
  let S := setting label bound (work code (hand code label bound depth))
  let d₁ : Desk η τ := { d with notes := d.notes ++ [⟨.called top, d.line⟩] }
  have hsub : S.submit top d₁ = S.drain bound { d₁ with line := .queued [top] } := by
    simp [Setting.submit, Act.bind_apply, S, setting, slot, hd, d₁]
  rcases hs : S.drain bound { d₁ with line := .queued [top] } with ⟨e, d₂⟩
  by_cases he : e = .error .exhausted
  · subst he
    rw [Act.attempt_exhausted (hsub.trans hs)] at h
    exact absurd (Prod.mk.inj h).1.symm hr
  · obtain ⟨turns, rest, hn, hserves, hclose⟩ := drain_tale depth bound rfl hs he
    obtain ⟨answer, rfl⟩ := Stop.exists_of_ne_exhausted he
    rw [Act.attempt_apply (hsub.trans hs)] at h
    simp only [Act.ofExcept_apply] at h
    obtain ⟨rfl, rfl⟩ := Prod.mk.inj h
    exact ⟨turns, rest, answer, rfl, by simp [hn, hd, d₁], hserves, hclose⟩

end Desk

end StateEngine.Line
