import StateEngine.Proofs.Line.Idle
import StateEngine.Proofs.Lockstep

/-! Idle lines in step with each other: in related worlds they take up the same task, and leave the worlds related as the
task does. -/
namespace StateEngine.Line.Setting
open Act

variable {σ τ : Type} {S : Setting σ τ} {R : Line τ → σ → σ → Prop} {line : Line τ} {s t : σ} {task : τ}

/-- Worlds are related according to the line that both have. -/
structure Keeps (S : Setting σ τ) (R : Line τ → σ → σ → Prop) : Prop where
  read : ∀ {line s t}, R line s t → S.slot.read s = line ∧ S.slot.read t = line
  write : ∀ {line s t} (line' : Line τ), R line s t → R line' (S.slot.write line' s) (S.slot.write line' t)
  remark : ∀ {line} (message : String), InStep (R line) (S.remark message) (S.remark message)

theorem inStep_abandon (hS : S.Keeps R) (h : R line s t) (f : Fault) :
    InStepAt (fun s t => ∃ line, R line s t) s t (S.abandon f) (S.abandon f) := by
  unfold abandon
  cases f.isError with
  | false => exact .fail ⟨line, h⟩ f
  | true =>
    refine .get_bind ?_
    rw [(hS.read h).1, (hS.read h).2]
    refine .bind_of (fun _ _ h => ⟨line, h⟩) (hS.remark _ s t h) (fun _ s t _ _ h => ?_)
    exact .bind_ok (store_apply ..) (store_apply ..) (.fail ⟨_, hS.write _ h⟩ f)

/-- An idle line takes up a task in both worlds, and ends with it in both. -/
theorem inStep_submit (hS : S.Keeps R) (hline : R line s t) (hidle : line.inFlight = false)
    (hrun : InStepAt (R (line.begun task)) (S.slot.write (line.begun task) s) (S.slot.write (line.begun task) t)
      (S.run task) (S.run task)) :
    InStepAt (fun s t => ∃ line, R line s t) s t (S.submit task) (S.submit task) := by
  obtain ⟨reads, readt⟩ := hS.read hline
  cases line with
  | direct busy =>
    obtain rfl : busy = false := hidle
    unfold submit
    refine .get_bind ?_
    rw [reads, readt]
    refine .bind_ok (store_apply ..) (store_apply ..) ?_
    refine .bind_of (fun _ _ h => ⟨_, h⟩) hrun.attempt (fun ended s t _ _ h => ?_)
    exact .bind_ok (store_apply ..) (store_apply ..) (.ofExcept ⟨_, hS.write _ h⟩ ended)
  | queued tasks =>
    obtain rfl : tasks = [] := by simpa [inFlight] using hidle
    unfold InStepAt
    rw [submit_queued reads, submit_queued readt]
    show InStepAt (fun s t => ∃ line, R line s t) _ _ (S.drain S.bound) (S.drain S.bound)
    have taken : R (.queued [task]) (S.slot.write (.queued [task]) s) (S.slot.write (.queued [task]) t) :=
      hS.write _ hline
    cases S.bound with
    | zero => exact ⟨rfl, _, taken⟩
    | succ fuel =>
      rcases ran : S.run task (S.slot.write (.queued [task]) s) with ⟨r, s'⟩
      obtain ⟨t', ran', h⟩ := hrun.ends ran
      unfold InStepAt
      rcases r with (f | _) | a
      · rw [drain_cons_error (hS.read taken).1 ran, drain_cons_error (hS.read taken).2 ran']
        exact inStep_abandon hS h f
      · rw [drain_cons_exhausted (hS.read taken).1 ran, drain_cons_exhausted (hS.read taken).2 ran']
        exact ⟨rfl, _, h⟩
      · rw [drain_cons_ok (hS.read taken).1 ran (hS.read h).1, drain_cons_ok (hS.read taken).2 ran' (hS.read h).2]
        have left := hS.write (.queued []) h
        cases fuel with
        | zero => exact ⟨rfl, _, left⟩
        | succ fuel =>
          rw [drain_nil (hS.read left).1, drain_nil (hS.read left).2]
          exact ⟨rfl, _, left⟩

end StateEngine.Line.Setting
