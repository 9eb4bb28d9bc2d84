import StateEngine.Line

/-! A task that comes to a line with nothing in flight runs at once, on a direct line and on a queued one. -/
namespace StateEngine.Line

variable {σ τ : Type}

/-- A line with one task that has just been taken up. -/
def begun (line : Line τ) (task : τ) : Line τ :=
  match line with
  | .direct _ => .direct true
  | .queued _ => .queued [task]

/-- What a line tells its caller: a direct one what the task gave, a queued one no more than that it was
taken. -/
def answer (line : Line τ) (v : Value) : Value :=
  match line with
  | .direct _ => v
  | .queued _ => .bool true

/-- A place that gives back the line that was put there. -/
def Slot.Lawful (slot : Slot σ τ) : Prop := ∀ line s, slot.read (slot.write line s) = line

namespace Setting
open Act

variable {S : Setting σ τ} {s t : σ} {task : τ} {r : Except Fault Value}

/-- A direct line is taken for the time of the task and free again after it, however it ended. -/
theorem submit_direct (h : S.slot.read s = .direct false)
    (hrun : S.run task (S.slot.write (.direct true) s) = (r.mapError .fault, t)) :
    S.submit task s = (r.mapError .fault, S.slot.write (.direct false) t) := by
  unfold submit
  rw [bind_of_ok (get_apply s)]
  simp only [h]
  rw [bind_of_ok (S.store_apply _ s), bind_of_ok (attempt_apply hrun), bind_of_ok (S.store_apply _ t),
    ofExcept_apply]

/-- A task that comes to an empty queue is worked off by its caller. -/
theorem submit_queued (h : S.slot.read s = .queued []) :
    S.submit task s = S.drain S.bound (S.slot.write (.queued [task]) s) := by
  unfold submit
  rw [bind_of_ok (get_apply s)]
  simp only [h]
  exact bind_of_ok (S.store_apply _ s)

theorem drain_nil {fuel : Nat} (h : S.slot.read s = .queued []) :
    S.drain (fuel + 1) s = (.ok (.bool true), s) := by
  unfold drain
  rw [bind_of_ok (get_apply s)]
  simp only [h]
  rfl

private theorem drain_cons {fuel : Nat} {tasks : List τ} (h : S.slot.read s = .queued (task :: tasks)) :
    S.drain (fuel + 1) s = (do
      match ← (S.serve task).attempt with
      | .ok () => S.drain fuel
      | .error f => S.abandon f : Act σ Value) s := by
  conv => lhs; unfold drain
  rewrite [bind_of_ok (get_apply s), h]
  rfl

/-- A task that gives a value leaves the queue, and the later ones are worked off. -/
theorem drain_cons_ok {fuel : Nat} {v : Value} {tasks later : List τ} {taken : τ}
    (h : S.slot.read s = .queued (task :: tasks)) (hrun : S.run task s = (.ok v, t))
    (hkept : S.slot.read t = .queued (taken :: later)) :
    S.drain (fuel + 1) s = S.drain fuel (S.slot.write (.queued later) t) := by
  have served : S.serve task s = (.ok (), S.slot.write (.queued later) t) := by
    unfold serve
    rw [bind_of_ok hrun, bind_of_ok (get_apply t)]
    simp only [hkept]
    exact S.store_apply _ t
  rw [drain_cons h, bind_of_ok (attempt_apply (r := .ok ()) served)]

/-- If it fails, the queue ends as a queue ends with a fault. -/
theorem drain_cons_error {fuel : Nat} {f : Fault} {tasks : List τ}
    (h : S.slot.read s = .queued (task :: tasks)) (hrun : S.run task s = (.error (.fault f), t)) :
    S.drain (fuel + 1) s = S.abandon f t := by
  have served : S.serve task s = (.error (.fault f), t) := bind_of_error hrun
  rw [drain_cons h, bind_of_ok (attempt_apply (r := .error f) served)]

theorem drain_cons_exhausted {fuel : Nat} {tasks : List τ} (h : S.slot.read s = .queued (task :: tasks))
    (hrun : S.run task s = (.error .exhausted, t)) : S.drain (fuel + 1) s = (.error .exhausted, t) := by
  have served : S.serve task s = (.error .exhausted, t) := bind_of_error hrun
  rw [drain_cons h, bind_of_error (attempt_exhausted served)]

theorem abandon_ne_ok {f : Fault} {v : Value} : S.abandon f s ≠ (.ok v, t) := by
  intro h
  unfold abandon at h
  cases hf : f.isError with
  | false =>
    rw [hf] at h
    cases h
  | true =>
    rw [hf] at h
    obtain ⟨_, _, -, h⟩ := ok_of_bind_apply h
    obtain ⟨_, _, -, h⟩ := ok_of_bind_apply h
    obtain ⟨_, _, -, h⟩ := ok_of_bind_apply h
    cases h

/-- No value but true comes of the work on a queue. -/
theorem drain_true {fuel : Nat} {v : Value} (h : S.drain fuel s = (.ok v, t)) : v = .bool true := by
  induction fuel generalizing s with
  | zero => cases h
  | succ fuel ih =>
    rcases hline : S.slot.read s with busy | (_ | ⟨task, tasks⟩)
    · unfold drain at h
      rw [bind_of_ok (get_apply s), hline] at h
      exact (Except.ok.inj (Prod.mk.inj h).1).symm
    · rw [drain_nil hline] at h
      exact (Except.ok.inj (Prod.mk.inj h).1).symm
    · rw [drain_cons hline] at h
      obtain ⟨ended, u, -, h⟩ := ok_of_bind_apply h
      cases ended with
      | ok _ => exact ih h
      | error f => exact absurd h abandon_ne_ok

end Setting

end StateEngine.Line
