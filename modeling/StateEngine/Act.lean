import StateEngine.Fault

/-! Computations over a world that may fail. What a computation did to the world before it failed stays
done. -/
namespace StateEngine

/-- Why a computation ended without a value. Running out of steps is no fault: nothing handles it. -/
inductive Stop where
  | fault (f : Fault)
  | exhausted

/-- What did not run out of steps has ended with a value or a fault. -/
theorem Stop.exists_of_ne_exhausted {α : Type} {e : Except Stop α} (h : e ≠ .error .exhausted) :
    ∃ r : Except Fault α, e = r.mapError .fault := by
  rcases e with (f | _) | a
  · exact ⟨.error f, rfl⟩
  · exact absurd rfl h
  · exact ⟨.ok a, rfl⟩

/-- A chain of outcomes that gives a value has given one at its first link. -/
theorem ok_of_bind {ε α β : Type} {x : Except ε α} {f : α → Except ε β} {b : β}
    (h : x >>= f = .ok b) : ∃ a, x = .ok a ∧ f a = .ok b := by
  cases x with
  | error e => cases h
  | ok a => exact ⟨a, rfl, h⟩

abbrev Act (σ α : Type) := ExceptT Stop (StateM σ) α

namespace Act

variable {σ α β : Type}

/-- One computation after another: the second one runs in the world that the first one left, and not
at all if that one stopped. -/
theorem bind_apply (x : Act σ α) (f : α → Act σ β) (s : σ) :
    (x >>= f) s = match x s with
      | (.ok a, t) => f a t
      | (.error e, t) => (.error e, t) := by
  simp only [bind, ExceptT.bind, ExceptT.mk, ExceptT.bindCont, StateT.bind]
  rcases x s with ⟨e | a, t⟩ <;> rfl

theorem bind_of_ok {x : Act σ α} {f : α → Act σ β} {s t : σ} {a : α} (h : x s = (.ok a, t)) :
    (x >>= f) s = f a t := by rw [bind_apply, h]

theorem bind_of_error {x : Act σ α} {f : α → Act σ β} {s t : σ} {e : Stop} (h : x s = (.error e, t)) :
    (x >>= f) s = (.error e, t) := by rw [bind_apply, h]

/-- What comes second matters only where it begins. -/
theorem bind_congr_of_ok {x : Act σ α} {f g : α → Act σ β} {s : σ}
    (h : ∀ a t, x s = (.ok a, t) → f a t = g a t) : (x >>= f) s = (x >>= g) s := by
  rw [bind_apply, bind_apply]
  rcases hx : x s with ⟨e | a, t⟩
  · rfl
  · exact h a t hx

/-- Where both have given a value, the second one began with what the first one left. -/
theorem ok_of_bind_apply {x : Act σ α} {f : α → Act σ β} {s u : σ} {b : β}
    (h : (x >>= f) s = (.ok b, u)) : ∃ a t, x s = (.ok a, t) ∧ f a t = (.ok b, u) := by
  rw [bind_apply] at h
  rcases hx : x s with ⟨e | a, t⟩
  · rw [hx] at h
    cases h
  · rw [hx] at h
    exact ⟨a, t, rfl, h⟩

@[simp] theorem pure_apply (a : α) (s : σ) : (pure a : Act σ α) s = (.ok a, s) := rfl

@[simp] theorem get_apply (s : σ) : (get : Act σ σ) s = (.ok s, s) := rfl

@[simp] theorem set_apply (s t : σ) : (set t : Act σ PUnit) s = (.ok ⟨⟩, t) := rfl

theorem map_apply (f : α → β) (x : Act σ α) (s : σ) :
    (f <$> x) s = match x s with
      | (.ok a, t) => (.ok (f a), t)
      | (.error e, t) => (.error e, t) := by
  rw [map_eq_pure_bind, bind_apply]
  rcases x s with ⟨e | a, t⟩ <;> rfl

def ofExcept (r : Except Fault α) : Act σ α := fun s =>
  match r with
  | .ok a => (.ok a, s)
  | .error f => (.error (.fault f), s)

theorem mapError_ok (a : α) : (.ok a : Except Fault α).mapError Stop.fault = .ok a := rfl

theorem ofExcept_apply (r : Except Fault α) (s : σ) :
    (ofExcept r : Act σ α) s = (r.mapError Stop.fault, s) := by cases r <;> rfl

def fail (f : Fault) : Act σ α := fun s => (.error (.fault f), s)

@[simp] theorem fail_apply (f : Fault) (s : σ) : (fail f : Act σ α) s = (.error (.fault f), s) := rfl

def exhausted : Act σ α := fun s => (.error .exhausted, s)

@[simp] theorem exhausted_apply (s : σ) : (exhausted : Act σ α) s = (.error .exhausted, s) := rfl

/-- Hands over how a computation ended; only running out of steps goes through. -/
def attempt (x : Act σ α) : Act σ (Except Fault α) := fun s =>
  match x s with
  | (.ok a, t) => (.ok (.ok a), t)
  | (.error (.fault f), t) => (.ok (.error f), t)
  | (.error .exhausted, t) => (.error .exhausted, t)

/-- Where a computation ends at all, its end is what is handed over. -/
theorem attempt_apply {x : Act σ α} {s t : σ} {r : Except Fault α}
    (h : x s = (r.mapError Stop.fault, t)) : attempt x s = (.ok r, t) := by
  unfold attempt
  rw [h]
  cases r <;> rfl

theorem attempt_exhausted {x : Act σ α} {s t : σ} (h : x s = (.error .exhausted, t)) :
    attempt x s = (.error .exhausted, t) := by simp [attempt, h]

@[simp] theorem attempt_apply_ofExcept (r : Except Fault α) (s : σ) :
    attempt (ofExcept r) s = (.ok r, s) := by
  cases r <;> rfl

/-- Handing over the end of a computation and then ending the same way is the computation itself. -/
theorem attempt_bind_ofExcept (x : Act σ α) : (attempt x >>= ofExcept) = x := by
  funext s
  simp only [bind_apply, attempt]
  rcases x s with ⟨(f | _) | a, t⟩ <;> rfl

/-- Reads the world without changing it. -/
def view (f : σ → α) : Act σ α := fun s => (.ok (f s), s)

def change (f : σ → σ) : Act σ Unit := fun s => (.ok (), f s)

@[simp] theorem change_apply (f : σ → σ) (s : σ) : change f s = (.ok (), f s) := rfl

/-- Reads the world through a question that may be refused. -/
def ask (f : σ → Except Fault α) : Act σ α := fun s => ofExcept (f s) s

theorem ask_apply (f : σ → Except Fault α) (s : σ) : ask f s = ((f s).mapError Stop.fault, s) :=
  ofExcept_apply (f s) s

theorem ask_ok {f : σ → Except Fault α} {s : σ} {a : α} (h : f s = .ok a) : ask f s = (.ok a, s) := by
  rw [ask_apply, h, mapError_ok]

theorem ok_of_ask {f : σ → Except Fault α} {s t : σ} {a : α} (h : ask f s = (.ok a, t)) :
    f s = .ok a ∧ t = s := by
  rw [ask_apply] at h
  cases hf : f s with
  | error e =>
    rw [hf] at h
    cases h
  | ok b =>
    rw [hf] at h
    cases h
    exact ⟨rfl, rfl⟩

/-- Replaces the world by a new one, or fails and leaves it. -/
def advance (f : σ → Except Fault σ) : Act σ Unit := fun s =>
  match f s with
  | .ok t => (.ok (), t)
  | .error e => (.error (.fault e), s)

/-- A refused advance changes nothing. -/
theorem advance_error {f : σ → Except Fault σ} {s : σ} {e : Fault} (h : f s = .error e) :
    advance f s = (.error (.fault e), s) := by simp [advance, h]

theorem advance_ok {f : σ → Except Fault σ} {s t : σ} (h : f s = .ok t) :
    advance f s = (.ok (), t) := by simp [advance, h]

theorem ok_of_advance {f : σ → Except Fault σ} {s t : σ} {u : Unit} (h : advance f s = (.ok u, t)) :
    f s = .ok t := by
  cases hf : f s with
  | error e =>
    rw [advance_error hf] at h
    cases h
  | ok t' =>
    rw [advance_ok hf] at h
    cases h
    rfl

end Act

end StateEngine
