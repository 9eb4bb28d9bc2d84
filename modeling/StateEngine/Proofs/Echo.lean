import StateEngine.Act

/-! Computations that echo each other: from related worlds they end alike, in related worlds again. What
runs out of steps has no echo to give, and an abort is none of the ways to end. -/
namespace StateEngine

/-- An outcome that is no abort. -/
def NoAbort {α : Type} (r : Except Fault α) : Prop := ∀ f, r = .error f → f.isError = true

theorem NoAbort.ok {α : Type} (a : α) : NoAbort (.ok a : Except Fault α) := fun _ h => by cases h

theorem NoAbort.error {α : Type} {f : Fault} (h : f.isError = true) :
    NoAbort (.error f : Except Fault α) := by
  intro g hg
  cases hg
  exact h

namespace Act

variable {σ α β : Type} {R : σ → σ → Prop} {s t : σ}

/-- From two given worlds on, the second computation echoes the first one. -/
def EchoesAt (R : σ → σ → Prop) (s t : σ) (x y : Act σ α) : Prop :=
  (x s).1 ≠ .error .exhausted → ∃ (r : Except Fault α) (s' t' : σ), x s = (r.mapError .fault, s') ∧
    y t = (r.mapError .fault, t') ∧ R s' t' ∧ NoAbort r

/-- From all related worlds on, the second computation echoes the first one. -/
def Echoes (R : σ → σ → Prop) (x y : Act σ α) : Prop := ∀ s t, R s t → EchoesAt R s t x y

namespace EchoesAt

variable {x y : Act σ α} {f g : α → Act σ β}

theorem pure (h : R s t) (a : α) : EchoesAt R s t (Pure.pure a : Act σ α) (Pure.pure a) :=
  fun _ => ⟨.ok a, s, t, rfl, rfl, h, .ok a⟩

theorem fail (h : R s t) {e : Fault} (he : e.isError = true) :
    EchoesAt R s t (Act.fail e : Act σ α) (Act.fail e) :=
  fun _ => ⟨.error e, s, t, rfl, rfl, h, .error he⟩

theorem exhausted : EchoesAt R s t (Act.exhausted : Act σ α) y := fun h => absurd rfl h

theorem ofExcept (h : R s t) {r : Except Fault α} (hr : NoAbort r) :
    EchoesAt R s t (Act.ofExcept r) (Act.ofExcept r) :=
  fun _ => ⟨r, s, t, ofExcept_apply r s, ofExcept_apply r t, h, hr⟩

/-- One part after the other, unless the first one fails. -/
theorem bind (hx : EchoesAt R s t x y)
    (hf : ∀ a s' t', x s = (.ok a, s') → y t = (.ok a, t') → R s' t' → EchoesAt R s' t' (f a) (g a)) :
    EchoesAt R s t (x >>= f) (y >>= g) := by
  intro hend
  have going : (x s).1 ≠ .error .exhausted := by
    intro h
    have stopped : x s = (.error .exhausted, (x s).2) := Prod.ext h rfl
    exact hend (by rw [bind_of_error stopped])
  obtain ⟨r, s', t', hxs, hyt, hr, hok⟩ := hx going
  cases r with
  | error e => exact ⟨.error e, s', t', bind_of_error hxs, bind_of_error hyt, hr, .error (hok e rfl)⟩
  | ok a =>
    rw [bind_of_ok hxs] at hend
    obtain ⟨r, s'', t'', hfs, hgt, hr', hok'⟩ := hf a s' t' hxs hyt hr hend
    exact ⟨r, s'', t'', (bind_of_ok hxs).trans hfs, (bind_of_ok hyt).trans hgt, hr', hok'⟩

/-- What is handed over is no abort. -/
theorem attempt_bind {f g : Except Fault α → Act σ β} (hx : EchoesAt R s t x y)
    (hf : ∀ r s' t', NoAbort r → R s' t' → EchoesAt R s' t' (f r) (g r)) :
    EchoesAt R s t (x.attempt >>= f) (y.attempt >>= g) := by
  intro hend
  have going : (x s).1 ≠ .error .exhausted := by
    intro h
    have stopped : x s = (.error .exhausted, (x s).2) := Prod.ext h rfl
    exact hend (by rw [bind_of_error (attempt_exhausted stopped)])
  obtain ⟨r, s', t', hxs, hyt, hr, hok⟩ := hx going
  rw [bind_of_ok (attempt_apply hxs)] at hend
  obtain ⟨r', s'', t'', hfs, hgt, hr', hok'⟩ := hf r s' t' hok hr hend
  exact ⟨r', s'', t'', (bind_of_ok (attempt_apply hxs)).trans hfs,
    (bind_of_ok (attempt_apply hyt)).trans hgt, hr', hok'⟩

/-- What is done from the second world on is all that counts of the second computation. -/
theorem congr {y' : Act σ α} (h : EchoesAt R s t x y') (hy : y t = y' t) : EchoesAt R s t x y := by
  intro hend
  obtain ⟨r, s', t', hxs, hyt, hr, hok⟩ := h hend
  exact ⟨r, s', t', hxs, hy.trans hyt, hr, hok⟩

theorem get_bind {f g : σ → Act σ β} (h : EchoesAt R s t (f s) (g t)) :
    EchoesAt R s t (MonadState.get >>= f) (MonadState.get >>= g) := h

end EchoesAt

namespace Echoes

variable {x y : Act σ α} {f g : α → Act σ β}

theorem pure (a : α) : Echoes R (Pure.pure a : Act σ α) (Pure.pure a) := fun _ _ h => .pure h a

theorem fail {e : Fault} (he : e.isError = true) : Echoes R (Act.fail e : Act σ α) (Act.fail e) :=
  fun _ _ h => .fail h he

theorem exhausted : Echoes R (Act.exhausted : Act σ α) y := fun _ _ _ => .exhausted

theorem ofExcept {r : Except Fault α} (hr : NoAbort r) : Echoes R (Act.ofExcept r) (Act.ofExcept r) :=
  fun _ _ h => .ofExcept h hr

theorem bind (hx : Echoes R x y) (hf : ∀ a, Echoes R (f a) (g a)) : Echoes R (x >>= f) (y >>= g) :=
  fun s t h => (hx s t h).bind (fun a s' t' _ _ h' => hf a s' t' h')

theorem attempt_bind {f g : Except Fault α → Act σ β} (hx : Echoes R x y)
    (hf : ∀ r, NoAbort r → Echoes R (f r) (g r)) : Echoes R (x.attempt >>= f) (y.attempt >>= g) :=
  fun s t h => (hx s t h).attempt_bind (fun r s' t' hr h' => hf r hr s' t' h')

/-- Going on with the worlds as they were read. -/
theorem get_bind {f g : σ → Act σ β} (hf : ∀ s t, R s t → EchoesAt R s t (f s) (g t)) :
    Echoes R (MonadState.get >>= f) (MonadState.get >>= g) := fun s t h => .get_bind (hf s t h)

theorem change {f g : σ → σ} (hf : ∀ s t, R s t → R (f s) (g t)) : Echoes R (Act.change f) (Act.change g) :=
  fun s t h _ => ⟨.ok (), f s, g t, rfl, rfl, hf s t h, .ok ()⟩

theorem view {f g : σ → α} (hf : ∀ s t, R s t → g t = f s) : Echoes R (Act.view f) (Act.view g) := by
  intro s t h _
  refine ⟨.ok (f s), s, t, rfl, ?_, h, .ok _⟩
  rw [← hf s t h]
  rfl

/-- The first one may do something of its own that keeps worlds related. -/
theorem change_left {f : σ → σ} (hf : ∀ s t, R s t → R (f s) t) (hx : Echoes R x y) :
    Echoes R (Act.change f >>= fun _ => x) y := fun s t h => hx (f s) t (hf s t h)

theorem ask {f g : σ → Except Fault α} (hf : ∀ s t, R s t → g t = f s ∧ NoAbort (f s)) :
    Echoes R (Act.ask f) (Act.ask g) := by
  intro s t h _
  obtain ⟨hfg, hok⟩ := hf s t h
  exact ⟨f s, s, t, ask_apply f s, by rw [ask_apply, hfg], h, hok⟩

theorem ite {c : Prop} [Decidable c] {x' y' : Act σ α} (hx : Echoes R x y) (hx' : Echoes R x' y') :
    Echoes R (if c then x else x') (if c then y else y') := by
  split
  · exact hx
  · exact hx'

theorem forM {xs : List α} {f g : α → Act σ PUnit} (hf : ∀ a, Echoes R (f a) (g a)) :
    Echoes R (xs.forM f) (xs.forM g) := by
  induction xs with
  | nil => exact pure PUnit.unit
  | cons a xs ih => exact (hf a).bind (fun _ => ih)

end Echoes

end Act

end StateEngine
