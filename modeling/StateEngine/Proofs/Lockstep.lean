import StateEngine.Act

/-! Computations in step with each other: from related worlds on they end alike, in related worlds again. An
abort and running out of steps are ends like any other. -/
namespace StateEngine.Act

variable {σ α β : Type} {R : σ → σ → Prop} {s t : σ}

/-- From two given worlds on, two computations end alike and leave related worlds. -/
def InStepAt (R : σ → σ → Prop) (s t : σ) (x y : Act σ α) : Prop := (y t).1 = (x s).1 ∧ R (x s).2 (y t).2

/-- From all related worlds on, two computations end alike and leave related worlds. -/
def InStep (R : σ → σ → Prop) (x y : Act σ α) : Prop := ∀ s t, R s t → InStepAt R s t x y

namespace InStepAt

variable {x y : Act σ α} {f g : α → Act σ β}

theorem pure (h : R s t) (a : α) : InStepAt R s t (Pure.pure a : Act σ α) (Pure.pure a) := ⟨rfl, h⟩

theorem fail (h : R s t) (e : Fault) : InStepAt R s t (Act.fail e : Act σ α) (Act.fail e) := ⟨rfl, h⟩

theorem ofExcept (h : R s t) (r : Except Fault α) : InStepAt R s t (Act.ofExcept r) (Act.ofExcept r) := by
  cases r <;> exact ⟨rfl, h⟩

/-- One part after the other. The second parts need to be in step only where the first ones have led. -/
theorem bind (hx : InStepAt R s t x y)
    (hf : ∀ a s' t', x s = (.ok a, s') → y t = (.ok a, t') → R s' t' → InStepAt R s' t' (f a) (g a)) :
    InStepAt R s t (x >>= f) (y >>= g) := by
  obtain ⟨hend, hr⟩ := hx
  unfold InStepAt
  rw [bind_apply, bind_apply]
  rcases hxs : x s with ⟨e | a, s'⟩ <;> rcases hyt : y t with ⟨e' | a', t'⟩ <;> rw [hxs, hyt] at hend hr
  · exact ⟨by rw [Except.error.inj hend], hr⟩
  · cases hend
  · cases hend
  · obtain rfl : a' = a := Except.ok.inj hend
    exact hf a' s' t' hxs hyt hr

/-- Where the first parts leave worlds related otherwise, the second ones go on from these. -/
theorem bind_of {R' : σ → σ → Prop} (hR : ∀ s t, R' s t → R s t) (hx : InStepAt R' s t x y)
    (hf : ∀ a s' t', x s = (.ok a, s') → y t = (.ok a, t') → R' s' t' → InStepAt R s' t' (f a) (g a)) :
    InStepAt R s t (x >>= f) (y >>= g) :=
  bind ⟨hx.1, hR _ _ hx.2⟩ (fun a s' t' hs ht _ => hf a s' t' hs ht (by
    have := hx.2
    rwa [hs, ht] at this))

/-- Going on with different values. -/
theorem bind_ok {a b : α} {s' t' : σ} (hx : x s = (.ok a, s')) (hy : y t = (.ok b, t'))
    (h : InStepAt R s' t' (f a) (g b)) : InStepAt R s t (x >>= f) (y >>= g) := by
  unfold InStepAt
  rw [bind_of_ok hx, bind_of_ok hy]
  exact h

/-- However the first computation ends, the second one ends so. -/
theorem ends {r : Except Stop α} {s' : σ} (hx : InStepAt R s t x y) (h : x s = (r, s')) :
    ∃ t', y t = (r, t') ∧ R s' t' := by
  obtain ⟨hend, hr⟩ := hx
  rw [h] at hend hr
  exact ⟨(y t).2, Prod.ext hend rfl, hr⟩

theorem attempt (hx : InStepAt R s t x y) : InStepAt R s t x.attempt y.attempt := by
  obtain ⟨hend, hr⟩ := hx
  unfold InStepAt Act.attempt
  rcases hxs : x s with ⟨(e | _) | a, s'⟩ <;> rcases hyt : y t with ⟨(e' | _) | a', t'⟩ <;>
    rw [hxs, hyt] at hend hr <;> cases hend <;> exact ⟨rfl, hr⟩

theorem get_bind {f g : σ → Act σ β} (h : InStepAt R s t (f s) (g t)) :
    InStepAt R s t (MonadState.get >>= f) (MonadState.get >>= g) := h

/-- Going on with worlds that are put in the place of those before. -/
theorem set_bind {s' t' : σ} {x y : Act σ α} (h : InStepAt R s' t' x y) :
    InStepAt R s t (MonadStateOf.set s' >>= fun _ => x) (MonadStateOf.set t' >>= fun _ => y) := h

theorem mono {R' : σ → σ → Prop} (hR : ∀ s t, R s t → R' s t) (h : InStepAt R s t x y) :
    InStepAt R' s t x y := ⟨h.1, hR _ _ h.2⟩

end InStepAt

namespace InStep

variable {x y : Act σ α} {f g : α → Act σ β}

theorem pure (a : α) : InStep R (Pure.pure a : Act σ α) (Pure.pure a) := fun _ _ h => .pure h a

theorem fail (e : Fault) : InStep R (Act.fail e : Act σ α) (Act.fail e) := fun _ _ h => .fail h e

theorem exhausted : InStep R (Act.exhausted : Act σ α) Act.exhausted := fun _ _ h => ⟨rfl, h⟩

theorem ofExcept (r : Except Fault α) : InStep R (Act.ofExcept r) (Act.ofExcept r) := fun _ _ h => .ofExcept h r

theorem bind (hx : InStep R x y) (hf : ∀ a, InStep R (f a) (g a)) : InStep R (x >>= f) (y >>= g) :=
  fun s t h => (hx s t h).bind (fun a s' t' _ _ h' => hf a s' t' h')

/-- Going on with the worlds as they were read. -/
theorem get_bind {f g : σ → Act σ β} (hf : ∀ s t, R s t → InStepAt R s t (f s) (g t)) :
    InStep R (MonadState.get >>= f) (MonadState.get >>= g) := hf

theorem attempt (hx : InStep R x y) : InStep R x.attempt y.attempt := fun s t h => (hx s t h).attempt

theorem change {f g : σ → σ} (hf : ∀ s t, R s t → R (f s) (g t)) : InStep R (Act.change f) (Act.change g) :=
  fun s t h => ⟨rfl, hf s t h⟩

theorem ask {f g : σ → Except Fault α} (hf : ∀ s t, R s t → g t = f s) : InStep R (Act.ask f) (Act.ask g) := by
  intro s t h
  unfold InStepAt
  rw [ask_apply, ask_apply, hf s t h]
  exact ⟨rfl, h⟩

/-- Worlds are replaced by related ones, or the same refusal leaves both. -/
theorem advance {f g : σ → Except Fault σ}
    (hf : ∀ s t, R s t → (∃ e, f s = .error e ∧ g t = .error e) ∨
      ∃ s' t', f s = .ok s' ∧ g t = .ok t' ∧ R s' t') : InStep R (Act.advance f) (Act.advance g) := by
  intro s t h
  unfold InStepAt
  rcases hf s t h with ⟨e, hs, ht⟩ | ⟨s', t', hs, ht, h'⟩
  · rw [advance_error hs, advance_error ht]
    exact ⟨rfl, h⟩
  · rw [advance_ok hs, advance_ok ht]
    exact ⟨rfl, h'⟩

theorem ite {c : Prop} [Decidable c] {x' y' : Act σ α} (hx : InStep R x y) (hx' : InStep R x' y') :
    InStep R (if c then x else x') (if c then y else y') := by
  split
  · exact hx
  · exact hx'

theorem forM {xs : List α} {f g : α → Act σ PUnit} (hf : ∀ a, InStep R (f a) (g a)) :
    InStep R (xs.forM f) (xs.forM g) := by
  induction xs with
  | nil => exact pure PUnit.unit
  | cons a xs ih => exact (hf a).bind (fun _ => ih)

end InStep

end StateEngine.Act
