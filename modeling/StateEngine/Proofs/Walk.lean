import Mathlib.Logic.Relation
import StateEngine.Act

/-! Computations that change the world by steps of one kind. What every step keeps, such a computation
keeps, however it ends. -/
namespace StateEngine.Act
open Relation

variable {σ α β : Type} {R : σ → σ → Prop}

/-- From a given world on, a computation goes by steps of a kind. -/
def WalksFrom (R : σ → σ → Prop) (s : σ) (x : Act σ α) : Prop := ReflTransGen R s (x s).2

/-- From every world on, a computation goes by steps of a kind. -/
def Walks (R : σ → σ → Prop) (x : Act σ α) : Prop := ∀ s, WalksFrom R s x

theorem WalksFrom.bind {x : Act σ α} {f : α → Act σ β} {s : σ} (hx : WalksFrom R s x)
    (hf : ∀ a t, x s = (.ok a, t) → WalksFrom R t (f a)) : WalksFrom R s (x >>= f) := by
  unfold WalksFrom at hx ⊢
  rw [bind_apply]
  rcases h : x s with ⟨e | a, t⟩ <;> rw [h] at hx
  · exact hx
  · exact hx.trans (hf a t h)

namespace Walks

/-- A run goes by steps from where it begins to where it ends. -/
theorem steps {x : Act σ α} {s t : σ} {r : Except Stop α} (hx : Walks R x) (h : x s = (r, t)) :
    ReflTransGen R s t := by
  have walk := hx s
  rwa [WalksFrom, h] at walk

/-- What every step keeps, a run keeps. -/
theorem keeps {x : Act σ α} {s : σ} {P : σ → Prop} (hx : Walks R x) (hR : ∀ s t, R s t → P s → P t)
    (hs : P s) : P (x s).2 := by
  have walk := hx s
  unfold WalksFrom at walk
  generalize (x s).2 = t at walk
  induction walk with
  | refl => exact hs
  | tail _ step ih => exact hR _ _ step ih

theorem pure (a : α) : Walks R (Pure.pure a : Act σ α) := fun _ => .refl

theorem fail (f : Fault) : Walks R (Act.fail f : Act σ α) := fun _ => .refl

theorem exhausted : Walks R (Act.exhausted : Act σ α) := fun _ => .refl

theorem get : Walks R (MonadState.get : Act σ σ) := fun _ => .refl

theorem view (f : σ → α) : Walks R (Act.view f) := fun _ => .refl

theorem ofExcept (r : Except Fault α) : Walks R (Act.ofExcept r : Act σ α) := by
  intro s
  cases r <;> exact .refl

theorem ask (f : σ → Except Fault α) : Walks R (Act.ask f) := fun s => ofExcept (f s) s

theorem change {f : σ → σ} (hf : ∀ s, ReflTransGen R s (f s)) : Walks R (Act.change f) := hf

theorem advance {f : σ → Except Fault σ} (hf : ∀ s t, f s = .ok t → ReflTransGen R s t) :
    Walks R (Act.advance f) := by
  intro s
  unfold WalksFrom
  cases h : f s with
  | ok t => simpa [advance_ok h] using hf s t h
  | error e => simpa [advance_error h] using ReflTransGen.refl

theorem bind {x : Act σ α} {f : α → Act σ β} (hx : Walks R x) (hf : ∀ a, Walks R (f a)) :
    Walks R (x >>= f) := fun s => (hx s).bind (fun a t _ => hf a t)

theorem mono {R' : σ → σ → Prop} (h : ∀ s t, R s t → ReflTransGen R' s t) {x : Act σ α}
    (hx : Walks R x) : Walks R' x := by
  intro s
  have steps : ReflTransGen R s (x s).2 := hx s
  unfold WalksFrom
  generalize (x s).2 = t at steps
  induction steps with
  | refl => exact .refl
  | tail _ step ih => exact ih.trans (h _ _ step)

/-- Going on with the world as it was read. -/
theorem get_bind {f : σ → Act σ β} (hf : ∀ s, WalksFrom R s (f s)) :
    Walks R (MonadState.get >>= f) := by
  intro s
  refine WalksFrom.bind .refl (fun a t h => ?_)
  obtain ⟨ha, rfl⟩ := Prod.mk.inj h
  exact Except.ok.inj ha ▸ hf s

/-- Going on with the answer that the world gives. -/
theorem ask_bind {f : σ → Except Fault α} {k : α → Act σ β}
    (hk : ∀ s a, f s = .ok a → WalksFrom R s (k a)) : Walks R (Act.ask f >>= k) := by
  intro s
  unfold WalksFrom
  rw [bind_apply, ask_apply]
  cases h : f s with
  | error e => exact .refl
  | ok a => exact hk s a h

theorem attempt {x : Act σ α} (hx : Walks R x) : Walks R x.attempt := by
  intro s
  have h := hx s
  unfold WalksFrom Act.attempt at *
  rcases hs : x s with ⟨(f | _) | a, t⟩ <;> simpa only [hs] using h

theorem map {x : Act σ α} {f : α → β} (hx : Walks R x) : Walks R (f <$> x) := by
  rw [map_eq_pure_bind]
  exact hx.bind (fun a => pure (f a))

theorem forM {xs : List α} {f : α → Act σ PUnit} (hf : ∀ a, Walks R (f a)) :
    Walks R (xs.forM f) := by
  induction xs with
  | nil => exact pure PUnit.unit
  | cons a xs ih => exact (hf a).bind (fun _ => ih)

theorem ite {c : Prop} [Decidable c] {x y : Act σ α} (hx : Walks R x) (hy : Walks R y) :
    Walks R (if c then x else y) := by
  split
  · exact hx
  · exact hy

/-- Asking for a new world, moving there and going on. -/
theorem ask_set {f : σ → Except Fault (α × σ)} {k : α → Act σ β}
    (hf : ∀ s a t, f s = .ok (a, t) → ReflTransGen R s t) (hk : ∀ a, Walks R (k a)) :
    Walks R (do
      let (a, t) ← Act.ask f
      set t
      k a) := by
  exact ask_bind (fun s p h => (hf s p.1 p.2 h).trans (hk p.1 p.2))

end Walks

/-- A computation that never runs out of steps. -/
def Definite (x : Act σ α) : Prop := ∀ s, (x s).1 ≠ .error .exhausted

namespace Definite

theorem pure (a : α) : Definite (Pure.pure a : Act σ α) := fun _ h => by cases h

theorem fail (f : Fault) : Definite (Act.fail f : Act σ α) := fun _ h => by cases h

theorem get : Definite (MonadState.get : Act σ σ) := fun _ h => by cases h

theorem change (f : σ → σ) : Definite (Act.change f) := fun _ h => by cases h

theorem ofExcept (r : Except Fault α) : Definite (Act.ofExcept r : Act σ α) := by
  intro s h
  cases r <;> cases h

theorem ask (f : σ → Except Fault α) : Definite (Act.ask f) := fun s => ofExcept (f s) s

theorem advance (f : σ → Except Fault σ) : Definite (Act.advance f) := by
  intro s
  unfold Act.advance
  cases f s with
  | ok t => exact fun h => by cases h
  | error e => exact fun h => by cases h

theorem bind {x : Act σ α} {f : α → Act σ β} (hx : Definite x) (hf : ∀ a, Definite (f a)) :
    Definite (x >>= f) := by
  intro s h
  have hxs := hx s
  rw [bind_apply] at h
  rcases he : x s with ⟨e | a, t⟩
  · rw [he] at h hxs
    exact hxs (congrArg Except.error (Except.error.inj h))
  · rw [he] at h
    exact hf a t h

theorem attempt {x : Act σ α} (hx : Definite x) : Definite x.attempt := by
  intro s h
  have hxs := hx s
  unfold Act.attempt at h
  rcases he : x s with ⟨(f | _) | a, t⟩
  · simp [he] at h
  · rw [he] at hxs
    exact hxs rfl
  · simp [he] at h

theorem forM {xs : List α} {f : α → Act σ PUnit} (hf : ∀ a, Definite (f a)) :
    Definite (xs.forM f) := by
  induction xs with
  | nil => exact pure PUnit.unit
  | cons a xs ih => exact (hf a).bind (fun _ => ih)

theorem ite {c : Prop} [Decidable c] {x y : Act σ α} (hx : Definite x) (hy : Definite y) :
    Definite (if c then x else y) := by
  split
  · exact hx
  · exact hy

/-- It ends with a value or a fault. -/
theorem exists_end {x : Act σ α} (hx : Definite x) (s : σ) :
    ∃ (r : Except Fault α) (t : σ), x s = (r.mapError .fault, t) := by
  obtain ⟨r, hr⟩ := Stop.exists_of_ne_exhausted (hx s)
  exact ⟨r, (x s).2, Prod.ext hr rfl⟩

end Definite

end StateEngine.Act
