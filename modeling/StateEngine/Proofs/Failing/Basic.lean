import StateEngine.Proofs.Walk

/-! What is to blame where a computation fails: a world on the way, and what failed there in such a way that the whole
has ended like it. -/
namespace StateEngine.Act
open Relation

variable {σ α β : Type} {R : σ → σ → Prop} {P : σ → Fault → σ → Prop} {s : σ}

/-- Where what comes second does not fail, the whole fails as its first part does. -/
theorem error_of_bind_apply {x : Act σ α} {g : α → Act σ β} {e : Stop} {t : σ} (hg : ∀ a u, ∃ b v, g a u = (.ok b, v))
    (h : (x >>= g) s = (.error e, t)) : x s = (.error e, t) := by
  rcases hx : x s with ⟨e' | a, u⟩
  · cases (bind_of_error hx).symm.trans h
    rfl
  · obtain ⟨b, v, hb⟩ := hg a u
    cases hb.symm.trans ((bind_of_ok hx).symm.trans h)

/-- From a given world on, a computation goes by steps of a kind; and where it fails it has come to a world in which
something of a kind failed with the same fault, and left the same world behind. -/
structure BlamesFrom (R : σ → σ → Prop) (P : σ → Fault → σ → Prop) (s : σ) (x : Act σ α) : Prop where
  steps : ReflTransGen R s (x s).2
  blame : ∀ f t, x s = (.error (.fault f), t) → ∃ c, ReflTransGen R s c ∧ P c f t

/-- From every world on. -/
def Blames (R : σ → σ → Prop) (P : σ → Fault → σ → Prop) (x : Act σ α) : Prop := ∀ s, BlamesFrom R P s x

theorem BlamesFrom.bind {x : Act σ α} {g : α → Act σ β} (hx : BlamesFrom R P s x)
    (hg : ∀ a t, x s = (.ok a, t) → BlamesFrom R P t (g a)) : BlamesFrom R P s (x >>= g) := by
  obtain ⟨steps, blame⟩ := hx
  rcases h : x s with ⟨e | a, t⟩
  · rw [h] at steps
    have failed : (x >>= g) s = (.error e, t) := bind_of_error h
    refine ⟨by rwa [failed], fun f u hf => ?_⟩
    rw [failed] at hf
    cases hf
    exact blame f t h
  · rw [h] at steps
    obtain ⟨steps', blame'⟩ := hg a t h
    have went : (x >>= g) s = g a t := bind_of_ok h
    refine ⟨by rw [went]; exact steps.trans steps', fun f u hf => ?_⟩
    rw [went] at hf
    obtain ⟨c, reached, failed⟩ := blame' f u hf
    exact ⟨c, steps.trans reached, failed⟩

namespace Blames

variable {x : Act σ α}

theorem pure (a : α) : Blames R P (Pure.pure a : Act σ α) := fun _ => ⟨.refl, nofun⟩

theorem exhausted : Blames R P (Act.exhausted : Act σ α) := fun _ => ⟨.refl, nofun⟩

theorem change {g : σ → σ} (hg : ∀ s, ReflTransGen R s (g s)) : Blames R P (Act.change g) := fun s => ⟨hg s, nofun⟩

/-- A step that is refused is to blame itself, and leaves the world as it is. -/
theorem advance {g : σ → Except Fault σ} (hg : ∀ s t, g s = .ok t → ReflTransGen R s t)
    (hP : ∀ s f, g s = .error f → P s f s) : Blames R P (Act.advance g) := by
  refine fun s => ⟨Walks.advance hg s, fun f t hf => ?_⟩
  cases h : g s with
  | ok u =>
    rw [advance_ok h] at hf
    cases hf
  | error f' =>
    rw [advance_error h] at hf
    cases hf
    exact ⟨s, .refl, hP s f h⟩

theorem bind {g : α → Act σ β} (hx : Blames R P x) (hg : ∀ a, Blames R P (g a)) : Blames R P (x >>= g) :=
  fun s => (hx s).bind (fun a t _ => hg a t)

theorem get_bind {g : σ → Act σ β} (hg : ∀ s, BlamesFrom R P s (g s)) : Blames R P (MonadState.get >>= g) := by
  refine fun s => BlamesFrom.bind ⟨.refl, nofun⟩ (fun a t h => ?_)
  obtain ⟨ha, rfl⟩ := Prod.mk.inj h
  exact Except.ok.inj ha ▸ hg s

theorem forM {xs : List α} {g : α → Act σ PUnit} (hg : ∀ a ∈ xs, Blames R P (g a)) : Blames R P (xs.forM g) := by
  induction xs with
  | nil => exact pure PUnit.unit
  | cons a xs ih => exact (hg a List.mem_cons_self).bind (fun _ => ih (fun b hb => hg b (List.mem_cons_of_mem a hb)))

end Blames

end StateEngine.Act
