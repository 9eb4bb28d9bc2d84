import StateEngine.Proofs.Walk

/-! Computations that go by steps of a kind if they come to an end. Whether one that is cut short counts too is
left open: what a computation keeps up at all times is kept even then, what it only restores at its end is
not. -/
namespace StateEngine.Act
open Relation

variable {σ α β : Type} {cut : Prop} {R : σ → σ → Prop} {s : σ}

/-- From a given world on, a computation goes by steps of a kind; one that is cut short need do so only where
that counts. -/
def GoesFrom (cut : Prop) (R : σ → σ → Prop) (s : σ) (x : Act σ α) : Prop :=
  ((x s).1 = .error .exhausted → cut) → ReflTransGen R s (x s).2

/-- From every world on, a computation goes by steps of a kind. -/
def Goes (cut : Prop) (R : σ → σ → Prop) (x : Act σ α) : Prop := ∀ s, GoesFrom cut R s x

namespace GoesFrom

variable {x : Act σ α}

theorem of_steps (h : ReflTransGen R s (x s).2) : GoesFrom cut R s x := fun _ => h

/-- What ends has gone by steps, whether or not cut runs count. -/
theorem steps {t : σ} {r : Except Fault α} (hx : GoesFrom cut R s x)
    (h : x s = (r.mapError .fault, t)) : ReflTransGen R s t := by
  unfold GoesFrom at hx
  rw [h] at hx
  refine hx (fun ended => ?_)
  cases r <;> cases ended

theorem steps_of_ok {t : σ} {a : α} (hx : GoesFrom cut R s x) (h : x s = (.ok a, t)) :
    ReflTransGen R s t := hx.steps (r := .ok a) h

/-- Where cut runs count, every run has gone by steps. -/
theorem all (hx : GoesFrom True R s x) : ReflTransGen R s (x s).2 := hx (fun _ => trivial)

theorem bind {f : α → Act σ β} (hx : GoesFrom cut R s x)
    (hf : ∀ a t, x s = (.ok a, t) → GoesFrom cut R t (f a)) : GoesFrom cut R s (x >>= f) := by
  unfold GoesFrom at hx ⊢
  rw [bind_apply]
  rcases h : x s with ⟨e | a, t⟩
  · rw [h] at hx
    exact fun ended => hx (fun he => ended (congrArg Except.error (Except.error.inj he)))
  · rw [h] at hx
    exact fun ended => (hx (fun he => by cases he)).trans (hf a t h ended)

theorem attempt (hx : GoesFrom cut R s x) : GoesFrom cut R s x.attempt := by
  unfold GoesFrom Act.attempt at *
  rcases h : x s with ⟨(f | _) | a, t⟩ <;> simp only [h] at hx ⊢
  · exact fun _ => hx (fun he => by cases he)
  · exact hx ∘ fun ended _ => ended trivial
  · exact fun _ => hx (fun he => by cases he)

theorem mono {R' : σ → σ → Prop} (h : ∀ s t, R s t → ReflTransGen R' s t) (hx : GoesFrom cut R s x) :
    GoesFrom cut R' s x := by
  intro ended
  have steps := hx ended
  generalize (x s).2 = t at steps
  induction steps with
  | refl => exact .refl
  | tail _ step ih => exact ih.trans (h _ _ step)

/-- Going on with the world as it is. -/
theorem get_bind {f : σ → Act σ β} (hf : GoesFrom cut R s (f s)) :
    GoesFrom cut R s (MonadState.get >>= f) := by
  refine GoesFrom.bind (of_steps .refl) (fun a t h => ?_)
  obtain ⟨ha, rfl⟩ := Prod.mk.inj h
  exact Except.ok.inj ha ▸ hf

/-- Going on with the answer that the world gives. -/
theorem ask_bind {f : σ → Except Fault α} {k : α → Act σ β} (hk : ∀ a, f s = .ok a → GoesFrom cut R s (k a)) :
    GoesFrom cut R s (Act.ask f >>= k) := by
  refine GoesFrom.bind (of_steps ?_) (fun a t h => ?_)
  · rw [ask_apply]
  · obtain ⟨ha, rfl⟩ := ok_of_ask h
    exact hk a ha

/-- Going on from the world that was put in the place of this one. -/
theorem set_bind {t : σ} {k : PUnit → Act σ β} (h : ReflTransGen R s t) (hk : GoesFrom cut R t (k ⟨⟩)) :
    GoesFrom cut R s ((MonadStateOf.set t : Act σ PUnit) >>= k) := by
  refine GoesFrom.bind (of_steps h) (fun a u hu => ?_)
  obtain ⟨-, rfl⟩ := Prod.mk.inj hu
  exact hk

theorem forM {xs : List α} {f : α → Act σ PUnit} (hf : ∀ a ∈ xs, Goes cut R (f a)) :
    GoesFrom cut R s (xs.forM f) := by
  induction xs generalizing s with
  | nil => exact of_steps .refl
  | cons a xs ih =>
    exact (hf a List.mem_cons_self s).bind (fun _ t _ => ih (fun b hb => hf b (List.mem_cons_of_mem _ hb)))

end GoesFrom

namespace Goes

variable {x : Act σ α}

theorem of_walks (hx : Walks R x) : Goes cut R x := fun s => .of_steps (hx s)

theorem walks (hx : Goes True R x) : Walks R x := fun s => (hx s).all

theorem pure (a : α) : Goes cut R (Pure.pure a : Act σ α) := of_walks (.pure a)

theorem fail (f : Fault) : Goes cut R (Act.fail f : Act σ α) := of_walks (.fail f)

theorem exhausted : Goes cut R (Act.exhausted : Act σ α) := of_walks .exhausted

theorem get : Goes cut R (MonadState.get : Act σ σ) := of_walks .get

theorem view (f : σ → α) : Goes cut R (Act.view f) := of_walks (.view f)

theorem ofExcept (r : Except Fault α) : Goes cut R (Act.ofExcept r : Act σ α) := of_walks (.ofExcept r)

theorem ask (f : σ → Except Fault α) : Goes cut R (Act.ask f) := of_walks (.ask f)

theorem change {f : σ → σ} (hf : ∀ s, ReflTransGen R s (f s)) : Goes cut R (Act.change f) :=
  of_walks (.change hf)

theorem advance {f : σ → Except Fault σ} (hf : ∀ s t, f s = .ok t → ReflTransGen R s t) :
    Goes cut R (Act.advance f) := of_walks (.advance hf)

theorem bind {f : α → Act σ β} (hx : Goes cut R x) (hf : ∀ a, Goes cut R (f a)) : Goes cut R (x >>= f) :=
  fun s => (hx s).bind (fun a t _ => hf a t)

theorem attempt (hx : Goes cut R x) : Goes cut R x.attempt := fun s => (hx s).attempt

theorem mono {R' : σ → σ → Prop} (h : ∀ s t, R s t → ReflTransGen R' s t) (hx : Goes cut R x) :
    Goes cut R' x := fun s => (hx s).mono h

theorem get_bind {f : σ → Act σ β} (hf : ∀ s, GoesFrom cut R s (f s)) :
    Goes cut R (MonadState.get >>= f) := fun s => .get_bind (hf s)

theorem ask_bind {f : σ → Except Fault α} {k : α → Act σ β}
    (hk : ∀ s a, f s = .ok a → GoesFrom cut R s (k a)) : Goes cut R (Act.ask f >>= k) :=
  fun s => .ask_bind (hk s)

theorem forM {xs : List α} {f : α → Act σ PUnit} (hf : ∀ a ∈ xs, Goes cut R (f a)) :
    Goes cut R (xs.forM f) := fun _ => .forM hf

theorem ite {c : Prop} [Decidable c] {x y : Act σ α} (hx : Goes cut R x) (hy : Goes cut R y) :
    Goes cut R (if c then x else y) := by
  split
  · exact hx
  · exact hy

/-- Asking for a new world, moving there and going on. -/
theorem ask_set {f : σ → Except Fault (α × σ)} {k : α → Act σ β}
    (hf : ∀ s a t, f s = .ok (a, t) → ReflTransGen R s t) (hk : ∀ a, Goes cut R (k a)) :
    Goes cut R (do
      let (a, t) ← Act.ask f
      set t
      k a) :=
  ask_bind (fun s p h => .set_bind (hf s p.1 p.2 h) (hk p.1 p.2))

end Goes

/-- Steps of a kind from where something holds, which go on keeping it. -/
def Under (I : σ → Prop) (R : σ → σ → Prop) (s t : σ) : Prop := I s → R s t ∧ I t

section Under

variable {I : σ → Prop} {x : Act σ α}

theorem Under.steps {t : σ} (h : ReflTransGen (Under I R) s t) (hs : I s) : ReflTransGen R s t ∧ I t := by
  induction h with
  | refl => exact ⟨.refl, hs⟩
  | tail _ step ih =>
    obtain ⟨hr, hi⟩ := step ih.2
    exact ⟨ih.1.tail hr, hi⟩

/-- Where nothing is claimed of the world in which a computation begins. -/
theorem GoesFrom.of_not (hs : ¬ I s) : GoesFrom cut (Under I R) s x := of_steps (.single (fun h => absurd h hs))

/-- What need be shown holds where a computation begins. -/
theorem GoesFrom.under (h : I s → GoesFrom cut (Under I R) s x) : GoesFrom cut (Under I R) s x := by
  by_cases hs : I s
  · exact h hs
  · exact .of_not hs

theorem GoesFrom.of_under (hx : GoesFrom cut (Under I R) s x) (hs : I s) : GoesFrom cut R s x :=
  fun ended => (Under.steps (hx ended) hs).1

/-- Steps that keep something are steps under it. -/
theorem Under.of_steps {t : σ} (hI : ∀ s t, R s t → I s → I t) (h : ReflTransGen R s t) :
    ReflTransGen (Under I R) s t :=
  h.lift id (fun _ _ step hs => ⟨step, hI _ _ step hs⟩)

theorem GoesFrom.to_under (hI : ∀ s t, R s t → I s → I t) (hx : GoesFrom cut R s x) :
    GoesFrom cut (Under I R) s x :=
  fun ended => Under.of_steps hI (hx ended)

theorem Goes.to_under (hI : ∀ s t, R s t → I s → I t) (hx : Goes cut R x) : Goes cut (Under I R) x :=
  fun s => (hx s).to_under hI

end Under

end StateEngine.Act
