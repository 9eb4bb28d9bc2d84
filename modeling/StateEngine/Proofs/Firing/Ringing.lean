import StateEngine.Proofs.Firing.Closing

/-! What a run for a firing comes to as far as its callbacks are concerned, whatever they do: it ends with the fault of
one of them, or none of them has failed. -/
namespace StateEngine
open Act World Relation

/-- A callback was run and has failed. -/
def Moment.Failed (z : Moment) (f : Fault) : Prop := (∃ c, z.cue = .run c) ∧ z.outcome = .error f

/-- A callback was run and has given a value. -/
def Moment.Rung (z : Moment) : Prop := (∃ c, z.cue = .run c) ∧ ∃ v, z.outcome = .ok v

/-- Nothing but callbacks, none of which has failed. -/
def AllRung (xs : List Moment) : Prop := ∀ z ∈ xs, z.Rung

theorem AllRung.nil : AllRung [] := fun _ hz => by cases hz

theorem AllRung.append {xs ys : List Moment} (h : AllRung xs) (h' : AllRung ys) : AllRung (xs ++ ys) :=
  fun z hz => (List.mem_append.mp hz).elim (h z) (h' z)

/-- Callbacks that were run one after the other have all given values, or one of them has failed. -/
theorem Follows.rung {cs : List Callback} {xs : List Moment} {verdict : Except Fault Bool}
    (h : Follows (cs.map .run) xs verdict) :
    (∃ b, verdict = .ok b) ∧ AllRung xs ∨ ∃ f, verdict = .error f ∧ ∃ z ∈ xs, z.Failed f := by
  induction cs generalizing xs with
  | nil =>
    cases h
    exact .inl ⟨⟨true, rfl⟩, .nil⟩
  | cons c cs ih =>
    cases h with
    | @passed _ x v _ xs _ hc ho _ h =>
      rcases ih h with ⟨ok, rung⟩ | ⟨f, hf, z, hz, failed⟩
      · refine .inl ⟨ok, fun z hz => ?_⟩
        rcases List.mem_cons.mp hz with rfl | hz
        · exact ⟨⟨c, hc⟩, v, ho⟩
        · exact rung z hz
      · exact .inr ⟨f, hf, z, List.mem_cons_of_mem _ hz, failed⟩
    | halted _ _ _ hp => cases hp
    | @failed _ x f _ hc ho => exact .inr ⟨f, rfl, x, List.mem_singleton_self x, ⟨c, hc⟩, ho⟩

namespace Engine

variable {E : Engine} {m : MachineId} {i : FiringId} {α β : Type} {w v : World} {Q Q' : List Moment → Prop}

/-- A run for a firing that, unless it is cut short, ends with the fault of a callback or takes up cues of which
something holds. -/
def Rings (E : Engine) (m : MachineId) (i : FiringId) (Q : List Moment → Prop) (w : World) (x : Run α) : Prop :=
  ∀ r u, x w = (r, u) → r ≠ .error .exhausted → ∃ xs, E.Conducts m i w xs u ∧
    ((∃ a, r = .ok a) ∧ Q xs ∨ ∃ f, r = .error (.fault f) ∧ ∃ z ∈ xs, z.Failed f)

namespace Rings

theorem pure (hQ : Q []) (a : α) : E.Rings m i Q w (Pure.pure a : Run α) := by
  rintro r u h -
  obtain ⟨rfl, rfl⟩ := Prod.mk.inj h
  exact ⟨[], .done w, .inl ⟨⟨a, rfl⟩, hQ⟩⟩

theorem exhausted : E.Rings m i Q w (Act.exhausted : Run α) := fun _ _ h ended =>
  absurd (Prod.mk.inj h).1.symm ended

theorem mono {x : Run α} (h : E.Rings m i Q w x) (hQ : ∀ xs, Q xs → Q' xs) : E.Rings m i Q' w x := by
  intro r u hx ended
  obtain ⟨xs, conducts, ⟨ok, hq⟩ | failed⟩ := h r u hx ended
  · exact ⟨xs, conducts, .inl ⟨ok, hQ xs hq⟩⟩
  · exact ⟨xs, conducts, .inr failed⟩

/-- One run after the other. -/
theorem bind {Q'' : List Moment → Prop} {x : Run α} {k : α → Run β} (hx : E.Rings m i Q w x)
    (hk : ∀ a t, x w = (.ok a, t) → E.Rings m i Q' t (k a)) (hQ : ∀ xs ys, Q xs → Q' ys → Q'' (xs ++ ys)) :
    E.Rings m i Q'' w (x >>= k) := by
  intro r u h ended
  rcases hr : x w with ⟨e | a, t⟩
  · rw [bind_of_error hr] at h
    obtain ⟨rfl, rfl⟩ := Prod.mk.inj h
    obtain ⟨xs, conducts, ⟨⟨a, ha⟩, -⟩ | ⟨f, hf, failed⟩⟩ := hx _ t hr (fun he => ended (by rw [Except.error.inj he]))
    · cases ha
    · exact ⟨xs, conducts, .inr ⟨f, by rw [Except.error.inj hf], failed⟩⟩
  · rw [bind_of_ok hr] at h
    obtain ⟨xs, conducts, ⟨-, hq⟩ | ⟨f, hf, -⟩⟩ := hx _ t hr (fun he => by cases he)
    · obtain ⟨ys, conducts', ⟨ok, hq'⟩ | ⟨f, hf, z, hz, failed⟩⟩ := hk a t hr r u h ended
      · exact ⟨xs ++ ys, conducts.trans conducts', .inl ⟨ok, hQ xs ys hq hq'⟩⟩
      · exact ⟨xs ++ ys, conducts.trans conducts', .inr ⟨f, hf, z, List.mem_append_right xs hz, failed⟩⟩
    · cases hf

/-- Going on from an answer that leaves the world as it is. -/
theorem bind_same {x : Run α} {k : α → Run β} {a : α} (hx : x w = (.ok a, w)) (hk : E.Rings m i Q w (k a)) :
    E.Rings m i Q w (x >>= k) := by
  intro r u h ended
  rw [bind_of_ok hx] at h
  exact hk r u h ended

/-- Going on from what takes up no cue. -/
theorem bind_quiet {x : Run α} {k : α → Run β} {a : α} (hx : x w = (.ok a, v)) (hq : Quiet i w v)
    (hk : E.Rings m i Q v (k a)) : E.Rings m i Q w (x >>= k) := by
  intro r u h ended
  rw [bind_of_ok hx] at h
  obtain ⟨xs, conducts, came⟩ := hk r u h ended
  exact ⟨xs, .quiet hq conducts, came⟩

theorem remark_bind {n : MachineId} {severity : Severity} {logger : Logger} {message : String} {k : Unit → Run α}
    (hk : ∀ v, v = w.record (.remarked severity logger ((w.machine n).label ++ message)) → E.Rings m i Q v (k ())) :
    E.Rings m i Q w (StateEngine.remark n severity logger message >>= k) :=
  bind_quiet (x := StateEngine.remark n severity logger message) rfl (quiet_record _ _ _) (hk _ rfl)

theorem remark (hQ : Q []) (n : MachineId) (severity : Severity) (logger : Logger) (message : String) :
    E.Rings m i Q w (StateEngine.remark n severity logger message) := by
  rintro r u h -
  obtain ⟨rfl, rfl⟩ := Prod.mk.inj h
  exact ⟨[], .single_quiet (quiet_record _ _ _), .inl ⟨⟨(), rfl⟩, hQ⟩⟩

end Rings

theorem rings_runCallbacks (cs : List Callback) (w : World) : E.Rings m i AllRung w (E.runCallbacks m cs i) := by
  intro r u h ended
  have any : E.Walks (fun _ _ => True) := ⟨fun _ _ _ _ => .single trivial, fun _ _ => .single trivial⟩
  obtain ⟨xs, verdict, conducts, follows, rfl, -⟩ := runCallbacks_conducts any h ended
  refine ⟨xs, conducts, ?_⟩
  rcases follows.rung with ⟨⟨b, rfl⟩, rung⟩ | ⟨f, rfl, failed⟩
  · exact .inl ⟨⟨(), rfl⟩, rung⟩
  · exact .inr ⟨f, rfl, failed⟩

theorem rings_runCallback (c : Callback) (w : World) : E.Rings m i AllRung w (E.runCallback m c i) := by
  have one : E.runCallback m c i = E.runCallbacks m [c] i := by
    show _ = (E.runCallback m c i >>= fun _ => Pure.pure PUnit.unit)
    exact (bind_pure _).symm
  rw [one]
  exact rings_runCallbacks [c] w

theorem rings_runGrowing (read : World → List Callback) (fuel position : Nat) (w : World) :
    E.Rings m i AllRung w (E.runGrowing m read i fuel position) := by
  induction fuel generalizing position w with
  | zero => exact .exhausted
  | succ fuel ih =>
    refine .bind_same (get_apply w) ?_
    split
    · exact .bind (rings_runCallback _ w) (fun _ t _ => ih _ t) (fun _ _ => AllRung.append)
    · exact .pure .nil _

theorem rings_runStage (s : StateId) (stage : StateStage) (w : World) :
    E.Rings m i AllRung w (E.runStage m s stage i) := by
  refine .bind_same (get_apply w) (.remark_bind (fun v _ => ?_))
  refine .bind (rings_runGrowing _ _ _ v) (fun _ t _ => .remark .nil _ _ _ _)
    (fun _ _ => AllRung.append)

/-- A move that does not fail is a cue that was taken up. -/
theorem rings_relocate {dest : Value} {d : StateId} (h : relocate m dest i w = (.ok d, v)) :
    E.Rings m i (fun xs => xs = [⟨.move dest, w, .ok .null, v⟩]) w (relocate m dest i) := by
  intro r u hx _
  obtain ⟨rfl, rfl⟩ := Prod.mk.inj (h.symm.trans hx)
  have taken : E.takeUp m i (.move dest) w = ((.ok .null : Except Fault Value).mapError .fault, v) :=
    bind_of_ok h
  exact ⟨_, .single_moment taken, .inl ⟨⟨d, rfl⟩, rfl⟩⟩

end Engine

end StateEngine
