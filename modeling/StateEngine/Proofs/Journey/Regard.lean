import StateEngine.Proofs.Journey.Bearing

/-! Whatever host code asks for with regard to a model bears with it: of all operations only the firings of its
own machine move it, and those only once the line of the machine gets to them. -/
namespace StateEngine
open Act Relation World

variable {E : Engine} {cut : Prop} {m n : MachineId} {x : String} {T : World → Prop} {A : MachineId → Prop}
  {b : Prop} {w v : World} {i : FiringId}

/-- What goes on beside a model, with all lines watched. -/
abbrev Regards (m : MachineId) (x : String) (T : World → Prop) : World → World → Prop :=
  Bearing m x T (fun _ => True) True

theorem Act.GoesFrom.single {σ α : Type} {cut : Prop} {R : σ → σ → Prop} {s : σ} {x : Act σ α}
    (h : ((x s).1 = .error .exhausted → cut) → R s (x s).2) : GoesFrom cut R s x := fun ended => .single (h ended)

/-- What a computation bears with, from a world in which all agrees. -/
theorem Act.GoesFrom.bears {α : Type} {y : Run α} (hb : b → A m) (h : GoesFrom cut (Bearing m x T A b) w y)
    (hw : Ready m w) (ended : (y w).1 = .error .exhausted → cut) : Bears m x T A b w (y w).2 :=
  bears_of_steps hb (h ended) hw

section Writing

theorem written_writeState (n : MachineId) (y a : Value) (w : World) :
    World.Written w (Engine.writeState n y a w).2 := by
  unfold Engine.writeState
  rw [bind_of_ok (get_apply w)]
  cases (w.machine n).accessor with
  | field name =>
    simp only []
    cases h : w.writeAttribute y name a with
    | error f =>
      rw [advance_error h]
      rfl
    | ok v =>
      rw [advance_ok h]
      unfold World.writeAttribute at h
      split at h
      · split at h
        · cases h
        · cases h
          rfl
      · cases h
  | ledger name id => rfl

theorem World.Written.spared (h : World.Written w v) : Spared m x w v := by
  refine .of_same ?_ ?_ (fun k _ => ?_) <;> rw [h]
  rfl

/-- Writing the states of models that are none of them the model, or elsewhere. -/
theorem goesFrom_writes (hT : Endures m x T) (a : Value) {ys : List Value}
    (h : .model x ∈ ys → w.Elsewhere m n) :
    GoesFrom cut (Bearing m x T A b) w (ys.forM (fun y => Engine.writeState n y a)) := by
  induction ys generalizing w with
  | nil => exact Goes.pure _ w
  | cons y ys ih =>
    refine .under (fun hw => ?_)
    have steps : ReflTransGen (Rests m x) w (Engine.writeState n y a w).2 := by
      rcases rests_writeState (a := a) (fun hy : y = .model x => h (hy ▸ List.mem_cons_self)) with same | rests
      · rw [same]
      · exact .single rests
    refine GoesFrom.bind (.of_steps ((written_writeState n y a w).spared.step hT steps)) (fun _ u hu => ih ?_)
    have written : Engine.writeState n y a w = (.ok _, u) := hu
    rw [written] at steps
    exact fun hmem => (h (List.mem_cons_of_mem _ hmem)).later hw.made (changes_of_rests steps)

theorem goesFrom_place (hT : Endures m x T) {state models : Value}
    (h : .model x ∈ w.chosen n models → w.Elsewhere m n) :
    GoesFrom cut (Bearing m x T A b) w (Engine.place n state models) :=
  .ask_bind (fun _ _ => .get_bind (goesFrom_writes hT _ h))

theorem covers_of_chosen {models : Value} (h : .model x ∈ w.chosen n models) : models.Covers x := by
  cases models with
  | null => exact .inl rfl
  | _ => exact .inr h

end Writing

section Firing

/-- A firing that has been made, of a machine that keeps the state of its model elsewhere if that covers the model. -/
structure World.Outer (m : MachineId) (x : String) (n : MachineId) (i : FiringId) (w : World) : Prop
    extends Ready m w where
  opened : i < w.firings.next
  machine : (w.firings.get i).machine = n
  reach : (w.firings.get i).model.Covers x → w.Elsewhere m n

theorem World.Outer.later (h : w.Outer m x n i) (hv : Bears m x T A b w v) : v.Outer m x n i := by
  obtain ⟨opened, same⟩ := hv.firings i h.opened
  refine ⟨h.toReady.later hv.changes, opened, same.machine.trans h.machine, fun covers => ?_⟩
  rw [same.model] at covers
  exact (h.reach covers).later h.made hv.changes

theorem outer_of_step (h : Bearing m x T A b w v) (hw : w.Outer m x n i) : v.Outer m x n i :=
  hw.later (h hw.toReady).1

theorem goes_relocate (hT : Endures m x T) (dest : Value) :
    Act.Goes cut (Under (World.Outer m x n i) (Bearing m x T A b)) (Engine.relocate n dest i) := by
  refine Engine.goes_relocate_of (fun w => .under (fun hw => ?_)) (fun w d => .single (fun hw => ?_))
  · exact (goesFrom_place hT (fun chosen => hw.reach (covers_of_chosen chosen))).to_under (fun _ _ => outer_of_step)
  · have spared : Spared m x w (w.updateFiring i (fun f => { f with state := d })) := by
      refine spared_updateFiring (fun _ => ⟨rfl, rfl, rfl⟩) (fun hm hx => ?_)
      -- a firing of the model on its own machine would not be kept elsewhere
      refine absurd (hw.reach ?_) ?_
      · rw [hx]
        exact .inr List.mem_cons_self
      · rw [← hw.machine, hm]
        exact not_elsewhere_self w m
    have rests : Rests m x w (w.updateFiring i (fun f => { f with state := d })) :=
      rests_aside ⟨rfl, rfl, rfl, rfl⟩ rfl (fun _ => rfl)
    have step : Bearing m x T A b w _ := (spared.bears hT (.single rests)).bearing
    exact ⟨step, outer_of_step step hw⟩

theorem goes_execute (hE : E.Goes cut (Bearing m x T A b)) (hT : Endures m x T) (t : TransitionId) :
    Act.Goes cut (Under (World.Outer m x n i) (Bearing m x T A b)) (E.execute t i) := by
  have hE' : E.Goes cut (Under (World.Outer m x n i) (Bearing m x T A b)) := hE.to_under (fun _ _ => outer_of_step)
  refine fun w => .under (fun hw => hE'.execute ?_)
  rw [hw.machine]
  exact goes_relocate hT _

theorem goes_processFiring (hE : E.Goes cut (Bearing m x T A b)) (hT : Endures m x T) :
    Act.Goes cut (Under (World.Outer m x n i) (Bearing m x T A b)) (E.processFiring i) := by
  have hG : Grants (fun _ _ => True) (Bearing m x T A b) := grants_bearing hT
  exact Engine.Goes.processFiring (fun w f hf => Under.of_steps (fun _ _ => outer_of_step) (steps_note hT w i hf))
    (hE.to_under (fun _ _ => outer_of_step)) (goes_execute hE hT)
    (fun h => Under.of_steps (fun _ _ => outer_of_step) (hG.fileSource h))

/-- A machine that keeps the state of a value elsewhere if this covers the model. -/
structure World.Beyond (m : MachineId) (x : String) (n : MachineId) (y : Value) (w : World) : Prop
    extends Ready m w where
  reach : y.Covers x → w.Elsewhere m n

theorem beyond_of_step {y : Value} (h : Bearing m x T A b w v) (hw : w.Beyond m x n y) : v.Beyond m x n y :=
  ⟨(h hw.toReady).2, fun covers => (hw.reach covers).later hw.made (h hw.toReady).1.changes⟩

/-- Firing an event of a machine that keeps the state of the model elsewhere, if it reaches the model at all. -/
theorem goesFrom_fireNow (hE : E.Goes cut (Bearing m x T A b)) (hT : Endures m x T) {e : EventId} {y : Value}
    {args : List Value} {named : Named} (h : y.Covers x → w.Elsewhere m (w.events.get e).machine) :
    GoesFrom cut (Bearing m x T A b) w (E.fireNow e y args named) := by
  refine .under (fun hw => ?_)
  obtain ⟨n, hn⟩ : ∃ n, n = (w.events.get e).machine := ⟨_, rfl⟩
  rw [← hn] at h
  have keeps : ∀ u v, Bearing m x T A b u v → u.Beyond m x n y → v.Beyond m x n y := fun _ _ => beyond_of_step
  refine GoesFrom.of_under ((hE.to_under keeps).fireNow (fun v s firing hf => .under (fun hv => ?_))) ⟨hw, h⟩
  have opening : ReflTransGen (Bearing m x T A b) v { v with firings := v.firings.push firing } :=
    (grants_bearing hT).openFiring v firing
  have outer : World.Outer m x n v.firings.next { v with firings := v.firings.push firing } := by
    have opened : (v.firings.push firing).get v.firings.next = firing := by simp
    refine ⟨hv.toReady.later (Aside.steps ⟨rfl, rfl, rfl, rfl⟩), by simp, ?_, ?_⟩
    · rw [opened, hf, hn]
    · rw [opened, hf]
      exact hv.reach
  refine .set_bind (Under.of_steps keeps opening) (GoesFrom.to_under keeps ?_)
  exact (goes_processFiring hE hT _).of_under outer

end Firing

section Lines

/-- The firings of a machine on the model itself, as far as they move it: all else is borne with. -/
def Engine.Moves (E : Engine) (cut : Prop) (m : MachineId) (x : String) (T : World → Prop) : Prop :=
  ∀ w e args named, (w.machine m).line.inFlight = true → e < w.events.next → (w.events.get e).machine = m →
    GoesFrom cut (Bearing m x T (fun _ => True) False) w (E.fireNow e (.model x) args named)

theorem Bears.weaker {A' : MachineId → Prop} {b' : Prop} (hA : ∀ n, A' n → A n) (hb : b' → b)
    (h : Bearing m x T A b w v) : Bearing m x T A' b' w v :=
  fun hw => ⟨(h hw).1.weaken hA hb, (h hw).2⟩

/-- The run of a task that a line with a task in hand allows. -/
theorem goesFrom_runTask (hE : E.Goes cut (Regards m x T)) (hT : Endures m x T) (hM : E.Moves cut m x T) {task : Task}
    (hbusy : (w.machine n).line.inFlight = true) (h : w.Allows m x n task) :
    GoesFrom cut (Bearing m x T (fun _ => True) (n ≠ m)) w (E.runTask task) := by
  have less {w v : World} (h : Regards m x T w v) : Bearing m x T (fun _ => True) (n ≠ m) w v :=
    Bears.weaker (fun _ _ => trivial) (fun _ => trivial) h
  cases task with
  | call callback => exact (hE.apply _ _ w).mono (fun _ _ step => .single (less step))
  | fire e y args named =>
    obtain ⟨made, owner, reach⟩ := h
    by_cases own : n = m ∧ y = .model x
    · obtain ⟨rfl, rfl⟩ := own
      refine (hM w e args named hbusy made owner).mono (fun _ _ step => .single ?_)
      exact Bears.weaker (fun _ _ => trivial) (fun h => h rfl) step
    · have beyond : y.Covers x → w.Elsewhere m (w.events.get e).machine := fun covers => by
        rw [owner]
        exact (reach covers).resolve_left own
      exact (goesFrom_fireNow hE hT beyond).mono (fun _ _ step => .single (less step))

/-- A world in which all that waits in a line is allowed there. -/
structure World.Clears (m : MachineId) (x : String) (n : MachineId) (w : World) : Prop extends Ready m w where
  tasks : ∀ task ∈ (w.machine n).line.tasks, w.Allows m x n task

/-- What the work on a line bears with; the line itself is not watched meanwhile. -/
abbrev Works (m : MachineId) (x : String) (T : World → Prop) (n : MachineId) : World → World → Prop :=
  Bearing m x T (fun k => k ≠ n) (n ≠ m)

def World.withLine (n : MachineId) (line : Line Task) (w : World) : World :=
  w.updateMachine n (fun machine => { machine with line := line })

@[simp] theorem line_withLine (n : MachineId) (line : Line Task) (w : World) :
    ((w.withLine n line).machine n).line = line := by
  rw [withLine, machine_updateMachine, if_pos rfl]

theorem bears_withLine (hT : Endures m x T) (line : Line Task) (w : World) :
    Bears m x T (fun k => k ≠ n) b w (w.withLine n line) := by
  have rests : Rests m x w (w.withLine n line) := rests_tune (fun _ => ⟨rfl, rfl, rfl⟩)
  refine ⟨.single rests.1, fun i hi => ⟨hi, .refl _⟩, fun r hr => ⟨hr, fun _ hy _ => hy⟩, fun k hk hbusy => ?_,
    fun _ _ => ⟨.single rests, fun _ _ _ _ => rfl⟩, fun _ => hT _ _ rests⟩
  have same : ((w.withLine n line).machine k).line = (w.machine k).line := by
    rw [withLine, machine_updateMachine, if_neg (Ne.symm hk)]
  rw [same]
  exact ⟨.refl hbusy, fun _ htask => .inl htask⟩

theorem changes_withLine (n : MachineId) (line : Line Task) (w : World) : Changes w (w.withLine n line) :=
  .single (.tune w n (fun _ => ⟨rfl, rfl, rfl⟩))

/-- Tasks that are allowed stay so when the line gets shorter. -/
theorem World.Clears.take (h : w.Clears m x n) {tasks : List Task} (hsub : ∀ task ∈ tasks, task ∈ (w.machine n).line.tasks) :
    (w.withLine n (.queued tasks)).Clears m x n := by
  have changes := changes_withLine n (.queued tasks) w
  refine ⟨h.toReady.later changes, fun task htask => ?_⟩
  rw [line_withLine] at htask
  exact (h.tasks task (hsub task htask)).later h.made changes

theorem goes_drain (hE : E.Goes cut (Regards m x T)) (hT : Endures m x T) (hM : E.Moves cut m x T) (label : String)
    (fuel : Nat) : Act.Goes cut (Under (World.Clears m x n) (Works m x T n)) ((E.setting n label).drain fuel) := by
  have stored {w : World} {tasks : List Task} (hsub : ∀ task ∈ tasks, task ∈ (w.machine n).line.tasks) :
      ReflTransGen (Under (World.Clears m x n) (Works m x T n)) w (w.withLine n (.queued tasks)) :=
    .single (fun hw => ⟨(bears_withLine hT _ w).bearing, hw.take hsub⟩)
  refine Line.Setting.goes_drain (fun s task rest hline => .under (fun hs => ?_)) (fun f => ?_) fuel
  · have line : (s.machine n).line = .queued (task :: rest) := hline
    have busy : (s.machine n).line.inFlight = true := by rw [line]; rfl
    have allowed : s.Allows m x n task := hs.tasks task (by rw [line]; exact List.mem_cons_self)
    have ran := goesFrom_runTask hE hT hM busy allowed
    refine Line.Setting.goesFrom_serve (.single (fun ended hs => ?_)) (fun v t head others _ htaken => ?_)
    · have bears := ran.bears (fun _ => trivial) hs.toReady ended
      refine ⟨(bears.weaken (fun _ _ => trivial) id).bearing, hs.toReady.later bears.changes, fun other hother => ?_⟩
      rcases (bears.lines n trivial busy).2 other hother with old | new
      · exact (hs.tasks other old).later hs.made bears.changes
      · exact new
    · have line : (t.machine n).line = .queued (head :: others) := htaken
      exact stored (fun other hother => by rw [line]; exact List.mem_cons_of_mem _ hother)
  · refine Line.Setting.goes_abandon (fun message => .change (fun w => .single (fun hw => ?_))) (fun w => ?_) f
    · have logged := (grants_bearing (A := fun k => k ≠ n) (b := n ≠ m) hT).log (logged_record w
        (.remarked .debug .machine message))
      have bears := bears_of_steps (A := fun k => k ≠ n) (b := n ≠ m) Ne.symm logged hw.toReady
      exact ⟨bears.bearing, hw.toReady.later bears.changes, fun task htask =>
        (hw.tasks task htask).later hw.made bears.changes⟩
    · exact stored (fun _ h => absurd h List.not_mem_nil)

end Lines

end StateEngine
