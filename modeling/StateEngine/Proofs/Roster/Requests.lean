import StateEngine.Proofs.Registry.Registering
import StateEngine.Proofs.Roster.Trail

/-! Whatever is asked of machines that have been made, from within callbacks too, becomes of the models bound to a machine by
such deeds as a trail tells. -/
namespace StateEngine
open Act Relation World

variable {E : Engine} {cut : Prop} {m n : MachineId} {made : Nat} {w v u : World}

namespace World

/-- An operation is asked of a machine that has been made, if of any. -/
def Addresses (w : World) : Operation → Prop
  | .bindModels n .. | .unbindModels n _ | .addStates n .. | .setInitial n _ | .assign n .. | .connect n ..
  | .connectAll n _ | .connectRow n _ | .disconnect n .. | .submit n _ => n < w.machines.next
  | _ => True

/-- No machine is lost, and some deeds are done to the models bound to one that has been made. -/
def Trailing (m : MachineId) (w v : World) : Prop :=
  w.machines.next ≤ v.machines.next ∧ (m < w.machines.next → ∃ deeds, Trail m w deeds v)

theorem Trailing.trans (h : Trailing m w v) (h' : Trailing m v u) : Trailing m w u := by
  refine ⟨Nat.le_trans h.1 h'.1, fun hm => ?_⟩
  obtain ⟨deeds, trail⟩ := h.2 hm
  obtain ⟨more, trail'⟩ := h'.2 (Nat.lt_of_lt_of_le hm h.1)
  exact ⟨deeds ++ more, trail.trans trail'⟩

/-- Steps of which a trail tells, where machines have rosters of their own and so many of them have been made at least. -/
abbrev Seats (m : MachineId) (made : Nat) : World → World → Prop :=
  Under (fun w => w.Housed ∧ made ≤ w.machines.next) (Trailing m)

theorem steps_seats (h : w.Housed → made ≤ w.machines.next → Trailing m w v ∧ v.Housed) :
    ReflTransGen (Seats m made) w v := by
  refine .single (fun ⟨housed, enough⟩ => ?_)
  obtain ⟨trail, housed'⟩ := h housed enough
  exact ⟨trail, housed', Nat.le_trans enough trail.1⟩

theorem steps_kept (h : made ≤ w.machines.next → Kept w v) : ReflTransGen (Seats m made) w v :=
  steps_seats (fun housed enough => ⟨⟨((h enough).seatKept m).count, fun _ =>
    ⟨[], .kept (.begun w) ((h enough).seatKept m)⟩⟩, (h enough).housed housed⟩)

/-- Where steps have led, all of them have left one trail. -/
theorem trail_of_steps (h : ReflTransGen (Seats m made) w v) (housed : w.Housed) (enough : made ≤ w.machines.next) :
    Trailing m w v ∧ v.Housed := by
  obtain ⟨steps, housed', -⟩ := Under.steps h ⟨housed, enough⟩
  refine ⟨?_, housed'⟩
  clear h housed' housed enough
  induction steps with
  | refl => exact ⟨Nat.le_refl _, fun _ => ⟨[], .begun w⟩⟩
  | tail _ step ih => exact ih.trans step

/-- All that makes more of everything is told by a trail, connections of machines that have been made included. -/
theorem grants_seats_of {K : MachineId → Value → Prop} (hK : ∀ k trigger, K k trigger → k < made) :
    Grants K (Seats m made) where
  log h := steps_kept (fun _ => kept_beside (by rw [h]) (by rw [h]) (by rw [h]))
  makeState _ _ := steps_kept (fun _ => kept_beside rfl rfl rfl)
  hookState _ _ _ _ := steps_kept (fun _ => kept_beside rfl rfl rfl)
  makeTransition _ _ := steps_kept (fun _ => kept_beside rfl rfl rfl)
  connect hk h := steps_kept (fun enough => kept_connect (Nat.lt_of_lt_of_le (hK _ _ hk) enough) h)
  fileSource _ := steps_kept (fun _ => kept_updateEvent _ (fun _ => rfl))
  openFiring _ _ := steps_kept (fun _ => kept_beside rfl rfl rfl)

theorem grants_seats : Grants (fun k _ => k = n) (Seats m (n + 1)) :=
  grants_seats_of (fun _ _ hk => hk ▸ Nat.lt_succ_self n)

/-- Where nothing is connected. -/
theorem grants_idle : Grants (fun _ _ => False) (Seats m made) := grants_seats_of (fun _ _ hk => hk.elim)

end World

/-- What a stretch rests on may hold where it begins only. -/
theorem goesFrom_seats {α : Type} {y : Run α} (enough : made ≤ w.machines.next) (h : GoesFrom cut (Seats m made) w y) :
    GoesFrom cut (Seats m 0) w y := by
  refine fun ended => steps_seats (fun housed _ => ?_)
  exact trail_of_steps (h ended) housed enough

theorem seats_mono (h : Seats m 0 w v) : ReflTransGen (Seats m made) w v := by
  refine .single (fun ⟨housed, enough⟩ => ?_)
  obtain ⟨trail, housed', -⟩ := h ⟨housed, Nat.zero_le _⟩
  exact ⟨trail, housed', Nat.le_trans enough trail.1⟩

theorem Engine.Goes.seats (hE : E.Goes cut (Seats m 0)) (made : Nat) : E.Goes cut (Seats m made) :=
  hE.mono (fun _ _ h => seats_mono h)

section Firing

variable (hE : E.Goes cut (Seats m 0))

theorem goes_settingDown (k : MachineId) (state models : Value) :
    Act.Goes cut (Seats m made) (Engine.place k state models) :=
  .of_walks ((noted_place k state models).mono (fun _ _ h => steps_kept (fun _ => kept_noted h)))

include hE

theorem goes_executingSeats (t : TransitionId) (i : FiringId) : Act.Goes cut (Seats m 0) (E.execute t i) := by
  refine fun w => hE.execute (Engine.goes_relocate_of (fun u => goes_settingDown _ _ _ u) (fun _ _ => ?_))
  exact steps_kept (fun _ => kept_beside rfl rfl rfl)

theorem goes_firingSeats (e : EventId) (y : Value) (args : List Value) (named : Named) :
    Act.Goes cut (Seats m 0) (E.fireNow e y args named) := by
  have noted (u : World) (i : FiringId) (f : Firing → Firing) : ReflTransGen (Seats m 0) u (u.updateFiring i f) :=
    steps_kept (fun _ => kept_beside rfl rfl rfl)
  refine fun w => hE.fireNow (fun v s firing _ => .set_bind (grants_idle.openFiring v firing) ?_)
  exact Engine.Goes.processFiring (fun u f _ => noted u _ f) hE (fun t => goes_executingSeats hE t _)
    (fun h => grants_idle.fileSource h) _

theorem goesFrom_submittingSeats (hn : n < w.machines.next) (task : Task) :
    GoesFrom cut (Seats m 0) w (E.submit n task) := by
  refine goesFrom_seats hn (.get_bind ?_)
  refine Line.Setting.goes_submit (R := Seats m (n + 1)) (fun task => ?_) (fun line u => ?_)
    (fun message => .change (fun u => ?_)) task _
  · have ran : Act.Goes cut (Seats m 0) (E.runTask task) := by
      cases task with
      | fire e y args named => exact goes_firingSeats hE e y args named
      | call callback => exact hE.apply _ _
    exact ran.mono (fun _ _ h => seats_mono h)
  · exact steps_kept (fun hn => kept_updateMachine hn (fun _ => rfl))
  · exact grants_seats.log (logged_record u _)

theorem goes_triggeringSeats (n : MachineId) (y name : Value) (args : List Value) (named : Named) :
    Act.Goes cut (Seats m 0) (E.trigger n y name args named) := by
  refine fun w => hE.trigger (fun e he => .under (fun ⟨housed, _⟩ => goesFrom_submittingSeats hE ?_ _))
  rcases housed.houses e with first | made
  · -- the machine that lists the event has been made, so some machine has
    rw [first]
    refine Nat.pos_of_ne_zero (fun none => ?_)
    have unmade : w.machine n = default := Heap.get_of_next_le (by rw [none]; exact Nat.zero_le n)
    unfold eventOf? at he
    rw [unmade] at he
    split at he <;> cases he
  · exact made

end Firing

section Registering

variable (hE : E.Goes cut (Seats m (n + 1)))

include hE

theorem goes_addingSeats (states : Value) (options : StateOptions) :
    Act.Goes cut (Seats m (n + 1)) (E.addStates n states options) := by
  refine .forM (fun entry _ => hE.addState grants_seats (fun {w v options entry s} h => ?_) (fun _ => rfl) options entry)
  obtain ⟨u, hu, -, -, rfl⟩ := enroll_cases h
  have filed : ReflTransGen (Seats m (n + 1)) u (u.updateMachine n (fun machine =>
      { machine with states := machine.states.insert (u.states.get s).name s })) :=
    steps_kept (fun hn => kept_updateMachine hn (fun _ => rfl))
  rcases stateOf_cases hu with ⟨-, rfl⟩ | ⟨state, -, rfl⟩
  · exact filed
  · exact (grants_seats.makeState w state).trans filed

theorem goes_settlingSeats (x : Value) : Act.Goes cut (Seats m (n + 1)) (E.setInitial n x) :=
  fun w => Engine.goesFrom_setInitial (goes_addingSeats hE x {} w) (fun _ _ =>
    steps_kept (fun hn => kept_updateMachine hn (fun _ => rfl)))

omit hE in
theorem goes_definitionsSeats (definitions : Value) : Act.Goes cut (Seats m (n + 1)) (connectDefinitions n definitions) := by
  refine .forM (fun d _ => .advance (fun u v h => ?_))
  obtain ⟨trigger, source, dest, hooks, -, connected⟩ := connectDefinition_cases h
  exact grants_seats.connect rfl connected

/-- Who is bound has not been so when he was to be; he has taken up the conventions and been placed, and then joins. -/
theorem goes_bindingSeats (chosen x : Value) : Act.Goes cut (Seats m (n + 1)) (E.bindModel n chosen x) := by
  refine fun w => .get_bind ?_
  split
  · exact Goes.pure _ w
  · rename_i unbound
    have ahead : GoesFrom cut (Seats m (n + 1)) w (E.bindToStates n x >>= fun _ => Engine.place n chosen x) :=
      Goes.bind (Engine.goes_bindToStates grants_seats (fun name => hE.readAttribute x name))
        (fun _ => goes_settingDown n chosen x) w
    simp only [← bind_assoc]
    intro ended
    rw [bind_apply] at ended ⊢
    rcases hx : (E.bindToStates n x >>= fun _ => Engine.place n chosen x) w with ⟨e | _, v⟩
    · rw [hx] at ended
      unfold GoesFrom at ahead
      rw [hx] at ahead
      exact ahead (fun he => ended (congrArg Except.error (Except.error.inj he)))
    · have steps := ahead.steps_of_ok hx
      refine steps_seats (fun housed hn => ?_)
      obtain ⟨⟨count, trailed⟩, housed'⟩ := trail_of_steps steps housed hn
      refine ⟨⟨count, fun hm => ?_⟩, housed_join housed' n x⟩
      obtain ⟨more, trail⟩ := trailed hm
      by_cases hnm : n = m
      · subst hnm
        exact ⟨_, .joined (.begun w) (by simpa using unbound) trail⟩
      · exact ⟨more, .kept trail (seatKept_join (Nat.lt_of_lt_of_le hn count) hnm x)⟩

theorem goes_enlistingSeats (models initial : Value) : Act.Goes cut (Seats m (n + 1)) (E.bindModels n models initial) :=
  Engine.goes_bindModels (fun chosen x _ => goes_bindingSeats hE chosen x) initial

omit hE in
theorem goes_unbindingSeats (models : Value) : Act.Goes cut (Seats m (n + 1)) (Engine.unbindModels n models) := by
  refine .forM (fun x _ => .change (fun u => steps_seats (fun housed hn =>
    ⟨⟨Nat.le_of_eq (count_leave hn x).symm, fun _ => ?_⟩, housed_leave housed hn x⟩)))
  by_cases hnm : n = m
  · subst hnm
    exact ⟨_, .left (.begun u) x⟩
  · exact ⟨[], .kept (.begun u) (seatKept_leave hn hnm x)⟩

end Registering

section Performing

variable (hE : E.Goes cut (Seats m 0))

include hE

theorem goesFrom_makingSeats {plan : Blueprint} : GoesFrom cut (Seats m 0) w (E.create plan) := by
  refine .under (fun ⟨housed, _⟩ => Engine.goesFrom_create (fun n v made => ?_))
  obtain ⟨housed', count, rfl, kept⟩ := housed_makeMachine made housed
  refine ⟨steps_seats (fun _ _ => ⟨⟨by omega, fun hm => ⟨[], .kept (.begun w) (kept m hm)⟩⟩, housed'⟩), ?_⟩
  have hE' := hE.seats (w.machines.next + 1)
  refine goesFrom_seats (Nat.le_of_eq count.symm) ?_
  exact Engine.goes_furnish (goes_addingSeats hE' _ {}) (goes_settlingSeats hE' _) (goes_definitionsSeats _)
    (goes_connectRow grants_seats rfl) (goes_enlistingSeats hE' _ _) v

/-- Every operation on machines that have been made leaves a trail, however it ends. -/
theorem goesFrom_addresses {op : Operation} (h : w.Addresses op) : GoesFrom cut (Seats m 0) w (E.perform op) := by
  have answered {α β : Type} {y : Run α} {f : α → β} (h : GoesFrom cut (Seats m 0) w y) :
      GoesFrom cut (Seats m 0) w (y >>= fun a => pure (f a)) := h.bind (fun _ v _ => Goes.pure _ v)
  have beside {u v : World} (h : Kept u v) : ReflTransGen (Seats m 0) u v := steps_kept (fun _ => h)
  cases op with
  | create name plan =>
    refine GoesFrom.bind (goesFrom_makingSeats hE) (fun n u _ => Goes.bind (.change (fun u => ?_)) (fun _ => .pure _) u)
    exact beside (kept_beside rfl rfl rfl)
  | writeAttribute owner name a =>
    exact answered (Goes.advance (fun u v hv => beside (kept_noted (.writeAttribute hv))) w)
  | dropAttribute owner name =>
    exact answered (Goes.advance (fun u v hv => beside (kept_noted (.dropAttribute hv))) w)
  | bindModels n models initial => exact answered (goesFrom_seats h (goes_enlistingSeats (hE.seats (n + 1)) models initial w))
  | unbindModels n models => exact answered (goesFrom_seats h (goes_unbindingSeats models w))
  | place n state models => exact answered (goes_settingDown n state models w)
  | addStates n states options => exact answered (goesFrom_seats h (goes_addingSeats (hE.seats (n + 1)) states options w))
  | setInitial n x =>
    refine GoesFrom.bind (goesFrom_seats h (goes_settlingSeats (hE.seats (n + 1)) x w)) (fun _ u _ => ?_)
    exact .get_bind (Goes.pure _ u)
  | assign n setting x =>
    refine GoesFrom.bind (goesFrom_seats h (Goes.change (fun u => steps_kept (fun hn => ?_)) w)) (fun _ u _ =>
      .get_bind (Goes.pure _ u))
    exact kept_updateMachine hn (fun _ => by cases setting <;> rfl)
  | connect n trigger source dest hooks => exact answered (goesFrom_seats h (goes_connect grants_seats rfl _ _ _ w))
  | connectAll n definitions => exact answered (goesFrom_seats h (goes_definitionsSeats definitions w))
  | connectRow n row => exact answered (goesFrom_seats h (goes_connectRow grants_seats rfl w))
  | disconnect n trigger source dest =>
    exact answered (goesFrom_seats h (Goes.advance (fun u v hv => steps_kept (fun hn => kept_disconnect hn hv)) w))
  | hookEvent n trigger stage c =>
    refine answered (Goes.advance (fun u v hv => steps_hookEvent_of (fun u t st => ?_) hv) w)
    exact beside (kept_beside rfl rfl rfl)
  | hookTransition t stage c =>
    refine answered (Goes.advance (fun u v hv => ?_) w)
    unfold World.hookTransition at hv
    split at hv
    · cases hv
      exact beside (kept_beside rfl rfl rfl)
    · cases hv
  | adopt n trigger t => exact answered (Goes.advance (fun u v hv => beside (kept_adopt hv)) w)
  | trigger n y name args named => exact answered (goes_triggeringSeats hE n y name args named w)
  | triggerAll n name args named =>
    refine answered ?_
    unfold Engine.triggerAll
    split
    · exact Goes.fail _ w
    · exact .get_bind (Engine.goes_triggerEach (fun u y _ => goes_triggeringSeats hE n y name args named u) _ _ _ w)
  | submit n c => exact answered (goesFrom_submittingSeats hE h (.call c))
  | execute t i => exact GoesFrom.bind (goes_executingSeats hE t i w) (fun _ u _ => .get_bind (Goes.pure _ u))
  | update i state =>
    refine .get_bind (.ask_bind (fun s _ => GoesFrom.bind (Goes.change (fun u => ?_) w) (fun _ u _ => Goes.view _ u)))
    exact beside (kept_beside rfl rfl rfl)
  | makeState | makeTransition | findState | currentState | isIn | hookState | hasHook | select | triggersFrom
  | pending | ignoreFlag | overview | makeFiring | check | runStage | runCallbacks | resolve | describe =>
    refine hE.perform grants_idle ?_ w
    trivial

end Performing

/-- Callbacks that ask for nothing of machines that have not been made leave trails. -/
theorem seats_ofHost {host : Host} (h : host.Asks Addresses) (bound depth : Nat) :
    (Engine.ofHost host bound depth).Goes True (Seats m 0) :=
  Engine.goes_ofHost grants_idle.log h bound (fun _ hE _ _ hop => goesFrom_addresses hE hop) depth

end StateEngine
