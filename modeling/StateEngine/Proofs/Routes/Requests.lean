import StateEngine.Proofs.Routes.Tending

/-! Operations keep the routes of a machine complete, whatever callbacks do meanwhile, if none of them deals with the
triggers that lead to its states and the machine goes on connecting new states. -/
namespace StateEngine
open Act Relation World

namespace World

/-- What may be asked for where the routes of a machine are to be complete. The machine is made with the setting to
connect its states and keeps it; the triggers that lead to states are left to it; no transition is filed or carried out
by hand, and no firing is put into another state. -/
def Admits (m : MachineId) (w : World) : Operation → Prop
  | .create _ plan => w.machines.next = m → plan.options.autoTransitions.truthy = true ∧
      ∀ definition ∈ plan.transitions.items, ∀ trigger, definition.Defines trigger → ¬ trigger.Aims
  | .assign n setting v => n = m → setting = .autoTransitions → v.truthy = true
  | .connect n trigger .. | .disconnect n trigger .. | .hookEvent n trigger .. => n = m → ¬ trigger.Aims
  | .connectAll n definitions =>
    n = m → ∀ definition ∈ definitions.items, ∀ trigger, definition.Defines trigger → ¬ trigger.Aims
  | .connectRow n row => n = m → ¬ row.trigger.Aims
  | .hookTransition t .. => ∀ b e, (w.machine m).events.find? (toTrigger b) = some e → ¬ w.Filed e t
  | .adopt .. | .execute .. | .update .. => False
  | _ => True

end World

variable {host : Host} {m n : MachineId} {j : Option FiringId} {w : World} {E : Engine}

theorem aside_tending {w v : World} (h : Noted w v) (hf : v.firings = w.firings) :
    ReflTransGen (Tending host m j) w v :=
  steps_bypassing (fun _ => bypasses_aside h.aside h.properties) hf

theorem noted_tending {w v : World} (h : Noted w v) : ReflTransGen (Tending host m j) w v :=
  aside_tending h (by rw [h.rest])

theorem tuned_tending {f : Machine → Machine} (hf : Tunes f)
    (ha : n = m → (w.machine m).autoTransitions.truthy = true → (f (w.machine m)).autoTransitions.truthy = true) :
    ReflTransGen (Tending host m j) w (w.updateMachine n f) := steps_bypassing (fun _ => bypasses_tune hf ha) rfl

theorem goes_placed (state models : Value) : Act.Goes False (Tending host m j) (Engine.place n state models) :=
  (Goes.of_walks (noted_place n state models)).mono (fun _ _ h => noted_tending h)

section Firing

variable (hE : E.Goes False (Tending host m j))

include hE

theorem goes_fireRouted (e : EventId) (y : Value) (args : List Value) (named : Named) :
    Act.Goes False (Tending host m j) (E.fireNow e y args named) := by
  refine fun w => hE.fireNow (fun v s firing _ => .under (fun hv => ?_))
  -- the firing is a new one, so it is not the one that is kept
  have new : v.firings.next ∉ j := fun hj => Nat.lt_irrefl _ (hv.opened _ hj)
  have note (u : World) (f : Firing → Firing) : ReflTransGen (Tending host m j) u (u.updateFiring v.firings.next f) :=
    steps_updateFiring new u f
  refine .set_bind (steps_openFiring v firing) (Engine.Goes.processFiring (fun u f _ => note u f) hE (fun t u => ?_)
    (fun h => grants_tending.fileSource h) _)
  exact hE.execute (Engine.goes_relocate_of (fun u => goes_placed _ _ u) (fun u d => note u _))

theorem goes_submitRouted (n : MachineId) (task : Task) : Act.Goes False (Tending host m j) (E.submit n task) := by
  refine .get_bind (fun w => Line.Setting.goes_submit (fun task => ?_) (fun line u => ?_)
    (fun message => .change (fun u => ?_)) task w)
  · cases task with
    | fire e y args named => exact goes_fireRouted hE e y args named
    | call callback => exact hE.apply _ _
  · exact tuned_tending (fun _ => ⟨rfl, rfl, rfl⟩) (fun _ h => h)
  · exact grants_tending.log (logged_record u _)

theorem goes_triggerRouted (n : MachineId) (y name : Value) (args : List Value) (named : Named) :
    Act.Goes False (Tending host m j) (E.trigger n y name args named) :=
  fun _ => hE.trigger (fun _ _ => goes_submitRouted hE _ _ _)

theorem goes_bindRouted (chosen y : Value) : Act.Goes False (Tending host m j) (E.bindModel n chosen y) := by
  refine .bind .get (fun w => .ite (.pure _) (.bind ?_ (fun _ => .bind (goes_placed _ _) (fun _ => .change (fun u => ?_)))))
  · exact Engine.goes_bindToStates grants_tending (fun name => hE.readAttribute _ name)
  · exact steps_bypassing (fun _ => bypasses_aside ⟨rfl, rfl, rfl, rfl⟩ (fun _ => rfl)) rfl

end Firing

theorem goes_definitionsRouted {definitions : Value}
    (h : n = m → ∀ definition ∈ definitions.items, ∀ trigger, definition.Defines trigger → ¬ trigger.Aims) :
    Act.Goes False (Tending host m j) (connectDefinitions n definitions) := by
  refine .forM (fun d hd => .advance (fun u v hv => ?_))
  obtain ⟨trigger, source, dest, hooks, defines, connected⟩ := connectDefinition_cases hv
  exact grants_tending.connect (fun hn => h hn d hd trigger defines) connected

/-- The transitions of a trigger are no routes if it leads to no state of the machine. -/
theorem steps_hookedEvent {trigger stage : Value} {c : Callback} (hw : w.Reachable) (h : n = m → ¬ trigger.Aims)
    {v : World} (hv : w.hookEvent n trigger stage c = .ok v) : ReflTransGen (Tending host m j) w v := by
  obtain ⟨e', listed, hv⟩ := ok_of_bind hv
  have others {b : String} {e : EventId} {t : TransitionId} (found : (w.machine m).events.find? (toTrigger b) = some e)
      (ht : t ∈ (w.events.get e').candidates.values.flatten) : ¬ w.Filed e t := by
    obtain ⟨ts, hts, ht⟩ := List.mem_flatten.mp ht
    obtain ⟨x, hx, rfl⟩ := List.mem_map.mp hts
    have hne := hw.event_unique found (find?_of_eventOf listed).2 (fun hn hb => h hn ⟨b, hb⟩)
    exact fun filed => hne (hw.sorted.once e' e t ⟨x, hx, ht⟩ filed)
  have each (st : TransitionStage) (ts : List TransitionId)
      (hts : ∀ t ∈ ts, t ∈ (w.events.get e').candidates.values.flatten) (u : World) (he : u.events = w.events)
      (hm : u.machine m = w.machine m) : ReflTransGen (Tending host m j) u
        (ts.foldl (fun w t => w.updateTransition t (·.addCallback c st)) u) := by
    induction ts generalizing u with
    | nil => exact .refl
    | cons t ts ih =>
      refine .trans (steps_bypassing (fun _ => bypasses_hookTransition (fun b e found filed => ?_) c st) rfl)
        (ih (fun t ht => hts t (List.mem_cons_of_mem _ ht)) _ he hm)
      rw [hm] at found
      obtain ⟨x, hx, ht⟩ := filed
      exact others found (hts t List.mem_cons_self) ⟨x, he ▸ hx, ht⟩
  simp only [] at hv
  split at hv
  · cases hv
    exact .refl
  · cases hv
    exact each _ _ (fun _ ht => ht) w rfl rfl
  · cases hv

section Registering

variable {bound depth : Nat} (hE : (Engine.ofHost host bound depth).Goes False (Tending host m j))

include hE

theorem goes_addAnywhere (options : StateOptions) (entry : Value) :
    Act.Goes False (Tending host m j) ((Engine.ofHost host bound depth).addState n options entry) := by
  by_cases hn : n = m
  · subst hn
    exact Engine.goes_addRouted options entry
  · refine hE.addState grants_tending (fun {w v options entry s} h => ?_) (fun _ hnm => absurd hnm hn) options entry
    obtain ⟨u, hu, hk, hnew, rfl⟩ := enroll_cases h
    have filed : ReflTransGen (Tending host m j) u _ :=
      steps_bypassing (fun _ => bypasses_enroll (s := s) hn hk hnew) rfl
    rcases stateOf_cases hu with ⟨-, rfl⟩ | ⟨state, -, rfl⟩
    · exact filed
    · exact (grants_tending.makeState w state).trans filed

theorem goes_addAllRouted (states : Value) (options : StateOptions) :
    Act.Goes False (Tending host m j) ((Engine.ofHost host bound depth).addStates n states options) :=
  .forM (fun entry _ => goes_addAnywhere hE options entry)

theorem goes_settleRouted (x : Value) :
    Act.Goes False (Tending host m j) ((Engine.ofHost host bound depth).setInitial n x) :=
  fun w => Engine.goesFrom_setInitial (goes_addAllRouted hE x {} w)
    (fun _ _ => tuned_tending (fun _ => ⟨rfl, rfl, rfl⟩) (fun _ h => h))

theorem goesFrom_createRouted {name : String} {plan : Blueprint} (h : w.Admits m (.create name plan)) :
    GoesFrom False (Tending host m j) w ((Engine.ofHost host bound depth).create plan) := by
  refine Engine.goesFrom_create (fun n v made => ?_)
  obtain ⟨machine, ledgers, hn, -, -, -, -, hv⟩ := makeMachine_cases made
  subst hn
  refine ⟨steps_bypassing (fun _ => bypasses_makeMachine (fun hn => (h hn).1) made) (by rw [hv]), ?_⟩
  refine Engine.goes_furnish (goes_addAllRouted hE _ {}) (goes_settleRouted hE _)
    (goes_definitionsRouted (fun hn => (h hn).2)) (goes_connectRow grants_tending (fun _ aims => ?_))
    (Engine.goes_bindModels (fun chosen y _ => goes_bindRouted hE chosen y) _) v
  obtain ⟨b, hb⟩ := aims
  -- the trigger of the row through all states begins with another letter
  have first := congrArg (fun s : String => s.toList.head?) (Option.some.inj hb)
  simp at first

/-- An operation that is admitted keeps the routes of a machine complete. -/
theorem goesFrom_admits {op : Operation} (h : w.Admits m op) :
    GoesFrom False (Tending host m j) w ((Engine.ofHost host bound depth).perform op) := by
  have answered {α : Type} {y : Run α} {f : α → Reply} (h : GoesFrom False (Tending host m j) w y) :
      GoesFrom False (Tending host m j) w (y >>= fun a => pure (f a)) := h.bind (fun _ v _ => Goes.pure _ v)
  cases op with
  | create name plan =>
    refine GoesFrom.bind (goesFrom_createRouted hE h) (fun n u _ => Goes.bind (.change (fun u => ?_)) (fun _ => .pure _) u)
    exact noted_tending ⟨rfl, fun _ => rfl⟩
  | writeAttribute owner name a =>
    exact answered (Goes.advance (fun _ _ hv => noted_tending (.writeAttribute hv)) w)
  | dropAttribute owner name => exact answered (Goes.advance (fun _ _ hv => noted_tending (.dropAttribute hv)) w)
  | bindModels n models initial =>
    exact answered (Engine.goes_bindModels (fun chosen y _ => goes_bindRouted hE chosen y) initial w)
  | unbindModels n models =>
    refine answered (Goes.forM (fun y _ => .change (fun u => ?_)) w)
    have pushed : ReflTransGen (Tending host m j) u { u with
        rosters := u.rosters.push ((u.boundModels n).filter (fun x => !x.same y)) } :=
      steps_bypassing (fun _ => bypasses_aside ⟨rfl, rfl, rfl, rfl⟩ (fun _ => rfl)) rfl
    exact pushed.trans (tuned_tending (fun _ => ⟨rfl, rfl, rfl⟩) (fun _ h => h))
  | place n state models => exact answered (goes_placed state models w)
  | addStates n states options => exact answered (goes_addAllRouted hE states options w)
  | setInitial n x =>
    exact GoesFrom.bind (goes_settleRouted hE x w) (fun _ u _ => .get_bind (Goes.pure _ u))
  | assign n setting x =>
    refine GoesFrom.bind (Goes.change (fun u => ?_) w) (fun _ u _ => .get_bind (Goes.pure _ u))
    refine tuned_tending (fun _ => ?_) (fun hn auto => ?_)
    · cases setting <;> exact ⟨rfl, rfl, rfl⟩
    · cases setting with
      | autoTransitions => exact h hn rfl
      | _ => exact auto
  | connect n trigger source dest hooks => exact answered (goes_connect grants_tending h _ _ _ w)
  | connectAll n definitions => exact answered (goes_definitionsRouted h w)
  | connectRow n row => exact answered (goes_connectRow grants_tending h w)
  | disconnect n trigger source dest =>
    refine answered (Goes.advance (fun u v hv => steps_bypassing (fun hu => bypasses_disconnect hu h hv) ?_) w)
    rw [(relisted_disconnect hv).rest]
  | hookEvent n trigger stage c =>
    refine answered (.under (fun hw => .of_steps ?_))
    cases hv : w.hookEvent n trigger stage c with
    | error f => rw [advance_error hv]
    | ok v =>
      rw [advance_ok hv]
      exact steps_hookedEvent hw.reachable h hv
  | hookTransition t stage c =>
    refine answered (.of_steps ?_)
    cases hv : w.hookTransition t stage c with
    | error f => rw [advance_error hv]
    | ok v =>
      rw [advance_ok hv]
      unfold World.hookTransition at hv
      split at hv
      · cases hv
        exact steps_bypassing (fun _ => bypasses_hookTransition h c _) rfl
      · cases hv
  | trigger n y name args named => exact answered (goes_triggerRouted hE n y name args named w)
  | triggerAll n name args named =>
    refine answered ?_
    unfold Engine.triggerAll
    split
    · exact Goes.fail _ w
    · exact .get_bind (Engine.goes_triggerEach (fun u y _ => goes_triggerRouted hE n y name args named u) _ _ _ w)
  | submit n c => exact answered (goes_submitRouted hE n (.call c) w)
  | adopt | execute | update => exact h.elim
  | makeState | makeTransition | findState | currentState | isIn | hookState | hasHook | select | triggersFrom
  | pending | ignoreFlag | overview | makeFiring | check | runStage | runCallbacks | resolve | describe =>
    refine hE.perform grants_tending ?_ w
    trivial

end Registering

end StateEngine
