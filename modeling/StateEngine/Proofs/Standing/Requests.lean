import StateEngine.Proofs.Standing.Basic
import StateEngine.Proofs.Registry.Upkeep

/-! Operations leave every bound model in a registered state, whatever callbacks do meanwhile and however they end, if
no state object is handed in for a state that the machine has not registered. -/
namespace StateEngine
open Act Relation World

variable {E : Engine} {cut : Prop} {m n : MachineId} {I J : World → Prop} {w v : World}

/-- Steps that keep the models bound to a machine in registered states, and something that holds of the world. -/
abbrev Lasting (m : MachineId) (I : World → Prop) : World → World → Prop := Under (fun w => Standing m w ∧ I w) Changes

namespace World

theorem steps_lasting (hI : Stable I) (h : Standing m w → I w → Changes w v ∧ Standing m v) :
    ReflTransGen (Lasting m I) w v :=
  .single (fun hw => ⟨(h hw.1 hw.2).1, (h hw.1 hw.2).2, hI _ _ (h hw.1 hw.2).1 hw.2⟩)

theorem steps_undisturbed (hI : Stable I) (h : I w → Undisturbed m w v) : ReflTransGen (Lasting m I) w v :=
  steps_lasting hI (fun hw hi => ⟨(h hi).changes, (h hi).standing hw⟩)

theorem lasting_narrow (hJ : Stable J) (hJI : ∀ w, J w → I w) (h : Lasting m I w v) : Lasting m J w v := fun hw =>
  ⟨(h ⟨hw.1, hJI _ hw.2⟩).1, (h ⟨hw.1, hJI _ hw.2⟩).2.1, hJ _ _ (h ⟨hw.1, hJI _ hw.2⟩).1 hw.2⟩

/-- All that makes more of everything lasts, connections of machines that have been made included. -/
theorem grants_lasting_of {K : MachineId → Value → Prop} (hI : Stable I)
    (hK : ∀ k trigger w, K k trigger → I w → k < w.machines.next) : Grants K (Lasting m I) where
  log h := steps_undisturbed hI (fun _ => undisturbed_aside ⟨by rw [h], by rw [h], by rw [h], by rw [h]⟩ (by rw [h])
    (by rw [h]) (by rw [h]))
  makeState w s := steps_undisturbed hI (fun _ =>
    undisturbed_of_rests (fun _ => .of_same (.makeState w s) rfl rfl (fun _ => rfl)) rfl rfl (fun _ => ⟨rfl, rfl⟩))
  hookState w s c stage := steps_undisturbed hI (fun _ =>
    undisturbed_of_rests (fun _ => .of_same (.hookState w s c stage) rfl rfl (fun _ => rfl)) rfl rfl
      (fun _ => ⟨rfl, rfl⟩))
  makeTransition w t := steps_undisturbed hI (fun _ =>
    undisturbed_of_rests (fun _ => .of_same (.makeTransition w t) rfl rfl (fun _ => rfl)) rfl rfl
      (fun _ => ⟨rfl, rfl⟩))
  connect hk h := steps_undisturbed hI (fun hi => undisturbed_connect (hK _ _ _ hk hi) h)
  fileSource h := steps_undisturbed hI (fun _ =>
    undisturbed_of_rests (fun _ => .of_same (.fileSource h) rfl rfl (fun _ => rfl)) rfl rfl (fun _ => ⟨rfl, rfl⟩))
  openFiring _ _ := steps_undisturbed hI (fun _ => undisturbed_aside ⟨rfl, rfl, rfl, rfl⟩ rfl rfl rfl)

theorem grants_lasting (hI : Stable I) (hn : ∀ w, I w → n < w.machines.next) :
    Grants (fun k _ => k = n) (Lasting m I) := grants_lasting_of hI (fun _ _ w hk hi => hk ▸ hn w hi)

end World

/-- A computation lasts that does so where something holds on which it rests. -/
theorem goesFrom_widen {α : Type} {y : Run α} (hI : Stable I) (hw : Standing m w → I w → J w)
    (h : GoesFrom cut (Lasting m J) w y) : GoesFrom cut (Lasting m I) w y := by
  refine .single (fun ended hs => ?_)
  obtain ⟨steps, standing, -⟩ := Under.steps (h ended) ⟨hs.1, hw hs.1 hs.2⟩
  have changes : Changes w (y w).2 := by rwa [reflTransGen_eq_self] at steps
  exact ⟨changes, standing, hI _ _ changes hs.2⟩

theorem Engine.Goes.narrow (hE : E.Goes cut (Lasting m I)) (hJ : Stable J) (hJI : ∀ w, J w → I w) :
    E.Goes cut (Lasting m J) := hE.mono (fun _ _ h => .single (lasting_narrow hJ hJI h))

section Placing

/-- Placing models by a reference that fits. -/
theorem goesFrom_placing (hI : Stable I) {state models : Value} (h : I w → Fits m n state w) :
    GoesFrom cut (Lasting m I) w (Engine.place n state models) := by
  refine .ask_bind (fun s hs => .get_bind ?_)
  refine goesFrom_widen (J := Suits m n (w.states.get s).value) hI (fun hw hi => suits_of_fits hw.reachable (h hi) hs) ?_
  refine .forM (fun y _ u => .of_steps (steps_lasting (stable_suits _ _ _) (fun hu suits => ?_)))
  refine ⟨?_, standing_writeState hu suits⟩
  have written := written_writeState n y (w.states.get s).value u
  exact Aside.steps (by rw [show (Engine.writeState n y _ u).2 = _ from written]; exact ⟨rfl, rfl, rfl, rfl⟩)

theorem goes_placing (hI : Stable I) {state models : Value} (h : ∀ w, I w → Fits m n state w) :
    Act.Goes cut (Lasting m I) (Engine.place n state models) := fun w => goesFrom_placing hI (h w)

theorem goes_relocating (hI : Stable I) {dest : Value} (h : ∀ w, I w → Fits m n dest w) (i : FiringId) :
    Act.Goes cut (Lasting m I) (Engine.relocate n dest i) :=
  Engine.goes_relocate_of (fun _ => goes_placing hI h _)
    (fun _ _ => steps_undisturbed hI (fun _ => undisturbed_aside ⟨rfl, rfl, rfl, rfl⟩ rfl rfl rfl))

end Placing

section Firing

variable (hE : E.Goes cut (Lasting m (fun _ => True)))

include hE

/-- Where a transition leads is a fitting reference, as long as no transition leads to a state object. -/
theorem goes_executing (t : TransitionId) (i : FiringId) : Act.Goes cut (Lasting m (fun _ => True)) (E.execute t i) := by
  intro w
  have stable := stable_fits m (w.firings.get i).machine (w.transitions.get t).dest
  refine goesFrom_widen (J := Fits m (w.firings.get i).machine (w.transitions.get t).dest) stable_true (fun _ _ ht s hs => absurd hs (ht.dests t s)) ?_
  exact (hE.narrow stable (fun _ _ => trivial)).execute (goes_relocating stable (fun _ h => h) i)

theorem goes_firing (e : EventId) (y : Value) (args : List Value) (named : Named) :
    Act.Goes cut (Lasting m (fun _ => True)) (E.fireNow e y args named) := by
  refine fun w => hE.fireNow (fun v s firing _ => .set_bind ?_ (Engine.Goes.processFiring (fun u f hf => ?_) hE
    (fun t => goes_executing hE t _) (fun h => ?_) _))
  · exact steps_undisturbed stable_true (fun _ => undisturbed_aside ⟨rfl, rfl, rfl, rfl⟩ rfl rfl rfl)
  · exact steps_undisturbed stable_true (fun _ => undisturbed_aside ⟨rfl, rfl, rfl, rfl⟩ rfl rfl rfl)
  · exact steps_undisturbed stable_true (fun _ =>
      undisturbed_of_rests (fun _ => .of_same (.fileSource h) rfl rfl (fun _ => rfl)) rfl rfl (fun _ => ⟨rfl, rfl⟩))

theorem goesFrom_submitting (hn : n < w.machines.next) (task : Task) :
    GoesFrom cut (Lasting m (fun _ => True)) w (E.submit n task) := by
  refine goesFrom_widen (J := fun w => n < w.machines.next) stable_true (fun _ _ => hn) (.get_bind ?_)
  have stable := stable_made n
  refine Line.Setting.goes_submit (R := Lasting m (fun w => n < w.machines.next)) (fun task => ?_) (fun line u => ?_)
    (fun message => .change (fun u => ?_)) task _
  · have ran : Act.Goes cut (Lasting m (fun _ => True)) (E.runTask task) := by
      cases task with
      | fire e y args named => exact goes_firing hE e y args named
      | call callback => exact hE.apply _ _
    exact ran.mono (fun _ _ h => .single (lasting_narrow stable (fun _ _ => trivial) h))
  · exact steps_undisturbed stable (fun made => undisturbed_tune made (fun _ => ⟨rfl, rfl, rfl⟩) (fun _ => ⟨rfl, rfl⟩))
  · exact (grants_lasting stable (fun _ h => h)).log (logged_record u _)

theorem goes_triggering (n : MachineId) (y name : Value) (args : List Value) (named : Named) :
    Act.Goes cut (Lasting m (fun _ => True)) (E.trigger n y name args named) := by
  refine fun w => hE.trigger (fun e he => .under (fun hw => goesFrom_submitting hE ?_ _))
  have found : (w.machine n).events.find? name = some e := by
    unfold eventOf? at he
    split at he
    · exact Except.ok.inj he
    · cases he
  obtain ⟨k, -, hmem⟩ := Table.mem_of_find? found
  rw [(hw.1.reachable.regular.owned n _ hmem).2]
  refine Nat.lt_of_not_le (fun hle => ?_)
  rw [World.machine, Heap.get_of_next_le hle] at hmem
  cases hmem

end Firing

section Registering

variable (hI : Stable I) (hn : ∀ w, I w → n < w.machines.next) (hE : E.Goes cut (Lasting m I))

include hI hn hE

theorem goes_adding (options : StateOptions) (entry : Value) :
    Act.Goes cut (Lasting m I) (E.addState n options entry) := by
  refine hE.addState (grants_lasting hI hn) (fun {w v options entry s} h => ?_) (fun _ => rfl) options entry
  obtain ⟨u, hu, hk, hnew, rfl⟩ := enroll_cases h
  have filed : ReflTransGen (Lasting m I) u _ :=
    steps_undisturbed hI (fun hi => undisturbed_enroll (s := s) (hn _ hi) hk hnew)
  rcases stateOf_cases hu with ⟨-, rfl⟩ | ⟨state, -, rfl⟩
  · exact filed
  · exact ((grants_lasting hI hn).makeState w state).trans filed

theorem goes_addingAll (states : Value) (options : StateOptions) :
    Act.Goes cut (Lasting m I) (E.addStates n states options) :=
  .forM (fun entry _ => goes_adding hI hn hE options entry)

/-- What a machine settles on is a registered name, so that of a state object only where states have such names. -/
theorem goes_settlingOn (hC : E.Walks Change) (x : Value) : Act.Goes cut (Lasting m I) (E.setInitial n x) := by
  refine fun w => Engine.goesFrom_setInitial (goes_addingAll hI hn hE x {} w) (fun u hu => ?_)
  refine steps_lasting hI (fun hs hi => ?_)
  have tuned : Change u (u.updateMachine n (fun machine => { machine with initial := w.nameOf x })) :=
    .tune u n (fun _ => ⟨rfl, rfl, rfl⟩)
  refine ⟨.single tuned, standing_initial hs (hn u hi) (fun hnm hp s hname => ?_)⟩
  subst hnm
  -- only a state object can give another one for its name
  obtain ⟨d, rfl⟩ : ∃ d, x = .state d := by
    cases x with
    | state d => exact ⟨d, rfl⟩
    | _ => cases hname
  have key : w.nameOf (.state d) ∈ (u.machine n).states.keys := by
    rcases hu with added | ⟨rfl, known⟩
    · exact (Engine.key_addStates hC (x := .state d) trivial added).resolve_left nofun
    · exact key_of_contains hp known
  obtain ⟨a, ha⟩ := hp _ key
  rw [hname] at ha
  cases ha

omit hE in
theorem goes_definitions (definitions : Value) : Act.Goes cut (Lasting m I) (connectDefinitions n definitions) := by
  refine .forM (fun d _ => .advance (fun u v h => ?_))
  obtain ⟨trigger, source, dest, hooks, -, connected⟩ := connectDefinition_cases h
  exact (grants_lasting hI hn).connect rfl connected

/-- A model joins the roster after it has been placed, so it is in a registered state. -/
theorem goes_binding {chosen : Value} (hf : ∀ w, I w → Fits m n chosen w) (x : String) :
    Act.Goes cut (Lasting m I) (E.bindModel n chosen (.model x)) := by
  refine .bind .get (fun w => .ite (.pure _) (.bind ?_ (fun _ u => .under (fun hu => ?_))))
  · exact Engine.goes_bindToStates (grants_lasting hI hn) (fun name => hE.readAttribute _ name)
  · refine GoesFrom.bind (goes_placing hI hf u) (fun _ t placed => .of_steps ?_)
    obtain ⟨s, found, held, written⟩ := holds_of_place placed
    have aside : Aside u t := by
      rw [show t = _ from written]
      exact ⟨rfl, rfl, rfl, rfl⟩
    have joined : Aside t { t with rosters := t.rosters.modify (t.machine n).roster (· ++ [.model x]) } :=
      ⟨rfl, rfl, rfl, rfl⟩
    refine steps_lasting hI (fun ht hi => ⟨joined.steps, standing_join ht (hn t hi) (fun hnm sheltered => ?_)⟩)
    subst hnm
    obtain ⟨-, known⟩ := suits_of_fits hu.1.reachable (hf u hu.2) found (sheltered.toTextual.earlier aside.steps)
    obtain ⟨d, b, same, named, found⟩ := known rfl
    refine ⟨x, b, d, rfl, ?_, aside.steps.lookup_text found, ?_⟩
    · rw [aside.states]
      exact named
    · rw [aside.states, ← same]
      exact held

theorem goesFrom_bindingAll {models initial : Value} (hmodels : ∀ y ∈ models.items, ∃ x, y = .model x)
    (hf : I w → Fits m n initial w) : GoesFrom cut (Lasting m I) w (E.bindModels n models initial) := by
  refine .under (fun hw => Engine.goesFrom_bindModels (fun chosen hchosen => ?_))
  have fits : Fits m n chosen w := by
    rcases hchosen with rfl | rfl
    · exact hf hw.2
    · intro ht s hs
      refine ⟨hn w hw.2, fun hnm => ?_⟩
      subst hnm
      exact absurd hs (hw.1.initial ht.names s)
  have stable := hI.and (stable_fits m n chosen)
  refine goesFrom_widen (J := fun u => I u ∧ Fits m n chosen u) hI (fun _ hi => ⟨hi, fits⟩) (.forM (fun y hy => ?_))
  obtain ⟨x, rfl⟩ := hmodels y hy
  exact goes_binding stable (fun u h => hn u h.1) (hE.narrow stable (fun _ h => h.1)) (fun _ h => h.2) x

end Registering

namespace World

/-- What may be asked for where the models bound to a machine are to be in registered states. Where the machine keeps
their states nobody else writes; what writes into a machine is asked of one that has been made, and what binds takes
models; and a state object is given for the state of a model only if the machine has registered it. -/
def Minds (m : MachineId) (w : World) : Operation → Prop
  | .writeAttribute owner name _ | .dropAttribute owner name =>
    m < w.machines.next → owner ∈ w.boundModels m → (w.machine m).accessor ≠ .field name
  | .place n state _ => ∀ s, state = .state s → n < w.machines.next ∧ (n = m → w.owns m s = true)
  | .bindModels n models initial => n < w.machines.next ∧ (∀ y ∈ models.items, ∃ x, y = .model x) ∧
      ∀ s, initial = .state s → n = m → w.owns m s = true
  | .create _ plan => ∀ y ∈ plan.models.items, ∃ x, y = .model x
  | .unbindModels n _ | .addStates n .. | .setInitial n _ | .assign n .. | .connect n .. | .connectAll n _
  | .connectRow n _ | .disconnect n .. | .submit n _ => n < w.machines.next
  | .adopt .. => False
  | _ => True

end World

section Performing

variable (hE : E.Goes cut (Lasting m (fun _ => True))) (hC : E.Walks Change)

include hE hC

theorem goesFrom_making {plan : Blueprint} (h : ∀ y ∈ plan.models.items, ∃ x, y = .model x) :
    GoesFrom cut (Lasting m (fun _ => True)) w (E.create plan) := by
  refine Engine.goesFrom_create (fun n v made => ⟨?_, ?_⟩)
  · exact steps_lasting stable_true (fun hw _ => ⟨changes_makeMachine made, standing_makeMachine made hw⟩)
  · have new : n < v.machines.next := by
      obtain ⟨machine, ledgers, rfl, -, -, -, -, rfl⟩ := makeMachine_cases made
      simp
    have stable := stable_made n
    have hn (w : World) (h : n < w.machines.next) := h
    have hE' := hE.narrow (J := fun w => n < w.machines.next) stable (fun _ _ => trivial)
    refine goesFrom_widen (J := fun w => n < w.machines.next) stable_true (fun _ _ => new) ?_
    exact Engine.goes_furnish (goes_addingAll stable hn hE' _ {}) (goes_settlingOn stable hn hE' hC _)
      (goes_definitions stable hn _) (goes_connectRow (grants_lasting stable hn) rfl)
      (fun u => goesFrom_bindingAll stable hn hE' h (fun _ _ s hs => nomatch hs)) v

theorem goesFrom_minds {op : Operation} (h : w.Minds m op) :
    GoesFrom cut (Lasting m (fun _ => True)) w (E.perform op) := by
  have answered {α : Type} {y : Run α} {f : α → Reply} (h : GoesFrom cut (Lasting m (fun _ => True)) w y) :
      GoesFrom cut (Lasting m (fun _ => True)) w (y >>= fun a => pure (f a)) := h.bind (fun _ v _ => Goes.pure _ v)
  -- what writes into a machine rests on its having been made
  have asked {α : Type} {y : Run α} (n : MachineId) (hn : n < w.machines.next)
      (h : GoesFrom cut (Lasting m (fun w => n < w.machines.next)) w y) :
      GoesFrom cut (Lasting m (fun _ => True)) w y := goesFrom_widen stable_true (fun _ _ => hn) h
  have hn (n : MachineId) (w : World) (h : n < w.machines.next) := h
  have hE' (n : MachineId) := hE.narrow (J := fun w => n < w.machines.next) (stable_made n) (fun _ _ => trivial)
  have aside {u v : World} (h : Undisturbed m u v) : ReflTransGen (Lasting m (fun _ => True)) u v :=
    steps_undisturbed stable_true (fun _ => h)
  have attributed {f : World → Except Fault World}
      (h : ∀ v, f w = .ok v → Noted w v ∧
        (m < w.machines.next → ∀ x, .model x ∈ w.boundModels m → Rests m x w v)) :
      GoesFrom cut (Lasting m (fun _ => True)) w (Act.advance f) := by
    refine .of_steps ?_
    cases hf : f w with
    | error e => rw [advance_error hf]
    | ok v =>
      rw [advance_ok hf]
      obtain ⟨noted, rests⟩ := h v hf
      exact steps_lasting stable_true (fun hw _ => ⟨noted.aside.steps, standing_attribute hw noted rests⟩)
  cases op with
  | create name plan =>
    refine GoesFrom.bind (goesFrom_making hE hC h) (fun n u _ => Goes.bind (.change (fun u => ?_)) (fun _ => .pure _) u)
    exact aside (undisturbed_aside ⟨rfl, rfl, rfl, rfl⟩ rfl rfl rfl)
  | writeAttribute owner name a =>
    refine answered (attributed (fun v hv => ⟨.writeAttribute hv, fun hm x hx => rests_writeAttribute ?_ hv⟩))
    exact fun hxo => h hm (hxo ▸ hx)
  | dropAttribute owner name =>
    refine answered (attributed (fun v hv => ⟨.dropAttribute hv, fun hm x hx => rests_dropAttribute ?_ hv⟩))
    exact fun hxo => h hm (hxo ▸ hx)
  | bindModels n models initial =>
    obtain ⟨made, models', owned⟩ := h
    exact answered (asked n made (goesFrom_bindingAll (stable_made n) (hn n) (hE' n) models'
      (fun _ _ s hs => ⟨made, owned s hs⟩)))
  | unbindModels n models =>
    refine answered (asked n h (.forM (fun y _ => .change (fun u => steps_lasting (stable_made n) (fun hu made => ?_)))))
    refine ⟨?_, standing_unbind hu made (fun z hz => (List.mem_filter.mp hz).1)⟩
    exact Step.changes (P := Operation.Checked) (fun _ _ _ h => h) (.unbind u n y)
  | place n state models => exact answered (goesFrom_placing stable_true (fun _ _ s hs => h s hs))
  | addStates n states options =>
    exact answered (asked n h (goes_addingAll (stable_made n) (hn n) (hE' n) states options w))
  | setInitial n x =>
    refine GoesFrom.bind (asked n h (goes_settlingOn (stable_made n) (hn n) (hE' n) hC x w)) (fun _ u _ => ?_)
    exact .get_bind (Goes.pure _ u)
  | assign n setting x =>
    refine GoesFrom.bind (asked n h (Goes.change (fun u => ?_) w)) (fun _ u _ => .get_bind (Goes.pure _ u))
    refine steps_undisturbed (stable_made n) (fun made => undisturbed_tune made (fun _ => ?_) (fun _ => ?_))
    · cases setting <;> exact ⟨rfl, rfl, rfl⟩
    · cases setting <;> exact ⟨rfl, rfl⟩
  | connect n trigger source dest hooks =>
    exact answered (asked n h (goes_connect (grants_lasting (stable_made n) (hn n)) rfl _ _ _ w))
  | connectAll n definitions => exact answered (asked n h (goes_definitions (stable_made n) (hn n) definitions w))
  | connectRow n row =>
    exact answered (asked n h (goes_connectRow (grants_lasting (stable_made n) (hn n)) rfl w))
  | disconnect n trigger source dest =>
    refine answered (asked n h (Goes.advance (fun u v hv => ?_) w))
    exact steps_undisturbed (stable_made n) (fun made => undisturbed_disconnect made hv)
  | hookEvent n trigger stage c =>
    refine answered (Goes.advance (fun u v hv => ?_) w)
    exact steps_hookEvent_of (fun u t st =>
      aside (undisturbed_of_rests (fun x => (rests_hookTransition u t c st).2) rfl rfl (fun _ => ⟨rfl, rfl⟩))) hv
  | hookTransition t stage c =>
    refine answered (Goes.advance (fun u v hv => ?_) w)
    unfold World.hookTransition at hv
    split at hv
    · cases hv
      exact aside (undisturbed_of_rests (fun x => (rests_hookTransition u t c _).2) rfl rfl (fun _ => ⟨rfl, rfl⟩))
    · cases hv
  | adopt n trigger t => exact h.elim
  | trigger n y name args named => exact answered (goes_triggering hE n y name args named w)
  | triggerAll n name args named =>
    refine answered ?_
    unfold Engine.triggerAll
    split
    · exact Goes.fail _ w
    · exact .get_bind (Engine.goes_triggerEach (fun u y _ => goes_triggering hE n y name args named u) _ _ _ w)
  | submit n c => exact answered (goesFrom_submitting hE h (.call c))
  | execute t i => exact GoesFrom.bind (goes_executing hE t i w) (fun _ u _ => .get_bind (Goes.pure _ u))
  | update i state =>
    refine .get_bind (.ask_bind (fun s _ => GoesFrom.bind (Goes.change (fun u => ?_) w) (fun _ u _ => Goes.view _ u)))
    exact aside (undisturbed_aside ⟨rfl, rfl, rfl, rfl⟩ rfl rfl rfl)
  | makeState | makeTransition | findState | currentState | isIn | hookState | hasHook | select | triggersFrom
  | pending | ignoreFlag | overview | makeFiring | check | runStage | runCallbacks | resolve | describe =>
    refine hE.perform (K := fun _ _ => False) (grants_lasting_of stable_true (fun _ _ _ hk => hk.elim)) ?_ w
    trivial

end Performing

end StateEngine
