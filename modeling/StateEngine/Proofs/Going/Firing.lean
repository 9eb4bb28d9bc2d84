import StateEngine.Proofs.Callbacks
import StateEngine.Proofs.Going.Basic

/-! Consulting callbacks, processing a firing and working off a line go by steps of a kind, as long as host code
does and the few places at which the engine itself changes something. -/
namespace StateEngine
open Act Relation

/-- An engine whose calls of host code go by steps of a kind, as entries of the history do. -/
structure Engine.Goes (E : Engine) (cut : Prop) (R : World → World → Prop) : Prop where
  call : ∀ label callback call, Act.Goes cut R (E.call label callback call)
  record : ∀ w entry, ReflTransGen R w (World.record entry w)

/-- Notes in a firing how it goes on, and leaves what it is about. -/
def Firing.Notes (f : Firing → Firing) : Prop :=
  ∀ x, ∃ transition fault result, f x = { x with transition := transition, fault := fault, result := result }

namespace Line.Setting

variable {σ τ : Type} {cut : Prop} {R : σ → σ → Prop} {S : Setting σ τ}

/-- Serving a task goes by steps if its run does, and if it does so to take the task off the line. -/
theorem goesFrom_serve {s : σ} {task : τ} (hrun : GoesFrom cut R s (S.run task))
    (htake : ∀ v t head rest, S.run task s = (.ok v, t) → S.slot.read t = .queued (head :: rest) →
      ReflTransGen R t (S.slot.write (.queued rest) t)) : GoesFrom cut R s (S.serve task) := by
  refine hrun.bind (fun v t ran => .get_bind ?_)
  cases h : S.slot.read t with
  | direct busy => exact Goes.fail _ t
  | queued tasks =>
    cases tasks with
    | nil => exact Goes.fail _ t
    | cons head rest => exact .of_steps (htake v t head rest ran h)

theorem goes_abandon (hremark : ∀ message, Act.Goes cut R (S.remark message))
    (hclear : ∀ s, ReflTransGen R s (S.slot.write (.queued []) s)) (f : Fault) : Act.Goes cut R (S.abandon f) := by
  unfold Setting.abandon
  cases f.isError with
  | false => exact .fail f
  | true =>
    exact .bind .get (fun _ => .bind (hremark _) (fun _ => .bind (.change hclear) (fun _ => .fail f)))

/-- Working off a line goes by steps if serving each task at its head does. -/
theorem goes_drain (hserve : ∀ s task rest, S.slot.read s = .queued (task :: rest) →
      GoesFrom cut R s (S.serve task))
    (habandon : ∀ f, Act.Goes cut R (S.abandon f)) (fuel : Nat) : Act.Goes cut R (S.drain fuel) := by
  induction fuel with
  | zero => exact .exhausted
  | succ fuel ih =>
    refine .get_bind (fun s => ?_)
    cases h : S.slot.read s with
    | direct busy => exact Goes.pure _ s
    | queued tasks =>
      cases tasks with
      | nil => exact Goes.pure _ s
      | cons task rest =>
        refine (hserve s task rest h).attempt.bind (fun r t _ => ?_)
        cases r with
        | ok _ => exact ih t
        | error f => exact habandon f t

/-- Handing in a task goes by steps where the line may be written in any way. -/
theorem goes_submit (hrun : ∀ task, Act.Goes cut R (S.run task))
    (hwrite : ∀ line s, ReflTransGen R s (S.slot.write line s))
    (hremark : ∀ message, Act.Goes cut R (S.remark message)) (task : τ) : Act.Goes cut R (S.submit task) := by
  have stored (line : Line τ) : Act.Goes cut R (S.store line) := .change (hwrite line)
  refine .get_bind (fun s => ?_)
  split
  · exact Goes.fail _ s
  · exact Goes.bind (stored _) (fun _ => .bind (.attempt (hrun task)) (fun r =>
      .bind (stored _) (fun _ => .ofExcept r))) s
  · refine Goes.bind (stored _) (fun _ => goes_drain (fun s task rest _ => ?_) ?_ _) s
    · exact goesFrom_serve (hrun task s) (fun _ t _ rest _ _ => hwrite _ t)
    · exact goes_abandon hremark (hwrite _)
  · exact Goes.bind (stored _) (fun _ => .bind (hremark _) (fun _ => .pure _)) s

end Line.Setting

namespace Engine

variable {E : Engine} {cut : Prop} {R : World → World → Prop}

theorem Goes.mono {R' : World → World → Prop} (h : ∀ w v, R w v → ReflTransGen R' w v) (hE : E.Goes cut R) :
    E.Goes cut R' := by
  refine ⟨fun label callback call => (hE.call label callback call).mono h, fun w entry => ?_⟩
  have steps := hE.record w entry
  generalize w.record entry = v at steps
  induction steps with
  | refl => exact .refl
  | tail _ step ih => exact ih.trans (h _ _ step)

theorem Goes.to_under {I : World → Prop} (hI : ∀ w v, R w v → I w → I v) (hE : E.Goes cut R) :
    E.Goes cut (Under I R) :=
  hE.mono (fun _ _ h => .single (fun hs => ⟨h, hI _ _ h hs⟩))

theorem Goes.remark (hE : E.Goes cut R) (m : MachineId) (severity : Severity) (logger : Logger)
    (message : String) : Act.Goes cut R (StateEngine.remark m severity logger message) :=
  .change (fun w => hE.record w _)

theorem Goes.readAttribute (hE : E.Goes cut R) (owner : Value) (name : String) :
    Act.Goes cut R (E.readAttribute owner name) := by
  unfold Engine.readAttribute
  split
  · refine .bind .get (fun w => ?_)
    simp only []
    split
    · exact hE.call _ _ _
    · split
      · exact .pure _
      · exact .pure _
      · exact .fail _
  · exact .fail _

theorem goes_readAttribute?_of {owner : Value} {name : String}
    (h : Act.Goes cut R (E.readAttribute owner name)) : Act.Goes cut R (E.readAttribute? owner name) := by
  refine .bind (.attempt h) (fun r => ?_)
  cases r with
  | ok v => exact .pure _
  | error f => exact .ite (.pure _) (.fail _)

theorem Goes.readState (hE : E.Goes cut R) (m : MachineId) (model : Value) :
    Act.Goes cut R (E.readState m model) := by
  refine .bind .get (fun w => ?_)
  split
  · exact hE.readAttribute model _
  · refine .bind .get (fun w => ?_)
    split
    · exact .bind (.change (fun w => hE.record w _)) (fun _ => .pure _)
    · exact .fail _

theorem Goes.currentState (hE : E.Goes cut R) (m : MachineId) (model : Value) :
    Act.Goes cut R (E.currentState m model) :=
  .bind (hE.readState m model) (fun _ => .ask _)

theorem Goes.apply (hE : E.Goes cut R) (target : Target) (call : Call) :
    Act.Goes cut R (target.apply E call) := by
  unfold Target.apply
  split
  · exact hE.call _ _ _
  · exact .pure _
  · split
    · exact .pure _
    · exact .fail _
  · exact .fail _
  · exact .pure _
  · exact .pure _
  · exact .fail _

theorem Goes.resolve (hE : E.Goes cut R) (m : MachineId) (callback : Callback) (i : FiringId) :
    Act.Goes cut R (E.resolve m callback i) := by
  unfold Engine.resolve
  split
  · refine .bind .get (fun w => ?_)
    split
    · refine .bind .get (fun w => .bind (goes_readAttribute?_of (hE.readAttribute _ _)) (fun v => ?_))
      split
      · exact .pure _
      · exact .ofExcept _
    · refine .bind (.change (fun w => hE.record w _)) (fun _ => ?_)
      split
      · exact .pure _
      · exact .fail _
  · exact .pure _

theorem goes_callFor (m : MachineId) (i : FiringId) : Act.Goes cut R (callFor m i) :=
  .bind .get (fun _ => .ite (.pure _) (.pure _))

theorem Goes.consult (hE : E.Goes cut R) (m : MachineId) (callback : Callback) (i : FiringId) :
    Act.Goes cut R (E.consult m callback i) :=
  .bind (hE.resolve m callback i) (fun target =>
    .bind (goes_callFor m i) (fun call => hE.apply target call))

theorem Goes.runCallback (hE : E.Goes cut R) (m : MachineId) (callback : Callback) (i : FiringId) :
    Act.Goes cut R (E.runCallback m callback i) :=
  .bind (hE.consult m callback i) (fun _ => hE.remark _ _ _ _)

theorem Goes.runCallbacks (hE : E.Goes cut R) (m : MachineId) (callbacks : List Callback) (i : FiringId) :
    Act.Goes cut R (E.runCallbacks m callbacks i) :=
  .forM (fun c _ => hE.runCallback m c i)

theorem Goes.runGrowing (hE : E.Goes cut R) (m : MachineId) (read : World → List Callback) (i : FiringId)
    (fuel position : Nat) : Act.Goes cut R (E.runGrowing m read i fuel position) := by
  induction fuel generalizing position with
  | zero => exact .exhausted
  | succ fuel ih =>
    refine .bind .get (fun w => ?_)
    split
    · exact .bind (hE.runCallback m _ i) (fun _ => ih _)
    · exact .pure _

theorem Goes.check (hE : E.Goes cut R) (m : MachineId) (guard : Guard) (i : FiringId) :
    Act.Goes cut R (E.check m guard i) :=
  .bind (hE.consult m _ i) (fun _ => .pure _)

theorem Goes.runStage (hE : E.Goes cut R) (m : MachineId) (s : StateId) (stage : StateStage)
    (i : FiringId) : Act.Goes cut R (E.runStage m s stage i) :=
  .bind .get (fun _ => .bind (hE.remark _ _ _ _) (fun _ =>
    .bind (hE.runGrowing m _ i _ _) (fun _ => hE.remark _ _ _ _)))

theorem Goes.checkAll (hE : E.Goes cut R) (m : MachineId) (i : FiringId) (guards : List Guard) :
    Act.Goes cut R (E.checkAll m i guards) := by
  induction guards with
  | nil => exact .pure _
  | cons g rest ih =>
    exact .bind (hE.check m g i) (fun passed => .ite ih (.bind (hE.remark _ _ _ _) (fun _ => .pure _)))

/-- Putting the model of a firing into a state goes by steps if placing it and restating the firing do. -/
theorem goes_relocate_of {m : MachineId} {dest : Value} {i : FiringId}
    (hplace : ∀ w : World, GoesFrom cut R w (place m dest (w.firings.get i).model))
    (hrestate : ∀ (w : World) d, ReflTransGen R w (w.updateFiring i (fun f => { f with state := d }))) :
    Act.Goes cut R (relocate m dest i) :=
  .get_bind (fun w => (hplace w).bind (fun _ v _ => Goes.bind (.ask _) (fun d =>
    .bind (.change (fun w => hrestate w d)) (fun _ => .ask _)) v))

/-- Moving along a transition goes by steps if putting the model of the firing into its destination does. -/
theorem Goes.changeState (hE : E.Goes cut R) {m : MachineId} {i : FiringId} {dest : Value}
    (hmove : Act.Goes cut R (relocate m dest i)) (source : Value) :
    Act.Goes cut R (E.changeState m source dest i) :=
  .bind (.ask _) (fun s => .bind (hE.runStage m s .exit i) (fun _ =>
    .bind hmove (fun d => hE.runStage m d .enter i)))

theorem Goes.carryOut (hE : E.Goes cut R) {m : MachineId} {i : FiringId} {transition : Transition}
    (hmove : Act.Goes cut R (relocate m transition.dest i)) (t : TransitionId) :
    Act.Goes cut R (E.carryOut m t transition i) := by
  refine .bind .get (fun w => .bind (hE.runCallbacks m _ i) (fun _ => .bind (hE.remark _ _ _ _) (fun _ => ?_)))
  refine .bind (.ite (.pure _) (hE.changeState hmove _)) (fun _ => ?_)
  exact .bind .get (fun w => .bind (hE.runCallbacks m _ i) (fun _ => hE.remark _ _ _ _))

/-- Carrying out a transition moves the model of the firing where its machine keeps the state. -/
theorem Goes.execute (hE : E.Goes cut R) {w : World} {i : FiringId} {t : TransitionId}
    (hmove : Act.Goes cut R (relocate (w.firings.get i).machine (w.transitions.get t).dest i)) :
    GoesFrom cut R w (E.execute t i) := by
  refine .get_bind (Act.Goes.bind (hE.remark _ _ _ _) (fun _ => ?_) w)
  refine .bind (hE.runGrowing _ _ i _ _) (fun _ => .bind (hE.remark _ _ _ _) (fun _ => ?_))
  refine .bind .get (fun w => .bind (hE.checkAll _ i _) (fun passed => .ite ?_ (.pure _)))
  exact .bind (hE.carryOut hmove t) (fun _ => .pure _)

section Processing

variable {i : FiringId} (hnote : ∀ w f, Firing.Notes f → ReflTransGen R w (w.updateFiring i f))

include hnote

theorem goes_tryCandidates (hexecute : ∀ t, Act.Goes cut R (E.execute t i)) (ts : List TransitionId) :
    Act.Goes cut R (E.tryCandidates i ts) := by
  induction ts with
  | nil => exact .pure _
  | cons t rest ih =>
    refine .bind (.change (fun w => hnote w _ (fun _ => ⟨_, _, _, rfl⟩))) (fun _ => ?_)
    refine .bind (hexecute t) (fun fired => .ite (.change (fun w => hnote w _ (fun _ => ⟨_, _, _, rfl⟩))) ih)

theorem goes_noteError (ended : Except Fault Unit) : Act.Goes cut R (noteError i ended) := by
  cases ended with
  | ok _ => exact .pure _
  | error f => exact .ite (.change (fun w => hnote w _ (fun _ => ⟨_, _, _, rfl⟩))) (.pure _)

theorem Goes.processFiring (hE : E.Goes cut R) (hexecute : ∀ t, Act.Goes cut R (E.execute t i))
    (hfile : ∀ {w : World} {e : EventId} {source : Value}, w.Seeks i e source →
      ReflTransGen R w (w.updateEvent e (fun event =>
        { event with candidates := event.candidates.insert source [] }))) :
    Act.Goes cut R (E.processFiring i) := by
  have candidates : Act.Goes cut R (candidatesFor i) := by
    refine .get_bind (fun w => ?_)
    simp only []
    split
    · exact Goes.pure _ w
    · rename_i missing
      exact GoesFrom.bind (.of_steps (hfile ⟨rfl, rfl, missing⟩)) (fun _ v _ => Goes.pure _ v)
  have attempted (m : MachineId) : Act.Goes cut R (E.attemptMoves m i) :=
    .bind .get (fun _ => .bind (hE.runCallbacks m _ i) (fun _ => .bind (hE.remark _ _ _ _) (fun _ =>
      .bind candidates (fun ts => goes_tryCandidates hnote hexecute ts))))
  refine .bind .get (fun w => .bind (.attempt (attempted _)) (fun ended => ?_))
  refine .bind (goes_noteError hnote ended) (fun _ => .bind .get (fun w => ?_))
  exact .bind (hE.runCallbacks _ _ i) (fun _ => .bind (hE.remark _ _ _ _) (fun _ =>
    .bind (.ofExcept ended) (fun _ => .bind .get (fun w => .pure _))))

end Processing

/-- Firing an event goes by steps if processing the firing does that is opened for it. -/
theorem Goes.fireNow (hE : E.Goes cut R) {w : World} {e : EventId} {model : Value} {args : List Value}
    {named : Named} (hprocess : ∀ (v : World) (s : StateId) (firing : Firing),
      firing = { state := s, event := e, machine := (w.events.get e).machine, model, args, named } →
      GoesFrom cut R v (set { v with firings := v.firings.push firing } >>= fun _ =>
        E.processFiring v.firings.next)) : GoesFrom cut R w (E.fireNow e model args named) := by
  refine .get_bind (Act.Goes.bind (hE.currentState _ model) (fun s => .get_bind (fun v => ?_)) w)
  simp only []
  split
  · exact hprocess v s _ rfl
  · exact Goes.ite (.bind (hE.remark _ _ _ _) (fun _ => .pure _)) (.fail _) v

/-- Firing a trigger goes by steps if handing in the firing of its event does. -/
theorem Goes.trigger (hE : E.Goes cut R) {w : World} {m : MachineId} {model name : Value} {args : List Value}
    {named : Named} (hsubmit : ∀ e, w.eventOf? m name = .ok (some e) →
      GoesFrom cut R w (E.submit (w.events.get e).machine (.fire e model args named))) :
    GoesFrom cut R w (E.trigger m model name args named) := by
  unfold Engine.trigger
  split
  · exact Goes.fail _ w
  · refine .ask_bind (fun found hfound => ?_)
    cases found with
    | some e => exact .get_bind (hsubmit e hfound)
    | none =>
      refine Act.Goes.bind (hE.currentState m model) (fun s => .bind .get (fun w => .ite ?_ (.fail _))) w
      exact .bind (hE.remark _ _ _ _) (fun _ => .pure _)

theorem goes_triggerEach {m : MachineId} {roster : RosterId} {name : Value} {args : List Value} {named : Named}
    (htrigger : ∀ w model, model ∈ w.rosters.get roster →
      GoesFrom cut R w (E.trigger m model name args named)) (fuel position : Nat) (soFar : Bool) :
    Act.Goes cut R (E.triggerEach m roster name args named fuel position soFar) := by
  induction fuel generalizing position soFar with
  | zero => exact .exhausted
  | succ fuel ih =>
    refine .get_bind (fun w => ?_)
    split
    · rename_i model hmodel
      exact (htrigger w model (List.mem_of_getElem? hmodel)).bind (fun _ v _ => ih _ _ v)
    · exact Goes.pure _ w

end Engine

end StateEngine
