import StateEngine.Proofs.Registry.Change

/-! Registering states, transitions and models goes by steps, whatever the models do while their attributes
are read. -/
namespace StateEngine
open Act World Relation

variable {P : Operation → Prop} {R : World → World → Prop}

namespace World

theorem Permits.stateOf (hR : Permits P R) {w v : World} {options : StateOptions} {entry : Value}
    {s : StateId} (h : w.stateOf options entry = .ok (s, v)) : ReflTransGen R w v := by
  have made (x : State) : ReflTransGen R w (w.addState x).2 := hR.step (.makeState w x)
  unfold World.stateOf at h
  split at h
  · cases h
    exact made _
  · cases h
    exact made _
  · obtain ⟨named, -, h⟩ := ok_of_bind h
    obtain ⟨parts, -, h⟩ := ok_of_bind h
    split at h
    · cases h
      exact made _
    · cases h
  · cases h
    exact .refl
  · cases h

/-- A state is enrolled under a new name. -/
theorem Permits.enroll (hR : Permits P R) {w v : World} {m : MachineId} {options : StateOptions}
    {entry : Value} {s : StateId} (h : w.enroll m options entry = .ok (s, v)) : ReflTransGen R w v := by
  obtain ⟨⟨s', u⟩, hs, h⟩ := ok_of_bind h
  simp only [] at h
  split at h
  · cases h
  · rename_i hk
    split at h
    · cases h
    · rename_i hnew
      cases h
      have filed := hR.step (.enroll u m s (by simpa using hk) (by simpa using hnew))
      exact (hR.stateOf hs).trans filed

theorem Permits.connectDefinition (hR : Permits P R) {w v : World} {m : MachineId} {definition : Value}
    (h : w.connectDefinition m definition = .ok v) : ReflTransGen R w v := by
  have bound (parts : List Value) (h : connectBound w m parts = .ok v) : ReflTransGen R w v := by
    unfold connectBound at h
    split at h
    · exact hR.step (.connect h)
    · cases h
  unfold World.connectDefinition at h
  split at h
  · obtain ⟨parts, -, h⟩ := ok_of_bind h
    exact bound parts h
  · obtain ⟨parts, -, h⟩ := ok_of_bind h
    exact bound parts h
  · obtain ⟨named, -, h⟩ := ok_of_bind h
    obtain ⟨parts, -, h⟩ := ok_of_bind h
    exact bound parts h
  · cases h

theorem Permits.hookState (hR : Permits P R) {w v : World} {m : MachineId} {state stage : Value}
    {c : Callback} (h : w.hookState m state stage c = .ok v) : ReflTransGen R w v := by
  obtain ⟨s, -, h⟩ := ok_of_bind h
  split at h
  · cases h
    exact hR.step (.hookState w s c _)
  · cases h

theorem Permits.hookTransition (hR : Permits P R) {w v : World} {t : TransitionId} {stage : Value}
    {c : Callback} (h : w.hookTransition t stage c = .ok v) : ReflTransGen R w v := by
  unfold World.hookTransition at h
  split at h
  · cases h
    exact hR.step (.hookTransition w t c _)
  · cases h

/-- Hooking the transitions of a trigger goes by steps if hooking each one does. -/
theorem steps_hookEvent_of {w v : World} {m : MachineId} {trigger stage : Value} {c : Callback}
    (hR : ∀ (u : World) t st, ReflTransGen R u (u.updateTransition t (·.addCallback c st)))
    (h : w.hookEvent m trigger stage c = .ok v) : ReflTransGen R w v := by
  have each (st : TransitionStage) (ts : List TransitionId) (u : World) :
      ReflTransGen R u (ts.foldl (fun w t => w.updateTransition t (·.addCallback c st)) u) := by
    induction ts generalizing u with
    | nil => exact .refl
    | cons t ts ih => exact (hR u t st).trans (ih _)
  obtain ⟨e, -, h⟩ := ok_of_bind h
  simp only [] at h
  split at h
  · cases h
    exact .refl
  · cases h
    exact each _ _ w
  · cases h

theorem Permits.hookEvent (hR : Permits P R) {w v : World} {m : MachineId} {trigger stage : Value}
    {c : Callback} (h : w.hookEvent m trigger stage c = .ok v) : ReflTransGen R w v :=
  steps_hookEvent_of (fun u t st => hR.step (.hookTransition u t c st)) h

end World

theorem walks_connectDefinitions (hR : Permits P R) (m : MachineId) (definitions : Value) :
    Act.Walks R (connectDefinitions m definitions) :=
  .forM (fun _ => .advance (fun _ _ h => hR.connectDefinition h))

theorem walks_connectRow (hR : Permits P R) (m : MachineId) (row : Row) : Act.Walks R (connectRow m row) :=
  .bind (.ask _) (fun _ => .forM (fun move => walks_connect hR m _ _ _ move.2))

namespace Engine

variable {E : Engine}

/-- An engine for which taking up the methods of a model goes by steps of a kind: reading the model's
attributes and hooking the callbacks. -/
structure TakesUp (E : Engine) (R : World → World → Prop) : Prop where
  read : ∀ owner name, Act.Walks R (E.readAttribute owner name)
  hook : ∀ w s c stage, ReflTransGen R w (World.updateState s (·.addCallback c stage) w)
  record : ∀ w entry, ReflTransGen R w (World.record entry w)

theorem Walks.takesUp (hE : E.Walks R) (hR : Permits P R) : E.TakesUp R where
  read := hE.readAttribute
  hook w s c stage := hR.step (.hookState w s c stage)
  record := hE.record

/-- Taking up the methods of one model for a state goes by steps if reading its attributes and hooking this state do. -/
theorem walks_bindConventions_of {model : Value} {s : StateId}
    (read : ∀ name, Act.Walks R (E.readAttribute model name))
    (hook : ∀ w c stage, ReflTransGen R w (World.updateState s (·.addCallback c stage) w))
    (record : ∀ w entry, ReflTransGen R w (World.record entry w)) (m : MachineId) :
    Act.Walks R (E.bindConventions m s model) := by
  refine .forM (fun stage => .bind .get (fun w => ?_))
  refine .bind (walks_readAttribute?_of (read _)) (fun v => ?_)
  split
  · refine .bind .get (fun w => .ite (.bind ?_ (fun _ => ?_)) (.pure _))
    · exact .change (fun w => hook w _ stage)
    · exact .change (fun w => record w _)
  · exact .pure _

theorem walks_bindToStates_of {m : MachineId} {model : Value}
    (h : ∀ s, Act.Walks R (E.bindConventions m s model)) : Act.Walks R (E.bindToStates m model) := by
  refine .bind .get (fun w => ?_)
  have steady : Act.Walks R (do
      if ((← get).machine m).states.size ≠ (w.machine m).states.values.length then
        Act.fail .changedWhileRead : Run Unit) :=
    .bind .get (fun _ => .ite (.fail _) (.pure _))
  exact .bind (.forM (fun s => .bind steady (fun _ => h s))) (fun _ => steady)

theorem TakesUp.bindConventions (hE : E.TakesUp R) (m : MachineId) (s : StateId) (model : Value) :
    Act.Walks R (E.bindConventions m s model) :=
  walks_bindConventions_of (hE.read model) (fun w c stage => hE.hook w s c stage) hE.record m

theorem TakesUp.bindToStates (hE : E.TakesUp R) (m : MachineId) (model : Value) :
    Act.Walks R (E.bindToStates m model) :=
  walks_bindToStates_of (fun s => hE.bindConventions m s model)

theorem walks_forRoster {roster : RosterId} {action : Value → Run Unit}
    (h : ∀ model, Act.Walks R (action model)) (fuel position : Nat) :
    Act.Walks R (forRoster roster action fuel position) := by
  induction fuel generalizing position with
  | zero => exact .exhausted
  | succ fuel ih =>
    refine .bind .get (fun w => ?_)
    split
    · exact .bind (h _) (fun _ => ih _)
    · exact .pure _

/-- What comes behind the enrolment of a state: models take up its conventions, and it is connected. -/
theorem walks_settleState_of {m : MachineId} {s : StateId} (take : ∀ model, Act.Walks R (E.bindConventions m s model))
    (connect : ∀ trigger source dest hooks, Act.Walks R (Act.advance (fun w => w.connect m trigger source dest hooks))) :
    Act.Walks R (do
      forRoster ((← get).machine m).roster (E.bindConventions m s) E.bound 0
      if ((← get).machine m).autoTransitions.truthy then connectAutomatically m s : Run Unit) := by
  have connected : Act.Walks R (connectAutomatically m s) := .bind .get (fun _ => .forM (fun _ => connect _ _ _ _))
  refine .bind .get (fun w => .bind (walks_forRoster take _ _) (fun _ => ?_))
  exact .bind .get (fun w => .ite connected (.pure _))

theorem Walks.settleState (hE : E.Walks R) (hR : Permits P R) (m : MachineId) (s : StateId) :
    Act.Walks R (do
      forRoster ((← get).machine m).roster (E.bindConventions m s) E.bound 0
      if ((← get).machine m).autoTransitions.truthy then connectAutomatically m s : Run Unit) :=
  walks_settleState_of ((hE.takesUp hR).bindConventions m s) (walks_connect hR m)

theorem Walks.addState (hE : E.Walks R) (hR : Permits P R) (m : MachineId) (options : StateOptions)
    (entry : Value) : Act.Walks R (E.addState m options entry) :=
  .ask_set (fun _ _ _ h => hR.enroll h) (fun s => .bind (.pure s) (fun s => hE.settleState hR m s))

theorem Walks.addStates (hE : E.Walks R) (hR : Permits P R) (m : MachineId) (states : Value)
    (options : StateOptions) : Act.Walks R (E.addStates m states options) :=
  .forM (fun entry => hE.addState hR m options entry)

/-- Settling on an initial state goes by steps where any name may become the initial one. -/
theorem Walks.setInitial (hE : E.Walks R) (hR : Permits P R) {m : MachineId}
    (hm : ∀ name (w : World), ReflTransGen R w
      (w.updateMachine m (fun machine => { machine with initial := name }))) (v : Value) :
    Act.Walks R (E.setInitial m v) := by
  refine .bind .get (fun w => ?_)
  have settled (name : Value) : Act.Walks R
      (change (updateMachine m (fun machine => { machine with initial := name }))) := .change (hm name)
  simp only []
  refine .ite (.bind (.fail _) (fun _ => ?_)) ?_ <;>
  · refine .ite (.bind (hE.addStates hR m v {}) (fun _ => settled _)) ?_
    split
    · exact .ite (.bind (.fail _) (fun _ => settled _)) (settled _)
    · exact settled _

/-- Binding a model goes by steps where any model may join the roster. -/
theorem Walks.bindModel (hE : E.Walks R) (hR : Permits P R) {m : MachineId} {model : Value}
    (hm : ∀ w : World, ReflTransGen R w
      { w with rosters := w.rosters.modify (w.machine m).roster (· ++ [model]) }) (initial : Value) :
    Act.Walks R (E.bindModel m initial model) := by
  refine .bind .get (fun w => .ite (.pure _) ?_)
  refine .bind ((hE.takesUp hR).bindToStates m model) (fun _ => .bind (walks_placing hR m initial model) (fun _ => ?_))
  exact .change hm

theorem walks_bindModels (hb : ∀ m initial model, Act.Walks R (E.bindModel m initial model)) (m : MachineId)
    (models initial : Value) : Act.Walks R (E.bindModels m models initial) := by
  have all (chosen : Value) : Act.Walks R (models.items.forM (E.bindModel m chosen)) :=
    .forM (fun model => hb m chosen model)
  unfold Engine.bindModels
  split
  · refine .bind .get (fun w => ?_)
    split
    · exact .bind (.fail _) (fun chosen => all chosen)
    · exact all _
  · exact all _

theorem walks_unbindModels (hR : Permits P R) (m : MachineId) (models : Value) :
    Act.Walks R (unbindModels m models) :=
  .forM (fun model => .change (fun w => hR.step (.unbind w m model)))

end Engine

end StateEngine
