import StateEngine.Machine.Firing
import StateEngine.Proofs.Walk

/-! What every call of host code keeps and every entry of the history keeps, consulting callbacks keeps. -/
namespace StateEngine
open Act Relation

/-- An engine whose calls of host code go by steps of a kind, as entries of the history do. -/
structure Engine.Walks (E : Engine) (R : World → World → Prop) : Prop where
  call : ∀ label callback call, Act.Walks R (E.call label callback call)
  record : ∀ w entry, ReflTransGen R w (World.record entry w)

/-- A firing looks for candidates of its event for the state in which it is, which has no entry. -/
structure World.Seeks (w : World) (i : FiringId) (e : EventId) (source : Value) : Prop where
  fires : (w.firings.get i).event = e
  named : (w.states.get (w.firings.get i).state).name = source
  missing : (w.events.get e).candidates.find? source = none

/-- What writing the states of models changes: only where these are kept, and the history. -/
def World.Written (w v : World) : Prop :=
  v = { w with models := v.models, ledgers := v.ledgers, history := v.history }

theorem World.model_updateModel (w : World) (x y : String) (f : Model → Model) :
    (w.updateModel x f).model y = if x = y then f (w.model x) else w.model y := by
  simp only [World.model, updateModel, Table.find?_insert]
  by_cases h : x = y <;> simp [h]

/-- Models are told apart as keys. -/
theorem Table.find?_insert_model (t : Table Value Value) (x y : String) (a : Value) :
    (t.insert (.model x) a).find? (.model y) = if x = y then some a else t.find? (.model y) := by
  have same : (Value.model x == .model y) = true ↔ x = y :=
    Value.beq_model_iff.trans ⟨fun h => Value.model.inj h, fun h => by rw [h]⟩
  rw [Table.find?_insert_of a]
  · simp only [same]
  · intro k hk
    rw [Value.beq_model_iff.mp hk]
  · intro h k
    rw [same.mp h]

/-- What goes in under anything but a model itself is not found under the model. -/
theorem Table.find?_insert_besides (t : Table Value Value) {v : Value} {x : String} (h : v ≠ .model x) (a : Value) :
    (t.insert v a).find? (.model x) = t.find? (.model x) := by
  have other {k : Value} (hk : k ≠ .model x) : (k == .model x) = false := by
    simpa using mt Value.beq_model_iff.mp hk
  rw [Table.find?_insert_of a (fun k hk => ?_) (fun same => ?_), other h]
  · rfl
  · rw [other h, other]
    rintro rfl
    exact h (Value.model_beq_iff.mp hk)
  · rw [other h] at same
    cases same

namespace Engine

variable {E : Engine} {R : World → World → Prop}

theorem Walks.remark (hE : E.Walks R) (m : MachineId) (severity : Severity) (logger : Logger)
    (message : String) : Act.Walks R (StateEngine.remark m severity logger message) :=
  .change (fun w => hE.record w _)

theorem Walks.readAttribute (hE : E.Walks R) (owner : Value) (name : String) :
    Act.Walks R (E.readAttribute owner name) := by
  unfold Engine.readAttribute
  split
  · refine .bind .get (fun w => ?_)
    simp only []
    split
    · exact hE.call _ _ _
    · split
      · exact .pure _
      · exact .pure _
      · exact .fail _
  · exact .fail _

theorem walks_readAttribute?_of {owner : Value} {name : String}
    (h : Act.Walks R (E.readAttribute owner name)) : Act.Walks R (E.readAttribute? owner name) := by
  unfold Engine.readAttribute?
  refine .bind (.attempt h) (fun r => ?_)
  cases r with
  | ok v => exact .pure _
  | error f => exact .ite (.pure _) (.fail _)

theorem Walks.readAttribute? (hE : E.Walks R) (owner : Value) (name : String) :
    Act.Walks R (E.readAttribute? owner name) :=
  walks_readAttribute?_of (hE.readAttribute owner name)

theorem Walks.readState (hE : E.Walks R) (m : MachineId) (model : Value) :
    Act.Walks R (E.readState m model) := by
  unfold Engine.readState
  refine .bind .get (fun w => ?_)
  split
  · exact hE.readAttribute model _
  · refine .bind .get (fun w => ?_)
    split
    · exact .bind (.change (fun w => hE.record w _)) (fun _ => .pure _)
    · exact .fail _

theorem Walks.currentState (hE : E.Walks R) (m : MachineId) (model : Value) :
    Act.Walks R (E.currentState m model) :=
  .bind (hE.readState m model) (fun _ => .ask _)

theorem Walks.apply (hE : E.Walks R) (target : Target) (call : Call) :
    Act.Walks R (target.apply E call) := by
  unfold Target.apply
  split
  · exact hE.call _ _ _
  · exact .pure _
  · split
    · exact .pure _
    · exact .fail _
  · exact .fail _
  · exact .pure _
  · exact .pure _
  · exact .fail _

theorem Walks.resolve (hE : E.Walks R) (m : MachineId) (callback : Callback) (i : FiringId) :
    Act.Walks R (E.resolve m callback i) := by
  unfold Engine.resolve
  split
  · refine .bind .get (fun w => ?_)
    split
    · refine .bind .get (fun w => .bind (hE.readAttribute? _ _) (fun v => ?_))
      split
      · exact .pure _
      · exact .ofExcept _
    · refine .bind (.change (fun w => hE.record w _)) (fun _ => ?_)
      split
      · exact .pure _
      · exact .fail _
  · exact .pure _

theorem walks_callFor (m : MachineId) (i : FiringId) : Act.Walks R (callFor m i) :=
  .bind .get (fun _ => .ite (.pure _) (.pure _))

theorem Walks.consult (hE : E.Walks R) (m : MachineId) (callback : Callback) (i : FiringId) :
    Act.Walks R (E.consult m callback i) :=
  .bind (hE.resolve m callback i) (fun target =>
    .bind (walks_callFor m i) (fun call => hE.apply target call))

theorem Walks.runCallback (hE : E.Walks R) (m : MachineId) (callback : Callback) (i : FiringId) :
    Act.Walks R (E.runCallback m callback i) :=
  .bind (hE.consult m callback i) (fun _ => hE.remark _ _ _ _)

theorem Walks.runCallbacks (hE : E.Walks R) (m : MachineId) (callbacks : List Callback) (i : FiringId) :
    Act.Walks R (E.runCallbacks m callbacks i) :=
  .forM (fun c => hE.runCallback m c i)

theorem Walks.runGrowing (hE : E.Walks R) (m : MachineId) (read : World → List Callback) (i : FiringId)
    (fuel position : Nat) : Act.Walks R (E.runGrowing m read i fuel position) := by
  induction fuel generalizing position with
  | zero => exact .exhausted
  | succ fuel ih =>
    refine .bind .get (fun w => ?_)
    split
    · exact .bind (hE.runCallback m _ i) (fun _ => ih _)
    · exact .pure _

theorem Walks.check (hE : E.Walks R) (m : MachineId) (guard : Guard) (i : FiringId) :
    Act.Walks R (E.check m guard i) :=
  .bind (hE.consult m _ i) (fun _ => .pure _)

theorem Walks.runStage (hE : E.Walks R) (m : MachineId) (s : StateId) (stage : StateStage)
    (i : FiringId) : Act.Walks R (E.runStage m s stage i) :=
  .bind .get (fun _ => .bind (hE.remark _ _ _ _) (fun _ =>
    .bind (hE.runGrowing m _ i _ _) (fun _ => hE.remark _ _ _ _)))

theorem Walks.checkAll (hE : E.Walks R) (m : MachineId) (i : FiringId) (guards : List Guard) :
    Act.Walks R (E.checkAll m i guards) := by
  induction guards with
  | nil => exact .pure _
  | cons g rest ih =>
    exact .bind (hE.check m g i) (fun passed => .ite ih (.bind (hE.remark _ _ _ _) (fun _ => .pure _)))

/-- Placing models goes by steps of every kind by which attributes and ledgers are written. -/
theorem walks_place_of (field : ∀ w v owner name x, World.writeAttribute w owner name x = .ok v → R w v)
    (ledger : ∀ (w : World) (id : LedgerId) (model x : Value),
      R w ({ w with ledgers := w.ledgers.modify id (·.insert model x) }.record (.stateWritten model x)))
    (m : MachineId) (state models : Value) : Act.Walks R (place m state models) := by
  have written (model v : Value) : Act.Walks R (writeState m model v) := by
    refine .bind .get (fun w => ?_)
    split
    · exact .advance (fun w u h => .single (field w u _ _ _ h))
    · exact .change (fun w => .single (ledger w _ _ _))
  exact .bind (.ask _) (fun s => .bind .get (fun w => .forM (fun model => written model _)))

theorem walks_place (m : MachineId) (state models : Value) :
    Act.Walks World.Written (place m state models) := by
  refine walks_place_of (fun w v owner name x h => ?_) (fun w id model x => rfl) m state models
  unfold World.writeAttribute at h
  split at h
  · split at h
    · cases h
    · cases h
      rfl
  · cases h

/-- An engine whose calls of host code never run out of steps. -/
def Definite (E : Engine) : Prop := ∀ label callback call, Act.Definite (E.call label callback call)

theorem Definite.readAttribute (hE : E.Definite) (owner : Value) (name : String) :
    Act.Definite (E.readAttribute owner name) := by
  unfold Engine.readAttribute
  split
  · refine .bind .get (fun w => ?_)
    simp only []
    split
    · exact hE _ _ _
    · split
      · exact .pure _
      · exact .pure _
      · exact .fail _
  · exact .fail _

theorem Definite.readAttribute? (hE : E.Definite) (owner : Value) (name : String) :
    Act.Definite (E.readAttribute? owner name) := by
  refine .bind (.attempt (hE.readAttribute owner name)) (fun r => ?_)
  cases r with
  | ok v => exact .pure _
  | error f => exact .ite (.pure _) (.fail _)

theorem Definite.apply (hE : E.Definite) (target : Target) (call : Call) :
    Act.Definite (target.apply E call) := by
  unfold Target.apply
  split
  · exact hE _ _ _
  · exact .pure _
  · split
    · exact .pure _
    · exact .fail _
  · exact .fail _
  · exact .pure _
  · exact .pure _
  · exact .fail _

theorem Definite.resolve (hE : E.Definite) (m : MachineId) (callback : Callback) (i : FiringId) :
    Act.Definite (E.resolve m callback i) := by
  unfold Engine.resolve
  split
  · refine .bind .get (fun w => ?_)
    split
    · refine .bind .get (fun w => .bind (hE.readAttribute? _ _) (fun v => ?_))
      split
      · exact .pure _
      · exact .ofExcept _
    · refine .bind (.change _) (fun _ => ?_)
      split
      · exact .pure _
      · exact .fail _
  · exact .pure _

theorem Definite.consult (hE : E.Definite) (m : MachineId) (callback : Callback) (i : FiringId) :
    Act.Definite (E.consult m callback i) :=
  .bind (hE.resolve m callback i) (fun target =>
    .bind (.bind .get (fun _ => .ite (.pure _) (.pure _))) (fun call => hE.apply target call))

theorem definite_writeState (m : MachineId) (model v : Value) : Act.Definite (writeState m model v) := by
  refine .bind .get (fun w => ?_)
  split
  · exact .advance _
  · exact .change _

theorem definite_place (m : MachineId) (state models : Value) : Act.Definite (place m state models) :=
  .bind (.ask _) (fun _ => .bind .get (fun _ => .forM (fun model => definite_writeState m model _)))

end Engine

end StateEngine
