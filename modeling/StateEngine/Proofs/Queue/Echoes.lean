import StateEngine.Proofs.Queue.Alike

/-! Two engines whose calls of host code echo each other: so does all that they do for a firing. -/
namespace StateEngine
open Act World

/-- Of two engines the second one calls host code so that it echoes what the first one does. -/
structure Engine.Echoes (E E' : Engine) (m : MachineId) (R : World → World → Prop) : Prop where
  joint : Joint m R
  modules : E'.modules = E.modules
  bound : E'.bound = E.bound
  call : ∀ label callback call, Act.Echoes R (E.call label callback call) (E'.call label callback call)

namespace Engine

variable {E E' : Engine} {m : MachineId} {R : World → World → Prop}

theorem Echoes.readAttribute (hE : E.Echoes E' m R) (owner : Value) (name : String) :
    Act.Echoes R (E.readAttribute owner name) (E'.readAttribute owner name) := by
  unfold Engine.readAttribute
  cases owner with
  | model x =>
    refine .get_bind (fun w v h => ?_)
    simp only [(hE.joint.alike h).model]
    split
    · exact hE.call _ _ _ w v h
    · split
      · exact .pure h _
      · exact .pure h _
      · exact .fail h rfl
  | _ => exact .fail rfl

theorem Echoes.readAttribute? (hE : E.Echoes E' m R) (owner : Value) (name : String) :
    Act.Echoes R (E.readAttribute? owner name) (E'.readAttribute? owner name) := by
  unfold Engine.readAttribute?
  refine (hE.readAttribute owner name).attempt_bind (fun r hr => ?_)
  cases r with
  | ok v => exact .pure _
  | error f => exact .ite (.pure _) (.fail (hr f rfl))

theorem Echoes.readState (hE : E.Echoes E' m R) (n : MachineId) (model : Value) :
    Act.Echoes R (E.readState n model) (E'.readState n model) := by
  unfold Engine.readState
  refine .get_bind (fun w v h => ?_)
  have accessor := (hE.joint.alike h).field Machine.accessor (fun _ _ _ => rfl) n
  rw [accessor]
  split
  · exact hE.readAttribute model _ w v h
  · refine .get_bind ?_
    rw [(hE.joint.alike h).ledgers]
    split
    · next x _ =>
      have recorded := hE.joint.record (.stateRead model x) (fun _ _ h => by cases h)
      exact (recorded.bind (fun _ => .pure _)) w v h
    · exact .fail h rfl

theorem Echoes.currentState (hE : E.Echoes E' m R) (n : MachineId) (model : Value) :
    Act.Echoes R (E.currentState n model) (E'.currentState n model) :=
  (hE.readState n model).bind (fun x => hE.joint.lookupState n x)

theorem Echoes.apply (hE : E.Echoes E' m R) (target : Target) (call : Call) :
    Act.Echoes R (target.apply E call) (target.apply E' call) := by
  unfold Target.apply
  split
  · exact hE.call _ _ _
  · exact .pure _
  · split
    · exact .pure _
    · exact .fail rfl
  · exact .fail rfl
  · exact .pure _
  · exact .pure _
  · exact .fail rfl

theorem noAbort_importCallable (E : Engine) (name : Value) (path : String) :
    NoAbort (E.importCallable name path) := by
  unfold importCallable
  split
  · exact .error rfl
  · split
    · exact .error rfl
    · split
      · exact .error rfl
      · split
        · split
          · exact .ok _
          · exact .error rfl
        · exact .error rfl

theorem importCallable_congr (h : E'.modules = E.modules) (name : Value) (path : String) :
    E'.importCallable name path = E.importCallable name path := by
  obtain ⟨modules, _, _⟩ := E
  obtain ⟨_, _, _⟩ := E'
  cases h
  rfl

theorem Echoes.resolve (hE : E.Echoes E' m R) (n : MachineId) (callback : Callback) (i : FiringId) :
    Act.Echoes R (E.resolve n callback i) (E'.resolve n callback i) := by
  unfold Engine.resolve
  cases callback.text? with
  | none => exact .pure _
  | some path =>
    unfold Engine.resolveName
    refine .get_bind (fun w v h => ?_)
    have resolver := (hE.joint.alike h).field Machine.resolver (fun _ _ _ => rfl) n
    rw [resolver]
    split
    · refine .get_bind ?_
      rw [(hE.joint.alike h).firings]
      refine ((hE.readAttribute? _ _).bind (fun found => ?_)) w v h
      cases found with
      | some x => exact .pure _
      | none =>
        simp only [importCallable_congr hE.modules]
        exact .ofExcept (noAbort_importCallable E _ _)
    · have recorded := hE.joint.record (.resolving callback) (fun _ _ h => by cases h)
      refine (recorded.bind (fun _ => ?_)) w v h
      split
      · exact .pure _
      · exact .fail rfl

theorem Echoes.callFor (hE : E.Echoes E' m R) (n : MachineId) (i : FiringId) :
    Act.Echoes R (callFor n i) (callFor n i) := by
  unfold Engine.callFor
  refine .get_bind (fun w v h => ?_)
  have sendEvent := (hE.joint.alike h).field Machine.sendEvent (fun _ _ _ => rfl) n
  simp only [sendEvent, (hE.joint.alike h).firings]
  split
  · exact .pure h _
  · exact .pure h _

theorem Echoes.consult (hE : E.Echoes E' m R) (n : MachineId) (callback : Callback) (i : FiringId) :
    Act.Echoes R (E.consult n callback i) (E'.consult n callback i) :=
  (hE.resolve n callback i).bind (fun target => (hE.callFor n i).bind (fun call => hE.apply target call))

theorem Echoes.runCallback (hE : E.Echoes E' m R) (n : MachineId) (callback : Callback) (i : FiringId) :
    Act.Echoes R (E.runCallback n callback i) (E'.runCallback n callback i) :=
  (hE.consult n callback i).bind (fun _ => hE.joint.remark _ _ _ _)

theorem Echoes.runCallbacks (hE : E.Echoes E' m R) (n : MachineId) (callbacks : List Callback)
    (i : FiringId) : Act.Echoes R (E.runCallbacks n callbacks i) (E'.runCallbacks n callbacks i) :=
  .forM (fun c => hE.runCallback n c i)

theorem Echoes.runGrowing (hE : E.Echoes E' m R) (n : MachineId) {read : World → List Callback}
    (hread : ∀ w v, w.Alike m v → read v = read w) (i : FiringId) (fuel position : Nat) :
    Act.Echoes R (E.runGrowing n read i fuel position) (E'.runGrowing n read i fuel position) := by
  induction fuel generalizing position with
  | zero => exact .exhausted
  | succ fuel ih =>
    refine .get_bind (fun w v h => ?_)
    rw [hread w v (hE.joint.alike h)]
    split
    · exact ((hE.runCallback n _ i).bind (fun _ => ih _)) w v h
    · exact .pure h _

theorem Echoes.check (hE : E.Echoes E' m R) (n : MachineId) (guard : Guard) (i : FiringId) :
    Act.Echoes R (E.check n guard i) (E'.check n guard i) :=
  (hE.consult n _ i).bind (fun _ => .pure _)

theorem Echoes.checkAll (hE : E.Echoes E' m R) (n : MachineId) (i : FiringId) (guards : List Guard) :
    Act.Echoes R (E.checkAll n i guards) (E'.checkAll n i guards) := by
  induction guards with
  | nil => exact .pure _
  | cons g rest ih =>
    exact (hE.check n g i).bind (fun passed =>
      .ite ih ((hE.joint.remark _ _ _ _).bind (fun _ => .pure _)))

theorem Echoes.runStage (hE : E.Echoes E' m R) (n : MachineId) (s : StateId) (stage : StateStage)
    (i : FiringId) : Act.Echoes R (E.runStage n s stage i) (E'.runStage n s stage i) := by
  unfold Engine.runStage
  refine .get_bind (fun w v h => ?_)
  rw [(hE.joint.alike h).states, hE.bound]
  have stages (w v : World) (h : w.Alike m v) :
      (v.states.get s).callbacks stage = (w.states.get s).callbacks stage := by rw [h.states]
  exact ((hE.joint.remark _ _ _ _).bind (fun _ =>
    (hE.runGrowing n stages i _ _).bind (fun _ => hE.joint.remark _ _ _ _))) w v h

end Engine

end StateEngine
