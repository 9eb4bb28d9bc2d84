import StateEngine.Machine.States

/-! Binding models to a machine and placing them in states. -/
namespace StateEngine.Engine

/-- Places a model in a state, or every model of a specification, or all that are bound. -/
def place (m : MachineId) (state : Value) (models : Value) : Run Unit := do
  let s ← Act.ask (fun w => w.stateFor m state)
  let w ← get
  let chosen := match models with
    | .null => w.boundModels m
    | v => v.items
  chosen.forM (fun model => writeState m model (w.states.get s).value)

/-- Binds the methods of a model to all registered states. The states must stay the same meanwhile. -/
def bindToStates (E : Engine) (m : MachineId) (model : Value) : Run Unit := do
  let states := ((← get).machine m).states.values
  let steady : Run Unit := do
    if ((← get).machine m).states.size ≠ states.length then Act.fail .changedWhileRead
  states.forM (fun s => do
    steady
    E.bindConventions m s model)
  steady

/-- Binds one model that is not bound yet: it takes up the conventions, is placed, and joins the
roster. -/
def bindModel (E : Engine) (m : MachineId) (initial model : Value) : Run Unit := do
  if model.isIn ((← get).boundModels m) then return ()
  E.bindToStates m model
  place m initial model
  Act.change (fun w =>
    { w with rosters := w.rosters.modify (w.machine m).roster (· ++ [model]) })

/-- Binds the models of a specification in a state, by default in the machine's initial one. -/
def bindModels (E : Engine) (m : MachineId) (models initial : Value) : Run Unit := do
  let chosen ← match initial with
    | .null =>
      match ((← get).machine m).initial with
      | .null => Act.fail .noInitialState
      | v => pure v
    | v => pure v
  models.items.forM (E.bindModel m chosen)

/-- Unbinds the models of a specification. A loop over the bound models goes on with the roster it
started with, so each removal makes a new one. -/
def unbindModels (m : MachineId) (models : Value) : Run Unit :=
  models.items.forM (fun model => Act.change (fun w =>
    let kept := (w.boundModels m).filter (fun x => !x.same model)
    { w with rosters := w.rosters.push kept }.updateMachine m
      (fun machine => { machine with roster := w.rosters.next })))

end StateEngine.Engine
