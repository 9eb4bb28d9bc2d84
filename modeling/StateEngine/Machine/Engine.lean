import StateEngine.Machine.Registry

/-! Models and callables as a machine sees them: reading and writing attributes, keeping the state of a
model, and finding and calling what a callback stands for. -/
namespace StateEngine

/-- What a callable is called with: arguments, or a firing alone. -/
inductive Call where
  | arguments (args : List Value) (named : Named)
  | firing (id : FiringId)

/-- What the engine needs to run host code: the importable modules, how the callback of a name runs under
a label, and how many rounds a loop may take. -/
structure Engine where
  modules : List (String × List (String × Value))
  call : String → String → Call → Run Value
  bound : Nat

namespace Engine

/-- Reads an attribute of a model: a property runs, and an attribute hides a method of its name. -/
def readAttribute (E : Engine) (owner : Value) (name : String) : Run Value := do
  match owner with
  | .model m =>
    let model := (← get).model m
    match model.properties.find? name with
    | some callback => E.call (m ++ "." ++ name) callback (.arguments [] [])
    | none =>
      match model.attributes.find? name, model.methods.find? name with
      | some v, _ => return v
      | none, some callback => return .method m name callback
      | none, none => Act.fail .missingAttribute
  | _ => Act.fail .missingAttribute

/-- Reads an attribute that may be missing. -/
def readAttribute? (E : Engine) (owner : Value) (name : String) : Run (Option Value) := do
  match ← (E.readAttribute owner name).attempt with
  | .ok v => return some v
  | .error f => if f.isMissingAttribute then return none else Act.fail f

end Engine

/-- Writes an attribute of a model; properties cannot be written. -/
def World.writeAttribute (w : World) (owner : Value) (name : String) (v : Value) :
    Except Fault World :=
  match owner with
  | .model m =>
    if (w.model m).properties.contains name then .error .missingAttribute
    else .ok (w.updateModel m (fun model =>
      { model with attributes := model.attributes.insert name v }))
  | _ => .error .missingAttribute

/-- Removes an attribute that a model itself has. -/
def World.dropAttribute (w : World) (owner : Value) (name : String) : Except Fault World :=
  match owner with
  | .model m =>
    if !(w.model m).properties.contains name && (w.model m).attributes.contains name then
      .ok (w.updateModel m (fun model => { model with attributes := model.attributes.erase name }))
    else .error .missingAttribute
  | _ => .error .missingAttribute

namespace Engine

/-- Reads where the state of a model is kept. -/
def readState (E : Engine) (m : MachineId) (model : Value) : Run Value := do
  match ((← get).machine m).accessor with
  | .field name => E.readAttribute model name
  | .ledger _ id =>
    match ((← get).ledgers.get id).find? model with
    | some v =>
      Act.change (fun w => w.record (.stateRead model v))
      return v
    | none => Act.fail .missingKey

/-- Writes where the state of a model is kept. -/
def writeState (m : MachineId) (model v : Value) : Run Unit := do
  match ((← get).machine m).accessor with
  | .field name => Act.advance (fun w => w.writeAttribute model name v)
  | .ledger _ id =>
    Act.change (fun w =>
      { w with ledgers := w.ledgers.modify id (·.insert model v) }.record (.stateWritten model v))

/-- The registered state that a model is in. -/
def currentState (E : Engine) (m : MachineId) (model : Value) : Run StateId := do
  let v ← E.readState m model
  Act.ask (fun w => w.lookupState m v)

end Engine

/-- What a value does when it is called. -/
inductive Target where
  | host (label callback : String)
  | constant (v : Value)
  | membership (enumeration : String) (members : List Value)
  | truth
  | refusal

namespace Target

def ofValue : Value → Target
  | .callback name => .host name name
  | .method m name callback => .host (m ++ "." ++ name) callback
  | .enumeration e textual members => .membership e (Value.membersOf e textual members)
  | _ => .refusal

def callable : Target → Bool
  | .refusal => false
  | _ => true

/-- The member that equals a value, or whose own value does. -/
private def memberFor (members : List Value) (v : Value) : Option Value :=
  members.find? (fun m => match m with
    | .member _ _ _ own => m.same v || own == v
    | _ => false)

/-- Calls a target. A constant takes any arguments, the others but host code exactly one. -/
def apply (E : Engine) (target : Target) (call : Call) : Run Value :=
  match target, call with
  | .host label callback, c => E.call label callback c
  | .constant v, _ => return v
  | .membership e members, .arguments [v] [] =>
    match memberFor members v with
    | some m => return m
    | none => Act.fail (.notAMember v e)
  | .membership e _, .firing _ => Act.fail (.notAMember (.object 0 "firing") e)
  | .truth, .arguments [v] [] => return .bool v.truthy
  | .truth, .firing _ => return .bool true
  | _, _ => Act.fail .wrongType

end Target

/-- The characters in front of the last dot of a path and those behind it. -/
def splitPath (path : String) : Option (String × String) :=
  let reversed := path.toList.reverse
  let behind := reversed.takeWhile (fun c => c != '.')
  match reversed.dropWhile (fun c => c != '.') with
  | [] => none
  | _ :: front => some (String.ofList front.reverse, String.ofList behind.reverse)

namespace Engine

/-- An attribute of an importable module. -/
def moduleAttribute (E : Engine) (moduleName attributeName : String) : Option Target :=
  match moduleName, attributeName with
  | "operator", "truth" => some .truth
  | _, _ =>
    (E.modules.lookup moduleName).bind (fun m => (m.lookup attributeName).map Target.ofValue)

/-- Finds a dotted name among the modules. No module has an empty name, and a module name that starts with a
dot is relative to nothing, which is an error of its own kind. -/
def importCallable (E : Engine) (name : Value) (path : String) : Except Fault Target :=
  match splitPath path with
  | none => .error (.unresolved name)
  | some (moduleName, attributeName) =>
    if moduleName = "" then .error (.unresolved name)
    else if moduleName.startsWith "." then .error .wrongType
    else match E.moduleAttribute moduleName attributeName with
      | some target => if target.callable then .ok target else .error (.unresolved name)
      | none => .error (.unresolved name)

/-- Finds what a callback name stands for: an attribute of the firing's model, as a constant if it cannot
be called, or else an importable callable. -/
def resolveName (E : Engine) (m : MachineId) (name : Value) (path : String) (i : FiringId) :
    Run Target := do
  match ((← get).machine m).resolver with
  | .standard =>
    match ← E.readAttribute? ((← get).firings.get i).model path with
    | some v =>
      let target := Target.ofValue v
      return if target.callable then target else .constant v
    | none => Act.ofExcept (E.importCallable name path)
  | .table callbacks =>
    Act.change (fun w => w.record (.resolving name))
    match callbacks.lookup path with
    | some callback => return .host callback callback
    | none => Act.fail (.unresolved name)

/-- What a callback stands for: a text is looked up by name, anything else stands for itself. -/
def resolve (E : Engine) (m : MachineId) (callback : Callback) (i : FiringId) : Run Target :=
  match callback.text? with
  | some path => E.resolveName m callback path i
  | none => return Target.ofValue callback

/-- What callbacks of a machine are called with: the firing, or the arguments of the trigger. -/
def callFor (m : MachineId) (i : FiringId) : Run Call := do
  let w ← get
  if (w.machine m).sendEvent.truthy then return .firing i
  else return .arguments (w.firings.get i).args (w.firings.get i).named

/-- Resolves a callback and calls it for a firing. -/
def consult (E : Engine) (m : MachineId) (callback : Callback) (i : FiringId) : Run Value := do
  let target ← E.resolve m callback i
  target.apply E (← callFor m i)

/-- Runs one callback of a stage. -/
def runCallback (E : Engine) (m : MachineId) (callback : Callback) (i : FiringId) : Run Unit := do
  let _ ← E.consult m callback i
  remark m .debug .machine ("Executed callback '" ++ callback.display ++ "'")

/-- Runs the callbacks of a list in order. -/
def runCallbacks (E : Engine) (m : MachineId) (callbacks : List Callback) (i : FiringId) : Run Unit :=
  callbacks.forM (fun c => E.runCallback m c i)

/-- Runs the callbacks of a list that may grow meanwhile: those added while it runs are run too. -/
def runGrowing (E : Engine) (m : MachineId) (read : World → List Callback) (i : FiringId) :
    Nat → Nat → Run Unit
  | 0, _ => Act.exhausted
  | fuel + 1, position => do
    match (read (← get))[position]? with
    | some callback =>
      E.runCallback m callback i
      E.runGrowing m read i fuel (position + 1)
    | none => return ()

/-- Whether a guard lets a firing pass. -/
def check (E : Engine) (m : MachineId) (guard : Guard) (i : FiringId) : Run Bool := do
  return (← E.consult m guard.predicate i).same guard.target

end Engine

end StateEngine
