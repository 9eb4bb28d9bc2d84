import StateEngine.Machine.Operation

/-! Host code: what callbacks do when they run, and how the engine runs them in turn. -/
namespace StateEngine

/-- What a callback does from some point on: it ends, reads an attribute, or performs an operation and
goes on with the answer. What it asks for may depend on the world at that moment. -/
inductive Program where
  | done (v : Value)
  | fail (f : Fault)
  | read (owner : Value) (name : String) (next : Except Fault Value → Program)
  | perform (verb : String) (request : World → Except Fault Operation)
      (next : Except Fault Reply → Program)

/-- A host: the modules that can be imported, and what each callback does when it is called, given the
world at that moment and how often it was called before. -/
structure Host where
  modules : List (String × List (String × Value)) := []
  behaviour : String → Call → World → Nat → Program

namespace Engine

/-- An operation that is put together from the world in which it is performed. -/
def request (E : Engine) (op : World → Except Fault Operation) : Run Reply := do
  Act.change (fun w => { w with requests := w.requests + 1 })
  E.perform (← Act.ask op)

/-- Runs a program; what it performs is recorded when it ends. -/
def runProgram (E : Engine) : Program → Run Value
  | .done v => return v
  | .fail f => Act.fail f
  | .read owner name next => do
    let result ← (E.readAttribute owner name).attempt
    E.runProgram (next result)
  | .perform verb op next => do
    let result ← (E.request op).attempt
    Act.change (World.record (.performed verb result))
    E.runProgram (next result)

/-- The entry of a call in the history. -/
def callEntry (w : World) (label : String) : Call → Entry
  | .arguments args named => .called label args named
  | .firing i => .notified label (w.snapshot i)

/-- Records a call and counts it; tells how many came before. -/
def enterCallback (label callback : String) (call : Call) : Run Nat := do
  let w ← get
  let before := (w.invocations.find? callback).getD 0
  set ({ w with invocations := w.invocations.insert callback (before + 1) }.record
    (callEntry w label call))
  return before

/-- An engine for a host. Calls may stand inside one another `depth` times. -/
def ofHost (host : Host) (bound : Nat) : Nat → Engine
  | 0 => { modules := host.modules, call := fun _ _ _ => Act.exhausted, bound := bound }
  | depth + 1 =>
    { modules := host.modules
      call := fun label callback call => do
        let before ← enterCallback label callback call
        (ofHost host bound depth).runProgram (host.behaviour callback call (← get) before)
      bound := bound }

end Engine

end StateEngine
