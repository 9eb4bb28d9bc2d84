import StateEngine.Act

/-! Lines: in which order the tasks of a machine run. A direct line runs a task at once and refuses
another one meanwhile. A queued line keeps the running task at its head and those handed in meanwhile
behind it, and the first caller works it off. -/
namespace StateEngine

inductive Line (τ : Type) where
  | direct (busy : Bool)
  | queued (tasks : List τ)

namespace Line

variable {σ τ : Type}

instance : Inhabited (Line τ) := ⟨.direct false⟩

def idle (isQueued : Bool) : Line τ := if isQueued then .queued [] else .direct false

def inFlight : Line τ → Bool
  | .direct busy => busy
  | .queued tasks => !tasks.isEmpty

/-- How many tasks a queue holds, the running one included. -/
def pending : Line τ → Nat
  | .direct _ => 0
  | .queued tasks => tasks.length

/-- The refusal of a task while another one runs. -/
def busyMessage (label : String) : String :=
  label ++ "Attempt to process events synchronously while a transition is already in progress!"

/-- Where a world keeps a line. -/
structure Slot (σ τ : Type) where
  read : σ → Line τ
  write : Line τ → σ → σ

/-- What a line needs of its surroundings: its place, how a task runs, where remarks go, the name in
front of its messages, and how many tasks one caller may work off. -/
structure Setting (σ τ : Type) where
  slot : Slot σ τ
  run : τ → Act σ Value
  remark : String → Act σ Unit
  label : String
  bound : Nat

namespace Setting

def store (S : Setting σ τ) (line : Line τ) : Act σ Unit := Act.change (S.slot.write line)

@[simp] theorem store_apply (S : Setting σ τ) (line : Line τ) (s : σ) :
    S.store line s = (.ok (), S.slot.write line s) := rfl

/-- Runs the task at the head of the queue and takes the head off; nothing can be taken off an empty
queue. -/
def serve (S : Setting σ τ) (task : τ) : Act σ Unit := do
  let _ ← S.run task
  match S.slot.read (← get) with
  | .queued (_ :: rest) => S.store (.queued rest)
  | _ => Act.fail .missingIndex

/-- Ends the work on a queue with a fault. An error empties it; an abort leaves it as it is. -/
def abandon (S : Setting σ τ) (f : Fault) : Act σ Value := do
  if f.isError then
    let count := (S.slot.read (← get)).pending
    S.remark (S.label ++ "Discarding " ++ Nat.repr count ++ " queued trigger(s) after error.")
    S.store (.queued [])
  Act.fail f

/-- Works off the queue from its head, up to its end or to the first fault. A task leaves the queue
after its run. -/
def drain (S : Setting σ τ) : Nat → Act σ Value
  | 0 => Act.exhausted
  | fuel + 1 => do
    match S.slot.read (← get) with
    | .queued (task :: _) =>
      match ← (S.serve task).attempt with
      | .ok () => S.drain fuel
      | .error f => S.abandon f
    | _ => return .bool true

/-- Hands in a task. On a direct line the caller gets what the task returns; on a queued one the task
may run later, so the caller is told no more than that it was taken. -/
def submit (S : Setting σ τ) (task : τ) : Act σ Value := do
  match S.slot.read (← get) with
  | .direct true => Act.fail (.misuse (busyMessage S.label))
  | .direct false =>
    S.store (.direct true)
    let ended ← (S.run task).attempt
    S.store (.direct false)
    Act.ofExcept ended
  | .queued [] =>
    S.store (.queued [task])
    S.drain S.bound
  | .queued tasks =>
    S.store (.queued (tasks ++ [task]))
    S.remark (S.label ++ "Queued trigger behind " ++ Nat.repr tasks.length ++ " pending.")
    return .bool true

end Setting

end Line

end StateEngine
