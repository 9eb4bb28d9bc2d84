import StateEngine.Line

/-! A bench for lines: named tasks that hand in other tasks while they run, and a record of it all. -/
namespace StateEngine.Line

/-- What a task does: it ends, or hands in another task and goes on with the answer. One that handles
errors goes on after them too; an abort ends it in any case. -/
inductive Work where
  | done (v : Value)
  | fail (f : Fault)
  | submit (task : String) (handles : Bool) (next : Except Fault Value → Work)

/-- What a bench records: a task that starts, and the answer to a task that another one handed in, each
with the state of the line at that moment. -/
inductive Record where
  | started (task : String) (busy : Bool) (pending : Nat)
  | answered (task inner : String) (result : Except Fault Value) (busy : Bool) (pending : Nat)

/-- A line and what was recorded of it. -/
structure Bench where
  line : Line String
  records : Array Record := #[]

namespace Bench

/-- The tasks known by name. -/
abbrev Catalogue := String → Work

def slot : Slot Bench String where
  read b := b.line
  write line b := { b with line := line }

private def record (make : Bool → Nat → Record) : Act Bench Unit :=
  Act.change (fun b => { b with records := b.records.push (make b.line.inFlight b.line.pending) })

/-- Carries out the work of a task whose inner tasks are handed in by `hand`. -/
def perform (hand : String → Act Bench Value) (task : String) : Work → Act Bench Value
  | .done v => return v
  | .fail f => Act.fail f
  | .submit inner handles next => do
    let result ← (hand inner).attempt
    match result with
    | .error f =>
      if handles && f.isError then
        record (.answered task inner result)
        perform hand task (next result)
      else Act.fail f
    | .ok _ =>
      record (.answered task inner result)
      perform hand task (next result)

/-- Hands in a task by name. `depth` bounds how deeply calls stand inside one another. -/
def hand (known : Catalogue) (label : String) (bound : Nat) : Nat → String → Act Bench Value
  | 0, _ => Act.exhausted
  | depth + 1, task =>
    let run (t : String) : Act Bench Value := do
      record (.started t)
      perform (hand known label bound depth) t (known t)
    let setting : Setting Bench String :=
      { slot := slot, run := run, remark := fun _ => pure (), label := label, bound := bound }
    setting.submit task

end Bench

/-- A task written as a list of actions. -/
inductive Move where
  | raise (f : Fault)
  | submit (task : String) (handles : Bool)

/-- Moves in order, and then the answer. -/
def Work.ofMoves (answer : Value) : List Move → Work
  | [] => .done answer
  | .raise f :: _ => .fail f
  | .submit task handles :: rest => .submit task handles (fun _ => ofMoves answer rest)

end StateEngine.Line
