import StateEngine.Line

/-! Tasks of any kind at a line. They work on a state of their own, hand in tasks while they run and go
on with the answers; a desk notes what happens, each time with the line at that moment. -/
namespace StateEngine.Line

/-- What a task does from some point on. One that hands in another task goes on with the answer, which
it may handle or pass on; looking and changing stand for all else that it does. -/
inductive Job (η τ : Type) where
  | done (v : Value)
  | fail (f : Fault)
  | look (next : η → Job η τ)
  | change (f : η → η) (next : Job η τ)
  | submit (task : τ) (next : Except Fault Value → Job η τ)

inductive Happening (τ : Type) where
  | called (task : τ)
  | answered (task : τ) (answer : Except Fault Value)
  | started (task : τ)
  | ended (task : τ) (outcome : Except Fault Value)

/-- What happened and the line at that moment. -/
structure Note (τ : Type) where
  happening : Happening τ
  line : Line τ

/-- A line, the state that the tasks share, and the notes so far. -/
structure Desk (η τ : Type) where
  line : Line τ
  host : η
  notes : List (Note τ) := []

/-- The beginning or the end of a run of a task. -/
inductive Edge (τ : Type) where
  | start (task : τ)
  | stop (task : τ)

section Views

variable {τ : Type}

@[simp] def Note.called? (n : Note τ) : Option τ := match n.happening with
  | .called task => some task
  | _ => none

@[simp] def Note.started? (n : Note τ) : Option τ := match n.happening with
  | .started task => some task
  | _ => none

@[simp] def Note.edge? (n : Note τ) : Option (Edge τ) := match n.happening with
  | .started task => some (.start task)
  | .ended task _ => some (.stop task)
  | _ => none

/-- The tasks handed in, in order. -/
def calls (notes : List (Note τ)) : List τ := notes.filterMap Note.called?

/-- The tasks run, in the order of their starts. -/
def starts (notes : List (Note τ)) : List τ := notes.filterMap Note.started?

def edges (notes : List (Note τ)) : List (Edge τ) := notes.filterMap Note.edge?

@[simp] theorem calls_nil : calls ([] : List (Note τ)) = [] := rfl

@[simp] theorem starts_nil : starts ([] : List (Note τ)) = [] := rfl

@[simp] theorem edges_nil : edges ([] : List (Note τ)) = [] := rfl

@[simp] theorem calls_cons (n : Note τ) (notes : List (Note τ)) :
    calls (n :: notes) = n.called?.toList ++ calls notes := by
  rw [calls, List.filterMap_cons]
  cases n.called? <;> rfl

@[simp] theorem starts_cons (n : Note τ) (notes : List (Note τ)) :
    starts (n :: notes) = n.started?.toList ++ starts notes := by
  rw [starts, List.filterMap_cons]
  cases n.started? <;> rfl

@[simp] theorem edges_cons (n : Note τ) (notes : List (Note τ)) :
    edges (n :: notes) = n.edge?.toList ++ edges notes := by
  rw [edges, List.filterMap_cons]
  cases n.edge? <;> rfl

@[simp] theorem calls_append (a b : List (Note τ)) : calls (a ++ b) = calls a ++ calls b :=
  List.filterMap_append

@[simp] theorem starts_append (a b : List (Note τ)) : starts (a ++ b) = starts a ++ starts b :=
  List.filterMap_append

@[simp] theorem edges_append (a b : List (Note τ)) : edges (a ++ b) = edges a ++ edges b :=
  List.filterMap_append

end Views

namespace Desk

variable {η τ : Type}

def slot : Slot (Desk η τ) τ where
  read d := d.line
  write line d := { d with line := line }

def note (h : Happening τ) : Act (Desk η τ) Unit :=
  Act.change (fun d => { d with notes := d.notes ++ [⟨h, d.line⟩] })

/-- Carries out a job whose inner tasks are handed in by `hand`. -/
def perform (hand : τ → Act (Desk η τ) Value) : Job η τ → Act (Desk η τ) Value
  | .done v => return v
  | .fail f => Act.fail f
  | .look next => do perform hand (next (← get).host)
  | .change f next => do
    Act.change (fun d => { d with host := f d.host })
    perform hand next
  | .submit task next => do
    let answer ← (hand task).attempt
    perform hand (next answer)

/-- Runs a task from its start to its end. -/
def work (code : τ → Job η τ) (hand : τ → Act (Desk η τ) Value) (task : τ) : Act (Desk η τ) Value := do
  note (.started task)
  let outcome ← (perform hand (code task)).attempt
  note (.ended task outcome)
  Act.ofExcept outcome

def setting (label : String) (bound : Nat) (run : τ → Act (Desk η τ) Value) : Setting (Desk η τ) τ where
  slot := slot
  run := run
  remark := fun _ => pure ()
  label := label
  bound := bound

/-- Hands in a task. `depth` bounds how deeply calls stand inside one another and `bound` how many tasks
one caller works off. -/
def hand (code : τ → Job η τ) (label : String) (bound : Nat) : Nat → τ → Act (Desk η τ) Value
  | 0, _ => Act.exhausted
  | depth + 1, task => do
    note (.called task)
    let answer ← ((setting label bound (work code (hand code label bound depth))).submit task).attempt
    note (.answered task answer)
    Act.ofExcept answer

end Desk

end StateEngine.Line
