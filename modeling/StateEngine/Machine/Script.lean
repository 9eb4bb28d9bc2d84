import StateEngine.Machine.Program

/-! Scripts: callbacks written as a list of actions and an answer, and runs of operations one after the
other. -/
namespace StateEngine

/-- An operation that a host asks for, under the word that the history shows for it. -/
structure Step where
  verb : String
  request : World → Except Fault Operation

inductive Action where
  | raise (f : Fault)
  | perform (step : Step) (handles : Bool)

/-- What a callback returns: a value, one of a sequence by the number of the call, an argument of the
trigger by place or name, or what an attribute holds by then. -/
inductive Answer where
  | constant (v : Value)
  | sequence (vs : List Value)
  | argument (index : Nat)
  | named (name : String)
  | held (owner : Value) (name : String)

/-- A callback. Its actions run in its first `limit` calls, or in every one. -/
structure Script where
  actions : List Action := []
  limit : Option Nat := none
  answer : Answer := .constant .null

namespace Script

/-- The arguments that a call brings, its own or those of its firing. -/
def argumentsOf (w : World) : Call → List Value × Named
  | .arguments args named => (args, named)
  | .firing i => ((w.firings.get i).args, (w.firings.get i).named)

private def fromResult : Except Fault Value → Program
  | .ok v => .done v
  | .error f => .fail f

/-- The end of a callback: the last element of a sequence stands for all later calls. -/
def conclude (w : World) (call : Call) (before : Nat) : Answer → Program
  | .constant v => .done v
  | .sequence vs => .done ((vs[before]?).getD (vs.getLast?.getD .null))
  | .argument index => .done (((argumentsOf w call).1[index]?).getD .null)
  | .named name => .done (((argumentsOf w call).2.lookup name).getD .null)
  | .held owner name => .read owner name fromResult

/-- The actions in order, up to one that raises or whose fault is not handled, and then the end. An action
that handles faults handles an abort too. -/
def follow (conclusion : Program) : List Action → Program
  | [] => conclusion
  | .raise f :: _ => .fail f
  | .perform step handles :: rest =>
    .perform step.verb step.request (fun result => match result with
      | .ok _ => follow conclusion rest
      | .error f => if handles then follow conclusion rest else .fail f)

def program (s : Script) (call : Call) (w : World) (before : Nat) : Program :=
  let active := match s.limit with
    | none => true
    | some n => decide (before < n)
  follow (conclude w call before s.answer) (if active then s.actions else [])

end Script

/-- The host whose callbacks are scripts. A callback without a script cannot be called. -/
def Host.ofScripts (modules : List (String × List (String × Value)))
    (scripts : List (String × Script)) : Host where
  modules := modules
  behaviour := fun name call w before =>
    match scripts.lookup name with
    | some s => s.program call w before
    | none => .fail .missingKey

/-- What a step of a run shows: how it ended, the entries it added to the history, and the world. -/
structure StepReport where
  ended : Except Stop Reply
  entries : List Entry
  world : World

/-- Performs one step on a world whose history is empty again. -/
def Engine.runStep (E : Engine) (w : World) (step : Step) : StepReport :=
  let (ended, after) := E.request step.request { w with history := #[] }
  { ended := ended, entries := after.history.toList, world := after }

/-- Performs steps one after the other, each on the world that the one before left. -/
def Engine.runSteps (E : Engine) : World → List Step → List StepReport
  | _, [] => []
  | w, step :: rest =>
    let report := E.runStep w step
    report :: E.runSteps report.world rest

end StateEngine
