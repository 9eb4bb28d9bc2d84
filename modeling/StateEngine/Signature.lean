import StateEngine.Fault

/-! Named parameters: how the arguments of a call, given by position or by name, find their place. -/
namespace StateEngine

/-- A parameter; one without a default has to be given. -/
structure Parameter where
  name : String
  default : Option Value

/-- The parameters of an operation, in order. -/
abbrev Signature := List Parameter

namespace Signature

private def fill (named : List (String × Value)) : Signature → Except Fault (List Value)
  | [] => .ok []
  | p :: rest =>
    match (named.lookup p.name).or p.default with
    | some v => (fill named rest).map (v :: ·)
    | none => .error .wrongType

private def place (named : List (String × Value)) : Signature → List Value → Except Fault (List Value)
  | signature, [] => fill named signature
  | [], _ :: _ => .error .wrongType
  | p :: rest, v :: vs =>
    if (named.lookup p.name).isSome then .error .wrongType else (place named rest vs).map (v :: ·)

/-- One value for each parameter: those by position first, then those by name, then the defaults.
Too many values, an unknown name, a value given twice and a missing one are refused. -/
def bind (signature : Signature) (positional : List Value) (named : List (String × Value)) :
    Except Fault (List Value) :=
  if named.all (fun n => signature.any (fun p => p.name == n.1)) then place named signature positional
  else .error .wrongType

private theorem length_fill {named : List (String × Value)} {signature : Signature} {vs : List Value}
    (h : fill named signature = .ok vs) : vs.length = signature.length := by
  induction signature generalizing vs with
  | nil => cases h; rfl
  | cons p rest ih =>
    unfold fill at h
    split at h
    · cases hr : fill named rest with
      | error e => rw [hr] at h; cases h
      | ok ws => rw [hr] at h; cases h; simp [ih hr]
    · cases h

private theorem length_place {named : List (String × Value)} {signature : Signature}
    {positional vs : List Value} (h : place named signature positional = .ok vs) :
    vs.length = signature.length := by
  induction signature generalizing positional vs with
  | nil =>
    cases positional with
    | nil => exact length_fill h
    | cons v rest => cases h
  | cons p rest ih =>
    cases positional with
    | nil => exact length_fill h
    | cons v given =>
      unfold place at h
      split at h
      · cases h
      · cases hr : place named rest given with
        | error e => rw [hr] at h; cases h
        | ok ws => rw [hr] at h; cases h; simp [ih hr]

/-- A call that is accepted has a value for every parameter. -/
theorem length_bind {signature : Signature} {positional vs : List Value}
    {named : List (String × Value)} (h : bind signature positional named = .ok vs) :
    vs.length = signature.length := by
  unfold bind at h
  split at h
  · exact length_place h
  · cases h

/-- A call that gives everything by name, and nothing under an unknown one, gets for each parameter what is given
under its name, or else its default. -/
theorem bind_named {signature : Signature} {named : List (String × Value)} {vs : List Value}
    (known : ∀ n ∈ named, ∃ p ∈ signature, p.name = n.1)
    (given : signature.mapM (fun p => (named.lookup p.name).or p.default) = some vs) :
    bind signature [] named = .ok vs := by
  have all : named.all (fun n => signature.any (fun p => p.name == n.1)) = true := by
    simpa using known
  rw [bind, if_pos all, place]
  clear known all
  induction signature generalizing vs with
  | nil =>
    obtain rfl : vs = [] := by simpa using given.symm
    rfl
  | cons p rest ih =>
    simp only [List.mapM_cons, Option.bind_eq_bind, Option.bind_eq_some_iff, Option.pure_def,
      Option.some.injEq] at given
    obtain ⟨v, hv, ws, hws, rfl⟩ := given
    rw [fill, hv, ih hws]
    rfl

end Signature

end StateEngine
