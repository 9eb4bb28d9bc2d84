import StateEngine.Fault

/-! Arguments of a row of transitions: one value serves them all, and a list gives one to each. -/
namespace StateEngine

/-- The items of an argument; no argument is one empty item. -/
def entriesOf : Value → List Value
  | .null => [.null]
  | v => v.items

/-- One entry for each of `count` places: a single item is repeated, and any other number of items than
`count` is refused. -/
def spread (count : Int) (argument : Value) : Except Fault (List Value) :=
  match entriesOf argument with
  | [v] => .ok (List.replicate count.toNat v)
  | vs => if (vs.length : Int) = count then .ok vs else .error .argumentCount

/-- The same for a count that is any value: only a whole number can repeat an item, and more items have to
be equal in number to it. -/
def spreadOver (count argument : Value) : Except Fault (List Value) :=
  match entriesOf argument, count with
  | [_], .int n =>
    if n < -(Number.twoTo 63 : Int) ∨ (Number.twoTo 63 : Int) ≤ n then .error .overflow
    else if (greatestSize : Int) < n then .error .outOfMemory
    else spread n argument
  | [_], .bool b => spread (if b then 1 else 0) argument
  | [_], _ => .error .wrongType
  | vs, n => if (Value.int vs.length).same n then .ok vs else .error .argumentCount

/-- An accepted argument has exactly as many entries as there are places. -/
theorem length_of_spread {count : Nat} {argument : Value} {vs : List Value}
    (h : spread count argument = .ok vs) : vs.length = count := by
  unfold spread at h
  split at h
  · cases h; simp
  · split at h
    · cases h; omega
    · cases h

end StateEngine
