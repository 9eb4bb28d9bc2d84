import StateEngine.Number.Rounding

/-! Floating-point numbers of 64 bits, held as their bit pattern and compared without rounding. -/
namespace StateEngine.Number

/-- One double, by its sign, exponent and fraction bits. -/
structure Binary64 where
  bits : UInt64
  deriving DecidableEq, Inhabited

/-- What a bit pattern stands for: a finite one is `mantissa * 2 ^ exponent` under its sign. -/
inductive Shape where
  | undefined
  | infinite (negative : Bool)
  | finite (negative : Bool) (mantissa : Nat) (exponent : Int)
  deriving DecidableEq

namespace Binary64

def negative (x : Binary64) : Bool := decide (twoTo 63 ≤ x.bits.toNat)

private def exponentField (x : Binary64) : Nat := x.bits.toNat / twoTo 52 % twoTo 11

private def fraction (x : Binary64) : Nat := x.bits.toNat % twoTo 52

/-- Exponent field 0 holds zero and the subnormal numbers, the greatest one holds infinity and the
undefined results, and every other one has a hidden leading bit. -/
def shape (x : Binary64) : Shape :=
  if x.exponentField = 2047 then
    if x.fraction = 0 then .infinite x.negative else .undefined
  else if x.exponentField = 0 then .finite x.negative x.fraction (-1074)
  else .finite x.negative (twoTo 52 + x.fraction) (x.exponentField - 1075)

/-- A finite double counted in units of `2 ^ -1074`, of which every finite double is a multiple. -/
def units (x : Binary64) : Option Int :=
  match x.shape with
  | .finite negative mantissa exponent =>
    let size : Int := mantissa * twoTo (exponent + 1074).toNat
    some (if negative then -size else size)
  | _ => none

/-- Numeric equality: both zeros are equal, and an undefined result equals nothing. -/
def same (x y : Binary64) : Bool :=
  match x.shape, y.shape with
  | .undefined, _ | _, .undefined => false
  | .infinite s, .infinite t => s == t
  | _, _ => match x.units, y.units with
    | some a, some b => a == b
    | _, _ => false

/-- A double equals an integer exactly when no rounding is needed between them. -/
def equalsInt (x : Binary64) (n : Int) : Bool :=
  match x.units with
  | some a => a == n * twoTo 1074
  | none => false

def isZero (x : Binary64) : Bool := x.equalsInt 0

/-- The double nearest to a whole number, unless that lies beyond all of them. The leading bit of the
rounded mantissa counts as one more in the exponent field, and so does a carry of the rounding. -/
def ofInt (n : Int) : Option Binary64 :=
  let size := n.natAbs
  let bits := if size = 0 then 0
    else (size.log2 + 1022) * twoTo 52 + nearest (size * twoTo 52) (twoTo size.log2)
  if bits < 2047 * twoTo 52 then some ⟨UInt64.ofNat (bits + if n < 0 then twoTo 63 else 0)⟩ else none

theorem same_comm (x y : Binary64) : x.same y = y.same x := by
  unfold same
  cases hx : x.shape <;> cases hy : y.shape <;> simp only
  · exact Bool.beq_comm
  all_goals
    cases x.units <;> cases y.units <;> simp only
    exact BEq.comm

end Binary64

end StateEngine.Number
