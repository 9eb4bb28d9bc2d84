import StateEngine.Number.Binary64

/-! The shortest decimal text of a double: the fewest digits that read back as the same double. -/
namespace StateEngine.Number

/-- The number `digits * 10 ^ exponent`. -/
structure Decimal where
  digits : Nat
  exponent : Int
  deriving DecidableEq

namespace Decimal

/-- How many decimal digits a number has; zero has one. -/
def width (n : Nat) : Nat := (Nat.toDigits 10 n).length

def dropZeros : Nat → Decimal → Decimal
  | 0, d => d
  | fuel + 1, d =>
    if d.digits ≠ 0 ∧ d.digits % 10 = 0 then dropZeros fuel ⟨d.digits / 10, d.exponent + 1⟩ else d

/-- The same number with no zero at the end of its digits. -/
def normal (d : Decimal) : Decimal := dropZeros (width d.digits) d

/-- The exponent of ten of the first digit. -/
def leading (d : Decimal) : Int := d.exponent + width d.digits - 1

end Decimal

/-- The number of digits of `a / b` in front of the decimal point; zero or less counts the zeros behind
it. -/
def magnitude (a b : Nat) : Int :=
  if b ≤ a then Decimal.width (a / b)
  else match (List.range 400).find? (fun (j : Nat) => decide (b ≤ a * tenTo j)) with
    | some j => 1 - j
    | none => 0

/-- The reals between `low / unit` and `high / unit` that round to `middle / unit`. -/
structure Neighbourhood where
  low : Nat
  middle : Nat
  high : Nat
  unit : Nat
  closed : Bool

namespace Neighbourhood

/-- The ends are halfway to the next doubles; they belong to it when the mantissa is even. The gap
below a power of two is half as wide as the one above, save at the least exponent. -/
def ofBinary (mantissa : Nat) (exponent : Int) : Neighbourhood :=
  let step := twoTo exponent.toNat
  let below := if mantissa = twoTo 52 ∧ exponent ≠ -1074 then step else 2 * step
  { low := 4 * mantissa * step - below
    middle := 4 * mantissa * step
    high := 4 * mantissa * step + 2 * step
    unit := 4 * twoTo (-exponent).toNat
    closed := mantissa % 2 == 0 }

def holds (r : Neighbourhood) (d : Decimal) : Bool :=
  let point := d.digits * (r.unit * tenTo d.exponent.toNat)
  let scale := tenTo (-d.exponent).toNat
  if r.closed then decide (r.low * scale ≤ point ∧ point ≤ r.high * scale)
  else decide (r.low * scale < point ∧ point < r.high * scale)

private def distance (r : Neighbourhood) (d : Decimal) : Nat :=
  let point := d.digits * (r.unit * tenTo d.exponent.toNat)
  let middle := r.middle * tenTo (-d.exponent).toNat
  (point - middle) + (middle - point)

/-- The multiple of `10 ^ exponent` in the neighbourhood that is nearest to its middle, of two
equally near ones the even one. -/
def onGrid (r : Neighbourhood) (exponent : Int) : Option Decimal :=
  let lower := r.middle * tenTo (-exponent).toNat / (r.unit * tenTo exponent.toNat)
  let d : Decimal := ⟨lower, exponent⟩
  let u : Decimal := ⟨lower + 1, exponent⟩
  match r.holds d, r.holds u with
  | false, false => none
  | true, false => some d
  | false, true => some u
  | true, true =>
    if r.distance d < r.distance u then some d
    else if r.distance u < r.distance d then some u
    else if lower % 2 = 0 then some d else some u

/-- Grids from one digit to seventeen are tried in turn; seventeen digits tell all doubles apart. -/
def shortest (r : Neighbourhood) : Decimal :=
  let found := (List.range 17).findSome? (fun (n : Nat) =>
    r.onGrid (magnitude r.middle r.unit - (n + 1)))
  (found.getD ⟨0, 0⟩).normal

end Neighbourhood

/-- How a format writes a finite number: the leading exponents written positionally, and the least
number of digits of the others' exponent. -/
structure NumberStyle where
  leastPositional : Int
  greatestPositional : Int
  exponentWidth : Nat

/-- An exponent with its sign and at least `width` digits. -/
def exponentText (width : Nat) (exponent : Int) : String :=
  let digits := Nat.repr exponent.natAbs
  (if exponent < 0 then "-" else "+") ++ String.ofList (List.replicate (width - digits.length) '0') ++
    digits

namespace NumberStyle

def zeros (n : Nat) : String := String.ofList (List.replicate n '0')

def positional (d : Decimal) : String :=
  let digits := Nat.repr d.digits
  if 0 ≤ d.exponent then digits ++ zeros d.exponent.toNat ++ ".0"
  else
    let places := (-d.exponent).toNat
    let padded := zeros (places + 1 - digits.length) ++ digits
    let whole := padded.length - places
    String.ofList (padded.toList.take whole) ++ "." ++ String.ofList (padded.toList.drop whole)

def scientific (width : Nat) (d : Decimal) : String :=
  let digits := (Nat.repr d.digits).toList
  let mantissa := match digits with
    | [] => ""
    | [c] => c.toString
    | c :: rest => c.toString ++ "." ++ String.ofList rest
  mantissa ++ "e" ++ exponentText width d.leading

/-- The text of a finite double in a style; the other doubles have no digits. -/
def write (style : NumberStyle) (x : Binary64) : Option String :=
  match x.shape with
  | .finite negative mantissa exponent =>
    let sign := if negative then "-" else ""
    if mantissa = 0 then some (sign ++ "0.0")
    else
      let d := (Neighbourhood.ofBinary mantissa exponent).shortest
      let body :=
        if style.leastPositional ≤ d.leading ∧ d.leading ≤ style.greatestPositional then positional d
        else scientific style.exponentWidth d
      some (sign ++ body)
  | _ => none

end NumberStyle

end StateEngine.Number
