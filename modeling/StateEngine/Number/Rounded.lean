import StateEngine.Number.Shortest

/-! The decimal text of a double with a given number of digits. -/
namespace StateEngine.Number

/-- What a number of digits counts: those behind the point, those behind the point of a mantissa with an
exponent, or all of them, in the one or the other form as the number is not too great or small. -/
inductive DigitForm where
  | fixed
  | scientific
  | general
  deriving DecidableEq

/-- A form and its number of digits. A full text keeps a point with nothing behind it, and in the general
form the zeros at the end. -/
structure RoundedStyle where
  form : DigitForm
  digits : Nat
  full : Bool := false
  upper : Bool := false

namespace RoundedStyle

/-- The digits of a number, with zeros in front up to a width. -/
private def digitsOf (width n : Nat) : List Char :=
  let digits := Nat.toDigits 10 n
  List.replicate (width - digits.length) '0' ++ digits

/-- The first `count` digits of `a / b`, the last one rounded, and the exponent of ten of the first one. A
carry out of the first digit leaves one digit too many, which is a zero. -/
def leadingDigits (count a b : Nat) : List Char × Int :=
  if a = 0 then (digitsOf count 0, 0)
  else
    let top := magnitude a b
    let shift := top - count
    let n := nearest (a * tenTo (-shift).toNat) (b * tenTo shift.toNat)
    if n < tenTo count then (digitsOf count n, top - 1) else (digitsOf count (n / 10), top)

private def joined (full : Bool) (whole fraction : List Char) : List Char :=
  if fraction.isEmpty && !full then whole else whole ++ '.' :: fraction

/-- Drops the zeros at the end, unless the text is to be full. -/
private def trimmed (full : Bool) (fraction : List Char) : List Char :=
  if full then fraction else (fraction.reverse.dropWhile (fun c => c == '0')).reverse

private def fixedText (full : Bool) (places a b : Nat) : List Char :=
  let digits := digitsOf (places + 1) (nearest (a * tenTo places) b)
  let whole := digits.length - places
  joined full (digits.take whole) (digits.drop whole)

private def withExponent (mantissa : List Char) (exponent : Int) : List Char :=
  mantissa ++ 'e' :: (exponentText 2 exponent).toList

private def scientificText (full : Bool) (places a b : Nat) : List Char :=
  let (digits, exponent) := leadingDigits (places + 1) a b
  withExponent (joined full (digits.take 1) (digits.drop 1)) exponent

/-- From 0.0001 on, and as long as the digits reach the point, no exponent is written. -/
private def generalText (full : Bool) (count a b : Nat) : List Char :=
  let (digits, exponent) := leadingDigits count a b
  if exponent < -4 ∨ (count : Int) ≤ exponent then
    withExponent (joined full (digits.take 1) (trimmed full (digits.drop 1))) exponent
  else if exponent < 0 then
    joined full ['0'] (trimmed full (List.replicate (-exponent - 1).toNat '0' ++ digits))
  else
    let whole := exponent.toNat + 1
    joined full (digits.take whole) (trimmed full (digits.drop whole))

/-- The text of a double without its sign. -/
def write (style : RoundedStyle) (x : Binary64) : List Char :=
  let text := match x.shape with
    | .undefined => "nan".toList
    | .infinite _ => "inf".toList
    | .finite _ mantissa exponent =>
      let a := mantissa * twoTo exponent.toNat
      let b := twoTo (-exponent).toNat
      match style.form with
      | .fixed => fixedText style.full style.digits a b
      | .scientific => scientificText style.full style.digits a b
      | .general => generalText style.full (max 1 style.digits) a b
  if style.upper then text.map Char.toUpper else text

end RoundedStyle

/-- Whether a text of the double begins with a minus; an undefined result has no sign. -/
def Binary64.showsMinus (x : Binary64) : Bool :=
  match x.shape with
  | .undefined => false
  | .infinite negative | .finite negative _ _ => negative

end StateEngine.Number
