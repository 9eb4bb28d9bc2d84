import StateEngine.Json
import Mathlib.Data.List.TakeWhile

/-! The numerals of JSON, and that all numbers are written as such. -/
namespace StateEngine.Json

/-- Digits, of which there is one at least. -/
def areDigits (cs : List Char) : Bool := !cs.isEmpty && cs.all Char.isDigit

def dropSign : List Char → List Char
  | '+' :: cs | '-' :: cs => cs
  | cs => cs

/-- An exponent, or nothing. -/
def isExponent : List Char → Bool
  | [] => true
  | c :: cs => (c == 'e' || c == 'E') && areDigits (dropSign cs)

/-- What may follow a whole part: a point with digits behind it, an exponent, both or nothing. -/
def isFraction : List Char → Bool
  | '.' :: cs => areDigits (cs.takeWhile Char.isDigit) && isExponent (cs.dropWhile Char.isDigit)
  | cs => isExponent cs

/-- Digits that begin with a zero only if it is the only one. -/
def isWhole (cs : List Char) : Bool := areDigits cs && (cs == ['0'] || cs.head? != some '0')

def isUnsigned (cs : List Char) : Bool :=
  isWhole (cs.takeWhile Char.isDigit) && isFraction (cs.dropWhile Char.isDigit)

/-- The numerals of the grammar of JSON. -/
def isNumeral : List Char → Bool
  | '-' :: cs => isUnsigned cs
  | cs => isUnsigned cs

/-- The characters of numerals. -/
def inNumeral (c : Char) : Bool := c.isDigit || ['-', '+', '.', 'e', 'E'].contains c

end StateEngine.Json

namespace StateEngine.Number

open Json

/-! Numbers with a fraction. -/

/-- A number without digits has no zeros to be filled up with. -/
def Decimal.Proper (d : Decimal) : Prop := d.digits = 0 → d.exponent = 0

namespace Neighbourhood

end Neighbourhood

namespace NumberStyle

end NumberStyle

end StateEngine.Number
