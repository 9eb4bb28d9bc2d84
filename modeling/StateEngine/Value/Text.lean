import StateEngine.Value.Basic
import StateEngine.Number.Shortest
import StateEngine.Text.Printable

/-! The text of a value: plain, as it stands in a message, and quoted, as it stands in a description. -/
namespace StateEngine

namespace Text

/-- The lower-case hexadecimal digits of a number, with zeros in front up to a width. -/
def hex (width n : Nat) : String :=
  let digits := Nat.toDigits 16 n
  String.ofList (List.replicate (width - digits.length) '0' ++ digits)

/-- A character between quotes: the quote and the backslash are escaped, and so is what does not
print, by a letter or by its code in as few digits as it fits. -/
def quotedChar (quote c : Char) : String :=
  if c = quote ∨ c = '\\' then "\\" ++ c.toString
  else if c = '\n' then "\\n"
  else if c = '\r' then "\\r"
  else if c = '\t' then "\\t"
  else if printable c then c.toString
  else if c.toNat < 0x100 then "\\x" ++ hex 2 c.toNat
  else if c.toNat < 0x10000 then "\\u" ++ hex 4 c.toNat
  else "\\U" ++ hex 8 c.toNat

/-- Single quotes are used unless only they occur inside. -/
def quoteFor (cs : List Char) : Char := if cs.contains '\'' && !cs.contains '"' then '"' else '\''

def quoted (s : String) : String :=
  let quote := quoteFor s.toList
  quote.toString ++ String.join (s.toList.map (quotedChar quote)) ++ quote.toString

private def quotedByte (quote : Char) (b : UInt8) : String :=
  let c := Char.ofNat b.toNat
  if c = quote ∨ c = '\\' then "\\" ++ c.toString
  else if c = '\n' then "\\n"
  else if c = '\r' then "\\r"
  else if c = '\t' then "\\t"
  else if 0x20 ≤ b.toNat ∧ b.toNat < 0x7f then c.toString
  else "\\x" ++ hex 2 b.toNat

/-- Octets in quotes: those of printing ASCII as characters, the others by their code. -/
def quotedBytes (octets : List UInt8) : String :=
  let quote := quoteFor (octets.map (fun b => Char.ofNat b.toNat))
  "b" ++ quote.toString ++ String.join (octets.map (quotedByte quote)) ++ quote.toString

end Text

namespace Number

/-- A plain number is positional from 0.0001 up to below 10 ^ 16, and an exponent has two digits. -/
def plainStyle : NumberStyle := ⟨-4, 15, 2⟩

def Binary64.plain (x : Binary64) : String :=
  match x.shape with
  | .undefined => "nan"
  | .infinite negative => if negative then "-inf" else "inf"
  | .finite .. => (plainStyle.write x).getD ""

end Number

namespace Value

private def commaList (parts : List String) : String := ", ".intercalate parts

mutual

/-- The description of a value: texts are quoted, and containers show what they hold. -/
def description : Value → String
  | .null => "None"
  | .bool b => if b then "True" else "False"
  | .int n => toString n
  | .float x => x.plain
  | .text s => Text.quoted s
  | .bytes octets => Text.quotedBytes octets
  | .list xs => "[" ++ commaList (descriptions xs) ++ "]"
  | .tuple xs => match descriptions xs with
    | [x] => "(" ++ x ++ ",)"
    | parts => "(" ++ commaList parts ++ ")"
  | .map entries => "\x7b" ++ commaList (entryDescriptions entries) ++ "\x7d"
  | .member e n _ v => "<" ++ e ++ "." ++ n ++ ": " ++ description v ++ ">"
  | .enumeration e _ _ => "<enum " ++ Text.quoted e ++ ">"
  | .record kind fields => kind ++ "(" ++ commaList (fieldDescriptions fields) ++ ")"
  | .object _ d => d
  | .callback name => "cb:" ++ name
  | .method owner name _ => "<bound method " ++ owner ++ "." ++ name ++ ">"
  | .state _ => "<State>"
  | .model name => "<Model " ++ Text.quoted name ++ ">"

def descriptions : List Value → List String
  | [] => []
  | v :: vs => description v :: descriptions vs

def entryDescriptions : List (Value × Value) → List String
  | [] => []
  | (k, v) :: entries => (description k ++ ": " ++ description v) :: entryDescriptions entries

def fieldDescriptions : List (String × Value) → List String
  | [] => []
  | (name, v) :: fields => (name ++ "=" ++ description v) :: fieldDescriptions fields

end

/-- The plain text of a value: a text as it is, a member by its full name, the rest described. -/
def display : Value → String
  | .text s => s
  | .member e n _ _ => e ++ "." ++ n
  | v => description v

@[simp] theorem display_text (s : String) : (Value.text s).display = s := rfl

end Value

end StateEngine
