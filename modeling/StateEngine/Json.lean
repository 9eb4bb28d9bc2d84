import StateEngine.Value.Text

/-! JSON documents: which values have one, and its exact text. -/
namespace StateEngine

/-- A JSON document; an object keeps its entries in order and may repeat a key. -/
inductive Json where
  | null
  | bool (b : Bool)
  | whole (n : Int)
  | number (x : Number.Binary64)
  | text (s : String)
  | array (items : List Json)
  | object (entries : List (String × Json))
  deriving Inhabited

namespace Json

/-- Whole numbers have a document only within 64 bits, signed or unsigned. -/
def fits (n : Int) : Bool := decide (-(Number.twoTo 63 : Int) ≤ n ∧ n < (Number.twoTo 64 : Int))

/-- A number is positional from 0.00001 up to below 10 ^ 16, and an exponent has no leading zero. -/
def numberStyle : Number.NumberStyle := ⟨-5, 15, 1⟩

def ofDouble (x : Number.Binary64) : Json :=
  match x.shape with
  | .finite .. => .number x
  | _ => .null

def numberText (x : Number.Binary64) : String := (numberStyle.write x).getD "null"

/-- The text of a key: texts stand for themselves, constants and numbers for their JSON text, a member
for its value; nothing else is a key. -/
def keyText : Value → Option String
  | .text s => some s
  | .null => some "null"
  | .bool b => some (if b then "true" else "false")
  | .int n => if fits n then some (toString n) else none
  | .float x => some (numberText x)
  | .member _ _ _ v => keyText v
  | _ => none

/-- The depth inside one more container. Depths are counted in eight bits, so the count starts anew after
the greatest of them. -/
def deeper (depth : Nat) : Nat := (depth + 1) % 256

/-- The depth at which a list or map is refused, and a record in which it would stand. -/
def lastDepth : Nat := 255

def byKey (a b : String × Json) : Bool := decide (a.1 ≤ b.1)

def ordered (sorted : Bool) (entries : List (String × Json)) : List (String × Json) :=
  if sorted then entries.mergeSort byKey else entries

mutual

/-- The document of a value at a depth of containers, if it has one. Members are written by their value
and records by their fields; values without a form of their own are written as their description. With
`sorted` the entries of maps are in the order of their keys. Tuples count as containers but are refused at
no depth. -/
def ofValueAt (sorted : Bool) (depth : Nat) : Value → Option Json
  | .null => some .null
  | .bool b => some (.bool b)
  | .int n => if fits n then some (.whole n) else none
  | .float x => some (ofDouble x)
  | .text s => some (.text s)
  | .member _ _ _ v => ofValueAt sorted depth v
  | .list xs =>
    if deeper depth = lastDepth then none else (ofValues sorted (deeper depth) xs).map .array
  | .tuple xs => (ofValues sorted (deeper depth) xs).map .array
  | .map entries =>
    if deeper depth = lastDepth then none
    else (ofEntries sorted (deeper depth) entries).map (fun es => .object (ordered sorted es))
  | .record _ fields =>
    if depth = lastDepth then none else (ofFields sorted (deeper depth) fields).map .object
  | v => some (.text v.description)

def ofValues (sorted : Bool) (depth : Nat) : List Value → Option (List Json)
  | [] => some []
  | v :: vs => do
    let j ← ofValueAt sorted depth v
    let js ← ofValues sorted depth vs
    return j :: js

def ofEntries (sorted : Bool) (depth : Nat) : List (Value × Value) → Option (List (String × Json))
  | [] => some []
  | (k, v) :: entries => do
    let key ← keyText k
    let j ← ofValueAt sorted depth v
    let js ← ofEntries sorted depth entries
    return (key, j) :: js

def ofFields (sorted : Bool) (depth : Nat) : List (String × Value) → Option (List (String × Json))
  | [] => some []
  | (name, v) :: fields => do
    let j ← ofValueAt sorted depth v
    let js ← ofFields sorted depth fields
    return (name, j) :: js

end

def ofValue (sorted : Bool) (v : Value) : Option Json := ofValueAt sorted 0 v

/-- Escaped are the quote, the backslash and the control characters of ASCII below the space. -/
def escapedChar (c : Char) : String :=
  if c = '"' then "\\\""
  else if c = '\\' then "\\\\"
  else if c = '\n' then "\\n"
  else if c = '\r' then "\\r"
  else if c = '\t' then "\\t"
  else if c.toNat = 0x8 then "\\b"
  else if c.toNat = 0xc then "\\f"
  else if c.toNat < 0x20 then "\\u" ++ Text.hex 4 c.toNat
  else c.toString

def textLiteral (s : String) : String := "\"" ++ String.join (s.toList.map escapedChar) ++ "\""

/-- A line break and the indentation of a level, or nothing in compact text. -/
def lineBreak (pretty : Bool) (level : Nat) : String :=
  if pretty then "\n" ++ String.ofList (List.replicate (2 * level) ' ') else ""

mutual

/-- The text of a document: compact, or with two spaces of indentation for each level. -/
def render (pretty : Bool) (level : Nat) : Json → String
  | .null => "null"
  | .bool b => if b then "true" else "false"
  | .whole n => toString n
  | .number x => numberText x
  | .text s => textLiteral s
  | .array [] => "[]"
  | .array (x :: xs) =>
    "[" ++ lineBreak pretty (level + 1) ++ render pretty (level + 1) x ++
      renderItems pretty (level + 1) xs ++ lineBreak pretty level ++ "]"
  | .object [] => "\x7b\x7d"
  | .object ((k, x) :: es) =>
    "\x7b" ++ lineBreak pretty (level + 1) ++ textLiteral k ++ (if pretty then ": " else ":") ++
      render pretty (level + 1) x ++ renderEntries pretty (level + 1) es ++
      lineBreak pretty level ++ "\x7d"

/-- The items after the first, each behind a comma. -/
def renderItems (pretty : Bool) (level : Nat) : List Json → String
  | [] => ""
  | x :: xs =>
    "," ++ lineBreak pretty level ++ render pretty level x ++ renderItems pretty level xs

def renderEntries (pretty : Bool) (level : Nat) : List (String × Json) → String
  | [] => ""
  | (k, x) :: es =>
    "," ++ lineBreak pretty level ++ textLiteral k ++ (if pretty then ": " else ":") ++
      render pretty level x ++ renderEntries pretty level es

end

/-- The text of a value's document, or a fault where it has none. -/
def encode (pretty sorted : Bool) (v : Value) : Option String :=
  (ofValue sorted v).map (render pretty 0)

end Json

end StateEngine
