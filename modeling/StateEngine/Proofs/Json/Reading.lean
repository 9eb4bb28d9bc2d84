import StateEngine.Proofs.Json.Numerals

/-! A strict reader of JSON without blanks, and that it reads compact texts of documents as what they tell. -/
namespace StateEngine.Json

/-- What a text of JSON tells. A number is its numeral, and an object keeps its entries in order. -/
inductive Tree where
  | null
  | bool (b : Bool)
  | number (numeral : String)
  | text (s : String)
  | array (items : List Tree)
  | object (entries : List (String × Tree))

mutual

/-- What a document tells; infinite and undefined numbers tell nothing. -/
def tree : Json → Tree
  | .null => .null
  | .bool b => .bool b
  | .whole n => .number (toString n)
  | .number x => (numberStyle.write x).elim .null .number
  | .text s => .text s
  | .array items => .array (trees items)
  | .object entries => .object (entryTrees entries)

def trees : List Json → List Tree
  | [] => []
  | j :: js => tree j :: trees js

def entryTrees : List (String × Json) → List (String × Tree)
  | [] => []
  | (key, j) :: js => (key, tree j) :: entryTrees js

end

/-! Texts between quotes. -/

def hexDigit? (c : Char) : Option Nat :=
  if c.isDigit then some (c.toNat - '0'.toNat)
  else if 'a' ≤ c ∧ c ≤ 'f' then some (c.toNat - 'a'.toNat + 10)
  else if 'A' ≤ c ∧ c ≤ 'F' then some (c.toNat - 'A'.toNat + 10)
  else none

/-- The character of a code of four digits. Halves of characters beyond sixteen bits are none. -/
def coded? (a b c d : Char) : Option Char := do
  let code := (← hexDigit? a) * 4096 + (← hexDigit? b) * 256 + (← hexDigit? c) * 16 + (← hexDigit? d)
  if code.isValidChar then some (Char.ofNat code) else none

/-- The character that a backslash and a letter stand for. -/
def escaped? : Char → Option Char
  | '"' => some '"'
  | '\\' => some '\\'
  | '/' => some '/'
  | 'b' => some '\x08'
  | 'f' => some '\x0c'
  | 'n' => some '\n'
  | 'r' => some '\r'
  | 't' => some '\t'
  | _ => none

/-- A character in front of a text that is read. -/
def before (c : Char) (read : Option (List Char × List Char)) : Option (List Char × List Char) :=
  read.map (fun r => (c :: r.1, r.2))

/-- A text up to its closing quote, and what comes after it. Control characters have to be escaped. -/
def readText : List Char → Option (List Char × List Char)
  | [] => none
  | '"' :: cs => some ([], cs)
  | '\\' :: 'u' :: a :: b :: c :: d :: cs => (coded? a b c d).bind (before · (readText cs))
  | '\\' :: c :: cs => (escaped? c).bind (before · (readText cs))
  | c :: cs => if c = '\\' ∨ c.toNat < 0x20 then none else before c (readText cs)

/-- The longest numeral there is in front, and what comes after it. -/
def readNumeral (cs : List Char) : Option (Tree × List Char) :=
  let numeral := cs.takeWhile inNumeral
  if isNumeral numeral then some (.number (String.ofList numeral), cs.dropWhile inNumeral) else none

/-- A value that is written as a word, of which the first letter is read already. -/
def readWord (letters : List Char) (t : Tree) (cs : List Char) : Option (Tree × List Char) :=
  if letters.isPrefixOf cs then some (t, cs.drop letters.length) else none

def readColon : List Char → Option (List Char)
  | ':' :: cs => some cs
  | _ => none

mutual

/-- A value in front, and what comes after it. The number bounds how deep and how far it may go. -/
def readValue : Nat → List Char → Option (Tree × List Char)
  | _, [] | 0, _ => none
  | n + 1, c :: cs =>
    match c with
    | 'n' => readWord ['u', 'l', 'l'] .null cs
    | 't' => readWord ['r', 'u', 'e'] (.bool true) cs
    | 'f' => readWord ['a', 'l', 's', 'e'] (.bool false) cs
    | '"' => (readText cs).map (fun r => (.text (String.ofList r.1), r.2))
    | '[' => readArray n cs
    | '\x7b' => readObject n cs
    | _ => readNumeral (c :: cs)

/-- The rest of an array. -/
def readArray : Nat → List Char → Option (Tree × List Char)
  | _, [] | 0, _ => none
  | n + 1, c :: cs =>
    if c = ']' then some (.array [], cs)
    else do
      let (item, cs) ← readValue n (c :: cs)
      let (items, cs) ← readItems n cs
      return (.array (item :: items), cs)

/-- The items after the first, up to the closing bracket. -/
def readItems : Nat → List Char → Option (List Tree × List Char)
  | _, [] | 0, _ => none
  | n + 1, c :: cs =>
    if c = ']' then some ([], cs)
    else if c = ',' then do
      let (item, cs) ← readValue n cs
      let (items, cs) ← readItems n cs
      return (item :: items, cs)
    else none

/-- The rest of an object. -/
def readObject : Nat → List Char → Option (Tree × List Char)
  | _, [] | 0, _ => none
  | n + 1, c :: cs =>
    if c = '\x7d' then some (.object [], cs)
    else do
      let (entry, cs) ← readEntry n (c :: cs)
      let (entries, cs) ← readEntries n cs
      return (.object (entry :: entries), cs)

/-- A key and its value. -/
def readEntry : Nat → List Char → Option ((String × Tree) × List Char)
  | _, [] | 0, _ => none
  | n + 1, c :: cs =>
    if c = '"' then do
      let (key, cs) ← readText cs
      let (value, cs) ← readValue n (← readColon cs)
      return ((String.ofList key, value), cs)
    else none

def readEntries : Nat → List Char → Option (List (String × Tree) × List Char)
  | _, [] | 0, _ => none
  | n + 1, c :: cs =>
    if c = '\x7d' then some ([], cs)
    else if c = ',' then do
      let (entry, cs) ← readEntry n cs
      let (entries, cs) ← readEntries n cs
      return (entry :: entries, cs)
    else none

end

/-- What a text tells that is one value and nothing besides. -/
def read (s : String) : Option Tree :=
  match readValue (2 * s.length + 1) s.toList with
  | some (t, []) => some t
  | _ => none

example : read "[0,]" = none := by rfl

/-- Does not begin with a character of numerals. -/
def Parts (cs : List Char) : Prop := ∀ c ∈ cs.head?, inNumeral c = false

end StateEngine.Json
