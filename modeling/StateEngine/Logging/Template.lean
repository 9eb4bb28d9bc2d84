import StateEngine.Fault
import StateEngine.Number.Rounded

/-! Message templates: text with fields that begin with a percent sign and are filled from arguments. -/
namespace StateEngine.Logging

/-- A width or precision: a number, or a star that takes the next argument. -/
inductive Size where
  | fixed (n : Nat)
  | given

/-- The key of a field; one whose parenthesis nothing closes takes up the rest of the template. -/
inductive Key where
  | name (s : String)
  | unclosed

/-- A field of a template. Where the template ends inside a field there is no conversion. -/
structure Field where
  key : Option Key := none
  left : Bool := false
  plus : Bool := false
  space : Bool := false
  alternate : Bool := false
  zero : Bool := false
  width : Option Size := none
  precision : Option Size := none
  conversion : Option Char := none
  position : Nat := 0

/-- A piece of a template. -/
inductive Piece where
  | literal (c : Char)
  | field (f : Field)

namespace Piece

private def readNumber (digits : List Char) : Nat :=
  digits.foldl (fun n c => 10 * n + (c.toNat - '0'.toNat)) 0

/-- Reads a star or digits, of which there may be none. -/
private def readSize (cs : List Char) : Option Size × List Char :=
  match cs with
  | '*' :: rest => (some .given, rest)
  | _ =>
    match cs.takeWhile Char.isDigit with
    | [] => (none, cs)
    | digits => (some (.fixed (readNumber digits)), cs.dropWhile Char.isDigit)

/-- Splits a text at the parenthesis that closes the one in front of it; `depth` more are open. -/
def splitKey : Nat → List Char → Option (List Char × List Char)
  | _, [] => none
  | 0, ')' :: rest => some ([], rest)
  | depth + 1, ')' :: rest => (splitKey depth rest).map (fun (key, rest) => (')' :: key, rest))
  | depth, '(' :: rest => (splitKey (depth + 1) rest).map (fun (key, rest) => ('(' :: key, rest))
  | depth, c :: rest => (splitKey depth rest).map (fun (key, rest) => (c :: key, rest))

/-- Nothing but the closing parenthesis is lost. -/
theorem splitKey_append {depth : Nat} {cs key rest : List Char}
    (h : splitKey depth cs = some (key, rest)) : cs = key ++ ')' :: rest := by
  fun_induction splitKey depth cs generalizing key rest with
  | case1 => simp at h
  | case2 => simp_all
  | case3 _ _ ih | case4 _ _ ih | case5 _ _ _ _ _ _ ih =>
    simp only [Option.map_eq_some_iff] at h
    obtain ⟨⟨k, r⟩, hk, he⟩ := h
    obtain ⟨rfl, rfl⟩ := Prod.mk.inj he
    simp [ih hk]

private def readKey (cs : List Char) : Option Key × List Char :=
  match cs with
  | '(' :: rest =>
    match splitKey 0 rest with
    | some (key, rest) => (some (.name (String.ofList key)), rest)
    | none => (some .unclosed, [])
  | _ => (none, cs)

private def isFlag (c : Char) : Bool := "-+ #0".toList.contains c

/-- Passes over a letter for the size of a number, which has no effect. -/
private def dropLength : List Char → List Char
  | 'h' :: rest | 'l' :: rest | 'L' :: rest => rest
  | cs => cs

/-- Reads what follows a percent sign; `length` is that of the whole template. -/
private def readField (length : Nat) (cs : List Char) : Field × List Char :=
  let (key, cs) := readKey cs
  let flags := cs.takeWhile isFlag
  let (width, cs) := readSize (cs.dropWhile isFlag)
  let (precision, cs) := match cs with
    | '.' :: rest =>
      let (size, rest) := readSize rest
      (some (size.getD (.fixed 0)), rest)
    | _ => (none, cs)
  let cs := dropLength cs
  ({ key := key, left := flags.contains '-', plus := flags.contains '+'
     space := flags.contains ' ', alternate := flags.contains '#'
     zero := flags.contains '0', width := width, precision := precision
     conversion := cs.head?, position := length - cs.length }, cs.tail)

/-- Two percent signs stand for one. -/
private def readAll (length : Nat) : Nat → List Char → List Piece
  | 0, _ => []
  | _ + 1, [] => []
  | fuel + 1, '%' :: '%' :: rest => .literal '%' :: readAll length fuel rest
  | fuel + 1, '%' :: rest =>
    let (f, rest) := readField length rest
    .field f :: readAll length fuel rest
  | fuel + 1, c :: rest => .literal c :: readAll length fuel rest

def ofTemplate (template : String) : List Piece :=
  readAll template.length (template.length + 1) template.toList

end Piece

/-- What fields are filled from: the values that wait for the next fields, and what fields with keys are
looked up in. `encodable` is lost with half of a surrogate pair, which no encoded text can hold. -/
structure Supply where
  waiting : List Value
  source : Option Value := none
  encodable : Bool := true

namespace Supply

/-- Whether a value can be asked for an entry of a key. -/
private def hasEntries : Value → Bool
  | .map _ | .list _ | .bytes _ | .enumeration .. => true
  | _ => false

/-- A tuple is a supply of its items, and any other value of itself. -/
def ofArguments : Value → Supply
  | .tuple vs => { waiting := vs }
  | v => { waiting := [v], source := if hasEntries v then some v else none }

def next (s : Supply) : Except Fault (Value × Supply) :=
  match s.waiting with
  | v :: rest => .ok (v, { s with waiting := rest })
  | [] => .error .wrongType

/-- The entry of a key: maps have them by their keys, and enumerations by the names of their members. -/
private def entry (source : Value) (key : String) : Except Fault Value :=
  match source with
  | .map entries =>
    ((entries.find? (fun e => e.1.same (.text key))).map Prod.snd).elim (.error .missingKey) .ok
  | .enumeration e textual members =>
    (members.lookup key).elim (.error .missingKey) (fun v => .ok (.member e key textual v))
  | _ => .error .wrongType

/-- After a key its entry waits alone. -/
def select (s : Supply) (key : Option Key) : Except Fault Supply :=
  match key, s.source with
  | none, _ => .ok s
  | some _, none => .error .wrongType
  | some .unclosed, some _ => .error (.badValue "incomplete format key")
  | some (.name key), some source => (entry source key).map (fun v => { s with waiting := [v] })

/-- The whole number that a star takes; one of more than `bits` bits is refused. -/
private def takeWhole (s : Supply) (bits : Nat) : Except Fault (Int × Supply) := do
  let (v, s) ← s.next
  let n : Int ← match v with
    | .int n => pure n
    | .bool b => pure (if b then 1 else 0)
    | _ => .error .wrongType
  if -(Number.twoTo (bits - 1) : Int) ≤ n ∧ n < (Number.twoTo (bits - 1) : Int) then return (n, s)
  else .error .overflow

/-- The number that a width or precision of at most `bits` bits stands for. -/
def size (s : Supply) (word : String) (bits : Nat) : Option Size →
    Except Fault (Option Int × Supply)
  | none => .ok (none, s)
  | some (.fixed n) =>
    if n < Number.twoTo (bits - 1) then .ok (some n, s) else .error (.badValue (word ++ " too big"))
  | some .given => do
    let (n, s) ← s.takeWhole bits
    return (some n, s)

end Supply

namespace Field

/-- Fills a text up to a width: on the right for a left-aligned field, else on the left, where zeros go
behind the sign and the base mark. -/
private def pad (f : Field) (width : Nat) (front body : List Char) (zeros : Bool) :
    Except Fault (List Char) :=
  let missing := width - (front.length + body.length)
  if greatestSize < missing then .error .outOfMemory
  else if f.left then .ok (front ++ body ++ List.replicate missing ' ')
  else if zeros then .ok (front ++ List.replicate missing '0' ++ body)
  else .ok (List.replicate missing ' ' ++ front ++ body)

private def signOf (f : Field) (negative : Bool) : List Char :=
  if negative then ['-'] else if f.plus then ['+'] else if f.space then [' '] else []

/-- The whole number that a value counts as; a fraction is cut off where that is allowed. -/
private def wholeOf (cuts : Bool) : Value → Except Fault Int
  | .int n => .ok n
  | .bool b => .ok (if b then 1 else 0)
  | .float x =>
    if !cuts then .error .wrongType
    else match x.units, x.shape with
      | some u, _ => .ok (u.tdiv (Number.twoTo 1074))
      | none, .infinite _ => .error .overflow
      | none, _ => .error (.badValue "cannot convert float NaN to integer")
  | _ => .error .wrongType

/-- The double that a value counts as. -/
private def doubleOf : Value → Except Fault Number.Binary64
  | .float x => .ok x
  | .int n => (Number.Binary64.ofInt n).elim (.error .overflow) .ok
  | .bool b => (Number.Binary64.ofInt (if b then 1 else 0)).elim (.error .overflow) .ok
  | _ => .error .wrongType

private def writeWhole (f : Field) (width : Nat) (precision : Option Nat) (base : Nat) (mark : String)
    (upper : Bool) (n : Int) : Except Fault (List Char) :=
  let digits := (Nat.toDigits base n.natAbs).map (fun c => if upper then c.toUpper else c)
  let least := precision.getD 1
  let front := f.signOf (n < 0) ++ (if f.alternate then mark.toList else [])
  if Number.twoTo 31 - 4 < least then .error .overflow
  else if greatestSize < least then .error .outOfMemory
  else f.pad width front (List.replicate (least - digits.length) '0' ++ digits) f.zero

/-- Six digits are written unless a precision is given. -/
private def writeDouble (f : Field) (width : Nat) (precision : Option Nat) (form : Number.DigitForm)
    (upper : Bool) (x : Number.Binary64) : Except Fault (List Char) :=
  let digits := precision.getD 6
  if greatestSize < digits then .error .outOfMemory
  else
    let style : Number.RoundedStyle := ⟨form, digits, f.alternate, upper⟩
    f.pad width (f.signOf x.showsMinus) (style.write x) f.zero

private def writeText (f : Field) (width : Nat) (precision : Option Nat) (s : String) :
    Except Fault (List Char) :=
  f.pad width [] ((precision.map (fun p => s.toList.take p)).getD s.toList) false

/-- A character outside ASCII by its code, as a description without other letters has it. -/
private def asciiChar (c : Char) : String :=
  if c.toNat < 0x80 then c.toString
  else if c.toNat < 0x100 then "\\x" ++ Text.hex 2 c.toNat
  else if c.toNat < 0x10000 then "\\u" ++ Text.hex 4 c.toNat
  else "\\U" ++ Text.hex 8 c.toNat

/-- The code of the one character that a value stands for. -/
private def codeOf : Value → Except Fault Nat
  | .int n => if 0 ≤ n ∧ n < 0x110000 then .ok n.toNat else .error .overflow
  | .bool b => .ok (if b then 1 else 0)
  | v => match v.text?.map String.toList with
    | some [c] => .ok c.toNat
    | _ => .error .wrongType

private def isSurrogate (code : Nat) : Bool := decide (0xd800 ≤ code ∧ code < 0xe000)

/-- The refusal of a conversion; a character outside printing ASCII is not shown. -/
private def unsupported (c : Char) (position : Nat) : Fault :=
  let shown := if 31 ≤ c.toNat ∧ c.toNat ≤ 126 then c else '?'
  .badValue ("unsupported format character '" ++ shown.toString ++ "' (0x" ++ Text.hex 1 c.toNat ++
    ") at index " ++ Nat.repr position)

/-- The text of a value in a field by its conversion. -/
private def write (f : Field) (width : Nat) (precision : Option Nat) (conversion : Char) (v : Value) :
    Except Fault (List Char) := do
  match conversion with
  | 's' => f.writeText width precision v.display
  | 'r' => f.writeText width precision v.description
  | 'a' => f.writeText width precision (String.join (v.description.toList.map asciiChar))
  | 'd' | 'i' | 'u' => f.writeWhole width precision 10 "" false (← wholeOf true v)
  | 'x' => f.writeWhole width precision 16 "0x" false (← wholeOf false v)
  | 'X' => f.writeWhole width precision 16 "0X" true (← wholeOf false v)
  | 'o' => f.writeWhole width precision 8 "0o" false (← wholeOf false v)
  | 'e' => f.writeDouble width precision .scientific false (← doubleOf v)
  | 'E' => f.writeDouble width precision .scientific true (← doubleOf v)
  | 'f' => f.writeDouble width precision .fixed false (← doubleOf v)
  | 'F' => f.writeDouble width precision .fixed true (← doubleOf v)
  | 'g' => f.writeDouble width precision .general false (← doubleOf v)
  | 'G' => f.writeDouble width precision .general true (← doubleOf v)
  | 'c' => f.pad width [] [Char.ofNat (← codeOf v)] false
  | c => .error (unsupported c f.position)

/-- Fills a field: its key, then its sizes, then its value take from the supply. A negative width counts as
left alignment, and a negative precision as none at all. -/
def fill (f : Field) (s : Supply) : Except Fault (List Char × Supply) := do
  let s ← s.select f.key
  let (width, s) ← s.size "width" 64 f.width
  let (precision, s) ← s.size "precision" 32 f.precision
  let some conversion := f.conversion | .error (.badValue "incomplete format")
  let (v, s) ← s.next
  let width := width.getD 0
  let f := if width < 0 then { f with left := true } else f
  let text ← f.write width.natAbs (precision.map Int.toNat) conversion v
  let broken := conversion = 'c' && (codeOf v).toOption.any isSurrogate
  return (text, { s with encodable := s.encodable && !broken })

end Field

private def fillAll : List Piece → Supply → Except Fault (List Char × Supply)
  | [], s => .ok ([], s)
  | .literal c :: rest, s => do
    let (text, s) ← fillAll rest s
    return (c :: text, s)
  | .field f :: rest, s => do
    let (front, s) ← f.fill s
    let (text, s) ← fillAll rest s
    return (front ++ text, s)

/-- The text of a template with its arguments. Arguments that count as none leave a template as it is;
otherwise all values have to be used, save of what can be looked into. -/
def fillTemplate (template : String) (arguments : Value) : Except Fault String :=
  if !arguments.truthy then .ok template
  else do
    let (text, s) ← fillAll (Piece.ofTemplate template) (.ofArguments arguments)
    if s.source.isNone && !s.waiting.isEmpty || !s.encodable then .error .wrongType
    return String.ofList text

end StateEngine.Logging
