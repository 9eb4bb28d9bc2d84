import StateEngine.Number.Binary64

/-! Host values: what a host hands to the engine and gets back from it. -/
namespace StateEngine

/-- A host value. A member of an enumeration carries its own value, and a textual one is also a text;
states and models are named by reference; a record is an immutable set of named options; an object is
itself by its number, and all that is known of it is its description. Undefined numbers that were made
apart differ in their bits. -/
inductive Value where
  | null
  | bool (b : Bool)
  | int (n : Int)
  | float (x : Number.Binary64)
  | text (s : String)
  | bytes (octets : List UInt8)
  | list (items : List Value)
  | tuple (items : List Value)
  | map (entries : List (Value × Value))
  | member (enumeration name : String) (textual : Bool) (value : Value)
  | enumeration (name : String) (textual : Bool) (members : List (String × Value))
  | record (kind : String) (fields : List (String × Value))
  | object (id : Nat) (description : String)
  | callback (name : String)
  | method (model name callback : String)
  | state (id : Nat)
  | model (name : String)
  deriving Inhabited

namespace Value

/-- The text a value is, if it is one: a text itself or a textual member. -/
def text? : Value → Option String
  | .text s => some s
  | .member _ _ true (.text s) => some s
  | _ => none

/-- The members of an enumeration as values, in order of definition. -/
def membersOf (enumeration : String) (textual : Bool) (members : List (String × Value)) : List Value :=
  members.map (fun m => .member enumeration m.1 textual m.2)

/-- A specification as a list of items: nothing is no item, a list, tuple or enumeration stands for
its own items, and anything else is the only item. -/
def items : Value → List Value
  | .null => []
  | .list xs | .tuple xs => xs
  | .enumeration name textual members => membersOf name textual members
  | v => [v]

/-- A list stands for its items, so spreading twice is spreading once. -/
theorem items_list_items (v : Value) : (Value.list v.items).items = v.items := rfl

mutual

/-- Whether a value can be a key: lists and maps cannot, nor what contains one. -/
def hashable : Value → Bool
  | .list _ | .map _ => false
  | .tuple xs => allHashable xs
  | .record _ fields => fieldsHashable fields
  | _ => true

def allHashable : List Value → Bool
  | [] => true
  | v :: vs => v.hashable && allHashable vs

def fieldsHashable : List (String × Value) → Bool
  | [] => true
  | (_, v) :: fields => v.hashable && fieldsHashable fields

end

@[simp] theorem hashable_text (s : String) : (Value.text s).hashable = true := by simp [hashable]

/-- What counts as true: everything but nothing, false, zero and the empty. -/
def truthy : Value → Bool
  | .null => false
  | .bool b => b
  | .int n => n != 0
  | .float x => !x.isZero
  | .text s => s != ""
  | .bytes octets => !octets.isEmpty
  | .list xs | .tuple xs => !xs.isEmpty
  | .map entries => !entries.isEmpty
  | .member _ _ true v => v.text? != some ""
  | _ => true

end Value

end StateEngine
