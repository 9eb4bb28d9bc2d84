import StateEngine.Value.Basic

/-! Equality of host values. Numbers are compared by amount whatever their kind, a textual member
equals its text, and everything else is equal only within its own kind. An undefined number equals
nothing, but containers find it again as the one that it is. -/
namespace StateEngine.Value

/-- A number in one of its three kinds. -/
inductive Amount where
  | whole (n : Int)
  | double (x : Number.Binary64)

def amount? : Value → Option Amount
  | .bool b => some (.whole (if b then 1 else 0))
  | .int n => some (.whole n)
  | .float x => some (.double x)
  | _ => none

def Amount.same : Amount → Amount → Bool
  | .whole n, .whole m => n == m
  | .whole n, .double x | .double x, .whole n => x.equalsInt n
  | .double x, .double y => x.same y

/-- Equality of two values neither of which contains another. -/
def sameAtom (a b : Value) : Bool :=
  match a.amount?, b.amount? with
  | some x, some y => x.same y
  | some _, none | none, some _ => false
  | none, none =>
    match a.text?, b.text? with
    | some s, some t => s == t
    | some _, none | none, some _ => false
    | none, none =>
      match a, b with
      | .null, .null => true
      | .bytes x, .bytes y => x == y
      | .member e n _ _, .member f m _ _ => e == f && n == m
      | .enumeration e _ _, .enumeration f _ _ => e == f
      | .object x _, .object y _ => x == y
      | .callback x, .callback y => x == y
      | .method m x _, .method n y _ => m == n && x == y
      | .state x, .state y => x == y
      | .model x, .model y => x == y
      | _, _ => false

/-- Whether both are one double, bit by bit. -/
def sameDouble : Value → Value → Bool
  | .float x, .float y => x == y
  | _, _ => false

mutual

/-- Equality as the host's `==` decides it. -/
def same : Value → Value → Bool
  | .list xs, b => match b with
    | .list ys => sameAll xs ys
    | _ => false
  | .tuple xs, b => match b with
    | .tuple ys => sameAll xs ys
    | _ => false
  | .map xs, b => match b with
    | .map ys => xs.length == ys.length && sameEntries xs ys
    | _ => false
  | .record k xs, b => match b with
    | .record l ys => k == l && sameFields xs ys
    | _ => false
  | a, b => sameAtom a b

/-- Equality item by item. -/
def sameAll : List Value → List Value → Bool
  | [], [] => true
  | x :: xs, y :: ys => (x.sameDouble y || x.same y) && sameAll xs ys
  | _, _ => false

/-- Every entry of the first map is in the second one, in any order. -/
def sameEntries : List (Value × Value) → List (Value × Value) → Bool
  | [], _ => true
  | (k, v) :: xs, ys =>
    ys.any (fun y => (k.sameDouble y.1 || k.same y.1) && (v.sameDouble y.2 || v.same y.2)) &&
      sameEntries xs ys

def sameFields : List (String × Value) → List (String × Value) → Bool
  | [], [] => true
  | (k, v) :: xs, (l, w) :: ys => k == l && (v.sameDouble w || v.same w) && sameFields xs ys
  | _, _ => false

end

@[simp] theorem same_text (s t : String) : (Value.text s).same (.text t) = (s == t) := by
  simp [same, sameAtom, amount?, text?]

/-- Equality as containers decide it, for keys and for what they hold. -/
def sameKey (v w : Value) : Bool := v.sameDouble w || v.same w

mutual

/-- Every value is found where it was put, undefined numbers and what holds them included. -/
theorem sameKey_refl : (v : Value) → v.sameKey v = true
  | .list xs | .tuple xs => by simp [sameKey, same, sameAll_refl xs]
  | .map entries => by simp [sameKey, same, sameEntries_of_subset entries entries (fun _ h => h)]
  | .record _ fields => by simp [sameKey, same, sameFields_refl fields]
  | .float _ => by simp [sameKey, sameDouble]
  | .member _ _ textual v => by
    cases textual <;> cases v <;> simp [sameKey, same, sameAtom, amount?, text?]
  | .null | .bool _ | .int _ | .text _ | .bytes _ | .enumeration .. | .object .. | .callback _
  | .method .. | .state _ | .model _ => by simp [sameKey, same, sameAtom, amount?, text?, Amount.same]

private theorem sameAll_refl : (xs : List Value) → sameAll xs xs = true
  | [] => by simp [sameAll]
  | x :: xs => by
    have hx := sameKey_refl x
    unfold sameKey at hx
    simp [sameAll, hx, sameAll_refl xs]

private theorem sameEntries_of_subset : (xs ys : List (Value × Value)) → (∀ e ∈ xs, e ∈ ys) →
    sameEntries xs ys = true
  | [], _, _ => by simp [sameEntries]
  | (k, v) :: xs, ys, h => by
    have hk := sameKey_refl k
    have hv := sameKey_refl v
    unfold sameKey at hk hv
    simp only [sameEntries, Bool.and_eq_true, List.any_eq_true]
    exact ⟨⟨(k, v), h _ (by simp), hk, hv⟩, sameEntries_of_subset xs ys (fun e he => h e (by simp [he]))⟩

private theorem sameFields_refl : (fields : List (String × Value)) → sameFields fields fields = true
  | [] => by simp [sameFields]
  | (_, v) :: fields => by
    have hv := sameKey_refl v
    unfold sameKey at hv
    simp [sameFields, hv, sameFields_refl fields]

end

instance : BEq Value := ⟨sameKey⟩

instance : ReflBEq Value := ⟨fun {v} => sameKey_refl v⟩

@[simp] theorem text_beq_text (s t : String) : (Value.text s == .text t) = (s == t) := by
  change sameKey _ _ = _
  simp [sameKey, sameDouble]

/-- As a key a text is found under what is that text: itself, or a textual member. -/
theorem beq_text_iff {v : Value} {a : String} : (v == .text a) = true ↔ v.text? = some a := by
  change sameKey v (.text a) = true ↔ _
  cases v with
  | member e n textual x =>
    cases textual <;> cases x <;> simp [sameKey, sameDouble, same, sameAtom, amount?, text?]
  | _ => simp [sameKey, sameDouble, same, sameAtom, amount?, text?]

theorem text_beq_iff {v : Value} {a : String} : (.text a == v) = true ↔ v.text? = some a := by
  change sameKey (.text a) v = true ↔ _
  cases v with
  | member e n textual x =>
    cases textual <;> cases x <;> simp [sameKey, sameDouble, same, sameAtom, amount?, text?]
    exact eq_comm
  | text b =>
    simp only [sameKey, sameDouble, same_text, text?, Bool.false_or, beq_iff_eq, Option.some.injEq]
    exact eq_comm
  | _ => simp [sameKey, sameDouble, same, sameAtom, amount?, text?]

/-- As a key a model is found under nothing but itself. -/
theorem beq_model_iff {v : Value} {x : String} : (v == .model x) = true ↔ v = .model x := by
  change sameKey v (.model x) = true ↔ _
  cases v with
  | member e n textual own =>
    cases textual <;> cases own <;> simp [sameKey, sameDouble, same, sameAtom, amount?, text?]
  | _ => simp [sameKey, sameDouble, same, sameAtom, amount?, text?]

theorem model_beq_iff {v : Value} {x : String} : (.model x == v) = true ↔ v = .model x := by
  change sameKey (.model x) v = true ↔ _
  cases v with
  | member e n textual own =>
    cases textual <;> cases own <;> simp [sameKey, sameDouble, same, sameAtom, amount?, text?]
  | model y =>
    simp only [sameKey, sameDouble, same, sameAtom, amount?, text?, Bool.false_or, beq_iff_eq, model.injEq]
    exact eq_comm
  | _ => simp [sameKey, sameDouble, same, sameAtom, amount?, text?]

def isIn (v : Value) (vs : List Value) : Bool := vs.any (fun w => w == v)

end StateEngine.Value
