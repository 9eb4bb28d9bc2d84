import StateEngine.Proofs.Json.Reading
import Mathlib.Data.List.Basic

/-! What documents show of values, and that only values of three kinds are in the way of one. -/
namespace StateEngine.Json

/-! What refuses a document. -/

/-- A value stands in another, given the depths of both: it is that value itself, or stands in the value of
a member or in what a container holds. -/
inductive Stands : Nat → Value → Nat → Value → Prop
  | here (d : Nat) (v : Value) : Stands d v d v
  | member {d e : Nat} {v w : Value} (enumeration name : String) (textual : Bool) :
    Stands d v e w → Stands d (.member enumeration name textual v) e w
  | list {d e : Nat} {xs : List Value} {v w : Value} :
    v ∈ xs → Stands (deeper d) v e w → Stands d (.list xs) e w
  | tuple {d e : Nat} {xs : List Value} {v w : Value} :
    v ∈ xs → Stands (deeper d) v e w → Stands d (.tuple xs) e w
  | map {d e : Nat} {entries : List (Value × Value)} {entry : Value × Value} {w : Value} :
    entry ∈ entries → Stands (deeper d) entry.2 e w → Stands d (.map entries) e w
  | record {d e : Nat} {kind : String} {fields : List (String × Value)} {field : String × Value} {w : Value} :
    field ∈ fields → Stands (deeper d) field.2 e w → Stands d (.record kind fields) e w

/-- A value that has no document for its own part: a whole number beyond 64 bits, a map with a key that is
none, and a container too deep down. -/
def Refused (d : Nat) : Value → Prop
  | .int n => fits n = false
  | .list _ => deeper d = lastDepth
  | .map entries => deeper d = lastDepth ∨ ∃ entry ∈ entries, keyText entry.1 = none
  | .record .. => d = lastDepth
  | _ => False

/-- Something refused stands in a value. -/
def Blocked (d : Nat) (v : Value) : Prop := ∃ e w, Stands d v e w ∧ Refused e w

theorem blocked_member {d : Nat} {v : Value} {enumeration name : String} {textual : Bool} :
    Blocked d (.member enumeration name textual v) ↔ Blocked d v := by
  constructor
  · rintro ⟨e, w, stands, refused⟩
    cases stands with
    | here => exact refused.elim
    | member _ _ _ stands => exact ⟨e, w, stands, refused⟩
  · rintro ⟨e, w, stands, refused⟩
    exact ⟨e, w, .member _ _ _ stands, refused⟩

theorem blocked_list {d : Nat} {xs : List Value} :
    Blocked d (.list xs) ↔ deeper d = lastDepth ∨ ∃ v ∈ xs, Blocked (deeper d) v := by
  constructor
  · rintro ⟨e, w, stands, refused⟩
    cases stands with
    | here => exact .inl refused
    | list among stands => exact .inr ⟨_, among, e, w, stands, refused⟩
  · rintro (last | ⟨v, among, e, w, stands, refused⟩)
    · exact ⟨d, _, .here d _, last⟩
    · exact ⟨e, w, .list among stands, refused⟩

theorem blocked_tuple {d : Nat} {xs : List Value} :
    Blocked d (.tuple xs) ↔ ∃ v ∈ xs, Blocked (deeper d) v := by
  constructor
  · rintro ⟨e, w, stands, refused⟩
    cases stands with
    | here => exact refused.elim
    | tuple among stands => exact ⟨_, among, e, w, stands, refused⟩
  · rintro ⟨v, among, e, w, stands, refused⟩
    exact ⟨e, w, .tuple among stands, refused⟩

theorem blocked_map {d : Nat} {entries : List (Value × Value)} :
    Blocked d (.map entries) ↔
      deeper d = lastDepth ∨ ∃ entry ∈ entries, keyText entry.1 = none ∨ Blocked (deeper d) entry.2 := by
  constructor
  · rintro ⟨e, w, stands, refused⟩
    cases stands with
    | here =>
      rcases refused with last | ⟨entry, among, key⟩
      · exact .inl last
      · exact .inr ⟨entry, among, .inl key⟩
    | map among stands => exact .inr ⟨_, among, .inr ⟨e, w, stands, refused⟩⟩
  · rintro (last | ⟨entry, among, key | ⟨e, w, stands, refused⟩⟩)
    · exact ⟨d, _, .here d _, .inl last⟩
    · exact ⟨d, _, .here d _, .inr ⟨entry, among, key⟩⟩
    · exact ⟨e, w, .map among stands, refused⟩

theorem blocked_record {d : Nat} {kind : String} {fields : List (String × Value)} :
    Blocked d (.record kind fields) ↔ d = lastDepth ∨ ∃ field ∈ fields, Blocked (deeper d) field.2 := by
  constructor
  · rintro ⟨e, w, stands, refused⟩
    cases stands with
    | here => exact .inl refused
    | record among stands => exact .inr ⟨_, among, e, w, stands, refused⟩
  · rintro (last | ⟨field, among, e, w, stands, refused⟩)
    · exact ⟨d, _, .here d _, last⟩
    · exact ⟨e, w, .record among stands, refused⟩

/-- A value in which nothing else stands blocks only what it refuses itself. -/
theorem blocked_of_lone {d : Nat} {v : Value} (h : ∀ e w, Stands d v e w → e = d ∧ w = v) :
    Blocked d v ↔ Refused d v := by
  constructor
  · rintro ⟨e, w, stands, refused⟩
    obtain ⟨rfl, rfl⟩ := h e w stands
    exact refused
  · exact fun refused => ⟨d, v, .here d v, refused⟩

mutual

theorem ofValueAt_eq_none_iff (sorted : Bool) (d : Nat) :
    (v : Value) → (ofValueAt sorted d v = none ↔ Blocked d v)
  | .member enumeration name textual v => by
    rw [ofValueAt, blocked_member]
    exact ofValueAt_eq_none_iff sorted d v
  | .list xs => by
    rw [ofValueAt, blocked_list, ← ofValues_eq_none_iff sorted (deeper d) xs]
    split <;> simp_all
  | .tuple xs => by
    rw [ofValueAt, blocked_tuple, ← ofValues_eq_none_iff sorted (deeper d) xs]
    simp
  | .map entries => by
    rw [ofValueAt, blocked_map, ← ofEntries_eq_none_iff sorted (deeper d) entries]
    split <;> simp_all
  | .record kind fields => by
    rw [ofValueAt, blocked_record, ← ofFields_eq_none_iff sorted (deeper d) fields]
    split <;> simp_all
  | .int n => by
    rw [blocked_of_lone (by rintro _ _ ⟨⟩; simp), ofValueAt, Refused]
    split <;> simp_all
  | .null | .bool _ | .float _ | .text _ | .bytes _ | .enumeration .. | .object .. | .callback _ | .method ..
  | .state _ | .model _ => by
    rw [blocked_of_lone (by rintro _ _ ⟨⟩; simp)]
    simp [ofValueAt, Refused]

theorem ofValues_eq_none_iff (sorted : Bool) (d : Nat) :
    (vs : List Value) → (ofValues sorted d vs = none ↔ ∃ v ∈ vs, Blocked d v)
  | [] => by simp [ofValues]
  | v :: vs => by
    have first := ofValueAt_eq_none_iff sorted d v
    have others := ofValues_eq_none_iff sorted d vs
    rw [List.exists_mem_cons_iff, ← first, ← others, ofValues]
    cases ofValueAt sorted d v <;> cases ofValues sorted d vs <;> simp

theorem ofEntries_eq_none_iff (sorted : Bool) (d : Nat) : (entries : List (Value × Value)) →
    (ofEntries sorted d entries = none ↔ ∃ entry ∈ entries, keyText entry.1 = none ∨ Blocked d entry.2)
  | [] => by simp [ofEntries]
  | (k, v) :: entries => by
    have first := ofValueAt_eq_none_iff sorted d v
    have others := ofEntries_eq_none_iff sorted d entries
    rw [List.exists_mem_cons_iff, ← first, ← others, ofEntries]
    cases keyText k <;> cases ofValueAt sorted d v <;> cases ofEntries sorted d entries <;> simp

theorem ofFields_eq_none_iff (sorted : Bool) (d : Nat) : (fields : List (String × Value)) →
    (ofFields sorted d fields = none ↔ ∃ field ∈ fields, Blocked d field.2)
  | [] => by simp [ofFields]
  | (name, v) :: fields => by
    have first := ofValueAt_eq_none_iff sorted d v
    have others := ofFields_eq_none_iff sorted d fields
    rw [List.exists_mem_cons_iff, ← first, ← others, ofFields]
    cases ofValueAt sorted d v <;> cases ofFields sorted d fields <;> simp

end

/-! What documents show. -/

/-- The text of a key, or its description where it is none. -/
def shownKey (key : Value) : String := (keyText key).getD key.description

mutual

/-- What a document is to show of a value: whatever has no form of its own, or does not fit into it, by its
description. -/
def shown : Value → Tree
  | .null => .null
  | .bool b => .bool b
  | .int n => if fits n then .number (toString n) else .text (Value.int n).description
  | .float x => (numberStyle.write x).elim .null .number
  | .text s => .text s
  | .member _ _ _ v => shown v
  | .list xs | .tuple xs => .array (shownItems xs)
  | .map entries => .object (shownEntries entries)
  | .record _ fields => .object (shownFields fields)
  | v => .text v.description

def shownItems : List Value → List Tree
  | [] => []
  | v :: vs => shown v :: shownItems vs

def shownEntries : List (Value × Value) → List (String × Tree)
  | [] => []
  | (k, v) :: entries => (shownKey k, shown v) :: shownEntries entries

def shownFields : List (String × Value) → List (String × Tree)
  | [] => []
  | (name, v) :: fields => (name, shown v) :: shownFields fields

end

theorem tree_ofDouble (x : Number.Binary64) : (ofDouble x).tree = (numberStyle.write x).elim .null .number := by
  unfold ofDouble
  cases h : x.shape <;> simp [tree, Number.NumberStyle.write, h]

mutual

/-- A document shows of its value all that it is to show. -/
theorem tree_of_ofValueAt (d : Nat) :
    (v : Value) → (j : Json) → ofValueAt false d v = some j → j.tree = shown v
  | .member _ _ _ v, j, h => by
    rw [ofValueAt] at h
    rw [shown]
    exact tree_of_ofValueAt d v j h
  | .list xs, j, h => by
    rw [ofValueAt] at h
    split at h
    · cases h
    · obtain ⟨js, items, rfl⟩ := Option.map_eq_some_iff.mp h
      rw [tree, shown, trees_of_ofValues (deeper d) xs js items]
  | .tuple xs, j, h => by
    rw [ofValueAt] at h
    obtain ⟨js, items, rfl⟩ := Option.map_eq_some_iff.mp h
    rw [tree, shown, trees_of_ofValues (deeper d) xs js items]
  | .map entries, j, h => by
    rw [ofValueAt] at h
    split at h
    · cases h
    · obtain ⟨js, some, rfl⟩ := Option.map_eq_some_iff.mp h
      rw [tree, shown, ordered, if_neg (by decide), entryTrees_of_ofEntries (deeper d) entries js some]
  | .record _ fields, j, h => by
    rw [ofValueAt] at h
    split at h
    · cases h
    · obtain ⟨js, some, rfl⟩ := Option.map_eq_some_iff.mp h
      rw [tree, shown, entryTrees_of_ofFields (deeper d) fields js some]
  | .int n, j, h => by
    rw [ofValueAt] at h
    split at h
    · next small =>
      cases h
      rw [tree, shown, if_pos small]
    · cases h
  | .float x, j, h => by
    rw [ofValueAt] at h
    cases h
    rw [shown, tree_ofDouble]
  | .null, j, h | .bool _, j, h | .text _, j, h | .bytes _, j, h | .enumeration .., j, h | .object .., j, h
  | .callback _, j, h | .method .., j, h | .state _, j, h | .model _, j, h => by
    simp only [ofValueAt, Option.some.injEq] at h
    subst h
    simp [tree, shown]

theorem trees_of_ofValues (d : Nat) :
    (vs : List Value) → (js : List Json) → ofValues false d vs = some js → trees js = shownItems vs
  | [], js, h => by
    rw [ofValues] at h
    cases h
    rfl
  | v :: vs, js, h => by
    simp only [ofValues, Option.bind_eq_bind, Option.bind_eq_some_iff, Option.pure_def, Option.some.injEq] at h
    obtain ⟨j, first, js, others, rfl⟩ := h
    rw [trees, shownItems, tree_of_ofValueAt d v j first, trees_of_ofValues d vs js others]

theorem entryTrees_of_ofEntries (d : Nat) : (entries : List (Value × Value)) → (js : List (String × Json)) →
    ofEntries false d entries = some js → entryTrees js = shownEntries entries
  | [], js, h => by
    rw [ofEntries] at h
    cases h
    rfl
  | (k, v) :: entries, js, h => by
    simp only [ofEntries, Option.bind_eq_bind, Option.bind_eq_some_iff, Option.pure_def, Option.some.injEq] at h
    obtain ⟨key, text, j, first, js, others, rfl⟩ := h
    rw [entryTrees, shownEntries, shownKey, text, Option.getD_some, tree_of_ofValueAt d v j first,
      entryTrees_of_ofEntries d entries js others]

theorem entryTrees_of_ofFields (d : Nat) : (fields : List (String × Value)) → (js : List (String × Json)) →
    ofFields false d fields = some js → entryTrees js = shownFields fields
  | [], js, h => by
    rw [ofFields] at h
    cases h
    rfl
  | (name, v) :: fields, js, h => by
    simp only [ofFields, Option.bind_eq_bind, Option.bind_eq_some_iff, Option.pure_def, Option.some.injEq] at h
    obtain ⟨j, first, js, others, rfl⟩ := h
    rw [entryTrees, shownFields, tree_of_ofValueAt d v j first, entryTrees_of_ofFields d fields js others]

end

end StateEngine.Json
