/-! Tables: entries under keys, in the order in which the keys came. -/
namespace StateEngine

/-- Entries in the order of their keys' first insertion; no two keys are equal. -/
structure Table (κ α : Type) where
  entries : List (κ × α) := []

namespace Table

variable {κ α : Type} [BEq κ]

instance : Inhabited (Table κ α) := ⟨{}⟩

def keys (t : Table κ α) : List κ := t.entries.map Prod.fst

def values (t : Table κ α) : List α := t.entries.map Prod.snd

def size (t : Table κ α) : Nat := t.entries.length

def find? (t : Table κ α) (key : κ) : Option α :=
  (t.entries.find? (fun e => e.1 == key)).map Prod.snd

def contains (t : Table κ α) (key : κ) : Bool := (t.find? key).isSome

private def put (key : κ) (a : α) : List (κ × α) → List (κ × α)
  | [] => [(key, a)]
  | e :: rest => if e.1 == key then (e.1, a) :: rest else e :: put key a rest

/-- Replaces the entry of an equal key, which keeps its place and its first form, or adds one behind. -/
def insert (t : Table κ α) (key : κ) (a : α) : Table κ α := ⟨put key a t.entries⟩

def erase (t : Table κ α) (key : κ) : Table κ α := ⟨t.entries.filter (fun e => !(e.1 == key))⟩

private theorem put_of_not_mem {key : κ} {a : α} {entries : List (κ × α)}
    (h : ∀ e ∈ entries, (e.1 == key) = false) : put key a entries = entries ++ [(key, a)] := by
  induction entries with
  | nil => rfl
  | cons e rest ih =>
    rw [put, h e (by simp), List.cons_append, ih (fun x hx => h x (by simp [hx]))]
    simp

theorem mem_of_find? {t : Table κ α} {key : κ} {a : α} (h : t.find? key = some a) :
    ∃ k, (k == key) = true ∧ (k, a) ∈ t.entries := by
  obtain ⟨⟨k, b⟩, hf, rfl⟩ := Option.map_eq_some_iff.mp h
  exact ⟨k, by simpa using List.find?_some hf, List.mem_of_find?_eq_some hf⟩

theorem find?_of_mem {t : Table κ α} {key : κ} {x : κ × α} (hx : x ∈ t.entries)
    (hk : (x.1 == key) = true) : ∃ a, t.find? key = some a := by
  have hf : (t.entries.find? (fun e => e.1 == key)).isSome := List.find?_isSome.mpr ⟨x, hx, hk⟩
  obtain ⟨y, hy⟩ := Option.isSome_iff_exists.mp hf
  exact ⟨y.2, by rw [find?, hy]; rfl⟩

/-- A new key goes behind all others. -/
theorem entries_insert_of_not_contains {t : Table κ α} {key : κ} {a : α}
    (h : t.contains key = false) : (t.insert key a).entries = t.entries ++ [(key, a)] := by
  have hn : ∀ e ∈ t.entries, (e.1 == key) = false := by
    intro e he
    simp only [contains, find?, Option.isSome_map, Option.isSome_eq_false_iff,
      Option.isNone_iff_eq_none, List.find?_eq_none] at h
    simpa using h e he
  exact put_of_not_mem hn

theorem keys_insert_of_not_contains {t : Table κ α} {key : κ} {a : α}
    (h : t.contains key = false) : (t.insert key a).keys = t.keys ++ [key] := by
  simp [keys, entries_insert_of_not_contains h]

/-- A new key hides none that is there. -/
theorem find?_insert_of_not_contains {t : Table κ α} {key other : κ} {a b : α}
    (h : t.contains key = false) (hf : t.find? other = some b) : (t.insert key a).find? other = some b := by
  unfold find? at hf ⊢
  rw [entries_insert_of_not_contains h, List.find?_append]
  obtain ⟨x, hx, rfl⟩ := Option.map_eq_some_iff.mp hf
  rw [hx]
  rfl

/-- The entry of a key that is there is replaced where it stands. -/
theorem entries_insert_of_find? {t : Table κ α} {key : κ} {old : α} (h : t.find? key = some old) (a : α) :
    ∃ front k back, (k == key) = true ∧ t.entries = front ++ (k, old) :: back ∧
      (t.insert key a).entries = front ++ (k, a) :: back := by
  have replaced {entries : List (κ × α)} (h : (entries.find? (fun e => e.1 == key)).map Prod.snd = some old) :
      ∃ front k back, (k == key) = true ∧ entries = front ++ (k, old) :: back ∧
        put key a entries = front ++ (k, a) :: back := by
    induction entries with
    | nil => cases h
    | cons e rest ih =>
      by_cases he : (e.1 == key) = true
      · simp only [List.find?_cons, he, Option.map_some, Option.some.injEq] at h
        exact ⟨[], e.1, rest, he, by rw [← h]; rfl, by rw [put, if_pos he]; rfl⟩
      · rw [List.find?_cons, Bool.eq_false_iff.mpr he] at h
        obtain ⟨front, k, back, hk, hrest, hput⟩ := ih h
        exact ⟨e :: front, k, back, hk, by rw [hrest]; rfl, by rw [put, if_neg he, hput]; rfl⟩
  exact replaced h

private theorem mem_put [ReflBEq κ] {key : κ} {a : α} {x : κ × α} {entries : List (κ × α)}
    (h : x ∈ put key a entries) : x ∈ entries ∨ (x.1 == key) = true ∧ x.2 = a := by
  induction entries with
  | nil =>
    rw [put, List.mem_singleton] at h
    exact .inr ⟨h ▸ ReflBEq.rfl, h ▸ rfl⟩
  | cons e rest ih =>
    by_cases he : (e.1 == key) = true
    · rw [put, if_pos he, List.mem_cons] at h
      rcases h with rfl | h
      · exact .inr ⟨he, rfl⟩
      · exact .inl (List.mem_cons_of_mem _ h)
    · rw [put, if_neg he, List.mem_cons] at h
      rcases h with rfl | h
      · exact .inl List.mem_cons_self
      · exact (ih h).imp_left (List.mem_cons_of_mem _)

/-- What is in a table after an insertion was in it before or has been inserted. -/
theorem mem_entries_insert [ReflBEq κ] {t : Table κ α} {key : κ} {a : α} {x : κ × α}
    (h : x ∈ (t.insert key a).entries) : x ∈ t.entries ∨ (x.1 == key) = true ∧ x.2 = a :=
  mem_put h

private theorem find?_put {key other : κ} (a : α) (entries : List (κ × α))
    (hkey : ∀ k, (k == key) = true → (k == other) = (key == other))
    (hother : (key == other) = true → ∀ k, (k == other) = (k == key)) :
    ((put key a entries).find? (fun e => e.1 == other)).map Prod.snd =
      if key == other then some a
      else (entries.find? (fun e => e.1 == other)).map Prod.snd := by
  induction entries with
  | nil => by_cases h : (key == other) = true <;> simp [put, h]
  | cons e rest ih =>
    by_cases hk : (e.1 == key) = true
    · by_cases ho : (key == other) = true
      · simp [put, hk, hkey e.1 hk, ho]
      · simp [put, hk, hkey e.1 hk, ho]
    · by_cases ho : (e.1 == other) = true
      · have hne : ¬ (key == other) = true := fun h => hk (by rw [← hother h]; exact ho)
        simp [put, hk, ho, hne]
      · simp [put, hk, ho, ih]

/-- After an insertion a key has the new entry if it equals the inserted one, and its old one otherwise, as
long as equality with these two keys is the same for all keys that equal one of them. -/
theorem find?_insert_of {t : Table κ α} {key other : κ} (a : α)
    (hkey : ∀ k, (k == key) = true → (k == other) = (key == other))
    (hother : (key == other) = true → ∀ k, (k == other) = (k == key)) :
    (t.insert key a).find? other = if key == other then some a else t.find? other :=
  find?_put a t.entries hkey hother

@[simp] theorem find?_insert [LawfulBEq κ] (t : Table κ α) (key other : κ) (a : α) :
    (t.insert key a).find? other = if key == other then some a else t.find? other :=
  find?_insert_of a (fun _ h => by rw [eq_of_beq h]) (fun h _ => by rw [eq_of_beq h])

end Table

end StateEngine
