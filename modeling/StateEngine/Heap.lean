/-! Heaps: shared objects under numbers that are given out in order. -/
namespace StateEngine

/-- Objects under the numbers below `cells.size`; every other number holds the default object. -/
structure Heap (α : Type) where
  cells : Array α := #[]

namespace Heap

variable {α : Type} [Inhabited α]

instance : Inhabited (Heap α) := ⟨{}⟩

def get (h : Heap α) (id : Nat) : α := (h.cells[id]?).getD default

def set (h : Heap α) (id : Nat) (a : α) : Heap α :=
  if id < h.cells.size then ⟨h.cells.setIfInBounds id a⟩
  else ⟨(h.cells ++ Array.replicate (id - h.cells.size) default).push a⟩

/-- The number of the next object. -/
def next (h : Heap α) : Nat := h.cells.size

def push (h : Heap α) (a : α) : Heap α := ⟨h.cells.push a⟩

def modify (h : Heap α) (id : Nat) (f : α → α) : Heap α := h.set id (f (h.get id))

/-- Writing one object changes no other one. -/
@[simp] theorem get_set (h : Heap α) (i j : Nat) (a : α) :
    (h.set i a).get j = if i = j then a else h.get j := by
  unfold set get
  by_cases hi : i < h.cells.size
  · by_cases hij : i = j
    · subst hij; simp [hi]
    · simp [hi, hij]
  · have hs : h.cells.size + (i - h.cells.size) = i := by omega
    rw [if_neg hi]
    simp only [Array.getElem?_push, Array.getElem?_append, Array.getElem?_replicate,
      Array.size_append, Array.size_replicate, hs]
    by_cases hij : i = j
    · subst hij; simp
    · have hji : ¬ j = i := fun e => hij e.symm
      by_cases hj : j < h.cells.size
      · simp [hij, hji, hj]
      · simp only [hij, hji, hj, if_false, Array.getElem?_eq_none (Nat.le_of_not_lt hj)]
        split <;> rfl

@[simp] theorem get_modify (h : Heap α) (i j : Nat) (f : α → α) :
    (h.modify i f).get j = if i = j then f (h.get j) else h.get j := by
  unfold modify
  rw [get_set]
  split
  · rename_i hij; rw [hij]
  · rfl

@[simp] theorem get_push (h : Heap α) (a : α) (j : Nat) :
    (h.push a).get j = if j = h.next then a else h.get j := by
  unfold push get next
  rw [Array.getElem?_push]
  split <;> rfl

/-- Numbers that have not been given out hold the default object. -/
theorem get_of_next_le {h : Heap α} {i : Nat} (hi : h.next ≤ i) : h.get i = default := by
  simp only [next] at hi
  simp [get, Array.getElem?_eq_none hi]

/-- What holds of every object given out and of the default one holds of what any number stands for. -/
theorem forall_get {h : Heap α} {P : α → Prop} (hcells : ∀ a ∈ h.cells, P a) (hdefault : P default) (i : Nat) :
    P (h.get i) := by
  unfold get
  by_cases hi : i < h.cells.size
  · rw [Array.getElem?_eq_getElem hi]
    exact hcells _ (Array.getElem_mem hi)
  · rw [Array.getElem?_eq_none (Nat.le_of_not_lt hi)]
    exact hdefault

omit [Inhabited α] in
@[simp] theorem next_push (h : Heap α) (a : α) : (h.push a).next = h.next + 1 := by
  simp [next, push]

theorem next_le_next_modify (h : Heap α) (i : Nat) (f : α → α) : h.next ≤ (h.modify i f).next := by
  unfold modify set next
  split
  · simp
  · simp only [Array.size_push, Array.size_append, Array.size_replicate]
    omega

/-- Writing an object that has been given out gives out no other one. -/
theorem next_modify {h : Heap α} {i : Nat} (hi : i < h.next) (f : α → α) : (h.modify i f).next = h.next := by
  simp only [next] at hi
  simp [modify, set, next, hi]

/-- An object that is written back as it was is as if it had not been written. -/
theorem modify_modify_of_restored {h : Heap α} {i : Nat} (hi : i < h.next) {f g : α → α}
    (hg : g (f (h.get i)) = h.get i) : (h.modify i f).modify i g = h := by
  obtain ⟨cells⟩ := h
  simp only [next] at hi
  simp only [modify, get_set, if_true, hg]
  simp only [set, Array.size_setIfInBounds, hi, if_true, get, Array.getElem?_eq_getElem hi, Option.getD_some,
    mk.injEq]
  rw [Array.setIfInBounds_setIfInBounds]
  simp [Array.setIfInBounds, hi]

end Heap

end StateEngine
