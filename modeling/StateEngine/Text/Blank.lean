/-! White space at the ends of a text: the white space of Unicode, and the four information separators
of ASCII. -/
namespace StateEngine.Text

private def blanks : List Nat :=
  [0x9, 0xa, 0xb, 0xc, 0xd, 0x1c, 0x1d, 0x1e, 0x1f, 0x20, 0x85, 0xa0, 0x1680, 0x2000, 0x2001,
    0x2002, 0x2003, 0x2004, 0x2005, 0x2006, 0x2007, 0x2008, 0x2009, 0x200a, 0x2028, 0x2029, 0x202f,
    0x205f, 0x3000]

def isBlank (c : Char) : Bool := blanks.contains c.toNat

/-- The characters without the blanks in front and behind. -/
def stripChars (cs : List Char) : List Char :=
  ((cs.dropWhile isBlank).reverse.dropWhile isBlank).reverse

def strip (s : String) : String := String.ofList (stripChars s.toList)

/-- A text is blank when nothing but white space is in it. -/
def Blank (s : String) : Prop := ∀ c ∈ s.toList, isBlank c = true

private theorem dropWhile_blank {cs : List Char} (h : ∀ c ∈ cs, isBlank c = true) :
    cs.dropWhile isBlank = [] := by
  induction cs with
  | nil => rfl
  | cons c cs ih =>
    rw [List.dropWhile_cons_of_pos (h c (by simp))]
    exact ih (fun d hd => h d (by simp [hd]))

/-- Nothing is left of a blank text. -/
theorem strip_of_blank {s : String} (h : Blank s) : strip s = "" := by
  simp [strip, stripChars, dropWhile_blank h]

end StateEngine.Text
