/-! Powers of two and of ten, and the rounding of a quotient to a whole number. -/
namespace StateEngine.Number

def twoTo (k : Nat) : Nat := Nat.pow 2 k

def tenTo (k : Nat) : Nat := Nat.pow 10 k

/-- The whole number nearest to `a / b`; halfway between two of them it is the even one. -/
def nearest (a b : Nat) : Nat :=
  let q := a / b
  let twice := 2 * (a % b)
  if twice < b ∨ (twice = b ∧ q % 2 = 0) then q else q + 1

/-- A whole quotient is not changed. -/
theorem nearest_mul (q : Nat) {b : Nat} (h : 0 < b) : nearest (q * b) b = q := by
  simp [nearest, Nat.mul_div_cancel q h, h]

/-- Nothing is moved by more than a half. -/
theorem nearest_close (a : Nat) {b : Nat} (h : 0 < b) :
    2 * a ≤ 2 * (nearest a b * b) + b ∧ 2 * (nearest a b * b) ≤ 2 * a + b := by
  have hd : b * (a / b) + a % b = a := Nat.div_add_mod a b
  have hm : a % b < b := Nat.mod_lt a h
  have hc : a / b * b = b * (a / b) := Nat.mul_comm ..
  have hs : (a / b + 1) * b = b * (a / b) + b := by rw [Nat.add_mul, hc, Nat.one_mul]
  unfold nearest
  dsimp only
  split
  · rename_i hr; omega
  · rename_i hr; omega

end StateEngine.Number
