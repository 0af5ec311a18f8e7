/-!
# Numbers in double precision

A double has 53 binary digits, so the whole numbers that it can hold lie close
together at first and ever further apart from `2 ^ 53` on.  Any other number
stands for the nearest of them, and one halfway between two for the one whose
last binary digit is 0.  A number that would be rounded past the greatest
double has none.

Whether a literal is in range is decided by `productOverflows`, and nothing else
is asked of these numbers.  What makes `round` the rounding to the nearest double
are its three laws: `round_nearest`, `round_halfway` and `round_eq_of_lt`.
-/

namespace HeadUnitLink

namespace DoublePrecision

/-- The distance between neighbouring doubles at a whole number. -/
def spacing (n : Nat) : Nat := 1 <<< (n.log2 - 52)

/-- The double nearest to a whole number, if the exponent had no bound. -/
def round (n : Nat) : Nat :=
  let below := n / spacing n
  let surplus := n % spacing n
  let staysBelow := 2 * surplus < spacing n ∨ 2 * surplus = spacing n ∧ below % 2 = 0
  (if staysBelow then below else below + 1) * spacing n

/-- The first whole number that is rounded past the greatest double: it lies
halfway between `2 ^ 1024` and the double before. -/
def firstTooLarge : Nat := 0x3fffffffffffff <<< 970

/-- Does a product of two numbers, each rounded before, have no double? -/
def productOverflows (m n : Nat) : Bool := firstTooLarge ≤ round m * round n

/-! ## The laws of rounding -/

theorem spacing_pos (n : Nat) : 0 < spacing n := by
  rw [spacing, Nat.one_shiftLeft]
  exact Nat.two_pow_pos _

theorem spacing_eq_one_of_lt {n : Nat} (h : n < 0x20000000000000) : spacing n = 1 := by
  rcases Nat.eq_zero_or_pos n with rfl | hpos
  · rfl
  · have hlog : n.log2 < 53 := (Nat.log2_lt (Nat.ne_of_gt hpos)).2 (by simpa using h)
    rw [spacing, Nat.sub_eq_zero_of_le (by omega), Nat.shiftLeft_zero]

/-- Rounding ends on the grid of doubles, and no other number of the grid is
nearer.  Of the two differences that make up a distance one is always 0. -/
theorem round_nearest (n : Nat) :
    (∃ k, round n = k * spacing n) ∧
      ∀ k, (round n - n) + (n - round n) ≤ (k * spacing n - n) + (n - k * spacing n) := by
  refine ⟨⟨_, rfl⟩, fun k => ?_⟩
  have hsum := Nat.div_add_mod' n (spacing n)
  have hlt := Nat.mod_lt n (spacing_pos n)
  have hnext := Nat.add_one_mul (n / spacing n) (spacing n)
  simp only [round]
  -- The number lies between `n / spacing n` spacings and one more, so that `k`
  -- spacings are at or beyond one end of this interval.
  rcases Nat.lt_or_ge (n / spacing n) k with hk | hk
  · have hsucc : n / spacing n + 1 ≤ k := hk
    have habove := Nat.mul_le_mul_right (spacing n) hsucc
    split <;> omega
  · have hbelow := Nat.mul_le_mul_right (spacing n) hk
    split <;> omega

/-- A number halfway between two doubles is rounded to the one whose last binary
digit is 0. -/
theorem round_halfway {n : Nat} (h : 2 * (n % spacing n) = spacing n) :
    round n / spacing n % 2 = 0 := by
  have hpos := spacing_pos n
  simp only [round]
  rw [Nat.mul_div_cancel _ hpos]
  split <;> omega

/-- A number of at most 53 binary digits is a double. -/
theorem round_eq_of_lt {n : Nat} (h : n < 0x20000000000000) : round n = n := by
  have hnear := (round_nearest n).2 n
  rw [spacing_eq_one_of_lt h, Nat.mul_one] at hnear
  omega

/-- The first number that is too large is rounded to `2 ^ 1024`, and the one
before it to the greatest double. -/
example :
    round firstTooLarge = 1 <<< 1024 ∧
      round (firstTooLarge - 1) = (1 <<< 1024) - (1 <<< 971) := by
  decide +kernel

end DoublePrecision

end HeadUnitLink
