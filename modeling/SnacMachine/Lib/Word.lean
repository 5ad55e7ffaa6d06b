import Mathlib.Tactic.Ring

/-!
# Saturating arithmetic

Sixty-four-bit quantities (clock readings, deadlines) are natural numbers; the additions and
products that the programs saturate are `satAdd` and `satMul`.
-/

/-- The largest 64-bit value. -/
def u64Max : Nat := 2 ^ 64 - 1

/-- Addition that stops at the largest 64-bit value. -/
def satAdd (a b : Nat) : Nat := min (a + b) u64Max

/-- Multiplication that stops at the largest 64-bit value. -/
def satMul (a b : Nat) : Nat := min (a * b) u64Max

/-- Saturating addition gives no more than the sum. -/
theorem satAdd_le (a b : Nat) : satAdd a b ≤ a + b := Nat.min_le_left _ _

/-- Saturating addition stays within 64 bits. -/
theorem satAdd_le_max (a b : Nat) : satAdd a b ≤ u64Max := Nat.min_le_right _ _

/-- Saturating addition is monotone. -/
theorem satAdd_mono {a b c : Nat} (h : b ≤ c) : satAdd a b ≤ satAdd a c := by
  unfold satAdd; omega

/-- Sums that fit are not changed by saturation. -/
theorem satAdd_eq {a b : Nat} (h : a + b ≤ u64Max) : satAdd a b = a + b := Nat.min_eq_left h
