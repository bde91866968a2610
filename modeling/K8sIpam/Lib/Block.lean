import Mathlib.Algebra.Order.Group.Nat
import Mathlib.Data.Set.Disjoint
import Mathlib.Tactic.Ring

/-! # Blocks of a power of two

The numbers that agree above their lowest `h` bits form a block. Two blocks are nested or
disjoint, and the smaller one decides which. -/

namespace Block

variable {a b c h k : Nat}

/-- `a` and `b` agree above their lowest `h` bits. -/
def Same (h a b : Nat) : Prop := a / 2 ^ h = b / 2 ^ h

instance : Decidable (Same h a b) := inferInstanceAs (Decidable (_ = _))

theorem Same.refl (h a : Nat) : Same h a a := rfl

theorem Same.symm (H : Same h a b) : Same h b a := Eq.symm H

theorem Same.trans (H : Same h a b) (H' : Same h b c) : Same h a c := Eq.trans H H'

/-- Numbers in one block are in one larger block. -/
theorem Same.mono (hk : h ≤ k) (H : Same h a b) : Same k a b := by
  obtain ⟨d, rfl⟩ := Nat.exists_eq_add_of_le hk
  unfold Same at *
  rw [Nat.pow_add, ← Nat.div_div_eq_div_mul, ← Nat.div_div_eq_div_mul, H]

/-- The first number of the block of `a`. -/
def first (h a : Nat) : Nat := a / 2 ^ h * 2 ^ h

/-- The last number of the block of `a`. -/
def last (h a : Nat) : Nat := first h a + (2 ^ h - 1)

theorem first_le (h a : Nat) : first h a ≤ a := Nat.div_mul_le_self a (2 ^ h)

theorem same_first (h a : Nat) : Same h (first h a) a := Nat.mul_div_cancel _ (Nat.two_pow_pos h)

theorem same_last (h a : Nat) : Same h (last h a) a := by
  have hpos := Nat.two_pow_pos h
  unfold Same last first
  rw [Nat.add_comm, Nat.add_mul_div_right _ _ hpos, Nat.div_eq_of_lt (by omega), Nat.zero_add]

theorem first_congr (H : Same h a b) : first h a = first h b := congrArg (· * 2 ^ h) H

theorem last_congr (H : Same h a b) : last h a = last h b :=
  congrArg (· + (2 ^ h - 1)) (first_congr H)

/-- A block of numbers below a power of two stays below it. -/
theorem last_lt {n : Nat} (hn : h ≤ n) (ha : a < 2 ^ n) : last h a < 2 ^ n := by
  have hpos := Nat.two_pow_pos h
  obtain ⟨d, rfl⟩ := Nat.exists_eq_add_of_le hn
  rw [Nat.pow_add] at *
  have hdiv : a / 2 ^ h < 2 ^ d := Nat.div_lt_of_lt_mul ha
  have hmul : (a / 2 ^ h + 1) * 2 ^ h ≤ 2 ^ d * 2 ^ h := Nat.mul_le_mul_right _ hdiv
  unfold last first
  rw [Nat.add_mul, Nat.one_mul] at hmul
  rw [Nat.mul_comm (2 ^ h)]
  omega

theorem first_lt {n : Nat} (ha : a < 2 ^ n) : first h a < 2 ^ n :=
  (first_le h a).trans_lt ha

/-- The first number of a block is the first of a smaller one. -/
theorem first_first (hk : k ≤ h) (a : Nat) : first k (first h a) = first h a := by
  exact Nat.div_mul_cancel (Dvd.dvd.mul_left (pow_dvd_pow 2 hk) _)

theorem first_div (h a : Nat) : first (h + 1) a / 2 ^ h = 2 * (a / 2 ^ (h + 1)) := by
  rw [first, Nat.pow_succ, Nat.mul_comm (2 ^ h) 2, ← Nat.mul_assoc,
    Nat.mul_div_cancel _ (Nat.two_pow_pos h), Nat.mul_comm]

theorem last_div (h a : Nat) : last (h + 1) a / 2 ^ h = 2 * (a / 2 ^ (h + 1)) + 1 := by
  have hpos := Nat.two_pow_pos h
  have hsum : last (h + 1) a = (2 ^ h - 1) + 2 ^ h * (2 * (a / 2 ^ (h + 1)) + 1) := by
    have hcomm : a / (2 ^ h * 2) * (2 ^ h * 2) = 2 ^ h * (2 * (a / (2 ^ h * 2))) := by ring
    rw [last, first, Nat.pow_succ, hcomm, Nat.mul_add]
    omega
  rw [hsum, Nat.add_mul_div_left _ _ hpos, Nat.div_eq_of_lt (by omega), Nat.zero_add]

/-- A block is made of the block of its first and of that of its last number. -/
theorem Same.halves (H : Same (h + 1) a b) :
    Same h (first (h + 1) a) b ∨ Same h (last (h + 1) a) b := by
  have hhalf : b / 2 ^ h / 2 = b / 2 ^ (h + 1) := by rw [Nat.div_div_eq_div_mul, Nat.pow_succ]
  have H' : a / 2 ^ (h + 1) = b / 2 ^ (h + 1) := H
  unfold Same
  rw [first_div, last_div, H', ← hhalf]
  omega

/-- The numbers of the lower half are smaller than those of the upper half. -/
theorem lt_of_same_halves (H : Same h (first (h + 1) a) b) (H' : Same h (last (h + 1) a) c) :
    b < c := by
  unfold Same at H H'
  rw [first_div] at H
  rw [last_div] at H'
  have hdiv : b / 2 ^ h < c / 2 ^ h := by omega
  exact Nat.lt_of_div_lt_div hdiv

end Block
