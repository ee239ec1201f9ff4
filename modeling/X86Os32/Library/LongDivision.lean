import Mathlib.Tactic.Ring

namespace X86Os32.Library

/-! Division place by place: at each place the divisor is taken away where it
goes into the remainder. -/

namespace LongDivision

/-- `quot` is the quotient as far as the places from `k` on go, and `rem` is what
is left of the dividend. -/
structure Divides (dividend divisor k rem quot : Nat) : Prop where
  sum : quot * divisor + rem = dividend
  rem_lt : rem < divisor * 2 ^ k

variable {dividend divisor k rem quot : Nat}

theorem Divides.start (hlt : dividend < divisor * 2 ^ k) :
    Divides dividend divisor k dividend 0 where
  sum := by rw [Nat.zero_mul, Nat.zero_add]
  rem_lt := hlt

theorem Divides.take (hdivides : Divides dividend divisor (k + 1) rem quot)
    (hle : divisor * 2 ^ k ≤ rem) :
    Divides dividend divisor k (rem - divisor * 2 ^ k) (quot + 2 ^ k) where
  sum := by
    have hplace : (quot + 2 ^ k) * divisor = quot * divisor + divisor * 2 ^ k := by
      ring
    rw [hplace, ← hdivides.sum]
    omega
  rem_lt := by
    have hlt := hdivides.rem_lt
    have hdouble : divisor * 2 ^ (k + 1) = divisor * 2 ^ k + divisor * 2 ^ k := by
      ring
    omega

theorem Divides.skip (hdivides : Divides dividend divisor (k + 1) rem quot)
    (hlt : rem < divisor * 2 ^ k) : Divides dividend divisor k rem quot where
  sum := hdivides.sum
  rem_lt := hlt

theorem Divides.quot_le (hdivides : Divides dividend divisor k rem quot)
    (hdivisor : 0 < divisor) : quot ≤ dividend := by
  have hsum := hdivides.sum
  have hle := Nat.le_mul_of_pos_right quot hdivisor
  omega

/-- When no place is left, quotient and remainder are those of the division. -/
theorem Divides.finish (hdivides : Divides dividend divisor 0 rem quot) :
    quot = dividend / divisor ∧ rem = dividend % divisor := by
  obtain ⟨hsum, hlt⟩ := hdivides
  rw [Nat.pow_zero, Nat.mul_one] at hlt
  have hdivisor : 0 < divisor := Nat.zero_lt_of_lt hlt
  rw [Nat.add_comm, Nat.mul_comm] at hsum
  have hunique : dividend / divisor = quot ∧ dividend % divisor = rem :=
    (Nat.div_mod_unique hdivisor).mpr ⟨hsum, hlt⟩
  exact ⟨hunique.1.symm, hunique.2.symm⟩

end LongDivision

end X86Os32.Library
