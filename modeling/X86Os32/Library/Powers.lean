import Mathlib.Algebra.Group.Basic

namespace X86Os32.Library

/-! Square and multiply: the exponent is taken apart from its lowest bit. -/

namespace Powers

variable {M : Type*} [Monoid M]

/-- What is left of the exponent makes the power of the result. -/
def Makes (power result base : M) (exp : Nat) : Prop :=
  result * base ^ exp = power

def multiply (result base : M) (exp : Nat) : M :=
  if exp % 2 = 1 then result * base else result

variable {power result base : M} {exp : Nat}

theorem Makes.start (base : M) (exp : Nat) : Makes (base ^ exp) 1 base exp :=
  one_mul _

theorem pow_halves (base : M) (exp : Nat) :
    (base * base) ^ (exp / 2) = base ^ (2 * (exp / 2)) := by
  rw [pow_mul, sq]

theorem Makes.halve (hmakes : Makes power result base exp) :
    Makes power (multiply result base exp) (base * base) (exp / 2) := by
  unfold Makes multiply at *
  rw [pow_halves]
  by_cases hodd : exp % 2 = 1
  · have hexp : exp = 2 * (exp / 2) + 1 := by omega
    rw [if_pos hodd, mul_assoc, ← pow_succ', ← hexp]
    exact hmakes
  · have hexp : exp = 2 * (exp / 2) := by omega
    rw [if_neg hodd, ← hexp]
    exact hmakes

theorem Makes.finish (hmakes : Makes power result base exp)
    (hlast : exp / 2 = 0) : multiply result base exp = power := by
  have hhalved := hmakes.halve
  unfold Makes at hhalved
  rw [hlast, pow_zero, mul_one] at hhalved
  exact hhalved

end Powers

end X86Os32.Library
