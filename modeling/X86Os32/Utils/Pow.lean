import Mathlib.Data.UInt
import X86Os32.Library.Powers
import X86Os32.Utils.Math

namespace X86Os32.Math

open Library

/-! `Math::pow` of `utils/math.h`. -/

structure Power where
  base : UInt32
  exp : UInt32
  result : UInt32
deriving DecidableEq

namespace Power

/-- `if (exp & 1) { result *= base; }` -/
def multiply (p : Power) : Power :=
  if p.exp &&& 1 ≠ 0 then { p with result := p.result * p.base } else p

/-- The body of the loop before the `break`. -/
def takeBit (p : Power) : Power := { p.multiply with exp := p.exp >>> 1 }

def Open (p : Power) : Prop := p.exp ≠ 0

instance : DecidablePred Open := fun p => inferInstanceAs (Decidable (p.exp ≠ 0))

/-- `base *= base;` -/
def square (p : Power) : Power := { p with base := p.base * p.base }

end Power

def pow (base exp : UInt32) : Except Stop UInt32 := do
  let p ← ended (Loops.middle Power.Open Power.takeBit Power.square (2 ^ 32)
    ⟨base, exp, 1⟩)
  return p.result

namespace Power

variable {p : Power} {power : UInt32}

def Makes (power : UInt32) (p : Power) : Prop :=
  Powers.Makes power p.result p.base p.exp.toNat

theorem toNat_shift (exp : UInt32) : (exp >>> 1).toNat = exp.toNat / 2 := by
  simp [UInt32.toNat_shiftRight, Nat.shiftRight_eq_div_pow]

theorem bit_iff (exp : UInt32) : exp &&& 1 ≠ 0 ↔ exp.toNat % 2 = 1 := by
  rw [ne_eq, ← UInt32.toNat_inj, UInt32.toNat_and]
  change ¬exp.toNat &&& 1 = 0 ↔ _
  rw [Nat.and_one_is_mod]
  omega

theorem takeBit_result (p : Power) :
    p.takeBit.result = Powers.multiply p.result p.base p.exp.toNat := by
  unfold takeBit multiply Powers.multiply
  by_cases hodd : p.exp.toNat % 2 = 1
  · rw [if_pos ((bit_iff p.exp).mpr hodd), if_pos hodd]
  · rw [if_neg fun hbit => hodd ((bit_iff p.exp).mp hbit), if_neg hodd]

theorem takeBit_base (p : Power) : p.takeBit.base = p.base := by
  unfold takeBit multiply
  split <;> rfl

theorem takeBit_exp (p : Power) : p.takeBit.exp.toNat = p.exp.toNat / 2 :=
  toNat_shift p.exp

theorem open_iff : p.Open ↔ p.exp.toNat ≠ 0 :=
  not_congr UInt32.toNat_inj.symm

theorem Makes.round (hmakes : p.Makes power) : p.takeBit.square.Makes power := by
  have hhalved := Powers.Makes.halve hmakes
  unfold Makes square
  dsimp only
  rw [takeBit_result, takeBit_base, takeBit_exp]
  exact hhalved

theorem Makes.descends (p : Power) (hmakes : p.Makes power) (hopen : p.takeBit.Open) :
    p.takeBit.square.Makes power ∧
      p.takeBit.square.exp.toNat < p.exp.toNat := by
  refine ⟨hmakes.round, ?_⟩
  change p.takeBit.exp.toNat < p.exp.toNat
  have hleft := open_iff.mp hopen
  rw [takeBit_exp] at hleft ⊢
  omega

theorem Makes.finish (hmakes : p.Makes power) (hclosed : ¬p.takeBit.Open) :
    p.takeBit.result = power := by
  have hlast := not_not.mp (mt open_iff.mpr hclosed)
  rw [takeBit_exp] at hlast
  rw [takeBit_result]
  exact Powers.Makes.finish hmakes hlast

end Power

theorem toNat_pow (base : UInt32) (exp : Nat) :
    (base ^ exp).toNat = base.toNat ^ exp % 2 ^ 32 := by
  induction exp with
  | zero => rfl
  | succ exp ih =>
      rw [pow_succ base, UInt32.toNat_mul, ih, Nat.mod_mul_mod,
        pow_succ base.toNat]

theorem pow_returns (base exp : UInt32) :
    pow base exp = .ok (base ^ exp.toNat) := by
  have hstart : Power.Makes (base ^ exp.toNat) ⟨base, exp, 1⟩ :=
    Powers.Makes.start base exp.toNat
  obtain ⟨p, hmiddle, hmakes, hclosed⟩ :=
    Loops.middle_ends (fun p : Power => p.exp.toNat) hstart Power.Makes.descends
      exp.toNat_lt
  unfold pow
  rw [hmiddle, ← hmakes.finish hclosed]
  rfl

/-- `pow` is exponentiation modulo `2 ^ 32`. -/
theorem pow_eq_power (base exp : UInt32) :
    (∃ result, pow base exp = .ok result ∧
      result.toNat = base.toNat ^ exp.toNat % 2 ^ 32) ∧
    pow base 0 = .ok 1 :=
  ⟨⟨base ^ exp.toNat, pow_returns base exp, toNat_pow base exp.toNat⟩,
    pow_returns base 0⟩

example : (pow 2 5, pow 3 0, pow 65537 2) = (.ok 32, .ok 1, .ok 131073) := by
  decide +kernel

end X86Os32.Math
