import Mathlib.Algebra.Group.Nat.Defs

namespace X86Os32.Library

/-! Arithmetic of 32-bit unsigned words, represented by numbers below
`2 ^ 32`, and of an `int`. -/

def add32 (x y : Nat) : Nat := (x + y) % 2 ^ 32

def sub32 (x y : Nat) : Nat := (x + 2 ^ 32 - y) % 2 ^ 32

def mul32 (x y : Nat) : Nat := x * y % 2 ^ 32

def complement (x : Nat) : Nat := 2 ^ 32 - 1 - x

theorem add32_of_lt {x y : Nat} (hlt : x + y < 2 ^ 32) :
    add32 x y = x + y := by
  unfold add32
  omega

theorem sub32_of_le {x y : Nat} (hle : y ≤ x) (hlt : x < 2 ^ 32) :
    sub32 x y = x - y := by
  unfold sub32
  omega

/-- `++` of an `int`, which wraps around. -/
def succInt (n : Int) : Int := if n = 2147483647 then -2147483648 else n + 1

theorem succInt_of_ne {n : Int} (hne : n ≠ 2147483647) : succInt n = n + 1 :=
  if_neg hne

end X86Os32.Library
