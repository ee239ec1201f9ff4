import Mathlib.Algebra.Group.Nat.Defs
import Mathlib.Logic.Function.Basic

namespace X86Os32.Library

/-! Byte-addressed memory with little-endian 32-bit words. -/

abbrev Mem := Nat → UInt8

namespace Mem

def load32 (m : Mem) (a : Nat) : Nat :=
  (m a).toNat + 2 ^ 8 * (m (a + 1)).toNat + 2 ^ 16 * (m (a + 2)).toNat +
    2 ^ 24 * (m (a + 3)).toNat

def store8 (m : Mem) (a : Nat) (byte : UInt8) : Mem := fun p =>
  if p = a then byte else m p

def store32 (m : Mem) (a v : Nat) : Mem := fun p =>
  if p = a then UInt8.ofNat v
  else if p = a + 1 then UInt8.ofNat (v / 2 ^ 8)
  else if p = a + 2 then UInt8.ofNat (v / 2 ^ 16)
  else if p = a + 3 then UInt8.ofNat (v / 2 ^ 24)
  else m p

theorem load32_lt (m : Mem) (a : Nat) : m.load32 a < 2 ^ 32 := by
  have h0 := (m a).toNat_lt
  have h1 := (m (a + 1)).toNat_lt
  have h2 := (m (a + 2)).toNat_lt
  have h3 := (m (a + 3)).toNat_lt
  simp only [load32]
  omega

theorem byte_of_load32 (m : Mem) (a : Nat) :
    m a = UInt8.ofNat (m.load32 a) := by
  apply UInt8.toNat_inj.mp
  have h0 := (m a).toNat_lt
  simp only [load32, UInt8.toNat_ofNat']
  omega

theorem load32_congr {m m' : Mem} {a : Nat}
    (same : ∀ p, a ≤ p → p < a + 4 → m' p = m p) :
    m'.load32 a = m.load32 a := by
  simp only [load32]
  rw [same a (by omega) (by omega), same (a + 1) (by omega) (by omega),
    same (a + 2) (by omega) (by omega), same (a + 3) (by omega) (by omega)]

@[simp] theorem store8_same (m : Mem) (a : Nat) (byte : UInt8) :
    m.store8 a byte a = byte := by
  simp [store8]

theorem store8_of_ne {m : Mem} {a p : Nat} (byte : UInt8) (hne : p ≠ a) :
    m.store8 a byte p = m p := by
  simp [store8, hne]

theorem store32_outside {m : Mem} {a p : Nat} (v : Nat)
    (houtside : p < a ∨ a + 4 ≤ p) : m.store32 a v p = m p := by
  have h0 : p ≠ a := by omega
  have h1 : p ≠ a + 1 := by omega
  have h2 : p ≠ a + 2 := by omega
  have h3 : p ≠ a + 3 := by omega
  simp [store32, h0, h1, h2, h3]

@[simp] theorem load32_store32 (m : Mem) (a : Nat) {v : Nat} (hv : v < 2 ^ 32) :
    (m.store32 a v).load32 a = v := by
  simp [load32, store32]
  omega

theorem load32_store32_of_disjoint {m : Mem} {a b : Nat} (v : Nat)
    (hdisjoint : a + 4 ≤ b ∨ b + 4 ≤ a) :
    (m.store32 b v).load32 a = m.load32 a := by
  apply load32_congr
  intro p hlow hhigh
  exact store32_outside v (by omega)

/-! ### Ranges -/

def slice (m : Mem) (a : Nat) : Nat → List UInt8
  | 0 => []
  | n + 1 => m a :: slice m (a + 1) n

def storeAll (m : Mem) (a : Nat) (bytes : List UInt8) : Mem := fun p =>
  if a ≤ p then bytes[p - a]?.getD (m p) else m p

theorem length_slice (m : Mem) (a n : Nat) : (m.slice a n).length = n := by
  induction n generalizing a with
  | zero => rfl
  | succ n ih => rw [slice, List.length_cons, ih]

theorem slice_add (m : Mem) (a n k : Nat) :
    m.slice a (n + k) = m.slice a n ++ m.slice (a + n) k := by
  induction n generalizing a with
  | zero => rw [Nat.zero_add, Nat.add_zero, slice, List.nil_append]
  | succ n ih =>
      rw [Nat.add_right_comm, slice, ih, slice, List.cons_append,
        Nat.add_right_comm, Nat.add_assoc a n 1]

theorem storeAll_nil (m : Mem) (a : Nat) : m.storeAll a [] = m := by
  funext p
  simp [storeAll]

theorem storeAll_store8 (m : Mem) (a : Nat) (byte : UInt8) (bytes : List UInt8) :
    (m.store8 a byte).storeAll (a + 1) bytes = m.storeAll a (byte :: bytes) := by
  funext p
  unfold storeAll store8
  by_cases hfirst : p = a
  · have hbefore : ¬a + 1 ≤ a := Nat.not_succ_le_self a
    simp [hfirst, hbefore]
  · by_cases hlow : a ≤ p
    · have hplace : p - a = p - (a + 1) + 1 := by omega
      have hnext : a + 1 ≤ p := by omega
      simp [hlow, hplace, hfirst, hnext]
    · have hnext : ¬a + 1 ≤ p := by omega
      simp [hlow, hfirst, hnext]

theorem slice_storeAll (m : Mem) (a : Nat) (bytes : List UInt8) :
    (m.storeAll a bytes).slice a bytes.length = bytes := by
  induction bytes generalizing m a with
  | nil => rfl
  | cons byte bytes ih =>
      have hfirst : m.storeAll a (byte :: bytes) a = byte := by
        simp [storeAll]
      rw [List.length_cons, slice, hfirst, ← storeAll_store8, ih]

end Mem

end X86Os32.Library
