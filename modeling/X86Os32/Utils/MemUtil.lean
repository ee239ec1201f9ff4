import X86Os32.Library.ByteMemory

namespace X86Os32.MemUtil

open Library

/-! `memcpy`, `memmove` and `memset`.  Each loop is written with the number of
its iterations, so the memory after `count` rounds is a value of its own. -/

/-- `for (i = 0; i != count; ++i) destination[i] = source[i];` -/
def copyUp (m : Mem) (destination source : Nat) : Nat → Mem
  | 0 => m
  | i + 1 =>
      let m := copyUp m destination source i
      m.store8 (destination + i) (m (source + i))

/-- `for (i = count; i != 0; --i) destination[i - 1] = source[i - 1];` -/
def copyDown (m : Mem) (destination source : Nat) : Nat → Mem
  | 0 => m
  | i + 1 =>
      copyDown (m.store8 (destination + i) (m (source + i))) destination source i

def memcpy (m : Mem) (dest src size : Nat) : Mem := copyUp m dest src size

def memmove (m : Mem) (dest src size : Nat) : Mem :=
  if src > dest then copyUp m dest src size else copyDown m dest src size

/-- `for (i = 0; i != count; ++i) destination[i] = pat;` -/
def memset (m : Mem) (dest : Nat) (pat : UInt8) : Nat → Mem
  | 0 => m
  | i + 1 => (memset m dest pat i).store8 (dest + i) pat

theorem copyUp_outside {m : Mem} {destination source count p : Nat}
    (houtside : p < destination ∨ destination + count ≤ p) :
    copyUp m destination source count p = m p := by
  induction count with
  | zero => rfl
  | succ i ih =>
      simp only [copyUp]
      rw [Mem.store8_of_ne _ (by omega)]
      exact ih (by omega)

theorem copyDown_outside {m : Mem} {destination source count p : Nat}
    (houtside : p < destination ∨ destination + count ≤ p) :
    copyDown m destination source count p = m p := by
  induction count generalizing m with
  | zero => rfl
  | succ i ih =>
      simp only [copyDown]
      rw [ih (by omega), Mem.store8_of_ne _ (by omega)]

theorem copyUp_inside {m : Mem} {destination source count i : Nat}
    (hi : i < count)
    (hsource : source + i < destination ∨ destination + i ≤ source + i) :
    copyUp m destination source count (destination + i) = m (source + i) := by
  induction count with
  | zero => omega
  | succ k ih =>
      simp only [copyUp]
      by_cases heq : i = k
      · subst heq
        rw [Mem.store8_same]
        exact copyUp_outside (by omega)
      · rw [Mem.store8_of_ne _ (by omega)]
        exact ih (by omega)

theorem copyDown_inside {m : Mem} {destination source count i : Nat}
    (hi : i < count) (hsource : source ≤ destination) :
    copyDown m destination source count (destination + i) = m (source + i) := by
  induction count generalizing m with
  | zero => omega
  | succ k ih =>
      simp only [copyDown]
      by_cases heq : i = k
      · subst heq
        rw [copyDown_outside (by omega), Mem.store8_same]
      · rw [ih (by omega), Mem.store8_of_ne _ (by omega)]

theorem memcpy_outside {m : Mem} {dest src size p : Nat}
    (houtside : p < dest ∨ dest + size ≤ p) : memcpy m dest src size p = m p :=
  copyUp_outside houtside

theorem memmove_outside {m : Mem} {dest src size p : Nat}
    (houtside : p < dest ∨ dest + size ≤ p) :
    memmove m dest src size p = m p := by
  unfold memmove
  split
  · exact copyUp_outside houtside
  · exact copyDown_outside houtside

theorem memmove_inside {m : Mem} {dest src size i : Nat} (hi : i < size) :
    memmove m dest src size (dest + i) = m (src + i) := by
  unfold memmove
  split
  · exact copyUp_inside hi (by omega)
  · exact copyDown_inside hi (by omega)

/-- However the ranges overlap, `memmove` is the simultaneous copy. -/
theorem memmove_simultaneous (m : Mem) (dest src size : Nat) :
    (∀ i < size, memmove m dest src size (dest + i) = m (src + i)) ∧
      ∀ p, ¬(dest ≤ p ∧ p < dest + size) → memmove m dest src size p = m p := by
  constructor
  · intro i hi
    exact memmove_inside hi
  · intro p houtside
    apply memmove_outside
    omega

theorem memset_outside {m : Mem} {dest size p : Nat} {pat : UInt8}
    (houtside : p < dest ∨ dest + size ≤ p) : memset m dest pat size p = m p := by
  induction size with
  | zero => rfl
  | succ i ih =>
      simp only [memset]
      rw [Mem.store8_of_ne _ (by omega)]
      exact ih (by omega)

theorem memset_inside {m : Mem} {dest size i : Nat} {pat : UInt8}
    (hi : i < size) : memset m dest pat size (dest + i) = pat := by
  induction size with
  | zero => omega
  | succ k ih =>
      simp only [memset]
      by_cases heq : i = k
      · subst heq
        exact Mem.store8_same _ _ _
      · rw [Mem.store8_of_ne _ (by omega)]
        exact ih (by omega)

end X86Os32.MemUtil
