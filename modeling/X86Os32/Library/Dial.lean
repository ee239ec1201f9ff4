import Mathlib.Logic.Function.Iterate

namespace X86Os32.Library

/-! Counting on a dial: a part of a state counts steps, and behind its last
position the rest of the state moves on. -/

/-- The part of the states that shows one of the positions below `size`. -/
structure Dial (σ : Type) (size : Nat) where
  read : σ → Nat
  write : σ → Nat → σ
  read_write : n < size → read (write s n) = n
  write_write : write (write s m) n = write s n

namespace Dial

variable {σ : Type} {size : Nat}

structure Shows (dial : Dial σ size) (s : σ) : Prop where
  read_lt : dial.read s < size
  write_read : dial.write s (dial.read s) = s

/-- Each step turns the dial by one position, and behind the last position it
begins again after a carry, which leaves it alone. -/
structure Turns (dial : Dial σ size) (step carry : σ → σ) : Prop where
  turn : ∀ s, dial.Shows s → dial.read s + 1 < size →
    step s = dial.write s (dial.read s + 1)
  wrap : ∀ s, dial.Shows s → dial.read s + 1 = size →
    step s = dial.write (carry s) 0
  read_carry : ∀ s, dial.read (carry s) = dial.read s
  carry_write : ∀ s n, carry (dial.write s n) = dial.write (carry s) n

variable {dial : Dial σ size} {step carry : σ → σ} {s : σ} {k : Nat}

theorem shows_write (dial : Dial σ size) (s : σ) (hn : n < size) :
    dial.Shows (dial.write s n) where
  read_lt := by rwa [dial.read_write hn]
  write_read := by rw [dial.read_write hn, dial.write_write]

theorem Turns.shows_carry (hturns : dial.Turns step carry)
    (hshows : dial.Shows s) : dial.Shows (carry s) where
  read_lt := by
    rw [hturns.read_carry]
    exact hshows.read_lt
  write_read := by
    rw [hturns.read_carry, ← hturns.carry_write, hshows.write_read]

theorem Turns.iterate_of_lt (hturns : dial.Turns step carry)
    (hshows : dial.Shows s) (hlt : dial.read s + k < size) :
    step^[k] s = dial.write s (dial.read s + k) := by
  induction k with
  | zero => exact hshows.write_read.symm
  | succ k ih =>
      have hbefore : dial.read s + k < size := Nat.lt_of_succ_lt hlt
      have hread : dial.read (dial.write s (dial.read s + k)) =
          dial.read s + k := dial.read_write hbefore
      rw [Function.iterate_succ_apply', ih hbefore,
        hturns.turn _ (dial.shows_write s hbefore) (by rwa [hread]), hread, dial.write_write]
      rfl

/-- At most one full turn passes the last position once. -/
theorem Turns.iterate_of_ge (hturns : dial.Turns step carry)
    (hshows : dial.Shows s) (hge : size ≤ dial.read s + k) (hle : k ≤ size) :
    step^[k] s = dial.write (carry s) (dial.read s + k - size) := by
  have hread := hshows.read_lt
  obtain ⟨j, hj⟩ : ∃ j, dial.read s + k = size + j :=
    ⟨_, (Nat.add_sub_cancel' hge).symm⟩
  have hlast : size - 1 < size := by omega
  have hsteps : k = (j + 1) + (size - 1 - dial.read s) := by omega
  have hposition : dial.read s + (size - 1 - dial.read s) = size - 1 := by omega
  have hstart : 0 < size := Nat.lt_of_le_of_lt (Nat.zero_le _) hread
  calc step^[k] s
      = step^[j] (step (step^[size - 1 - dial.read s] s)) := by
        rw [hsteps, Function.iterate_add_apply, Function.iterate_succ_apply]
    _ = step^[j] (step (dial.write s (size - 1))) := by
        rw [hturns.iterate_of_lt hshows (by omega), hposition]
    _ = step^[j] (dial.write (carry s) 0) := by
        rw [hturns.wrap _ (dial.shows_write s hlast) (by rw [dial.read_write hlast]; omega),
          hturns.carry_write, dial.write_write]
    _ = dial.write (carry s) (dial.read s + k - size) := by
        rw [hturns.iterate_of_lt (dial.shows_write _ hstart)
            (by rw [dial.read_write hstart]; omega),
          dial.read_write hstart, dial.write_write, hj, Nat.zero_add,
          Nat.add_sub_cancel_left]

theorem Turns.iterate_size (hturns : dial.Turns step carry)
    (hshows : dial.Shows s) : step^[size] s = carry s := by
  rw [hturns.iterate_of_ge hshows (Nat.le_add_left _ _) (Nat.le_refl _),
    Nat.add_sub_cancel, ← hturns.carry_write, hshows.write_read]

theorem Turns.iterate_mul (hturns : dial.Turns step carry)
    (hshows : dial.Shows s) (n : Nat) : step^[size * n] s = carry^[n] s := by
  induction n generalizing s with
  | zero => rfl
  | succ n ih =>
      rw [Nat.mul_succ, Function.iterate_add_apply, hturns.iterate_size hshows,
        ih (hturns.shows_carry hshows), Function.iterate_succ_apply]

end Dial

end X86Os32.Library
