import Mathlib.Logic.Function.Basic
import X86Os32.Utils.Math

namespace X86Os32

/-! `Watch::windup` of `device/watch.cc`, which looks for the divisor of the
timer. -/

/-- `vector_table` of `machine/plugbox.cc`, for any kind of gates. -/
abbrev Plugbox (γ : Type) : Type := Nat → γ

namespace Plugbox

def timer : Nat := 32

def assign (plugbox : Plugbox γ) (vector : Nat) (gate : γ) : Plugbox γ :=
  Function.update plugbox vector gate

end Plugbox

structure Watch where
  irqInterval : UInt32
  initialCount : UInt32
  divide : UInt8
deriving DecidableEq

namespace Watch

/-- The loop of `windup`, which returns from the function where there is no
shift. -/
def findShift (tmp : UInt64) : Nat → Nat → Except Stop (Option Nat)
  | 0, _ => .error .endlessLoop
  | fuel + 1, shift =>
      if tmp >>> UInt64.ofNat (32 + shift) ≠ 0 then
        if shift + 1 > 7 then .ok none
        else findShift tmp fuel (shift + 1)
      else .ok (some shift)

/-- `ticks` is what `lapic.timer_ticks()` returns, and `this` is the watch as a
gate. -/
def windup (watch : Watch) (plugbox : Plugbox γ) (this : γ)
    (ticks us : UInt32) : Except Stop (Bool × Watch × Plugbox γ) := do
  let (tmp, _) ← Math.div64 (us.toUInt64 * ticks.toUInt64) 1000 none
  match ← findShift tmp (2 ^ 32) 0 with
  | none => return (false, watch, plugbox)
  | some shift =>
      let watch : Watch := {
        irqInterval := us
        initialCount := (tmp >>> UInt64.ofNat shift).toUInt32
        divide := UInt8.ofNat (1 <<< shift) }
      return (true, watch, plugbox.assign Plugbox.timer this)

def interval (watch : Watch) : UInt32 := watch.irqInterval

/-- What is left of the ticks between two interrupts fits into the counter. -/
def Fits (ticks shift : Nat) : Prop := ticks / 2 ^ shift < 2 ^ 32

theorem toNat_shiftRight (tmp : UInt64) {shift : Nat} (hlt : shift < 64) :
    (tmp >>> UInt64.ofNat shift).toNat = tmp.toNat / 2 ^ shift := by
  have hword : shift < 2 ^ 64 := by omega
  rw [UInt64.toNat_shiftRight, UInt64.toNat_ofNat', Nat.mod_eq_of_lt hword,
    Nat.mod_eq_of_lt hlt, Nat.shiftRight_eq_div_pow]

theorem shiftRight_eq_zero {tmp : UInt64} {shift : Nat} (hle : shift ≤ 7) :
    tmp >>> UInt64.ofNat (32 + shift) = 0 ↔ Fits tmp.toNat shift := by
  have hsum : tmp.toNat / 2 ^ (32 + shift) = tmp.toNat / 2 ^ shift / 2 ^ 32 := by
    rw [Nat.div_div_eq_div_mul, ← pow_add, Nat.add_comm]
  rw [← UInt64.toNat_inj, toNat_shiftRight tmp (by omega), hsum]
  change _ / _ = 0 ↔ _
  rw [Nat.div_eq_zero_iff]
  unfold Fits
  omega

theorem Fits.mono {ticks shift shift' : Nat} (hfits : Fits ticks shift)
    (hle : shift ≤ shift') : Fits ticks shift' :=
  Nat.lt_of_le_of_lt
    (Nat.div_le_div_left (Nat.pow_le_pow_right (by decide) hle)
      (Nat.two_pow_pos shift)) hfits

theorem fits_seven {ticks : Nat} : Fits ticks 7 ↔ ticks < 2 ^ 39 := by
  unfold Fits
  rw [Nat.div_lt_iff_lt_mul (by decide)]
  norm_num

theorem findShift_spec (tmp : UInt64) {shift fuel : Nat} (hle : shift ≤ 7)
    (hfuel : 7 - shift < fuel)
    (hbefore : ∀ j < shift, ¬Fits tmp.toNat j) :
    (¬Fits tmp.toNat 7 ∧ findShift tmp fuel shift = .ok none) ∨
      ∃ k ≤ 7, findShift tmp fuel shift = .ok (some k) ∧ Fits tmp.toNat k ∧
        ∀ j, Fits tmp.toNat j → k ≤ j := by
  induction fuel generalizing shift with
  | zero => exact absurd hfuel (Nat.not_lt_zero _)
  | succ fuel ih =>
      unfold findShift
      by_cases hfits : Fits tmp.toNat shift
      · rw [if_neg (not_not.mpr ((shiftRight_eq_zero hle).mpr hfits))]
        right
        refine ⟨shift, hle, rfl, hfits, ?_⟩
        intro j hj
        exact Nat.le_of_not_lt fun hlt => hbefore j hlt hj
      · rw [if_pos (mt (shiftRight_eq_zero hle).mp hfits)]
        by_cases hlast : shift + 1 > 7
        · have hseven : shift = 7 := by omega
          subst hseven
          exact Or.inl ⟨hfits, if_pos hlast⟩
        · rw [if_neg hlast]
          apply ih (by omega) (by omega)
          intro j hlt
          rcases Nat.lt_succ_iff_lt_or_eq.mp hlt with hearlier | rfl
          · exact hbefore j hearlier
          · exact hfits

/-- The product and the quotient of `windup` fit into 64 bits. -/
theorem ticks_between (us ticks : UInt32) :
    ∃ tmp, Math.div64 (us.toUInt64 * ticks.toUInt64) 1000 none = .ok (tmp, none) ∧
      tmp.toNat = us.toNat * ticks.toNat / 1000 := by
  have hproduct : (us.toUInt64 * ticks.toUInt64).toNat =
      us.toNat * ticks.toNat := by
    rw [UInt64.toNat_mul, UInt32.toNat_toUInt64, UInt32.toNat_toUInt64]
    apply Nat.mod_eq_of_lt
    calc us.toNat * ticks.toNat
        < 2 ^ 32 * 2 ^ 32 := Nat.mul_lt_mul'' us.toNat_lt ticks.toNat_lt
      _ = 2 ^ 64 := rfl
  have hden : 0 < (1000 : UInt64).toNat := by decide
  obtain ⟨tmp, rem, hdiv, hquot, -⟩ :=
    Math.div64_returns (us.toUInt64 * ticks.toUInt64) hden none
  rw [hproduct] at hquot
  exact ⟨tmp, hdiv, hquot⟩

/-- `windup` takes the smallest divisor with which the ticks between two
interrupts fit into the counter, and changes nothing if there is none. -/
theorem windup_smallest (watch : Watch) (plugbox : Plugbox γ) (this : γ)
    (ticks us : UInt32) :
    let q := us.toNat * ticks.toNat / 1000
    ∃ done watch' plugbox',
      windup watch plugbox this ticks us = .ok (done, watch', plugbox') ∧
      (done = true ↔ q < 2 ^ 39) ∧
      (done = true → ∃ k ≤ 7, watch'.divide.toNat = 2 ^ k ∧
        q / 2 ^ k < 2 ^ 32 ∧ (∀ j, q / 2 ^ j < 2 ^ 32 → k ≤ j) ∧
        watch'.initialCount.toNat = q / 2 ^ k ∧ watch'.interval = us ∧
        plugbox' = plugbox.assign Plugbox.timer this) ∧
      (done = false → watch' = watch ∧ plugbox' = plugbox) := by
  intro q
  obtain ⟨tmp, hdiv, hq⟩ := ticks_between us ticks
  have hfind := findShift_spec tmp (Nat.zero_le 7)
    (show 7 - 0 < 2 ^ 32 by decide) (fun j hlt => absurd hlt (Nat.not_lt_zero j))
  rw [hq] at hfind
  change (¬Fits q 7 ∧ _) ∨ ∃ k ≤ 7, _ ∧ Fits q k ∧ ∀ j, Fits q j → k ≤ j at hfind
  unfold windup
  rw [hdiv, ok_bind]
  dsimp only
  rcases hfind with ⟨hlarge, hnone⟩ | ⟨k, hk, hsome, hfits, hleast⟩
  · rw [hnone, ok_bind]
    refine ⟨false, watch, plugbox, rfl, ?_, nofun, fun _ => ⟨rfl, rfl⟩⟩
    rw [← fits_seven]
    exact ⟨nofun, fun hseven => absurd hseven hlarge⟩
  · rw [hsome, ok_bind]
    have hseven : q < 2 ^ 39 := fits_seven.mp (hfits.mono hk)
    refine ⟨true, _, _, rfl, iff_of_true rfl hseven, ?_, nofun⟩
    refine fun _ => ⟨k, hk, ?_, hfits, hleast, ?_, rfl, rfl⟩
    · change (UInt8.ofNat (1 <<< k)).toNat = 2 ^ k
      have hlt : 2 ^ k < 2 ^ 8 := Nat.pow_lt_pow_right (by decide) (by omega)
      rw [UInt8.toNat_ofNat', Nat.one_shiftLeft, Nat.mod_eq_of_lt hlt]
    · change (tmp >>> UInt64.ofNat k).toUInt32.toNat = q / 2 ^ k
      rw [UInt64.toNat_toUInt32, toNat_shiftRight tmp (by omega), hq]
      exact Nat.mod_eq_of_lt hfits

end Watch

end X86Os32
