import X86Os32.Debug.Assert
import X86Os32.Library.LongDivision
import X86Os32.Library.Loops

namespace X86Os32.Math

open Library Library.LongDivision

/-! `Math::div64` of `utils/math.h`. -/

structure Division where
  num : UInt64
  den : UInt64
  quot : UInt64
  qbit : UInt64
deriving DecidableEq

namespace Division

/-- The highest bit of the divisor is not set. -/
def Low (d : Division) : Prop := d.den.toInt64 ≥ 0

instance : DecidablePred Low := fun d =>
  inferInstanceAs (Decidable (d.den.toInt64 ≥ 0))

/-- The body of the first loop. -/
def shiftUp (d : Division) : Division :=
  { d with
    den := d.den <<< 1
    qbit := d.qbit <<< 1 }

def Open (d : Division) : Prop := d.qbit ≠ 0

instance : DecidablePred Open := fun d =>
  inferInstanceAs (Decidable (d.qbit ≠ 0))

/-- `if(den <= num) { num -= den; quot += qbit; }` -/
def subtract (d : Division) : Division :=
  if d.den ≤ d.num then
    { d with
      num := d.num - d.den
      quot := d.quot + d.qbit }
  else d

def shiftDown (d : Division) : Division :=
  { d with
    den := d.den >>> 1
    qbit := d.qbit >>> 1 }

/-- The body of the second loop. -/
def place (d : Division) : Division := d.subtract.shiftDown

end Division

/-- A loop that goes on for `2 ^ 64` rounds is endless. -/
def ended : Option α → Except Stop α
  | none => .error .endlessLoop
  | some a => .ok a

/-- The result, and what is behind `rem_p` afterwards. -/
def div64 (num den : UInt64) (rem_p : Option UInt64) :
    Except Stop (UInt64 × Option UInt64) := do
  let d ← ended (Loops.loop Division.Low Division.shiftUp (2 ^ 64) ⟨num, den, 0, 1⟩)
  let d ← ended (Loops.loop Division.Open Division.place (2 ^ 64) d)
  return (d.quot, rem_p.map fun _ => d.num)

namespace Division

def ShiftsUp (d : Division) : Prop :=
  d.shiftUp.den.toNat = 2 * d.den.toNat ∧
    d.shiftUp.qbit.toNat = 2 * d.qbit.toNat

/-- Neither the subtraction nor the addition wraps around. -/
def Subtracts (d : Division) : Prop :=
  d.den ≤ d.num → d.subtract.num.toNat + d.den.toNat = d.num.toNat ∧
    d.subtract.quot.toNat = d.quot.toNat + d.qbit.toNat

def ShiftsDown (d : Division) : Prop :=
  2 * d.shiftDown.den.toNat = d.den.toNat ∧
    2 * d.shiftDown.qbit.toNat = d.qbit.toNat

/-- Divisor and place are shifted up by `k` places. -/
structure Scaled (den k : Nat) (d : Division) : Prop where
  den_eq : d.den.toNat = den * 2 ^ k
  qbit_eq : d.qbit.toNat = 2 ^ k

theorem low_iff {d : Division} : d.Low ↔ d.den.toNat < 2 ^ 63 := by
  have hlt := d.den.toNat_lt
  have hsigned : d.den.toInt64.toInt =
      if 2 * d.den.toNat < 2 ^ 64 then (d.den.toNat : Int)
      else d.den.toNat - (2 ^ 64 : Nat) := by
    simp only [Int64.toInt, UInt64.toBitVec_toInt64,
      BitVec.toInt_eq_toNat_cond, UInt64.toNat_toBitVec]
  unfold Low
  rw [ge_iff_le, Int64.le_iff_toInt_le, Int64.toInt_zero, hsigned]
  split <;> omega

theorem toNat_double {x : UInt64} (hlt : x.toNat < 2 ^ 63) :
    (x <<< 1).toNat = 2 * x.toNat := by
  simp [UInt64.toNat_shiftLeft, Nat.shiftLeft_eq]
  omega

theorem toNat_half (x : UInt64) : (x >>> 1).toNat = x.toNat / 2 := by
  simp [UInt64.toNat_shiftRight, Nat.shiftRight_eq_div_pow]

variable {d : Division} {num den k : Nat}

/-! ### The first loop -/

theorem Scaled.low (hscaled : d.Scaled den k) (hden : 0 < den) (hlow : d.Low) :
    d.ShiftsUp := by
  have hhigh := low_iff.mp hlow
  have hle : d.qbit.toNat ≤ d.den.toNat := by
    rw [hscaled.den_eq, hscaled.qbit_eq]
    exact Nat.le_mul_of_pos_left _ hden
  exact ⟨toNat_double hhigh, toNat_double (by omega)⟩

theorem Scaled.shiftUp (hscaled : d.Scaled den k) (hshifts : d.ShiftsUp) :
    d.shiftUp.Scaled den (k + 1) where
  den_eq := by rw [hshifts.1, hscaled.den_eq, pow_succ]; ring
  qbit_eq := by rw [hshifts.2, hscaled.qbit_eq, pow_succ]; ring

def Shifted (num : UInt64) (den : Nat) (d : Division) : Prop :=
  (∃ k, d.Scaled den k) ∧ d.num = num ∧ d.quot = 0

theorem Shifted.round {num : UInt64} (hshifted : d.Shifted num den)
    (hden : 0 < den) (hlow : d.Low) : d.shiftUp.Shifted num den := by
  obtain ⟨⟨k, hscaled⟩, hnum, hquot⟩ := hshifted
  exact ⟨⟨k + 1, hscaled.shiftUp (hscaled.low hden hlow)⟩, hnum, hquot⟩

theorem shifted_start (num den : UInt64) :
    Shifted num den.toNat ⟨num, den, 0, 1⟩ :=
  ⟨⟨0, (Nat.mul_one _).symm, rfl⟩, rfl, rfl⟩

/-! ### The second loop -/

theorem Scaled.subtracts (hscaled : d.Scaled den k) (hden : 0 < den)
    (hdivides : Divides num den (k + 1) d.num.toNat d.quot.toNat)
    (hnum : num < 2 ^ 64) : d.Subtracts := by
  intro hle
  have hgoes : den * 2 ^ k ≤ d.num.toNat := by
    rw [← hscaled.den_eq]
    exact UInt64.le_iff_toNat_le.mp hle
  have hquot := (hdivides.take hgoes).quot_le hden
  unfold subtract
  rw [if_pos hle]
  dsimp only
  rw [UInt64.toNat_sub_of_le _ _ hle, UInt64.toNat_add, hscaled.qbit_eq,
    hscaled.den_eq, Nat.mod_eq_of_lt (by omega)]
  exact ⟨Nat.sub_add_cancel hgoes, rfl⟩

theorem Scaled.subtract (hscaled : d.Scaled den k)
    (hdivides : Divides num den (k + 1) d.num.toNat d.quot.toNat)
    (hsubtracts : d.Subtracts) :
    d.subtract.Scaled den k ∧
      Divides num den k d.subtract.num.toNat d.subtract.quot.toNat := by
  by_cases hle : d.den ≤ d.num
  · obtain ⟨hnum, hquot⟩ := hsubtracts hle
    have hgoes : den * 2 ^ k ≤ d.num.toNat := by
      rw [← hscaled.den_eq]
      exact UInt64.le_iff_toNat_le.mp hle
    have hrest : d.subtract.num.toNat = d.num.toNat - den * 2 ^ k := by
      rw [← hscaled.den_eq]
      omega
    rw [hrest, hquot, hscaled.qbit_eq]
    refine ⟨?_, hdivides.take hgoes⟩
    unfold Division.subtract
    rw [if_pos hle]
    exact ⟨hscaled.den_eq, hscaled.qbit_eq⟩
  · have hless : d.num.toNat < den * 2 ^ k := by
      rw [← hscaled.den_eq]
      exact Nat.lt_of_not_le fun hge => hle (UInt64.le_iff_toNat_le.mpr hge)
    have hsame : d.subtract = d := if_neg hle
    rw [hsame]
    exact ⟨hscaled, hdivides.skip hless⟩

theorem Scaled.shiftsDown (hscaled : d.Scaled den (k + 1)) : d.ShiftsDown := by
  have hden : d.den.toNat = 2 * (den * 2 ^ k) := by
    rw [hscaled.den_eq, pow_succ]
    ring
  have hqbit : d.qbit.toNat = 2 * 2 ^ k := by
    rw [hscaled.qbit_eq, pow_succ]
    ring
  unfold ShiftsDown Division.shiftDown
  rw [toNat_half, toNat_half]
  omega

theorem Scaled.shiftDown (hscaled : d.Scaled den (k + 1)) :
    d.shiftDown.Scaled den k := by
  obtain ⟨hden, hqbit⟩ := hscaled.shiftsDown
  rw [hscaled.den_eq, pow_succ, ← Nat.mul_assoc] at hden
  rw [hscaled.qbit_eq, pow_succ] at hqbit
  constructor <;> omega

/-- What the second loop keeps: it is behind some place, or behind the last. -/
def Placed (num den : Nat) (d : Division) : Prop :=
  (∃ k, d.Scaled den k ∧ Divides num den (k + 1) d.num.toNat d.quot.toNat) ∨
    d.qbit = 0 ∧ Divides num den 0 d.num.toNat d.quot.toNat

theorem Placed.scaled (hplaced : d.Placed num den) (hopen : d.Open) :
    ∃ k, d.Scaled den k ∧ Divides num den (k + 1) d.num.toNat d.quot.toNat :=
  hplaced.resolve_right fun hend => hopen hend.1

theorem Placed.round (hplaced : d.Placed num den) (hden : 0 < den)
    (hnum : num < 2 ^ 64) (hopen : d.Open) : d.place.Placed num den := by
  obtain ⟨k, hscaled, hdivides⟩ := hplaced.scaled hopen
  obtain ⟨hscaled', hdivides'⟩ := hscaled.subtract hdivides
    (hscaled.subtracts hden hdivides hnum)
  cases k with
  | zero =>
      right
      refine ⟨?_, hdivides'⟩
      apply UInt64.toNat_inj.mp
      change (d.subtract.qbit >>> 1).toNat = 0
      rw [toNat_half, hscaled'.qbit_eq]
      rfl
  | succ k => exact Or.inl ⟨k, hscaled'.shiftDown, hdivides'⟩

theorem Shifted.placed {num : UInt64} (hshifted : d.Shifted num den)
    (hhigh : ¬d.Low) : d.Placed num.toNat den := by
  obtain ⟨⟨k, hscaled⟩, hnum, hquot⟩ := hshifted
  refine Or.inl ⟨k, hscaled, ?_⟩
  rw [hnum, hquot]
  apply Divides.start
  have hden : 2 ^ 63 ≤ den * 2 ^ k := by
    rw [← hscaled.den_eq]
    exact Nat.le_of_not_lt fun hlt => hhigh (low_iff.mpr hlt)
  have hlt := num.toNat_lt
  rw [pow_succ, ← Nat.mul_assoc]
  omega

/-! ### Both loops -/

/-- `div64` begins a round of its first loop like this. -/
def Shifting (num den : UInt64) (d : Division) : Prop :=
  Loops.Visits Low shiftUp ⟨num, den, 0, 1⟩ d ∧ d.Low

/-- `div64` begins a round of its second loop like this. -/
def Placing (num den : UInt64) (d : Division) : Prop :=
  ∃ normal, Loops.loop Low shiftUp (2 ^ 64) ⟨num, den, 0, 1⟩ = some normal ∧
    Loops.Visits Open place normal d ∧ d.Open

variable {num den : UInt64} (hden : 0 < den.toNat)

include hden

theorem shiftUp_ends (num : UInt64) :
    ∃ normal, Loops.loop Low shiftUp (2 ^ 64) ⟨num, den, 0, 1⟩ = some normal ∧
      normal.Shifted num den.toNat ∧ ¬normal.Low := by
  apply Loops.loop_ends (fun d : Division => 2 ^ 64 - d.den.toNat)
    (shifted_start num den)
  · intro d hshifted hlow
    refine ⟨hshifted.round hden hlow, ?_⟩
    obtain ⟨⟨k, hscaled⟩, -⟩ := hshifted
    have hpos : 0 < d.den.toNat := by
      rw [hscaled.den_eq]
      exact Nat.mul_pos hden (Nat.two_pow_pos k)
    have hhigh := low_iff.mp hlow
    have hdouble := (hscaled.low hden hlow).1
    omega
  · dsimp only
    omega

theorem place_ends {normal : Division} (hplaced : normal.Placed num.toNat den.toNat) :
    ∃ final, Loops.loop Open place (2 ^ 64) normal = some final ∧
      final.Placed num.toNat den.toNat ∧ ¬final.Open := by
  apply Loops.loop_ends (fun d : Division => d.qbit.toNat) hplaced
  · intro d hplaced hopen
    refine ⟨hplaced.round hden num.toNat_lt hopen, ?_⟩
    have hpos : d.qbit.toNat ≠ 0 := fun hzero =>
      hopen (UInt64.toNat_inj.mp hzero)
    have hsame : d.subtract.qbit = d.qbit := by
      unfold subtract
      split <;> rfl
    change (d.subtract.qbit >>> 1).toNat < d.qbit.toNat
    rw [toNat_half, hsame]
    omega
  · exact normal.qbit.toNat_lt

theorem Shifting.shiftsUp (hshifting : Shifting num den d) : d.ShiftsUp := by
  obtain ⟨hvisits, hlow⟩ := hshifting
  obtain ⟨⟨k, hscaled⟩, -⟩ := hvisits.invariant (shifted_start num den)
    fun d hshifted hlow => hshifted.round hden hlow
  exact hscaled.low hden hlow

/-- Only in the round for the last place, whose shifts nothing is made of, do the
shifts lose a bit. -/
theorem Placing.exact (hplacing : Placing num den d) :
    d.Subtracts ∧ (d.qbit ≠ 1 → d.ShiftsDown) := by
  obtain ⟨normal, hnormal, hvisits, hopen⟩ := hplacing
  obtain ⟨normal', hnormal', hshifted, hhigh⟩ := shiftUp_ends hden num
  rw [hnormal] at hnormal'
  cases hnormal'
  have hplaced := hvisits.invariant (hshifted.placed hhigh)
    fun d hplaced hopen => hplaced.round hden num.toNat_lt hopen
  obtain ⟨k, hscaled, hdivides⟩ := hplaced.scaled hopen
  refine ⟨hscaled.subtracts hden hdivides num.toNat_lt, ?_⟩
  intro hmore
  cases k with
  | zero =>
      refine absurd ?_ hmore
      exact UInt64.toNat_inj.mp hscaled.qbit_eq
  | succ k => exact hscaled.shiftsDown

end Division

theorem div64_returns (num : UInt64) {den : UInt64} (hpos : 0 < den.toNat)
    (rem_p : Option UInt64) :
    ∃ quot rem, div64 num den rem_p = .ok (quot, rem_p.map fun _ => rem) ∧
      quot.toNat = num.toNat / den.toNat ∧
      rem.toNat = num.toNat % den.toNat := by
  obtain ⟨normal, hnormal, hshifted, hhigh⟩ :=
    Division.shiftUp_ends hpos num
  obtain ⟨final, hfinal, hplaced, hclosed⟩ :=
    Division.place_ends hpos (hshifted.placed hhigh)
  have hdivides := hplaced.resolve_left fun hleft => by
    obtain ⟨k, hscaled, -⟩ := hleft
    have hzero : final.qbit = 0 := not_not.mp hclosed
    have hpow := hscaled.qbit_eq
    rw [hzero] at hpow
    exact absurd hpow (Nat.two_pow_pos k).ne
  obtain ⟨hquot, hrem⟩ := hdivides.2.finish
  refine ⟨final.quot, final.num, ?_, hquot, hrem⟩
  unfold div64
  rw [hnormal]
  change ended (Loops.loop _ _ _ normal) >>= _ = _
  rw [hfinal]
  rfl

/-- `div64` divides.  No shift of its first loop and no subtraction or addition of
its second one loses a bit, nor do the shifts of the second loop before its last
round. -/
theorem div64_divides (num den : UInt64) (hden : den ≠ 0) (rem_p : Option UInt64) :
    (∃ quot rem, div64 num den rem_p = .ok (quot, rem_p.map fun _ => rem) ∧
      quot.toNat = num.toNat / den.toNat ∧ rem.toNat = num.toNat % den.toNat) ∧
    (∀ d, Division.Shifting num den d → d.ShiftsUp) ∧
    ∀ d, Division.Placing num den d →
      d.Subtracts ∧ (d.qbit ≠ 1 → d.ShiftsDown) := by
  have hpos : 0 < den.toNat :=
    Nat.pos_of_ne_zero fun hzero => hden (UInt64.toNat_inj.mp hzero)
  exact ⟨div64_returns num hpos rem_p, fun d hshifting => hshifting.shiftsUp hpos,
    fun d hplacing => hplacing.exact hpos⟩

theorem div64_divides_seven :
    (∃ quot rem, div64 7 3 (some 0) = .ok (quot, some rem) ∧
      quot.toNat = 2 ∧ rem.toNat = 1) ∧
    ∀ d, Division.Placing 7 3 d → d.Subtracts :=
  ⟨(div64_divides 7 3 (by decide) (some 0)).1,
    fun d hplacing => ((div64_divides 7 3 (by decide) (some 0)).2.2 d hplacing).1⟩

/-- The last round takes its lowest bit from the divisor `2 ^ 63 + 1`. -/
theorem div64_last_shift :
    ¬∀ num den : UInt64, den ≠ 0 → ∀ d, Division.Placing num den d →
      d.ShiftsDown := by
  intro hclaim
  have hhigh : ¬Division.Low ⟨0, 2 ^ 63 + 1, 0, 1⟩ := by decide +kernel
  have hplacing : Division.Placing 0 (2 ^ 63 + 1) ⟨0, 2 ^ 63 + 1, 0, 1⟩ :=
    ⟨_, if_neg hhigh, .start, by decide⟩
  have hhalf := (hclaim 0 (2 ^ 63 + 1) (by decide +kernel) _ hplacing).1
  revert hhalf
  decide +kernel

end X86Os32.Math
