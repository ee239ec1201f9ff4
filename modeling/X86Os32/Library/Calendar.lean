import Mathlib.Order.Monotone.Basic

namespace X86Os32.Library

/-! The proleptic Gregorian calendar.  Days are numbered from the first of
January of year 0, which has the number 0. -/

namespace Calendar

def IsLeap (year : Nat) : Prop :=
  year % 4 = 0 ∧ (year % 100 ≠ 0 ∨ year % 400 = 0)

instance : Decidable (IsLeap year) := inferInstanceAs (Decidable (_ ∧ _))

def monthLength (year : Nat) : Nat → Nat
  | 2 => if IsLeap year then 29 else 28
  | 4 | 6 | 9 | 11 => 30
  | _ => 31

def daysOfMonths (year : Nat) : Nat → Nat
  | 0 => 0
  | months + 1 => daysOfMonths year months + monthLength year (months + 1)

def yearLength (year : Nat) : Nat := daysOfMonths year 12

def daysOfYears : Nat → Nat
  | 0 => 0
  | years + 1 => daysOfYears years + yearLength years

structure Date where
  year : Nat
  month : Nat
  day : Nat
deriving DecidableEq, Repr

namespace Date

structure Valid (d : Date) : Prop where
  month_pos : 1 ≤ d.month
  month_le : d.month ≤ 12
  day_pos : 1 ≤ d.day
  day_le : d.day ≤ monthLength d.year d.month

def number (d : Date) : Nat :=
  daysOfYears d.year + daysOfMonths d.year (d.month - 1) + (d.day - 1)

end Date

theorem monthLength_ge (year month : Nat) : 28 ≤ monthLength year month := by
  unfold monthLength
  split
  · split <;> omega
  all_goals omega

theorem monthLength_le (year month : Nat) : monthLength year month ≤ 31 := by
  unfold monthLength
  split
  · split <;> omega
  all_goals omega

theorem yearLength_eq (year : Nat) :
    yearLength year = if IsLeap year then 366 else 365 := by
  simp only [yearLength, daysOfMonths, monthLength]
  split <;> rfl

theorem daysOfMonths_mono (year : Nat) : Monotone (daysOfMonths year) :=
  monotone_nat_of_le_succ fun _ => Nat.le_add_right _ _

theorem daysOfYears_mono : Monotone daysOfYears :=
  monotone_nat_of_le_succ fun _ => Nat.le_add_right _ _

theorem succ_add_div (x d : Nat) :
    (x + 1 + d) / (d + 1) =
      (x + d) / (d + 1) + if x % (d + 1) = 0 then 1 else 0 := by
  have hmultiple : d + 1 ∣ x + d + 1 ↔ x % (d + 1) = 0 := by
    rw [Nat.add_assoc, Nat.dvd_add_self_right, Nat.dvd_iff_mod_eq_zero]
  rw [Nat.add_right_comm, Nat.succ_div]
  simp only [hmultiple]

/-- One day in every fourth year, none in a hundredth, one in a four
hundredth. -/
theorem daysOfYears_eq (years : Nat) :
    daysOfYears years + (years + 99) / 100 =
      365 * years + (years + 3) / 4 + (years + 399) / 400 := by
  induction years with
  | zero => rfl
  | succ years ih =>
      rw [daysOfYears, yearLength_eq, succ_add_div, succ_add_div, succ_add_div]
      unfold IsLeap
      by_cases hfour : years % 4 = 0
      · by_cases hcentury : years % 100 = 0
        · by_cases hfourth : years % 400 = 0
          · simp [hfour, hcentury, hfourth]
            omega
          · simp [hfour, hcentury, hfourth]
            omega
        · have hfourth : years % 400 ≠ 0 := by omega
          simp [hfour, hcentury, hfourth]
          omega
      · have hcentury : years % 100 ≠ 0 := by omega
        have hfourth : years % 400 ≠ 0 := by omega
        simp [hfour, hcentury, hfourth]
        omega

theorem eq_of_between {f : Nat → Nat} (hmono : Monotone f)
    (hlow : f i ≤ x) (hhigh : x < f (i + 1))
    (hlow' : f j ≤ x) (hhigh' : x < f (j + 1)) : i = j := by
  rcases Nat.lt_trichotomy i j with hlt | heq | hgt
  · have : f (i + 1) ≤ f j := hmono hlt
    omega
  · exact heq
  · have : f (j + 1) ≤ f i := hmono hgt
    omega

namespace Date

variable {d e : Date}

theorem daysOfYears_le_number (d : Date) : daysOfYears d.year ≤ d.number := by
  unfold number
  omega

theorem Valid.lt_daysOfMonths (hvalid : d.Valid) :
    daysOfMonths d.year (d.month - 1) + (d.day - 1) <
      daysOfMonths d.year (d.month - 1 + 1) := by
  obtain ⟨hpos, -, hday, hle⟩ := hvalid
  rw [daysOfMonths, Nat.sub_add_cancel hpos]
  omega

theorem Valid.lt_yearLength (hvalid : d.Valid) :
    daysOfMonths d.year (d.month - 1) + (d.day - 1) < yearLength d.year := by
  have hmonth := hvalid.month_le
  exact Nat.lt_of_lt_of_le hvalid.lt_daysOfMonths
    (daysOfMonths_mono d.year (by omega))

theorem Valid.number_lt (hvalid : d.Valid) :
    d.number < daysOfYears (d.year + 1) := by
  have hlt := hvalid.lt_yearLength
  unfold number
  rw [daysOfYears]
  omega

theorem valid_first (year : Nat) {month : Nat} (hpos : 1 ≤ month)
    (hle : month ≤ 12) : Valid ⟨year, month, 1⟩ := by
  have hlength := monthLength_ge year month
  exact ⟨hpos, hle, Nat.le_refl 1, Nat.le_trans (Nat.succ_le_succ
    (Nat.zero_le 27)) hlength⟩

theorem valid_last (year : Nat) {month : Nat} (hpos : 1 ≤ month)
    (hle : month ≤ 12) : Valid ⟨year, month, monthLength year month⟩ := by
  have hlength := monthLength_ge year month
  exact ⟨hpos, hle, Nat.le_trans (Nat.succ_le_succ (Nat.zero_le 27)) hlength,
    Nat.le_refl _⟩

theorem number_first (year : Nat) :
    number ⟨year, 1, 1⟩ = daysOfYears year := rfl

theorem Valid.eq_of_number_eq (hd : d.Valid) (he : e.Valid)
    (hnumber : d.number = e.number) : d = e := by
  obtain ⟨year, month, day⟩ := d
  obtain ⟨year', month', day'⟩ := e
  have heLow := daysOfYears_le_number ⟨year', month', day'⟩
  have heHigh := he.number_lt
  rw [← hnumber] at heLow heHigh
  obtain rfl : year = year' := eq_of_between daysOfYears_mono
    (daysOfYears_le_number ⟨year, month, day⟩) hd.number_lt heLow heHigh
  have hrest : daysOfMonths year (month - 1) + (day - 1) =
      daysOfMonths year (month' - 1) + (day' - 1) := by
    simp only [number] at hnumber
    omega
  have heHigh := he.lt_daysOfMonths
  dsimp only at heHigh
  rw [← hrest] at heHigh
  have hmonths : month - 1 = month' - 1 :=
    eq_of_between (daysOfMonths_mono year) (Nat.le_add_right _ _)
      hd.lt_daysOfMonths (by rw [hrest]; exact Nat.le_add_right _ _) heHigh
  have hmonth := hd.month_pos
  have hmonth' := he.month_pos
  have hday := hd.day_pos
  have hday' := he.day_pos
  dsimp only at hmonth hmonth' hday hday'
  obtain rfl : month = month' := by omega
  obtain rfl : day = day' := by omega
  rfl

/-! ### The following day -/

theorem number_next_day (year month : Nat) {day : Nat} (hday : 1 ≤ day) :
    number ⟨year, month, day + 1⟩ = number ⟨year, month, day⟩ + 1 := by
  unfold number
  dsimp only
  omega

theorem number_next_month (year : Nat) {month : Nat} (hmonth : 1 ≤ month) :
    number ⟨year, month + 1, 1⟩ =
      number ⟨year, month, monthLength year month⟩ + 1 := by
  obtain ⟨months, rfl⟩ : ∃ months, month = months + 1 := ⟨month - 1, by omega⟩
  have hlength := monthLength_ge year (months + 1)
  simp only [number, Nat.add_sub_cancel, daysOfMonths]
  omega

theorem number_next_year (year : Nat) :
    number ⟨year + 1, 1, 1⟩ = number ⟨year, 12, 31⟩ + 1 := by
  have hlength : yearLength year = daysOfMonths year 11 + 31 := rfl
  simp only [number, daysOfYears, Nat.sub_self, Nat.reduceSub, hlength,
    daysOfMonths]
  omega

end Date

end Calendar

end X86Os32.Library
