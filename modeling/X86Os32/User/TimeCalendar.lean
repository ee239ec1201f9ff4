import Mathlib.Tactic.IntervalCases
import X86Os32.User.Time

namespace X86Os32

open Library Library.Calendar

/-! What the fields of a `Time` stand for in the calendar, and that the loops of
`user/time/time.cc` add and subtract seconds there. -/

namespace Time

/-- The RTC splits the year into `century` and `year`. -/
def date (t : Time) : Date := ⟨100 * t.century + t.year, t.month, t.day⟩

structure Valid (t : Time) : Prop where
  second_lt : t.second < 60
  minute_lt : t.minute < 60
  hour_lt : t.hour < 24
  date : t.date.Valid
  year_lt : t.year < 100
  century_lt : t.century < 100
  weekday_pos : 1 ≤ t.weekday
  weekday_le : t.weekday ≤ 7

def minutes (t : Time) : Nat := (t.date.number * 24 + t.hour) * 60 + t.minute

def seconds (t : Time) : Nat := t.minutes * 60 + t.second

/-- The days of the 10000 years that the fields can tell apart. -/
def cycleDays : Nat := 3652425

theorem daysOfYears_cycle : daysOfYears 10000 = cycleDays := by
  have hdays := daysOfYears_eq 10000
  unfold cycleDays
  omega

def weekdayAfter (weekday midnights : Nat) : Nat :=
  (weekday - 1 + midnights) % 7 + 1

/-- The same time of day on another date. -/
def onDate (t : Time) (d : Date) (weekday : Nat) : Time :=
  { t with
    day := d.day
    month := d.month
    year := d.year % 100
    century := d.year / 100
    weekday := weekday }

variable {t : Time} {d : Date}

@[simp] theorem date_onDate (t : Time) (d : Date) (weekday : Nat) :
    (t.onDate d weekday).date = d := by
  unfold date onDate
  dsimp only
  rw [Nat.div_add_mod]

theorem Valid.onDate {weekday : Nat} (hvalid : t.Valid) (hdate : d.Valid)
    (hyear : d.year < 10000) (hweekday : 1 ≤ weekday ∧ weekday ≤ 7) :
    (t.onDate d weekday).Valid where
  second_lt := hvalid.second_lt
  minute_lt := hvalid.minute_lt
  hour_lt := hvalid.hour_lt
  date := by
    rw [date_onDate]
    exact hdate
  year_lt := Nat.mod_lt _ (by decide)
  century_lt := by
    change d.year / 100 < 100
    omega
  weekday_pos := hweekday.1
  weekday_le := hweekday.2

theorem Valid.number_lt (hvalid : t.Valid) : t.date.number < cycleDays := by
  have hyear := hvalid.year_lt
  have hcentury := hvalid.century_lt
  rw [← daysOfYears_cycle]
  refine Nat.lt_of_lt_of_le hvalid.date.number_lt (daysOfYears_mono ?_)
  unfold Time.date
  dsimp only
  omega

theorem Valid.minutes_lt (hvalid : t.Valid) : t.minutes < cycleDays * 1440 := by
  have hnumber := hvalid.number_lt
  have hhour := hvalid.hour_lt
  have hminute := hvalid.minute_lt
  unfold minutes
  omega

theorem Valid.eq_of_seconds_eq {other : Time} (hvalid : t.Valid)
    (hother : other.Valid) (hseconds : t.seconds = other.seconds)
    (hweekday : t.weekday = other.weekday)
    (htimezone : t.timezone = other.timezone) : t = other := by
  have hsecond := hvalid.second_lt
  have hminute := hvalid.minute_lt
  have hhour := hvalid.hour_lt
  have hyear := hvalid.year_lt
  have hsecond' := hother.second_lt
  have hminute' := hother.minute_lt
  have hhour' := hother.hour_lt
  have hyear' := hother.year_lt
  unfold seconds minutes at hseconds
  have hdate : t.date = other.date :=
    hvalid.date.eq_of_number_eq hother.date (by omega)
  rw [hdate] at hseconds
  have hyears : 100 * t.century + t.year = 100 * other.century + other.year :=
    congrArg Date.year hdate
  have hmonths : t.month = other.month := congrArg Date.month hdate
  have hdays : t.day = other.day := congrArg Date.day hdate
  cases t
  cases other
  rw [Time.mk.injEq]
  dsimp only at *
  omega

/-- The table and the test for February are the calendar's. -/
theorem getDaysPerMonth_eq {month year century : Nat} (hpos : 1 ≤ month) (hle : month ≤ 12)
    (hyear : year < 100) : getDaysPerMonth month year century =
      monthLength (100 * century + year) month := by
  have hleap : (year % 4 = 0 ∧ (year ≠ 0 ∨ century % 4 = 0)) ↔
      IsLeap (100 * century + year) := by
    unfold IsLeap
    omega
  unfold getDaysPerMonth
  by_cases hfebruary : month = 2
  · subst hfebruary
    simp only [true_and, hleap]
    rfl
  · rw [if_neg (by tauto), if_pos (by omega)]
    interval_cases month <;> first | rfl | exact absurd rfl hfebruary

theorem Valid.getDaysPerMonth_eq (hvalid : t.Valid) :
    getDaysPerMonth t.month t.year t.century =
      monthLength t.date.year t.date.month :=
  Time.getDaysPerMonth_eq hvalid.date.month_pos hvalid.date.month_le
    hvalid.year_lt

/-! ### One day forward and back -/

theorem number_lt_cycle (hdate : d.Valid) (hyear : d.year < 10000) :
    d.number < cycleDays := by
  rw [← daysOfYears_cycle]
  exact Nat.lt_of_lt_of_le hdate.number_lt (daysOfYears_mono hyear)

theorem carryYear_eq (hyear : t.year < 100) (hcentury : t.century < 100) :
    t.carryYear = { t with
      year := (100 * t.century + t.year + 1) % 10000 % 100
      century := (100 * t.century + t.year + 1) % 10000 / 100 } := by
  have hnext : increment16 t.year % 100 = (t.year + 1) % 100 := by
    unfold increment16
    omega
  have hnext' : increment16 t.century % 100 = (t.century + 1) % 100 := by
    unfold increment16
    omega
  unfold carryYear
  simp only [hnext, hnext']
  split
  · next hsame =>
    rw [Time.mk.injEq]
    omega
  · next hlast =>
    rw [Time.mk.injEq]
    omega

/-- Behind the last day of a month the next one begins, and behind December the
next year. -/
theorem carryMonth_eq (hyear : t.year < 100) (hcentury : t.century < 100)
    (hpos : 1 ≤ t.month) (hle : t.month ≤ 12) (hday : t.day = 1) :
    ∃ d : Date, d.Valid ∧ d.year < 10000 ∧
      d.number = (Date.number ⟨t.date.year, t.date.month,
        monthLength t.date.year t.date.month⟩ + 1) % cycleDays ∧
      t.carryMonth = t.onDate d t.weekday := by
  have hfull : t.date.year < 10000 := by
    unfold date
    dsimp only
    omega
  by_cases hdecember : t.month = 12
  · have hmonth : increment16 t.month % 13 = 0 := by
      rw [hdecember]
      rfl
    refine ⟨⟨(t.date.year + 1) % 10000, 1, 1⟩,
      Date.valid_first _ (by decide) (by decide), Nat.mod_lt _ (by decide), ?_, ?_⟩
    · have hnext := Date.number_next_year t.date.year
      have hlength : monthLength t.date.year t.date.month = 31 := by
        change monthLength _ t.month = 31
        rw [hdecember]
        rfl
      have hdate : t.date.month = 12 := hdecember
      rw [hlength, hdate, ← hnext, Date.number_first, Date.number_first]
      by_cases hend : t.date.year + 1 = 10000
      · rw [hend, daysOfYears_cycle, Nat.mod_self, Nat.mod_self, daysOfYears]
      · have hlt : t.date.year + 1 < 10000 := by omega
        rw [Nat.mod_eq_of_lt hlt]
        refine (Nat.mod_eq_of_lt ?_).symm
        exact number_lt_cycle
          (Date.valid_first _ (Nat.le_refl 1) (by decide)) hlt
    · unfold carryMonth
      simp only [hmonth, ne_eq, not_true_eq_false, if_false]
      rw [carryYear_eq (by exact hyear) (by exact hcentury)]
      unfold onDate date
      rw [Time.mk.injEq]
      simp [increment16, hday]
  · have hmonth : increment16 t.month % 13 = t.month + 1 := by
      unfold increment16
      omega
    have hvalid := Date.valid_first t.date.year
      (by omega : 1 ≤ t.month + 1) (by omega)
    refine ⟨_, hvalid, hfull, ?_, ?_⟩
    · rw [Date.number_next_month _ hpos]
      refine (Nat.mod_eq_of_lt ?_).symm
      have := number_lt_cycle hvalid hfull
      rwa [Date.number_next_month _ hpos] at this
    · unfold carryMonth
      simp only [hmonth]
      rw [if_pos (Nat.succ_ne_zero _)]
      unfold onDate date
      rw [Time.mk.injEq]
      simp only [hday, true_and, and_true]
      omega

theorem carryDay_eq (hvalid : t.Valid) :
    ∃ d : Date, d.Valid ∧ d.year < 10000 ∧
      d.number = (t.date.number + 1) % cycleDays ∧
      t.carryDay = t.onDate d (t.weekday % 7 + 1) := by
  have hyear := hvalid.year_lt
  have hcentury := hvalid.century_lt
  obtain ⟨hmonthPos, hmonthLe, hdayPos, hdayLe⟩ := hvalid.date
  have hlength := hvalid.getDaysPerMonth_eq
  have hle := monthLength_le t.date.year t.date.month
  have hday : t.date.day = t.day := rfl
  have hsmall : increment16 t.day = t.day + 1 :=
    Nat.mod_eq_of_lt (by omega)
  unfold carryDay
  simp only [hlength, hsmall]
  by_cases hlast : t.day = monthLength t.date.year t.date.month
  · have hzero : (t.day + 1) % (monthLength t.date.year t.date.month + 1) = 0 := by
      rw [hlast, Nat.mod_self]
    simp only [hzero, ne_eq, not_true_eq_false, if_false]
    obtain ⟨d, hd, hdYear, hdNumber, hcarry⟩ := carryMonth_eq
      (t := { t with weekday := t.weekday % 7 + 1, day := 1 })
      hyear hcentury hmonthPos hmonthLe rfl
    refine ⟨d, hd, hdYear, ?_, hcarry⟩
    rw [hdNumber]
    congr 2
    change Date.number ⟨_, _, monthLength t.date.year t.date.month⟩ = _
    rw [← hlast]
    rfl
  · have hnext : (t.day + 1) % (monthLength t.date.year t.date.month + 1) =
        t.day + 1 := Nat.mod_eq_of_lt (by omega)
    simp only [hnext]
    rw [if_pos (by omega)]
    have hfull : t.date.year < 10000 := by
      unfold date
      dsimp only
      omega
    have hdate : Date.Valid ⟨t.date.year, t.month, t.day + 1⟩ :=
      ⟨hmonthPos, hmonthLe, by dsimp only; omega, by
        change t.day + 1 ≤ monthLength t.date.year t.date.month
        omega⟩
    have hnumber := Date.number_next_day t.date.year t.month
      (by omega : 1 ≤ t.day)
    refine ⟨_, hdate, hfull, ?_, ?_⟩
    · have hlt := number_lt_cycle hdate hfull
      rw [hnumber] at hlt ⊢
      exact (Nat.mod_eq_of_lt hlt).symm
    · unfold onDate date
      rw [Time.mk.injEq]
      dsimp only
      omega

theorem borrowMonth_eq (hyear : t.year < 100) (hcentury : t.century < 100)
    (hpos : 1 ≤ t.month) (hle : t.month ≤ 12)
    (hstart : t.month ≠ 1 ∨ t.date.year ≠ 0) :
    ∃ d : Date, d.Valid ∧ d.year < 10000 ∧
      d.number + 1 = Date.number ⟨t.date.year, t.date.month, 1⟩ ∧
      t.borrowMonth = t.onDate d t.weekday := by
  have hfull : t.date.year = 100 * t.century + t.year := rfl
  have hmonth : t.date.month = t.month := rfl
  by_cases hjanuary : t.month = 1
  · obtain ⟨year, hnext⟩ : ∃ year, t.date.year = year + 1 :=
      ⟨t.date.year - 1, by omega⟩
    refine ⟨⟨year, 12, 31⟩, Date.valid_last year (by decide) (by decide), ?_, ?_,
      ?_⟩
    · dsimp only
      omega
    · rw [hnext, hmonth, hjanuary, Date.number_next_year]
    · have hlength : getDaysPerMonth 12 t.year t.century = 31 := rfl
      unfold borrowMonth
      simp only [hjanuary, if_true, hlength, ne_eq, not_true_eq_false, if_false]
      by_cases hcentennial : t.year = 0
      · have hcentury' : decrement16 t.century = year / 100 := by
          unfold decrement16
          omega
        have hyear' : 99 = year % 100 := by omega
        unfold borrowYear onDate
        simp only [hcentennial, if_true, ne_eq, not_true_eq_false, if_false,
          hcentury', ← hyear']
      · have hcentury' : t.century = year / 100 := by omega
        have hyear' : t.year - 1 = year % 100 := by omega
        have hsame : year % 100 ≠ 99 := by omega
        unfold borrowYear onDate
        simp only [hcentennial, if_false, hyear', hsame, ne_eq,
          not_false_eq_true, if_true, hcentury']
  · obtain ⟨month, hprev⟩ : ∃ month, t.month = month + 1 :=
      ⟨t.month - 1, by omega⟩
    have hlength : getDaysPerMonth month t.year t.century =
        monthLength t.date.year month :=
      getDaysPerMonth_eq (by omega) (by omega) hyear
    refine ⟨⟨t.date.year, month, monthLength t.date.year month⟩,
      Date.valid_last _ (by omega) (by omega), by dsimp only; omega, ?_, ?_⟩
    · rw [hmonth, hprev, Date.number_next_month _ (by omega)]
    · have hdecrement : (if t.month = 1 then 12 else decrement16 t.month) =
          month := by
        rw [if_neg hjanuary, hprev]
        unfold decrement16
        omega
      have hyear' : t.date.year % 100 = t.year := by omega
      have hcentury' : t.date.year / 100 = t.century := by omega
      unfold borrowMonth onDate
      simp only [hdecrement, hlength, hyear', hcentury']
      rw [if_pos (by omega)]

def weekdayBefore (weekday : Nat) : Nat := if weekday = 1 then 7 else weekday - 1

theorem borrowDay_eq (hvalid : t.Valid) (hstart : 0 < t.date.number) :
    ∃ d : Date, d.Valid ∧ d.year < 10000 ∧ d.number + 1 = t.date.number ∧
      t.borrowDay = t.onDate d (weekdayBefore t.weekday) := by
  have hyear := hvalid.year_lt
  have hcentury := hvalid.century_lt
  have hweekday := hvalid.weekday_pos
  have hweekday' := hvalid.weekday_le
  obtain ⟨hmonthPos, hmonthLe, hdayPos, hdayLe⟩ := hvalid.date
  have hmonthLength := monthLength_le t.date.year t.date.month
  have hfull : t.date.year = 100 * t.century + t.year := rfl
  have hmonth : t.date.month = t.month := rfl
  have hday : t.date.day = t.day := rfl
  have hbefore : (if t.weekday = 1 then 7 else decrement16 t.weekday) =
      weekdayBefore t.weekday := by
    unfold weekdayBefore decrement16
    split <;> omega
  unfold borrowDay
  simp only [hbefore]
  by_cases hfirst : t.day = 1
  · rw [if_neg (by simp [hfirst])]
    obtain ⟨d, hd, hdYear, hdNumber, hborrow⟩ := borrowMonth_eq
      (t := { t with weekday := weekdayBefore t.weekday })
      hyear hcentury hmonthPos hmonthLe (by
        by_contra hnone
        simp only [not_or, not_not] at hnone
        have hnumber : t.date.number = Date.number ⟨0, 1, 1⟩ := by
          unfold Time.date
          rw [hfirst, hnone.1]
          exact congrArg (fun year => Date.number ⟨year, 1, 1⟩) hnone.2
        rw [hnumber] at hstart
        exact absurd hstart (by decide))
    refine ⟨d, hd, hdYear, ?_, hborrow⟩
    rw [hdNumber, ← hfirst]
    rfl
  · rw [if_pos hfirst]
    obtain ⟨day, hprev⟩ : ∃ day, t.day = day + 1 := ⟨t.day - 1, by omega⟩
    refine ⟨⟨t.date.year, t.month, day⟩, ⟨hmonthPos, hmonthLe, ?_, ?_⟩, ?_, ?_,
      ?_⟩
    · dsimp only
      omega
    · change day ≤ monthLength t.date.year t.date.month
      omega
    · dsimp only
      omega
    · have hnumber := Date.number_next_day t.date.year t.month
        (by omega : 1 ≤ day)
      rw [← hnumber, ← hprev]
      rfl
    · unfold onDate decrement16
      rw [Time.mk.injEq]
      dsimp only
      omega

/-! ### One minute forward and back -/

theorem minutes_onDate (t : Time) (d : Date) (weekday : Nat) :
    (t.onDate d weekday).minutes = (d.number * 24 + t.hour) * 60 + t.minute := by
  unfold minutes
  rw [date_onDate]
  rfl

theorem Valid.setClock (hvalid : t.Valid) (hour minute : Nat)
    (hhour : hour < 24) (hminute : minute < 60) :
    Valid { t with hour := hour, minute := minute } :=
  { hvalid with hour_lt := hhour, minute_lt := hminute }

theorem minutes_setClock (t : Time) (hour minute : Nat) :
    minutes { t with hour := hour, minute := minute } =
      (t.date.number * 24 + hour) * 60 + minute := rfl

theorem Valid.next_minute (hvalid : t.Valid) {hour minute : Nat}
    (hhour : hour < 24) (hminute : minute < 60)
    (hnext : hour * 60 + minute = t.hour * 60 + t.minute + 1) :
    Valid { t with hour := hour, minute := minute } ∧
      minutes { t with hour := hour, minute := minute } =
        (t.minutes + 1) % (cycleDays * 1440) ∧
      t.weekday = if (t.minutes + 1) % 1440 = 0 then t.weekday % 7 + 1
        else t.weekday := by
  have hvalid' := hvalid.setClock hour minute hhour hminute
  have hminutes : minutes { t with hour := hour, minute := minute } =
      t.minutes + 1 := by
    rw [minutes_setClock]
    unfold minutes
    omega
  have hlt := hvalid'.minutes_lt
  rw [hminutes] at hlt ⊢
  refine ⟨hvalid', (Nat.mod_eq_of_lt hlt).symm, ?_⟩
  rw [if_neg]
  unfold minutes
  omega

theorem carryMinute_spec (hvalid : t.Valid) :
    t.carryMinute.Valid ∧
      t.carryMinute.minutes = (t.minutes + 1) % (cycleDays * 1440) ∧
      t.carryMinute.weekday = if (t.minutes + 1) % 1440 = 0 then
        t.weekday % 7 + 1 else t.weekday := by
  have hhour := hvalid.hour_lt
  have hminute := hvalid.minute_lt
  have hnextMinute : increment16 t.minute % 60 = (t.minute + 1) % 60 := by
    unfold increment16
    omega
  have hnextHour : increment16 t.hour % 24 = (t.hour + 1) % 24 := by
    unfold increment16
    omega
  unfold carryMinute carryHour
  simp only [hnextMinute, hnextHour]
  by_cases hhourEnd : t.minute = 59
  · have hminute' : (t.minute + 1) % 60 = 0 := by omega
    simp only [hminute', ne_eq, not_true_eq_false, if_false]
    by_cases hdayEnd : t.hour = 23
    · have hhour' : (t.hour + 1) % 24 = 0 := by omega
      simp only [hhour', not_true_eq_false, if_false]
      have hmidnight := hvalid.setClock 0 0 (by decide) (by decide)
      obtain ⟨d, hd, hdYear, hdNumber, hcarry⟩ := carryDay_eq hmidnight
      have hminutes : t.minutes + 1 = (t.date.number + 1) * 1440 := by
        unfold minutes
        omega
      rw [hcarry, minutes_onDate, hminutes, if_pos (by omega),
        Nat.mul_mod_mul_right, hdNumber]
      refine ⟨hmidnight.onDate hd hdYear ⟨by dsimp only; omega, by
        dsimp only; omega⟩, ?_, rfl⟩
      change ((t.date.number + 1) % cycleDays * 24 + 0) * 60 + 0 = _
      omega
    · rw [if_pos (by omega)]
      exact hvalid.next_minute (by omega) (by decide) (by omega)
  · rw [if_pos (by omega)]
    exact hvalid.next_minute hhour (by omega) (by omega)

theorem Valid.previous_minute (hvalid : t.Valid) {hour minute : Nat}
    (hhour : hour < 24) (hminute : minute < 60)
    (hnext : hour * 60 + minute + 1 = t.hour * 60 + t.minute) :
    Valid { t with hour := hour, minute := minute } ∧
      minutes { t with hour := hour, minute := minute } + 1 = t.minutes ∧
      t.weekday = if t.minutes % 1440 = 0 then weekdayBefore t.weekday
        else t.weekday := by
  have hhour' := hvalid.hour_lt
  have hminute' := hvalid.minute_lt
  refine ⟨hvalid.setClock hour minute hhour hminute, ?_, ?_⟩
  · rw [minutes_setClock]
    unfold minutes
    omega
  · rw [if_neg]
    unfold minutes
    omega

theorem borrowMinute_spec (hvalid : t.Valid) (hpos : 0 < t.minutes) :
    t.borrowMinute.Valid ∧ t.borrowMinute.minutes + 1 = t.minutes ∧
      t.borrowMinute.weekday = if t.minutes % 1440 = 0 then
        weekdayBefore t.weekday else t.weekday := by
  have hhour := hvalid.hour_lt
  have hminute := hvalid.minute_lt
  have hweekday := hvalid.weekday_pos
  have hweekday' := hvalid.weekday_le
  unfold borrowMinute borrowHour
  by_cases hhourStart : t.minute = 0
  · simp only [hhourStart, if_true, ne_eq, not_true_eq_false, if_false]
    by_cases hdayStart : t.hour = 0
    · simp only [hdayStart, if_true, not_true_eq_false, if_false]
      have hevening := hvalid.setClock 23 59 (by decide) (by decide)
      have hminutes : t.minutes = t.date.number * 1440 := by
        unfold minutes
        omega
      obtain ⟨d, hd, hdYear, hdNumber, hborrow⟩ := borrowDay_eq hevening (by
        change 0 < t.date.number
        omega)
      have hnumber : d.number + 1 = t.date.number := hdNumber
      rw [hborrow, minutes_onDate, hminutes, if_pos (by omega), ← hnumber]
      refine ⟨hevening.onDate hd hdYear ?_, ?_, rfl⟩
      · unfold weekdayBefore
        dsimp only
        split <;> omega
      · dsimp only
        omega
    · rw [if_neg hdayStart, if_pos (by omega)]
      exact hvalid.previous_minute (by omega) (by decide) (by omega)
  · simp only [hhourStart, if_false]
    rw [if_pos (by omega)]
    exact hvalid.previous_minute hhour (by omega) (by omega)

/-! ### The loops -/

theorem iterate_carryMinute (hvalid : t.Valid) (k : Nat) :
    (carryMinute^[k] t).Valid ∧
      (carryMinute^[k] t).minutes = (t.minutes + k) % (cycleDays * 1440) ∧
      (carryMinute^[k] t).weekday = weekdayAfter t.weekday
        ((t.minutes + k) / 1440 - t.minutes / 1440) := by
  have hweekday := hvalid.weekday_pos
  have hweekday' := hvalid.weekday_le
  induction k with
  | zero =>
      refine ⟨hvalid, (Nat.mod_eq_of_lt hvalid.minutes_lt).symm, ?_⟩
      unfold weekdayAfter
      simp only [Function.iterate_zero_apply, Nat.add_zero, Nat.sub_self]
      omega
  | succ k ih =>
      obtain ⟨hvalidK, hminutesK, hweekdayK⟩ := ih
      obtain ⟨hvalid', hminutes', hweekday'⟩ := carryMinute_spec hvalidK
      rw [Function.iterate_succ_apply']
      refine ⟨hvalid', ?_, ?_⟩
      · rw [hminutes', hminutesK, Nat.mod_add_mod, Nat.add_assoc]
      · -- The cycle is a whole number of days, so that it hides no midnight.
        have hphase : ((t.minutes + k) % (cycleDays * 1440) + 1) % 1440 =
            (t.minutes + (k + 1)) % 1440 := by
          rw [Nat.add_mod, Nat.mod_mod_of_dvd _ (Nat.dvd_mul_left 1440 _),
            ← Nat.add_mod, Nat.add_assoc]
        rw [hweekday', hminutesK, hphase, hweekdayK]
        unfold weekdayAfter
        split <;> omega

theorem iterate_borrowMinute (hvalid : t.Valid) (k : Nat)
    (hle : k ≤ t.minutes) :
    (borrowMinute^[k] t).Valid ∧ (borrowMinute^[k] t).minutes + k = t.minutes ∧
      weekdayAfter (borrowMinute^[k] t).weekday
        (t.minutes / 1440 - (t.minutes - k) / 1440) = t.weekday := by
  have hweekday := hvalid.weekday_pos
  have hweekday' := hvalid.weekday_le
  induction k with
  | zero =>
      refine ⟨hvalid, rfl, ?_⟩
      unfold weekdayAfter
      simp only [Function.iterate_zero_apply, Nat.sub_zero, Nat.sub_self]
      omega
  | succ k ih =>
      obtain ⟨hvalidK, hminutesK, hweekdayK⟩ := ih (by omega)
      obtain ⟨hvalid', hminutes', hweekdayEq⟩ :=
        borrowMinute_spec hvalidK (by omega)
      have hposK := hvalidK.weekday_pos
      have hleK := hvalidK.weekday_le
      rw [Function.iterate_succ_apply']
      refine ⟨hvalid', by omega, ?_⟩
      rw [hweekdayEq]
      have hminutesEq : (borrowMinute^[k] t).minutes = t.minutes - k := by omega
      rw [hminutesEq]
      unfold weekdayAfter at hweekdayK ⊢
      unfold weekdayBefore
      split
      · split <;> omega
      · omega

theorem incrementLoop_eq (t : Time) (amount : Nat) :
    ∃ rest, incrementLoop t amount =
        (carryMinute^[add32 t.second amount / 60] t, rest) ∧
      add32 t.second rest = add32 t.second amount % 60 := by
  induction t, amount using incrementLoop.induct with
  | case1 t amount hmore ih =>
      obtain ⟨rest, hloop, hrest⟩ := ih
      rw [carryMinute_second] at hloop hrest
      have hsum : add32 t.second (sub32 amount 60) =
          add32 t.second amount - 60 := by
        unfold add32 sub32 at *
        omega
      rw [hsum] at hloop hrest
      refine ⟨rest, ?_, by omega⟩
      rw [incrementLoop, if_pos hmore, hloop]
      have hcount : add32 t.second amount / 60 =
          (add32 t.second amount - 60) / 60 + 1 := by omega
      rw [hcount, Function.iterate_succ_apply]
  | case2 t amount hdone =>
      refine ⟨amount, ?_, (Nat.mod_eq_of_lt (Nat.lt_of_not_le hdone)).symm⟩
      rw [incrementLoop, if_neg hdone, Nat.div_eq_of_lt (Nat.lt_of_not_le hdone)]
      rfl

theorem decrementLoop_eq (t : Time) (amount : Int) (hsecond : t.second < 60) :
    ∃ (k : Nat) (rest : Int),
      decrementLoop t amount = (borrowMinute^[k] t, rest) ∧
      amount = rest + 60 * k ∧ rest ≤ t.second ∧
      (0 < k → (t.second : Int) - rest < 60) := by
  induction t, amount using decrementLoop.induct with
  | case1 t amount hmore ih =>
      rw [borrowMinute_second] at ih
      obtain ⟨k, rest, hloop, hamount, hle, hlt⟩ := ih hsecond
      refine ⟨k + 1, rest, ?_, by omega, hle, fun _ => ?_⟩
      · rw [decrementLoop, if_pos hmore, hloop, Function.iterate_succ_apply]
      · rcases Nat.eq_zero_or_pos k with rfl | hpos
        · omega
        · exact hlt hpos
  | case2 t amount hdone =>
      refine ⟨0, amount, ?_, by omega, by omega, by omega⟩
      rw [decrementLoop, if_neg hdone]
      rfl

end Time

end X86Os32
