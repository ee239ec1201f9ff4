import X86Os32.User.ClockSetting

namespace X86Os32

open Library.Calendar

/-! What is displayed after the clock has been set. -/

namespace Time

variable {t : Time} {zone : Int}

def SameDay (hour zone : Int) : Prop := 0 ≤ hour + zone ∧ hour + zone < 24

theorem getDaysPerMonth_bounds {month : Nat} (hpos : 1 ≤ month) (hle : month ≤ 12)
    (year century : Nat) :
    28 ≤ getDaysPerMonth month year century ∧
      getDaysPerMonth month year century ≤ 31 := by
  have htable : ∀ month ∈ List.range' 1 12,
      28 ≤ daysPerMonth.getD month 0 ∧ daysPerMonth.getD month 0 ≤ 31 := by
    decide
  have hmonth := htable month (List.mem_range'_1.mpr ⟨hpos, by omega⟩)
  unfold getDaysPerMonth
  split
  · next hfebruary =>
    rw [hfebruary.1]
    decide
  · rw [if_pos (by omega)]
    exact hmonth

theorem carryMonth_day (t : Time) : t.carryMonth.day = t.day := by
  unfold carryMonth carryYear
  simp only [apply_ite Time.day, ite_self]

theorem borrowYear_day (t : Time) : t.borrowYear.day = t.day := by
  unfold borrowYear
  simp only [apply_ite Time.day, ite_self]

theorem carryDay_day (t : Time) :
    t.carryDay.day =
      if increment16 t.day % (getDaysPerMonth t.month t.year t.century + 1) ≠ 0 then
        increment16 t.day % (getDaysPerMonth t.month t.year t.century + 1)
      else 1 := by
  unfold carryDay
  dsimp only
  rw [apply_ite Time.day]
  split
  · rfl
  · next hlast =>
    rw [carryMonth_day, not_not.mp hlast]
    rfl

theorem borrowMonth_day (t : Time) :
    t.borrowMonth.day = getDaysPerMonth
      (if t.month = 1 then 12 else decrement16 t.month) t.year t.century := by
  unfold borrowMonth
  dsimp only
  rw [apply_ite Time.day, borrowYear_day, ite_self]

theorem borrowDay_day (t : Time) :
    t.borrowDay.day = if t.day ≠ 1 then decrement16 t.day else getDaysPerMonth
      (if t.month = 1 then 12 else decrement16 t.month) t.year t.century := by
  unfold borrowDay
  dsimp only
  rw [apply_ite Time.day, borrowMonth_day]

/-- The next day has another number in its month, also behind a day that the
month does not have. -/
theorem carryDay_day_ne (hmonthPos : 1 ≤ t.month) (hmonthLe : t.month ≤ 12)
    (hdayPos : 1 ≤ t.day) (hdayLe : t.day ≤ 31) : t.carryDay.day ≠ t.day := by
  obtain ⟨hlow, hhigh⟩ :=
    getDaysPerMonth_bounds hmonthPos hmonthLe t.year t.century
  have hnext : increment16 t.day = t.day + 1 := Nat.mod_eq_of_lt (by omega)
  rw [carryDay_day, hnext]
  generalize getDaysPerMonth t.month t.year t.century = length at *
  have hsplit : (t.day + 1) % (length + 1) =
      if t.day < length then t.day + 1 else t.day - length := by
    split
    · exact Nat.mod_eq_of_lt (by omega)
    · rw [Nat.mod_eq_sub_mod (by omega), Nat.add_sub_add_right]
      exact Nat.mod_eq_of_lt (by omega)
  rw [hsplit]
  split <;> split <;> omega

theorem borrowDay_day_ne (hmonthPos : 1 ≤ t.month) (hmonthLe : t.month ≤ 12)
    (hdayPos : 1 ≤ t.day) (hdayLe : t.day ≤ 31) : t.borrowDay.day ≠ t.day := by
  rw [borrowDay_day]
  split
  · unfold decrement16
    omega
  · next hfirst =>
    have hmonth : 1 ≤ (if t.month = 1 then 12 else decrement16 t.month) ∧
        (if t.month = 1 then 12 else decrement16 t.month) ≤ 12 := by
      unfold decrement16
      split <;> omega
    have hlow := (getDaysPerMonth_bounds hmonth.1 hmonth.2 t.year t.century).1
    rw [not_not.mp hfirst]
    exact Nat.ne_of_gt (Nat.lt_of_lt_of_le (by decide) hlow)

/-! ### The time in the time zone -/

theorem shiftHours_hour (hhour : t.hour < 24) (hwest : -24 ≤ zone)
    (heast : zone ≤ 24) :
    ((t.shiftHours zone).hour : Int) = (t.hour + zone) % 24 := by
  unfold shiftHours
  split
  · change ((t.hour + zone + 24).toNat : Int) = _
    omega
  · split
    · change ((t.hour + zone).toNat : Int) = _
      omega
    · change ((t.hour + zone - 24).toNat : Int) = _
      omega

theorem shiftHours_minute (t : Time) (zone : Int) :
    (t.shiftHours zone).minute = t.minute := by
  unfold shiftHours
  split
  · exact borrowDay_keepsClock.minute t
  · split
    · rfl
    · exact carryDay_keepsClock.minute t

theorem shiftHours_second (t : Time) (zone : Int) :
    (t.shiftHours zone).second = t.second := by
  unfold shiftHours
  split
  · exact borrowDay_keepsClock.second t
  · split
    · rfl
    · exact carryDay_keepsClock.second t

theorem shiftHours_date_of_sameDay (hsame : SameDay t.hour zone) :
    (t.shiftHours zone).date = t.date := by
  unfold shiftHours
  rw [if_neg (Int.not_lt.mpr hsame.1), if_pos hsame.2]
  rfl

theorem shiftHours_day_ne (hmonthPos : 1 ≤ t.month) (hmonthLe : t.month ≤ 12)
    (hdayPos : 1 ≤ t.day) (hdayLe : t.day ≤ 31)
    (hother : ¬SameDay t.hour zone) : (t.shiftHours zone).day ≠ t.day := by
  unfold shiftHours
  split
  · exact borrowDay_day_ne hmonthPos hmonthLe hdayPos hdayLe
  · next hlow =>
    split
    · next hhigh => exact absurd ⟨Int.not_lt.mp hlow, hhigh⟩ hother
    · exact carryDay_day_ne hmonthPos hmonthLe hdayPos hdayLe

/-- The local date depends on the date and on the side of midnight. -/
theorem shiftHours_date_onClock (hhour : t.hour < 24) {second minute hour : Nat}
    (hhour' : hour < 24) (hside : SameDay t.hour zone ↔ SameDay hour zone) :
    ((t.onClock second minute hour).shiftHours zone).date =
      (t.shiftHours zone).date := by
  unfold SameDay at hside
  have hsame : (t.onClock second minute hour).hour = hour := rfl
  unfold shiftHours
  rw [hsame]
  split
  · rw [if_pos (by omega), borrowDay_onClock]
    rfl
  · split
    · rw [if_neg (by omega), if_pos (by omega)]
      rfl
    · rw [if_neg (by omega), if_neg (by omega), carryDay_onClock]
      rfl

/-- What is displayed in a time zone when the clock holds `t`. -/
def localTime (t : Time) (zone : Int) : Time := (t.inZone zone).shiftHours zone

theorem localTime_hour (hhour : t.hour < 24) (hwest : -24 ≤ zone)
    (heast : zone ≤ 24) :
    ((t.localTime zone).hour : Int) = (t.hour + zone) % 24 :=
  shiftHours_hour (t := t.inZone zone) hhour hwest heast

theorem localTime_minute (t : Time) (zone : Int) :
    (t.localTime zone).minute = t.minute := shiftHours_minute _ _

theorem localTime_second (t : Time) (zone : Int) :
    (t.localTime zone).second = t.second := shiftHours_second _ _

theorem localTime_date_of_sameDay (hsame : SameDay t.hour zone) :
    (t.localTime zone).date = t.date :=
  shiftHours_date_of_sameDay (t := t.inZone zone) hsame

theorem localTime_day_ne (hmonthPos : 1 ≤ t.month) (hmonthLe : t.month ≤ 12)
    (hdayPos : 1 ≤ t.day) (hdayLe : t.day ≤ 31)
    (hother : ¬SameDay t.hour zone) : (t.localTime zone).day ≠ t.day :=
  shiftHours_day_ne (t := t.inZone zone) hmonthPos hmonthLe hdayPos hdayLe hother

theorem localTime_date_eq_iff (hmonthPos : 1 ≤ t.month) (hmonthLe : t.month ≤ 12)
    (hdayPos : 1 ≤ t.day) (hdayLe : t.day ≤ 31) (hhour : t.hour < 24)
    {second minute hour : Nat} (hhour' : hour < 24) :
    ((t.onClock second minute hour).localTime zone).date =
        (t.localTime zone).date ↔
      (SameDay t.hour zone ↔ SameDay hour zone) := by
  constructor
  · intro hdate
    have hday : ((t.onClock second minute hour).localTime zone).day =
        (t.localTime zone).day := congrArg Date.day hdate
    constructor
    · intro hsame
      have hdate' : (t.localTime zone).date = t.date :=
        localTime_date_of_sameDay hsame
      by_contra hother
      exact localTime_day_ne (t := t.onClock second minute hour)
        hmonthPos hmonthLe hdayPos hdayLe hother
        (hday.trans (congrArg Date.day hdate'))
    · intro hsame
      have hdate' : ((t.onClock second minute hour).localTime zone).date =
          t.date :=
        localTime_date_of_sameDay (t := t.onClock second minute hour) hsame
      by_contra hother
      exact localTime_day_ne hmonthPos hmonthLe hdayPos hdayLe hother
        (hday.symm.trans (congrArg Date.day hdate'))
  · intro hside
    exact shiftHours_date_onClock (t := t.inZone zone) hhour hhour' hside

end Time

namespace RTC

open Time

/-- After `set time`, the entered time is displayed, on the date that was
displayed before. -/
def SetTimeShows (rtc : RTC) (hour minute second : Nat) : Prop :=
  rtc.updateTime.2 = .ok () ∧ (rtc.setTime hour minute second).2 = .ok () ∧
  (rtc.setTime hour minute second).1.time.hour = hour ∧
  (rtc.setTime hour minute second).1.time.minute = minute ∧
  (rtc.setTime hour minute second).1.time.second = second ∧
  (rtc.setTime hour minute second).1.time.date = rtc.updateTime.1.time.date

/-- After `set date`, the entered date is displayed, and the time of day that
was displayed before. -/
def SetDateShows (rtc : RTC) (d : Date) : Prop :=
  rtc.updateTime.2 = .ok () ∧
  (rtc.setDate d.day d.month d.year none).2 = .ok () ∧
  (rtc.setDate d.day d.month d.year none).1.time.date = d ∧
  (rtc.setDate d.day d.month d.year none).1.time.hour =
    rtc.updateTime.1.time.hour ∧
  (rtc.setDate d.day d.month d.year none).1.time.minute =
    rtc.updateTime.1.time.minute ∧
  (rtc.setDate d.day d.month d.year none).1.time.second =
    rtc.updateTime.1.time.second

variable {rtc : RTC} {t : Time} {hour minute second : Nat} {d : Date}

theorem updateTime_eq (ht : t.TwoDigits) (hheld : rtc.registers = t.encode)
    (hsecond : t.second < 60) (hminute : t.minute < 60) (hhour : t.hour < 24)
    (hne : rtc.time.timezone ≠ 0) (hwest : -12 ≤ rtc.time.timezone)
    (heast : rtc.time.timezone ≤ 14) :
    rtc.updateTime = ({ rtc with time := t.localTime rtc.time.timezone }, .ok ()) := by
  have hshift : (t.inZone rtc.time.timezone).applyTimezone =
      .ok (t.localTime rtc.time.timezone) :=
    applyTimezone_hours (t := t.inZone rtc.time.timezone) hsecond hminute hhour
      hne (Int.le_trans (by decide) hwest) (Int.le_trans heast (by decide))
  unfold updateTime
  rw [readTime_eq ht hheld, hshift]

section TimeZones

variable (hvalid : t.Valid) (hheld : rtc.registers = t.encode)
  (hne : rtc.time.timezone ≠ 0) (hwest : -12 ≤ rtc.time.timezone)
  (heast : rtc.time.timezone ≤ 14)
include hvalid hheld hne hwest heast

theorem updateTime_shown : rtc.updateTime.2 = .ok () ∧
    rtc.updateTime.1.time = t.localTime rtc.time.timezone := by
  rw [updateTime_eq hvalid.twoDigits hheld hvalid.second_lt hvalid.minute_lt
    hvalid.hour_lt hne hwest heast]
  exact ⟨rfl, rfl⟩

theorem setTime_shown (hhour : hour < 24) (hminute : minute < 60)
    (hsecond : second < 60) :
    (rtc.setTime hour minute second).2 = .ok () ∧
      (rtc.setTime hour minute second).1.time =
        (t.onClock second minute
          (((hour : Int) - rtc.time.timezone) % 24).toNat).localTime
          rtc.time.timezone := by
  have htime := rtc.writeTime_time hour minute second
  have hwritten := writeTime_registers hheld hour minute second
  rw [withTime_eq hhour hminute hsecond] at hwritten
  have hvalid' : (t.onClock second minute
      (((hour : Int) - rtc.time.timezone) % 24).toNat).Valid :=
    hvalid.onClock hsecond hminute (by omega)
  have hshown := updateTime_shown hvalid' hwritten
  rw [htime] at hshown
  exact hshown hne hwest heast

theorem setDate_shown (day month year : Int) :
    (rtc.setDate day month year none).2 = .ok () ∧
      (rtc.setDate day month year none).1.time =
        (t.withDate day month year none).localTime rtc.time.timezone := by
  have htime := rtc.writeDate_time day month year none
  have hwritten := writeDate_registers hheld day month year none
  have hdigits := hvalid.twoDigits.withDate day month year none
  have hsecond : (t.withDate day month year none).second = t.second :=
    field_withDate t day month year none .second
  have hminute : (t.withDate day month year none).minute = t.minute :=
    field_withDate t day month year none .minute
  have hhour : (t.withDate day month year none).hour = t.hour :=
    field_withDate t day month year none .hour
  have hshown := updateTime_eq hdigits hwritten (hsecond ▸ hvalid.second_lt)
    (hminute ▸ hvalid.minute_lt) (hhour ▸ hvalid.hour_lt)
  rw [htime] at hshown
  unfold setDate
  rw [hshown hne hwest heast]
  exact ⟨rfl, rfl⟩

theorem setTimeShows_iff (hhour : hour < 24) (hminute : minute < 60)
    (hsecond : second < 60) :
    rtc.SetTimeShows hour minute second ↔
      (SameDay t.hour rtc.time.timezone ↔
        0 ≤ (hour : Int) - rtc.time.timezone ∧
        (hour : Int) - rtc.time.timezone < 24) := by
  obtain ⟨hbefore, hbeforeTime⟩ :=
    updateTime_shown hvalid hheld hne hwest heast
  obtain ⟨hafter, hafterTime⟩ :=
    setTime_shown hvalid hheld hne hwest heast hhour hminute hsecond
  generalize hnew : (((hour : Int) - rtc.time.timezone) % 24).toNat = new
    at hafterTime
  have hnewLt : new < 24 := by omega
  have hside : (0 ≤ (hour : Int) - rtc.time.timezone ∧
      (hour : Int) - rtc.time.timezone < 24) ↔
      SameDay new rtc.time.timezone := by
    unfold SameDay
    omega
  have hclock : ((t.onClock second minute new).localTime
      rtc.time.timezone).hour = hour := by
    have hshift : (((t.onClock second minute new).localTime
        rtc.time.timezone).hour : Int) =
          ((new : Int) + rtc.time.timezone) % 24 :=
      localTime_hour (t := t.onClock second minute new) hnewLt (by omega)
        (by omega)
    have hsum : ((new : Int) + rtc.time.timezone) % 24 = hour := by omega
    exact Int.ofNat.inj (hshift.trans hsum)
  unfold SetTimeShows
  rw [hbeforeTime, hafterTime, hside, localTime_date_eq_iff
    hvalid.date.month_pos hvalid.date.month_le hvalid.date.day_pos
    (Nat.le_trans hvalid.date.day_le (monthLength_le _ _)) hvalid.hour_lt hnewLt]
  constructor
  · rintro ⟨-, -, -, -, -, hdate⟩
    exact hdate
  · intro hdate
    exact ⟨hbefore, hafter, hclock, localTime_minute _ _,
      localTime_second _ _, hdate⟩

theorem setDateShows_iff (hd : d.Valid) :
    rtc.SetDateShows d ↔
      SameDay t.hour rtc.time.timezone ∧ d.year < 10000 := by
  obtain ⟨hbefore, hbeforeTime⟩ :=
    updateTime_shown hvalid hheld hne hwest heast
  obtain ⟨hafter, hafterTime⟩ :=
    setDate_shown hvalid hheld hne hwest heast d.day d.month d.year
  have hlength := monthLength_le d.year d.month
  have hdayLe : d.day ≤ 31 := Nat.le_trans hd.day_le hlength
  have hmonthLe := hd.month_le
  have hfields := field_withDate t d.day d.month d.year none
  have hdigits := hvalid.twoDigits.withDate d.day d.month d.year none
  rw [toUInt16_natCast (n := d.day) (by omega),
    toUInt16_natCast (n := d.month) (by omega)] at hfields
  generalize t.withDate d.day d.month d.year none = u at *
  have hday : u.day = d.day := (hfields .day).trans (if_pos (by omega))
  have hmonth : u.month = d.month := (hfields .month).trans (if_pos (by omega))
  have hhour : u.hour = t.hour := hfields .hour
  have hyearLt : u.year < 100 := hdigits .year
  have hcenturyLt : u.century < 100 := hdigits .century
  unfold SetDateShows
  rw [hbeforeTime, hafterTime]
  constructor
  · rintro ⟨-, -, hdate, -⟩
    have hsame : SameDay t.hour rtc.time.timezone := by
      by_contra hother
      rw [← hhour] at hother
      have hmoved := localTime_day_ne
        (hmonth ▸ hd.month_pos) (hmonth ▸ hmonthLe) (hday ▸ hd.day_pos)
        (hday ▸ hdayLe) hother
      exact hmoved ((congrArg Date.day hdate).trans hday.symm)
    have hshown : (u.localTime rtc.time.timezone).date = u.date := by
      rw [← hhour] at hsame
      exact localTime_date_of_sameDay hsame
    have hyear : 100 * u.century + u.year = d.year :=
      congrArg Date.year (hshown.symm.trans hdate)
    exact ⟨hsame, by omega⟩
  · rintro ⟨hsame, hyear⟩
    have hword : toUInt16 d.year = d.year := toUInt16_natCast (by omega)
    have hyearNew : u.year = d.year % 100 := by
      rw [← hword]
      exact hfields .year
    have hcenturyNew : u.century = d.year / 100 := by
      have hwritten := hfields .century
      rw [hword] at hwritten
      exact hwritten.trans (if_pos (by omega))
    have hdate : u.date = d := by
      unfold date
      rw [hyearNew, hcenturyNew, hday, hmonth, Nat.div_add_mod]
    rw [← hhour] at hsame
    have hclock : (u.localTime rtc.time.timezone).hour =
        (t.localTime rtc.time.timezone).hour := by
      have hnew : ((u.localTime rtc.time.timezone).hour : Int) =
          (u.hour + rtc.time.timezone) % 24 :=
        localTime_hour (hhour ▸ hvalid.hour_lt) (by omega) (by omega)
      have hold : ((t.localTime rtc.time.timezone).hour : Int) =
          (t.hour + rtc.time.timezone) % 24 :=
        localTime_hour hvalid.hour_lt (by omega) (by omega)
      rw [hhour] at hnew
      exact Int.ofNat.inj (hnew.trans hold.symm)
    refine ⟨hbefore, hafter, (localTime_date_of_sameDay hsame).trans hdate,
      hclock, ?_, ?_⟩
    · rw [localTime_minute, localTime_minute]
      exact hfields .minute
    · rw [localTime_second, localTime_second]
      exact hfields .second

end TimeZones

/-- The entered time is displayed on the old date just when UTC and the time
zone have the same date at both times or at none.  The entered date is displayed
just when they have it at the time of day, and the registers can hold it. -/
theorem set_displayed_iff (hvalid : t.Valid) (hheld : rtc.registers = t.encode)
    (hne : rtc.time.timezone ≠ 0) (hwest : -12 ≤ rtc.time.timezone)
    (heast : rtc.time.timezone ≤ 14) (hhour : hour < 24) (hminute : minute < 60)
    (hsecond : second < 60) (hd : d.Valid) :
    (rtc.SetTimeShows hour minute second ↔
      (SameDay t.hour rtc.time.timezone ↔
        0 ≤ (hour : Int) - rtc.time.timezone ∧
        (hour : Int) - rtc.time.timezone < 24)) ∧
    (rtc.SetDateShows d ↔
      SameDay t.hour rtc.time.timezone ∧ d.year < 10000) :=
  ⟨setTimeShows_iff hvalid hheld hne hwest heast hhour hminute hsecond,
    setDateShows_iff hvalid hheld hne hwest heast hd⟩

theorem sampleDate_valid : Date.Valid ⟨2024, 2, 29⟩ :=
  ⟨by decide, by decide, by decide, by decide⟩

theorem set_displayed_iff_leap_day :
    (sampleClock.SetTimeShows 1 30 0 ↔
      (SameDay sampleTime.hour 2 ↔ 0 ≤ (1 : Int) - 2 ∧ (1 : Int) - 2 < 24)) ∧
    (sampleClock.SetDateShows ⟨2024, 2, 29⟩ ↔
      SameDay sampleTime.hour 2 ∧ 2024 < 10000) :=
  set_displayed_iff sampleTime_valid sampleClock_registers (by decide)
    (by decide) (by decide) (by decide) (by decide) (by decide) sampleDate_valid

/-- Entered behind the local midnight, neither the time of the next noon nor the
date is displayed as it should be. -/
theorem set_not_displayed :
    ¬∀ (rtc : RTC) (t : Time) (hour minute second : Nat) (d : Date), t.Valid →
      rtc.registers = t.encode → rtc.time.timezone ≠ 0 →
      -12 ≤ rtc.time.timezone → rtc.time.timezone ≤ 14 → hour < 24 →
      minute < 60 → second < 60 → d.Valid →
      rtc.SetTimeShows hour minute second ∧ rtc.SetDateShows d := by
  intro hall
  obtain ⟨htime, -⟩ := hall sampleClock sampleTime 12 0 0 ⟨2024, 2, 29⟩
    sampleTime_valid rfl (by decide) (by decide) (by decide) (by decide)
    (by decide) (by decide) sampleDate_valid
  have hside := (setTimeShows_iff sampleTime_valid sampleClock_registers
    (by decide) (by decide) (by decide) (by decide) (by decide)
    (by decide)).mp htime
  have hsame : SameDay sampleTime.hour sampleClock.time.timezone :=
    hside.mpr (by decide)
  exact absurd hsame.2 (by decide)

end RTC

end X86Os32
