import X86Os32.User.RTC

namespace X86Os32

open Library.Calendar

/-! Setting the clock: the registers hold UTC, and the hour is entered and
shown in the time zone. -/

/-- The conversion of a `long` to `uint16_t`. -/
def toUInt16 (value : Int) : Nat := (value % 2 ^ 16).toNat

namespace RTC

def writeTime (rtc : RTC) (hour minute second : Int) : RTC :=
  ((rtc.setLocalHour (toUInt16 hour)).setMinute (toUInt16 minute)).setSecond
    (toUInt16 second)

def writeDate (rtc : RTC) (day month year : Int) (weekday : Option Int) : RTC :=
  let rtc := ((rtc.setDay (toUInt16 day)).setMonth (toUInt16 month)).setRealYear
    (toUInt16 year)
  match weekday with
  | none => rtc
  | some weekday => rtc.setWeekday (toUInt16 weekday)

def setTime (rtc : RTC) (hour minute second : Int) : RTC × Except Stop Unit :=
  (rtc.writeTime hour minute second).updateTime

def setDate (rtc : RTC) (day month year : Int) (weekday : Option Int) :
    RTC × Except Stop Unit :=
  (rtc.writeDate day month year weekday).updateTime

end RTC

namespace Time

/-- The fields that `set time` leaves behind in a time zone. -/
def withTime (t : Time) (zone hour minute second : Int) : Time :=
  ((t.accept .hour (((toUInt16 hour : Int) - zone) % 24).toNat).accept .minute
    (toUInt16 minute)).accept .second (toUInt16 second)

def withWeekday (t : Time) : Option Int → Time
  | none => t
  | some weekday => t.accept .weekday (toUInt16 weekday)

def withDate (t : Time) (day month year : Int) (weekday : Option Int) : Time :=
  withWeekday ((((t.accept .day (toUInt16 day)).accept .month
    (toUInt16 month)).accept .century (toUInt16 year / 100)).accept .year
    (toUInt16 year % 100)) weekday

variable {t : Time}

theorem toUInt16_natCast {n : Nat} (hword : n < 2 ^ 16) : toUInt16 n = n := by
  unfold toUInt16
  omega

@[simp] theorem field_accept (t : Time) (offset other : Offset) (value : Nat) :
    (t.accept offset value).field other =
      if other = offset ∧ value ≤ 99 then value else t.field other := by
  unfold accept
  split
  · rw [if_neg (by omega)]
  · next hsmall =>
    rw [field_setField]
    simp only [Nat.le_of_not_lt hsmall, and_true]

theorem accept_eq {value : Nat} (hsmall : value ≤ 99) (offset : Offset) :
    t.accept offset value = t.setField value offset :=
  if_neg (Nat.not_lt.mpr hsmall)

/-- The value of a field after a write. -/
def accepted (old value : Nat) : Nat := if value ≤ 99 then value else old

theorem field_withTime (t : Time) (zone hour minute second : Int)
    (offset : Offset) : (t.withTime zone hour minute second).field offset =
      match offset with
      | .second => accepted t.second (toUInt16 second)
      | .minute => accepted t.minute (toUInt16 minute)
      | .hour => (((toUInt16 hour : Int) - zone) % 24).toNat
      | other => t.field other := by
  have hhour : (((toUInt16 hour : Int) - zone) % 24).toNat ≤ 99 := by omega
  unfold withTime
  simp only [field_accept]
  cases offset <;> simp [accepted, hhour, field]

theorem field_withDate (t : Time) (day month year : Int) (weekday : Option Int)
    (offset : Offset) : (t.withDate day month year weekday).field offset =
      match offset with
      | .day => accepted t.day (toUInt16 day)
      | .month => accepted t.month (toUInt16 month)
      | .century => accepted t.century (toUInt16 year / 100)
      | .year => toUInt16 year % 100
      | .weekday => (weekday.map toUInt16).elim t.weekday (accepted t.weekday)
      | other => t.field other := by
  have hyear : toUInt16 year % 100 ≤ 99 := by omega
  unfold withDate
  cases weekday with
  | none =>
      simp only [withWeekday, field_accept]
      cases offset <;> simp [accepted, hyear, field]
  | some weekday =>
      simp only [withWeekday, field_accept]
      cases offset <;> simp [accepted, hyear, field]

theorem Valid.onClock (hvalid : t.Valid) {second minute hour : Nat}
    (hsecond : second < 60) (hminute : minute < 60) (hhour : hour < 24) :
    (t.onClock second minute hour).Valid :=
  { hvalid with
    second_lt := hsecond
    minute_lt := hminute
    hour_lt := hhour }

theorem withTime_eq {zone : Int} {hour minute second : Nat} (hhour : hour < 24)
    (hminute : minute < 60) (hsecond : second < 60) :
    t.withTime zone hour minute second =
      t.onClock second minute (((hour : Int) - zone) % 24).toNat := by
  unfold withTime
  rw [toUInt16_natCast (by omega), toUInt16_natCast (by omega),
    toUInt16_natCast (by omega), accept_eq (by omega), accept_eq (by omega),
    accept_eq (by omega)]
  rfl

theorem withDate_eq {d : Date} (hd : d.Valid) (hyear : d.year < 10000) :
    t.withDate d.day d.month d.year none = t.onDate d t.weekday := by
  have hlength := monthLength_le d.year d.month
  have hdayLe := hd.day_le
  have hmonthLe := hd.month_le
  unfold withDate
  rw [toUInt16_natCast (n := d.day) (by omega),
    toUInt16_natCast (n := d.month) (by omega),
    toUInt16_natCast (n := d.year) (by omega), accept_eq (by omega),
    accept_eq (by omega), accept_eq (by omega), accept_eq (by omega)]
  rfl

theorem TwoDigits.withTime (ht : t.TwoDigits) (zone hour minute second : Int) :
    (t.withTime zone hour minute second).TwoDigits :=
  ((ht.accept _ _).accept _ _).accept _ _

theorem TwoDigits.withDate (ht : t.TwoDigits) (day month year : Int)
    (weekday : Option Int) : (t.withDate day month year weekday).TwoDigits := by
  have hdate := (((ht.accept .day (toUInt16 day)).accept .month
    (toUInt16 month)).accept .century (toUInt16 year / 100)).accept .year
    (toUInt16 year % 100)
  cases weekday with
  | none => exact hdate
  | some weekday => exact hdate.accept _ _

end Time

namespace RTC

variable {rtc : RTC} {t : Time}

theorem setLocalHour_eq (rtc : RTC) (hour : Nat) :
    rtc.setLocalHour hour =
      rtc.setHour (((hour : Int) - rtc.time.timezone) % 24).toNat := by
  have hsmall : ((hour : Int) - rtc.time.timezone) % 24 % 2 ^ 16 =
      ((hour : Int) - rtc.time.timezone) % 24 := by omega
  unfold setLocalHour
  rw [addDays_tmod]
  dsimp only
  rw [hsmall]

theorem writeTime_registers (hheld : rtc.registers = t.encode)
    (hour minute second : Int) :
    (rtc.writeTime hour minute second).registers =
      (t.withTime rtc.time.timezone hour minute second).encode := by
  unfold writeTime
  rw [setLocalHour_eq]
  exact setValue_registers
    (setValue_registers (setValue_registers hheld .hour _) .minute _) .second _

theorem writeTime_time (rtc : RTC) (hour minute second : Int) :
    (rtc.writeTime hour minute second).time = rtc.time := by
  unfold writeTime
  rw [setLocalHour_eq]
  simp only [setSecond, setMinute, setHour, setValue_time]

theorem writeDate_registers (hheld : rtc.registers = t.encode)
    (day month year : Int) (weekday : Option Int) :
    (rtc.writeDate day month year weekday).registers =
      (t.withDate day month year weekday).encode := by
  have hdate := setValue_registers (setValue_registers (setValue_registers
    (setValue_registers hheld .day (toUInt16 day)) .month (toUInt16 month))
    .century (toUInt16 year / 100)) .year (toUInt16 year % 100)
  cases weekday with
  | none => exact hdate
  | some weekday => exact setValue_registers hdate .weekday _

theorem writeDate_time (rtc : RTC) (day month year : Int)
    (weekday : Option Int) :
    (rtc.writeDate day month year weekday).time = rtc.time := by
  cases weekday <;>
    simp only [writeDate, setDay, setMonth, setRealYear, setCentury, setYear,
      setWeekday, setValue_time]

/-- A clock two hours east of UTC, at the last second of a leap day. -/
def sampleClock : RTC := ⟨Time.sampleTime.encode, Time.sampleTime⟩

theorem sampleClock_registers :
    sampleClock.registers = Time.sampleTime.encode := rfl

end RTC

end X86Os32
