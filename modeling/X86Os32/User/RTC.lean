import X86Os32.User.TimeHours

namespace X86Os32

/-! The real time clock of `user/time/rtc.cc`.  A register gives back the byte
that was written last, and no update is in progress when one is read or
written. -/

/-- The registers of the CMOS that hold the date and the time. -/
inductive Offset where
  | second
  | minute
  | hour
  | weekday
  | day
  | month
  | year
  | century
deriving DecidableEq, Repr

abbrev Registers := Offset → UInt8

def bcdToInt (bcd : UInt8) : Nat := (bcd.toNat >>> 4) * 10 + (bcd.toNat &&& 0xf)

def intToBcd (i : Nat) : UInt8 := UInt8.ofNat (((i / 10) <<< 4) + i % 10)

/-- The members of `CMOS` and `Time` that the class has inherited. -/
structure RTC where
  registers : Registers
  time : Time

namespace RTC

variable (rtc : RTC)

def readPort (offset : Offset) : UInt8 := rtc.registers offset

def writePort (offset : Offset) (value : UInt8) : RTC :=
  { rtc with registers := fun other =>
      if other = offset then value else rtc.registers other }

def getValue (offset : Offset) : Nat := bcdToInt (rtc.readPort offset)

def getSecond : Nat := rtc.getValue .second

def getMinute : Nat := rtc.getValue .minute

def getHour : Nat := rtc.getValue .hour

def getDay : Nat := rtc.getValue .day

def getMonth : Nat := rtc.getValue .month

def getYear : Nat := rtc.getValue .year

def getWeekday : Nat := rtc.getValue .weekday

def getCentury : Nat := rtc.getValue .century

/-- Values above 99 are only reported to the debug stream. -/
def setValue (offset : Offset) (value : Nat) : RTC :=
  if value > 99 then rtc else rtc.writePort offset (intToBcd value)

def setSecond (value : Nat) : RTC := rtc.setValue .second value

def setMinute (value : Nat) : RTC := rtc.setValue .minute value

def setHour (value : Nat) : RTC := rtc.setValue .hour value

def setDay (value : Nat) : RTC := rtc.setValue .day value

def setMonth (value : Nat) : RTC := rtc.setValue .month value

def setYear (value : Nat) : RTC := rtc.setValue .year value

def setWeekday (value : Nat) : RTC := rtc.setValue .weekday value

def setCentury (value : Nat) : RTC := rtc.setValue .century value

/-- `while (h < 0) h += 24;` -/
def addDays (h : Int) : Int := if h < 0 then addDays (h + 24) else h
termination_by (-h).toNat

def setLocalHour (hour : Nat) : RTC :=
  let h := addDays (Int.tmod (hour - rtc.time.timezone) 24)
  rtc.setHour (h % 2 ^ 16).toNat

def setRealYear (year : Nat) : RTC :=
  (rtc.setCentury (year / 100)).setYear (year % 100)

/-- The fields that `update_time` assigns before it applies the time zone. -/
def readTime : Time where
  second := rtc.getSecond
  minute := rtc.getMinute
  hour := rtc.getHour
  day := rtc.getDay
  month := rtc.getMonth
  year := rtc.getYear
  weekday := rtc.getWeekday
  century := rtc.getCentury
  timezone := rtc.time.timezone

/-- A failing assertion stops the processor before another field changes. -/
def updateTime : RTC × Except Stop Unit :=
  match rtc.readTime.applyTimezone with
  | .ok time => ({ rtc with time := time }, .ok ())
  | .error stop => ({ rtc with time := rtc.readTime }, .error stop)

end RTC

/-! ### What the registers hold -/

namespace Time

def field (t : Time) : Offset → Nat
  | .second => t.second
  | .minute => t.minute
  | .hour => t.hour
  | .weekday => t.weekday
  | .day => t.day
  | .month => t.month
  | .year => t.year
  | .century => t.century

def setField (t : Time) (value : Nat) : Offset → Time
  | .second => { t with second := value }
  | .minute => { t with minute := value }
  | .hour => { t with hour := value }
  | .weekday => { t with weekday := value }
  | .day => { t with day := value }
  | .month => { t with month := value }
  | .year => { t with year := value }
  | .century => { t with century := value }

def inZone (t : Time) (zone : Int) : Time := { t with timezone := zone }

def encode (t : Time) : Registers := fun offset => intToBcd (t.field offset)

@[simp] theorem field_setField (t : Time) (value : Nat) (offset other : Offset) :
    (t.setField value offset).field other =
      if other = offset then value else t.field other := by
  cases offset <;> cases other <;> rfl

end Time

theorem bcdToInt_intToBcd : ∀ i < 100, bcdToInt (intToBcd i) = i := by
  decide +kernel

def Time.TwoDigits (t : Time) : Prop := ∀ offset, t.field offset < 100

theorem Time.Valid.twoDigits {t : Time} (hvalid : t.Valid) : t.TwoDigits := by
  have hsecond := hvalid.second_lt
  have hminute := hvalid.minute_lt
  have hhour := hvalid.hour_lt
  have hmonth : t.month ≤ 12 := hvalid.date.month_le
  have hday : t.day ≤ _ := hvalid.date.day_le
  have hlength := Library.Calendar.monthLength_le t.date.year t.date.month
  have hweekday := hvalid.weekday_le
  intro offset
  cases offset with
  | second => exact Nat.lt_trans hsecond (by decide)
  | minute => exact Nat.lt_trans hminute (by decide)
  | hour => exact Nat.lt_trans hhour (by decide)
  | weekday => exact Nat.lt_of_le_of_lt hweekday (by decide)
  | day => exact Nat.lt_of_le_of_lt (Nat.le_trans hday hlength) (by decide)
  | month => exact Nat.lt_of_le_of_lt hmonth (by decide)
  | year => exact hvalid.year_lt
  | century => exact hvalid.century_lt

namespace Time

variable {t other : Time}

theorem encode_eq_iff (ht : t.TwoDigits) (hother : other.TwoDigits) :
    t.encode = other.encode ↔ ∀ offset, t.field offset = other.field offset := by
  constructor
  · intro hsame offset
    have hbcd := congrArg bcdToInt (congrFun hsame offset)
    unfold encode at hbcd
    rwa [bcdToInt_intToBcd _ (ht offset),
      bcdToInt_intToBcd _ (hother offset)] at hbcd
  · intro hsame
    funext offset
    unfold encode
    rw [hsame offset]

/-- The time with a value in a field, unless the value is refused. -/
def accept (t : Time) (offset : Offset) (value : Nat) : Time :=
  if value > 99 then t else t.setField value offset

theorem TwoDigits.accept (ht : t.TwoDigits) (offset : Offset) (value : Nat) :
    (t.accept offset value).TwoDigits := by
  intro other
  unfold Time.accept
  split
  · exact ht other
  · next hsmall =>
    rw [field_setField]
    split
    · omega
    · exact ht other

end Time

namespace RTC

variable {rtc : RTC} {t : Time}

@[simp] theorem setValue_time (rtc : RTC) (offset : Offset) (value : Nat) :
    (rtc.setValue offset value).time = rtc.time := by
  unfold setValue
  split <;> rfl

theorem setValue_registers (hheld : rtc.registers = t.encode) (offset : Offset)
    (value : Nat) :
    (rtc.setValue offset value).registers = (t.accept offset value).encode := by
  unfold setValue Time.accept
  split
  · exact hheld
  · funext other
    change (if other = offset then intToBcd value else rtc.registers other) =
      intToBcd ((t.setField value offset).field other)
    rw [hheld, Time.field_setField, apply_ite intToBcd]
    rfl

theorem getValue_eq (ht : t.TwoDigits) (hheld : rtc.registers = t.encode)
    (offset : Offset) : rtc.getValue offset = t.field offset := by
  unfold getValue readPort
  rw [hheld]
  exact bcdToInt_intToBcd _ (ht offset)

theorem readTime_eq (ht : t.TwoDigits) (hheld : rtc.registers = t.encode) :
    rtc.readTime = t.inZone rtc.time.timezone := by
  unfold readTime getSecond getMinute getHour getDay getMonth getYear getWeekday
    getCentury
  simp only [getValue_eq ht hheld]
  rfl

@[simp] theorem updateTime_registers (rtc : RTC) :
    rtc.updateTime.1.registers = rtc.registers := by
  unfold updateTime
  split <;> rfl

/-- Also the truncated remainder of a negative number is brought to the hours
of a day. -/
theorem addDays_tmod (x : Int) : addDays (Int.tmod x 24) = x % 24 := by
  have hremainder := Int.tmod_eq_emod (a := x) (b := 24)
  have hday : (24 : Int).natAbs = 24 := rfl
  rw [hday] at hremainder
  rw [addDays]
  split
  · next hneg =>
    have hsmall : Int.tmod x 24 + 24 = x % 24 := by
      split at hremainder <;> omega
    rw [addDays, hsmall, if_neg (by omega)]
  · split at hremainder <;> omega

end RTC

end X86Os32
