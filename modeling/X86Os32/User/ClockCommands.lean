import X86Os32.User.ClockSetting
import X86Os32.User.Strtol
import X86Os32.User.StringTokens

namespace X86Os32

open Library Library.Calendar
open OStream (Text)

/-! The commands `set time` and `set date` of the shell, on the characters of the
arguments.  The text that is printed is left out. -/

/-- What is entered for `set time`. -/
structure TimeEntry where
  hour : Int
  minute : Int
  second : Int
deriving DecidableEq

/-- What is entered for `set date`. -/
structure DateEntry where
  day : Int
  month : Int
  year : Int
  weekday : Option Int
deriving DecidableEq

namespace Shell

def delimiters : Text := [' ', ':', '/', '-', ',', '.'].map Char.toUInt8

/-- One call of `str->tok`: the token, and what is left of the string. -/
def tok (str : Text) : Text × Text :=
  (Words.first (Strings.isDelimiter delimiters) str,
    Words.behind (Strings.isDelimiter delimiters) str)

/-- This is what `tok` of the string object does with the part of the string that
it has not taken apart yet. -/
theorem tok_read {allocator : Allocator Strings.Pointer Strings.Byte}
    (hserves : allocator.Serves) {heap : Strings.Heap}
    {str delim : Strings.Object} {text : Text}
    (hstr : Strings.Object.Represents heap str text)
    (hdelim : Strings.Object.Represents heap delim delimiters)
    (htext : text.length < 2 ^ 31) (hindex : str.saveIndex ≤ text.length + 1) :
    Program.Returns (Strings.Object.tok allocator str delim) heap
      fun result heap' =>
        (∃ k ≤ text.length + 1, result.1 = { str with saveIndex := k } ∧
          text.drop k = (tok (text.drop str.saveIndex)).2) ∧
        Strings.Object.Represents heap' result.2 (tok (text.drop str.saveIndex)).1 := by
  apply (hdelim.tok htext (by decide) hserves hstr hindex rfl).mono
  rintro result heap' ⟨hleft, htoken⟩
  exact ⟨hleft, htoken.represents⟩

/-- `strtol` with the default arguments, which do not ask for errors. -/
def strtol (str : Text) : Int := (Strings.strtol str 0).1

/-- The numbers for `set time`, or none if its usage is printed. -/
def timeArguments (str : Text) : Option TimeEntry :=
  let (hour_s, str) := tok str
  let (minute_s, str) := tok str
  let (second_s, _) := tok str
  if hour_s.isEmpty ∨ minute_s.isEmpty ∨ second_s.isEmpty then none
  else some ⟨strtol hour_s, strtol minute_s, strtol second_s⟩

def dateArguments (str : Text) : Option DateEntry :=
  let (day_s, str) := tok str
  let (month_s, str) := tok str
  let (year_s, str) := tok str
  let (weekday_s, _) := tok str
  if day_s.isEmpty ∨ month_s.isEmpty ∨ year_s.isEmpty then none
  else some ⟨strtol day_s, strtol month_s, strtol year_s,
    if weekday_s.isEmpty then none else some (strtol weekday_s)⟩

def setTime (rtc : RTC) (str : Text) : RTC × Except Stop Unit :=
  match timeArguments str with
  | none => (rtc, .ok ())
  | some ⟨hour, minute, second⟩ => rtc.setTime hour minute second

def setDate (rtc : RTC) (str : Text) : RTC × Except Stop Unit :=
  match dateArguments str with
  | none => (rtc, .ok ())
  | some ⟨day, month, year, weekday⟩ => rtc.setDate day month year weekday

end Shell

namespace Time

/-- `new` is a valid time with the entered time of day, where the hour was
entered for a time zone. -/
structure HasTime (t : Time) (zone : Int) (entry : TimeEntry) (new : Time) :
    Prop where
  valid : new.Valid
  hour : ((new.hour : Int) + zone) % 24 = entry.hour
  minute : (new.minute : Int) = entry.minute
  second : (new.second : Int) = entry.second
  date : new.date = t.date
  weekday : new.weekday = t.weekday

/-- `new` is a valid time with the entered date. -/
structure HasDate (t : Time) (entry : DateEntry) (new : Time) : Prop where
  valid : new.Valid
  day : (new.day : Int) = entry.day
  month : (new.month : Int) = entry.month
  year : (new.date.year : Int) = entry.year
  weekday : (new.weekday : Int) = entry.weekday.getD t.weekday
  hour : new.hour = t.hour
  minute : new.minute = t.minute
  second : new.second = t.second

def Ignored (old value : Nat) : Prop := value > 99 ∨ value = old

/-- The entered numbers are ignored, or the registers hold them already. -/
def KeepsTime (t : Time) (zone : Int) (entry : TimeEntry) : Prop :=
  ((toUInt16 entry.hour : Int) - zone) % 24 = t.hour ∧
    Ignored t.minute (toUInt16 entry.minute) ∧
    Ignored t.second (toUInt16 entry.second)

def KeepsDate (t : Time) (entry : DateEntry) : Prop :=
  Ignored t.day (toUInt16 entry.day) ∧ Ignored t.month (toUInt16 entry.month) ∧
    Ignored t.century (toUInt16 entry.year / 100) ∧
    toUInt16 entry.year % 100 = t.year ∧
    ∀ w ∈ entry.weekday, Ignored t.weekday (toUInt16 w)

end Time

def TimeEntry.Valid (entry : TimeEntry) : Prop :=
  (0 ≤ entry.hour ∧ entry.hour < 24) ∧ (0 ≤ entry.minute ∧ entry.minute < 60) ∧
    0 ≤ entry.second ∧ entry.second < 60

def DateEntry.Valid (entry : DateEntry) : Prop :=
  ∃ d : Date, d.Valid ∧ d.year < 10000 ∧ entry.day = d.day ∧
    entry.month = d.month ∧ entry.year = d.year ∧
    ∀ w ∈ entry.weekday, 1 ≤ w ∧ w ≤ 7

namespace Time

variable {t : Time} {zone : Int}

theorem accepted_eq_iff {old value : Nat} :
    accepted old value = old ↔ Ignored old value := by
  unfold accepted Ignored
  split <;> omega

theorem withTime_encode_iff (ht : t.TwoDigits) (entry : TimeEntry) :
    (t.withTime zone entry.hour entry.minute entry.second).encode = t.encode ↔
      t.KeepsTime zone entry := by
  have hhour : (((toUInt16 entry.hour : Int) - zone) % 24).toNat = t.hour ↔
      ((toUInt16 entry.hour : Int) - zone) % 24 = t.hour := by omega
  rw [encode_eq_iff (ht.withTime _ _ _ _) ht]
  simp only [field_withTime]
  unfold KeepsTime
  rw [← hhour, ← accepted_eq_iff, ← accepted_eq_iff]
  constructor
  · intro hfields
    exact ⟨hfields .hour, hfields .minute, hfields .second⟩
  · rintro ⟨hhour, hminute, hsecond⟩ offset
    cases offset with
    | second => exact hsecond
    | minute => exact hminute
    | hour => exact hhour
    | weekday | day | month | year | century => rfl

theorem withDate_encode_iff (ht : t.TwoDigits) (entry : DateEntry) :
    (t.withDate entry.day entry.month entry.year entry.weekday).encode =
        t.encode ↔
      t.KeepsDate entry := by
  have hweekday :
      (entry.weekday.map toUInt16).elim t.weekday (accepted t.weekday) =
        t.weekday ↔ ∀ w ∈ entry.weekday, Ignored t.weekday (toUInt16 w) := by
    cases entry.weekday with
    | none => simp
    | some w => simp [accepted_eq_iff]
  rw [encode_eq_iff (ht.withDate _ _ _ _) ht]
  simp only [field_withDate]
  unfold KeepsDate
  rw [← hweekday, ← accepted_eq_iff, ← accepted_eq_iff, ← accepted_eq_iff]
  constructor
  · intro hfields
    exact ⟨hfields .day, hfields .month, hfields .century, hfields .year,
      hfields .weekday⟩
  · rintro ⟨hday, hmonth, hcentury, hyear, hweekday⟩ offset
    cases offset with
    | day => exact hday
    | month => exact hmonth
    | century => exact hcentury
    | year => exact hyear
    | weekday => exact hweekday
    | second | minute | hour => rfl

theorem Valid.withTime_hasTime (hvalid : t.Valid) {entry : TimeEntry}
    (htime : entry.Valid) :
    t.HasTime zone entry
      (t.withTime zone entry.hour entry.minute entry.second) := by
  obtain ⟨hour, minute, second⟩ := entry
  obtain ⟨⟨hhour, hhourLt⟩, ⟨hminute, hminuteLt⟩, hsecond, hsecondLt⟩ := htime
  obtain ⟨hour, rfl⟩ := Int.eq_ofNat_of_zero_le hhour
  obtain ⟨minute, rfl⟩ := Int.eq_ofNat_of_zero_le hminute
  obtain ⟨second, rfl⟩ := Int.eq_ofNat_of_zero_le hsecond
  dsimp only at *
  rw [withTime_eq (by omega) (by omega) (by omega)]
  generalize hnew : (((hour : Int) - zone) % 24).toNat = new
  exact
    { valid := hvalid.onClock (by omega) (by omega) (by omega)
      hour := by
        change ((new : Int) + zone) % 24 = hour
        omega
      minute := rfl
      second := rfl
      date := rfl
      weekday := rfl }

theorem HasTime.entry_valid {entry : TimeEntry} {new : Time}
    (hhas : t.HasTime zone entry new) : entry.Valid := by
  have hhour := hhas.hour
  have hminute := hhas.minute
  have hsecond := hhas.second
  have hminuteLt := hhas.valid.minute_lt
  have hsecondLt := hhas.valid.second_lt
  unfold TimeEntry.Valid
  omega

theorem withDate_weekday {d : Date} (hd : d.Valid) (hyear : d.year < 10000)
    {weekday : Option Int} (hweekday : ∀ w ∈ weekday, 1 ≤ w ∧ w ≤ 7) :
    t.withDate d.day d.month d.year weekday =
      t.onDate d (weekday.getD t.weekday).toNat := by
  cases weekday with
  | none => exact withDate_eq hd hyear
  | some w =>
      obtain ⟨hpos, hle⟩ := hweekday w rfl
      have hword : toUInt16 w = w.toNat := by
        unfold toUInt16
        omega
      calc t.withDate d.day d.month d.year (some w)
          = (t.withDate d.day d.month d.year none).accept .weekday
              (toUInt16 w) := rfl
        _ = (t.onDate d t.weekday).setField w.toNat .weekday := by
            rw [withDate_eq hd hyear, hword, accept_eq (by omega)]
        _ = _ := rfl

theorem Valid.withDate_hasDate (hvalid : t.Valid) {entry : DateEntry}
    (hdate : entry.Valid) :
    t.HasDate entry
      (t.withDate entry.day entry.month entry.year entry.weekday) := by
  obtain ⟨d, hd, hyear, hday, hmonth, hyearEq, hweekday⟩ := hdate
  have hbounds : 1 ≤ entry.weekday.getD t.weekday ∧
      entry.weekday.getD t.weekday ≤ 7 := by
    cases hentered : entry.weekday with
    | none =>
        exact ⟨Int.ofNat_le.mpr hvalid.weekday_pos,
          Int.ofNat_le.mpr hvalid.weekday_le⟩
    | some w => exact hweekday w hentered
  rw [hday, hmonth, hyearEq, withDate_weekday hd hyear hweekday]
  exact
    { valid := hvalid.onDate hd hyear (by omega)
      day := hday.symm
      month := hmonth.symm
      year := by rw [date_onDate, hyearEq]
      weekday := Int.toNat_of_nonneg (by omega)
      hour := rfl
      minute := rfl
      second := rfl }

theorem HasDate.entry_valid {entry : DateEntry} {new : Time}
    (hhas : t.HasDate entry new) : entry.Valid := by
  have hyearLt := hhas.valid.year_lt
  have hcenturyLt := hhas.valid.century_lt
  have hyear : new.date.year = 100 * new.century + new.year := rfl
  refine ⟨new.date, hhas.valid.date, by omega, hhas.day.symm, hhas.month.symm,
    hhas.year.symm, ?_⟩
  intro w hw
  have hweekday := hhas.weekday
  have hpos := hhas.valid.weekday_pos
  have hle := hhas.valid.weekday_le
  rw [Option.mem_def.mp hw, Option.getD_some] at hweekday
  omega

end Time

namespace RTC

open Time

variable {α : Type}

/-- The registers hold a valid time with exactly the values that were entered,
or what they held before. -/
def Atomic (rtc : RTC) (has : α → Time → Prop) (entered : Option α)
    (after : Registers) : Prop :=
  after = rtc.registers ∨
    ∃ entry ∈ entered, ∃ new, has entry new ∧ after = new.encode

variable {rtc : RTC} {t : Time}

theorem atomic_some_iff {has : α → Time → Prop} {entry : α} {u : Time}
    {after : Registers} {valid keeps : Prop} (hheld : rtc.registers = t.encode)
    (hafter : after = u.encode) (hkeeps : u.encode = t.encode ↔ keeps)
    (hvalid : valid → has entry u) (hhas : ∀ new, has entry new → valid) :
    rtc.Atomic has (some entry) after ↔ valid ∨ keeps := by
  unfold Atomic
  rw [hafter, hheld, hkeeps, or_comm]
  apply or_congr_left
  constructor
  · rintro ⟨_, hentered, new, hnew, -⟩
    cases hentered
    exact hhas new hnew
  · intro hentry
    exact ⟨entry, rfl, u, hvalid hentry, rfl⟩

theorem atomic_iff {has : α → Time → Prop} {run : α → Registers}
    {acceptable : α → Prop}
    (hsome : ∀ entry,
      rtc.Atomic has (some entry) (run entry) ↔ acceptable entry)
    (entered : Option α) :
    rtc.Atomic has entered (entered.elim rtc.registers run) ↔
      ∀ entry ∈ entered, acceptable entry := by
  cases entered with
  | none =>
      constructor
      · intro _ _ hnone
        cases hnone
      · intro _
        exact .inl rfl
  | some entry =>
      constructor
      · intro hatomic other hother
        cases hother
        exact (hsome entry).mp hatomic
      · intro hacceptable
        exact (hsome entry).mpr (hacceptable entry rfl)

theorem setTime_atomic_iff (hvalid : t.Valid)
    (hheld : rtc.registers = t.encode) (entry : TimeEntry) :
    rtc.Atomic (t.HasTime rtc.time.timezone) (some entry)
        (rtc.setTime entry.hour entry.minute entry.second).1.registers ↔
      entry.Valid ∨ t.KeepsTime rtc.time.timezone entry :=
  atomic_some_iff hheld
    ((updateTime_registers _).trans (writeTime_registers hheld _ _ _))
    (withTime_encode_iff hvalid.twoDigits entry) hvalid.withTime_hasTime
    fun _ hhas => hhas.entry_valid

theorem setDate_atomic_iff (hvalid : t.Valid)
    (hheld : rtc.registers = t.encode) (entry : DateEntry) :
    rtc.Atomic t.HasDate (some entry)
        (rtc.setDate entry.day entry.month entry.year
          entry.weekday).1.registers ↔
      entry.Valid ∨ t.KeepsDate entry :=
  atomic_some_iff hheld
    ((updateTime_registers _).trans (writeDate_registers hheld _ _ _ _))
    (withDate_encode_iff hvalid.twoDigits entry) hvalid.withDate_hasDate
    fun _ hhas => hhas.entry_valid

theorem setTime_command_iff (hvalid : t.Valid)
    (hheld : rtc.registers = t.encode) (str : Text) :
    rtc.Atomic (t.HasTime rtc.time.timezone) (Shell.timeArguments str)
        (Shell.setTime rtc str).1.registers ↔
      ∀ entry ∈ Shell.timeArguments str,
        entry.Valid ∨ t.KeepsTime rtc.time.timezone entry := by
  have hcommand : (Shell.setTime rtc str).1.registers =
      (Shell.timeArguments str).elim rtc.registers fun entry =>
        (rtc.setTime entry.hour entry.minute entry.second).1.registers := by
    unfold Shell.setTime
    cases Shell.timeArguments str <;> rfl
  rw [hcommand]
  exact atomic_iff (setTime_atomic_iff hvalid hheld) _

theorem setDate_command_iff (hvalid : t.Valid)
    (hheld : rtc.registers = t.encode) (str : Text) :
    rtc.Atomic t.HasDate (Shell.dateArguments str)
        (Shell.setDate rtc str).1.registers ↔
      ∀ entry ∈ Shell.dateArguments str,
        entry.Valid ∨ t.KeepsDate entry := by
  have hcommand : (Shell.setDate rtc str).1.registers =
      (Shell.dateArguments str).elim rtc.registers fun entry =>
        (rtc.setDate entry.day entry.month entry.year
          entry.weekday).1.registers := by
    unfold Shell.setDate
    cases Shell.dateArguments str <;> rfl
  rw [hcommand]
  exact atomic_iff (setDate_atomic_iff hvalid hheld) _

/-- The two commands are atomic just when the numbers they read are valid or
have no effect, whatever the numbers are. -/
theorem set_atomic_iff (hvalid : t.Valid) (hheld : rtc.registers = t.encode) :
    (∀ str : Text,
      rtc.Atomic (t.HasTime rtc.time.timezone) (Shell.timeArguments str)
          (Shell.setTime rtc str).1.registers ↔
        ∀ entry ∈ Shell.timeArguments str,
          entry.Valid ∨ t.KeepsTime rtc.time.timezone entry) ∧
    (∀ str : Text,
      rtc.Atomic t.HasDate (Shell.dateArguments str)
          (Shell.setDate rtc str).1.registers ↔
        ∀ entry ∈ Shell.dateArguments str,
          entry.Valid ∨ t.KeepsDate entry) ∧
    (∀ entry : TimeEntry,
      rtc.Atomic (t.HasTime rtc.time.timezone) (some entry)
          (rtc.setTime entry.hour entry.minute entry.second).1.registers ↔
        entry.Valid ∨ t.KeepsTime rtc.time.timezone entry) ∧
    ∀ entry : DateEntry,
      rtc.Atomic t.HasDate (some entry)
          (rtc.setDate entry.day entry.month entry.year
            entry.weekday).1.registers ↔
        entry.Valid ∨ t.KeepsDate entry :=
  ⟨setTime_command_iff hvalid hheld, setDate_command_iff hvalid hheld,
    setTime_atomic_iff hvalid hheld, setDate_atomic_iff hvalid hheld⟩

theorem set_atomic_iff_noon :
    sampleClock.Atomic (sampleTime.HasTime 2)
      (Shell.timeArguments ("12:30:15".toList.map Char.toUInt8))
      (Shell.setTime sampleClock
        ("12:30:15".toList.map Char.toUInt8)).1.registers := by
  have hentered : Shell.timeArguments ("12:30:15".toList.map Char.toUInt8) =
      some ⟨12, 30, 15⟩ := by decide +kernel
  have hatomic := set_atomic_iff sampleTime_valid sampleClock_registers
  apply (hatomic.1 _).mpr
  intro entry hread
  cases hentered.symm.trans hread
  exact .inl ⟨by decide, by decide, by decide, by decide⟩

/-- A minute of 61 is stored, together with the hour and the second. -/
theorem set_not_atomic :
    ¬∀ (rtc : RTC) (t : Time) (str : Text), t.Valid →
      rtc.registers = t.encode →
      rtc.Atomic (t.HasTime rtc.time.timezone) (Shell.timeArguments str)
        (Shell.setTime rtc str).1.registers ∧
      rtc.Atomic t.HasDate (Shell.dateArguments str)
        (Shell.setDate rtc str).1.registers := by
  intro hall
  have hentered : Shell.timeArguments ("12:61:0".toList.map Char.toUInt8) =
      some ⟨12, 61, 0⟩ := by decide +kernel
  have hatomic := (hall sampleClock sampleTime
    ("12:61:0".toList.map Char.toUInt8) sampleTime_valid rfl).1
  rcases (setTime_command_iff sampleTime_valid rfl _).mp hatomic _ hentered with
    ⟨-, hminute, -⟩ | ⟨hhour, -⟩
  · exact absurd hminute.2 (by decide)
  · exact absurd hhour (by decide)

end RTC

end X86Os32
