import X86Os32.Library.Dial
import X86Os32.User.TimeZone

namespace X86Os32

open Library

/-! Whole hours added to a time or taken from it: only the hour changes, and
behind or before midnight the date with it.  The date need not be valid. -/

namespace Time

def onClock (t : Time) (second minute hour : Nat) : Time :=
  { t with second := second, minute := minute, hour := hour }

def atMinute (t : Time) (minute : Nat) : Time := { t with minute := minute }

def atHour (t : Time) (hour : Nat) : Time := { t with hour := hour }

section Midnight

variable (t : Time) (second minute hour : Nat)

theorem carryYear_onClock : (t.onClock second minute hour).carryYear =
    t.carryYear.onClock second minute hour := by
  unfold carryYear
  rw [apply_ite (fun t => onClock t second minute hour)]
  rfl

theorem carryMonth_onClock : (t.onClock second minute hour).carryMonth =
    t.carryMonth.onClock second minute hour := by
  unfold carryMonth
  rw [apply_ite (fun t => onClock t second minute hour), ← carryYear_onClock]
  rfl

theorem carryDay_onClock : (t.onClock second minute hour).carryDay =
    t.carryDay.onClock second minute hour := by
  unfold carryDay
  rw [apply_ite (fun t => onClock t second minute hour), ← carryMonth_onClock]
  rfl

theorem borrowYear_onClock : (t.onClock second minute hour).borrowYear =
    t.borrowYear.onClock second minute hour := by
  unfold borrowYear
  rw [apply_ite (fun t => onClock t second minute hour)]
  rfl

theorem borrowMonth_onClock : (t.onClock second minute hour).borrowMonth =
    t.borrowMonth.onClock second minute hour := by
  unfold borrowMonth
  rw [apply_ite (fun t => onClock t second minute hour), ← borrowYear_onClock]
  rfl

theorem borrowDay_onClock : (t.onClock second minute hour).borrowDay =
    t.borrowDay.onClock second minute hour := by
  unfold borrowDay
  rw [apply_ite (fun t => onClock t second minute hour), ← borrowMonth_onClock]
  rfl

end Midnight

/-- A change of the date that leaves the time of day alone. -/
def KeepsClock (change : Time → Time) : Prop :=
  ∀ t second minute hour, change (t.onClock second minute hour) =
    (change t).onClock second minute hour

section KeepsClock

variable {change : Time → Time} (hkeeps : KeepsClock change) (t : Time)
include hkeeps

theorem KeepsClock.second : (change t).second = t.second := by
  have hsame := congrArg Time.second (hkeeps t t.second t.minute t.hour)
  exact hsame

theorem KeepsClock.minute : (change t).minute = t.minute := by
  have hsame := congrArg Time.minute (hkeeps t t.second t.minute t.hour)
  exact hsame

theorem KeepsClock.hour : (change t).hour = t.hour := by
  have hsame := congrArg Time.hour (hkeeps t t.second t.minute t.hour)
  exact hsame

theorem KeepsClock.atMinute (minute : Nat) :
    change (t.atMinute minute) = (change t).atMinute minute := by
  calc change (t.atMinute minute)
      = (change t).onClock t.second minute t.hour := hkeeps t _ _ _
    _ = (change t).onClock (change t).second minute (change t).hour := by
        rw [hkeeps.second, hkeeps.hour]

theorem KeepsClock.atHour (hour : Nat) :
    change (t.atHour hour) = (change t).atHour hour := by
  calc change (t.atHour hour)
      = (change t).onClock t.second t.minute hour := hkeeps t _ _ _
    _ = (change t).onClock (change t).second (change t).minute hour := by
        rw [hkeeps.second, hkeeps.minute]

end KeepsClock

theorem carryDay_keepsClock : KeepsClock carryDay := carryDay_onClock

theorem borrowDay_keepsClock : KeepsClock borrowDay := borrowDay_onClock

theorem carryHour_atMinute (t : Time) (minute : Nat) :
    (t.atMinute minute).carryHour = t.carryHour.atMinute minute := by
  unfold carryHour
  rw [apply_ite (fun t => atMinute t minute), ← carryDay_keepsClock.atMinute]
  rfl

theorem borrowHour_atMinute (t : Time) (minute : Nat) :
    (t.atMinute minute).borrowHour = t.borrowHour.atMinute minute := by
  unfold borrowHour
  rw [apply_ite (fun t => atMinute t minute), ← borrowDay_keepsClock.atMinute]
  rfl

/-! ### The dials of a clock -/

def minuteHand : Dial Time 60 where
  read t := t.minute
  write := atMinute
  read_write _ := rfl
  write_write := rfl

def hourHand : Dial Time 24 where
  read t := t.hour
  write := atHour
  read_write _ := rfl
  write_write := rfl

def minuteHandBack : Dial Time 60 where
  read t := 59 - t.minute
  write t n := t.atMinute (59 - n)
  read_write hn := Nat.sub_sub_self (Nat.le_of_lt_succ hn)
  write_write := rfl

def hourHandBack : Dial Time 24 where
  read t := 23 - t.hour
  write t n := t.atHour (23 - n)
  read_write hn := Nat.sub_sub_self (Nat.le_of_lt_succ hn)
  write_write := rfl

theorem increment16_mod (hlt : n + 1 < size) (hsize : size ≤ 60) :
    increment16 n % size = n + 1 := by
  have hword : n + 1 < 2 ^ 16 := by omega
  unfold increment16
  rw [Nat.mod_eq_of_lt hword, Nat.mod_eq_of_lt hlt]

theorem carryHour_minute (t : Time) : t.carryHour.minute = t.minute := by
  have hsame := congrArg Time.minute (carryHour_atMinute t t.minute)
  exact hsame

theorem borrowHour_minute (t : Time) : t.borrowHour.minute = t.minute := by
  have hsame := congrArg Time.minute (borrowHour_atMinute t t.minute)
  exact hsame

theorem minuteHand_turns : minuteHand.Turns carryMinute carryHour where
  turn t _ hlt := by
    change t.minute + 1 < 60 at hlt
    unfold carryMinute
    rw [increment16_mod hlt (Nat.le_refl 60)]
    exact if_pos (Nat.succ_ne_zero _)
  wrap t _ hlast := by
    have hminute : t.minute = 59 := Nat.succ.inj hlast
    unfold carryMinute
    rw [hminute]
    exact carryHour_atMinute t 0
  read_carry := carryHour_minute
  carry_write := carryHour_atMinute

theorem hourHand_turns : hourHand.Turns carryHour carryDay where
  turn t _ hlt := by
    change t.hour + 1 < 24 at hlt
    unfold carryHour
    rw [increment16_mod hlt (by decide)]
    exact if_pos (Nat.succ_ne_zero _)
  wrap t _ hlast := by
    have hhour : t.hour = 23 := Nat.succ.inj hlast
    unfold carryHour
    rw [hhour]
    exact carryDay_keepsClock.atHour t 0
  read_carry := carryDay_keepsClock.hour
  carry_write := carryDay_keepsClock.atHour

theorem minuteHandBack_turns :
    minuteHandBack.Turns borrowMinute borrowHour where
  turn t hshows hlt := by
    have hminute : 59 - (59 - t.minute) = t.minute :=
      congrArg Time.minute hshows.write_read
    change 59 - t.minute + 1 < 60 at hlt
    change _ = t.atMinute (59 - (59 - t.minute + 1))
    have hnext : 59 - (59 - t.minute + 1) = t.minute - 1 := by omega
    have hfull : t.minute ≠ 0 := by omega
    have hmore : t.minute - 1 ≠ 59 := by omega
    unfold borrowMinute
    dsimp only
    rw [if_neg hfull, hnext, if_pos hmore]
    rfl
  wrap t _ hlast := by
    change 59 - t.minute + 1 = 60 at hlast
    have hminute : t.minute = 0 := by omega
    unfold borrowMinute
    dsimp only
    rw [if_pos hminute, if_neg (fun hne => hne rfl)]
    exact borrowHour_atMinute t 59
  read_carry t := congrArg (59 - ·) (borrowHour_minute t)
  carry_write t n := borrowHour_atMinute t (59 - n)

theorem hourHandBack_turns : hourHandBack.Turns borrowHour borrowDay where
  turn t hshows hlt := by
    have hhour : 23 - (23 - t.hour) = t.hour :=
      congrArg Time.hour hshows.write_read
    change 23 - t.hour + 1 < 24 at hlt
    change _ = t.atHour (23 - (23 - t.hour + 1))
    have hnext : 23 - (23 - t.hour + 1) = t.hour - 1 := by omega
    have hfull : t.hour ≠ 0 := by omega
    have hmore : t.hour - 1 ≠ 23 := by omega
    unfold borrowHour
    dsimp only
    rw [if_neg hfull, hnext, if_pos hmore]
    rfl
  wrap t _ hlast := by
    change 23 - t.hour + 1 = 24 at hlast
    have hhour : t.hour = 0 := by omega
    unfold borrowHour
    dsimp only
    rw [if_pos hhour, if_neg (fun hne => hne rfl)]
    exact borrowDay_keepsClock.atHour t 23
  read_carry t := congrArg (23 - ·) (borrowDay_keepsClock.hour t)
  carry_write t n := borrowDay_keepsClock.atHour t (23 - n)

/-! ### Hours of 3600 seconds -/

variable {t : Time} {n : Nat}

theorem minuteHand_shows (hminute : t.minute < 60) : minuteHand.Shows t :=
  ⟨hminute, rfl⟩

theorem hourHand_shows (hhour : t.hour < 24) : hourHand.Shows t := ⟨hhour, rfl⟩

theorem minuteHandBack_shows (hminute : t.minute < 60) :
    minuteHandBack.Shows t where
  read_lt := Nat.lt_succ_of_le (Nat.sub_le _ _)
  write_read := congrArg t.atMinute
    (Nat.sub_sub_self (Nat.le_of_lt_succ hminute))

theorem hourHandBack_shows (hhour : t.hour < 24) : hourHandBack.Shows t where
  read_lt := Nat.lt_succ_of_le (Nat.sub_le _ _)
  write_read := congrArg t.atHour (Nat.sub_sub_self (Nat.le_of_lt_succ hhour))

theorem incrementSeconds_hours (hsecond : t.second < 60)
    (hminute : t.minute < 60) (hword : n < 2 ^ 15) :
    t.incrementSeconds (3600 * n) = carryHour^[n] t := by
  have hsum : add32 t.second (3600 * n) = t.second + 3600 * n :=
    add32_of_lt (by omega)
  obtain ⟨rest, hloop, hrest⟩ := incrementLoop_eq t (3600 * n)
  have hcount : (t.second + 3600 * n) / 60 = 60 * n := by omega
  have hsame : (t.second + 3600 * n) % 60 = t.second := by omega
  rw [hsum, hcount] at hloop
  rw [hsum, hsame] at hrest
  have hkept := (iterate_carryMinute_kept t (60 * n)).1
  have hturns := minuteHand_turns.iterate_mul (minuteHand_shows hminute) n
  have hsecond' : t.second % 2 ^ 16 = t.second := Nat.mod_eq_of_lt (by omega)
  unfold incrementSeconds
  rw [hsum, if_neg (by omega), hloop]
  dsimp only
  rw [hkept, hrest, hsecond', ← hkept, hturns]

theorem decrementSeconds_hours (hsecond : t.second < 60)
    (hminute : t.minute < 60) (hpos : 0 < n) :
    t.decrementSeconds (3600 * n : Nat) = .ok (borrowHour^[n] t) := by
  obtain ⟨k, rest, hloop, hamount, hle, hlt⟩ :=
    decrementLoop_eq t (3600 * n : Nat) hsecond
  have hmore : 0 < k := by omega
  have hrest : rest = 0 := by
    have hrange := hlt hmore
    omega
  have hcount : k = 60 * n := by omega
  have hkept := (iterate_borrowMinute_kept t (60 * n)).1
  have hturns :=
    minuteHandBack_turns.iterate_mul (minuteHandBack_shows hminute) n
  have hsecond' : (((t.second : Int) - 0) % 2 ^ 16).toNat = t.second := by omega
  unfold decrementSeconds
  rw [assert_of (by omega), ok_bind, hloop, hrest, hcount]
  dsimp only
  rw [hkept, hsecond', ← hkept, hturns]
  rfl

/-- The time `zone` hours later, with at most one midnight in between. -/
def shiftHours (t : Time) (zone : Int) : Time :=
  if t.hour + zone < 0 then t.borrowDay.atHour (t.hour + zone + 24).toNat
  else if t.hour + zone < 24 then t.atHour (t.hour + zone).toNat
  else t.carryDay.atHour (t.hour + zone - 24).toNat

theorem applyTimezone_hours (hsecond : t.second < 60) (hminute : t.minute < 60)
    (hhour : t.hour < 24) (hne : t.timezone ≠ 0) (hwest : -24 ≤ t.timezone)
    (heast : t.timezone ≤ 24) :
    t.applyTimezone = .ok (t.shiftHours t.timezone) := by
  unfold shiftHours
  rcases Int.lt_or_gt_of_ne hne with hneg | hpos
  · obtain ⟨n, hn⟩ := Int.eq_ofNat_of_zero_le
      (Int.neg_nonneg_of_nonpos (Int.le_of_lt hneg))
    have hzone : t.timezone = -n := by omega
    have hshows := hourHandBack_shows hhour
    rw [applyTimezone_backward hzone,
      decrementSeconds_hours hsecond hminute (by omega), hzone]
    congr 1
    split
    · next hover =>
      rw [hourHandBack_turns.iterate_of_ge hshows
        (by change 24 ≤ 23 - t.hour + n; omega) (by omega)]
      change t.borrowDay.atHour (23 - (23 - t.hour + n - 24)) = _
      congr 1
      omega
    · next hsame =>
      rw [if_pos (by omega), hourHandBack_turns.iterate_of_lt hshows
        (by change 23 - t.hour + n < 24; omega)]
      change t.atHour (23 - (23 - t.hour + n)) = _
      congr 1
      omega
  · obtain ⟨n, hn⟩ := Int.eq_ofNat_of_zero_le (Int.le_of_lt hpos)
    have hshows := hourHand_shows hhour
    rw [applyTimezone_forward hn (by omega) (by omega),
      incrementSeconds_hours hsecond hminute (by omega), hn, if_neg (by omega)]
    congr 1
    split
    · next hsame =>
      rw [hourHand_turns.iterate_of_lt hshows
        (by change t.hour + n < 24; omega)]
      change t.atHour (t.hour + n) = _
      congr 1
    · next hover =>
      rw [hourHand_turns.iterate_of_ge hshows
        (by change 24 ≤ t.hour + n; omega) (by omega)]
      change t.carryDay.atHour (t.hour + n - 24) = _
      congr 1
      omega

end Time

end X86Os32
