import X86Os32.User.TimeArithmetic

namespace X86Os32

open Library Library.Calendar

/-! Bringing a time to its time zone. -/

namespace Time

def hoursToSeconds (x : Int) : Int := x * 60 * 60

def setTimezone (t : Time) (zone : Int16) : Time :=
  { t with timezone := zone.toInt }

/-- The argument of `increment_seconds` is converted to `uint32_t`. -/
def applyTimezone (t : Time) : Except Stop Time :=
  if t.timezone > 0 then
    .ok (t.incrementSeconds (hoursToSeconds t.timezone % 2 ^ 32).toNat)
  else t.decrementSeconds (hoursToSeconds (-t.timezone))

/-- The calendar time `t'` lies `amount` seconds after `t`, and has the weekday
of its date. -/
structure Later (t : Time) (amount : Int) (t' : Time) : Prop where
  valid : t'.Valid
  seconds : (t'.seconds : Int) = t.seconds + amount
  weekday : (t'.weekday : Int) = ((t.weekday : Int) - 1 +
    ((t'.seconds : Int) / 86400 - (t.seconds : Int) / 86400)) % 7 + 1
  timezone : t'.timezone = t.timezone

/-- `apply_timezone` comes to its end, `timezone` hours later. -/
def AppliesTimezone (t : Time) : Prop :=
  ∃ t', t.applyTimezone = .ok t' ∧ t.Later (3600 * t.timezone) t'

variable {t : Time} {n : Nat}

theorem applyTimezone_forward (hzone : t.timezone = n) (hpos : 0 < n)
    (hword : n < 2 ^ 15) :
    t.applyTimezone = .ok (t.incrementSeconds (3600 * n)) := by
  have hseconds : (hoursToSeconds t.timezone % 2 ^ 32).toNat = 3600 * n := by
    unfold hoursToSeconds
    omega
  unfold applyTimezone
  rw [if_pos (by omega), hseconds]

theorem applyTimezone_backward (hzone : t.timezone = -n) :
    t.applyTimezone = t.decrementSeconds (3600 * n : Nat) := by
  have hseconds : hoursToSeconds (-t.timezone) = (3600 * n : Nat) := by
    unfold hoursToSeconds
    omega
  unfold applyTimezone
  rw [if_neg (by omega), hseconds]

theorem AppliesTimezone.forward (hvalid : t.Valid) (hzone : t.timezone = n)
    (hpos : 0 < n) (hword : n < 2 ^ 15)
    (hend : t.seconds + 3600 * n < cycleSeconds) : t.AppliesTimezone := by
  have hsecond := hvalid.second_lt
  have hweekday := hvalid.weekday_pos
  obtain ⟨hvalid', hseconds', hweekday', htimezone'⟩ :=
    incrementSeconds_spec hvalid (show t.second + 3600 * n < 2 ^ 32 by omega)
  rw [Nat.mod_eq_of_lt hend] at hseconds'
  refine ⟨_, applyTimezone_forward hzone hpos hword, hvalid', ?_, ?_, htimezone'⟩
  · rw [hseconds', hzone]
    push_cast
    rfl
  · rw [hweekday', hseconds']
    unfold weekdayAfter
    omega

theorem AppliesTimezone.backward (hvalid : t.Valid) (hzone : t.timezone = -n)
    (hpos : 0 < n) (hstart : 3600 * n ≤ t.seconds) : t.AppliesTimezone := by
  obtain ⟨t', hok, hvalid', hseconds', hweekday', htimezone'⟩ :=
    decrementSeconds_spec (n := 3600 * n) hvalid (by omega) hstart
  have hweekday := hvalid'.weekday_pos
  have hweekdayLe := hvalid'.weekday_le
  refine ⟨t', (applyTimezone_backward hzone).trans hok, hvalid', by omega, ?_,
    htimezone'⟩
  rw [← hweekday']
  unfold weekdayAfter
  omega

/-- The time zone zero is sent to `decrement_seconds`, whose assertion demands
a positive amount. -/
theorem applyTimezone_zero (hzone : t.timezone = 0) :
    t.applyTimezone = .error (.assertionFailed "amount > 0") := by
  unfold applyTimezone
  rw [hzone]
  rfl

theorem Valid.setTimezone (hvalid : t.Valid) (zone : Int16) :
    (t.setTimezone zone).Valid :=
  { hvalid with }

/-- The time is shifted as demanded just when there is something to shift. -/
theorem applyTimezone_exact_iff {zone : Int16} (hvalid : t.Valid)
    (hstart : 0 ≤ (t.seconds : Int) + 3600 * zone.toInt)
    (hend : (t.seconds : Int) + 3600 * zone.toInt < cycleSeconds) :
    (t.setTimezone zone).AppliesTimezone ↔ zone ≠ 0 := by
  have hvalid' := hvalid.setTimezone zone
  have hsame : (t.setTimezone zone).seconds = t.seconds := rfl
  have hzone : (t.setTimezone zone).timezone = zone.toInt := rfl
  have hword := zone.toInt_lt
  constructor
  · rintro ⟨t', hok, -⟩ rfl
    rw [applyTimezone_zero rfl] at hok
    cases hok
  · intro hne
    have hnonzero : zone.toInt ≠ 0 := fun hzero =>
      hne (Int16.toInt_inj.mp hzero)
    rcases Int.lt_or_gt_of_ne hnonzero with hwest | heast
    · obtain ⟨n, hn⟩ := Int.eq_ofNat_of_zero_le (Int.neg_nonneg_of_nonpos
        (Int.le_of_lt hwest))
      have hback : zone.toInt = -n := by omega
      exact .backward hvalid' (hzone.trans hback) (by omega) (by omega)
    · obtain ⟨n, hn⟩ := Int.eq_ofNat_of_zero_le (Int.le_of_lt heast)
      exact .forward hvalid' (hzone.trans hn) (by omega) (by omega) (by omega)

theorem applyTimezone_exact_iff_leap_day :
    (sampleTime.setTimezone (-5)).AppliesTimezone ↔ (-5 : Int16) ≠ 0 :=
  applyTimezone_exact_iff sampleTime_valid (by decide) (by decide)

/-- A clock that is set to the time zone zero does not show the time. -/
theorem applyTimezone_stops :
    ¬∀ (t : Time) (zone : Int16), t.Valid →
      0 ≤ (t.seconds : Int) + 3600 * zone.toInt →
      (t.seconds : Int) + 3600 * zone.toInt < cycleSeconds →
      (t.setTimezone zone).AppliesTimezone := by
  intro hall
  obtain ⟨t', hok, -⟩ :=
    hall sampleTime 0 sampleTime_valid (by decide) (by decide)
  rw [applyTimezone_zero rfl] at hok
  cases hok

end Time

end X86Os32
