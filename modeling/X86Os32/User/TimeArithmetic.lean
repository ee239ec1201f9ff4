import X86Os32.User.TimeCalendar

namespace X86Os32

open Library Library.Calendar

/-! `increment_seconds` and `decrement_seconds` are addition and subtraction in
the calendar, and undo each other. -/

namespace Time

variable {t : Time} {amount n : Nat}

/-- The seconds of the 10000 years that the fields can tell apart. -/
def cycleSeconds : Nat := cycleDays * 86400

theorem iterate_carryMinute_kept (t : Time) (k : Nat) :
    (carryMinute^[k] t).second = t.second ∧
      (carryMinute^[k] t).timezone = t.timezone := by
  induction k with
  | zero => exact ⟨rfl, rfl⟩
  | succ k ih => simp [Function.iterate_succ_apply', ih]

theorem iterate_borrowMinute_kept (t : Time) (k : Nat) :
    (borrowMinute^[k] t).second = t.second ∧
      (borrowMinute^[k] t).timezone = t.timezone := by
  induction k with
  | zero => exact ⟨rfl, rfl⟩
  | succ k ih => simp [Function.iterate_succ_apply', ih]

theorem seconds_div_day (hvalid : t.Valid) :
    t.seconds / 86400 = t.minutes / 1440 := by
  have hsecond := hvalid.second_lt
  unfold seconds
  omega

theorem Valid.setSecond (hvalid : t.Valid) {second : Nat}
    (hsecond : second < 60) : Valid { t with second := second } :=
  { hvalid with second_lt := hsecond }

theorem seconds_mod (minutes : Nat) {second : Nat} (hsecond : second < 60) :
    (minutes * 60 + second) % cycleSeconds =
      minutes % (cycleDays * 1440) * 60 + second := by
  unfold cycleSeconds cycleDays
  omega

theorem incrementSeconds_spec (hvalid : t.Valid)
    (hfits : t.second + amount < 2 ^ 32) :
    (t.incrementSeconds amount).Valid ∧
      (t.incrementSeconds amount).seconds =
        (t.seconds + amount) % cycleSeconds ∧
      (t.incrementSeconds amount).weekday = weekdayAfter t.weekday
        ((t.seconds + amount) / 86400 - t.seconds / 86400) ∧
      (t.incrementSeconds amount).timezone = t.timezone := by
  obtain ⟨rest, hloop, hrest⟩ := incrementLoop_eq t amount
  rw [add32_of_lt hfits] at hloop hrest
  obtain ⟨hvalid', hminutes, hweekday⟩ :=
    iterate_carryMinute hvalid ((t.second + amount) / 60)
  obtain ⟨hsecond, htimezone⟩ :=
    iterate_carryMinute_kept t ((t.second + amount) / 60)
  have hlt : (t.second + amount) % 60 < 60 := Nat.mod_lt _ (by decide)
  have hresult : t.incrementSeconds amount =
      { carryMinute^[(t.second + amount) / 60] t with
        second := (t.second + amount) % 60 } := by
    unfold incrementSeconds
    rw [add32_of_lt hfits, if_neg (Nat.not_lt.mpr (Nat.le_add_right _ _)), hloop]
    dsimp only
    rw [hsecond, hrest, Nat.mod_eq_of_lt (Nat.lt_trans hlt (by decide))]
  have hsum : t.seconds + amount =
      (t.minutes + (t.second + amount) / 60) * 60 + (t.second + amount) % 60 := by
    unfold seconds
    omega
  rw [hresult]
  refine ⟨hvalid'.setSecond hlt, ?_, ?_, htimezone⟩
  · rw [hsum, seconds_mod _ hlt, ← hminutes]
    rfl
  · have hday : (t.seconds + amount) / 86400 =
        (t.minutes + (t.second + amount) / 60) / 1440 := by omega
    rw [hday, seconds_div_day hvalid]
    exact hweekday

theorem incrementSeconds_overflow (hword : amount < 2 ^ 32)
    (hsecond : t.second < 60) (hoverflow : 2 ^ 32 ≤ t.second + amount) :
    t.incrementSeconds amount = t := by
  have hwrapped : add32 t.second amount < t.second := by
    unfold add32
    omega
  unfold incrementSeconds
  rw [if_pos hwrapped]

theorem decrementSeconds_spec (hvalid : t.Valid) (hpos : 0 < n)
    (hle : n ≤ t.seconds) :
    ∃ t', t.decrementSeconds n = .ok t' ∧ t'.Valid ∧
      t'.seconds + n = t.seconds ∧
      weekdayAfter t'.weekday (t.seconds / 86400 - t'.seconds / 86400) =
        t.weekday ∧
      t'.timezone = t.timezone := by
  have hsecond := hvalid.second_lt
  obtain ⟨k, rest, hloop, hamount, hrestLe, hrestLt⟩ :=
    decrementLoop_eq t n hsecond
  have hrange : (t.second : Int) - rest < 60 := by
    rcases Nat.eq_zero_or_pos k with rfl | hk
    · omega
    · exact hrestLt hk
  have hk : k ≤ t.minutes := by
    unfold seconds at hle
    omega
  obtain ⟨hvalid', hminutes, hweekday⟩ := iterate_borrowMinute hvalid k hk
  obtain ⟨hkept, htimezone⟩ := iterate_borrowMinute_kept t k
  obtain ⟨second, hnew⟩ := Int.eq_ofNat_of_zero_le
    (by omega : 0 ≤ (t.second : Int) - rest)
  have hlt : second < 60 := by omega
  have hvalidNew := hvalid'.setSecond hlt
  refine ⟨{ borrowMinute^[k] t with second := second }, ?_, hvalidNew, ?_, ?_,
    htimezone⟩
  · unfold decrementSeconds
    rw [assert_of (by omega), ok_bind, hloop]
    dsimp only
    rw [hkept, hnew, Int.emod_eq_of_lt (by omega) (by omega), Int.toNat_natCast]
    rfl
  · change (borrowMinute^[k] t).minutes * 60 + second + n = t.seconds
    unfold seconds
    omega
  · have hsame : minutes { borrowMinute^[k] t with second := second } =
        t.minutes - k := by
      change (borrowMinute^[k] t).minutes = _
      omega
    rw [seconds_div_day hvalidNew, seconds_div_day hvalid, hsame]
    exact hweekday

theorem decrementSeconds_incrementSeconds (hvalid : t.Valid) (hpos : 0 < n)
    (hword : n < 2 ^ 31) (hend : t.seconds + n < cycleSeconds) :
    (t.incrementSeconds n).decrementSeconds n = .ok t := by
  have hsecond := hvalid.second_lt
  obtain ⟨hvalid1, hseconds1, hweekday1, htimezone1⟩ :=
    incrementSeconds_spec hvalid (show t.second + n < 2 ^ 32 by omega)
  rw [Nat.mod_eq_of_lt hend] at hseconds1
  obtain ⟨t', hok, hvalid2, hseconds2, hweekday2, htimezone2⟩ :=
    decrementSeconds_spec hvalid1 hpos (by omega)
  have hseconds : t'.seconds = t.seconds := by omega
  have hweekday : t'.weekday = t.weekday := by
    rw [hweekday1, hseconds1, hseconds] at hweekday2
    have := hvalid.weekday_pos
    have := hvalid.weekday_le
    have := hvalid2.weekday_pos
    have := hvalid2.weekday_le
    unfold weekdayAfter at hweekday2
    omega
  rw [hok, hvalid2.eq_of_seconds_eq hvalid hseconds hweekday
    (htimezone2.trans htimezone1)]

theorem incrementSeconds_decrementSeconds (hvalid : t.Valid) (hpos : 0 < n)
    (hword : n < 2 ^ 31) (hstart : n ≤ t.seconds) :
    ∃ t', t.decrementSeconds n = .ok t' ∧ t'.incrementSeconds n = t := by
  obtain ⟨t', hok, hvalid1, hseconds1, hweekday1, htimezone1⟩ :=
    decrementSeconds_spec hvalid hpos hstart
  have hsecond := hvalid1.second_lt
  obtain ⟨hvalid2, hseconds2, hweekday2, htimezone2⟩ :=
    incrementSeconds_spec hvalid1 (show t'.second + n < 2 ^ 32 by omega)
  have hlt : t.seconds < cycleSeconds := by
    have hminutes := hvalid.minutes_lt
    have hsecond' := hvalid.second_lt
    unfold seconds cycleSeconds
    omega
  rw [hseconds1] at hseconds2 hweekday2
  rw [Nat.mod_eq_of_lt hlt] at hseconds2
  exact ⟨t', hok, hvalid2.eq_of_seconds_eq hvalid hseconds2
    (hweekday2.trans hweekday1) (htimezone2.trans htimezone1)⟩

/-- `increment_seconds` ends in the valid time that lies `amount` seconds later,
modulo 10000 years, and counts the midnights in between as weekdays.  An amount
that overflows with the seconds is refused. -/
theorem incrementSeconds_calendar (hvalid : t.Valid) (hword : amount < 2 ^ 32) :
    (t.second + amount < 2 ^ 32 →
      (t.incrementSeconds amount).Valid ∧
      (t.incrementSeconds amount).seconds =
        (t.seconds + amount) % cycleSeconds ∧
      (t.incrementSeconds amount).weekday = weekdayAfter t.weekday
        ((t.seconds + amount) / 86400 - t.seconds / 86400) ∧
      (t.incrementSeconds amount).timezone = t.timezone) ∧
    (2 ^ 32 ≤ t.second + amount → t.incrementSeconds amount = t) :=
  ⟨incrementSeconds_spec hvalid, incrementSeconds_overflow hword hvalid.second_lt⟩

def sampleTime : Time where
  second := 59
  minute := 59
  hour := 23
  day := 29
  month := 2
  year := 4
  weekday := 7
  century := 0
  timezone := 2

theorem sampleTime_valid : sampleTime.Valid :=
  ⟨by decide, by decide, by decide,
    ⟨by decide, by decide, by decide, by decide⟩, by decide, by decide,
    by decide, by decide⟩

theorem incrementSeconds_calendar_leap_day :
    (sampleTime.incrementSeconds 61).weekday = 1 ∧
      (sampleTime.incrementSeconds 61).seconds = sampleTime.seconds + 61 ∧
      sampleTime.incrementSeconds (2 ^ 32 - 1) = sampleTime := by
  have hcalendar := incrementSeconds_calendar sampleTime_valid
    (show 61 < 2 ^ 32 by decide)
  obtain ⟨-, hseconds, hweekday, -⟩ := hcalendar.1 (by decide)
  refine ⟨?_, ?_, ?_⟩
  · rw [hweekday]
    decide
  · rw [hseconds]
    decide
  · exact (incrementSeconds_calendar sampleTime_valid (by decide)).2 (by decide)

/-- Within the 10000 years the two directions undo each other. -/
theorem decrement_undoes_increment (hvalid : t.Valid) (hpos : 0 < n)
    (hword : n < 2 ^ 31) :
    (t.seconds + n < cycleSeconds →
      (t.incrementSeconds n).decrementSeconds n = .ok t) ∧
    (n ≤ t.seconds →
      ∃ t', t.decrementSeconds n = .ok t' ∧ t'.incrementSeconds n = t) :=
  ⟨decrementSeconds_incrementSeconds hvalid hpos hword,
    incrementSeconds_decrementSeconds hvalid hpos hword⟩

theorem decrement_undoes_increment_leap_day :
    (sampleTime.incrementSeconds 61).decrementSeconds 61 = .ok sampleTime ∧
      ∃ t', sampleTime.decrementSeconds 61 = .ok t' ∧
        t'.incrementSeconds 61 = sampleTime := by
  have hundoes := decrement_undoes_increment (n := 61) sampleTime_valid
    (by decide) (by decide)
  exact ⟨hundoes.1 (by decide), hundoes.2 (by decide)⟩

/-! ### The operators -/

theorem subAssign_addAssign (hvalid : t.Valid) (hpos : 0 < n)
    (hword : n < 2 ^ 31) (hend : t.seconds + n < cycleSeconds) :
    (t.addAssign n).subAssign n = .ok t :=
  decrementSeconds_incrementSeconds hvalid hpos hword hend

theorem preDecrement_preIncrement (hvalid : t.Valid)
    (hend : t.seconds + 1 < cycleSeconds) :
    t.preIncrement.preDecrement = .ok t :=
  decrementSeconds_incrementSeconds hvalid (by decide) (by decide) hend

/-- `t++` and then `t--`: the results are the times before. -/
theorem postDecrement_postIncrement (hvalid : t.Valid)
    (hend : t.seconds + 1 < cycleSeconds) :
    t.postIncrement.1 = t ∧
      t.postIncrement.2.postDecrement = .ok (t.postIncrement.2, t) := by
  have hundo : (t.incrementSeconds 1).decrementSeconds 1 = .ok t :=
    decrementSeconds_incrementSeconds hvalid (by decide) (by decide) hend
  unfold postDecrement postIncrement
  rw [hundo]
  exact ⟨rfl, rfl⟩

end Time

end X86Os32
