import X86Os32.Debug.Assert
import X86Os32.Library.Positional
import X86Os32.Library.Word32

namespace X86Os32.OStream

open Library Library.Positional

/-! Printing numbers with `operator<<` of `object/o_stream.cc`.  The result is
the text that is put into the stream.  `base` is the field of the stream,
converted to `unsigned long`. -/

abbrev Text := List UInt8

def baseMark (base : Nat) : Text :=
  if base = 2 then ['0'.toUInt8, 'b'.toUInt8]
  else if base = 8 then ['0'.toUInt8]
  else if base = 16 then ['0'.toUInt8, 'x'.toUInt8]
  else []

/-- The loop that looks for the biggest power of `base` in `ival`. -/
def divLoop (base ival : Nat) : Nat → Nat → Except Stop Nat
  | 0, _ => .error .endlessLoop
  | fuel + 1, div =>
      if ival / div ≥ base then divLoop base ival fuel (mul32 div base)
      else .ok div

/-- `digit + ((digit < 10) ? '0' : ('a' - 10))` -/
def digitChar (digit : UInt8) : UInt8 :=
  digit + if digit.toInt8 < 10 then '0'.toUInt8 else 'a'.toUInt8 - 10

def putDigits (base : Nat) : Nat → Nat → Nat → Except Stop Text
  | 0, _, _ => .error .endlessLoop
  | fuel + 1, div, ival =>
      if div > 0 then do
        let digit := UInt8.ofNat (ival / div)
        let rest ← putDigits base fuel (div / base) (ival % div)
        return digitChar digit :: rest
      else return []

/-- `operator<<(unsigned long ival)` -/
def putUnsignedLong (base ival : Nat) : Except Stop Text := do
  let div ← divLoop base ival (2 ^ 32) 1
  let digits ← putDigits base (2 ^ 32) div ival
  return baseMark base ++ digits

/-- `operator<<(long ival)` -/
def putLong (base : Nat) (ival : Int) : Except Stop Text :=
  if base = 10 ∧ ival < 0 then do
    let text ← putUnsignedLong base ((-ival) % 2 ^ 32).toNat
    return '-'.toUInt8 :: text
  else putUnsignedLong base (ival % 2 ^ 32).toNat

def digits (base n k : Nat) : Text :=
  (expand base n k).map fun d => digitChar (UInt8.ofNat d)

/-- The loop ends at the biggest power of the base that is not above `ival`. -/
theorem divLoop_spec (hbase : 2 ≤ base) (hival : ival < 2 ^ 32)
    (hfuel : ival / base ^ j < fuel) :
    ∃ k, divLoop base ival fuel (base ^ j) = .ok (base ^ k) ∧
      ival < base ^ (k + 1) ∧ (k = j ∨ base ^ k ≤ ival) := by
  induction fuel generalizing j with
  | zero => exact absurd hfuel (Nat.not_lt_zero _)
  | succ fuel ih =>
      have hpos : 0 < base ^ j := Nat.pow_pos (by omega)
      by_cases hmore : ival / base ^ j ≥ base
      · have hle : base ^ (j + 1) ≤ ival := by
          rw [pow_succ, Nat.mul_comm]
          exact (Nat.le_div_iff_mul_le hpos).mp hmore
        have hnext : ival / base ^ (j + 1) < fuel := by
          rw [pow_succ, ← Nat.div_div_eq_div_mul]
          have := Nat.div_lt_self (n := ival / base ^ j) (by omega) hbase
          omega
        obtain ⟨k, hloop, hlt, hk⟩ := ih hnext
        refine ⟨k, ?_, hlt, Or.inr ?_⟩
        · have hmul : mul32 (base ^ j) base = base ^ (j + 1) := by
            unfold mul32
            rw [← pow_succ, Nat.mod_eq_of_lt (by omega)]
          rw [divLoop, if_pos hmore, hmul]
          exact hloop
        · rcases hk with rfl | hk
          · exact hle
          · exact hk
      · refine ⟨j, by rw [divLoop, if_neg hmore], ?_, Or.inl rfl⟩
        rw [pow_succ, Nat.mul_comm]
        exact (Nat.div_lt_iff_lt_mul hpos).mp (Nat.lt_of_not_le hmore)

theorem putDigits_spec (hbase : 2 ≤ base) (hfuel : k + 1 < fuel) (ival : Nat) :
    putDigits base fuel (base ^ k) ival = .ok (digits base ival k) := by
  induction k generalizing fuel ival with
  | zero =>
      obtain ⟨fuel, rfl⟩ : ∃ rest, fuel = rest + 2 := ⟨fuel - 2, by omega⟩
      have hend : 1 / base = 0 := Nat.div_eq_of_lt (by omega)
      simp [putDigits, digits, expand, hend]
      rfl
  | succ k ih =>
      obtain ⟨fuel, rfl⟩ : ∃ rest, fuel = rest + 1 := ⟨fuel - 1, by omega⟩
      have hpos : 0 < base ^ (k + 1) := Nat.pow_pos (by omega)
      have hdiv : base ^ (k + 1) / base = base ^ k := by
        rw [pow_succ, Nat.mul_div_cancel _ (by omega)]
      rw [putDigits, if_pos hpos, hdiv, ih (by omega), ok_bind]
      rfl

/-- What is printed for a number: the mark of the base and the digits from the
first one on that is not zero. -/
theorem putUnsignedLong_spec (hbase : 2 ≤ base) (hival : ival < 2 ^ 32) :
    ∃ k, putUnsignedLong base ival = .ok (baseMark base ++ digits base ival k) ∧
      ival < base ^ (k + 1) ∧ (k = 0 ∨ base ^ k ≤ ival) := by
  obtain ⟨k, hdiv, hlt, hk⟩ := divLoop_spec (j := 0) hbase hival
    (by rw [pow_zero, Nat.div_one]; exact hival)
  have hfuel : k + 1 < 2 ^ 32 := by
    rcases hk with rfl | hle
    · decide
    · have hself : k < base ^ k := Nat.lt_pow_self (by omega)
      have hdouble : k + 1 ≤ base ^ k := hself
      omega
  refine ⟨k, ?_, hlt, hk⟩
  unfold putUnsignedLong
  rw [pow_zero] at hdiv
  rw [hdiv, ok_bind, putDigits_spec hbase hfuel, ok_bind]
  rfl

end X86Os32.OStream
