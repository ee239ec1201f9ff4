import Mathlib.Algebra.Group.Int.Defs
import Mathlib.Logic.Function.Iterate
import X86Os32.Debug.Assert
import X86Os32.Library.Calendar
import X86Os32.Library.Word32

namespace X86Os32

open Library Library.Calendar

/-! The calendar time of `user/time/time.cc`.  All fields but the time zone are
`uint16_t`.  The messages to the debug stream are left out. -/

structure Time where
  second : Nat
  minute : Nat
  hour : Nat
  day : Nat
  month : Nat
  year : Nat
  weekday : Nat
  century : Nat
  timezone : Int
deriving DecidableEq, Repr

namespace Time

def increment16 (x : Nat) : Nat := (x + 1) % 2 ^ 16

/-- `x - 1`, stored in 16 bits. -/
def decrement16 (x : Nat) : Nat := (x + 2 ^ 16 - 1) % 2 ^ 16

def daysPerMonth : List Nat :=
  [0, 31, 28, 31, 30, 31, 30, 31, 31, 30, 31, 30, 31]

def getDaysPerMonth (month year century : Nat) : Nat :=
  if month = 2 ∧ year % 4 = 0 ∧ (year ≠ 0 ∨ century % 4 = 0) then
    daysPerMonth.getD month 0 + 1
  else daysPerMonth.getD (if month < 13 then month else 0) 0

variable (t : Time)

/-! ### The loop body of `increment_seconds`, one part for each `continue` -/

def carryYear : Time :=
  let t := { t with year := increment16 t.year % 100 }
  if t.year ≠ 0 then t
  else { t with century := increment16 t.century % 100 }

def carryMonth : Time :=
  let t := { t with month := increment16 t.month % 13 }
  if t.month ≠ 0 then t
  else carryYear { t with month := increment16 t.month }

def carryDay : Time :=
  let t := { t with weekday := t.weekday % 7 + 1 }
  let t := { t with day := increment16 t.day %
    (getDaysPerMonth t.month t.year t.century + 1) }
  if t.day ≠ 0 then t
  else carryMonth { t with day := increment16 t.day }

def carryHour : Time :=
  let t := { t with hour := increment16 t.hour % 24 }
  if t.hour ≠ 0 then t else carryDay t

def carryMinute : Time :=
  let t := { t with minute := increment16 t.minute % 60 }
  if t.minute ≠ 0 then t else carryHour t

/-! ### The loop body of `decrement_seconds` -/

def borrowYear : Time :=
  let t := { t with year := if t.year = 0 then 99 else t.year - 1 }
  if t.year ≠ 99 then t
  else { t with century := decrement16 t.century }

def borrowMonth : Time :=
  let t := { t with month := if t.month = 1 then 12 else decrement16 t.month }
  let t := { t with day := getDaysPerMonth t.month t.year t.century }
  if t.month ≠ 12 then t else borrowYear t

def borrowDay : Time :=
  let t := { t with
    weekday := if t.weekday = 1 then 7 else decrement16 t.weekday }
  if t.day ≠ 1 then { t with day := decrement16 t.day } else borrowMonth t

def borrowHour : Time :=
  let t := { t with hour := if t.hour = 0 then 23 else t.hour - 1 }
  if t.hour ≠ 23 then t else borrowDay t

def borrowMinute : Time :=
  let t := { t with minute := if t.minute = 0 then 59 else t.minute - 1 }
  if t.minute ≠ 59 then t else borrowHour t

@[simp] theorem carryMinute_second : t.carryMinute.second = t.second := by
  simp only [carryMinute, carryHour, carryDay, carryMonth, carryYear,
    apply_ite Time.second, ite_self]

@[simp] theorem carryMinute_timezone : t.carryMinute.timezone = t.timezone := by
  simp only [carryMinute, carryHour, carryDay, carryMonth, carryYear,
    apply_ite Time.timezone, ite_self]

@[simp] theorem borrowMinute_second : t.borrowMinute.second = t.second := by
  simp only [borrowMinute, borrowHour, borrowDay, borrowMonth, borrowYear,
    apply_ite Time.second, ite_self]

@[simp] theorem borrowMinute_timezone :
    t.borrowMinute.timezone = t.timezone := by
  simp only [borrowMinute, borrowHour, borrowDay, borrowMonth, borrowYear,
    apply_ite Time.timezone, ite_self]

/-- `amount` runs through the unsigned wrap-around when it is below 60, and the
sum with `second` comes out right again. -/
def incrementLoop (t : Time) (amount : Nat) : Time × Nat :=
  if 60 ≤ add32 t.second amount then
    incrementLoop t.carryMinute (sub32 amount 60)
  else (t, amount)
termination_by add32 t.second amount
decreasing_by
  rw [carryMinute_second]
  unfold add32 sub32 at *
  omega

def incrementSeconds (amount : Nat) : Time :=
  if add32 t.second amount < t.second then t
  else
    let (t, amount) := incrementLoop t amount
    { t with second := add32 t.second amount % 2 ^ 16 }

def decrementLoop (t : Time) (amount : Int) : Time × Int :=
  if (t.second : Int) - amount < 0 then
    decrementLoop t.borrowMinute (amount - 60)
  else (t, amount)
termination_by (amount - t.second).toNat
decreasing_by
  rw [borrowMinute_second]
  omega

def decrementSeconds (amount : Int) : Except Stop Time := do
  assert (amount > 0) "amount > 0"
  let (t, amount) := decrementLoop t amount
  return { t with second := (((t.second : Int) - amount) % 2 ^ 16).toNat }

def addAssign (i : Nat) : Time := incrementSeconds t i

def preIncrement : Time := incrementSeconds t 1

/-- `t++`: the result, and the time afterwards. -/
def postIncrement : Time × Time := (t, incrementSeconds t 1)

def subAssign (i : Int) : Except Stop Time := decrementSeconds t i

def preDecrement : Except Stop Time := decrementSeconds t 1

/-- `t--`: the result, and the time afterwards. -/
def postDecrement : Except Stop (Time × Time) := do
  let after ← decrementSeconds t 1
  return (t, after)

end Time

end X86Os32
