import X86Os32.Object.OStream
import Mathlib.Logic.ExistsUnique

namespace X86Os32.OStream

open Library Library.Positional

/-! What the integer overloads of `operator<<` print: a mark of the base and
the number in this base, written in the only way without superfluous zeros. -/

inductive Manipulator where
  | bin
  | oct
  | dec
  | hex
deriving DecidableEq, Repr

namespace Manipulator

def base : Manipulator → Nat
  | bin => 2
  | oct => 8
  | dec => 10
  | hex => 16

def mark : Manipulator → String
  | bin => "0b"
  | oct => "0"
  | dec => ""
  | hex => "0x"

/-- Decimal numbers show their sign, the others the word they are stored in. -/
def sign (radix : Manipulator) (value : Int) : String :=
  if radix = dec ∧ value < 0 then "-" else ""

def magnitude (radix : Manipulator) (value : Int) : Nat :=
  if radix = dec then value.natAbs else (value % 2 ^ 32).toNat

theorem two_le_base (radix : Manipulator) : 2 ≤ radix.base := by
  cases radix <;> decide

theorem base_pos (radix : Manipulator) : 0 < radix.base :=
  Nat.lt_of_lt_of_le Nat.two_pos radix.two_le_base

theorem base_le (radix : Manipulator) : radix.base ≤ 16 := by
  cases radix <;> decide

theorem base_eq_ten {radix : Manipulator} : radix.base = 10 ↔ radix = dec := by
  cases radix <;> decide

end Manipulator

/-- The integers that have an overload of `operator<<`, and pointers. -/
inductive Operand where
  | short (ival : Int16)
  | unsignedShort (ival : UInt16)
  | int (ival : Int32)
  | unsignedInt (ival : UInt32)
  | long (ival : Int32)
  | unsignedLong (ival : UInt32)
  | pointer (ptr : UInt32)
deriving DecidableEq

/-- `operator<<` of an operand.  The result is the text and the field `base`
afterwards. -/
def put (base : Nat) : Operand → Except Stop (Text × Nat)
  | .short ival => do
      let text ← putLong base ival.toInt
      return (text, base)
  | .unsignedShort ival => do
      let text ← putUnsignedLong base ival.toNat
      return (text, base)
  | .int ival => do
      let text ← putLong base ival.toInt
      return (text, base)
  | .unsignedInt ival => do
      let text ← putUnsignedLong base ival.toNat
      return (text, base)
  | .long ival => do
      let text ← putLong base ival.toInt
      return (text, base)
  | .unsignedLong ival => do
      let text ← putUnsignedLong base ival.toNat
      return (text, base)
  | .pointer ptr => do
      let baseSave := base
      let text ← putUnsignedLong 16 ptr.toNat
      return (text, baseSave)

namespace Operand

def value : Operand → Int
  | short ival => ival.toInt
  | unsignedShort ival => ival.toNat
  | int ival => ival.toInt
  | unsignedInt ival => ival.toNat
  | long ival => ival.toInt
  | unsignedLong ival => ival.toNat
  | pointer ptr => ptr.toNat

/-- Addresses are always shown in hexadecimal. -/
def radix (selected : Manipulator) : Operand → Manipulator
  | pointer _ => .hex
  | _ => selected

end Operand

def characters (string : String) : Text := string.toList.map Char.toUInt8

def digitName (digit : Nat) : UInt8 :=
  (characters "0123456789abcdef").getD digit 0

def written (radix : Manipulator) (value : Int) (ds : List Nat) : Text :=
  characters (radix.sign value) ++ characters radix.mark ++ ds.map digitName

/-- `div` is a value of the loop variable in the search for the biggest power
of `base` in `ival`. -/
inductive Sought (base ival : Nat) : Nat → Prop
  | start : Sought base ival 1
  | next (hdiv : Sought base ival div) (hmore : ival / div ≥ base) :
      Sought base ival (mul32 div base)

theorem baseMark_base (radix : Manipulator) :
    baseMark radix.base = characters radix.mark := by
  cases radix <;> decide

theorem digitChar_eq : ∀ digit < 16,
    digitChar (UInt8.ofNat digit) = digitName digit := by
  decide

theorem digits_eq {radix : Manipulator} (hlt : n < radix.base ^ (k + 1)) :
    digits radix.base n k = (expand radix.base n k).map digitName := by
  unfold digits
  apply List.map_congr_left
  intro digit hdigit
  apply digitChar_eq
  exact Nat.lt_of_lt_of_le (expand_lt radix.base_pos hlt digit hdigit) radix.base_le

theorem canonical_exists (radix : Manipulator) (hlt : n < 2 ^ 32) :
    ∃ ds, Canonical radix.base n ds ∧
      putUnsignedLong radix.base n =
        .ok (characters radix.mark ++ ds.map digitName) := by
  obtain ⟨k, hput, hsmall, hk⟩ := putUnsignedLong_spec radix.two_le_base hlt
  refine ⟨expand radix.base n k, canonical_expand radix.base_pos hsmall hk, ?_⟩
  rw [hput, digits_eq hsmall, baseMark_base]

theorem putUnsignedLong_canonical {radix : Manipulator} (hlt : n < 2 ^ 32)
    (hds : Canonical radix.base n ds) :
    putUnsignedLong radix.base n =
      .ok (characters radix.mark ++ ds.map digitName) := by
  obtain ⟨printed, hprinted, hput⟩ := canonical_exists radix hlt
  rw [hput, hprinted.unique radix.base_pos hds]

theorem existsUnique_canonical (radix : Manipulator) (hlt : n < 2 ^ 32) :
    ∃! ds, Canonical radix.base n ds := by
  obtain ⟨ds, hds, -⟩ := canonical_exists radix hlt
  exact ⟨ds, hds, fun ds' hds' => hds'.unique radix.base_pos hds⟩

theorem Sought.eq_pow (hbase : 2 ≤ base) (hlt : ival < 2 ^ 32)
    (hsought : Sought base ival div) :
    ∃ j, div = base ^ j ∧ (ival / div ≥ base → div * base < 2 ^ 32) := by
  have hexact : ∀ j, ival / base ^ j ≥ base → base ^ j * base < 2 ^ 32 := by
    intro j hmore
    have hpos : 0 < base ^ j := Nat.pow_pos (Nat.lt_of_lt_of_le Nat.two_pos hbase)
    have hle := (Nat.le_div_iff_mul_le hpos).mp hmore
    rw [Nat.mul_comm]
    exact Nat.lt_of_le_of_lt hle hlt
  induction hsought with
  | start => exact ⟨0, (pow_zero base).symm, by simpa using hexact 0⟩
  | next hdiv hmore ih =>
      obtain ⟨j, rfl, hsmall⟩ := ih
      refine ⟨j + 1, ?_⟩
      rw [mul32, Nat.mod_eq_of_lt (hsmall hmore), ← pow_succ]
      exact ⟨rfl, hexact (j + 1)⟩

theorem putLong_canonical {radix : Manipulator} {ival : Int}
    (hlow : -2 ^ 31 ≤ ival) (hhigh : ival < 2 ^ 31)
    (hds : Canonical radix.base (radix.magnitude ival) ds) :
    putLong radix.base ival = .ok (written radix ival ds) := by
  unfold putLong
  split
  · next hnegative =>
    have hdec : radix = .dec := Manipulator.base_eq_ten.mp hnegative.1
    have hmagnitude : ((-ival) % 2 ^ 32).toNat = radix.magnitude ival := by
      rw [Manipulator.magnitude, if_pos hdec]
      omega
    have hword : radix.magnitude ival < 2 ^ 32 := by
      rw [Manipulator.magnitude, if_pos hdec]
      omega
    rw [hmagnitude, putUnsignedLong_canonical hword hds, ok_bind, written,
      Manipulator.sign, if_pos ⟨hdec, hnegative.2⟩]
    rfl
  · next hshown =>
    rw [Manipulator.base_eq_ten] at hshown
    have hmagnitude : (ival % 2 ^ 32).toNat = radix.magnitude ival := by
      unfold Manipulator.magnitude
      split
      · next hdec =>
        have hpositive : ¬ival < 0 := fun hneg => hshown ⟨hdec, hneg⟩
        omega
      · rfl
    have hword : radix.magnitude ival < 2 ^ 32 := by omega
    rw [hmagnitude, putUnsignedLong_canonical hword hds, written,
      Manipulator.sign, if_neg hshown]
    rfl

theorem Manipulator.magnitude_natCast (radix : Manipulator) {n : Nat}
    (hlt : n < 2 ^ 32) : radix.magnitude n = n := by
  unfold Manipulator.magnitude
  split
  · exact Int.natAbs_natCast n
  · omega

theorem written_natCast (radix : Manipulator) (n : Nat) (ds : List Nat) :
    written radix n ds = characters radix.mark ++ ds.map digitName := by
  have hshown : ¬(radix = .dec ∧ (n : Int) < 0) := by omega
  rw [written, Manipulator.sign, if_neg hshown]
  rfl

theorem putUnsigned_canonical {radix : Manipulator} {n : Nat} (hlt : n < 2 ^ 32)
    (hds : Canonical radix.base (radix.magnitude n) ds) :
    putUnsignedLong radix.base n = .ok (written radix n ds) := by
  rw [radix.magnitude_natCast hlt] at hds
  rw [putUnsignedLong_canonical hlt hds, written_natCast]

theorem Manipulator.magnitude_lt (radix : Manipulator) {value : Int}
    (hlow : -2 ^ 31 ≤ value) (hhigh : value < 2 ^ 32) :
    radix.magnitude value < 2 ^ 32 := by
  unfold Manipulator.magnitude
  split <;> omega

theorem word_bounds {n : Nat} (hlt : n < 2 ^ 32) :
    -2 ^ 31 ≤ (n : Int) ∧ (n : Int) < 2 ^ 32 := by
  omega

theorem long_bounds {ival : Int} (hlow : -2 ^ 31 ≤ ival)
    (hhigh : ival < 2 ^ 31) : -2 ^ 31 ≤ ival ∧ ival < 2 ^ 32 := by
  omega

theorem short_bounds (ival : Int16) :
    -2 ^ 31 ≤ ival.toInt ∧ ival.toInt < 2 ^ 31 := by
  have hlow := ival.le_toInt
  have hhigh := ival.toInt_lt
  omega

theorem unsignedShort_lt (ival : UInt16) : ival.toNat < 2 ^ 32 :=
  Nat.lt_trans ival.toNat_lt (by decide)

theorem Operand.value_bounds (operand : Operand) :
    -2 ^ 31 ≤ operand.value ∧ operand.value < 2 ^ 32 := by
  cases operand with
  | short ival => exact long_bounds (short_bounds ival).1 (short_bounds ival).2
  | unsignedShort ival => exact word_bounds (unsignedShort_lt ival)
  | int ival => exact long_bounds ival.le_toInt ival.toInt_lt
  | unsignedInt ival => exact word_bounds ival.toNat_lt
  | long ival => exact long_bounds ival.le_toInt ival.toInt_lt
  | unsignedLong ival => exact word_bounds ival.toNat_lt
  | pointer ptr => exact word_bounds ptr.toNat_lt

theorem putLong_put (saved : Nat) {radix : Manipulator} {ival : Int}
    (hlow : -2 ^ 31 ≤ ival) (hhigh : ival < 2 ^ 31)
    (hds : Canonical radix.base (radix.magnitude ival) ds) :
    (do let text ← putLong radix.base ival
        return (text, saved)) = .ok (written radix ival ds, saved) := by
  rw [putLong_canonical hlow hhigh hds]
  rfl

theorem putUnsigned_put (saved : Nat) {radix : Manipulator} {n : Nat}
    (hlt : n < 2 ^ 32) (hds : Canonical radix.base (radix.magnitude n) ds) :
    (do let text ← putUnsignedLong radix.base n
        return (text, saved)) = .ok (written radix n ds, saved) := by
  rw [putUnsigned_canonical hlt hds]
  rfl

theorem put_written {selected : Manipulator} {operand : Operand}
    (hds : Canonical (operand.radix selected).base
      ((operand.radix selected).magnitude operand.value) ds) :
    put selected.base operand =
      .ok (written (operand.radix selected) operand.value ds, selected.base) := by
  cases operand with
  | short ival =>
      have hbounds := short_bounds ival
      exact putLong_put selected.base hbounds.1 hbounds.2 hds
  | unsignedShort ival =>
      exact putUnsigned_put selected.base (unsignedShort_lt ival) hds
  | int ival => exact putLong_put selected.base ival.le_toInt ival.toInt_lt hds
  | unsignedInt ival => exact putUnsigned_put selected.base ival.toNat_lt hds
  | long ival => exact putLong_put selected.base ival.le_toInt ival.toInt_lt hds
  | unsignedLong ival => exact putUnsigned_put selected.base ival.toNat_lt hds
  | pointer ptr => exact putUnsigned_put selected.base ptr.toNat_lt hds

theorem search_exact (hbase : 2 ≤ base) (hlt : ival < 2 ^ 32) :
    (∀ div, Sought base ival div → ival / div ≥ base → div * base < 2 ^ 32) ∧
    ∃ k, divLoop base ival (2 ^ 32) 1 = .ok (base ^ k) ∧
      ival < base ^ (k + 1) ∧ (k = 0 ∨ base ^ k ≤ ival) := by
  refine ⟨fun div hsought hmore => ?_, ?_⟩
  · obtain ⟨j, -, hexact⟩ := hsought.eq_pow hbase hlt
    exact hexact hmore
  · have hfuel : ival / base ^ 0 < 2 ^ 32 := by
      rwa [pow_zero, Nat.div_one]
    simpa using divLoop_spec (j := 0) hbase hlt hfuel

/-- Every operand is printed in the only canonical way, and the search for the
first digit multiplies without an overflow. -/
theorem put_canonical (selected : Manipulator) (operand : Operand) :
    let radix := operand.radix selected
    let ival := radix.magnitude operand.value
    (∃! ds, Canonical radix.base ival ds) ∧
    (∀ ds, Canonical radix.base ival ds →
      put selected.base operand =
        .ok (written radix operand.value ds, selected.base)) ∧
    (∀ div, Sought radix.base ival div → ival / div ≥ radix.base →
      div * radix.base < 2 ^ 32) ∧
    ∃ k, divLoop radix.base ival (2 ^ 32) 1 = .ok (radix.base ^ k) ∧
      ival < radix.base ^ (k + 1) ∧ (k = 0 ∨ radix.base ^ k ≤ ival) := by
  intro radix ival
  have hlt : ival < 2 ^ 32 :=
    radix.magnitude_lt operand.value_bounds.1 operand.value_bounds.2
  exact ⟨existsUnique_canonical radix hlt, fun ds hds => put_written hds,
    search_exact radix.two_le_base hlt⟩

example : put Manipulator.dec.base (.long (-2147483648)) =
    .ok (characters "-2147483648", 10) := by decide +kernel

end X86Os32.OStream
