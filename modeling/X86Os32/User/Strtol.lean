import X86Os32.Object.OStream

namespace X86Os32.Strings

open Library Library.Positional
open OStream (Text)

/-! Parsing numbers with `strtol` of `user/string/string.cc`, on the characters
of a string. -/

def ssizeMax : Nat := 2147483647

/-- A `char` is signed. -/
def code (c : UInt8) : Int := c.toInt8.toInt

def compare (str : Text) (pos : Nat) (other : Text) : Bool :=
  if add32 pos other.length > str.length then false
  else decide (∀ i < min str.length (add32 other.length pos), pos ≤ i →
    str[i]? = other[i - pos]?)

/-- The prefixes for binary, octal and hexadecimal: where the digits begin, and
their base. -/
def detectBase (str : Text) (i : Nat) (base : Int) : Nat × Int :=
  if (base = 0 ∨ base = 2) ∧ (compare str i ['0'.toUInt8, 'b'.toUInt8] ∨
      compare str i ['0'.toUInt8, 'B'.toUInt8]) then (i + 2, 2)
  else if (base = 0 ∨ base = 16) ∧ (compare str i ['0'.toUInt8, 'x'.toUInt8] ∨
      compare str i ['0'.toUInt8, 'X'.toUInt8]) then (i + 2, 16)
  else if (base = 0 ∨ base = 8) ∧ compare str i ['0'.toUInt8] ∧
      str.length > i + 1 then (i + 1, 8)
  else if base = 0 then (i, 10)
  else (i, base)

def digitValue (base : Int) (cur : UInt8) : Option Int :=
  if code '0'.toUInt8 ≤ code cur ∧
      code cur ≤ code '0'.toUInt8 + min base 10 - 1 then
    some (code cur - code '0'.toUInt8)
  else if base > 10 ∧
      ((code 'a'.toUInt8 ≤ code cur ∧
          code cur ≤ code 'a'.toUInt8 + base - 10 - 1) ∨
        (code 'A'.toUInt8 ≤ code cur ∧
          code cur ≤ code 'A'.toUInt8 + base - 10 - 1)) then
    some (10 + code cur -
      if code 'a'.toUInt8 ≤ code cur ∧ code cur ≤ code 'a'.toUInt8 + base then
        code 'a'.toUInt8 else code 'A'.toUInt8)
  else none

/-- The conversion loop from the remaining characters on: the result and the
error flag, or `none` when it jumps to `overflow`. -/
def convert (base : Int) : Text → Nat → Bool → Option (Nat × Bool)
  | [], res, error => some (res, error)
  | cur :: rest, res, _ =>
      match digitValue base cur with
      | none => some (res, true)
      | some digit =>
          let next := ((base * res + digit) % 2 ^ 32).toNat
          if next < res then none else convert base rest next false

/-- The returned number, and what is stored through `error`. -/
def strtol (str : Text) (base : Int) : Int × Bool :=
  let i := (str.takeWhile fun c => c = ' '.toUInt8).length
  let negative := decide (str[i]? = some '-'.toUInt8)
  let i := if negative then i + 1 else i
  let (i, base) := detectBase str i base
  match convert base (str.drop i) 0 true with
  | none => (ssizeMax, true)
  | some (res, error) =>
      if res > ssizeMax then (ssizeMax, true)
      else if negative then ((res : Int) * -1, error)
      else (res, error)

theorem compare_iff {str other : Text} (hfits : pos + other.length < 2 ^ 32)
    (hother : other ≠ []) :
    compare str pos other = true ↔ other <+: str.drop pos := by
  have hpos := List.length_pos_iff.mpr hother
  have hsum : add32 pos other.length = pos + other.length := add32_of_lt hfits
  have hsum' : add32 other.length pos = other.length + pos :=
    add32_of_lt (by omega)
  unfold compare
  rw [hsum, hsum']
  by_cases hlong : pos + other.length > str.length
  · rw [if_pos hlong]
    constructor
    · intro hfalse
      cases hfalse
    · intro hle
      have hlength := hle.length_le
      rw [List.length_drop] at hlength
      omega
  · rw [if_neg hlong, decide_eq_true_iff, List.prefix_iff_getElem?]
    constructor
    · intro hall i hi
      have hchar := hall (pos + i) (by omega) (Nat.le_add_right _ _)
      rw [Nat.add_sub_cancel_left] at hchar
      rw [List.getElem?_drop, hchar, List.getElem?_eq_getElem hi]
    · intro hall i hi hpos
      have hchar := hall (i - pos) (by omega)
      rw [List.getElem?_drop, Nat.add_sub_cancel' hpos] at hchar
      rw [hchar, List.getElem?_eq_getElem]

theorem detectBase_eq {str rest : Text} (hrest : str.drop i = rest)
    (hfits : i + 2 < 2 ^ 32) (hlength : i ≤ str.length) (base : Int) :
    detectBase str i base =
      if (base = 0 ∨ base = 2) ∧ (['0'.toUInt8, 'b'.toUInt8] <+: rest ∨
          ['0'.toUInt8, 'B'.toUInt8] <+: rest) then (i + 2, 2)
      else if (base = 0 ∨ base = 16) ∧ (['0'.toUInt8, 'x'.toUInt8] <+: rest ∨
          ['0'.toUInt8, 'X'.toUInt8] <+: rest) then (i + 2, 16)
      else if (base = 0 ∨ base = 8) ∧ ['0'.toUInt8] <+: rest ∧
          rest.length > 1 then (i + 1, 8)
      else if base = 0 then (i, 10)
      else (i, base) := by
  have hmore : str.length > i + 1 ↔ rest.length > 1 := by
    rw [← hrest, List.length_drop]
    omega
  have htwo : ∀ a b : UInt8, compare str i [a, b] = true ↔ [a, b] <+: str.drop i :=
    fun a b => compare_iff hfits (List.cons_ne_nil _ _)
  have hone : ∀ a : UInt8, compare str i [a] = true ↔ [a] <+: str.drop i :=
    fun a => compare_iff (Nat.lt_of_succ_lt hfits) (List.cons_ne_nil _ _)
  unfold detectBase
  simp only [htwo, hone, hrest, hmore]

/-- The digits that are printed are read back. -/
theorem digitValue_digitChar {base d : Nat}
    (hbase : base = 2 ∨ base = 8 ∨ base = 10 ∨ base = 16) (hd : d < base) :
    digitValue (base : Int) (OStream.digitChar (UInt8.ofNat d)) = some (d : Int) := by
  have hall : ∀ base ∈ [2, 8, 10, 16], ∀ d < base,
      digitValue (base : Nat) (OStream.digitChar (UInt8.ofNat d)) =
        some (d : Int) := by decide
  refine hall base ?_ d hd
  simpa using hbase

theorem convert_spec {base : Nat}
    (hbase : base = 2 ∨ base = 8 ∨ base = 10 ∨ base = 16) {ds : List Nat}
    (hds : ∀ d ∈ ds, d < base) (res : Nat)
    (hfits : horner base res ds < 2 ^ 32) (error : Bool) :
    convert base (ds.map fun d => OStream.digitChar (UInt8.ofNat d)) res error =
      some (horner base res ds, if ds = [] then error else false) := by
  induction ds generalizing res error with
  | nil => rfl
  | cons d ds ih =>
      have hpos : 0 < base := by omega
      have hd := hds d List.mem_cons_self
      have hle := le_horner (n := base * res + d) hpos ds
      have hgrow : res ≤ base * res := Nat.le_mul_of_pos_left res hpos
      have hnext : (((base : Int) * res + d) % 2 ^ 32).toNat = base * res + d := by
        have hcast : (base : Int) * res + d = ((base * res + d : Nat) : Int) := by
          push_cast
          rfl
        rw [horner] at hfits
        rw [hcast]
        omega
      rw [List.map_cons, convert, digitValue_digitChar hbase hd]
      simp only [hnext]
      rw [if_neg (by omega), ih (fun d hd => hds d (List.mem_cons_of_mem _ hd)) _
        hfits]
      simp [horner]

/-! ### Reading what was printed -/

theorem digits_cons (base n k : Nat) :
    ∃ rest, OStream.digits base n k =
      OStream.digitChar (UInt8.ofNat (n / base ^ k)) :: rest ∧ rest.length = k := by
  have hhead := head_expand base n k
  have hlength := length_expand base n k
  unfold OStream.digits
  cases hexpand : expand base n k with
  | nil => exact absurd hexpand (expand_ne_nil base n k)
  | cons d ds =>
      rw [hexpand] at hhead hlength
      obtain rfl : d = n / base ^ k := Option.some.inj hhead
      exact ⟨_, rfl, by simpa using hlength⟩

theorem digitChar_ne (hd : d < 16) :
    OStream.digitChar (UInt8.ofNat d) ∉
      [' '.toUInt8, '-'.toUInt8, 'B'.toUInt8, 'x'.toUInt8, 'X'.toUInt8] ∧
    (d < 10 → OStream.digitChar (UInt8.ofNat d) ≠ 'b'.toUInt8) ∧
    (d ≠ 0 → OStream.digitChar (UInt8.ofNat d) ≠ '0'.toUInt8) := by
  have hall : ∀ d < 16, OStream.digitChar (UInt8.ofNat d) ∉
      [' '.toUInt8, '-'.toUInt8, 'B'.toUInt8, 'x'.toUInt8, 'X'.toUInt8] ∧
      (d < 10 → OStream.digitChar (UInt8.ofNat d) ≠ 'b'.toUInt8) ∧
      (d ≠ 0 → OStream.digitChar (UInt8.ofNat d) ≠ '0'.toUInt8) := by decide
  exact hall d hd

/-- The mark of the base, or its absence, is recognised. -/
theorem detectBase_printed {str : Text}
    (hbase : base = 2 ∨ base = 8 ∨ base = 10 ∨ base = 16)
    (hstr : str.drop i = OStream.baseMark base ++ OStream.digits base n k)
    (hlt : n < base ^ (k + 1)) (hk : k = 0 ∨ base ^ k ≤ n)
    (hfits : i + 2 < 2 ^ 32) (hlength : i ≤ str.length) :
    detectBase str i 0 = (i + (OStream.baseMark base).length, (base : Int)) := by
  have hpos : 0 < base := by omega
  obtain ⟨rest, hdigits, hrest⟩ := digits_cons base n k
  have hfirst : n / base ^ k < base := by
    refine Nat.div_lt_of_lt_mul ?_
    rwa [← pow_succ]
  obtain ⟨hne, hnotB, hnotZero⟩ := digitChar_ne (d := n / base ^ k) (by omega)
  simp only [List.mem_cons, List.not_mem_nil, or_false, not_or] at hne
  rw [hdigits] at hstr
  rw [detectBase_eq hstr hfits hlength]
  rcases hbase with rfl | rfl | rfl | rfl
  · simp [OStream.baseMark, List.cons_prefix_cons]
  · have hnotB := hnotB (by omega)
    simp [OStream.baseMark, List.cons_prefix_cons, hnotB.symm, Ne.symm hne.2.2.1,
      Ne.symm hne.2.2.2.1, Ne.symm hne.2.2.2.2]
  · -- A decimal number begins with a zero only when it has no other digit.
    have hzero : OStream.digitChar (UInt8.ofNat (n / 10 ^ k)) = '0'.toUInt8 →
        rest = [] := by
      intro heq
      rcases hk with rfl | hk
      · exact List.eq_nil_of_length_eq_zero hrest
      · have hquotient : n / 10 ^ k ≠ 0 :=
          (Nat.div_pos hk (Nat.pow_pos hpos)).ne'
        exact absurd heq (hnotZero hquotient)
    by_cases heq : OStream.digitChar (UInt8.ofNat (n / 10 ^ k)) = '0'.toUInt8
    · simp [OStream.baseMark, List.cons_prefix_cons, hzero heq]
    · simp [OStream.baseMark, List.cons_prefix_cons, Ne.symm heq]
  · simp [OStream.baseMark, List.cons_prefix_cons]
    decide

def sign (negative : Bool) : Text := if negative then ['-'.toUInt8] else []

theorem strtol_printed {n : Nat} (negative : Bool)
    (hbase : base = 2 ∨ base = 8 ∨ base = 10 ∨ base = 16)
    (hn : n ≤ ssizeMax) (hlt : n < base ^ (k + 1)) (hk : k = 0 ∨ base ^ k ≤ n) :
    strtol (sign negative ++ (OStream.baseMark base ++ OStream.digits base n k)) 0
      = (if negative then (n : Int) * -1 else n, false) := by
  have hpos : 0 < base := by omega
  -- The character behind the sign is a digit.
  obtain ⟨c, body, hbody, hblank, hminus⟩ : ∃ c body,
      OStream.baseMark base ++ OStream.digits base n k = c :: body ∧
        c ≠ ' '.toUInt8 ∧ c ≠ '-'.toUInt8 := by
    obtain ⟨rest, hdigits, -⟩ := digits_cons base n k
    have hfirst : n / base ^ k < base := by
      refine Nat.div_lt_of_lt_mul ?_
      rwa [← pow_succ]
    obtain ⟨hne, -⟩ := digitChar_ne (d := n / base ^ k) (by omega)
    simp only [List.mem_cons, List.not_mem_nil, or_false, not_or] at hne
    rcases hbase with rfl | rfl | rfl | rfl
    · exact ⟨_, _, rfl, by decide, by decide⟩
    · exact ⟨_, _, rfl, by decide, by decide⟩
    · exact ⟨_, _, hdigits, hne.1, hne.2.1⟩
    · exact ⟨_, _, rfl, by decide, by decide⟩
  have hread := convert_spec hbase (expand_lt hpos hlt) 0
    (by rw [horner_expand]; unfold ssizeMax at hn; omega) true
  rw [horner_expand, Nat.zero_mul, Nat.zero_add,
    if_neg (expand_ne_nil base n k)] at hread
  have hdetect : detectBase (sign negative ++ (OStream.baseMark base ++
      OStream.digits base n k)) (sign negative).length 0 =
      ((sign negative).length + (OStream.baseMark base).length, (base : Int)) := by
    refine detectBase_printed hbase List.drop_left hlt hk ?_ ?_
    · cases negative <;> decide
    · simp
  have hdigits : (sign negative ++ (OStream.baseMark base ++
      OStream.digits base n k)).drop ((sign negative).length +
        (OStream.baseMark base).length) = OStream.digits base n k := by
    rw [← List.drop_drop, List.drop_left, List.drop_left]
  have hspaces : ((sign negative ++ (OStream.baseMark base ++
      OStream.digits base n k)).takeWhile fun c => c = ' '.toUInt8) = [] := by
    rw [hbody]
    cases negative with
    | true => rfl
    | false => simp [sign, hblank]
  have hnegative : decide ((sign negative ++ (OStream.baseMark base ++
      OStream.digits base n k))[0]? = some '-'.toUInt8) = negative := by
    rw [hbody]
    cases negative with
    | true => rfl
    | false => simp [sign, hminus]
  have hstart : (if negative = true then 0 + 1 else 0) = (sign negative).length := by
    cases negative <;> rfl
  unfold strtol
  simp only [hspaces, List.length_nil, hnegative, hstart, hdetect, hdigits]
  unfold OStream.digits
  rw [hread]
  simp only
  rw [if_neg (Nat.not_lt.mpr hn)]
  split <;> rfl

theorem strtol_putUnsignedLong {n : Nat} (negative : Bool)
    (hbase : base = 2 ∨ base = 8 ∨ base = 10 ∨ base = 16) (hn : n ≤ ssizeMax) :
    ∃ text, OStream.putUnsignedLong base n = .ok text ∧
      strtol (sign negative ++ text) 0 =
        (if negative then (n : Int) * -1 else n, false) := by
  have hword : n < 2 ^ 32 := by
    unfold ssizeMax at hn
    omega
  obtain ⟨k, hprint, hlt, hk⟩ :=
    OStream.putUnsignedLong_spec (show 2 ≤ base by omega) hword
  exact ⟨_, hprint, strtol_printed negative hbase hn hlt hk⟩

theorem toNat_mod_word {v : Int} (hlow : 0 ≤ v) (hhigh : v ≤ ssizeMax) :
    (v % 2 ^ 32).toNat = v.toNat := by
  unfold ssizeMax at hhigh
  omega

/-- Printed numbers are read back, with any base that has a mark and with the
decimal one. -/
theorem strtol_print :
    (∀ v : Int, -ssizeMax ≤ v → v ≤ ssizeMax →
      ∃ text, OStream.putLong 10 v = .ok text ∧ strtol text 0 = (v, false)) ∧
    (∀ base, base = 2 ∨ base = 8 ∨ base = 10 ∨ base = 16 →
      ∀ v : Nat, v ≤ ssizeMax →
        ∃ text, OStream.putLong base v = .ok text ∧
          OStream.putUnsignedLong base v = .ok text ∧
          strtol text 0 = ((v : Int), false)) := by
  refine ⟨fun v hlow hhigh => ?_, fun base hbase v hv => ?_⟩
  · have hten : 10 = 2 ∨ 10 = 8 ∨ 10 = 10 ∨ 10 = 16 := by decide
    by_cases hnegative : v < 0
    · have habs : ((-v) % 2 ^ 32).toNat = (-v).toNat :=
        toNat_mod_word (by omega) (by omega)
      obtain ⟨text, hprint, hread⟩ := strtol_putUnsignedLong true hten
        (show (-v).toNat ≤ ssizeMax by omega)
      refine ⟨'-'.toUInt8 :: text, ?_, ?_⟩
      · unfold OStream.putLong
        rw [if_pos ⟨rfl, hnegative⟩, habs, hprint, ok_bind]
        rfl
      · have hvalue : ((-v).toNat : Int) * -1 = v := by omega
        rw [if_pos rfl, hvalue] at hread
        exact hread
    · obtain ⟨text, hprint, hread⟩ := strtol_putUnsignedLong false hten
        (show v.toNat ≤ ssizeMax by omega)
      refine ⟨text, ?_, ?_⟩
      · unfold OStream.putLong
        rw [if_neg (by omega), toNat_mod_word (by omega) hhigh, hprint]
      · have hvalue : (v.toNat : Int) = v := by omega
        simpa [sign, hvalue] using hread
  · obtain ⟨text, hprint, hread⟩ := strtol_putUnsignedLong false hbase hv
    refine ⟨text, ?_, hprint, ?_⟩
    · unfold OStream.putLong
      rw [if_neg (by omega), toNat_mod_word (by omega) (by omega),
        Int.toNat_natCast, hprint]
    · simpa [sign] using hread

theorem strtol_print_extremes :
    (∃ text, OStream.putLong 10 (-2147483647) = .ok text ∧
      strtol text 0 = (-2147483647, false)) ∧
    ∃ text, OStream.putUnsignedLong 8 0 = .ok text ∧
      strtol text 0 = (0, false) := by
  obtain ⟨text, -, hprint, hread⟩ :=
    strtol_print.2 8 (by decide) 0 (by decide)
  exact ⟨strtol_print.1 _ (by decide) (by decide), text, hprint, hread⟩

example : OStream.putLong 16 48879 =
    .ok ("0xbeef".toList.map Char.toUInt8) := by decide +kernel

end X86Os32.Strings
