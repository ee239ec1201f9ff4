import X86Os32.Library.Escaping
import X86Os32.Library.Positional
import X86Os32.Library.Results
import X86Os32.Object.OStream

namespace X86Os32.GDB

open Library Library.Positional Library.Results
open OStream (Text)

/-! How `debug/gdb/protocol.cc` writes numbers, bytes and memory contents into
the text of a packet, and reads them from it. -/

def digits : Text := ['0', '1', '2', '3', '4', '5', '6', '7', '8', '9', 'a', 'b',
  'c', 'd', 'e', 'f'].map Char.toUInt8

/-- `get_digit`, where 255 is the `char` -1. -/
def getDigit (val : Nat) : UInt8 :=
  if val ≤ 0xf then digits.getD val 0 else 0xff

/-- `low <= c && c <= high`, where a `char` is signed. -/
def between (low high : Char) (c : UInt8) : Bool :=
  decide (low.toUInt8.toInt8 ≤ c.toInt8) && decide (c.toInt8 ≤ high.toUInt8.toInt8)

/-- `get_val`, where `none` stands for -1. -/
def getVal (digit : UInt8) (base : Nat) : Option Nat :=
  let value :=
    if between '0' '9' digit then some (digit - '0'.toUInt8).toNat
    else if between 'a' 'f' digit then some ((digit - 'a'.toUInt8).toNat + 0xa)
    else if between 'A' 'F' digit then some ((digit - 'A'.toUInt8).toNat + 0xa)
    else none
  value.filter fun value => value < base

/-! ### Numbers -/

/-- The loop of `strtol` from the position on: the value, where it ends, and
whether there was a digit. -/
def convert (base : Nat) : Text → UInt32 → Nat → Bool → UInt32 × Nat × Bool
  | [], value, pos, valid => (value, pos, valid)
  | c :: rest, value, pos, valid =>
      if c = 0 then (value, pos, valid)
      else
        match getVal c base with
        | none => (value, pos, valid)
        | some digit =>
            convert base rest (value * UInt32.ofNat base + UInt32.ofNat digit)
              (pos + 1) true

/-- What the sign in front makes of the number, and where the number begins. -/
def signOf (str : Text) : UInt32 × Nat :=
  if str[0]? = some '-'.toUInt8 then (-1, 1)
  else if str[0]? = some '+'.toUInt8 then (1, 1)
  else (1, 0)

/-- `strtol` of the stub, on the characters from `str` on.  The `int` wraps
around as the words of the machine do.  The second component is where `endptr`
points to, counted from `str`, and `none` for `NULL`. -/
def strtol (str : Text) (base : Nat) : UInt32 × Option Nat :=
  if str.length < 1 then (0, none)
  else
    let (sign, pos) := signOf str
    let (base, pos) :=
      if pos + 2 < str.length ∧ str[pos]? = some '0'.toUInt8 ∧
          (str[pos + 1]? = some 'x'.toUInt8 ∨ str[pos + 1]? = some 'X'.toUInt8) then
        (16, pos + 2)
      else (base, pos)
    let base := if base = 0 then 10 else base
    let (value, pos, valid) := convert base (str.drop pos) 0 pos false
    if valid then (value * sign, some pos) else (0, none)

/-! ### Bytes -/

def hexPair (byte : UInt8) : Text :=
  [getDigit ((byte >>> 4) &&& 0xf).toNat, getDigit (byte &&& 0xf).toNat]

/-- `enc_hex`: what is written to the buffer, or `none` for -1. -/
def encHex (bufLen : Nat) (data : Text) : Option Text :=
  if bufLen < data.length * 2 then none else some (data.flatMap hexPair)

/-- A digit of `dec_hex`.  The return behind `assert(0)` is never reached. -/
def nibble (c : UInt8) : Except Stop UInt8 :=
  match getVal c 16 with
  | none => .error (.assertionFailed "0")
  | some value => .ok (UInt8.ofNat value)

/-- The loop of `dec_hex`. -/
def decPairs : Text → Except Stop Text
  | high :: low :: rest => do
      let high ← nibble high
      let low ← nibble low
      let data ← decPairs rest
      return (high <<< 4 ||| low) :: data
  | _ => return []

/-- `dec_hex`: the `dataLen` bytes that are read from the buffer, or `none` for
-1. -/
def decHex (buf : Text) (dataLen : Nat) : Except Stop (Option Text) :=
  if buf.length ≠ dataLen * 2 then return none
  else do
    let data ← decPairs buf
    return some data

/-- The characters that have a meaning in packets. -/
def Reserved (c : UInt8) : Prop :=
  c = '$'.toUInt8 ∨ c = '#'.toUInt8 ∨ c = '}'.toUInt8 ∨ c = '*'.toUInt8

instance : DecidablePred Reserved := fun c =>
  inferInstanceAs (Decidable (c = '$'.toUInt8 ∨ c = '#'.toUInt8 ∨
    c = '}'.toUInt8 ∨ c = '*'.toUInt8))

def encBin (bufLen : Nat) : Nat → Text → Except Stop Text
  | _, [] => return []
  | bufPos, c :: rest =>
      if Reserved c then
        if bufPos + 1 ≥ bufLen then .error (.assertionFailed "0")
        else do
          let text ← encBin bufLen (bufPos + 2) rest
          return '}'.toUInt8 :: (c ^^^ 0x20) :: text
      else if bufPos ≥ bufLen then .error (.assertionFailed "0")
      else do
        let text ← encBin bufLen (bufPos + 1) rest
        return c :: text

def decBin (dataLen : Nat) : Nat → Text → Except Stop Text
  | _, [] => return []
  | dataPos, [c] =>
      if dataPos ≥ dataLen then .error (.assertionFailed "0")
      else if c = '}'.toUInt8 then .error (.assertionFailed "0")
      else return [c]
  | dataPos, c :: next :: rest =>
      if dataPos ≥ dataLen then .error (.assertionFailed "0")
      else if c = '}'.toUInt8 then do
        let data ← decBin dataLen (dataPos + 1) rest
        return (next ^^^ 0x20) :: data
      else do
        let data ← decBin dataLen (dataPos + 1) (next :: rest)
        return c :: data

/-! ### What the codes stand for -/

/-- The text is the bytes, each written with two hexadecimal digits. -/
inductive HexText : Text → Text → Prop
  | nil : HexText [] []
  | cons {high low : UInt8} {h l : Nat} {text data : Text}
      (hhigh : getVal high 16 = some h) (hlow : getVal low 16 = some l)
      (htext : HexText text data) :
      HexText (high :: low :: text) (UInt8.ofNat (16 * h + l) :: data)

theorem getVal_lt {c : UInt8} {base n : Nat} (hval : getVal c base = some n) :
    n < base := by
  have hfilter := (Option.filter_eq_some_iff.mp hval).2
  simpa using hfilter

theorem nibble_eq_ok {c v : UInt8} :
    nibble c = .ok v ↔ ∃ n, getVal c 16 = some n ∧ UInt8.ofNat n = v := by
  unfold nibble
  cases getVal c 16 with
  | none => simp
  | some n => simp

theorem nibble_eq_error {c : UInt8} {stop : Stop} :
    nibble c = .error stop ↔
      getVal c 16 = none ∧ stop = .assertionFailed "0" := by
  unfold nibble
  cases getVal c 16 with
  | none => simp [eq_comm]
  | some n => simp

theorem joined : ∀ h < 16, ∀ l < 16,
    UInt8.ofNat h <<< 4 ||| UInt8.ofNat l = UInt8.ofNat (16 * h + l) := by
  decide

theorem HexText.length {text data : Text} (htext : HexText text data) :
    text.length = data.length * 2 := by
  induction htext with
  | nil => rfl
  | cons _ _ _ ih =>
      simp only [List.length_cons, ih]
      omega

theorem HexText.decPairs_eq {text data : Text} (htext : HexText text data) :
    decPairs text = .ok data := by
  induction htext with
  | nil => rfl
  | @cons high low h l text data hhigh hlow _ ih =>
      have hfirst := nibble_eq_ok.mpr ⟨h, hhigh, rfl⟩
      have hsecond := nibble_eq_ok.mpr ⟨l, hlow, rfl⟩
      rw [decPairs, hfirst, hsecond, ih]
      change Except.ok ((_ : UInt8) :: data) = _
      rw [joined h (getVal_lt hhigh) l (getVal_lt hlow)]

theorem hexText_of_decPairs {text data : Text} (heven : text.length % 2 = 0)
    (hdecode : decPairs text = .ok data) : HexText text data := by
  induction text using decPairs.induct generalizing data with
  | case1 high low rest ih =>
      rw [decPairs, bind_eq_ok] at hdecode
      obtain ⟨h, hhigh, hdecode⟩ := hdecode
      obtain ⟨l, hlow, hdecode⟩ := bind_eq_ok.mp hdecode
      obtain ⟨data', hrest, hdata⟩ := bind_eq_ok.mp hdecode
      obtain ⟨n, hn, rfl⟩ := nibble_eq_ok.mp hhigh
      obtain ⟨k, hk, rfl⟩ := nibble_eq_ok.mp hlow
      obtain rfl := Except.ok.inj hdata
      rw [joined n (getVal_lt hn) k (getVal_lt hk)]
      simp only [List.length_cons] at heven
      exact .cons hn hk (ih (by omega) hrest)
  | case2 text hshort =>
      cases text with
      | nil =>
          obtain rfl := Except.ok.inj hdecode
          exact .nil
      | cons c rest =>
          cases rest with
          | nil => simp at heven
          | cons c' rest => exact absurd rfl (hshort c c' rest)

theorem decPairs_eq_error {text : Text} {stop : Stop}
    (heven : text.length % 2 = 0) : decPairs text = .error stop ↔
      (∃ c ∈ text, getVal c 16 = none) ∧ stop = .assertionFailed "0" := by
  induction text using decPairs.induct with
  | case1 high low rest ih =>
      simp only [List.length_cons] at heven
      have hrest := ih (by omega)
      rw [decPairs]
      cases hhigh : getVal high 16 with
      | none =>
          have hfirst := nibble_eq_error.mpr ⟨hhigh, rfl⟩
          rw [hfirst]
          simp [hhigh, eq_comm]
      | some n =>
          have hfirst := nibble_eq_ok.mpr ⟨n, hhigh, rfl⟩
          cases hlow : getVal low 16 with
          | none =>
              have hsecond := nibble_eq_error.mpr ⟨hlow, rfl⟩
              rw [hfirst, hsecond]
              simp [hlow, eq_comm]
          | some k =>
              have hsecond := nibble_eq_ok.mpr ⟨k, hlow, rfl⟩
              rw [hfirst, hsecond, ok_bind, ok_bind, bind_eq_error]
              simp [hrest, hhigh, hlow, pure, Except.pure]
  | case2 text hshort =>
      cases text with
      | nil => simp [decPairs, pure, Except.pure]
      | cons c rest =>
          cases rest with
          | nil => simp at heven
          | cons c' rest => exact absurd rfl (hshort c c' rest)

theorem decHex_eq_some_iff {buf data : Text} {dataLen : Nat} :
    decHex buf dataLen = .ok (some data) ↔
      HexText buf data ∧ data.length = dataLen := by
  unfold decHex
  split
  · next hlength =>
      refine iff_of_false ?_ ?_
      · simp [pure, Except.pure]
      · rintro ⟨htext, rfl⟩
        exact hlength htext.length
  · next hlength =>
      have hlength := Decidable.not_not.mp hlength
      rw [bind_eq_ok]
      constructor
      · rintro ⟨data', hpairs, hdata⟩
        obtain rfl := Option.some.inj (Except.ok.inj hdata)
        have htext := hexText_of_decPairs (by omega) hpairs
        have hlength' := htext.length
        exact ⟨htext, by omega⟩
      · rintro ⟨htext, -⟩
        exact ⟨data, htext.decPairs_eq, rfl⟩

theorem decHex_eq_none_iff {buf : Text} {dataLen : Nat} :
    decHex buf dataLen = .ok none ↔ buf.length ≠ dataLen * 2 := by
  unfold decHex
  split
  · next hlength => simp [hlength, pure, Except.pure]
  · next hlength =>
      refine iff_of_false ?_ hlength
      rw [bind_eq_ok]
      rintro ⟨data, -, hdata⟩
      cases hdata

theorem decHex_eq_error_iff {buf : Text} {dataLen : Nat} {stop : Stop} :
    decHex buf dataLen = .error stop ↔ buf.length = dataLen * 2 ∧
      (∃ c ∈ buf, getVal c 16 = none) ∧ stop = .assertionFailed "0" := by
  unfold decHex
  split
  · next hlength => simp [hlength, pure, Except.pure]
  · next hlength =>
      have hlength := Decidable.not_not.mp hlength
      rw [bind_eq_error, decPairs_eq_error (by omega)]
      simp [hlength, pure, Except.pure]

theorem getVal_getDigit : ∀ n < 16, getVal (getDigit n) 16 = some n := by
  decide

theorem nibbles (c : UInt8) : ((c >>> 4) &&& 0xf).toNat = c.toNat / 16 ∧
    (c &&& 0xf).toNat = c.toNat % 16 := by
  have hmask (n : Nat) : n &&& 15 = n % 16 := Nat.and_two_pow_sub_one_eq_mod n 4
  have hlow : (c &&& 0xf).toNat = c.toNat % 16 := by
    rw [UInt8.toNat_and]
    exact hmask c.toNat
  have hhigh : ((c >>> 4) &&& 0xf).toNat = c.toNat / 16 % 16 := by
    rw [UInt8.toNat_and, UInt8.toNat_shiftRight, Nat.shiftRight_eq_div_pow]
    exact hmask _
  have hlt := c.toNat_lt
  exact ⟨by omega, hlow⟩

theorem hexText_flatMap (data : Text) : HexText (data.flatMap hexPair) data := by
  induction data with
  | nil => exact .nil
  | cons c rest ih =>
      obtain ⟨hhigh, hlow⟩ := nibbles c
      have hlt := c.toNat_lt
      have hbyte : UInt8.ofNat (16 * (c.toNat / 16) + c.toNat % 16) = c := by
        rw [Nat.div_add_mod]
        exact UInt8.ofNat_toNat
      have htext := HexText.cons
        (getVal_getDigit (c.toNat / 16) (by omega))
        (getVal_getDigit (c.toNat % 16) (by omega)) ih
      rw [hbyte] at htext
      rwa [List.flatMap_cons, hexPair, hhigh, hlow]

theorem length_flatMap_hexPair (data : Text) :
    (data.flatMap hexPair).length = data.length * 2 :=
  (hexText_flatMap data).length

/-! ### The binary code -/

def mask (c : UInt8) : UInt8 := c ^^^ 0x20

/-- A text in the binary code of the protocol stands for these bytes. -/
abbrev BinText (text data : Text) : Prop :=
  Escaping.Spells '}'.toUInt8 mask text data

def binary (data : Text) : Text :=
  Escaping.encode Reserved '}'.toUInt8 mask data

theorem mask_mask (c : UInt8) : mask (mask c) = c := by
  rw [mask, mask, UInt8.xor_assoc, UInt8.xor_self, UInt8.xor_zero]

theorem not_reserved_mask {c : UInt8} (hreserved : Reserved c) :
    ¬Reserved (mask c) := by
  rcases hreserved with rfl | rfl | rfl | rfl <;> decide

theorem encBin_of_fits {bufLen bufPos : Nat} {data : Text}
    (hfits : bufPos + (binary data).length ≤ bufLen) :
    encBin bufLen bufPos data = .ok (binary data) := by
  induction data generalizing bufPos with
  | nil => rfl
  | cons c rest ih =>
      unfold binary at hfits ih ⊢
      by_cases hreserved : Reserved c
      · rw [Escaping.encode_special hreserved] at hfits ⊢
        simp only [List.length_cons] at hfits
        rw [encBin, if_pos hreserved, if_neg (by omega), ih (by omega)]
        rfl
      · rw [Escaping.encode_plain hreserved] at hfits ⊢
        simp only [List.length_cons] at hfits
        rw [encBin, if_neg hreserved, if_neg (by omega), ih (by omega)]
        rfl

theorem encBin_of_full {bufLen bufPos : Nat} {data : Text}
    (hpos : bufPos ≤ bufLen) (hfull : bufLen < bufPos + (binary data).length) :
    encBin bufLen bufPos data = .error (.assertionFailed "0") := by
  induction data generalizing bufPos with
  | nil => exact absurd hfull (Nat.not_lt.mpr hpos)
  | cons c rest ih =>
      unfold binary at hfull ih
      by_cases hreserved : Reserved c
      · rw [Escaping.encode_special hreserved] at hfull
        simp only [List.length_cons] at hfull
        rw [encBin, if_pos hreserved]
        split
        · rfl
        · next hroom =>
            rw [ih (by omega) (by omega)]
            rfl
      · rw [Escaping.encode_plain hreserved] at hfull
        simp only [List.length_cons] at hfull
        rw [encBin, if_neg hreserved]
        split
        · rfl
        · next hroom =>
            rw [ih (by omega) (by omega)]
            rfl

/-- `dec_bin` undoes the escaping where there is room for the bytes, and fails an
assertion otherwise. -/
theorem decBin_eq {dataLen dataPos : Nat} {text : Text} (hpos : dataPos ≤ dataLen) :
    decBin dataLen dataPos text =
      match Escaping.decode '}'.toUInt8 mask text with
      | some data =>
          if dataPos + data.length ≤ dataLen then .ok data
          else .error (.assertionFailed "0")
      | none => .error (.assertionFailed "0") := by
  induction dataPos, text using decBin.induct dataLen with
  | case1 dataPos =>
      simp [decBin, Escaping.decode, hpos, pure, Except.pure]
  | case2 dataPos c hfull =>
      rw [decBin, if_pos hfull, Escaping.decode]
      by_cases hc : c = '}'.toUInt8
      · rw [if_pos hc]
      · rw [if_neg hc]
        dsimp only
        rw [if_neg (by simp only [List.length_singleton]; omega)]
  | case3 dataPos hfits =>
      rw [decBin, if_neg hfits, if_pos rfl, Escaping.decode, if_pos rfl]
  | case4 dataPos c hfits hplain =>
      rw [decBin, if_neg hfits, if_neg hplain, Escaping.decode, if_neg hplain]
      dsimp only
      rw [if_pos (by simp only [List.length_singleton]; omega)]
      rfl
  | case5 dataPos c next rest hfull =>
      rw [decBin, if_pos hfull]
      cases hdecode : Escaping.decode '}'.toUInt8 mask (c :: next :: rest) with
      | none => rfl
      | some data =>
          have hspells := Escaping.decode_eq_some_iff.mp hdecode
          cases data with
          | nil => cases hspells
          | cons c' data =>
              dsimp only
              rw [if_neg (by simp only [List.length_cons]; omega)]
  | case6 dataPos next rest hfits ih =>
      rw [decBin, if_neg hfits, if_pos rfl, ih (by omega), Escaping.decode, if_pos rfl]
      cases Escaping.decode '}'.toUInt8 mask rest with
      | none => rfl
      | some data =>
          simp only [Option.map_some, List.length_cons]
          by_cases hroom : dataPos + 1 + data.length ≤ dataLen
          · rw [if_pos hroom, if_pos (by omega)]
            rfl
          · rw [if_neg hroom, if_neg (by omega)]
            rfl
  | case7 dataPos c next rest hfits hplain ih =>
      rw [decBin, if_neg hfits, if_neg hplain, ih (by omega), Escaping.decode, if_neg hplain]
      cases Escaping.decode '}'.toUInt8 mask (next :: rest) with
      | none => rfl
      | some data =>
          simp only [Option.map_some, List.length_cons]
          by_cases hroom : dataPos + 1 + data.length ≤ dataLen
          · rw [if_pos hroom, if_pos (by omega)]
            rfl
          · rw [if_neg hroom, if_neg (by omega)]
            rfl

theorem decBin_eq_ok_iff {dataLen : Nat} {text data : Text} :
    decBin dataLen 0 text = .ok data ↔
      BinText text data ∧ data.length ≤ dataLen := by
  rw [decBin_eq (Nat.zero_le _), BinText, ← Escaping.decode_eq_some_iff]
  cases Escaping.decode '}'.toUInt8 mask text with
  | none => simp
  | some data' =>
      dsimp only
      split
      · next hfits =>
          constructor
          · intro hdata
            obtain rfl := Except.ok.inj hdata
            exact ⟨rfl, by omega⟩
          · rintro ⟨hdata, -⟩
            rw [Option.some.inj hdata]
      · next hfull =>
          refine iff_of_false (fun h => by cases h) ?_
          rintro ⟨hdata, hfits⟩
          obtain rfl := Option.some.inj hdata
          omega

/-! ### Numerals -/

/-- The text is the number, written with hexadecimal digits. -/
def Numeral (text : Text) (n : Nat) : Prop :=
  text ≠ [] ∧ ∃ ds : List Nat, text.map (getVal · 16) = ds.map some ∧
    horner 16 0 ds = n

/-- The text does not go on with a digit, nor with the `x` of a mark. -/
def Ends (rest : Text) : Prop :=
  ∀ c ∈ rest.head?, getVal c 16 = none ∧ c ≠ 'x'.toUInt8 ∧ c ≠ 'X'.toUInt8

theorem ends_cons {c : UInt8} (rest : Text)
    (hc : getVal c 16 = none ∧ c ≠ 'x'.toUInt8 ∧ c ≠ 'X'.toUInt8) :
    Ends (c :: rest) := by
  rintro c' hc'
  obtain rfl := Option.mem_some.mp hc'
  exact hc

theorem convert_of_ends {rest : Text} (hends : Ends rest) (value : UInt32)
    (pos : Nat) (valid : Bool) :
    convert 16 rest value pos valid = (value, pos, valid) := by
  cases rest with
  | nil => rfl
  | cons c rest =>
      rw [convert, (hends c rfl).1]
      split <;> rfl

theorem convert_digits {text rest : Text} {ds : List Nat}
    (hdigits : text.map (getVal · 16) = ds.map some) (hends : Ends rest)
    (value pos : Nat) (valid : Bool) :
    convert 16 (text ++ rest) (UInt32.ofNat value) pos valid =
      (UInt32.ofNat (horner 16 value ds), pos + text.length,
        valid || !text.isEmpty) := by
  induction text generalizing ds value pos valid with
  | nil =>
      obtain rfl : ds = [] := by simpa using hdigits.symm
      simp [horner, convert_of_ends hends]
  | cons c text ih =>
      cases ds with
      | nil => simp at hdigits
      | cons d ds =>
          simp only [List.map_cons, List.cons.injEq] at hdigits
          obtain ⟨hfirst, hrest⟩ := hdigits
          have hne : c ≠ 0 := by
            rintro rfl
            cases hfirst
          have hnext : UInt32.ofNat value * UInt32.ofNat 16 + UInt32.ofNat d =
              UInt32.ofNat (16 * value + d) := by
            rw [Nat.mul_comm, UInt32.ofNat_add, UInt32.ofNat_mul]
          rw [List.cons_append, convert, if_neg hne, hfirst]
          dsimp only
          rw [hnext, ih hrest]
          simp only [horner, List.length_cons, List.isEmpty_cons, Bool.true_or,
            Bool.not_false, Bool.or_true, Prod.mk.injEq, and_true, true_and]
          omega

theorem strtol_numeral {text rest : Text} {n : Nat} (hnumeral : Numeral text n)
    (hends : Ends rest) :
    strtol (text ++ rest) 16 = (UInt32.ofNat n, some text.length) := by
  obtain ⟨hne, ds, hdigits, rfl⟩ := hnumeral
  obtain ⟨c, text, rfl⟩ := List.exists_cons_of_ne_nil hne
  have hmem (c' : UInt8) (hc' : c' ∈ c :: text) : (getVal c' 16).isSome := by
    have hval := List.mem_map_of_mem (f := (getVal · 16)) hc'
    rw [hdigits] at hval
    obtain ⟨d, -, hd⟩ := List.mem_map.mp hval
    rw [← hd]
    rfl
  have hother (c' : UInt8) (hc' : (getVal c' 16).isSome = false) :
      c' ∉ c :: text := by
    intro hin
    rw [hmem c' hin] at hc'
    cases hc'
  have hminus : c ≠ '-'.toUInt8 := by
    rintro rfl
    exact hother _ (by decide) List.mem_cons_self
  have hplus : c ≠ '+'.toUInt8 := by
    rintro rfl
    exact hother _ (by decide) List.mem_cons_self
  have hmark (x : UInt8) (hx : (getVal x 16).isSome = false)
      (hx' : x = 'x'.toUInt8 ∨ x = 'X'.toUInt8) : (text ++ rest)[0]? ≠ some x := by
    cases text with
    | nil =>
        intro hhead
        rw [List.nil_append, ← List.head?_eq_getElem?] at hhead
        obtain ⟨-, hlower, hupper⟩ := hends x hhead
        exact hx'.elim hlower hupper
    | cons c' text =>
        rintro hhead
        obtain rfl : c' = x := by simpa using hhead
        exact hother _ hx (List.mem_cons_of_mem _ List.mem_cons_self)
  have hsign : signOf (c :: text ++ rest) = (1, 0) := by
    simp [signOf, hminus, hplus]
  have hlower := hmark 'x'.toUInt8 (by decide) (.inl rfl)
  have hupper := hmark 'X'.toUInt8 (by decide) (.inr rfl)
  have hconvert : convert 16 (c :: (text ++ rest)) 0 0 false =
      (UInt32.ofNat (horner 16 0 ds), text.length + 1, true) := by
    have hread := convert_digits hdigits hends 0 0 false
    rwa [Nat.zero_add] at hread
  unfold strtol
  rw [if_neg (by simp), hsign]
  simp [hlower, hupper, hconvert]

end X86Os32.GDB
