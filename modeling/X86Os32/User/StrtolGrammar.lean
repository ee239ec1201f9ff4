import Mathlib.Data.List.TakeWhile
import X86Os32.User.Strtol

namespace X86Os32.Strings

open Library Library.Positional
open OStream (Text)

/-! The numbers that `strtol` reads, as a grammar, and what the conversion with
32-bit words makes of them. -/

def digitOf (c : UInt8) : Option Nat :=
  if '0'.toUInt8 ≤ c ∧ c ≤ '9'.toUInt8 then some (c.toNat - '0'.toNat)
  else if 'a'.toUInt8 ≤ c ∧ c ≤ 'z'.toUInt8 then
    some (c.toNat - 'a'.toNat + 10)
  else if 'A'.toUInt8 ≤ c ∧ c ≤ 'Z'.toUInt8 then
    some (c.toNat - 'A'.toNat + 10)
  else none

def validDigit (base : Nat) (c : UInt8) : Option Nat :=
  (digitOf c).filter (· < base)

/-- A mark that the base allows stands in front of the digits, which are to the
base that it announces. -/
inductive Marked (base : Nat) : Text → Nat → Text → Prop
  | binary (hbase : base = 0 ∨ base = 2) (c : UInt8)
      (hc : c = 'b'.toUInt8 ∨ c = 'B'.toUInt8) (digits : Text) :
      Marked base ('0'.toUInt8 :: c :: digits) 2 digits
  | hexadecimal (hbase : base = 0 ∨ base = 16) (c : UInt8)
      (hc : c = 'x'.toUInt8 ∨ c = 'X'.toUInt8) (digits : Text) :
      Marked base ('0'.toUInt8 :: c :: digits) 16 digits
  | octal (hbase : base = 0 ∨ base = 8) (c : UInt8) (more : Text) :
      Marked base ('0'.toUInt8 :: c :: more) 8 (c :: more)

/-- What stands behind the sign, with the base and the text of the digits.
A mark is taken for one wherever it is allowed. -/
inductive Body (base : Nat) (body : Text) : Nat → Text → Prop
  | marked {b : Nat} {digits : Text} (hmarked : Marked base body b digits) :
      Body base body b digits
  | plain (hplain : ∀ b digits, ¬Marked base body b digits) :
      Body base body (if base = 0 then 10 else base) body

/-- Blanks, a sign, a mark and one or more digits, with their base and their
values. -/
inductive Numeral (base : Nat) (str : Text) (negative : Bool) (b : Nat)
    (ds : List Nat) : Prop
  | mk (spaces : Nat) (body digits : Text)
      (hstr : str =
        List.replicate spaces ' '.toUInt8 ++ (sign negative ++ body))
      (hbody : Body base body b digits) (hne : digits ≠ [])
      (hdigits : digits.mapM (validDigit b) = some ds) :
      Numeral base str negative b ds

theorem code_eq (c : UInt8) :
    code c = if c.toNat < 128 then (c.toNat : Int) else (c.toNat : Int) - 256 := by
  change (if 2 * c.toNat < 2 ^ 8 then (c.toNat : Int)
    else (c.toNat : Int) - (2 ^ 8 : Nat)) = _
  split <;> split <;> omega

theorem digitOf_eq (c : UInt8) :
    digitOf c =
      if 48 ≤ c.toNat ∧ c.toNat ≤ 57 then some (c.toNat - 48)
      else if 97 ≤ c.toNat ∧ c.toNat ≤ 122 then some (c.toNat - 97 + 10)
      else if 65 ≤ c.toNat ∧ c.toNat ≤ 90 then some (c.toNat - 65 + 10)
      else none := by
  simp only [digitOf, UInt8.le_iff_toNat_le]
  rfl

theorem digitValue_toNat (base : Int) (c : UInt8) :
    digitValue base c =
      let cur : Int :=
        if c.toNat < 128 then (c.toNat : Int) else (c.toNat : Int) - 256
      if 48 ≤ cur ∧ cur ≤ 48 + min base 10 - 1 then some (cur - 48)
      else if base > 10 ∧ ((97 ≤ cur ∧ cur ≤ 97 + base - 10 - 1) ∨
          (65 ≤ cur ∧ cur ≤ 65 + base - 10 - 1)) then
        some (10 + cur - if 97 ≤ cur ∧ cur ≤ 97 + base then 97 else 65)
      else none := by
  have h0 : code '0'.toUInt8 = 48 := by decide
  have ha : code 'a'.toUInt8 = 97 := by decide
  have hA : code 'A'.toUInt8 = 65 := by decide
  unfold digitValue
  rw [h0, ha, hA, code_eq c]

theorem digitValue_eq {base : Nat} (hlow : 2 ≤ base) (hhigh : base ≤ 36)
    (c : UInt8) :
    digitValue base c = (validDigit base c).map fun d : Nat => (d : Int) := by
  have hc := c.toNat_lt
  rw [digitValue_toNat, validDigit, digitOf_eq]
  generalize c.toNat = n at hc ⊢
  dsimp only
  by_cases hdigit : 48 ≤ n ∧ n ≤ 57
  · rw [if_pos hdigit, if_pos (by omega : n < 128)]
    by_cases hlt : n - 48 < base
    · rw [if_pos (by omega), Option.filter_some_pos (by simpa using hlt)]
      simp
      omega
    · rw [if_neg (by omega), if_neg (by omega),
        Option.filter_some_neg (by simpa using hlt)]
      rfl
  · rw [if_neg hdigit]
    by_cases hsmall : 97 ≤ n ∧ n ≤ 122
    · rw [if_pos hsmall, if_pos (by omega : n < 128), if_neg (by omega)]
      by_cases hlt : n - 97 + 10 < base
      · rw [if_pos (by omega), if_pos (by omega),
          Option.filter_some_pos (by simpa using hlt)]
        simp
        omega
      · rw [if_neg (by omega), Option.filter_some_neg (by simpa using hlt)]
        rfl
    · rw [if_neg hsmall]
      by_cases hlarge : 65 ≤ n ∧ n ≤ 90
      · rw [if_pos hlarge, if_pos (by omega : n < 128), if_neg (by omega)]
        by_cases hlt : n - 65 + 10 < base
        · rw [if_pos (by omega), if_neg (by omega),
            Option.filter_some_pos (by simpa using hlt)]
          simp
          omega
        · rw [if_neg (by omega), Option.filter_some_neg (by simpa using hlt)]
          rfl
      · rw [if_neg hlarge, if_neg (by split <;> omega),
          if_neg (by split <;> omega)]
        rfl

/-! ### The conversion -/

/-- The numbers read so far, taken as 32-bit words, never go down. -/
def Increases (base : Nat) : Nat → List Nat → Prop
  | _, [] => True
  | n, d :: ds =>
      n % 2 ^ 32 ≤ (base * n + d) % 2 ^ 32 ∧ Increases base (base * n + d) ds

theorem mapM_cons_eq_some {f : α → Option β} {a : α} {as : List α}
    {bs : List β} :
    (a :: as).mapM f = some bs ↔
      ∃ b, f a = some b ∧ ∃ bs', as.mapM f = some bs' ∧ b :: bs' = bs := by
  simp [List.mapM_cons, Option.bind_eq_some_iff]

theorem convert_next (base n d : Nat) :
    (((base : Int) * (n % 2 ^ 32 : Nat) + d) % 2 ^ 32).toNat =
      (base * n + d) % 2 ^ 32 := by
  have hcast : (base : Int) * (n % 2 ^ 32 : Nat) + d =
      ((base * (n % 2 ^ 32) + d : Nat) : Int) := by
    push_cast
    rfl
  have hword : ((base * (n % 2 ^ 32) + d : Nat) : Int) % 2 ^ 32 =
      ((base * (n % 2 ^ 32) + d) % 2 ^ 32 : Nat) := rfl
  rw [hcast, hword, Int.toNat_natCast, Nat.add_mod, Nat.mul_mod, Nat.mod_mod,
    ← Nat.mul_mod, ← Nat.add_mod]

section Conversion

variable {base : Nat} (hlow : 2 ≤ base) (hhigh : base ≤ 36)

include hlow hhigh

theorem convert_valid {digits : Text} {ds : List Nat}
    (hdigits : digits.mapM (validDigit base) = some ds) (n : Nat)
    (error : Bool) :
    (Increases base n ds →
      convert base digits (n % 2 ^ 32) error =
        some (horner base n ds % 2 ^ 32, if digits = [] then error else false)) ∧
    (¬Increases base n ds →
      convert base digits (n % 2 ^ 32) error = none) := by
  induction digits generalizing ds n error with
  | nil =>
      cases hdigits
      exact ⟨fun _ => rfl, fun hnot => absurd trivial hnot⟩
  | cons c digits ih =>
      obtain ⟨d, hd, ds, hrest, rfl⟩ := mapM_cons_eq_some.mp hdigits
      have hvalue := digitValue_eq hlow hhigh c
      rw [hd, Option.map_some] at hvalue
      obtain ⟨hgoes, hstops⟩ := ih hrest (base * n + d) false
      rw [convert, hvalue]
      simp only [convert_next]
      constructor
      · rintro ⟨hle, hincreases⟩
        rw [if_neg (Nat.not_lt.mpr hle), hgoes hincreases]
        simp [horner]
      · intro hnot
        by_cases hle : n % 2 ^ 32 ≤ (base * n + d) % 2 ^ 32
        · rw [if_neg (Nat.not_lt.mpr hle)]
          exact hstops fun hincreases => hnot ⟨hle, hincreases⟩
        · rw [if_pos (Nat.lt_of_not_le hle)]

theorem convert_invalid {digits : Text}
    (hdigits : digits.mapM (validDigit base) = none) (res : Nat)
    (error : Bool) :
    convert base digits res error = none ∨
      ∃ r, convert base digits res error = some (r, true) := by
  induction digits generalizing res error with
  | nil => cases hdigits
  | cons c digits ih =>
      have hvalue := digitValue_eq hlow hhigh c
      cases hd : validDigit base c with
      | none =>
          rw [hd, Option.map_none] at hvalue
          rw [convert, hvalue]
          exact .inr ⟨res, rfl⟩
      | some d =>
          rw [hd, Option.map_some] at hvalue
          have hrest : digits.mapM (validDigit base) = none := by
            apply Option.eq_none_iff_forall_ne_some.mpr
            simpa [List.mapM_cons, hd] using hdigits
          rw [convert, hvalue]
          dsimp only
          split
          · exact .inl rfl
          · exact ih hrest _ false

omit hhigh

theorem increases_of_lt {n : Nat} {ds : List Nat}
    (hfits : horner base n ds < 2 ^ 32) : Increases base n ds := by
  induction ds generalizing n with
  | nil => trivial
  | cons d ds ih =>
      have hle := le_horner (n := base * n + d) (show 0 < base by omega) ds
      have hgrow : n ≤ base * n := Nat.le_mul_of_pos_left n (by omega)
      rw [horner] at hfits
      refine ⟨?_, ih hfits⟩
      rw [Nat.mod_eq_of_lt (by omega), Nat.mod_eq_of_lt (by omega)]
      omega

end Conversion

/-! ### The beginning of the string -/

def result (negative : Bool) : Option (Nat × Bool) → Int × Bool
  | none => (ssizeMax, true)
  | some (res, error) =>
      if res > ssizeMax then (ssizeMax, true)
      else if negative then ((res : Int) * -1, error)
      else (res, error)

theorem strtol_skips {str body : Text} {spaces : Nat} {negative : Bool}
    (hstr : str = List.replicate spaces ' '.toUInt8 ++ (sign negative ++ body))
    (hbody : negative = false →
      body.head? ≠ some ' '.toUInt8 ∧ body.head? ≠ some '-'.toUInt8)
    (base : Int) :
    ∃ i ≤ str.length, str.drop i = body ∧
      strtol str base = result negative
        (convert (detectBase str i base).2
          (str.drop (detectBase str i base).1) 0 true) := by
  have hspaces : (str.takeWhile fun c => c = ' '.toUInt8) =
      List.replicate spaces ' '.toUInt8 := by
    rw [hstr, List.takeWhile_append_of_pos (by simp)]
    have hstop : ((sign negative ++ body).takeWhile
        fun c => c = ' '.toUInt8) = [] := by
      cases negative with
      | true => rfl
      | false =>
          cases body with
          | nil => rfl
          | cons c body =>
              have hc : c ≠ ' '.toUInt8 := by simpa using (hbody rfl).1
              exact List.takeWhile_cons_of_neg (by simpa using hc)
    rw [hstop, List.append_nil]
  have hrest : str.drop spaces = sign negative ++ body := by
    rw [hstr, List.drop_left' List.length_replicate]
  have hnegative : decide (str[spaces]? = some '-'.toUInt8) = negative := by
    rw [← List.head?_drop, hrest]
    cases negative with
    | true => rfl
    | false => simpa [sign] using (hbody rfl).2
  have hdrop : str.drop (if negative = true then spaces + 1 else spaces) =
      body := by
    cases negative with
    | true => rw [if_pos rfl, ← List.drop_drop, hrest]; rfl
    | false => rw [if_neg Bool.false_ne_true, hrest]; rfl
  refine ⟨if negative = true then spaces + 1 else spaces, ?_, hdrop, ?_⟩
  · have hlength := congrArg List.length hstr
    simp only [List.length_append, List.length_replicate] at hlength
    cases negative with
    | true => simp [sign] at hlength ⊢; omega
    | false => simp [sign] at hlength ⊢; omega
  · unfold strtol
    simp only [hspaces, List.length_replicate, hnegative]
    rfl

theorem exists_skips (str : Text) :
    ∃ spaces negative body,
      str = List.replicate spaces ' '.toUInt8 ++ (sign negative ++ body) ∧
      (negative = false →
        body.head? ≠ some ' '.toUInt8 ∧ body.head? ≠ some '-'.toUInt8) := by
  have hsplit : (str.takeWhile fun c => c = ' '.toUInt8) ++
      str.dropWhile (fun c => c = ' '.toUInt8) = str :=
    List.takeWhile_append_dropWhile
  have hspaces : (str.takeWhile fun c => c = ' '.toUInt8) =
      List.replicate (str.takeWhile fun c => c = ' '.toUInt8).length
        ' '.toUInt8 := by
    apply List.eq_replicate_iff.mpr
    refine ⟨rfl, fun c hc => ?_⟩
    simpa using List.mem_takeWhile_imp hc
  rw [hspaces] at hsplit
  cases hrest : str.dropWhile fun c => c = ' '.toUInt8 with
  | nil =>
      rw [hrest] at hsplit
      exact ⟨_, false, [], hsplit.symm, fun _ => ⟨by simp, by simp⟩⟩
  | cons c rest =>
      have hhead := List.head?_dropWhile_not (fun c => decide (c = ' '.toUInt8)) str
      rw [hrest] at hsplit hhead
      have hblank : c ≠ ' '.toUInt8 := by simpa using hhead
      by_cases hminus : c = '-'.toUInt8
      · subst hminus
        exact ⟨_, true, rest, hsplit.symm, fun hfalse => by cases hfalse⟩
      · refine ⟨_, false, c :: rest, hsplit.symm, fun _ => ⟨?_, ?_⟩⟩
        · simpa using hblank
        · simpa using hminus

theorem exists_body {str body : Text} {base i : Nat} (hdrop : str.drop i = body)
    (hfits : i + 2 < 2 ^ 32) (hi : i ≤ str.length)
    (hbase : base = 0 ∨ 2 ≤ base ∧ base ≤ 36) :
    ∃ b digits, (detectBase str i base).2 = (b : Nat) ∧
      str.drop (detectBase str i base).1 = digits ∧
      Body base body b digits ∧ 2 ≤ b ∧ b ≤ 36 := by
  have hmore (k : Nat) : str.drop (i + k) = body.drop k := by
    rw [← List.drop_drop, hdrop]
  rw [detectBase_eq hdrop hfits hi]
  split
  · next hbinary =>
    obtain ⟨hallowed, hmark⟩ := hbinary
    obtain ⟨c, hc, digits, rfl⟩ : ∃ c, (c = 'b'.toUInt8 ∨ c = 'B'.toUInt8) ∧
        ∃ digits, body = '0'.toUInt8 :: c :: digits := by
      rcases hmark with ⟨digits, rfl⟩ | ⟨digits, rfl⟩
      · exact ⟨_, .inl rfl, digits, rfl⟩
      · exact ⟨_, .inr rfl, digits, rfl⟩
    exact ⟨2, digits, rfl, hmore 2,
      .marked (.binary (by omega) c hc digits), by decide, by decide⟩
  split
  · next _ hhexadecimal =>
    obtain ⟨hallowed, hmark⟩ := hhexadecimal
    obtain ⟨c, hc, digits, rfl⟩ : ∃ c, (c = 'x'.toUInt8 ∨ c = 'X'.toUInt8) ∧
        ∃ digits, body = '0'.toUInt8 :: c :: digits := by
      rcases hmark with ⟨digits, rfl⟩ | ⟨digits, rfl⟩
      · exact ⟨_, .inl rfl, digits, rfl⟩
      · exact ⟨_, .inr rfl, digits, rfl⟩
    exact ⟨16, digits, rfl, hmore 2,
      .marked (.hexadecimal (by omega) c hc digits), by decide, by decide⟩
  split
  · next _ _ hoctal =>
    obtain ⟨hallowed, ⟨more, rfl⟩, hlong⟩ := hoctal
    cases more with
    | nil => simp at hlong
    | cons c more =>
        exact ⟨8, c :: more, rfl, hmore 1,
          .marked (.octal (by omega) c more), by decide, by decide⟩
  · next hbinary hhexadecimal hoctal =>
    have hplain : ∀ b digits, ¬Marked base body b digits := by
      intro b digits hmarked
      cases hmarked with
      | binary hallowed c hc digits =>
          apply hbinary
          refine ⟨by omega, ?_⟩
          rcases hc with rfl | rfl
          · exact .inl ⟨digits, rfl⟩
          · exact .inr ⟨digits, rfl⟩
      | hexadecimal hallowed c hc digits =>
          apply hhexadecimal
          refine ⟨by omega, ?_⟩
          rcases hc with rfl | rfl
          · exact .inl ⟨digits, rfl⟩
          · exact .inr ⟨digits, rfl⟩
      | octal hallowed c more =>
          apply hoctal
          exact ⟨by omega, ⟨c :: more, rfl⟩, by simp⟩
    refine ⟨if base = 0 then 10 else base, body, ?_, ?_, .plain hplain, ?_, ?_⟩
    · rcases Nat.eq_zero_or_pos base with rfl | hpos
      · rfl
      · rw [if_neg (by omega), if_neg (by omega)]
    · split <;> exact hdrop
    · split <;> omega
    · split <;> omega

theorem not_octal {more : Text} {c : UInt8} {ds : List Nat}
    (hdigits : (c :: more).mapM (validDigit 8) = some ds) :
    c ∉ ['b'.toUInt8, 'B'.toUInt8, 'x'.toUInt8, 'X'.toUInt8] := by
  obtain ⟨d, hd, -⟩ := mapM_cons_eq_some.mp hdigits
  intro hmem
  have hnone : ∀ c ∈ ['b'.toUInt8, 'B'.toUInt8, 'x'.toUInt8, 'X'.toUInt8],
      validDigit 8 c = none := by decide +kernel
  rw [hnone c hmem] at hd
  cases hd

/-- Where the digits are valid, `detectBase` agrees with the grammar. -/
theorem detectBase_of_body {str body digits : Text} {base i b : Nat}
    {ds : List Nat} (hdrop : str.drop i = body) (hfits : i + 2 < 2 ^ 32)
    (hi : i ≤ str.length) (hbase : base = 0 ∨ 2 ≤ base ∧ base ≤ 36)
    (hbody : Body base body b digits)
    (hdigits : digits.mapM (validDigit b) = some ds) :
    (detectBase str i base).2 = (b : Nat) ∧
      str.drop (detectBase str i base).1 = digits := by
  have hmore (k : Nat) : str.drop (i + k) = body.drop k := by
    rw [← List.drop_drop, hdrop]
  cases hbody with
  | marked hmarked =>
      rw [detectBase_eq hdrop hfits hi]
      cases hmarked with
      | binary hallowed c hc digits =>
          rw [if_pos ⟨by omega, by
            rcases hc with rfl | rfl <;> simp [List.cons_prefix_cons]⟩]
          exact ⟨rfl, hmore 2⟩
      | hexadecimal hallowed c hc digits =>
          rw [if_neg, if_pos ⟨by omega, by
            rcases hc with rfl | rfl <;> simp [List.cons_prefix_cons]⟩]
          · exact ⟨rfl, hmore 2⟩
          · rintro ⟨-, hmark⟩
            revert hmark
            rcases hc with rfl | rfl <;>
              simp [List.cons_prefix_cons] <;> decide
      | octal hallowed c more =>
          have hletter := not_octal hdigits
          simp only [List.mem_cons, List.not_mem_nil, or_false, not_or]
            at hletter
          obtain ⟨hb, hB, hx, hX⟩ := hletter
          rw [if_neg, if_neg, if_pos ⟨by omega, by simp [List.cons_prefix_cons],
            by simp⟩]
          · exact ⟨rfl, hmore 1⟩
          · rintro ⟨-, hmark⟩
            simp [List.cons_prefix_cons, Ne.symm hx, Ne.symm hX] at hmark
          · rintro ⟨-, hmark⟩
            simp [List.cons_prefix_cons, Ne.symm hb, Ne.symm hB] at hmark
  | plain hplain =>
      obtain ⟨b, digits, hb, hdigits, hbody, -⟩ :=
        exists_body hdrop hfits hi hbase
      cases hbody with
      | marked hmarked => exact absurd hmarked (hplain _ _)
      | plain => exact ⟨hb, hdigits⟩

/-! ### What is read -/

theorem Body.base_bounds {base b : Nat} {body digits : Text}
    (hbody : Body base body b digits)
    (hbase : base = 0 ∨ 2 ≤ base ∧ base ≤ 36) : 2 ≤ b ∧ b ≤ 36 := by
  cases hbody with
  | marked hmarked => cases hmarked <;> decide
  | plain => split <;> omega

theorem Body.head_ne {base b : Nat} {body digits : Text} {ds : List Nat}
    (hbody : Body base body b digits) (hne : digits ≠ [])
    (hdigits : digits.mapM (validDigit b) = some ds) :
    body.head? ≠ some ' '.toUInt8 ∧ body.head? ≠ some '-'.toUInt8 := by
  cases hbody with
  | marked hmarked =>
      cases hmarked <;>
        · rw [List.head?_cons]
          decide
  | plain =>
      cases body with
      | nil => exact absurd rfl hne
      | cons c rest =>
          obtain ⟨d, hd, -⟩ := mapM_cons_eq_some.mp hdigits
          have hvalid : digitOf c ≠ none := by
            intro hnone
            rw [validDigit, hnone] at hd
            cases hd
          have hblank : digitOf ' '.toUInt8 = none := by decide
          have hminus : digitOf '-'.toUInt8 = none := by decide
          rw [List.head?_cons]
          constructor
          · rintro ⟨⟩
            exact hvalid hblank
          · rintro ⟨⟩
            exact hvalid hminus

section Reading

variable {str : Text} {base : Nat} (hlt : str.length < 2 ^ 31)
  (hbase : base = 0 ∨ 2 ≤ base ∧ base ≤ 36)

include hlt hbase

theorem Numeral.strtol_eq {negative : Bool} {b : Nat} {ds : List Nat}
    (hnumeral : Numeral base str negative b ds) :
    ∃ digits, digits ≠ [] ∧ digits.mapM (validDigit b) = some ds ∧
      (2 ≤ b ∧ b ≤ 36) ∧
      strtol str base = result negative (convert b digits 0 true) := by
  obtain ⟨spaces, body, digits, hstr, hbody, hne, hdigits⟩ := hnumeral
  obtain ⟨i, hi, hdrop, hread⟩ :=
    strtol_skips hstr (fun _ => hbody.head_ne hne hdigits) base
  obtain ⟨hb, hrest⟩ :=
    detectBase_of_body hdrop (by omega) hi hbase hbody hdigits
  rw [hb, hrest] at hread
  exact ⟨digits, hne, hdigits, hbody.base_bounds hbase, hread⟩

/-- The number is read unless it overflows unnoticed. -/
theorem Numeral.strtol_of_increases {negative : Bool} {b : Nat}
    {ds : List Nat} (hnumeral : Numeral base str negative b ds)
    (hincreases : Increases b 0 ds) :
    strtol str base =
      result negative (some (horner b 0 ds % 2 ^ 32, false)) := by
  obtain ⟨digits, hne, hdigits, ⟨hlow, hhigh⟩, hread⟩ :=
    hnumeral.strtol_eq hlt hbase
  have hconvert := (convert_valid hlow hhigh hdigits 0 true).1 hincreases
  rw [Nat.zero_mod, if_neg hne] at hconvert
  rw [hread, hconvert]

theorem Numeral.strtol_of_not_increases {negative : Bool} {b : Nat}
    {ds : List Nat} (hnumeral : Numeral base str negative b ds)
    (hnot : ¬Increases b 0 ds) :
    strtol str base = ((ssizeMax : Int), true) := by
  obtain ⟨digits, hne, hdigits, ⟨hlow, hhigh⟩, hread⟩ :=
    hnumeral.strtol_eq hlt hbase
  have hconvert := (convert_valid hlow hhigh hdigits 0 true).2 hnot
  rw [Nat.zero_mod] at hconvert
  rw [hread, hconvert, result]

theorem Numeral.strtol_small {negative : Bool} {b : Nat} {ds : List Nat}
    (hnumeral : Numeral base str negative b ds)
    (hsmall : horner b 0 ds ≤ ssizeMax) :
    strtol str base =
      (if negative then -(horner b 0 ds : Int) else horner b 0 ds, false) := by
  obtain ⟨-, -, -, ⟨hlow, -⟩, -⟩ := hnumeral.strtol_eq hlt hbase
  have hword : horner b 0 ds < 2 ^ 32 := by
    unfold ssizeMax at hsmall
    omega
  rw [hnumeral.strtol_of_increases hlt hbase (increases_of_lt hlow hword),
    Nat.mod_eq_of_lt hword, result, if_neg (Nat.not_lt.mpr hsmall)]
  cases negative with
  | true => simp
  | false => simp

theorem strtol_of_not_numeral
    (hnone : ¬∃ negative b ds, Numeral base str negative b ds) :
    (strtol str base).2 = true := by
  obtain ⟨spaces, negative, body, hstr, hhead⟩ := exists_skips str
  obtain ⟨i, hi, hdrop, hread⟩ := strtol_skips hstr hhead base
  obtain ⟨b, digits, hb, hrest, hbody, hlow, hhigh⟩ :=
    exists_body hdrop (by omega) hi hbase
  rw [hb, hrest] at hread
  rw [hread]
  cases hdigits : digits.mapM (validDigit b) with
  | none =>
      rcases convert_invalid hlow hhigh hdigits 0 true with hconvert | ⟨r, hconvert⟩
      · rw [hconvert, result]
      · rw [hconvert, result]
        split
        · rfl
        · split <;> rfl
  | some ds =>
      cases digits with
      | nil =>
          rw [convert, result, if_neg (Nat.not_lt_zero _)]
          split <;> rfl
      | cons c rest =>
          exact absurd ⟨negative, b, ds,
            spaces, body, c :: rest, hstr, hbody, List.cons_ne_nil _ _, hdigits⟩
            hnone

end Reading

/-- The string is read as the grammar says, and what exceeds the numbers or is
none is reported. -/
structure ParsesExactly (str : Text) (base : Nat) : Prop where
  numeral : ∀ {negative b ds}, Numeral base str negative b ds →
    (horner b 0 ds ≤ ssizeMax → strtol str base =
      (if negative then -(horner b 0 ds : Int) else horner b 0 ds, false)) ∧
    (ssizeMax < horner b 0 ds → strtol str base = ((ssizeMax : Int), true))
  other : (¬∃ negative b ds, Numeral base str negative b ds) →
    (strtol str base).2 = true

/-- The number is too large, but with 32-bit words no digit makes it smaller,
and what is left in the end is small enough. -/
def OverflowsUnnoticed (str : Text) (base : Nat) : Prop :=
  ∃ negative b ds, Numeral base str negative b ds ∧
    ssizeMax < horner b 0 ds ∧ Increases b 0 ds ∧
    horner b 0 ds % 2 ^ 32 ≤ ssizeMax

theorem strtol_exact_iff {str : Text} {base : Nat} (hlt : str.length < 2 ^ 31)
    (hbase : base = 0 ∨ 2 ≤ base ∧ base ≤ 36) :
    ParsesExactly str base ↔ ¬OverflowsUnnoticed str base := by
  constructor
  · rintro hexact ⟨negative, b, ds, hnumeral, hlarge, hincreases, hsmall⟩
    have hreported := (hexact.numeral hnumeral).2 hlarge
    rw [hnumeral.strtol_of_increases hlt hbase hincreases, result,
      if_neg (Nat.not_lt.mpr hsmall)] at hreported
    have hflag := congrArg Prod.snd hreported
    cases negative <;> cases hflag
  · intro hnoticed
    refine ⟨fun {negative b ds} hnumeral => ⟨?_, ?_⟩, ?_⟩
    · exact hnumeral.strtol_small hlt hbase
    · intro hlarge
      by_cases hincreases : Increases b 0 ds
      · have hrest : ssizeMax < horner b 0 ds % 2 ^ 32 := by
          apply Nat.lt_of_not_le
          intro hsmall
          exact hnoticed ⟨negative, b, ds, hnumeral, hlarge, hincreases, hsmall⟩
        rw [hnumeral.strtol_of_increases hlt hbase hincreases, result,
          if_pos hrest]
      · exact hnumeral.strtol_of_not_increases hlt hbase hincreases
    · exact strtol_of_not_numeral hlt hbase

theorem mapM_validDigit {base : Nat} {digits : Text} {ds : List Nat}
    (hdigits : digits.mapM (validDigit base) = some ds) :
    ds.length = digits.length ∧ ∀ d ∈ ds, d < base := by
  induction digits generalizing ds with
  | nil =>
      cases hdigits
      exact ⟨rfl, fun d hd => absurd hd List.not_mem_nil⟩
  | cons c digits ih =>
      obtain ⟨d, hd, ds, hrest, rfl⟩ := mapM_cons_eq_some.mp hdigits
      obtain ⟨hlength, hbounds⟩ := ih hrest
      have hlt : d < base := by
        simpa using Option.filter_eq_some_iff.mp hd |>.2
      exact ⟨congrArg Nat.succ hlength, List.forall_mem_cons.mpr ⟨hlt, hbounds⟩⟩

theorem Body.length_le {base b : Nat} {body digits : Text}
    (hbody : Body base body b digits) : digits.length ≤ body.length := by
  cases hbody with
  | marked hmarked =>
      cases hmarked with
      | binary => exact Nat.le_add_right _ 2
      | hexadecimal => exact Nat.le_add_right _ 2
      | octal => exact Nat.le_add_right _ 1
  | plain => exact Nat.le_refl _

/-- Five characters are too few for an overflow, whatever the base. -/
theorem not_overflows_of_short {str : Text} {base : Nat}
    (hshort : str.length ≤ 5) (hbase : base = 0 ∨ 2 ≤ base ∧ base ≤ 36) :
    ¬OverflowsUnnoticed str base := by
  rintro ⟨negative, b, ds, ⟨spaces, body, digits, hstr, hbody, -, hdigits⟩,
    hlarge, -⟩
  obtain ⟨hlow, hhigh⟩ := hbody.base_bounds hbase
  obtain ⟨hlength, hbounds⟩ := mapM_validDigit hdigits
  have hbody := hbody.length_le
  have hwhole := congrArg List.length hstr
  simp only [List.length_append] at hwhole
  have hsmall : horner b 0 ds < 36 ^ 5 := by
    calc horner b 0 ds
        < (0 + 1) * b ^ ds.length := horner_lt hbounds 0
      _ = b ^ ds.length := by rw [Nat.zero_add, Nat.one_mul]
      _ ≤ b ^ 5 := Nat.pow_le_pow_right (by omega) (by omega)
      _ ≤ 36 ^ 5 := Nat.pow_le_pow_left hhigh 5
  unfold ssizeMax at hlarge
  omega

theorem body_decimal (digits : Text) : Body 10 digits 10 digits := by
  apply Body.plain
  intro b rest hmarked
  cases hmarked <;> omega

/-- 5000000000 is read as 705032704. -/
theorem strtol_misses_overflow :
    ¬ParsesExactly ("5000000000".toList.map Char.toUInt8) 10 := by
  intro hexact
  have hnumeral : Numeral 10 ("5000000000".toList.map Char.toUInt8) false 10
      [5, 0, 0, 0, 0, 0, 0, 0, 0, 0] :=
    .mk 0 _ _ rfl (body_decimal _) (by decide) (by decide +kernel)
  have hreported := (hexact.numeral hnumeral).2 (by decide)
  have hread : strtol ("5000000000".toList.map Char.toUInt8) 10 =
      (705032704, false) := by decide +kernel
  have hcast : ((10 : Nat) : Int) = 10 := rfl
  rw [hcast, hread] at hreported
  cases congrArg Prod.snd hreported

theorem strtol_exact_iff_hexadecimal :
    ParsesExactly ("-0x1f".toList.map Char.toUInt8) 0 :=
  (strtol_exact_iff (by decide) (.inl rfl)).mpr
    (not_overflows_of_short (by decide) (.inl rfl))

end X86Os32.Strings
