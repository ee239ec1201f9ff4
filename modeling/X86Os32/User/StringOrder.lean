import X86Os32.User.StringMethods
import X86Os32.User.Strtol

set_option linter.style.nameCheck false

namespace X86Os32.Strings

open Library Library.Program
open OStream (Text)

/-! `strcmp` and what is made of it. -/

/-- The loop of `strcmp`, with `count` places to go. -/
def strcmpFrom (str1 str2 : Object) : Nat → Nat → Code (Option Int)
  | 0, _ => pure none
  | count + 1, i => do
      if (← str1.constAt (toInt i)) ≠ (← str2.constAt (toInt i)) then
        let c ← str1.constAt (toInt i)
        let d ← str2.constAt (toInt i)
        return some (code c - code d)
      else strcmpFrom str1 str2 count (i + 1)

def strcmp (str1 str2 : Object) : Code Int := do
  match ← strcmpFrom str1 str2 (min str1.len str2.len) 0 with
  | some difference => return difference
  | none =>
      if str1.len ≠ str2.len then
        return if str1.len > str2.len then 1 else -1
      return 0

def streq (str1 str2 : Object) : Code Bool :=
  return (← strcmp str1 str2) = 0

/-- `String::operator ==` -/
def Object.equals (this str : Object) : Code Bool := streq this str

def order : Text → Text → Int
  | [], [] => 0
  | [], _ :: _ => -1
  | _ :: _, [] => 1
  | c :: a, d :: b => if c ≠ d then code c - code d else order a b

/-- The first text comes first in the lexicographic order of signed characters,
where a shorter text comes before what goes on behind it. -/
def Before (a b : Text) : Prop := List.Lex (fun c d => code c < code d) a b

section Order

variable {a b c : Text}

theorem code_injective {c d : UInt8} (hcode : code c = code d) : c = d := by
  have hsigned : c.toInt8 = d.toInt8 := Int8.toInt_inj.mp hcode
  simpa using congrArg Int8.toUInt8 hsigned

theorem order_eq_zero : order a b = 0 ↔ a = b := by
  fun_induction order a b with
  | case1 => simp
  | case2 => simp
  | case3 => simp
  | case4 c a d b hne =>
      have hcode : code c ≠ code d := fun hcode => hne (code_injective hcode)
      simp [hne]
      omega
  | case5 c a d b heq ih =>
      have hsame : c = d := not_not.mp heq
      simp [hsame, ih]

theorem order_swap (a b : Text) : order b a = -order a b := by
  fun_induction order a b with
  | case1 => rfl
  | case2 => rfl
  | case3 => rfl
  | case4 c a d b hne =>
      rw [order, if_pos (Ne.symm hne)]
      omega
  | case5 c a d b heq ih =>
      have hsame : c = d := not_not.mp heq
      rw [order, if_neg (by simp [hsame]), ih]

theorem order_neg : order a b < 0 ↔ Before a b := by
  unfold Before
  fun_induction order a b with
  | case1 => simp
  | case2 => simp
  | case3 => simp
  | case4 c a d b hne =>
      rw [List.cons_lex_cons_iff, or_iff_left fun hsame => hne hsame.1]
      omega
  | case5 c a d b heq ih =>
      have hsame : c = d := not_not.mp heq
      rw [ih, List.cons_lex_cons_iff, hsame]
      simp

theorem Before.trans (hab : Before a b) (hbc : Before b c) : Before a c :=
  List.lex_trans (fun hxy hyz => Int.lt_trans hxy hyz) hab hbc

theorem Before.of_initial (hinitial : a <+: b) (hne : a ≠ b) : Before a b := by
  obtain ⟨rest, rfl⟩ := hinitial
  unfold Before
  induction a with
  | nil =>
      cases rest with
      | nil => exact absurd rfl hne
      | cons d rest => exact .nil
  | cons c a ih =>
      refine .cons (ih fun hsame => hne ?_)
      rw [List.cons_append, ← hsame]

end Order

section Objects

variable {heap : Heap} {str1 str2 : Object} {a b : Text}

namespace Object

theorem Represents.strcmpFrom (hstr1 : Represents heap str1 a)
    (hstr2 : Represents heap str2 b) (ha : a.length < 2 ^ 31) {count i : Nat}
    (hcount : i + count = min a.length b.length) :
    ∃ difference, strcmpFrom str1 str2 count i heap = .ok (difference, heap) ∧
      order (a.drop i) (b.drop i) = difference.getD
        (if a.length ≠ b.length then if a.length > b.length then 1 else -1
        else 0) := by
  induction count generalizing i with
  | zero =>
      refine ⟨none, rfl, ?_⟩
      rw [Option.getD_none]
      rcases Nat.lt_trichotomy a.length b.length with hlt | heq | hgt
      · obtain ⟨d, rest, hrest⟩ := List.exists_cons_of_length_pos
          (l := b.drop i) (by rw [List.length_drop]; omega)
        rw [hrest, List.drop_of_length_le (by omega), if_pos (by omega),
          if_neg (by omega)]
        rfl
      · rw [List.drop_of_length_le (by omega), List.drop_of_length_le (by omega),
          if_neg (by omega)]
        rfl
      · obtain ⟨d, rest, hrest⟩ := List.exists_cons_of_length_pos
          (l := a.drop i) (by rw [List.length_drop]; omega)
        rw [hrest, List.drop_of_length_le (by omega), if_pos (by omega),
          if_pos (by omega)]
        rfl
  | succ count ih =>
      have hi : i < a.length := by omega
      have hi' : i < b.length := by omega
      have hc := hstr1.constAt hi (by omega)
      have hd := hstr2.constAt hi' (by omega)
      rw [List.drop_eq_getElem_cons hi, List.drop_eq_getElem_cons hi', order]
      unfold Strings.strcmpFrom
      by_cases hne : a[i] ≠ b[i]
      · refine ⟨some (code a[i] - code b[i]), ?_, ?_⟩
        · simp only [bind_apply, hc, hd, if_pos hne]
          rfl
        · rw [if_pos hne]
          rfl
      · obtain ⟨difference, hrun, horder⟩ := ih (i := i + 1) (by omega)
        refine ⟨difference, ?_, ?_⟩
        · simp only [bind_apply, hc, hd, if_neg hne]
          exact hrun
        · rw [if_neg hne]
          exact horder

theorem Represents.strcmp (hstr1 : Represents heap str1 a)
    (hstr2 : Represents heap str2 b) (ha : a.length < 2 ^ 31) :
    strcmp str1 str2 heap = .ok (order a b, heap) := by
  obtain ⟨difference, hrun, horder⟩ :=
    hstr1.strcmpFrom hstr2 ha (Nat.zero_add _)
  rw [List.drop_zero, List.drop_zero] at horder
  unfold Strings.strcmp
  rw [hstr1.len_eq, hstr2.len_eq, bind_apply, hrun, horder]
  cases difference with
  | some difference => rfl
  | none =>
      simp only [Option.getD_none]
      split <;> rfl

theorem Represents.streq (hstr1 : Represents heap str1 a)
    (hstr2 : Represents heap str2 b) (ha : a.length < 2 ^ 31) :
    streq str1 str2 heap = .ok (decide (a = b), heap) := by
  unfold Strings.streq
  rw [bind_apply, hstr1.strcmp hstr2 ha]
  simp [order_eq_zero]

/-- `strcmp` is the lexicographic order of the texts, and never reads behind
them. -/
theorem strcmp_total_order {str3 : Object} {c : Text}
    (hstr1 : Represents heap str1 a) (hstr2 : Represents heap str2 b)
    (hstr3 : Represents heap str3 c) (ha : a.length < 2 ^ 31)
    (hb : b.length < 2 ^ 31) :
    ∃ ab ba bc ac,
      strcmp str1 str2 heap = .ok (ab, heap) ∧
      strcmp str2 str1 heap = .ok (ba, heap) ∧
      strcmp str2 str3 heap = .ok (bc, heap) ∧
      strcmp str1 str3 heap = .ok (ac, heap) ∧
      streq str1 str2 heap = .ok (decide (a = b), heap) ∧
      str1.equals str2 heap = .ok (decide (a = b), heap) ∧
      (ab = 0 ↔ a = b) ∧ ba.sign = -ab.sign ∧ (ab < 0 ↔ Before a b) ∧
      (a <+: b → a ≠ b → ab < 0) ∧ (ab < 0 → bc < 0 → ac < 0) := by
  have heq := hstr1.streq hstr2 ha
  have hab := hstr1.strcmp hstr2 ha
  have hba := hstr2.strcmp hstr1 hb
  have hbc := hstr2.strcmp hstr3 hb
  have hac := hstr1.strcmp hstr3 ha
  refine ⟨_, _, _, _, hab, hba, hbc, hac, heq, heq, order_eq_zero, ?_, order_neg,
    ?_, ?_⟩
  · rw [order_swap, Int.sign_neg]
  · intro hinitial hne
    exact order_neg.mpr (.of_initial hinitial hne)
  · intro hab hbc
    exact order_neg.mpr ((order_neg.mp hab).trans (order_neg.mp hbc))

/-- The character 200 is a negative one, and a shorter text comes first. -/
theorem strcmp_total_order_signed :
    ∃ ac, strcmp (inlined [200]) (inlined [97, 98]) ∅ = .ok (ac, ∅) ∧
      ac < 0 := by
  have hread (s : Text) (hshort : s.length ≤ shortLength) :
      Represents ∅ (inlined s) s := (inlined_owns ∅ hshort).represents
  obtain ⟨ab, ba, bc, ac, hab, -, hbc, hac, -, -, -, -, -, -, htrans⟩ :=
    strcmp_total_order (hread [200] (by decide)) (hread [97] (by decide))
      (hread [97, 98] (by decide)) (by decide) (by decide)
  have hfirst : strcmp (inlined [200]) (inlined [97]) ∅ = .ok (-153, ∅) := by
    decide
  have hsecond : strcmp (inlined [97]) (inlined [97, 98]) ∅ = .ok (-1, ∅) := by
    decide
  cases hfirst.symm.trans hab
  cases hsecond.symm.trans hbc
  exact ⟨ac, hac, htrans (by decide) (by decide)⟩

end Object

end Objects

end X86Os32.Strings
