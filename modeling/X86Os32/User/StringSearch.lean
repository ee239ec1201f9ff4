import X86Os32.User.StringMethods
import X86Os32.User.Strtol

set_option linter.style.nameCheck false

namespace X86Os32.Strings

open Library Library.Program
open OStream (Text)

/-! Looking for characters in a string. -/

namespace Object

/-- The loop of `compare`, with `count` characters to go. -/
def compareFrom (str other : Object) (pos : Nat) : Nat → Nat → Code Bool
  | 0, _ => pure true
  | count + 1, i => do
      let c ← str.constAt (toInt i)
      let d ← other.constAt (toInt (i - pos))
      if c ≠ d then return false
      else compareFrom str other pos count (i + 1)

def compare (str : Object) (pos : Nat) (other : Object) : Code Bool :=
  if add32 pos other.len > str.len then pure false
  else
    compareFrom str other pos (min str.len (add32 other.len pos) - pos) pos

/-- The loop of `find`, with `count` places to go. -/
def findFrom (str other : Object) : Nat → Nat → Code Nat
  | 0, _ => pure npos
  | count + 1, i => do
      if ← str.compare i other then return i
      else findFrom str other count (i + 1)

def find (str other : Object) (pos : Nat) : Code Nat :=
  findFrom str other (str.len - pos) pos

end Object

def OccursAt (text other : Text) (pos : Nat) : Prop :=
  pos + other.length ≤ text.length ∧
    (text.drop pos).take other.length = other

/-- The place is the first one from `pos` on where the other characters occur,
or `npos`. -/
inductive FindsFirst (text other : Text) (pos : Nat) : Nat → Prop
  | found (i : Nat) (hpos : pos ≤ i) (hlt : i < text.length)
      (hoccurs : OccursAt text other i)
      (hfirst : ∀ j, pos ≤ j → j < i → ¬OccursAt text other j) :
      FindsFirst text other pos i
  | missing (hnone : ∀ j, pos ≤ j → j < text.length →
      ¬OccursAt text other j) :
      FindsFirst text other pos npos

/-- `pos + str.length()` overflows, and what is left of it seems to be within
the string. -/
def WrapsInto (text other : Text) (pos : Nat) : Prop :=
  2 ^ 32 ≤ pos + other.length ∧ pos + other.length - 2 ^ 32 ≤ text.length

theorem occursAt_iff {text other : Text} {pos : Nat} (hpos : pos ≤ text.length) :
    OccursAt text other pos ↔ other <+: text.drop pos := by
  unfold OccursAt
  rw [List.prefix_iff_eq_take]
  constructor
  · intro hoccurs
    exact hoccurs.2.symm
  · intro htake
    have hlength := congrArg List.length htake
    rw [List.length_take, List.length_drop] at hlength
    exact ⟨by omega, htake.symm⟩

/-- The comparison is right, or it goes wrong with the overflow. -/
theorem compare_eq_true {text other : Text} {pos : Nat}
    (htext : text.length < 2 ^ 31) (hother : other.length < 2 ^ 31)
    (hpos : pos < 2 ^ 32) :
    compare text pos other = true ↔
      OccursAt text other pos ∨ WrapsInto text other pos := by
  by_cases hfits : pos + other.length < 2 ^ 32
  · have hwraps : ¬WrapsInto text other pos := by
      unfold WrapsInto
      omega
    rw [or_iff_left hwraps]
    by_cases hempty : other = []
    · subst hempty
      have hsum : add32 pos 0 = pos := add32_of_lt hpos
      have hsum' : add32 0 pos = pos := by
        rw [add32_of_lt (by omega), Nat.zero_add]
      simp [compare, OccursAt, hsum, hsum']
      omega
    · rw [compare_iff hfits hempty]
      by_cases hbehind : pos ≤ text.length
      · exact (occursAt_iff hbehind).symm
      · have hlength := List.length_pos_iff.mpr hempty
        rw [List.drop_of_length_le (by omega), List.prefix_nil]
        unfold OccursAt
        constructor
        · exact fun hnil => absurd hnil hempty
        · omega
  · have hoccurs : ¬OccursAt text other pos := by
      unfold OccursAt
      omega
    have hsum : add32 pos other.length = pos + other.length - 2 ^ 32 := by
      unfold add32
      omega
    have hsum' : add32 other.length pos = pos + other.length - 2 ^ 32 := by
      unfold add32
      omega
    rw [or_iff_right hoccurs]
    unfold compare WrapsInto
    rw [hsum, hsum']
    by_cases hshort : pos + other.length - 2 ^ 32 ≤ text.length
    · rw [if_neg (Nat.not_lt.mpr hshort), decide_eq_true_iff]
      constructor
      · intro _
        omega
      · intro _ i hi
        omega
    · rw [if_pos (Nat.lt_of_not_le hshort)]
      constructor
      · intro hfalse
        cases hfalse
      · intro hwraps
        exact absurd hwraps.2 hshort

theorem compare_of_lt {text other : Text} {pos : Nat}
    (hlt : pos < text.length) (htext : text.length < 2 ^ 31)
    (hother : other.length < 2 ^ 31) :
    compare text pos other = true ↔ OccursAt text other pos := by
  have hwraps : ¬WrapsInto text other pos := by
    unfold WrapsInto
    omega
  rw [compare_eq_true htext hother (by omega), or_iff_left hwraps]

theorem FindsFirst.earlier {text other : Text} {pos result : Nat}
    (hfinds : FindsFirst text other (pos + 1) result)
    (hnot : ¬OccursAt text other pos) : FindsFirst text other pos result := by
  have hextend {n : Nat} (hrest : ∀ j, pos + 1 ≤ j → j < n →
      ¬OccursAt text other j) : ∀ j, pos ≤ j → j < n →
        ¬OccursAt text other j := by
    intro j hle hlt
    rcases Nat.eq_or_lt_of_le hle with rfl | hlater
    · exact hnot
    · exact hrest j hlater hlt
  cases hfinds with
  | found _ hpos hlt hoccurs hfirst =>
      exact .found result (Nat.le_of_succ_le hpos) hlt hoccurs (hextend hfirst)
  | missing hnone => exact .missing (hextend hnone)

namespace Object

variable {heap : Heap} {str other : Object} {text otherText : Text}
  {pos : Nat} (hstr : Represents heap str text)
  (hother : Represents heap other otherText)
  (htext : text.length < 2 ^ 31) (hotherText : otherText.length < 2 ^ 31)

include hstr hother htext hotherText

theorem Represents.compareFrom {count i : Nat} (hpos : pos ≤ i)
    (hcount : i + count ≤ text.length)
    (hcount' : i + count ≤ otherText.length + pos) :
    str.compareFrom other pos count i heap =
      .ok (decide (∀ j < i + count, i ≤ j → text[j]? = otherText[j - pos]?),
        heap) := by
  induction count generalizing i with
  | zero =>
      have hall : ∀ j < i + 0, i ≤ j → text[j]? = otherText[j - pos]? := by
        intro j hlt hle
        omega
      rw [decide_eq_true hall]
      rfl
  | succ count ih =>
      have hi : i < text.length := by omega
      have hi' : i - pos < otherText.length := by omega
      have hread := hstr.constAt hi (by omega)
      have hread' := hother.constAt hi' (by omega)
      rw [Object.compareFrom]
      simp only [bind_apply, hread, hread']
      by_cases hsame : text[i] = otherText[i - pos]
      · rw [if_neg (not_not.mpr hsame), ih (by omega) (by omega) (by omega)]
        congr 3
        apply propext
        constructor
        · intro hall j hlt hle
          rcases Nat.eq_or_lt_of_le hle with rfl | hlt'
          · rw [List.getElem?_eq_getElem hi, List.getElem?_eq_getElem hi', hsame]
          · exact hall j (by omega) hlt'
        · intro hall j hlt hle
          exact hall j (by omega) (by omega)
      · have hnot : ¬∀ j < i + (count + 1), i ≤ j →
            text[j]? = otherText[j - pos]? := by
          intro hall
          have hchar := hall i (by omega) (Nat.le_refl i)
          rw [List.getElem?_eq_getElem hi, List.getElem?_eq_getElem hi'] at hchar
          exact hsame (Option.some.inj hchar)
        rw [if_pos hsame, decide_eq_false hnot]
        rfl

theorem Represents.compare (hpos : pos < 2 ^ 32) :
    str.compare pos other heap = .ok (Strings.compare text pos otherText, heap) := by
  unfold Object.compare Strings.compare
  rw [hstr.len_eq, hother.len_eq]
  by_cases hlong : add32 pos otherText.length > text.length
  · rw [if_pos hlong, if_pos hlong]
    rfl
  · rw [if_neg hlong, if_neg hlong]
    have hcomm : add32 otherText.length pos = add32 pos otherText.length := by
      unfold add32
      rw [Nat.add_comm]
    have hsum : add32 pos otherText.length ≤ otherText.length + pos := by
      unfold add32
      omega
    rw [hcomm, Nat.min_eq_right (Nat.not_lt.mp hlong)]
    by_cases hnone : add32 pos otherText.length ≤ pos
    · have hall : ∀ i < add32 pos otherText.length, pos ≤ i →
          text[i]? = otherText[i - pos]? := by
        intro i hlt hle
        omega
      rw [Nat.sub_eq_zero_of_le hnone, decide_eq_true hall]
      rfl
    · have hend : pos + (add32 pos otherText.length - pos) =
          add32 pos otherText.length := by omega
      rw [hstr.compareFrom hother htext hotherText (Nat.le_refl pos) (by omega)
        (by omega), hend]

theorem Represents.findFrom {count i : Nat} (hcount : i + count = text.length) :
    Returns (findFrom str other count i) heap fun result heap' =>
      heap' = heap ∧ FindsFirst text otherText i result := by
  induction count generalizing i with
  | zero =>
      refine .pure ⟨rfl, .missing ?_⟩
      intro j hle hlt
      omega
  | succ count ih =>
      have hi : i < text.length := by omega
      have hexact := compare_of_lt hi htext hotherText
      have hcompare : str.compare i other heap =
          .ok (Strings.compare text i otherText, heap) :=
        hstr.compare hother htext hotherText (by omega)
      apply Returns.step hcompare
      by_cases hfound : Strings.compare text i otherText = true
      · rw [if_pos hfound]
        refine .pure ⟨rfl, .found i (Nat.le_refl i) hi (hexact.mp hfound) ?_⟩
        intro j hle hlt
        omega
      · rw [if_neg hfound]
        apply (ih (by omega)).mono
        rintro result heap' ⟨rfl, hfinds⟩
        exact ⟨rfl, hfinds.earlier fun hoccurs => hfound (hexact.mpr hoccurs)⟩

theorem Represents.find (pos : Nat) :
    Returns (find str other pos) heap fun result heap' =>
      heap' = heap ∧ FindsFirst text otherText pos result := by
  unfold Object.find
  rw [hstr.len_eq]
  rcases Nat.le_total pos text.length with hle | hle
  · exact hstr.findFrom hother htext hotherText (Nat.add_sub_of_le hle)
  · rw [Nat.sub_eq_zero_of_le hle]
    refine .pure ⟨rfl, .missing ?_⟩
    intro j hpos hlt
    omega

/-- `find` is exact everywhere, `compare` wherever the sum of its position and
the length does not wrap into the string. -/
theorem compare_find_exact_iff (hpos : pos < 2 ^ 32) :
    Returns (Object.find str other pos) heap (fun result heap' =>
      heap' = heap ∧ FindsFirst text otherText pos result) ∧
    (Returns (Object.compare str pos other) heap (fun found heap' =>
      heap' = heap ∧ (found = true ↔ OccursAt text otherText pos)) ↔
        ¬WrapsInto text otherText pos) := by
  have hrun := hstr.compare hother htext hotherText hpos
  have htrue := compare_eq_true htext hotherText hpos
  refine ⟨hstr.find hother htext hotherText pos, ?_⟩
  constructor
  · rintro ⟨found, heap', hrun', rfl, hexact⟩ hwraps
    rw [hrun] at hrun'
    cases hrun'
    have hoccurs := hexact.mp (htrue.mpr (.inr hwraps))
    obtain ⟨hlong, -⟩ := hoccurs
    obtain ⟨hover, -⟩ := hwraps
    omega
  · intro hwraps
    rw [or_iff_left hwraps] at htrue
    exact ⟨_, heap, hrun, rfl, htrue⟩

omit hstr hother htext hotherText

/-- From the last 32-bit number on, `abc` seems to hold an `a`. -/
theorem compare_wraps :
    ¬Returns (Object.compare (inlined [97, 98, 99]) (2 ^ 32 - 1) (inlined [97])) ∅
      fun found heap' => heap' = ∅ ∧
        (found = true ↔ OccursAt [97, 98, 99] [97] (2 ^ 32 - 1)) := by
  rintro ⟨found, heap', hrun, -, hexact⟩
  have htrue : Object.compare (inlined [97, 98, 99]) (2 ^ 32 - 1)
      (inlined [97]) ∅ = .ok (true, ∅) := rfl
  rw [htrue] at hrun
  cases hrun
  obtain ⟨hlong, -⟩ := hexact.mp rfl
  revert hlong
  decide

theorem compare_find_exact_iff_bc :
    Returns (Object.find (inlined [97, 98, 99]) (inlined [98, 99]) 0) ∅
      (fun result heap' =>
        heap' = ∅ ∧ FindsFirst [97, 98, 99] [98, 99] 0 result) ∧
    Returns (Object.compare (inlined [97, 98, 99]) 0 (inlined [98, 99])) ∅
      (fun found heap' => heap' = ∅ ∧
        (found = true ↔ OccursAt [97, 98, 99] [98, 99] 0)) := by
  have hexact := compare_find_exact_iff
    (inlined_owns ∅ (show [97, 98, 99].length ≤ 20 by decide)).represents
    (inlined_owns ∅ (show [98, 99].length ≤ 20 by decide)).represents
    (by decide) (by decide) (show 0 < 2 ^ 32 by decide)
  refine ⟨hexact.1, hexact.2.mpr ?_⟩
  rintro ⟨hover, -⟩
  revert hover
  decide

end Object

end X86Os32.Strings
