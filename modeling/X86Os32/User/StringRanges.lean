import X86Os32.User.StringMethods

set_option linter.style.nameCheck false

namespace X86Os32.Strings

open Library Library.Program Object
open OStream (Text)

/-! `substr` and `erase` divide the characters of a string in the same way. -/

/-- The characters from `pos` on, `len` of them if there are as many. -/
def range (text : Text) (pos len : Nat) : Text :=
  (text.take (min (pos + len) text.length)).drop (min pos text.length)

def outside (text : Text) (pos len : Nat) : Text :=
  text.take (min pos text.length) ++ text.drop (min (pos + len) text.length)

/-- `pos + len` overflows, and neither of the cases before the test for that
applies. -/
def Overflows (text : Text) (pos len : Nat) : Prop :=
  pos < text.length ∧ len ≠ npos ∧ 2 ^ 32 ≤ pos + len

instance (text : Text) (pos len : Nat) : Decidable (Overflows text pos len) :=
  inferInstanceAs (Decidable (_ ∧ _))

theorem take_min_length (text : Text) (n : Nat) :
    text.take (min n text.length) = text.take n :=
  List.take_eq_take_min.symm

theorem drop_min_length (text : Text) (n : Nat) :
    text.drop (min n text.length) = text.drop n := by
  rcases Nat.le_total n text.length with hle | hle
  · rw [Nat.min_eq_left hle]
  · rw [Nat.min_eq_right hle, List.drop_length, List.drop_of_length_le hle]

theorem range_eq (text : Text) (pos len : Nat) :
    range text pos len = substr text pos len := by
  unfold range substr
  rw [take_min_length, List.drop_take]
  rcases Nat.le_total pos text.length with hle | hle
  · rw [Nat.min_eq_left hle, Nat.add_sub_cancel_left]
  · rw [Nat.min_eq_right hle, List.drop_length, List.drop_of_length_le hle,
      List.take_nil, List.take_nil]

theorem outside_eq (text : Text) (pos len : Nat) :
    outside text pos len = text.take pos ++ text.drop (pos + len) := by
  unfold outside
  rw [take_min_length, drop_min_length]

theorem range_append (text : Text) (pos len : Nat) :
    range text 0 pos ++ range text pos len ++ text.drop (pos + len) = text := by
  rw [range_eq, range_eq, substr, substr, List.drop_zero, List.append_assoc,
    ← List.drop_drop, List.take_append_drop, List.take_append_drop]

theorem outside_eq_append (text : Text) (pos len : Nat) :
    outside text pos len = range text 0 pos ++ text.drop (pos + len) := by
  rw [outside_eq, range_eq, substr, List.drop_zero]

theorem erase_eq_outside {text : Text} {pos len : Nat}
    (hlt : text.length < 2 ^ 31) (hlen : len < 2 ^ 32) :
    erase text pos len =
      if Overflows text pos len then text else outside text pos len := by
  split
  · next hoverflows =>
    obtain ⟨hpos, hbounded, hwraps⟩ := hoverflows
    have hsmall : add32 pos len < pos := by
      unfold add32
      omega
    unfold erase
    rw [if_neg (Nat.not_le.mpr hpos), if_neg hbounded, if_pos hsmall]
  · next hfits =>
    rw [outside_eq]
    by_cases hbehind : pos ≥ text.length
    · unfold erase
      rw [if_pos hbehind, List.take_of_length_le hbehind,
        List.drop_of_length_le (by omega), List.append_nil]
    · apply erase_eq (by omega)
      unfold Overflows at hfits
      omega

namespace Object

variable {allocator : Allocator Pointer Byte} (hserves : allocator.Serves)

include hserves

/-- `substr` gives the characters of the range and `erase` leaves the others,
except when the end of the range overflows: then `erase` leaves all. -/
theorem substr_erase {rest heap : Heap} {str : Object} {text : Text}
    {pos len : Nat} (howns : Owns rest heap str text)
    (hlt : text.length < 2 ^ 31) (hpos : pos < 2 ^ 32) (hlen : len < 2 ^ 32) :
    Returns (Object.substr allocator str pos len) heap (fun new_str heap' =>
      Owns heap heap' new_str (range text pos len)) ∧
    Returns (Object.erase allocator str pos len) heap (fun str' heap' =>
      Owns rest heap' str'
        (if Overflows text pos len then text else outside text pos len)) ∧
    text = range text 0 pos ++ range text pos len ++ text.drop (pos + len) ∧
    outside text pos len = range text 0 pos ++ text.drop (pos + len) := by
  refine ⟨?_, ?_, (range_append text pos len).symm,
    outside_eq_append text pos len⟩
  · rw [range_eq]
    exact howns.represents.substr hserves hlt hlen
  · rw [← erase_eq_outside hlt hlen]
    exact howns.erase hserves hlt hpos hlen

omit hserves

def abc : Object := inlined [97, 98, 99]

theorem substr_erase_abc :
    Returns (Object.substr (Allocator.moving .indeterminate) abc 1 7) ∅
      (fun new_str heap' => Owns ∅ heap' new_str [98, 99]) ∧
    Returns (Object.erase (Allocator.moving .indeterminate) abc 1 7) ∅
      (fun str' heap' => Owns ∅ heap' str' [97]) := by
  have hboth := substr_erase (Allocator.moving_serves Byte.indeterminate)
    (inlined_owns ∅ (show [97, 98, 99].length ≤ 20 by decide)) (by decide)
    (show 1 < 2 ^ 32 by decide) (show 7 < 2 ^ 32 by decide)
  exact ⟨hboth.1, hboth.2.1⟩

/-- The end of the range is beyond the last 32-bit number. -/
theorem erase_overflow :
    ¬Returns (Object.erase (Allocator.moving .indeterminate) abc 2 (2 ^ 32 - 2))
      ∅ fun str' heap' =>
        Owns ∅ heap' str' (outside [97, 98, 99] 2 (2 ^ 32 - 2)) := by
  rintro ⟨str', heap', hrun, howns⟩
  have hsame : Object.erase (Allocator.moving .indeterminate) abc 2
      (2 ^ 32 - 2) ∅ = .ok (abc, ∅) := rfl
  rw [hsame] at hrun
  cases hrun
  have hlen := howns.represents.len_eq
  revert hlen
  decide

end Object

end X86Os32.Strings
