import X86Os32.Library.Word32
import X86Os32.Object.OStream

namespace X86Os32.Strings

open Library
open OStream (Text)

/-! What the methods of `String` do to the characters of a string. -/

def npos : Nat := 2 ^ 32 - 1

def erase (str : Text) (pos len : Nat) : Text :=
  if pos ≥ str.length then str
  else if len = npos then str.take pos
  else if add32 pos len < pos then str
  else str.take pos ++ str.drop (pos + len)

def insert (str : Text) (pos : Nat) (inserted : Text) : Text :=
  if pos > str.length then str
  else str.take pos ++ inserted ++ str.drop pos

def resize (str : Text) (n : Nat) (c : UInt8) : Text :=
  str.take n ++ List.replicate (n - str.length) c

def substr (str : Text) (pos len : Nat) : Text :=
  (str.drop pos).take len

theorem substr_npos {str : Text} (hlt : str.length < 2 ^ 32) (pos : Nat) :
    substr str pos npos = str.drop pos := by
  have hnpos : npos = 2 ^ 32 - 1 := rfl
  apply List.take_of_length_le
  rw [List.length_drop]
  omega

theorem erase_eq {str : Text} {pos len : Nat} (hlt : str.length < 2 ^ 32)
    (hend : pos + len < 2 ^ 32 ∨ len = npos) :
    erase str pos len = str.take pos ++ str.drop (pos + len) := by
  have hnpos : npos = 2 ^ 32 - 1 := rfl
  unfold erase
  by_cases hbehind : pos ≥ str.length
  · rw [if_pos hbehind, List.take_of_length_le hbehind,
      List.drop_of_length_le (by omega), List.append_nil]
  · rw [if_neg hbehind]
    by_cases hwhole : len = npos
    · rw [if_pos hwhole, List.drop_of_length_le (by omega), List.append_nil]
    · have hbounded : pos + len < 2 ^ 32 := hend.resolve_right hwhole
      rw [if_neg hwhole, add32_of_lt hbounded, if_neg (by omega)]

end X86Os32.Strings
