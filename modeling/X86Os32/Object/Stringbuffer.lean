import Mathlib.Logic.Function.Basic
import X86Os32.Object.OStream

namespace X86Os32

open OStream (Text)

/-- `object/strbuf.h` -/
structure Stringbuffer where
  buffer : Nat → UInt8
  pos : Nat

namespace Stringbuffer

variable (s : Stringbuffer)

/-- `buffer[pos++] = c` -/
def store (c : UInt8) : Stringbuffer where
  buffer := Function.update s.buffer s.pos c
  pos := s.pos + 1

/-- The first `pos` characters of `buffer`. -/
def pending : Text := (List.range s.pos).map s.buffer

theorem pending_store (c : UInt8) : (s.store c).pending = s.pending ++ [c] := by
  unfold store pending
  dsimp only
  rw [List.range_succ, List.map_append, List.map_singleton, Function.update_self]
  apply congrArg (· ++ [c])
  apply List.map_congr_left
  intro i hi
  exact Function.update_of_ne (Nat.ne_of_lt (List.mem_range.mp hi)) c s.buffer

end Stringbuffer

end X86Os32
