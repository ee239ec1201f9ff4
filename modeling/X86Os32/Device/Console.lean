import X86Os32.Device.CGAStream
import X86Os32.Library.LineEnds

namespace X86Os32

open Library
open OStream (Text)
open CGA (CGAStream)
open CGA.CGAStream (written)

/-! The output of `device/console.cc`. -/

structure Console extends Stringbuffer where
  sent : Text

namespace Console

variable (s : Console)

/-- `Serial::write`, which waits until the line takes a character. -/
def write (out : UInt8) : Console := { s with sent := s.sent ++ [out] }

/-- The loop of `print` from `i` on, with `count` characters to go. -/
def printFrom (string : Nat → UInt8) : Nat → Nat → Console → Console
  | 0, _, s => s
  | count + 1, i, s =>
      let s :=
        if string i = '\n'.toUInt8 ∧ i > 0 ∧ string (i - 1) ≠ '\r'.toUInt8 then
          s.write '\r'.toUInt8
        else s
      printFrom string count (i + 1) (s.write (string i))

def print (string : Nat → UInt8) (length : Nat) : Console :=
  printFrom string length 0 s

def flush : Console := { s.print s.buffer s.pos with pos := 0 }

/-- `Stringbuffer::put` -/
def put (c : UInt8) : Console :=
  let s := { s with toStringbuffer := s.store c }
  if s.pos = 80 then s.flush else s

def call : CGAStream.Call → Console
  | .put c => s.put c
  | .flush => s.flush

def run (calls : List CGAStream.Call) : Console := calls.foldl call s

/-- The pieces in which `flush` gets the text, the last one with the last flush.
`pending` is in the buffer before. -/
def chunksFrom (pending : Text) : List CGAStream.Call → List Text
  | [] => [pending]
  | .put c :: calls =>
      if pending.length + 1 = 80 then
        (pending ++ [c]) :: chunksFrom [] calls
      else chunksFrom (pending ++ [c]) calls
  | .flush :: calls => pending :: chunksFrom [] calls

def chunks (calls : List CGAStream.Call) : List Text := chunksFrom [] calls

def withReturns (text : Text) : Text :=
  LineEnds.insertMarks '\r'.toUInt8 '\n'.toUInt8 false text

example : withReturns [97, 10, 13, 10, 10] = [97, 13, 10, 13, 10, 13, 10] := by
  decide

/-- What `print` makes of a piece, in front of which it sees nothing missing. -/
def converted (chunk : Text) : Text :=
  LineEnds.insertMarks '\r'.toUInt8 '\n'.toUInt8 true chunk

theorem flatten_chunksFrom (pending : Text) (calls : List CGAStream.Call) :
    (chunksFrom pending calls).flatten = pending ++ written calls := by
  induction calls generalizing pending with
  | nil => rw [chunksFrom, List.flatten_singleton]; exact (List.append_nil _).symm
  | cons first calls ih =>
      cases first with
      | put c =>
          rw [show written (.put c :: calls) = c :: written calls from rfl,
            List.append_cons, chunksFrom]
          split
          · rw [List.flatten_cons, ih, List.nil_append]
          · exact ih _
      | flush =>
          rw [chunksFrom, List.flatten_cons, ih, List.nil_append]
          rfl

variable {s}

theorem sent_printFrom (string : Nat → UInt8) (count i : Nat) :
    (printFrom string count i s).sent = s.sent ++
      LineEnds.insertMarks '\r'.toUInt8 '\n'.toUInt8
        (i = 0 ∨ string (i - 1) = '\r'.toUInt8)
        ((List.range' i count).map string) := by
  induction count generalizing i s with
  | zero => exact (List.append_nil _).symm
  | succ count ih =>
      have hnext : decide (i + 1 = 0 ∨ string (i + 1 - 1) = '\r'.toUInt8) =
          decide (string i = '\r'.toUInt8) := by simp
      rw [printFrom, ih, hnext, List.range'_succ, List.map_cons,
        LineEnds.insertMarks]
      by_cases hreturn : string i = '\n'.toUInt8 ∧ i > 0 ∧
          string (i - 1) ≠ '\r'.toUInt8
      · have hmissing : string i = '\n'.toUInt8 ∧
            decide (i = 0 ∨ string (i - 1) = '\r'.toUInt8) = false := by
          refine ⟨hreturn.1, decide_eq_false ?_⟩
          rintro (hzero | hmarked)
          · omega
          · exact hreturn.2.2 hmarked
        rw [if_pos hreturn, if_pos hmissing]
        simp [write]
      · have hthere : ¬(string i = '\n'.toUInt8 ∧
            decide (i = 0 ∨ string (i - 1) = '\r'.toUInt8) = false) := by
          rintro ⟨hbreak, hmissing⟩
          have hnone := of_decide_eq_false hmissing
          exact hreturn ⟨hbreak, by omega, fun hmarked => hnone (.inr hmarked)⟩
        rw [if_neg hreturn, if_neg hthere]
        simp [write]

theorem sent_flush : s.flush.sent = s.sent ++ converted s.pending := by
  change (printFrom s.buffer s.pos 0 s).sent = _
  rw [sent_printFrom, ← List.range_eq_range']
  rfl

theorem pending_flush : s.flush.pending = [] := rfl

theorem sent_run (hpos : s.pos < 80) (calls : List CGAStream.Call) :
    (s.run calls).flush.sent =
      s.sent ++ (chunksFrom s.pending calls).flatMap converted := by
  induction calls generalizing s with
  | nil =>
      rw [chunksFrom, List.flatMap_singleton]
      exact sent_flush
  | cons first calls ih =>
      have hflushed (s : Console) : (s.flush.run calls).flush.sent =
          s.sent ++ (s.pending :: chunksFrom [] calls).flatMap converted := by
        rw [ih (show s.flush.pos < 80 from Nat.succ_pos 79), sent_flush,
          pending_flush, List.flatMap_cons, List.append_assoc]
      cases first with
      | flush =>
          rw [chunksFrom]
          exact hflushed s
      | put c =>
          have hlength : s.pending.length = s.pos := by
            simp [Stringbuffer.pending]
          rw [chunksFrom, hlength, ← Stringbuffer.pending_store]
          change ((s.put c).run calls).flush.sent = _
          unfold put
          dsimp only
          rw [show (s.store c).pos = s.pos + 1 from rfl]
          by_cases hfull : s.pos + 1 = 80
          · rw [if_pos hfull, if_pos hfull]
            exact hflushed { s with toStringbuffer := s.store c }
          · rw [if_neg hfull, if_neg hfull]
            have hroom : s.pos + 1 < 80 := by omega
            exact ih (s := { s with toStringbuffer := s.store c }) hroom

/-- The text arrives with its carriage returns exactly if no piece begins with a
newline, unless a carriage return was put directly in front of it. -/
theorem sent_exact_iff (buffer : Nat → UInt8) (sent : Text)
    (calls : List CGAStream.Call) :
    let start : Console := ⟨⟨buffer, 0⟩, sent⟩
    (start.run calls).flush.sent = sent ++ withReturns (written calls) ↔
      ∀ earlier chunk later, chunks calls = earlier ++ chunk :: later →
        chunk.head? = some '\n'.toUInt8 →
          earlier.flatten.getLast? = some '\r'.toUInt8 := by
  intro start
  have hrun : (start.run calls).flush.sent =
      sent ++ (chunks calls).flatMap converted :=
    sent_run (Nat.succ_pos 79) calls
  have hwhole : (chunks calls).flatten = written calls :=
    flatten_chunksFrom [] calls
  rw [hrun, List.append_right_inj, ← hwhole]
  exact LineEnds.covered_iff (chunks calls)

/-- A newline at the beginning is sent without a carriage return. -/
theorem sent_newline :
    (run ⟨⟨fun _ => 0, 0⟩, []⟩ [.put '\n'.toUInt8]).flush.sent = [10] ∧
      withReturns (written [.put '\n'.toUInt8]) = [13, 10] := by
  decide

end Console

end X86Os32
