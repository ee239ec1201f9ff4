import X86Os32.Machine.CGALayout
import X86Os32.Object.Stringbuffer

namespace X86Os32.CGA

open Library
open OStream (Text)

/-! The streams on the screen, `device/cgastr.cc` with `object/strbuf.cc`. -/

structure CGAStream extends Stringbuffer where
  display : Outcome
  attrib : Attribute

namespace CGAStream

variable (s : CGAStream)

def flush : CGAStream :=
  { s with
    display := s.display.screen.print s.display.cells s.display.registers s.pending
      s.attrib
    pos := 0 }

/-- `Stringbuffer::put` -/
def put (c : UInt8) : CGAStream :=
  let s := { s with toStringbuffer := s.store c }
  if s.pos = 80 then s.flush else s

def reset (c : UInt8) : CGAStream :=
  { s with
    display := s.display.screen.reset s.display.cells s.display.registers c
      s.attrib }

def setpos (x y : Int) : CGAStream :=
  let (screen, registers) := s.display.screen.setpos s.display.registers x y
  { s with display := ⟨screen, s.display.cells, registers⟩ }

def getpos : Int × Int := s.display.screen.getpos s.display.registers

def backspace (str : Option Text) (pos : Nat) : Option Text × CGAStream :=
  let (str, display) :=
    s.display.screen.backspace s.display.cells s.display.registers str pos
  (str, { s with display := display })

inductive Call
  | put (c : UInt8)
  | flush

def call : Call → CGAStream
  | .put c => s.put c
  | .flush => s.flush

def run (calls : List Call) : CGAStream := calls.foldl call s

def written (calls : List Call) : Text :=
  calls.filterMap fun
    | .put c => some c
    | .flush => none

/-- Of the text that was put into the stream, all but what is pending is shown. -/
def Carries (w : Window) (useCursor : Bool) (attrib : Attribute) (text : Text)
    (s : CGAStream) : Prop :=
  s.attrib = attrib ∧ s.pos < 80 ∧
    ∃ printed, w.Displays useCursor attrib printed s.display ∧
      text = printed ++ s.pending

variable {w : Window} {useCursor : Bool} {attrib : Attribute} {text : Text}
  {s : CGAStream}

theorem displays_flush {printed : Text}
    (hdisplays : w.Displays useCursor attrib printed s.display)
    (hattrib : s.attrib = attrib) :
    w.Displays useCursor attrib (printed ++ s.pending) s.flush.display := by
  subst hattrib
  exact hdisplays.print s.pending

theorem carries_flush {printed : Text}
    (hdisplays : w.Displays useCursor attrib printed s.display)
    (hattrib : s.attrib = attrib) :
    Carries w useCursor attrib (printed ++ s.pending) s.flush :=
  ⟨hattrib, Nat.succ_pos 79, _, displays_flush hdisplays hattrib,
    (List.append_nil _).symm⟩

theorem Carries.flush (hcarries : Carries w useCursor attrib text s) :
    Carries w useCursor attrib text s.flush := by
  obtain ⟨hattrib, -, printed, hdisplays, rfl⟩ := hcarries
  exact carries_flush hdisplays hattrib

theorem Carries.put (hcarries : Carries w useCursor attrib text s) (c : UInt8) :
    Carries w useCursor attrib (text ++ [c]) (s.put c) := by
  obtain ⟨hattrib, hpos, printed, hdisplays, rfl⟩ := hcarries
  rw [List.append_assoc, ← Stringbuffer.pending_store]
  unfold CGAStream.put
  dsimp only
  by_cases hfull : (s.store c).pos = 80
  · rw [if_pos hfull]
    exact carries_flush (s := { s with toStringbuffer := s.store c }) hdisplays hattrib
  · rw [if_neg hfull]
    have hroom : s.pos + 1 ≠ 80 := hfull
    exact ⟨hattrib, show s.pos + 1 < 80 by omega, printed, hdisplays, rfl⟩

theorem Carries.run (hcarries : Carries w useCursor attrib text s)
    (calls : List Call) :
    Carries w useCursor attrib (text ++ written calls) (s.run calls) := by
  induction calls generalizing s text with
  | nil =>
      rw [show written [] = [] from rfl, List.append_nil]
      exact hcarries
  | cons first rest ih =>
      cases first with
      | put c =>
          rw [show written (.put c :: rest) = c :: written rest from rfl,
            List.append_cons]
          exact ih (hcarries.put c)
      | flush => exact ih hcarries.flush

theorem carries_reset (w : Window) (useCursor : Bool) (curX curY : Int)
    (cells : Cells) (registers : Registers) (buffer : Nat → UInt8)
    (attrib : Attribute) :
    Carries w useCursor attrib []
      (reset ⟨⟨buffer, 0⟩, ⟨w.screen useCursor curX curY, cells, registers⟩, attrib⟩
        ' '.toUInt8) :=
  ⟨rfl, Nat.succ_pos 79, [],
    w.displays_reset useCursor curX curY cells registers attrib, rfl⟩

/-- After `reset`, the window of a stream shows the end of a sheet on which all that
was put into the stream is laid out, however it was flushed. -/
theorem stream_lays_out (w : Window) (useCursor : Bool) (curX curY : Int)
    (cells : Cells) (registers : Registers) (buffer : Nat → UInt8)
    (attrib : Attribute) (calls : List Call) :
    let start : CGAStream :=
      ⟨⟨buffer, 0⟩, ⟨w.screen useCursor curX curY, cells, registers⟩, attrib⟩
    let display := ((start.reset ' '.toUInt8).run calls).flush.display
    let rows := Sheet.layout '\n'.toUInt8 w.width (written calls)
    let shown := rows.drop (rows.length - w.height)
    (∀ r < w.height, ∀ c < w.width,
      (display.cells (CGAScreen.index (w.fromCol + c) (w.fromRow + r))).pixel =
        ⟨(Sheet.glyph shown r c).getD ' '.toUInt8, attrib⟩) ∧
    display.screen.getpos display.registers =
      (w.fromCol + ((rows.getLast?.getD []).length : Nat),
        w.fromRow + (shown.length - 1 : Nat)) := by
  intro start display rows shown
  obtain ⟨hattrib, -, printed, hdisplays, htext⟩ := (carries_reset w useCursor curX
    curY cells registers buffer attrib).run calls
  have hflushed := displays_flush hdisplays hattrib
  rw [← htext, List.nil_append] at hflushed
  obtain ⟨-, -, x, y, -, hgetpos, hcolumn, hrow, hcells⟩ := hflushed
  have hwidth : (w.toCol - w.fromCol + 1).toNat = w.width := rfl
  have hheight : (w.toRow - w.fromRow + 1).toNat = w.height := rfl
  constructor
  · intro r hr c hc
    have hin : w.Inside (w.fromCol + c) (w.fromRow + r) := by
      constructor <;> omega
    have hplace : (w.fromRow + (r : Int) - w.fromRow).toNat = r ∧
        (w.fromCol + (c : Int) - w.fromCol).toNat = c := by omega
    rw [Sheet.glyph_drop, hcells _ _ hin, hplace.1, hplace.2]
    rfl
  · have hlength : shown.length = rows.length - w.top rows := List.length_drop
    dsimp only at hcolumn hrow
    rw [hgetpos, hcolumn, hrow, hlength, Nat.sub_right_comm]

end CGAStream

end X86Os32.CGA
