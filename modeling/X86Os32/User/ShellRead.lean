import X86Os32.Device.KeyboardRead
import X86Os32.User.ShellHistory
import X86Os32.User.StringIterator

set_option linter.style.nameCheck false

namespace X86Os32

open Library
open OStream (Text)
open CGA (CGAStream)

/-! `Shell::read` of `user/shell/shell.cc`. -/

namespace Key

/-! `Key::scan` -/

def up : UInt8 := 72

def down : UInt8 := 80

def left : UInt8 := 75

def right : UInt8 := 77

variable (k : Key)

def Hist : Prop := k.scan = up ∨ k.scan = down

def Curs : Prop := k.scan = left ∨ k.scan = right

instance : Decidable k.Hist := inferInstanceAs (Decidable (_ ∨ _))

instance : Decidable k.Curs := inferInstanceAs (Decidable (_ ∨ _))

/-- What `getkey` can return: a key as the decoder has put it together. -/
def Delivered : Prop :=
  k = constructed ∨
    ∃ (tables : KeyTables) (d : KeyDecoder) (code : UInt8),
      k = (d.decode tables code).gather

/-- An arrow key has no character. -/
def Mute : Prop := k.Hist ∨ k.Curs → k.asc = 0

end Key

namespace KeyDecoder

variable (tables : KeyTables) {d : KeyDecoder}

theorem mute_getAsciiCode (d : KeyDecoder) (code : UInt8) :
    (d.getAsciiCode tables code).gather.Mute := by
  have hnumbers (i : Nat) : KeyTables.scanNumTab.getD i 0 = 0 ∨
      KeyTables.scanNumTab.getD i 0 ∈ KeyTables.scanNumTab := by
    rw [List.getD_eq_getElem?_getD]
    cases hentry : KeyTables.scanNumTab[i]? with
    | none => exact .inl rfl
    | some scan => exact .inr (List.mem_of_getElem? hentry)
  have hothers : ∀ scan ∈ 0 :: KeyTables.scanNumTab,
      scan ≠ Key.up ∧ scan ≠ Key.down ∧ scan ≠ Key.left ∧ scan ≠ Key.right := by
    decide +kernel
  intro harrow
  unfold getAsciiCode Key.Hist Key.Curs at *
  dsimp only at *
  split_ifs at harrow ⊢
  · rcases harrow with (hscan | hscan) | hscan | hscan <;> cases hscan
  · obtain ⟨hup, hdown, hleft, hright⟩ :=
      hothers _ (List.mem_cons.mpr (hnumbers (code - 71).toNat))
    simp only [hup, hdown, hleft, hright, or_self] at harrow
  all_goals
    rcases harrow with (rfl | rfl) | rfl | rfl <;> rfl

theorem mute_press (hmute : d.gather.Mute) (code : UInt8) :
    (d.press tables code).gather.Mute := by
  unfold press
  split
  · exact hmute
  split_ifs
  any_goals exact hmute
  all_goals exact mute_getAsciiCode tables d code

theorem mute_release (hmute : d.gather.Mute) (code : UInt8) :
    (d.release code).gather.Mute := by
  unfold release
  split <;> exact hmute

theorem mute_decode (d : KeyDecoder) (code : UInt8) :
    (d.decode tables code).gather.Mute := by
  have hinvalid : d.gather.invalidate.Mute := by
    rintro ((hscan | hscan) | hscan | hscan) <;> cases hscan
  unfold decode
  dsimp only
  split_ifs
  · exact hinvalid
  · exact mute_release (d := { d with gather := d.gather.invalidate }) hinvalid _
  · exact mute_press tables (d := { d with gather := d.gather.invalidate }) hinvalid _

end KeyDecoder

theorem Key.Delivered.mute {k : Key} (hdelivered : k.Delivered) : k.Mute := by
  rcases hdelivered with rfl | ⟨tables, d, code, rfl⟩
  · exact fun _ => rfl
  · exact KeyDecoder.mute_decode tables d code

namespace Shell

/-- The conversion to `unsigned int`. -/
def word (x : Int) : Nat := (x % 2 ^ 32).toNat

/-- The text that is read and the variables that say where in it and in the history
it stands.  No text is so long that `cursor` overflows. -/
structure Line where
  str : Text
  cursor : Nat
  cur : Option Pointer
  tmp : Option Pointer
  history : History

namespace Line

variable (storage : Storage) (line : Line) (k : Key)

/-! The cases of the `switch`, without a result where they `continue`. -/

def up : Except Stop (Option Line) :=
  match line.cur with
  | none =>
      match line.history.historyTail with
      | none => return some line
      | some historyTail =>
          let (tmp, history) := line.history.newEntry storage line.str
          return some { line with
            tmp := some tmp, cur := some historyTail, history := history }
  | some cur => do
      let entry ← follow line.history.memory (some cur)
      match entry.prev with
      | none => return none
      | some prev => return some { line with cur := some prev }

def down : Except Stop (Option Line) :=
  match line.cur with
  | none => return none
  | some cur => do
      let entry ← follow line.history.memory (some cur)
      match entry.next with
      | some next => return some { line with cur := some next }
      | none => return some { line with cur := line.tmp }

def left : Option Line :=
  if line.cursor = 0 then none
  else if k.SHIFT ∨ k.ctrl then
    some { line with cursor := if line.cursor < 10 then 0 else line.cursor - 10 }
  else some { line with cursor := line.cursor - 1 }

def right : Option Line :=
  if line.cursor ≥ line.str.length then none
  else if k.SHIFT ∨ k.ctrl then
    some { line with
      cursor :=
        if line.cursor + 10 > line.str.length then line.str.length
        else line.cursor + 10 }
  else some { line with cursor := line.cursor + 1 }

def select : Except Stop (Option Line) :=
  if k.scan = Key.up then line.up storage
  else if k.scan = Key.down then line.down
  else if k.scan = Key.left then return line.left k
  else if k.scan = Key.right then return line.right k
  else return some line

/-- The command that was selected in the history replaces the text. -/
def retrieve : Except Stop Line :=
  match line.cur with
  | none => return line
  | some cur => do
      let entry ← follow line.history.memory (some cur)
      let line := { line with str := entry.value, cursor := entry.value.length }
      if line.cur = line.tmp then
        let memory := line.history.memory.erase cur
        return { line with
          tmp := none, cur := none, history := { line.history with memory := memory } }
      else return line

end Line

structure Reading where
  line : Line
  out : CGAStream
  xStart : Int
  yStart : Int

inductive Progress (σ : Type)
  | waiting (s : σ)
  | returned (s : σ)

namespace Reading

variable (storage : Storage) (r : Reading) (k : Key)

def width : Int := r.out.display.screen.toCol - r.out.display.screen.fromCol + 1

def toRow : Int := r.out.display.screen.toRow

def numRows : Nat := word (r.xStart + r.line.str.length) / word r.width

def start (history : History) (out : CGAStream) : Reading :=
  let (xStart, yStart) := out.getpos
  ⟨⟨[], 0, none, none, history⟩, out, xStart, yStart⟩

/-- A backspace, or a character that is inserted. -/
def edit : Reading :=
  if k.asc = backspaceChar then
    if r.line.cursor ≠ 0 then
      let (str, out) := r.out.backspace (some r.line.str) (r.line.cursor - 1)
      let line :=
        { r.line with str := str.getD r.line.str, cursor := r.line.cursor - 1 }
      { r with line := line, out := out }
    else r
  else if ¬k.Hist ∧ ¬k.Curs then
    let str := Strings.insert r.line.str r.line.cursor [k.asc]
    { r with line := { r.line with str := str, cursor := r.line.cursor + 1 } }
  else r

def Scrollup : Prop := word (r.yStart + r.numRows) > word r.toRow

instance : Decidable r.Scrollup := inferInstanceAs (Decidable (_ > _))

/-- The displayed text is overwritten with blanks. -/
def erase : Reading :=
  let out := r.out.setpos r.xStart r.yStart
  let blanks := List.replicate (r.line.str.length + 1) ' '.toUInt8
  { r with out := (blanks.foldl CGAStream.put out).flush }

/-- The displayed text is erased if necessary, and the start corrected if the edited
text reaches below the window. -/
def clear : Reading :=
  let scrollup : Bool := r.Scrollup
  let r := if k.Hist ∨ scrollup ∨ k.asc = backspaceChar then r.erase else r
  if scrollup then { r with yStart := r.yStart - 1 } else r

/-- The screen position of a place in the text. -/
def place (cursor : Nat) : Int × Int :=
  let at_ := word (r.xStart + cursor)
  (min (word r.out.display.screen.toCol) (at_ % word r.width),
    min (word r.toRow) (word (at_ / word r.width + r.yStart)))

def reprint : Reading :=
  let out := r.out.setpos r.xStart r.yStart
  let out := ((Strings.visited r.line.str).foldl CGAStream.put out).flush
  let (x, y) := r.place r.line.cursor
  { r with out := out.setpos x y }

/-- A longer command that begins in the last row has moved its start upwards. -/
def adjust (numRows : Nat) : Reading :=
  let numRows_new := r.numRows
  if word (r.yStart + numRows) = word r.toRow ∧ numRows_new > numRows then
    { r with yStart := r.yStart - (numRows_new - numRows : Nat) }
  else r

def round : Except Stop (Progress Reading) := do
  if k.EndsInput then return .returned r
  if k.asc = '\n'.toUInt8 then
    let line := { r.line with str := r.line.str ++ ['\n'.toUInt8] }
    return .returned { r with line := line }
  match ← r.line.select storage k with
  | none => return .waiting r
  | some line =>
      let edited := ({ r with line := line } : Reading).edit k
      let r := edited.clear k
      if k.Hist then
        let line ← r.line.retrieve
        let r := ({ r with line := line } : Reading).reprint
        return .waiting (r.adjust edited.numRows)
      else return .waiting r.reprint

def finish : Reading :=
  let (x, y) := r.place r.line.str.length
  let out := (((r.out.setpos x y).put '\n'.toUInt8)).flush
  let history :=
    match r.line.tmp with
    | none => r.line.history
    | some tmp =>
        { r.line.history with memory := r.line.history.memory.erase tmp }
  { r with line := { r.line with history := history }, out := out }

def readFrom (count : Nat) : List Key → Reading → Except Stop (Progress Reading)
  | [], r =>
      return if r.line.str.length < count then .waiting r else .returned r.finish
  | k :: keys, r =>
      if r.line.str.length < count then do
        match ← r.round storage k with
        | .waiting r => readFrom count keys r
        | .returned r => return .returned r.finish
      else return .returned r.finish

variable {storage} {r : Reading} {k : Key}

theorem clear_line (r : Reading) (k : Key) : (r.clear k).line = r.line := by
  unfold clear erase
  dsimp only
  split_ifs <;> rfl

theorem reprint_line (r : Reading) : r.reprint.line = r.line := rfl

theorem adjust_line (r : Reading) (numRows : Nat) :
    (r.adjust numRows).line = r.line := by
  unfold adjust
  dsimp only
  split_ifs <;> rfl

/-! What a round does with a key that does not end the input. -/

theorem round_skip (hends : ¬k.EndsInput) (hline : k.asc ≠ '\n'.toUInt8)
    (hselect : r.line.select storage k = .ok none) :
    r.round storage k = .ok (.waiting r) := by
  unfold round
  rw [if_neg hends, if_neg hline, hselect]
  rfl

theorem round_hist {line : Line} (hends : ¬k.EndsInput)
    (hline : k.asc ≠ '\n'.toUInt8) (hhist : k.Hist) (hmute : k.asc = 0)
    (hselect : r.line.select storage k = .ok (some line)) :
    let selected : Reading := { r with line := line }
    r.round storage k = do
      let line ← line.retrieve
      return .waiting
        (({ selected.clear k with line := line } : Reading).reprint.adjust
          selected.numRows) := by
  intro selected
  have hedit : selected.edit k = selected := by
    unfold edit
    rw [if_neg (by rw [hmute]; decide),
      if_neg (not_and_of_not_left _ (not_not.mpr hhist))]
  unfold round
  rw [if_neg hends, if_neg hline, hselect, ok_bind]
  change (if k.Hist then _ else _) = _
  rw [if_pos hhist, show ({ r with line := line } : Reading).edit k = selected from
    hedit, clear_line]

theorem round_edit {line : Line} (hends : ¬k.EndsInput)
    (hline : k.asc ≠ '\n'.toUInt8) (hhist : ¬k.Hist)
    (hselect : r.line.select storage k = .ok (some line)) :
    r.round storage k = .ok (.waiting
      ((({ r with line := line } : Reading).edit k).clear k).reprint) := by
  unfold round
  rw [if_neg hends, if_neg hline, hselect, ok_bind]
  exact if_neg hhist

end Reading

/-- `read`, for the keys that `getkey` delivers one after the other.  Its result is
the length of the text. -/
def read (storage : Storage) (history : History) (out : CGAStream) (count : Nat)
    (keys : List Key) : Except Stop (Progress Reading) :=
  Reading.readFrom storage count keys (Reading.start history out)

end Shell

end X86Os32
