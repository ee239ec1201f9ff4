import Mathlib.Logic.Function.Basic
import X86Os32.User.Characters

namespace X86Os32.CGA

open OStream (Text)

/-! Windows of the text screen, `machine/cgascr.cc`.  All windows share the cells
of the screen; messages to the debug stream are left out. -/

def columns : Int := 80

def rows : Int := 25

abbrev Attribute := UInt8

/-- `Attribute()`: light grey on black. -/
def lightGrey : Attribute := 7

structure Pixel where
  ascii : UInt8
  attrib : Attribute
deriving DecidableEq, Repr

/-- `writes` counts how often the cell has been written; the hardware has no such
counter. -/
structure Cell where
  pixel : Pixel
  writes : Nat
deriving DecidableEq, Repr

/-- The memory at `CGA_BASE`. -/
abbrev Cells := Int → Cell

abbrev Registers := Nat → Nat

structure CGAScreen where
  curX : Int
  curY : Int
  fromCol : Int
  toCol : Int
  fromRow : Int
  toRow : Int
  useCursor : Bool

/-- What a window and the hardware are after an operation. -/
structure Outcome where
  screen : CGAScreen
  cells : Cells
  registers : Registers

namespace CGAScreen

def construct (fromCol toCol fromRow toRow : Int) (useCursor : Bool) :
    CGAScreen where
  curX := fromCol
  curY := fromRow
  fromCol := fromCol
  toCol := toCol
  fromRow := fromRow
  toRow := toRow
  useCursor := useCursor

variable (s : CGAScreen)

/-- The check for a position that does not lie in the window. -/
def Outside (x y : Int) : Prop :=
  x < s.fromCol ∨ x > s.toCol ∨ y < s.fromRow ∨ y > s.toRow

instance : Decidable (s.Outside x y) := inferInstanceAs (Decidable (_ ∨ _))

def setpos (registers : Registers) (x y : Int) : CGAScreen × Registers :=
  let x := if x < 0 then x + (s.toCol + 1) else x
  let y := if y < 0 then y + (s.toRow + 1) else y
  if s.Outside x y then (s, registers)
  else if s.useCursor then
    let newCursor := y * columns + x
    let registers := Function.update registers 15 (newCursor % 256).toNat
    let registers := Function.update registers 14
      (newCursor / 256 % 256).toNat
    (s, registers)
  else ({ s with curX := x, curY := y }, registers)

def getpos (registers : Registers) : Int × Int :=
  if s.useCursor then
    let cursor := registers 15 ||| registers 14 <<< 8
    let x : Int := (cursor % 2 ^ 16 : Nat) % columns
    let y : Int := (cursor % 2 ^ 16 : Nat) / columns
    if s.Outside x y then (0, 0) else (x, y)
  else (s.curX, s.curY)

/-- `CGA_BASE[i] = pixel` -/
def write (cells : Cells) (i : Int) (pixel : Pixel) : Cells :=
  Function.update cells i ⟨pixel, (cells i).writes + 1⟩

def span (a b : Int) : List Int :=
  (List.range (b - a + 1).toNat).map fun n : Nat => a + (n : Int)

def index (x y : Int) : Int := y * columns + x

/-- The body of the outer loop of `move_up_one_line`. -/
def moveUpColumn (attrib : Attribute) (cells : Cells) (x : Int) : Cells :=
  let cells := (span s.fromRow (s.toRow - 1)).foldl (fun cells y =>
    write cells (index x y) (cells (index x (y + 1))).pixel) cells
  write cells (index x s.toRow) ⟨' '.toUInt8, attrib⟩

def moveUpOneLine (cells : Cells) (attrib : Attribute) : Cells :=
  (span s.fromCol s.toCol).foldl (s.moveUpColumn attrib) cells

/-- The arguments of `LF` are the position of the pen. -/
structure Pen where
  x : Int
  y : Int
  cells : Cells

def lf (pen : Pen) (attrib : Attribute) : Pen :=
  if pen.y + 1 > s.toRow then
    ⟨s.fromCol, pen.y, s.moveUpOneLine pen.cells attrib⟩
  else ⟨s.fromCol, pen.y + 1, pen.cells⟩

def showPixel (cells : Cells) (x y : Int) (character : UInt8)
    (attrib : Attribute) : Cells :=
  let x := if x < 0 then x + columns else x
  let y := if y < 0 then y + rows else y
  if x < 0 ∨ x ≥ columns ∨ y < 0 ∨ y ≥ rows then cells
  else write cells (index x y) ⟨character, attrib⟩

/-- The body of the loop of `print`. -/
def printChar (attrib : Attribute) (pen : Pen) (c : UInt8) : Pen :=
  if c = '\n'.toUInt8 then s.lf pen attrib
  else
    let cells := showPixel pen.cells pen.x pen.y c attrib
    if pen.x + 1 > s.toCol then s.lf ⟨pen.x + 1, pen.y, cells⟩ attrib
    else ⟨pen.x + 1, pen.y, cells⟩

/-- `text` are the first `length` characters of `string`, none when `length` is
negative. -/
def print (cells : Cells) (registers : Registers) (text : Text)
    (attrib : Attribute) : Outcome :=
  let (x, y) := s.getpos registers
  if s.Outside x y then ⟨s, cells, registers⟩
  else
    let pen := text.foldl (s.printChar attrib) ⟨x, y, cells⟩
    let (screen, registers) := s.setpos registers pen.x pen.y
    ⟨screen, pen.cells, registers⟩

variable {s} in
theorem print_eq {registers registers' : Registers} {x y : Int} {pen : Pen}
    {screen : CGAScreen} (hgetpos : s.getpos registers = (x, y))
    (hinside : ¬s.Outside x y)
    (hpen : text.foldl (s.printChar attrib) ⟨x, y, cells⟩ = pen)
    (hsetpos : s.setpos registers pen.x pen.y = (screen, registers')) :
    s.print cells registers text attrib = ⟨screen, pen.cells, registers'⟩ := by
  unfold print
  simp only [hgetpos, if_neg hinside, hpen, hsetpos]

/-- The loops of `reset`. -/
def fill (cells : Cells) (character : UInt8) (attrib : Attribute) : Cells :=
  (span s.fromCol s.toCol).foldl (fun cells x =>
    (span s.fromRow s.toRow).foldl (fun cells y =>
      showPixel cells x y character attrib) cells) cells

def reset (cells : Cells) (registers : Registers) (character : UInt8)
    (attrib : Attribute) : Outcome :=
  let (screen, registers) := s.setpos registers s.fromCol s.fromRow
  ⟨screen, s.fill cells character attrib, registers⟩

def stepBack (x y : Int) : Int × Int :=
  if x = s.fromCol then (s.toCol, if y ≠ s.fromRow then y - 1 else y)
  else (x - 1, y)

/-- `CGA_Stream::backspace`, with the string afterwards. -/
def backspace (cells : Cells) (registers : Registers) (str : Option Text)
    (pos : Nat) : Option Text × Outcome :=
  if str = some [] then (str, ⟨s, cells, registers⟩)
  else
    let (x, y) := s.getpos registers
    let (x, y) := s.stepBack x y
    let cells := showPixel cells x y ' '.toUInt8 lightGrey
    let (screen, registers) := s.setpos registers x y
    (str.map fun str => Strings.erase str pos 1, ⟨screen, cells, registers⟩)

end CGAScreen

inductive Operation
  | print (text : Text) (attrib : Attribute)
  | setpos (x y : Int)
  | reset (character : UInt8) (attrib : Attribute)
  | backspace (str : Option Text) (pos : Nat)

def Operation.run (s : CGAScreen) (cells : Cells) (registers : Registers) :
    Operation → Outcome
  | .print text attrib => s.print cells registers text attrib
  | .setpos x y =>
      let (screen, registers) := s.setpos registers x y
      ⟨screen, cells, registers⟩
  | .reset character attrib => s.reset cells registers character attrib
  | .backspace str pos => (s.backspace cells registers str pos).2

def Outcome.run (outcome : Outcome) (operations : List Operation) : Outcome :=
  operations.foldl (fun outcome operation =>
    operation.run outcome.screen outcome.cells outcome.registers) outcome

end X86Os32.CGA
