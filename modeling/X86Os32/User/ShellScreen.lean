import X86Os32.Device.CGARoll
import X86Os32.User.ShellEditor

set_option linter.style.nameCheck false

namespace X86Os32.Shell

open Library
open OStream (Text)
open CGA (Cells CGAStream CGAScreen Window)

/-! The part of the screen on which `Shell::read` shows its text. -/

def IsBlank (c : UInt8) : Prop := c = ' '.toUInt8 ∨ c = 0

namespace Reading

variable (w : Window) (r : Reading)

/-- The text has its place in the window, and the cursor a cell behind it. -/
def Fits : Prop :=
  '\n'.toUInt8 ∉ r.line.str ∧
    r.xStart + r.line.str.length < w.width * w.height

def endRow (length : Nat) : Int := r.yStart + (r.xStart + length) / w.width

/-- The cell of the tracked start. -/
def first : Nat := (r.yStart - w.fromRow).toNat * w.width + r.xStart.toNat

def shown (p : Nat) : UInt8 := w.glyph r.out.display.cells p

/-- From the tracked start on, the window shows the text and nothing else that has
come since `start`.  In front of it is what was there at the start, moved up with the
tracked start, and the cursor is where it is in the text. -/
structure Displays (start r : Reading) : Prop where
  visible : w.fromRow ≤ r.yStart ∧ r.first w + r.line.str.length < w.size
  text : ∀ i c, r.line.str[i]? = some c → r.shown w (r.first w + i) = c
  behind : ∀ p < w.size, r.first w + r.line.str.length ≤ p →
    IsBlank (r.shown w p) ∨ p + (start.first w - r.first w) < w.size ∧
      r.shown w p = start.shown w (p + (start.first w - r.first w))
  above : ∀ p < r.first w,
    r.shown w p = start.shown w (p + (start.first w - r.first w))
  outside : ∀ i ∉ w.region, r.out.display.cells i = start.out.display.cells i
  cursor : r.out.getpos =
    (w.column (r.first w + r.line.cursor), w.row (r.first w + r.line.cursor))

end Reading

/-! ### Rows and columns -/

theorem word_of {n : Nat} {x : Int} (hx : x = n) (hn : n < 2 ^ 32) : word x = n := by
  unfold word
  omega

theorem size_le (w : Window) : w.width ≤ 80 ∧ w.size ≤ 2000 := by
  have hleft := w.fromCol_nonneg
  have hright : w.toCol < 80 := w.toCol_lt
  have hupper := w.fromRow_nonneg
  have hlower : w.toRow < 25 := w.toRow_lt
  have hwidth := w.width_eq
  have hheight := w.height_eq
  exact ⟨by omega, Nat.mul_le_mul (show w.width ≤ 80 by omega)
    (show w.height ≤ 25 by omega)⟩

theorem row_of_add (w : Window) (first n : Nat) :
    (first + n) / w.width =
      first / w.width + (first % w.width + n) / w.width := by
  rw [Nat.add_comm (first / w.width), ← Nat.add_mul_div_left _ _ w.width_pos]
  congr 1
  have hfirst := Nat.mod_add_div first w.width
  omega

namespace Reading

variable {w : Window} {r : Reading} {useCursor : Bool} {first p q rows : Nat}

/-- Where the variables of `read` put the text. -/
structure Placed (w : Window) (useCursor : Bool) (first : Nat) (r : Reading) :
    Prop where
  leftmost : w.fromCol = 0
  screen : ∃ curX curY, r.out.display.screen = w.screen useCursor curX curY
  xStart : r.xStart = w.column first
  yStart : r.yStart = w.row first
  inside : first < w.size

namespace Placed

variable (hplaced : r.Placed w useCursor first)

include hplaced

theorem toCol_eq : r.out.display.screen.toCol = (w.width : Int) - 1 := by
  obtain ⟨hleft, ⟨curX, curY, hscreen⟩, -, -, -⟩ := hplaced
  have hwidth := w.width_eq
  rw [hscreen, Window.screen_toCol]
  omega

theorem toRow_eq : r.toRow = w.fromRow + (w.height : Int) - 1 := by
  obtain ⟨hleft, ⟨curX, curY, hscreen⟩, -, -, -⟩ := hplaced
  have hheight := w.height_eq
  unfold toRow
  rw [hscreen, Window.screen_toRow]
  omega

theorem width_eq : r.width = w.width := by
  have htoCol := hplaced.toCol_eq
  obtain ⟨hleft, ⟨curX, curY, hscreen⟩, -, -, -⟩ := hplaced
  unfold width
  rw [htoCol, hscreen, Window.screen_fromCol, hleft]
  omega

theorem row_add (n : Nat) :
    r.yStart + ((first % w.width + n) / w.width : Nat) =
      w.fromRow + ((first + n) / w.width : Nat) := by
  rw [hplaced.yStart, Window.row, row_of_add w first n]
  push_cast
  ring

theorem word_column {n : Nat} (hn : n ≤ 2000) :
    word (r.xStart + n) = first % w.width + n := by
  have hwidth := (size_le w).1
  have hmod := Nat.mod_lt first w.width_pos
  apply word_of
  · rw [hplaced.xStart, Window.column, hplaced.leftmost]
    push_cast
    ring
  · omega

theorem fits {n : Nat} (hbelow : r.xStart + n < w.width * w.height) :
    first % w.width + n < w.size := by
  rw [hplaced.xStart, Window.column, hplaced.leftmost, Int.zero_add] at hbelow
  exact_mod_cast hbelow

theorem numRows_eq (hlength : r.line.str.length ≤ 2000) :
    r.numRows = (first % w.width + r.line.str.length) / w.width := by
  have hwidth := (size_le w).1
  unfold numRows
  rw [hplaced.word_column hlength, hplaced.width_eq,
    word_of (n := w.width) rfl (by omega)]

theorem endRow_eq (n : Nat) :
    r.endRow w n = w.fromRow + ((first + n) / w.width : Nat) := by
  rw [← hplaced.row_add n, endRow, hplaced.xStart, Window.column, hplaced.leftmost]
  push_cast
  ring_nf

theorem endRow_le_iff (n : Nat) : r.endRow w n ≤ w.toRow ↔ first + n < w.size := by
  have hheight := w.height_eq
  rw [hplaced.endRow_eq, Window.size, Nat.mul_comm,
    ← Nat.div_lt_iff_lt_mul w.width_pos]
  omega

theorem toRow_window : r.toRow = w.toRow := by
  have hheight := w.height_eq
  rw [hplaced.toRow_eq]
  omega

theorem scrollup_iff (hlength : r.line.str.length ≤ 2000) :
    r.Scrollup ↔ w.size ≤ first + r.line.str.length := by
  have hrows := w.fromRow_le
  have hupper := w.fromRow_nonneg
  have hlower : w.toRow < 25 := w.toRow_lt
  have hinside := hplaced.inside
  have hsize := (size_le w).2
  have hend := hplaced.endRow_le_iff r.line.str.length
  have hsmall : (first + r.line.str.length) / w.width ≤ first + r.line.str.length :=
    Nat.div_le_self _ _
  rw [hplaced.endRow_eq] at hend
  unfold Scrollup
  rw [hplaced.numRows_eq hlength, hplaced.row_add, hplaced.toRow_window]
  generalize (first + r.line.str.length) / w.width = row at *
  rw [word_of (x := w.toRow) (n := w.toRow.toNat) (by omega) (by omega),
    word_of (x := w.fromRow + row) (n := w.fromRow.toNat + row) (by omega) (by omega)]
  omega

/-- The place of the cursor, also for a text whose end has pulled rows out of the
window. -/
theorem place_eq {n : Nat} (hn : n ≤ 2000) (hq : q < w.size)
    (hplace : q + rows * w.width = first + n)
    (hlast : rows = 0 ∨ w.size ≤ q + w.width) :
    r.place n = (w.column q, w.row q) := by
  have hrows := w.fromRow_le
  have hupper := w.fromRow_nonneg
  have hlower : w.toRow < 25 := w.toRow_lt
  have hwidth := (size_le w).1
  have hsize := (size_le w).2
  have hinside := hplaced.inside
  have hmod : (first % w.width + n) % w.width = q % w.width := by
    rw [Nat.mod_add_mod, ← hplace, Nat.add_mul_mod_self_right]
  have hrow : (first + n) / w.width = q / w.width + rows := by
    rw [← hplace, Nat.add_mul_div_right _ _ w.width_pos]
  have hcolumn := Nat.mod_lt q w.width_pos
  have hbelow : q / w.width < w.height := Nat.div_lt_of_lt_mul hq
  have hbottom : rows = 0 ∨ q / w.width + 1 = w.height :=
    hlast.imp_right (Roll.last_row w.width_pos hq)
  have hheight := w.height_eq
  have hsum := hplaced.row_add n
  have hsmall : (first + n) / w.width ≤ first + n := Nat.div_le_self _ _
  rw [hrow] at hsum hsmall
  have hcolumns : (word (r.xStart + n) : Int) % word r.width =
      (q % w.width : Nat) := by
    rw [hplaced.word_column hn, hplaced.width_eq,
      word_of (n := w.width) rfl (by omega)]
    exact_mod_cast hmod
  have hrows' : word ((word (r.xStart + n) : Int) / word r.width + r.yStart) =
      w.fromRow.toNat + (q / w.width + rows) := by
    rw [hplaced.word_column hn, hplaced.width_eq,
      word_of (n := w.width) rfl (by omega), ← Int.natCast_div]
    apply word_of <;> omega
  have htoCol : word r.out.display.screen.toCol = w.width - 1 := by
    rw [hplaced.toCol_eq]
    apply word_of <;> omega
  have htoRow : word r.toRow = w.fromRow.toNat + w.height - 1 := by
    rw [hplaced.toRow_eq]
    apply word_of <;> omega
  unfold place Window.column Window.row
  dsimp only
  rw [hplaced.leftmost, hcolumns, hrows', htoCol, htoRow]
  apply Prod.ext
  · dsimp only
    omega
  · dsimp only
    omega

theorem place_within {n : Nat} (hn : first + n < w.size) :
    r.place n = (w.column (first + n), w.row (first + n)) := by
  have hsize := (size_le w).2
  exact hplaced.place_eq (by omega) hn (by omega) (.inl rfl)

end Placed

/-! ### What is printed -/

/-- The window shows what is on the roll, and nothing is pending. -/
def Holds (w : Window) (useCursor : Bool) (old : Cells) (roll : Roll UInt8)
    (r : Reading) : Prop :=
  r.out.pos = 0 ∧ w.Bears useCursor old roll r.out.display

variable {old : Cells} {cells : Nat → UInt8} {shown : Nat → UInt8} {n : Nat}

theorem Placed.of_holds {r' : Reading} {roll : Roll UInt8}
    (hplaced : r.Placed w useCursor first) (hx : r'.xStart = r.xStart)
    (hy : r'.yStart = r.yStart) (hholds : r'.Holds w useCursor old roll) :
    r'.Placed w useCursor first := by
  obtain ⟨-, curX, curY, -, -, hscreen, -⟩ := hholds
  exact ⟨hplaced.leftmost, ⟨curX, curY, hscreen⟩, hx.trans hplaced.xStart,
    hy.trans hplaced.yStart, hplaced.inside⟩

theorem printed (hplaced : r.Placed w useCursor first)
    (hholds : r.Holds w useCursor old ⟨cells, p⟩) {text : Text}
    (hbreaks : '\n'.toUInt8 ∉ text) :
    let out := (text.foldl CGAStream.put (r.out.setpos r.xStart r.yStart)).flush
    out.pos = 0 ∧ w.Bears useCursor old
      ((⟨cells, first⟩ : Roll UInt8).write w.width w.size ' '.toUInt8 text)
      out.display := by
  obtain ⟨hpos, hbears⟩ := hholds
  have hstart := CGAStream.bears_setpos hbears hplaced.inside
  rw [← hplaced.xStart, ← hplaced.yStart] at hstart
  exact ⟨rfl, CGAStream.bears_text (s := r.out.setpos r.xStart r.yStart) hpos hstart
    hbreaks⟩

theorem isBlank_blank : IsBlank ' '.toUInt8 := .inl rfl

theorem erased (hplaced : r.Placed w useCursor first)
    (hholds : r.Holds w useCursor old ⟨cells, p⟩)
    (hframe : Roll.Frame w.size IsBlank shown first n cells)
    (hn : n ≤ r.line.str.length + 1) :
    ∃ rows roll, r.erase.Holds w useCursor old roll ∧
      Roll.Frame w.size IsBlank (Roll.up w.width w.size ' '.toUInt8 rows shown)
        (first - rows * w.width) 0 roll.cells ∧
      (first + (r.line.str.length + 1) < w.size → rows = 0) ∧
      (first + (r.line.str.length + 1) = w.size + 1 → 2 ≤ w.width → rows = 1) ∧
      (w.size ≤ first + (r.line.str.length + 1) →
        ∀ p < w.size, first ≤ p + w.width → IsBlank (roll.cells p)) := by
  have hlength : (List.replicate (r.line.str.length + 1) ' '.toUInt8).length =
      r.line.str.length + 1 := List.length_replicate
  have hblanks : ∀ c ∈ List.replicate (r.line.str.length + 1) ' '.toUInt8,
      IsBlank c := by
    intro c hc
    rw [List.eq_of_mem_replicate hc]
    exact isBlank_blank
  have hbreaks : '\n'.toUInt8 ∉
      List.replicate (r.line.str.length + 1) ' '.toUInt8 := by
    intro hmem
    exact absurd (List.eq_of_mem_replicate hmem) (by decide)
  obtain ⟨rows, hwritten⟩ := w.written hplaced.inside cells
    (List.replicate (r.line.str.length + 1) ' '.toUInt8)
  refine ⟨rows, _, printed hplaced hholds hbreaks, ?_, ?_, ?_, ?_⟩
  · exact hwritten.blanks hframe (by omega) isBlank_blank hblanks
  · intro hfits
    exact hwritten.rows_zero (by rwa [hlength])
  · intro hpast
    exact hwritten.rows_one (by rwa [hlength])
  · intro hfull p hp hbehind
    have hpos := hwritten.pos
    have hinside := hwritten.inside
    have hrows : 1 * w.width ≤ rows * w.width := by
      apply Nat.mul_le_mul_right
      rcases Nat.eq_zero_or_pos rows with rfl | hrows
      · dsimp only at hpos
        omega
      · exact hrows
    exact hwritten.all_blank isBlank_blank hblanks (by rwa [hlength]) hp
      (by dsimp only; omega)

theorem not_mem_visited {str : Text} (hbreaks : '\n'.toUInt8 ∉ str) :
    '\n'.toUInt8 ∉ Strings.visited str := by
  unfold Strings.visited
  split
  · decide
  · exact hbreaks

theorem visited_frame {s s' : Roll UInt8} {str : Text}
    (hwritten : Roll.Written w.width w.size ' '.toUInt8 s (Strings.visited str) rows s')
    (hframe : Roll.Frame w.size IsBlank shown s.pos n s.cells)
    (hn : n ≤ str.length) :
    Roll.Frame w.size IsBlank (Roll.up w.width w.size ' '.toUInt8 rows shown)
      (s.pos - rows * w.width) str.length s'.cells := by
  unfold Strings.visited at hwritten
  split at hwritten
  · next hempty =>
      rw [hempty] at hn ⊢
      refine hwritten.blanks hframe (Nat.le_trans hn (Nat.zero_le _)) isBlank_blank ?_
      intro c hc
      exact .inr (List.mem_singleton.mp hc)
  · exact hwritten.frame hframe hn isBlank_blank

theorem visited_blank {s s' : Roll UInt8} {str : Text}
    (hwritten : Roll.Written w.width w.size ' '.toUInt8 s (Strings.visited str) rows s')
    (hcells : ∀ p < w.size, s.pos ≤ p → IsBlank (s.cells p)) (hp : p < w.size)
    (hbehind : s.pos + str.length ≤ p + rows * w.width) :
    IsBlank (s'.cells p) := by
  have hlength := Strings.length_visited str
  by_cases hplace : s.pos + (Strings.visited str).length ≤ p + rows * w.width
  · exact hwritten.onto_blanks isBlank_blank hcells hp hplace
  · obtain rfl : str = [] := List.length_eq_zero_iff.mp (by omega)
    rw [hwritten.chars p hp 0 0 rfl (by simp at *; omega)]
    exact .inr rfl

theorem reprint_holds (hplaced : r.Placed w useCursor first)
    (hholds : r.Holds w useCursor old ⟨cells, p⟩)
    (hbreaks : '\n'.toUInt8 ∉ r.line.str) (hq : q < w.size)
    (hplace : r.place r.line.cursor = (w.column q, w.row q)) :
    r.reprint.Holds w useCursor old
      ⟨((⟨cells, first⟩ : Roll UInt8).write w.width w.size ' '.toUInt8
        (Strings.visited r.line.str)).cells, q⟩ := by
  obtain ⟨hpos, hbears⟩ := printed hplaced hholds (not_mem_visited hbreaks)
  unfold reprint
  dsimp only
  rw [hplace]
  exact ⟨hpos, CGAStream.bears_setpos hbears hq⟩

theorem reprinted (hplaced : r.Placed w useCursor first)
    (hholds : r.Holds w useCursor old ⟨cells, p⟩)
    (hframe : Roll.Frame w.size IsBlank shown first n cells)
    (hn : n ≤ r.line.str.length) (hbreaks : '\n'.toUInt8 ∉ r.line.str)
    (hfits : first + max 1 r.line.str.length < w.size)
    (hcursor : r.line.cursor ≤ r.line.str.length) :
    ∃ cells', r.reprint.Holds w useCursor old ⟨cells', first + r.line.cursor⟩ ∧
      Roll.Frame w.size IsBlank shown first r.line.str.length cells' ∧
      ∀ i c, r.line.str[i]? = some c → cells' (first + i) = c := by
  have hsize := (size_le w).2
  obtain ⟨rows, hwritten⟩ := w.written hplaced.inside cells
    (Strings.visited r.line.str)
  obtain rfl : rows = 0 := hwritten.rows_zero (by rwa [Strings.length_visited])
  have hplace : r.place r.line.cursor = _ := hplaced.place_within (by omega)
  refine ⟨_, reprint_holds hplaced hholds hbreaks (by omega) hplace, ?_, ?_⟩
  · have hvisited := visited_frame hwritten hframe hn
    rw [Nat.zero_mul, Nat.sub_zero] at hvisited
    refine ⟨?_, ?_⟩
    · intro p hp hfirst
      rw [hvisited.above p hp hfirst, Roll.up_zero shown hp]
    · intro p hp hbehind
      have hsame : Roll.up w.width w.size ' '.toUInt8 0 shown p = shown p :=
        Roll.up_zero shown hp
      rw [← hsame]
      exact hvisited.behind p hp hbehind
  · intro i c hi
    have hvisited : Strings.visited r.line.str = r.line.str := by
      refine if_neg ?_
      intro hempty
      rw [hempty] at hi
      cases hi
    rw [hvisited] at hwritten ⊢
    have hcell := hwritten.chars_eq (by omega) hi
    rwa [Nat.zero_mul, Nat.sub_zero] at hcell

/-! ### The rounds -/

/-- What is known between the rounds.  `moved` rows have left the window since the
start. -/
structure Shown (w : Window) (useCursor : Bool) (start : Reading)
    (first moved : Nat) (cells : Nat → UInt8) (r : Reading) : Prop where
  placed : r.Placed w useCursor first
  start_first : start.first w = first + moved * w.width
  start_inside : start.first w < w.size
  cursor_le : r.line.cursor ≤ r.line.str.length
  breaks : '\n'.toUInt8 ∉ r.line.str
  fits : first + r.line.str.length < w.size
  holds : r.Holds w useCursor start.out.display.cells ⟨cells, first + r.line.cursor⟩
  frame : Roll.Frame w.size IsBlank
    (Roll.up w.width w.size ' '.toUInt8 moved (start.shown w)) first
    r.line.str.length cells
  text : ∀ i c, r.line.str[i]? = some c → cells (first + i) = c

theorem Placed.first_eq (hplaced : r.Placed w useCursor first) : r.first w = first := by
  have hdivided := Nat.div_add_mod first w.width
  have hy : (r.yStart - w.fromRow).toNat = first / w.width := by
    rw [hplaced.yStart, Window.row, add_sub_cancel_left, Int.toNat_natCast]
  have hx : r.xStart.toNat = first % w.width := by
    rw [hplaced.xStart, Window.column, hplaced.leftmost, Int.zero_add,
      Int.toNat_natCast]
  rw [Reading.first, hy, hx, Nat.mul_comm, hdivided]

variable {start : Reading} {moved : Nat}

theorem Shown.displays (hshown : Shown w useCursor start first moved cells r) :
    start.Displays w r := by
  obtain ⟨hplaced, hstart, hinside, hcursor, hbreaks, hfits, ⟨hpos, hbears⟩, hframe,
    htext⟩ := hshown
  obtain ⟨curX, curY, x, y, hscreen, hgetpos, hpresents⟩ := hbears
  have hglyph : ∀ p < w.size, r.shown w p = cells p := hpresents.glyphs
  have hfirst := hplaced.first_eq
  have hshift : start.first w - first = moved * w.width := by omega
  refine ⟨⟨?_, by omega⟩, ?_, ?_, ?_, hpresents.outside, ?_⟩
  · rw [hplaced.yStart, Window.row]
    exact Int.le_add_of_nonneg_right (Int.natCast_nonneg _)
  · intro i c hi
    have hlt := (List.getElem?_eq_some_iff.mp hi).1
    rw [hfirst, hglyph _ (by omega)]
    exact htext i c hi
  · intro p hp hbehind
    rw [hfirst] at hbehind
    rw [hfirst, hshift, hglyph p hp]
    rcases hframe.behind p hp hbehind with hblank | hold
    · exact .inl hblank
    · rw [hold, Roll.up]
      split
      · next hvisible => exact .inr ⟨hvisible, rfl⟩
      · exact .inl isBlank_blank
  · intro p hp
    rw [hfirst] at hp
    rw [hfirst, hshift, hglyph p (by omega), hframe.above p (by omega) hp, Roll.up,
      if_pos (by omega)]
  · rw [hfirst]
    change r.out.display.screen.getpos r.out.display.registers = _
    rw [hgetpos, show x = _ from hpresents.column, show y = _ from hpresents.row]

theorem shown_reprint (hplaced : r.Placed w useCursor first)
    (hstart : start.first w = first + moved * w.width)
    (hinside : start.first w < w.size)
    (hholds : r.Holds w useCursor start.out.display.cells ⟨cells, p⟩)
    (hframe : Roll.Frame w.size IsBlank
      (Roll.up w.width w.size ' '.toUInt8 moved (start.shown w)) first n cells)
    (hn : n ≤ r.line.str.length) (hbreaks : '\n'.toUInt8 ∉ r.line.str)
    (hfits : first + max 1 r.line.str.length < w.size)
    (hcursor : r.line.cursor ≤ r.line.str.length) :
    ∃ cells', Shown w useCursor start first moved cells' r.reprint := by
  obtain ⟨cells', hholds', hframe', htext⟩ :=
    reprinted hplaced hholds hframe hn hbreaks hfits hcursor
  exact ⟨cells', hplaced.of_holds rfl rfl hholds', hstart, hinside, hcursor, hbreaks,
    by rw [reprint_line]; omega, hholds', hframe', htext⟩

variable {k : Key}

theorem clear_same (hhist : ¬k.Hist) (hback : k.asc ≠ backspaceChar)
    (hscrollup : ¬r.Scrollup) : r.clear k = r := by
  unfold clear
  simp [hhist, hback, hscrollup]

theorem clear_erase (herase : k.Hist ∨ k.asc = backspaceChar)
    (hscrollup : ¬r.Scrollup) : r.clear k = r.erase := by
  unfold clear
  simp [herase, hscrollup]

theorem clear_scrollup (hscrollup : r.Scrollup) :
    r.clear k = { r.erase with yStart := r.yStart - 1 } := by
  unfold clear
  simp only [hscrollup, decide_true, if_true, true_or, or_true]
  rfl

theorem Shown.length_le (hshown : Shown w useCursor start first moved cells r) :
    r.line.str.length + 1 ≤ 2000 := by
  have hfits := hshown.fits
  have hsize := (size_le w).2
  omega

theorem Shown.curs (hshown : Shown w useCursor start first moved cells r)
    {line : Line} (hstr : line.str = r.line.str)
    (hcursor : line.cursor ≤ line.str.length) (hsome : r.line.str ≠ [])
    (hhist : ¬k.Hist) (hback : k.asc ≠ backspaceChar) :
    ∃ cells', Shown w useCursor start first moved cells'
      (({ r with line := line } : Reading).clear k).reprint := by
  have hfits := hshown.fits
  have hlength := List.length_pos_iff.mpr hsome
  have hplaced : ({ r with line := line } : Reading).Placed w useCursor first :=
    hshown.placed.of_holds rfl rfl hshown.holds
  have hscrollup : ¬({ r with line := line } : Reading).Scrollup := by
    have hlength' : line.str.length ≤ 2000 := by
      have hlength_le := hshown.length_le
      rw [hstr]
      omega
    rw [hplaced.scrollup_iff hlength']
    dsimp only
    rw [hstr]
    omega
  rw [clear_same hhist hback hscrollup]
  refine shown_reprint hplaced hshown.start_first hshown.start_inside hshown.holds
    hshown.frame ?_ ?_ ?_ hcursor
  · dsimp only
    rw [hstr]
  · dsimp only
    rw [hstr]
    exact hshown.breaks
  · dsimp only
    rw [hstr]
    omega

theorem Shown.deleted (hshown : Shown w useCursor start first moved cells r) {c : Nat}
    (hcursor : r.line.cursor = c + 1) (hback : k.asc = backspaceChar) :
    ∃ cells', Shown w useCursor start first moved cells'
      ((r.edit k).clear k).reprint := by
  obtain ⟨hplaced, hstart, hinside, hle, hbreaks, hfits, hholds, hframe, -⟩ := hshown
  have hsize := (size_le w).2
  have hsome : r.line.str ≠ [] := List.ne_nil_of_length_pos (by omega)
  have hlength : (r.line.str.eraseIdx c).length = r.line.str.length - 1 :=
    List.length_eraseIdx_of_lt (by omega)
  rw [edit_deletes hback hcursor (by omega) (by omega)]
  generalize hedited : ({ r with
    line := { r.line with str := r.line.str.eraseIdx c, cursor := c }
    out := (r.out.backspace (some r.line.str) c).2 } : Reading) = edited
  have hline : edited.line =
      { r.line with str := r.line.str.eraseIdx c, cursor := c } := by
    rw [← hedited]
  have hshorter : edited.line.str.length = r.line.str.length - 1 := by
    rw [hline, hlength]
  have hdeleted : edited.Holds w useCursor start.out.display.cells
      ⟨Function.update cells (first + c) ' '.toUInt8, first + c⟩ := by
    rw [← hedited]
    exact ⟨hholds.1, hholds.2.backspace hsome (by dsimp only; omega) c⟩
  have hplaced' : edited.Placed w useCursor first :=
    hplaced.of_holds (by rw [← hedited]) (by rw [← hedited]) hdeleted
  have hframe' : Roll.Frame w.size IsBlank
      (Roll.up w.width w.size ' '.toUInt8 moved (start.shown w)) first
      r.line.str.length (Function.update cells (first + c) ' '.toUInt8) := by
    refine ⟨?_, ?_⟩
    · intro p hp hfirst
      rw [Function.update_of_ne (by omega)]
      exact hframe.above p hp hfirst
    · intro p hp hbehind
      rw [Function.update_of_ne (by omega)]
      exact hframe.behind p hp hbehind
  have hscrollup : ¬edited.Scrollup := by
    rw [hplaced'.scrollup_iff (by omega)]
    omega
  rw [clear_erase (.inr hback) hscrollup]
  obtain ⟨rows, roll, hholds'', hframe'', hrows, -, -⟩ :=
    erased hplaced' hdeleted hframe' (by omega)
  obtain rfl := hrows (by omega)
  rw [Nat.zero_mul, Nat.sub_zero, Roll.up_up, Nat.zero_add] at hframe''
  refine shown_reprint (hplaced'.of_holds rfl rfl hholds'') hstart hinside hholds''
    hframe'' (Nat.zero_le _) ?_ ?_ ?_
  · change '\n'.toUInt8 ∉ edited.line.str
    rw [hline]
    exact fun hmem => hbreaks (List.mem_of_mem_eraseIdx hmem)
  · change first + max 1 edited.line.str.length < w.size
    omega
  · change edited.line.cursor ≤ edited.line.str.length
    rw [hshorter, hline]
    dsimp only
    omega

theorem Placed.up {r' : Reading} {roll : Roll UInt8}
    (hplaced : r.Placed w useCursor first) (hrow : rows * w.width ≤ first)
    (hx : r'.xStart = r.xStart) (hy : r'.yStart = r.yStart - rows)
    (hholds : r'.Holds w useCursor old roll) :
    r'.Placed w useCursor (first - rows * w.width) := by
  obtain ⟨-, curX, curY, -, -, hscreen, -⟩ := hholds
  have hinside := hplaced.inside
  have hsplit : first - rows * w.width + rows * w.width = first := by omega
  have hmod : first % w.width = (first - rows * w.width) % w.width := by
    rw [← Nat.add_mul_mod_self_right (first - rows * w.width) rows w.width, hsplit]
  have hdiv : first / w.width = (first - rows * w.width) / w.width + rows := by
    rw [← Nat.add_mul_div_right _ _ w.width_pos, hsplit]
  refine ⟨hplaced.leftmost, ⟨curX, curY, hscreen⟩, ?_, ?_, by omega⟩
  · rw [hx, hplaced.xStart, Window.column, Window.column, hmod]
  · rw [hy, hplaced.yStart, Window.row, Window.row, hdiv]
    push_cast
    ring

theorem frame_blank (hblank : ∀ p < w.size, n ≤ p → IsBlank (cells p)) :
    Roll.Frame w.size IsBlank shown 0 n cells :=
  ⟨fun p _ hp => absurd hp (Nat.not_lt_zero p),
    fun p hp hbehind => .inl (hblank p hp (by omega))⟩

theorem Shown.inserted (hshown : Shown w useCursor start first moved cells r)
    (hhist : ¬k.Hist) (hcurs : ¬k.Curs) (hback : k.asc ≠ backspaceChar)
    (hreckons : w.width = 1 →
      r.endRow w (r.line.str.length + 1) ≤ w.toRow ∨ r.yStart = w.fromRow + 1)
    (hfits' : (r.edit k).Fits w) :
    ∃ first' moved' cells', Shown w useCursor start first' moved' cells'
      ((r.edit k).clear k).reprint := by
  obtain ⟨hplaced, hstart, hinside, hle, hbreaks, hfits, hholds, hframe, -⟩ := hshown
  have hsize := (size_le w).2
  have hwidth := w.width_pos
  have hedit := edit_inserts hback hhist hcurs hle
  generalize hedited : r.edit k = edited at hedit hfits'
  have hlength : edited.line.str.length = r.line.str.length + 1 := by
    rw [hedit, List.length_append, List.length_cons, List.length_take,
      List.length_drop]
    omega
  have hcursor : edited.line.cursor = r.line.cursor + 1 := by rw [hedit]
  have hx : edited.xStart = r.xStart := by rw [hedit]
  have hy : edited.yStart = r.yStart := by rw [hedit]
  have hholds' : edited.Holds w useCursor start.out.display.cells
      ⟨cells, first + r.line.cursor⟩ := by
    rw [hedit]
    exact hholds
  have hplaced' := hplaced.of_holds hx hy hholds'
  by_cases hroom : first + (r.line.str.length + 1) < w.size
  · have hscrollup : ¬edited.Scrollup := by
      rw [hplaced'.scrollup_iff (by omega)]
      omega
    rw [clear_same hhist hback hscrollup]
    exact ⟨first, moved, shown_reprint hplaced' hstart hinside hholds' hframe
      (by omega) hfits'.1 (by omega) (by omega)⟩
  have hfull : first + (r.line.str.length + 1) = w.size := by omega
  have hscrollup : edited.Scrollup := by
    rw [hplaced'.scrollup_iff (by omega)]
    omega
  have hrow : w.width ≤ first := by
    have hsum := hplaced'.fits hfits'.2
    by_contra hfirst
    rw [Nat.mod_eq_of_lt (by omega)] at hsum
    omega
  obtain ⟨rows, roll, herased, hframe', -, hone, hblank⟩ :=
    erased hplaced' hholds' hframe (by omega)
  rw [Roll.up_up] at hframe'
  have hcleared : Roll.Frame w.size IsBlank
      (Roll.up w.width w.size ' '.toUInt8 (1 + moved) (start.shown w))
      (first - 1 * w.width) 0 roll.cells := by
    by_cases hwide : 2 ≤ w.width
    · obtain rfl := hone (by omega) hwide
      exact hframe'
    · have hfirst : first = 1 := by
        have hcolumns : w.width = 1 := by omega
        rcases hreckons hcolumns with hend | hstart
        · exact absurd ((hplaced.endRow_le_iff _).mp hend) hroom
        · rw [hplaced.yStart, Window.row, hcolumns, Nat.div_one] at hstart
          omega
      rw [show first - 1 * w.width = 0 by omega]
      exact frame_blank fun p hp _ => hblank (by omega) p hp (by omega)
  rw [clear_scrollup hscrollup]
  have hplaced'' : ({ edited.erase with yStart := edited.yStart - 1 } :
      Reading).Placed w useCursor (first - 1 * w.width) :=
    hplaced'.up (by omega) rfl rfl herased
  refine ⟨first - 1 * w.width, 1 + moved, shown_reprint hplaced'' ?_ hinside
    herased hcleared (Nat.zero_le _) hfits'.1 ?_ ?_⟩
  · rw [hstart, Nat.add_mul]
    omega
  · change first - 1 * w.width + max 1 edited.line.str.length < w.size
    omega
  · change edited.line.cursor ≤ edited.line.str.length
    omega

theorem adjust_eq (hplaced : r.Placed w useCursor first)
    (hlength : r.line.str.length ≤ 2000) {m : Nat} (hm : m ≤ 2000) :
    r.adjust ((first % w.width + m) / w.width) =
      if (first + m) / w.width + 1 = w.height ∧
          (first + m) / w.width < (first + r.line.str.length) / w.width then
        { r with
          yStart := r.yStart -
            ((first + r.line.str.length) / w.width - (first + m) / w.width : Nat) }
      else r := by
  have hupper := w.fromRow_nonneg
  have hlower : w.toRow < 25 := w.toRow_lt
  have hrows := w.fromRow_le
  have hsize := (size_le w).2
  have hinside := hplaced.inside
  have hsmall : (first + m) / w.width ≤ first + m := Nat.div_le_self _ _
  have hheight := w.height_eq
  have hword : word (r.yStart + ((first % w.width + m) / w.width : Nat)) =
      word r.toRow ↔ (first + m) / w.width + 1 = w.height := by
    rw [hplaced.row_add, hplaced.toRow_window]
    generalize (first + m) / w.width = row at *
    rw [word_of (x := w.toRow) (n := w.toRow.toNat) (by omega) (by omega),
      word_of (x := w.fromRow + row) (n := w.fromRow.toNat + row) (by omega)
        (by omega)]
    omega
  have hm' := row_of_add w first m
  have hlength' := row_of_add w first r.line.str.length
  have hmore : (first % w.width + r.line.str.length) / w.width >
      (first % w.width + m) / w.width ↔
      (first + m) / w.width < (first + r.line.str.length) / w.width := by
    rw [hm', hlength', gt_iff_lt, Nat.add_lt_add_iff_left]
  have hdifference : (first + r.line.str.length) / w.width - (first + m) / w.width =
      (first % w.width + r.line.str.length) / w.width -
        (first % w.width + m) / w.width := by
    rw [hm', hlength', Nat.add_sub_add_left]
  unfold adjust
  rw [hplaced.numRows_eq hlength, hdifference]
  by_cases hadapts : (first + m) / w.width + 1 = w.height ∧
      (first + m) / w.width < (first + r.line.str.length) / w.width
  · rw [if_pos hadapts]
    exact if_pos ⟨hword.mpr hadapts.1, hmore.mpr hadapts.2⟩
  · rw [if_neg hadapts]
    exact if_neg fun hadapts' =>
      hadapts ⟨hword.mp hadapts'.1, hmore.mp hadapts'.2⟩

theorem Shown.erased_for (hshown : Shown w useCursor start first moved cells r)
    (line : Line) :
    ∃ new rows roll, ({ r.erase with line := line } : Reading) = new ∧
      new.line = line ∧ new.Placed w useCursor first ∧
      new.Holds w useCursor start.out.display.cells roll ∧
      Roll.Frame w.size IsBlank
        (Roll.up w.width w.size ' '.toUInt8 (rows + moved) (start.shown w))
        (first - rows * w.width) 0 roll.cells ∧
      (first + (r.line.str.length + 1) < w.size → rows = 0) ∧
      (w.size ≤ first + (r.line.str.length + 1) →
        ∀ p < w.size, first ≤ p + w.width → IsBlank (roll.cells p)) := by
  obtain ⟨rows, roll, herased, hframe, hzero, -, hblank⟩ :=
    erased hshown.placed hshown.holds hshown.frame (Nat.le_succ _)
  rw [Roll.up_up] at hframe
  exact ⟨_, rows, roll, rfl, rfl, hshown.placed.of_holds rfl rfl herased, herased,
    hframe, hzero, hblank⟩

theorem Shown.replaced_within (hshown : Shown w useCursor start first moved cells r)
    {line : Line} (hbreaks' : '\n'.toUInt8 ∉ line.str)
    (hfits' : first + line.str.length < w.size)
    (hcursor' : line.cursor ≤ line.str.length)
    (hreckons : first + (r.line.str.length + 1) < w.size ∨ first = 0) :
    let printed := ({ r.erase with line := line } : Reading).reprint
    ∃ cells', Shown w useCursor start first moved cells' printed ∧
      printed.adjust r.numRows = printed := by
  obtain ⟨new, rows, roll, hnew, rfl, hplaced', hholds', hframe', hzero, hblank⟩ :=
    hshown.erased_for line
  obtain ⟨hplaced, hstart, hinside, -, -, hfits, -, -, -⟩ := hshown
  have hinside' := hplaced.inside
  have hsize := (size_le w).2
  rw [hnew]
  intro printed
  suffices hshown' : ∃ cells', Shown w useCursor start first moved cells' new.reprint by
    obtain ⟨cells', hshown'⟩ := hshown'
    refine ⟨cells', hshown', ?_⟩
    have hwithin : (first + new.line.str.length) / w.width < w.height :=
      Nat.div_lt_of_lt_mul hfits'
    change new.reprint.adjust r.numRows = new.reprint
    rw [hplaced.numRows_eq (by omega),
      adjust_eq hshown'.placed (by rw [reprint_line]; omega) (by omega),
      if_neg (by rw [reprint_line]; omega)]
  by_cases hroom : first + (r.line.str.length + 1) < w.size
  · obtain rfl := hzero hroom
    rw [Nat.zero_mul, Nat.sub_zero, Nat.zero_add] at hframe'
    exact shown_reprint hplaced' hstart hinside hholds' hframe' (Nat.zero_le _)
      hbreaks' (by omega) hcursor'
  obtain rfl := hreckons.resolve_left hroom
  have hblank' : ∀ p < w.size, 0 ≤ p → IsBlank (roll.cells p) :=
    fun p hp _ => hblank (by omega) p hp (Nat.zero_le _)
  by_cases hlarger : 0 + max 1 new.line.str.length < w.size
  · exact shown_reprint hplaced' hstart hinside hholds' (frame_blank hblank')
      (Nat.zero_le _) hbreaks' hlarger hcursor'
  · -- a window of one cell, in which the terminator of an empty text is shown
    have hempty : new.line.str = [] := List.length_eq_zero_iff.mp (by omega)
    obtain ⟨rows, hwritten⟩ := w.written hinside' roll.cells
      (Strings.visited new.line.str)
    have hcell : 0 + new.line.cursor < w.size := by omega
    have hreprint := reprint_holds hplaced' hholds' hbreaks' hcell
      (hplaced'.place_within hcell)
    generalize Roll.write _ _ _ _ _ = printed at hwritten hreprint
    refine ⟨printed.cells, hplaced'.of_holds rfl rfl hreprint, hstart, hinside,
      hcursor', hbreaks', hfits', hreprint, ?_, ?_⟩
    · rw [reprint_line, hempty]
      refine frame_blank fun p hp _ => visited_blank hwritten hblank' hp ?_
      rw [hempty]
      exact Nat.zero_le _
    · intro i c hi
      rw [reprint_line, hempty] at hi
      cases hi

theorem Shown.replaced_below (hshown : Shown w useCursor start first moved cells r)
    {line : Line} (hfits' : ({ r with line := line } : Reading).Fits w)
    (hbelow : w.size ≤ first + line.str.length)
    (hcursor' : line.cursor = line.str.length)
    (hlast : (first + r.line.str.length) / w.width + 1 = w.height)
    (hreckons : first + (r.line.str.length + 1) < w.size ∨
      first % w.width = 0 ∧
        (first + line.str.length) / w.width + 1 = first / w.width + w.height) :
    ∃ first' moved' cells', Shown w useCursor start first' moved' cells'
      (({ r.erase with line := line } : Reading).reprint.adjust r.numRows) := by
  obtain ⟨new, gone, roll, hnew, rfl, hplaced', hholds', hframe', hzero, hblank⟩ :=
    hshown.erased_for line
  obtain ⟨hplaced, hstart, hinside, -, -, hfits, -, -, -⟩ := hshown
  have hinside' := hplaced.inside
  have hsize := (size_le w).2
  have hwidth := w.width_pos
  have hsum := hplaced.fits hfits'.2
  have hbreaks' : '\n'.toUInt8 ∉ new.line.str := hfits'.1
  dsimp only at hsum
  rw [hnew]
  have hvisited : Strings.visited new.line.str = new.line.str := by
    refine if_neg fun hempty => ?_
    rw [hempty, List.length_nil] at hbelow
    omega
  obtain ⟨rows, hwritten⟩ := w.written hinside' roll.cells
    (Strings.visited new.line.str)
  generalize hprint : Roll.write _ _ _ _ _ = printed at hwritten
  have hpos := hwritten.pos
  have hprinted := hwritten.inside
  obtain ⟨hend, hbottom⟩ := hwritten.end_row w.width_pos
  rw [hvisited] at hpos hend
  dsimp only at hpos hend
  have hplace : new.place new.line.cursor = _ :=
    hplaced'.place_eq (by omega) hprinted (by omega) hwritten.last
  have hreprint := reprint_holds hplaced' hholds' hbreaks' hprinted hplace
  rw [hprint] at hreprint
  have hrows : rows ≠ 0 := by
    rintro rfl
    omega
  have hbottom := hbottom.resolve_left hrows
  have hsplit := row_of_add w first new.line.str.length
  have hfirst : rows * w.width ≤ first := by
    have hlow : (first % w.width + new.line.str.length) / w.width < w.height :=
      Nat.div_lt_of_lt_mul hsum
    exact Nat.le_trans (Nat.mul_le_mul_right _ (show rows ≤ first / w.width by omega))
      (Nat.div_mul_le_self _ _)
  have hadjust : new.reprint.adjust r.numRows =
      { new.reprint with yStart := new.yStart - rows } := by
    have hplaced'' : new.reprint.Placed w useCursor first :=
      hplaced'.of_holds rfl rfl hreprint
    rw [hplaced.numRows_eq (by omega),
      adjust_eq hplaced'' (by rw [reprint_line]; omega) (by omega), reprint_line,
      if_pos ⟨hlast, by omega⟩]
    rw [show (first + new.line.str.length) / w.width -
      (first + r.line.str.length) / w.width = rows by omega]
    rfl
  rw [hadjust]
  refine ⟨first - rows * w.width, rows + moved, printed.cells,
    hplaced'.up hfirst rfl rfl hreprint, ?_, hinside, ?_, hbreaks', ?_, ?_, ?_, ?_⟩
  · rw [hstart, Nat.add_mul]
    omega
  · exact Nat.le_of_eq hcursor'
  · change first - rows * w.width + new.line.str.length < w.size
    omega
  · have hcell : printed.pos = first - rows * w.width + new.line.cursor := by omega
    rw [hcell] at hreprint
    exact hreprint
  · by_cases hroom : first + (r.line.str.length + 1) < w.size
    · obtain rfl := hzero hroom
      rw [Nat.zero_mul, Nat.sub_zero, Nat.zero_add] at hframe'
      have hframe'' := visited_frame hwritten hframe' (Nat.zero_le _)
      rwa [Roll.up_up] at hframe''
    · obtain ⟨hcolumn, hend'⟩ := hreckons.resolve_left hroom
      have hgone : first = rows * w.width := by
        have hfirst' := Nat.mod_add_div' first w.width
        rw [hcolumn, show first / w.width = rows by omega, Nat.zero_add] at hfirst'
        exact hfirst'.symm
      rw [show first - rows * w.width = 0 by omega]
      refine frame_blank fun p hp hbehind => visited_blank hwritten ?_ hp ?_
      · intro p hp hfrom
        dsimp only at hfrom
        exact hblank (by omega) p hp (by omega)
      · change new.line.str.length ≤ p at hbehind
        dsimp only
        omega
  · intro i c hi
    rw [hvisited] at hwritten
    exact hwritten.chars_eq hfirst hi

theorem Shown.first_zero (hshown : Shown w useCursor start first moved cells r)
    (hfits' : first + n < w.size)
    (hreckons : r.endRow w (r.line.str.length + 1) ≤ w.toRow ∨
      r.xStart = 0 ∧ r.yStart - max 0 (r.endRow w n - w.toRow) = w.fromRow) :
    first + (r.line.str.length + 1) < w.size ∨ first = 0 := by
  have hplaced := hshown.placed
  have hend := (hplaced.endRow_le_iff n).mpr hfits'
  rw [hplaced.endRow_le_iff] at hreckons
  refine hreckons.imp_right fun ⟨hcolumn, hrow⟩ => ?_
  rw [hplaced.xStart, Window.column, hplaced.leftmost, Int.zero_add] at hcolumn
  rw [hplaced.yStart, Window.row] at hrow
  have hcolumn' : first % w.width = 0 := by exact_mod_cast hcolumn
  have hrow' : first / w.width = 0 := by
    generalize first / w.width = row at *
    omega
  have hdivided := Nat.div_add_mod first w.width
  rwa [hcolumn', hrow', Nat.mul_zero, Nat.zero_add, eq_comm] at hdivided

theorem Shown.replaced (hshown : Shown w useCursor start first moved cells r)
    {line : Line} (hfits' : ({ r with line := line } : Reading).Fits w)
    (hcursor' : line.cursor = line.str.length ∨
      line.cursor ≤ line.str.length ∧ line.str.length ≤ r.line.str.length)
    (hends : r.endRow w line.str.length ≤ w.toRow ∨
      r.endRow w r.line.str.length = w.toRow)
    (hreckons : r.endRow w (r.line.str.length + 1) ≤ w.toRow ∨
      r.xStart = 0 ∧
        r.yStart - max 0 (r.endRow w line.str.length - w.toRow) = w.fromRow) :
    ∃ first' moved' cells', Shown w useCursor start first' moved' cells'
      (({ r.erase with line := line } : Reading).reprint.adjust r.numRows) := by
  have hplaced := hshown.placed
  have hfits := hshown.fits
  have hrows := w.fromRow_le
  have hheight := w.height_eq
  by_cases hbelow : first + line.str.length < w.size
  · have hle : line.cursor ≤ line.str.length := by omega
    obtain ⟨cells', hshown', hadjust⟩ := hshown.replaced_within
      (show '\n'.toUInt8 ∉ line.str from hfits'.1) hbelow hle
      (hshown.first_zero hbelow hreckons)
    rw [hadjust]
    exact ⟨first, moved, cells', hshown'⟩
  have hleft : r.xStart = (first % w.width : Nat) := by
    rw [hplaced.xStart, Window.column, hplaced.leftmost, Int.zero_add]
  have htop : r.yStart = w.fromRow + (first / w.width : Nat) := hplaced.yStart
  rw [hplaced.endRow_le_iff, hplaced.endRow_eq] at hends
  rw [hplaced.endRow_le_iff, hplaced.endRow_eq, hleft, htop] at hreckons
  have hlast : (first + r.line.str.length) / w.width + 1 = w.height := by
    have hlast' := hends.resolve_left hbelow
    generalize (first + r.line.str.length) / w.width = row at *
    omega
  refine hshown.replaced_below hfits' (Nat.not_lt.mp hbelow) (by omega) hlast
    (hreckons.imp_right fun ⟨hcolumn, hrow⟩ => ⟨by exact_mod_cast hcolumn, ?_⟩)
  have hend : w.height ≤ (first + line.str.length) / w.width :=
    (Nat.le_div_iff_mul_le w.width_pos).mpr
      (by rw [Nat.mul_comm]; exact Nat.not_lt.mp hbelow)
  generalize (first + line.str.length) / w.width = row at *
  generalize first / w.width = row' at *
  omega

end Reading

end X86Os32.Shell
