import X86Os32.Device.CGAStream
import X86Os32.Library.Roll

namespace X86Os32.CGA

open Library Library.LocalAction
open OStream (Text)

/-! What a stream shows, cell by cell, when no newline is put into it. -/

namespace Window

variable (w : Window)

def size : Nat := w.width * w.height

def column (p : Nat) : Int := w.fromCol + (p % w.width : Nat)

def row (p : Nat) : Int := w.fromRow + (p / w.width : Nat)

/-- The character in a cell, counted from the first cell of the window on. -/
def glyph (cells : Cells) (p : Nat) : UInt8 :=
  (cells (CGAScreen.index (w.column p) (w.row p))).pixel.ascii

/-- The window shows what is on the roll, with the pen where it is written next, and
the rest of the screen is as it was. -/
structure Presents (old : Cells) (roll : Roll UInt8) (pen : CGAScreen.Pen) :
    Prop where
  column : pen.x = w.column roll.pos
  row : pen.y = w.row roll.pos
  inside : roll.pos < w.size
  glyphs : ∀ p < w.size, w.glyph pen.cells p = roll.cells p
  outside : ∀ i ∉ w.region, pen.cells i = old i

variable {w} {old cells : Cells} {roll : Roll UInt8} {pen : CGAScreen.Pen}
  {useCursor : Bool} {curX curY : Int} {attrib : Attribute} {p q : Nat}

theorem width_eq (w : Window) : (w.width : Int) = w.toCol - w.fromCol + 1 := by
  have hcolumns := w.fromCol_le
  unfold width
  omega

theorem height_eq (w : Window) : (w.height : Int) = w.toRow - w.fromRow + 1 := by
  have hrows := w.fromRow_le
  unfold height
  omega

theorem height_pos (w : Window) : 0 < w.height := by
  have hrows := w.fromRow_le
  have hheight := w.height_eq
  omega

theorem width_le_size (w : Window) : w.width ≤ w.size :=
  Nat.le_mul_of_pos_right _ w.height_pos

theorem written (w : Window) {first : Nat} (hfirst : first < w.size)
    (cells : Nat → UInt8) (text : Text) :
    ∃ rows, Roll.Written w.width w.size ' '.toUInt8 ⟨cells, first⟩ text rows
      ((⟨cells, first⟩ : Roll UInt8).write w.width w.size ' '.toUInt8 text) :=
  Roll.written w.width_pos w.width_le_size hfirst text

theorem column_row {r c : Nat} (hc : c < w.width) (hp : w.width * r + c = p) :
    w.column p = w.fromCol + c ∧ w.row p = w.fromRow + r := by
  obtain ⟨hdiv, hmod⟩ := (Nat.div_mod_unique (a := p) (c := c) (d := r)
    w.width_pos).mpr ⟨by omega, hc⟩
  unfold column row
  rw [hdiv, hmod]
  exact ⟨rfl, rfl⟩

theorem exists_row (hp : p < w.size) :
    ∃ r c, r < w.height ∧ c < w.width ∧ w.width * r + c = p :=
  ⟨p / w.width, p % w.width, Nat.div_lt_of_lt_mul hp, Nat.mod_lt p w.width_pos,
    Nat.div_add_mod p w.width⟩

theorem inside_cell (hp : p < w.size) : w.Inside (w.column p) (w.row p) := by
  obtain ⟨r, c, hr, hc, hplace⟩ := exists_row hp
  obtain ⟨hcolumn, hrow⟩ := column_row hc hplace
  have hwidth := w.width_eq
  have hheight := w.height_eq
  rw [hcolumn, hrow]
  constructor <;> omega

theorem cell_injective (hp : p < w.size) (hq : q < w.size)
    (hindex : CGAScreen.index (w.column p) (w.row p) =
      CGAScreen.index (w.column q) (w.row q)) : p = q := by
  obtain ⟨hcolumn, hrow⟩ := index_injective (inside_cell hp).column
    (inside_cell hq).column hindex
  unfold column at hcolumn
  unfold row at hrow
  have hmod : p % w.width = q % w.width := by omega
  have hdiv : p / w.width = q / w.width := by omega
  rw [← Nat.div_add_mod p w.width, hmod, hdiv, Nat.div_add_mod]

theorem glyph_write (hp : p < w.size) (hq : q < w.size) (c : UInt8) :
    w.glyph (CGAScreen.write cells (CGAScreen.index (w.column q) (w.row q))
      ⟨c, attrib⟩) p = if p = q then c else w.glyph cells p := by
  unfold glyph
  rw [pixel_write]
  by_cases hsame : p = q
  · rw [if_pos (by rw [hsame]), if_pos hsame]
  · rw [if_neg (mt (cell_injective hp hq) hsame), if_neg hsame]

theorem glyph_moveUpOneLine (hp : p < w.size) :
    w.glyph ((w.screen useCursor curX curY).moveUpOneLine cells attrib) p =
      Roll.up w.width w.size ' '.toUInt8 1 (w.glyph cells) p := by
  obtain ⟨r, c, hr, hc, hplace⟩ := exists_row hp
  obtain ⟨hcolumn, hrow⟩ := column_row hc hplace
  have hrows := w.fromRow_le
  have hnext : w.width * (r + 1) + c = p + 1 * w.width := by
    rw [Nat.mul_succ]
    omega
  obtain ⟨hcolumn', hrow'⟩ := column_row hc hnext
  have hheight := w.height_eq
  unfold Roll.up
  unfold glyph
  rw [pixel_moveUpOneLine cells attrib (inside_cell hp)]
  by_cases hlast : r + 1 = w.height
  · have hhidden : ¬p + 1 * w.width < w.size := by
      rw [← hnext, hlast]
      exact Nat.not_lt.mpr (Nat.le_add_right _ _)
    rw [if_neg hhidden, if_pos (by omega)]
  · have hvisible : p + 1 * w.width < w.size := by
      have hle : w.width * (r + 2) ≤ w.size := Nat.mul_le_mul_left _ (by omega)
      rw [Nat.mul_succ] at hle
      omega
    have hbelow : w.row (p + 1 * w.width) = w.row p + 1 := by omega
    rw [if_pos hvisible, if_neg (by omega), hbelow, hcolumn', hcolumn]

theorem column_succ {r c : Nat} (hc : c + 1 < w.width) (hp : w.width * r + c = p) :
    w.column (p + 1) = w.column p + 1 ∧ w.row (p + 1) = w.row p := by
  obtain ⟨hcolumn, hrow⟩ := column_row (Nat.lt_of_succ_lt hc) hp
  obtain ⟨hcolumn', hrow'⟩ := column_row (p := p + 1) (r := r) hc (by omega)
  omega

theorem printChar_next {x y : Int} {c : UInt8} (hbreak : c ≠ '\n'.toUInt8)
    (hcolumn : x + 1 ≤ w.toCol) :
    (w.screen useCursor curX curY).printChar attrib ⟨x, y, cells⟩ c =
      ⟨x + 1, y, CGAScreen.showPixel cells x y c attrib⟩ := by
  unfold CGAScreen.printChar
  rw [if_neg hbreak]
  exact if_neg (Int.not_lt.mpr hcolumn)

theorem printChar_last {x y : Int} {c : UInt8} (hbreak : c ≠ '\n'.toUInt8)
    (hcolumn : w.toCol < x + 1) :
    (w.screen useCursor curX curY).printChar attrib ⟨x, y, cells⟩ c =
      (w.screen useCursor curX curY).lf
        ⟨x + 1, y, CGAScreen.showPixel cells x y c attrib⟩ attrib := by
  unfold CGAScreen.printChar
  rw [if_neg hbreak]
  exact if_pos hcolumn

theorem lf_down {x y : Int} (hrow : y + 1 ≤ w.toRow) :
    (w.screen useCursor curX curY).lf ⟨x, y, cells⟩ attrib =
      ⟨w.fromCol, y + 1, cells⟩ :=
  if_neg (Int.not_lt.mpr hrow)

theorem lf_scroll {x y : Int} (hrow : w.toRow < y + 1) :
    (w.screen useCursor curX curY).lf ⟨x, y, cells⟩ attrib =
      ⟨w.fromCol, y, (w.screen useCursor curX curY).moveUpOneLine cells attrib⟩ :=
  if_pos hrow

theorem Presents.printChar (hpresents : w.Presents old roll pen) {c : UInt8}
    (hbreak : c ≠ '\n'.toUInt8) :
    w.Presents old (roll.put w.width w.size ' '.toUInt8 c)
      ((w.screen useCursor curX curY).printChar attrib pen c) := by
  obtain ⟨x, y, cells⟩ := pen
  obtain ⟨cells', pos⟩ := roll
  obtain ⟨hx, hy, hinside, hglyphs, houtside⟩ := hpresents
  dsimp only at hx hy hinside hglyphs houtside
  have hin : w.Inside x y := by
    rw [hx, hy]
    exact inside_cell hinside
  have houter : ∀ i ∉ w.region, ((w.screen useCursor curX curY).printChar attrib
      ⟨x, y, cells⟩ c).cells i = old i := by
    obtain ⟨x', y', paint, -, hpaint, hact⟩ := printChar_confined w useCursor curX
      curY attrib c x y hin
    intro i hi
    rw [show (w.screen useCursor curX curY).printChar attrib ⟨x, y, cells⟩ c = _ from
      hact cells]
    exact (hpaint.frame cells i hi).trans (houtside i hi)
  have hshown : ∀ p < w.size, w.glyph (CGAScreen.showPixel cells x y c attrib) p =
      Function.update cells' pos c p := by
    intro p hp
    rw [showPixel_eq hin, hx, hy, glyph_write hp hinside, Function.update_apply,
      hglyphs p hp]
  obtain ⟨r, k, hr, hk, hplace⟩ := exists_row hinside
  obtain ⟨hcolumn, hrow⟩ := column_row hk hplace
  have hwidth := w.width_eq
  have hheight := w.height_eq
  have hsize : w.width * (r + 1) ≤ w.size := Nat.mul_le_mul_left _ hr
  rw [Nat.mul_succ] at hsize
  unfold Roll.put
  dsimp only
  by_cases hlast : k + 1 = w.width
  · have hnext : w.width * (r + 1) + 0 = pos + 1 := by
      rw [Nat.mul_succ]
      omega
    rw [printChar_last hbreak (by omega)] at houter ⊢
    by_cases hbottom : r + 1 = w.height
    · have hend : pos + 1 = w.size := by
        rw [← hnext, hbottom]
        rfl
      obtain ⟨hcolumn', hrow'⟩ := column_row (p := pos + 1 - w.width) (r := r)
        w.width_pos (by omega)
      rw [lf_scroll (by omega)] at houter ⊢
      rw [if_pos hend]
      refine ⟨?_, ?_, ?_, ?_, houter⟩
      · dsimp only
        omega
      · dsimp only
        omega
      · dsimp only
        omega
      · intro p hp
        dsimp only
        rw [glyph_moveUpOneLine hp]
        unfold Roll.up
        split
        · next hvisible => exact hshown _ hvisible
        · rfl
    · have hend : pos + 1 < w.size := by
        have hle : w.width * (r + 2) ≤ w.size := Nat.mul_le_mul_left _ (by omega)
        have hwidth' := w.width_pos
        rw [Nat.mul_succ] at hle
        omega
      obtain ⟨hcolumn', hrow'⟩ := column_row w.width_pos hnext
      rw [lf_down (by omega)] at houter ⊢
      rw [if_neg (Nat.ne_of_lt hend)]
      refine ⟨?_, ?_, hend, hshown, houter⟩
      · dsimp only
        omega
      · dsimp only
        omega
  · have hend : pos + 1 < w.size := by omega
    obtain ⟨hcolumn', hrow'⟩ := column_succ (by omega) hplace
    rw [printChar_next hbreak (by omega)] at houter ⊢
    rw [if_neg (Nat.ne_of_lt hend)]
    refine ⟨?_, ?_, hend, hshown, houter⟩
    · dsimp only
      omega
    · dsimp only
      omega

theorem Presents.foldl (hpresents : w.Presents old roll pen) {text : Text}
    (hbreaks : '\n'.toUInt8 ∉ text) :
    w.Presents old (roll.write w.width w.size ' '.toUInt8 text)
      (text.foldl ((w.screen useCursor curX curY).printChar attrib) pen) := by
  induction text generalizing roll pen with
  | nil => exact hpresents
  | cons c rest ih =>
      obtain ⟨hbreak, hrest⟩ := not_or.mp (List.mem_cons.not.mp hbreaks)
      exact ih (hpresents.printChar (Ne.symm hbreak)) hrest

/-- The window shows what is on the roll, with the cursor where it is written
next. -/
def Bears (w : Window) (useCursor : Bool) (old : Cells) (roll : Roll UInt8)
    (outcome : Outcome) : Prop :=
  ∃ curX curY x y, outcome.screen = w.screen useCursor curX curY ∧
    outcome.screen.getpos outcome.registers = (x, y) ∧
    w.Presents old roll ⟨x, y, outcome.cells⟩

variable {outcome : Outcome}

theorem Bears.setpos (hbears : w.Bears useCursor old roll outcome)
    (hp : p < w.size) :
    w.Bears useCursor old ⟨roll.cells, p⟩
      ⟨(outcome.screen.setpos outcome.registers (w.column p) (w.row p)).1,
        outcome.cells,
        (outcome.screen.setpos outcome.registers (w.column p) (w.row p)).2⟩ := by
  obtain ⟨screen, cells, registers⟩ := outcome
  obtain ⟨curX, curY, x, y, rfl, -, hpresents⟩ := hbears
  obtain ⟨curX', curY', registers', hsetpos, hgetpos⟩ :=
    setpos_getpos w useCursor curX curY registers (inside_cell hp)
  rw [hsetpos]
  exact ⟨curX', curY', _, _, rfl, hgetpos, rfl, rfl, hp, hpresents.glyphs,
    hpresents.outside⟩

theorem Bears.print (hbears : w.Bears useCursor old roll outcome) {text : Text}
    (hbreaks : '\n'.toUInt8 ∉ text) :
    w.Bears useCursor old (roll.write w.width w.size ' '.toUInt8 text)
      (outcome.screen.print outcome.cells outcome.registers text attrib) := by
  obtain ⟨screen, cells, registers⟩ := outcome
  obtain ⟨curX, curY, x, y, rfl, hgetpos, hpresents⟩ := hbears
  have hin : w.Inside x y := by
    have hcell := inside_cell hpresents.inside
    rwa [← hpresents.column, ← hpresents.row] at hcell
  have hprinted : w.Presents old (roll.write w.width w.size ' '.toUInt8 text)
      (text.foldl ((w.screen useCursor curX curY).printChar attrib)
        ⟨x, y, cells⟩) := hpresents.foldl hbreaks
  generalize hpen : text.foldl ((w.screen useCursor curX curY).printChar attrib)
    ⟨x, y, cells⟩ = pen at hprinted
  have hin' : w.Inside pen.x pen.y := by
    rw [hprinted.column, hprinted.row]
    exact inside_cell hprinted.inside
  obtain ⟨curX', curY', registers', hsetpos, hgetpos'⟩ :=
    setpos_getpos w useCursor curX curY registers hin'
  rw [CGAScreen.print_eq hgetpos (outside_iff.not.mpr (not_not.mpr hin)) hpen
    hsetpos]
  exact ⟨curX', curY', pen.x, pen.y, rfl, hgetpos', hprinted⟩

theorem stepBack_eq (hp : p + 1 < w.size) :
    (w.screen useCursor curX curY).stepBack (w.column (p + 1)) (w.row (p + 1)) =
      (w.column p, w.row p) := by
  obtain ⟨r, c, hr, hc, hplace⟩ := exists_row (Nat.lt_of_succ_lt hp)
  obtain ⟨hcolumn, hrow⟩ := column_row hc hplace
  have hwidth := w.width_eq
  unfold CGAScreen.stepBack
  rw [screen_fromCol, screen_toCol, screen_fromRow]
  by_cases hlast : c + 1 = w.width
  · have hnext : w.width * (r + 1) + 0 = p + 1 := by
      rw [Nat.mul_succ]
      omega
    obtain ⟨hcolumn', hrow'⟩ := column_row w.width_pos hnext
    rw [if_pos (by omega), if_pos (by omega)]
    congr 1 <;> omega
  · obtain ⟨hcolumn', hrow'⟩ := column_succ (by omega) hplace
    rw [if_neg (by omega), hcolumn', hrow']
    congr 1
    omega

theorem Bears.backspace (hbears : w.Bears useCursor old roll outcome) {str : Text}
    (hsome : str ≠ []) (hpos : roll.pos = p + 1) (n : Nat) :
    w.Bears useCursor old ⟨Function.update roll.cells p ' '.toUInt8, p⟩
      (outcome.screen.backspace outcome.cells outcome.registers (some str) n).2 := by
  obtain ⟨screen, cells, registers⟩ := outcome
  obtain ⟨curX, curY, x, y, rfl, hgetpos, hx, hy, hinside, hglyphs, houtside⟩ := hbears
  dsimp only at hgetpos hx hy hglyphs houtside
  rw [hpos] at hx hy hinside
  have hp : p < w.size := Nat.lt_of_succ_lt hinside
  obtain ⟨curX', curY', registers', hsetpos, hgetpos'⟩ :=
    setpos_getpos w useCursor curX curY registers (inside_cell hp)
  unfold CGAScreen.backspace
  rw [if_neg (by simpa using hsome), hgetpos, hx, hy]
  dsimp only
  rw [stepBack_eq hinside]
  dsimp only
  rw [hsetpos, showPixel_eq (inside_cell hp)]
  refine ⟨curX', curY', _, _, rfl, hgetpos', rfl, rfl, hp, ?_, ?_⟩
  · intro q hq
    dsimp only
    rw [glyph_write hq hp, Function.update_apply, hglyphs q hq]
  · intro i hi
    have hne : i ≠ CGAScreen.index (w.column p) (w.row p) := by
      rintro rfl
      exact hi (inside_cell hp).mem_region
    exact (Function.update_of_ne hne _ _).trans (houtside i hi)

end Window

namespace CGAStream

open Window

variable {w : Window} {useCursor : Bool} {old : Cells} {roll : Roll UInt8}
  {s : CGAStream}

/-- What is on the roll is shown by the window, or pending. -/
def Rolls (w : Window) (useCursor : Bool) (old : Cells) (roll : Roll UInt8)
    (s : CGAStream) : Prop :=
  s.pos < 80 ∧ '\n'.toUInt8 ∉ s.pending ∧
    ∃ printed, w.Bears useCursor old printed s.display ∧
      roll = printed.write w.width w.size ' '.toUInt8 s.pending

theorem Rolls.flush (hrolls : s.Rolls w useCursor old roll) :
    w.Bears useCursor old roll s.flush.display := by
  obtain ⟨-, hbreaks, printed, hbears, rfl⟩ := hrolls
  exact hbears.print hbreaks

theorem rolls_of (hpos : s.pos = 0) (hbears : w.Bears useCursor old roll s.display) :
    s.Rolls w useCursor old roll := by
  have hpending : s.pending = [] := by
    unfold Stringbuffer.pending
    rw [hpos]
    rfl
  refine ⟨by omega, ?_, roll, hbears, ?_⟩ <;> rw [hpending]
  · exact List.not_mem_nil
  · rfl

theorem Rolls.put (hrolls : s.Rolls w useCursor old roll) {c : UInt8}
    (hbreak : c ≠ '\n'.toUInt8) :
    (s.put c).Rolls w useCursor old (roll.put w.width w.size ' '.toUInt8 c) := by
  obtain ⟨hpos, hbreaks, printed, hbears, rfl⟩ := hrolls
  have hpending := Stringbuffer.pending_store s.toStringbuffer c
  have hbreaks' : '\n'.toUInt8 ∉ (s.store c).pending := by
    rw [hpending, List.mem_append, List.mem_singleton]
    exact not_or.mpr ⟨hbreaks, Ne.symm hbreak⟩
  have hroll : (printed.write w.width w.size ' '.toUInt8 s.pending).put w.width w.size
      ' '.toUInt8 c = printed.write w.width w.size ' '.toUInt8 (s.store c).pending := by
    rw [hpending, Roll.write, Roll.write, List.foldl_append]
    rfl
  rw [hroll]
  unfold CGAStream.put
  dsimp only
  by_cases hfull : (s.store c).pos = 80
  · rw [if_pos hfull]
    exact rolls_of rfl (hbears.print hbreaks')
  · have hroom : s.pos + 1 ≠ 80 := hfull
    rw [if_neg hfull]
    exact ⟨show s.pos + 1 < 80 by omega, hbreaks', printed, hbears, rfl⟩

theorem bears_setpos {p : Nat} (hbears : w.Bears useCursor old roll s.display)
    (hp : p < w.size) :
    w.Bears useCursor old ⟨roll.cells, p⟩
      (s.setpos (w.column p) (w.row p)).display :=
  hbears.setpos hp

theorem bears_text (hpos : s.pos = 0) (hbears : w.Bears useCursor old roll s.display)
    {text : Text} (hbreaks : '\n'.toUInt8 ∉ text) :
    w.Bears useCursor old (roll.write w.width w.size ' '.toUInt8 text)
      (text.foldl CGAStream.put s).flush.display := by
  suffices hrolls : ∀ s roll, Rolls w useCursor old roll s →
      Rolls w useCursor old (roll.write w.width w.size ' '.toUInt8 text)
        (text.foldl CGAStream.put s) from
    (hrolls s roll (rolls_of hpos hbears)).flush
  induction text with
  | nil => exact fun s roll hrolls => hrolls
  | cons c rest ih =>
      obtain ⟨hbreak, hrest⟩ := not_or.mp (List.mem_cons.not.mp hbreaks)
      exact fun s roll hrolls => ih hrest _ _ (hrolls.put (Ne.symm hbreak))

end CGAStream

end X86Os32.CGA
