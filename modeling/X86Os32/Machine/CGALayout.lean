import X86Os32.Library.Sheet
import X86Os32.Machine.CGAWindow

namespace X86Os32.CGA

open Library Library.LocalAction
open OStream (Text)

/-! `print` shows the end of a sheet on which the text is laid out. -/

namespace Window

variable {w : Window} {x y : Int} {useCursor : Bool} {curX curY : Int}

/-! ### Scrolling and filling -/

theorem pixel_write (cells : Cells) (i j : Int) (pixel : Pixel) :
    (CGAScreen.write cells i pixel j).pixel =
      if j = i then pixel else (cells j).pixel := by
  unfold CGAScreen.write
  rw [Function.update_apply]
  split <;> rfl

def columnRegion (x : Int) : Set Int := {i | ∃ y, CGAScreen.index x y = i}

theorem columnRegion_disjoint {x' : Int} (hx : 0 ≤ x ∧ x < columns)
    (hx' : 0 ≤ x' ∧ x' < columns) (hne : x ≠ x') :
    Disjoint (columnRegion x) (columnRegion x') := by
  apply Set.disjoint_left.mpr
  intro i hi hi'
  obtain ⟨y, rfl⟩ := hi
  obtain ⟨y', hindex⟩ := hi'
  exact hne (index_injective hx' hx hindex).1.symm

theorem pixel_rows_up (cells : Cells) (x a : Int) (n : Nat) (y : Int) :
    ((((List.range n).map fun k : Nat => a + (k : Int)).foldl (fun cells y =>
        CGAScreen.write cells (CGAScreen.index x y)
          (cells (CGAScreen.index x (y + 1))).pixel) cells)
        (CGAScreen.index x y)).pixel =
      if a ≤ y ∧ y < a + n then (cells (CGAScreen.index x (y + 1))).pixel
      else (cells (CGAScreen.index x y)).pixel := by
  induction n generalizing y with
  | zero => rw [if_neg (by omega)]; rfl
  | succ n ih =>
      have hsame : ∀ y', CGAScreen.index x y' = CGAScreen.index x (a + n) ↔
          y' = a + n := by
        intro y'
        unfold CGAScreen.index columns
        omega
      rw [List.range_succ, List.map_append, List.foldl_append, List.map_singleton,
        List.foldl_cons, List.foldl_nil, pixel_write]
      by_cases hlast : y = a + n
      · rw [if_pos ((hsame y).mpr hlast), ih, if_neg (by omega), if_pos (by omega),
          hlast]
      · rw [if_neg (mt (hsame y).mp hlast), ih]
        split <;> split <;> first | rfl | omega

theorem span_pairwise (a b : Int) : (CGAScreen.span a b).Pairwise (· < ·) := by
  unfold CGAScreen.span
  rw [List.pairwise_map]
  exact List.pairwise_lt_range.imp fun hlt => by omega

theorem columns_disjoint (w : Window) :
    (CGAScreen.span w.fromCol w.toCol).Pairwise fun x x' =>
      Disjoint (columnRegion x) (columnRegion x') := by
  apply (span_pairwise w.fromCol w.toCol).imp_of_mem
  intro x x' hx hx' hlt
  have hbounds := mem_span.mp hx
  have hbounds' := mem_span.mp hx'
  have hleft := w.fromCol_nonneg
  have hright := w.toCol_lt
  exact columnRegion_disjoint (by omega) (by omega) (by omega)

theorem moveUpColumn_local (s : CGAScreen) (attrib : Attribute) (x : Int) :
    Local (columnRegion x) fun cells => s.moveUpColumn attrib cells x := by
  have hmem : ∀ y, CGAScreen.index x y ∈ columnRegion x := fun y => ⟨y, rfl⟩
  unfold CGAScreen.moveUpColumn
  have hclear : Local (columnRegion x) fun cells =>
      CGAScreen.write cells (CGAScreen.index x s.toRow) ⟨' '.toUInt8, attrib⟩ := by
    apply Local.update (hmem _)
    intro cells cells' hagree
    rw [hagree _ (hmem _)]
  refine hclear.comp (Local.foldl ?_)
  intro y hy
  apply Local.update (hmem y)
  intro cells cells' hagree
  rw [hagree _ (hmem y), hagree _ (hmem (y + 1))]

theorem pixel_moveUpOneLine (cells : Cells) (attrib : Attribute)
    (hin : w.Inside x y) :
    ((w.screen useCursor curX curY).moveUpOneLine cells attrib
        (CGAScreen.index x y)).pixel =
      if y = w.toRow then ⟨' '.toUInt8, attrib⟩
      else (cells (CGAScreen.index x (y + 1))).pixel := by
  have hrow := hin.2
  have hcolumn := foldl_inside
    (fun x _ => moveUpColumn_local (w.screen useCursor curX curY) attrib x)
    w.columns_disjoint (mem_span.mpr hin.1) ⟨y, rfl⟩ cells
  rw [show (w.screen useCursor curX curY).moveUpOneLine cells attrib _ = _ from
    hcolumn]
  unfold CGAScreen.moveUpColumn CGAScreen.span
  have hsame : CGAScreen.index x y = CGAScreen.index x w.toRow ↔ y = w.toRow := by
    unfold CGAScreen.index columns
    omega
  rw [pixel_write, screen_fromRow, screen_toRow]
  by_cases hlast : y = w.toRow
  · rw [if_pos (hsame.mpr hlast), if_pos hlast]
  · have hrows : w.fromRow ≤ y ∧
        y < w.fromRow + ((w.toRow - 1 - w.fromRow + 1).toNat : Nat) := by omega
    rw [if_neg (mt hsame.mp hlast), if_neg hlast, pixel_rows_up]
    exact if_pos hrows

theorem foldl_reaches {σ κ : Type*} {act : σ → κ → σ} {motive : σ → Prop}
    {steps : List κ} {step : κ} (hstep : step ∈ steps)
    (hset : ∀ s, motive (act s step))
    (hkeep : ∀ other ∈ steps, ∀ s, motive s → motive (act s other)) (s : σ) :
    motive (steps.foldl act s) := by
  obtain ⟨before, after, rfl⟩ := List.append_of_mem hstep
  rw [List.foldl_append, List.foldl_cons]
  apply List.foldlRecOn (motive := motive) after act (hset _)
  intro s hs other hother
  exact hkeep other (List.mem_append_right _ (List.mem_cons_of_mem _ hother)) s hs

theorem pixel_fill (cells : Cells) (c : UInt8) (attrib : Attribute)
    (hin : w.Inside x y) :
    ((w.screen useCursor curX curY).fill cells c attrib
      (CGAScreen.index x y)).pixel = ⟨c, attrib⟩ := by
  let filled : Cells → Prop := fun cells =>
    (cells (CGAScreen.index x y)).pixel = ⟨c, attrib⟩
  have hshow : ∀ x' ∈ CGAScreen.span w.fromCol w.toCol,
      ∀ y' ∈ CGAScreen.span w.fromRow w.toRow, ∀ cells,
      (CGAScreen.showPixel cells x' y' c attrib (CGAScreen.index x y)).pixel =
        if CGAScreen.index x y = CGAScreen.index x' y' then ⟨c, attrib⟩
        else (cells (CGAScreen.index x y)).pixel := by
    intro x' hx' y' hy' cells
    rw [showPixel_eq (w := w) ⟨mem_span.mp hx', mem_span.mp hy'⟩, pixel_write]
  have hkeep : ∀ x' ∈ CGAScreen.span w.fromCol w.toCol,
      ∀ y' ∈ CGAScreen.span w.fromRow w.toRow, ∀ cells, filled cells →
        filled (CGAScreen.showPixel cells x' y' c attrib) := by
    intro x' hx' y' hy' cells hfilled
    change _ = _
    rw [hshow x' hx' y' hy', show (cells _).pixel = _ from hfilled, ite_self]
  have hx := mem_span.mpr hin.1
  have hy := mem_span.mpr hin.2
  unfold CGAScreen.fill
  apply foldl_reaches (motive := filled) hx
  · intro cells
    apply foldl_reaches (motive := filled) hy
    · intro cells
      change _ = _
      rw [hshow x hx y hy, if_pos rfl]
    · exact hkeep x hx
  · intro x' hx' cells hfilled
    apply List.foldlRecOn (motive := filled) _ _ hfilled
    intro cells hcells y' hy'
    exact hkeep x' hx' y' hy' cells hcells

/-! ### Printing -/

variable (w) in
def width : Nat := (w.toCol - w.fromCol + 1).toNat

variable (w) in
def height : Nat := (w.toRow - w.fromRow + 1).toNat

def top (w : Window) (rows : List Text) : Nat := rows.length - w.height

/-- The window shows the last rows of the sheet, with the pen behind their end. -/
structure Shows (w : Window) (attrib : Attribute) (rows : List Text)
    (pen : CGAScreen.Pen) : Prop where
  column : pen.x = w.fromCol + ((rows.getLast?.getD []).length : Nat)
  row : pen.y = w.fromRow + (rows.length - 1 - w.top rows : Nat)
  cells : ∀ x y, w.Inside x y → (pen.cells (CGAScreen.index x y)).pixel =
    ⟨(Sheet.glyph rows (w.top rows + (y - w.fromRow).toNat)
      (x - w.fromCol).toNat).getD ' '.toUInt8, attrib⟩

variable {attrib : Attribute} {rows done : List Text} {last : Text}
  {pen : CGAScreen.Pen} {cells : Cells}

theorem Shows.inside (hshows : w.Shows attrib (done ++ [last]) pen)
    (hlast : last.length < w.width) : w.Inside pen.x pen.y := by
  obtain ⟨hcolumn, hrow, -⟩ := hshows
  have hrows := w.fromRow_le
  simp only [List.getLast?_concat, Option.getD_some] at hcolumn
  simp only [top, List.length_append, List.length_singleton] at hrow
  unfold width at hlast
  unfold height at hrow
  constructor <;> omega

theorem Shows.lf (hshows : w.Shows attrib rows pen) (hrows : rows ≠ []) :
    w.Shows attrib (rows ++ [[]])
      ((w.screen useCursor curX curY).lf pen attrib) := by
  obtain ⟨x, y, cells⟩ := pen
  obtain ⟨-, hrow, hcells⟩ := hshows
  have hlength := List.length_pos_iff.mpr hrows
  have hheight := w.fromRow_le
  have hnext : (rows ++ [([] : Text)]).length = rows.length + 1 := by
    rw [List.length_append, List.length_singleton]
  dsimp only at hrow hcells
  unfold CGAScreen.lf
  rw [screen_toRow]
  by_cases hlast : y + 1 > w.toRow
  · rw [if_pos hlast]
    have hfull : w.height ≤ rows.length := by
      unfold top height at *
      omega
    have htop : w.top (rows ++ [[]]) = w.top rows + 1 := by
      unfold top
      omega
    refine ⟨by simp, ?_, ?_⟩
    · rw [htop, hnext]
      dsimp only
      omega
    · intro x y hin
      rw [htop, Sheet.glyph_empty_row]
      dsimp only
      rw [pixel_moveUpOneLine cells attrib hin]
      have hbounds := hin.2
      by_cases hbottom : y = w.toRow
      · have hbelow : rows.length ≤ w.top rows + 1 + (y - w.fromRow).toNat := by
          unfold top height at *
          omega
        rw [if_pos hbottom, Sheet.glyph_below hbelow, Option.getD_none]
      · have hplace : w.top rows + 1 + (y - w.fromRow).toNat =
            w.top rows + (y + 1 - w.fromRow).toNat := by omega
        rw [if_neg hbottom, hplace]
        exact hcells x (y + 1) ⟨hin.1, by omega⟩
  · rw [if_neg hlast]
    have hfits : rows.length < w.height := by
      unfold top height at *
      omega
    have htop : w.top rows = 0 := Nat.sub_eq_zero_of_le (Nat.le_of_lt hfits)
    have htop' : w.top (rows ++ [[]]) = 0 :=
      Nat.sub_eq_zero_of_le (hnext ▸ hfits)
    refine ⟨by simp, ?_, ?_⟩
    · rw [htop', hnext]
      dsimp only
      omega
    · intro x y hin
      rw [htop', Sheet.glyph_empty_row, ← htop]
      exact hcells x y hin

theorem Shows.extend (hshows : w.Shows attrib (done ++ [last]) ⟨x, y, cells⟩)
    (hlast : last.length < w.width) (c : UInt8) :
    w.Shows attrib (done ++ [last ++ [c]])
      ⟨x + 1, y, CGAScreen.showPixel cells x y c attrib⟩ := by
  have hin : w.Inside x y := hshows.inside hlast
  obtain ⟨hcolumn, hrow, hcells⟩ := hshows
  have htop : w.top (done ++ [last ++ [c]]) = w.top (done ++ [last]) := by
    unfold top
    simp only [List.length_append, List.length_singleton]
  have hopen : w.top (done ++ [last]) ≤ done.length := by
    have hrows := w.fromRow_le
    unfold top height
    rw [List.length_append, List.length_singleton]
    omega
  simp only [List.getLast?_concat, Option.getD_some] at hcolumn
  simp only [List.length_append, List.length_singleton, Nat.add_sub_cancel] at hrow
  refine ⟨?_, ?_, ?_⟩
  · simp only [List.getLast?_concat, Option.getD_some, List.length_append,
      List.length_singleton, hcolumn]
    omega
  · simp only [htop, List.length_append, List.length_singleton,
      Nat.add_sub_cancel, hrow]
  · intro x' y' hin'
    have hplace : CGAScreen.index x' y' = CGAScreen.index x y ↔
        w.top (done ++ [last]) + (y' - w.fromRow).toNat = done.length ∧
          (x' - w.fromCol).toNat = last.length := by
      have hbounds := hin'
      unfold Inside at hbounds
      constructor
      · intro hindex
        obtain ⟨hx, hy⟩ := index_injective hin'.column hin.column hindex
        omega
      · intro hplace
        have hx : x' = x := by omega
        have hy : y' = y := by omega
        rw [hx, hy]
    rw [showPixel_eq hin, pixel_write, htop, Sheet.glyph_extend]
    by_cases hhere : CGAScreen.index x' y' = CGAScreen.index x y
    · rw [if_pos hhere, if_pos (hplace.mp hhere), Option.getD_some]
    · rw [if_neg hhere, if_neg (mt hplace.mpr hhere)]
      exact hcells x' y' hin'

theorem Shows.printChar (hshows : w.Shows attrib (done ++ [last]) pen)
    (hlast : last.length < w.width) (c : UInt8) :
    w.Shows attrib
      (done ++ Sheet.layoutFrom '\n'.toUInt8 w.width last [c])
      ((w.screen useCursor curX curY).printChar attrib pen c) := by
  obtain ⟨x, y, cells⟩ := pen
  have hcolumn : x = w.fromCol + last.length := by
    simpa using hshows.column
  unfold CGAScreen.printChar Sheet.layoutFrom
  by_cases hbreak : c = '\n'.toUInt8
  · rw [if_pos hbreak, if_pos hbreak, List.append_cons]
    exact hshows.lf (List.append_ne_nil_of_right_ne_nil _ (List.cons_ne_nil _ _))
  · rw [if_neg hbreak, if_neg hbreak]
    have hextend := hshows.extend hlast c
    have hfull : x + 1 > w.toCol ↔ last.length + 1 = w.width := by
      unfold width at *
      omega
    dsimp only
    rw [screen_toCol]
    by_cases hend : last.length + 1 = w.width
    · rw [if_pos hend, if_pos (hfull.mpr hend), List.append_cons]
      exact hextend.lf (List.append_ne_nil_of_right_ne_nil _ (List.cons_ne_nil _ _))
    · rw [if_neg hend, if_neg (mt hfull.mp hend)]
      exact hextend

theorem width_pos (w : Window) : 0 < w.width := by
  have hcolumns := w.fromCol_le
  unfold width
  omega

theorem Shows.foldl {printed : Text}
    (hshows : w.Shows attrib (Sheet.layout '\n'.toUInt8 w.width printed) pen)
    (text : Text) :
    w.Shows attrib (Sheet.layout '\n'.toUInt8 w.width (printed ++ text))
      (text.foldl ((w.screen useCursor curX curY).printChar attrib) pen) := by
  induction text generalizing printed pen with
  | nil => rwa [List.append_nil]
  | cons c rest ih =>
      obtain ⟨done, last, hlast, hlayout, hnext⟩ :=
        Sheet.layout_open '\n'.toUInt8 w.width_pos printed
      rw [List.append_cons]
      apply ih
      rw [hnext c]
      rw [hlayout] at hshows
      exact hshows.printChar hlast c

/-! ### The cursor -/

theorem cursor_bytes {n : Nat} (hn : n < 2 ^ 16) :
    n % 256 ||| (n / 256 % 256) <<< 8 = n := by
  rw [Nat.or_comm, ← Nat.shiftLeft_add_eq_or_of_lt (Nat.mod_lt n (by decide)),
    Nat.shiftLeft_eq]
  omega

/-- `setpos` inside the window is what `getpos` reads afterwards. -/
theorem setpos_getpos (w : Window) (useCursor : Bool) (curX curY : Int)
    (registers : Registers) (hin : w.Inside x y) :
    ∃ curX' curY' registers',
      (w.screen useCursor curX curY).setpos registers x y =
        (w.screen useCursor curX' curY', registers') ∧
      (w.screen useCursor curX' curY').getpos registers' = (x, y) := by
  have hcolumn := hin.column
  have hrow := hin.row
  have hinside : ¬(w.screen useCursor curX curY).Outside x y :=
    outside_iff.not.mpr (not_not.mpr hin)
  unfold CGAScreen.setpos
  simp only [if_neg (not_lt.mpr hcolumn.1), if_neg (not_lt.mpr hrow.1),
    if_neg hinside]
  cases useCursor with
  | false => exact ⟨x, y, registers, rfl, rfl⟩
  | true =>
      refine ⟨curX, curY, _, rfl, ?_⟩
      obtain ⟨n, hn⟩ := Int.eq_ofNat_of_zero_le
        (show 0 ≤ y * columns + x by unfold columns; omega)
      have hfits : n < 2 ^ 16 := by
        unfold columns rows at *
        omega
      have hlow : ((n : Int) % 256).toNat = n % 256 := by omega
      have hhigh : ((n : Int) / 256 % 256).toNat = n / 256 % 256 := by omega
      have hx : (n : Int) % columns = x := by
        unfold columns at *
        omega
      have hy : (n : Int) / columns = y := by
        unfold columns at *
        omega
      unfold CGAScreen.getpos
      simp only [hn, hlow, hhigh, Function.update_self,
        Function.update_of_ne (show 15 ≠ 14 by decide), cursor_bytes hfits,
        Nat.mod_eq_of_lt hfits, hx, hy]
      exact (if_pos rfl).trans (if_neg hinside)

/-- The window shows the printed text, and the cursor stands behind it. -/
def Displays (w : Window) (useCursor : Bool) (attrib : Attribute) (printed : Text)
    (outcome : Outcome) : Prop :=
  ∃ curX curY x y, outcome.screen = w.screen useCursor curX curY ∧
    outcome.screen.getpos outcome.registers = (x, y) ∧
    w.Shows attrib (Sheet.layout '\n'.toUInt8 w.width printed)
      ⟨x, y, outcome.cells⟩

variable {outcome : Outcome} {printed : Text}

theorem Displays.print (hdisplays : w.Displays useCursor attrib printed outcome)
    (text : Text) :
    w.Displays useCursor attrib (printed ++ text)
      (outcome.screen.print outcome.cells outcome.registers text attrib) := by
  obtain ⟨screen, cells, registers⟩ := outcome
  obtain ⟨curX, curY, x, y, rfl, hgetpos, hshows⟩ := hdisplays
  obtain ⟨done, last, hlast, hlayout, -⟩ :=
    Sheet.layout_open '\n'.toUInt8 w.width_pos printed
  have hin : w.Inside x y := by
    rw [hlayout] at hshows
    exact hshows.inside hlast
  have hprinted : w.Shows attrib (Sheet.layout '\n'.toUInt8 w.width
      (printed ++ text)) (text.foldl ((w.screen useCursor curX curY).printChar
        attrib) ⟨x, y, cells⟩) := hshows.foldl text
  generalize hpen : text.foldl ((w.screen useCursor curX curY).printChar attrib)
    ⟨x, y, cells⟩ = pen at hprinted
  obtain ⟨done', last', hlast', hlayout', -⟩ :=
    Sheet.layout_open '\n'.toUInt8 w.width_pos (printed ++ text)
  have hin' : w.Inside pen.x pen.y := by
    rw [hlayout'] at hprinted
    exact hprinted.inside hlast'
  obtain ⟨curX', curY', registers', hsetpos, hgetpos'⟩ :=
    setpos_getpos w useCursor curX curY registers hin'
  rw [CGAScreen.print_eq hgetpos (outside_iff.not.mpr (not_not.mpr hin)) hpen
    hsetpos]
  exact ⟨curX', curY', pen.x, pen.y, rfl, hgetpos', hprinted⟩

theorem displays_reset (w : Window) (useCursor : Bool) (curX curY : Int)
    (cells : Cells) (registers : Registers) (attrib : Attribute) :
    w.Displays useCursor attrib []
      ((w.screen useCursor curX curY).reset cells registers ' '.toUInt8
        attrib) := by
  obtain ⟨curX', curY', registers', hsetpos, hgetpos⟩ :=
    setpos_getpos w useCursor curX curY registers inside_start
  have hreset : (w.screen useCursor curX curY).reset cells registers ' '.toUInt8
      attrib = ⟨w.screen useCursor curX' curY',
        (w.screen useCursor curX curY).fill cells ' '.toUInt8 attrib,
        registers'⟩ := by
    unfold CGAScreen.reset
    rw [screen_fromCol, screen_fromRow, hsetpos]
  rw [hreset]
  refine ⟨curX', curY', w.fromCol, w.fromRow, rfl, hgetpos, ?_, ?_, ?_⟩
  · simp [Sheet.layout, Sheet.layoutFrom]
  · simp [Sheet.layout, Sheet.layoutFrom]
  · intro x y hin
    dsimp only
    rw [pixel_fill cells _ attrib hin,
      show Sheet.layout '\n'.toUInt8 w.width [] = [] ++ [[]] from rfl,
      Sheet.glyph_empty_row, Sheet.glyph_below (Nat.zero_le _), Option.getD_none]

end Window

end X86Os32.CGA
