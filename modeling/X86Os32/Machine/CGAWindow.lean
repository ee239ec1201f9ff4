import X86Os32.Library.LocalAction
import X86Os32.Machine.CGAScreen

namespace X86Os32.CGA

open Library.LocalAction
open OStream (Text)

/-! What is done to a window stays inside of the window. -/

structure Window where
  fromCol : Int
  toCol : Int
  fromRow : Int
  toRow : Int
  fromCol_nonneg : 0 ≤ fromCol
  fromCol_le : fromCol ≤ toCol
  toCol_lt : toCol < columns
  fromRow_nonneg : 0 ≤ fromRow
  fromRow_le : fromRow ≤ toRow
  toRow_lt : toRow < rows

namespace Window

variable (w : Window)

def Inside (x y : Int) : Prop :=
  (w.fromCol ≤ x ∧ x ≤ w.toCol) ∧ w.fromRow ≤ y ∧ y ≤ w.toRow

def region : Set Int := {i | ∃ x y, w.Inside x y ∧ CGAScreen.index x y = i}

def Apart (other : Window) : Prop := ∀ x y, w.Inside x y → ¬other.Inside x y

def construct (useCursor : Bool) : CGAScreen :=
  .construct w.fromCol w.toCol w.fromRow w.toRow useCursor

def screen (useCursor : Bool) (x y : Int) : CGAScreen :=
  { w.construct useCursor with curX := x, curY := y }

variable {w} {other : Window} {x y x' y' : Int} {useCursor : Bool}

@[simp] theorem screen_fromCol :
    (w.screen useCursor x y).fromCol = w.fromCol := rfl

@[simp] theorem screen_toCol : (w.screen useCursor x y).toCol = w.toCol := rfl

@[simp] theorem screen_fromRow :
    (w.screen useCursor x y).fromRow = w.fromRow := rfl

@[simp] theorem screen_toRow : (w.screen useCursor x y).toRow = w.toRow := rfl

theorem index_injective (hx : 0 ≤ x ∧ x < columns) (hx' : 0 ≤ x' ∧ x' < columns)
    (hindex : CGAScreen.index x y = CGAScreen.index x' y') : x = x' ∧ y = y' := by
  unfold CGAScreen.index columns at *
  omega

theorem Inside.column (hin : w.Inside x y) : 0 ≤ x ∧ x < columns :=
  ⟨le_trans w.fromCol_nonneg hin.1.1, lt_of_le_of_lt hin.1.2 w.toCol_lt⟩

theorem Inside.row (hin : w.Inside x y) : 0 ≤ y ∧ y < rows :=
  ⟨le_trans w.fromRow_nonneg hin.2.1, lt_of_le_of_lt hin.2.2 w.toRow_lt⟩

theorem Inside.mem_region (hin : w.Inside x y) :
    CGAScreen.index x y ∈ w.region :=
  ⟨x, y, hin, rfl⟩

theorem inside_of_mem_region (hx : 0 ≤ x ∧ x < columns)
    (hmem : CGAScreen.index x y ∈ w.region) : w.Inside x y := by
  obtain ⟨x', y', hin, hindex⟩ := hmem
  obtain ⟨rfl, rfl⟩ := index_injective hin.column hx hindex
  exact hin

theorem Apart.disjoint (hapart : w.Apart other) :
    Disjoint w.region other.region := by
  apply Set.disjoint_left.mpr
  intro i hi hother
  obtain ⟨x, y, hin, rfl⟩ := hi
  exact hapart x y hin (inside_of_mem_region hin.column hother)

theorem inside_start : w.Inside w.fromCol w.fromRow :=
  ⟨⟨le_refl _, w.fromCol_le⟩, le_refl _, w.fromRow_le⟩

theorem outside_iff : (w.screen useCursor x y).Outside x' y' ↔ ¬w.Inside x' y' := by
  unfold CGAScreen.Outside Inside screen construct CGAScreen.construct
  simp only [not_and_or, not_le, or_assoc]

theorem mem_span {a b n : Int} : n ∈ CGAScreen.span a b ↔ a ≤ n ∧ n ≤ b := by
  unfold CGAScreen.span
  rw [List.mem_map]
  constructor
  · intro hmem
    obtain ⟨k, hk, rfl⟩ := hmem
    have hlt := List.mem_range.mp hk
    omega
  · intro hbounds
    exact ⟨(n - a).toNat, List.mem_range.mpr (by omega), by omega⟩

/-! ### The cells -/

theorem write_local {pixel : Cells → Pixel} (hin : w.Inside x y)
    (hpixel : ∀ cells cells' : Cells, (∀ i ∈ w.region, cells i = cells' i) →
      pixel cells = pixel cells') :
    Local w.region fun cells =>
      CGAScreen.write cells (CGAScreen.index x y) (pixel cells) := by
  apply Local.update hin.mem_region
  intro cells cells' hagree
  rw [hpixel cells cells' hagree, hagree _ hin.mem_region]

theorem write_pixel_local (hin : w.Inside x y) (pixel : Pixel) :
    Local w.region fun cells =>
      CGAScreen.write cells (CGAScreen.index x y) pixel :=
  write_local hin fun _ _ _ => rfl

theorem moveUpOneLine_local (s : CGAScreen) (hs : s = w.screen useCursor x y)
    (attrib : Attribute) :
    Local w.region fun cells => s.moveUpOneLine cells attrib := by
  subst hs
  unfold CGAScreen.moveUpOneLine CGAScreen.moveUpColumn
  apply Local.foldl
  intro column hcolumn
  have hbounds : w.fromCol ≤ column ∧ column ≤ w.toCol := mem_span.mp hcolumn
  have hlast : w.Inside column w.toRow := ⟨hbounds, w.fromRow_le, le_refl _⟩
  have hclear := write_pixel_local hlast ⟨' '.toUInt8, attrib⟩
  refine hclear.comp (Local.foldl ?_)
  intro row hrow
  have hrows : w.fromRow ≤ row ∧ row ≤ w.toRow - 1 := mem_span.mp hrow
  have hhere : w.Inside column row := ⟨hbounds, by omega⟩
  have hbelow : w.Inside column (row + 1) := ⟨hbounds, by omega⟩
  apply write_local hhere
  intro cells cells' hagree
  rw [hagree _ hbelow.mem_region]

theorem showPixel_eq (hin : w.Inside x y) (cells : Cells) (c : UInt8)
    (attrib : Attribute) :
    CGAScreen.showPixel cells x y c attrib =
      CGAScreen.write cells (CGAScreen.index x y) ⟨c, attrib⟩ := by
  have hcolumn := hin.column
  have hrow := hin.row
  unfold CGAScreen.showPixel
  simp only [if_neg (not_lt.mpr hcolumn.1), if_neg (not_lt.mpr hrow.1)]
  exact if_neg (by omega)

theorem showPixel_local (hin : w.Inside x y) (c : UInt8) (attrib : Attribute) :
    Local w.region fun cells => CGAScreen.showPixel cells x y c attrib := by
  simp only [showPixel_eq hin]
  exact write_pixel_local hin _

/-! ### The pen -/

/-- A pen whose position lies in the window moves within it, in a way that does not
depend on the cells. -/
def Confined (w : Window) (act : CGAScreen.Pen → CGAScreen.Pen) : Prop :=
  ∀ x y, w.Inside x y → ∃ x' y' paint, w.Inside x' y' ∧ Local w.region paint ∧
    ∀ cells, act ⟨x, y, cells⟩ = ⟨x', y', paint cells⟩

theorem Confined.foldl {κ : Type*} {acts : CGAScreen.Pen → κ → CGAScreen.Pen}
    (hacts : ∀ step, w.Confined fun pen => acts pen step) (steps : List κ) :
    w.Confined fun pen => steps.foldl acts pen := by
  induction steps with
  | nil =>
      intro x y hin
      exact ⟨x, y, id, hin, Local.id, fun _ => rfl⟩
  | cons step rest ih =>
      intro x y hin
      obtain ⟨x₁, y₁, first, hin₁, hfirst, hact⟩ := hacts step x y hin
      obtain ⟨x₂, y₂, later, hin₂, hlater, hrest⟩ := ih x₁ y₁ hin₁
      refine ⟨x₂, y₂, fun cells => later (first cells), hin₂,
        hlater.comp hfirst, ?_⟩
      intro cells
      change rest.foldl acts (acts ⟨x, y, cells⟩ step) = _
      rw [show acts ⟨x, y, cells⟩ step = _ from hact cells]
      exact hrest (first cells)

variable (w useCursor) (curX curY : Int)

theorem lf_confined (attrib : Attribute) (hrow : w.fromRow ≤ y ∧ y ≤ w.toRow) :
    ∃ y' paint, w.Inside w.fromCol y' ∧ Local w.region paint ∧ ∀ x cells,
      (w.screen useCursor curX curY).lf ⟨x, y, cells⟩ attrib =
        ⟨w.fromCol, y', paint cells⟩ := by
  have hcolumn : w.fromCol ≤ w.fromCol ∧ w.fromCol ≤ w.toCol :=
    ⟨le_refl _, w.fromCol_le⟩
  by_cases hlast : y + 1 > w.toRow
  · refine ⟨y, _, ⟨hcolumn, hrow⟩,
      moveUpOneLine_local (w.screen useCursor curX curY) rfl attrib, ?_⟩
    intro x cells
    exact if_pos hlast
  · refine ⟨y + 1, id, ⟨hcolumn, by omega⟩, Local.id, ?_⟩
    intro x cells
    exact if_neg hlast

theorem printChar_confined (attrib : Attribute) (c : UInt8) :
    w.Confined fun pen =>
      (w.screen useCursor curX curY).printChar attrib pen c := by
  intro x y hin
  obtain ⟨y', paint, hin', hpaint, hlf⟩ :=
    lf_confined w useCursor curX curY attrib hin.2
  unfold CGAScreen.printChar
  by_cases hbreak : c = '\n'.toUInt8
  · simp only [if_pos hbreak]
    exact ⟨w.fromCol, y', paint, hin', hpaint, hlf x⟩
  · simp only [if_neg hbreak]
    have hshow := showPixel_local hin c attrib
    by_cases hlast : x + 1 > w.toCol
    · refine ⟨w.fromCol, y', _, hin', hpaint.comp hshow, ?_⟩
      intro cells
      rw [if_pos (show x + 1 > (w.screen useCursor curX curY).toCol from hlast)]
      exact hlf (x + 1) _
    · refine ⟨x + 1, y, _, ⟨?_, hin.2⟩, hshow, ?_⟩
      · have hcolumn := hin.1
        omega
      · intro cells
        exact if_neg hlast

theorem fill_local (character : UInt8) (attrib : Attribute) :
    Local w.region fun cells =>
      (w.screen useCursor curX curY).fill cells character attrib := by
  unfold CGAScreen.fill
  apply Local.foldl
  intro column hcolumn
  apply Local.foldl
  intro row hrow
  exact showPixel_local ⟨mem_span.mp hcolumn, mem_span.mp hrow⟩ character attrib

/-! ### The operations -/

variable {curX curY}

theorem setpos_inside (hin : w.Inside curX curY) (x y : Int) :
    ∃ x' y', w.Inside x' y' ∧ ∀ registers,
      (w.screen false curX curY).setpos registers x y =
        (w.screen false x' y', registers) := by
  unfold CGAScreen.setpos
  generalize (if x < 0 then _ else x) = column
  generalize (if y < 0 then _ else y) = row
  by_cases hout : (w.screen false curX curY).Outside column row
  · exact ⟨curX, curY, hin, fun _ => if_pos hout⟩
  · exact ⟨column, row, not_not.mp (outside_iff.not.mp hout),
      fun _ => if_neg hout⟩

theorem getpos_inside (registers : Registers) :
    (w.screen false curX curY).getpos registers = (curX, curY) := rfl

/-- The operation leaves a window, and repaints its cells in a way that does not
depend on the others. -/
def Isolated (w : Window) (act : Cells → Registers → Outcome) : Prop :=
  ∃ x y paint, w.Inside x y ∧ Local w.region paint ∧
    ∀ cells registers, act cells registers =
      ⟨w.screen false x y, paint cells, registers⟩

theorem print_isolated (hin : w.Inside curX curY) (text : Text)
    (attrib : Attribute) :
    w.Isolated fun cells registers =>
      (w.screen false curX curY).print cells registers text attrib := by
  obtain ⟨x, y, paint, -, hpaint, hfold⟩ := Confined.foldl
    (printChar_confined w false curX curY attrib) text curX curY hin
  obtain ⟨x', y', hin', hsetpos⟩ := setpos_inside w hin x y
  refine ⟨x', y', paint, hin', hpaint, ?_⟩
  intro cells registers
  exact CGAScreen.print_eq rfl (outside_iff.not.mpr (not_not.mpr hin))
    (hfold cells) (hsetpos registers)

theorem reset_isolated (hin : w.Inside curX curY) (character : UInt8)
    (attrib : Attribute) :
    w.Isolated fun cells registers =>
      (w.screen false curX curY).reset cells registers character attrib := by
  obtain ⟨x', y', hin', hsetpos⟩ := setpos_inside w hin w.fromCol w.fromRow
  refine ⟨x', y', _, hin',
    fill_local w false curX curY character attrib, ?_⟩
  intro cells registers
  have hstart : (w.screen false curX curY).setpos registers
      (w.screen false curX curY).fromCol (w.screen false curX curY).fromRow =
      (w.screen false x' y', registers) := hsetpos registers
  simp only [CGAScreen.reset, hstart]

theorem stepBack_inside (hin : w.Inside curX curY) :
    ∃ x y, w.Inside x y ∧
      (w.screen false curX curY).stepBack curX curY = (x, y) := by
  have hbounds := hin
  unfold Inside at hbounds
  unfold CGAScreen.stepBack
  by_cases hfirst : curX = w.fromCol
  · refine ⟨_, _, ⟨⟨w.fromCol_le, le_refl _⟩, ?_⟩, if_pos hfirst⟩
    change w.fromRow ≤ (if curY ≠ w.fromRow then curY - 1 else curY) ∧
      (if curY ≠ w.fromRow then curY - 1 else curY) ≤ w.toRow
    split <;> omega
  · refine ⟨curX - 1, curY, ⟨?_, hin.2⟩, if_neg hfirst⟩
    omega

theorem backspace_isolated (hin : w.Inside curX curY) (str : Option Text)
    (pos : Nat) :
    w.Isolated fun cells registers =>
      ((w.screen false curX curY).backspace cells registers str pos).2 := by
  unfold CGAScreen.backspace
  by_cases hempty : str = some []
  · simp only [if_pos hempty]
    exact ⟨curX, curY, id, hin, Local.id, fun _ _ => rfl⟩
  · obtain ⟨x, y, hback, hstep⟩ := stepBack_inside w hin
    obtain ⟨x', y', hin', hsetpos⟩ := setpos_inside w hin x y
    simp only [if_neg hempty, getpos_inside, hstep]
    refine ⟨x', y', _, hin', showPixel_local hback ' '.toUInt8 lightGrey, ?_⟩
    intro cells registers
    simp only [hsetpos]

theorem run_isolated (hin : w.Inside curX curY) (operation : Operation) :
    w.Isolated fun cells registers =>
      operation.run (w.screen false curX curY) cells registers := by
  cases operation with
  | print text attrib => exact print_isolated w hin text attrib
  | setpos x y =>
      obtain ⟨x', y', hin', hsetpos⟩ := setpos_inside w hin x y
      refine ⟨x', y', id, hin', Local.id, ?_⟩
      intro cells registers
      unfold Operation.run
      simp only [hsetpos, id]
  | reset character attrib => exact reset_isolated w hin character attrib
  | backspace str pos => exact backspace_isolated w hin str pos

end Window

/-! ### Two windows -/

structure Pair where
  left : CGAScreen
  right : CGAScreen
  cells : Cells
  registers : Registers

def Pair.step (pair : Pair) : Operation ⊕ Operation → Pair
  | .inl operation =>
      let outcome := operation.run pair.left pair.cells pair.registers
      ⟨outcome.screen, pair.right, outcome.cells, outcome.registers⟩
  | .inr operation =>
      let outcome := operation.run pair.right pair.cells pair.registers
      ⟨pair.left, outcome.screen, outcome.cells, outcome.registers⟩

def Pair.run (pair : Pair) (steps : List (Operation ⊕ Operation)) : Pair :=
  steps.foldl Pair.step pair

namespace Window

variable {w other : Window}

def Holds (w other : Window) (pair : Pair) : Prop :=
  (∃ x y, w.Inside x y ∧ pair.left = w.screen false x y) ∧
    ∃ x y, other.Inside x y ∧ pair.right = other.screen false x y

theorem Holds.step {pair : Pair} (hholds : w.Holds other pair)
    (step : Operation ⊕ Operation) : w.Holds other (pair.step step) := by
  obtain ⟨left, right, cells, registers⟩ := pair
  obtain ⟨⟨x, y, hin, rfl⟩, x', y', hin', rfl⟩ := hholds
  cases step with
  | inl operation =>
      obtain ⟨x₁, y₁, paint, hin₁, -, hrun⟩ := run_isolated w hin operation
      refine ⟨⟨x₁, y₁, hin₁, ?_⟩, x', y', hin', rfl⟩
      exact congrArg Outcome.screen (hrun cells registers)
  | inr operation =>
      obtain ⟨x₁, y₁, paint, hin₁, -, hrun⟩ := run_isolated other hin' operation
      refine ⟨⟨x, y, hin, rfl⟩, x₁, y₁, hin₁, ?_⟩
      exact congrArg Outcome.screen (hrun cells registers)

theorem Holds.run {pair : Pair} (hholds : w.Holds other pair)
    (steps : List (Operation ⊕ Operation)) :
    w.Holds other (pair.run steps) := by
  induction steps generalizing pair with
  | nil => exact hholds
  | cons step rest ih => exact ih (hholds.step step)

theorem Holds.commute {pair : Pair} (hholds : w.Holds other pair)
    (hapart : w.Apart other) (operation operation' : Operation) :
    (pair.step (.inl operation)).step (.inr operation') =
      (pair.step (.inr operation')).step (.inl operation) := by
  obtain ⟨left, right, cells, registers⟩ := pair
  obtain ⟨⟨x, y, hin, rfl⟩, x', y', hin', rfl⟩ := hholds
  obtain ⟨x₁, y₁, paint, -, hpaint, hrun⟩ := run_isolated w hin operation
  obtain ⟨x₂, y₂, paint', -, hpaint', hrun'⟩ := run_isolated other hin' operation'
  simp only [Pair.step, show ∀ cells registers, operation.run _ cells registers = _
    from hrun, show ∀ cells registers, operation'.run _ cells registers = _ from hrun']
  rw [hpaint'.commute hpaint hapart.disjoint.symm cells]

theorem frame_run {curX curY : Int} (hin : w.Inside curX curY) (cells : Cells)
    (registers : Registers) (operations : List Operation) :
    ∃ x y, w.Inside x y ∧ ∃ cells', (∀ i, i ∉ w.region → cells' i = cells i) ∧
      Outcome.run ⟨w.screen false curX curY, cells, registers⟩ operations =
        ⟨w.screen false x y, cells', registers⟩ := by
  induction operations generalizing curX curY cells with
  | nil => exact ⟨curX, curY, hin, cells, fun _ _ => rfl, rfl⟩
  | cons operation rest ih =>
      obtain ⟨x₁, y₁, paint, hin₁, hpaint, hrun⟩ := run_isolated w hin operation
      obtain ⟨x, y, hin', cells', hcells, hrest⟩ := ih hin₁ (paint cells)
      refine ⟨x, y, hin', cells', ?_, ?_⟩
      · intro i hi
        rw [hcells i hi, hpaint.frame cells i hi]
      · rw [← hrest, ← show operation.run _ cells registers = _ from
          hrun cells registers]
        rfl

/-- Whatever is done to a window, its cursor stays inside, every other cell of the
screen is never written, and operations on windows that lie apart commute. -/
theorem windows_isolated (w other : Window) (cells : Cells)
    (registers : Registers) :
    (∀ operations,
      let outcome := Outcome.run ⟨w.construct false, cells, registers⟩ operations
      w.Inside outcome.screen.curX outcome.screen.curY ∧
        ∀ i, i ∉ w.region → outcome.cells i = cells i) ∧
    (w.Apart other → ∀ steps operation operation',
      let pair := Pair.run ⟨w.construct false, other.construct false, cells,
        registers⟩ steps
      (pair.step (.inl operation)).step (.inr operation') =
        (pair.step (.inr operation')).step (.inl operation)) := by
  constructor
  · intro operations
    obtain ⟨x, y, hin, cells', hcells, hrun⟩ :=
      frame_run inside_start cells registers operations
    have hstart : w.construct false = w.screen false w.fromCol w.fromRow := rfl
    dsimp only
    rw [hstart, hrun]
    exact ⟨hin, hcells⟩
  · intro hapart steps operation operation'
    have hstart : w.Holds other
        ⟨w.construct false, other.construct false, cells, registers⟩ :=
      ⟨⟨_, _, inside_start, rfl⟩, _, _, inside_start, rfl⟩
    exact (hstart.run steps).commute hapart operation operation'

def doutCPU0 : Window where
  fromCol := 0
  toCol := 39
  fromRow := 15
  toRow := 19
  fromCol_nonneg := by decide
  fromCol_le := by decide
  toCol_lt := by decide
  fromRow_nonneg := by decide
  fromRow_le := by decide
  toRow_lt := by decide

def doutCPU1 : Window where
  fromCol := 40
  toCol := 79
  fromRow := 15
  toRow := 19
  fromCol_nonneg := by decide
  fromCol_le := by decide
  toCol_lt := by decide
  fromRow_nonneg := by decide
  fromRow_le := by decide
  toRow_lt := by decide

/-- A full line in the left window does not reach the right one. -/
theorem windows_isolated_full_line :
    let blank : Cells := fun _ => ⟨⟨' '.toUInt8, lightGrey⟩, 0⟩
    let line : Operation := .print (List.replicate 40 'x'.toUInt8) lightGrey
    (Outcome.run ⟨doutCPU0.construct false, blank, fun _ => 0⟩ [line]).cells
      (CGAScreen.index 40 15) = blank 0 ∧
    let pair : Pair := ⟨doutCPU0.construct false, doutCPU1.construct false, blank,
      fun _ => 0⟩
    (pair.step (.inl line)).step (.inr line) =
      (pair.step (.inr line)).step (.inl line) := by
  have hapart : doutCPU0.Apart doutCPU1 := by
    intro x y hin hother
    have hleft : x ≤ 39 := hin.1.2
    have hright : 40 ≤ x := hother.1.1
    omega
  have hright : CGAScreen.index 40 15 ∉ doutCPU0.region := by
    intro hmem
    have hin := inside_of_mem_region (by decide) hmem
    exact absurd hin.1.2 (by decide)
  obtain ⟨hframe, hcommute⟩ := windows_isolated doutCPU0 doutCPU1
    (fun _ => ⟨⟨' '.toUInt8, lightGrey⟩, 0⟩) fun _ => 0
  exact ⟨(hframe _).2 _ hright, hcommute hapart [] _ _⟩

end Window

end X86Os32.CGA
