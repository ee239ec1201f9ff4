import Mathlib.Algebra.Group.Nat.Defs
import Mathlib.Data.List.Induction
import Mathlib.Logic.Function.Basic

namespace X86Os32.Library

/-! A window on a roll of paper, that is pulled up by a row as soon as the last cell
of the window is written. -/

/-- The cells of the window, row after row, and the one that is written next. -/
structure Roll (α : Type*) where
  cells : Nat → α
  pos : Nat

namespace Roll

variable {α : Type*} (width size : Nat) (blank : α)

/-- The cells after `rows` rows have left the window. -/
def up (rows : Nat) (cells : Nat → α) (p : Nat) : α :=
  if p + rows * width < size then cells (p + rows * width) else blank

def put (s : Roll α) (a : α) : Roll α :=
  let cells := Function.update s.cells s.pos a
  if s.pos + 1 = size then ⟨up width size blank 1 cells, s.pos + 1 - width⟩
  else ⟨cells, s.pos + 1⟩

def write (s : Roll α) (text : List α) : Roll α :=
  text.foldl (put width size blank) s

/-- A text has been written, and `rows` rows have left the window. -/
structure Written (s : Roll α) (text : List α) (rows : Nat) (s' : Roll α) :
    Prop where
  pos : s'.pos + rows * width = s.pos + text.length
  inside : s'.pos < size
  last : rows = 0 ∨ size ≤ s'.pos + width
  chars : ∀ p < size, ∀ i a, text[i]? = some a → p + rows * width = s.pos + i →
    s'.cells p = a
  rest : ∀ p < size,
    p + rows * width < s.pos ∨ s.pos + text.length ≤ p + rows * width →
    s'.cells p = up width size blank rows s.cells p

variable {width size blank} {s s' : Roll α} {text : List α} {rows : Nat}

theorem up_zero (cells : Nat → α) {p : Nat} (hp : p < size) :
    up width size blank 0 cells p = cells p := by
  unfold up
  rw [Nat.zero_mul, Nat.add_zero, if_pos hp]

theorem up_up (rows rows' : Nat) (cells : Nat → α) :
    up width size blank rows (up width size blank rows' cells) =
      up width size blank (rows + rows') cells := by
  funext p
  have hsum : p + (rows + rows') * width = p + rows * width + rows' * width := by
    rw [Nat.add_mul, Nat.add_assoc]
  unfold up
  rw [hsum]
  split_ifs <;> first | rfl | omega

theorem written_nil (hpos : s.pos < size) :
    Written width size blank s [] 0 s := by
  refine ⟨by simp, hpos, .inl rfl, ?_, ?_⟩
  · intro p hp i a hnone
    cases hnone
  · intro p hp hrest
    rw [up_zero s.cells hp]

theorem Written.put (hwritten : Written width size blank s text rows s')
    (hwidth : 0 < width) (hle : width ≤ size) (a : α) :
    ∃ rows', Written width size blank s (text ++ [a]) rows'
      (s'.put width size blank a) := by
  obtain ⟨hpos, hinside, hlast, hchars, hrest⟩ := hwritten
  have hlength : (text ++ [a]).length = text.length + 1 := List.length_append
  have hupdated {p i : Nat} {b : α} (hp : p < size)
      (hi : (text ++ [a])[i]? = some b) (hplace : p + rows * width = s.pos + i) :
      Function.update s'.cells s'.pos a p = b := by
    rcases Nat.lt_trichotomy i text.length with hlt | rfl | hgt
    · rw [List.getElem?_append_left hlt] at hi
      rw [Function.update_of_ne (by omega)]
      exact hchars p hp i b hi hplace
    · rw [List.getElem?_concat_length] at hi
      cases hi
      rw [show p = s'.pos by omega, Function.update_self]
    · rw [List.getElem?_eq_none (by omega)] at hi
      cases hi
  unfold Roll.put
  dsimp only
  by_cases hend : s'.pos + 1 = size
  · rw [if_pos hend]
    have hrow : (rows + 1) * width = rows * width + width := Nat.succ_mul rows width
    refine ⟨rows + 1, ?_, ?_, ?_, ?_, ?_⟩
    · rw [hlength, hrow]
      dsimp only
      omega
    · dsimp only
      omega
    · dsimp only
      omega
    · intro p hp i b hi hplace
      have hi' := (List.getElem?_eq_some_iff.mp hi).1
      have hvisible : p + 1 * width < size := by omega
      dsimp only [up]
      rw [if_pos hvisible]
      exact hupdated hvisible hi (by omega)
    · intro p hp hplace
      dsimp only [up]
      rw [hrow]
      by_cases hvisible : p + 1 * width < size
      · rw [if_pos hvisible, Function.update_of_ne (by omega),
          hrest _ hvisible (by omega), up]
        split_ifs
        · congr 1
          omega
        · omega
        · omega
        · rfl
      · rw [if_neg hvisible, if_neg (by omega)]
  · rw [if_neg hend]
    refine ⟨rows, ?_, ?_, ?_, ?_, ?_⟩
    · rw [hlength]
      dsimp only
      omega
    · dsimp only
      omega
    · dsimp only
      omega
    · intro p hp i b hi hplace
      exact hupdated hp hi hplace
    · intro p hp hplace
      dsimp only
      rw [Function.update_of_ne (by omega)]
      exact hrest p hp (by omega)

theorem written (hwidth : 0 < width) (hle : width ≤ size) (hpos : s.pos < size)
    (text : List α) :
    ∃ rows, Written width size blank s text rows (s.write width size blank text) := by
  induction text using List.reverseRecOn with
  | nil => exact ⟨0, written_nil hpos⟩
  | append_singleton text a ih =>
      obtain ⟨rows, hwritten⟩ := ih
      rw [write, List.foldl_append]
      exact hwritten.put hwidth hle a

theorem Written.rows_zero (hwritten : Written width size blank s text rows s')
    (hfits : s.pos + text.length < size) : rows = 0 := by
  have hpos := hwritten.pos
  rcases hwritten.last with hzero | hlast
  · exact hzero
  · cases rows with
    | zero => rfl
    | succ rows =>
        rw [Nat.succ_mul] at hpos
        omega

theorem Written.rows_one (hwritten : Written width size blank s text rows s')
    (hpast : s.pos + text.length = size + 1) (hwidth : 2 ≤ width) : rows = 1 := by
  have hpos := hwritten.pos
  have hinside := hwritten.inside
  rcases hwritten.last with rfl | hlast
  · omega
  · match rows with
    | 0 => omega
    | 1 => rfl
    | rows + 2 =>
        have hrows : (rows + 2) * width = rows * width + 2 * width :=
          Nat.add_mul _ _ _
        omega

theorem last_row {height p : Nat} (hwidth : 0 < width) (hp : p < width * height)
    (hlast : width * height ≤ p + width) : p / width + 1 = height := by
  have hinside := Nat.div_lt_of_lt_mul hp
  have hle : height ≤ (p + width) / width :=
    (Nat.le_div_iff_mul_le hwidth).mpr (by rw [Nat.mul_comm]; exact hlast)
  rw [Nat.add_div_right _ hwidth] at hle
  omega

theorem Written.end_row {height : Nat} (hwidth : 0 < width)
    (hwritten : Written width (width * height) blank s text rows s') :
    (s.pos + text.length) / width = s'.pos / width + rows ∧
      (rows = 0 ∨ s'.pos / width + 1 = height) := by
  refine ⟨?_, hwritten.last.imp_right (last_row hwidth hwritten.inside)⟩
  rw [← hwritten.pos, Nat.add_mul_div_right _ _ hwidth]

/-! ### What surrounds a text -/

/-- In front of a place, the cells show what they are said to show, and so do the
cells from `n` places behind it on unless they are blank. -/
structure Frame (size : Nat) (Blank : α → Prop) (old : Nat → α) (first n : Nat)
    (cells : Nat → α) : Prop where
  above : ∀ p < size, p < first → cells p = old p
  behind : ∀ p < size, first + n ≤ p → Blank (cells p) ∨ cells p = old p

variable {Blank : α → Prop} {old : Nat → α} {n : Nat}

/-- A text that is not shorter than the one before it leaves nothing of that. -/
theorem Written.frame (hwritten : Written width size blank s text rows s')
    (hframe : Frame size Blank old s.pos n s.cells) (hle : n ≤ text.length)
    (hblank : Blank blank) :
    Frame size Blank (up width size blank rows old) (s.pos - rows * width)
      text.length s'.cells := by
  constructor
  · intro p hp hfirst
    rw [hwritten.rest p hp (by omega), up, up]
    split
    · exact hframe.above _ (by omega) (by omega)
    · rfl
  · intro p hp hbehind
    rw [hwritten.rest p hp (by omega), up, up]
    split
    · exact hframe.behind _ (by omega) (by omega)
    · exact .inl hblank

theorem Written.blank_within (hwritten : Written width size blank s text rows s')
    (hblanks : ∀ a ∈ text, Blank a) {p : Nat} (hp : p < size)
    (hfrom : s.pos ≤ p + rows * width)
    (hto : p + rows * width < s.pos + text.length) : Blank (s'.cells p) := by
  have hi : p + rows * width - s.pos < text.length := by omega
  rw [hwritten.chars p hp _ _ (List.getElem?_eq_getElem hi) (by omega)]
  exact hblanks _ (List.getElem_mem hi)

theorem Written.blanks (hwritten : Written width size blank s text rows s')
    (hframe : Frame size Blank old s.pos n s.cells) (hle : n ≤ text.length)
    (hblank : Blank blank) (hblanks : ∀ a ∈ text, Blank a) :
    Frame size Blank (up width size blank rows old) (s.pos - rows * width)
      0 s'.cells := by
  refine ⟨(hwritten.frame hframe hle hblank).above, ?_⟩
  intro p hp hbehind
  by_cases hplace : p + rows * width < s.pos + text.length
  · exact .inl (hwritten.blank_within hblanks hp (by omega) hplace)
  · rw [hwritten.rest p hp (by omega), up, up]
    split
    · exact hframe.behind _ (by omega) (by omega)
    · exact .inl hblank

theorem Written.onto_blanks (hwritten : Written width size blank s text rows s')
    (hblank : Blank blank) (hcells : ∀ p < size, s.pos ≤ p → Blank (s.cells p))
    {p : Nat} (hp : p < size) (hbehind : s.pos + text.length ≤ p + rows * width) :
    Blank (s'.cells p) := by
  rw [hwritten.rest p hp (.inr hbehind), up]
  split
  · next hvisible => exact hcells _ hvisible (by omega)
  · exact hblank

theorem Written.all_blank (hwritten : Written width size blank s text rows s')
    (hblank : Blank blank) (hblanks : ∀ a ∈ text, Blank a)
    (hfull : size ≤ s.pos + text.length) {p : Nat} (hp : p < size)
    (hbehind : s.pos ≤ p + rows * width) : Blank (s'.cells p) := by
  by_cases hplace : p + rows * width < s.pos + text.length
  · exact hwritten.blank_within hblanks hp hbehind hplace
  · rw [hwritten.rest p hp (by omega), up, if_neg (by omega)]
    exact hblank

theorem Written.chars_eq (hwritten : Written width size blank s text rows s')
    (hrows : rows * width ≤ s.pos) {i : Nat} {a : α} (hi : text[i]? = some a) :
    s'.cells (s.pos - rows * width + i) = a := by
  have hlt := (List.getElem?_eq_some_iff.mp hi).1
  have hpos := hwritten.pos
  have hinside := hwritten.inside
  exact hwritten.chars _ (by omega) i a hi (by omega)

end Roll

end X86Os32.Library
