import Mathlib.Data.List.Basic

namespace X86Os32.Library

/-! Text laid out in rows on a sheet that is as long as needed. -/

namespace Sheet

variable {α : Type*}

def glyph (rows : List (List α)) (r c : Nat) : Option α :=
  rows[r]?.bind fun row => row[c]?

theorem getElem?_behind {β : Type*} {xs : List β} {x : β} {n : Nat}
    (hn : xs.length < n) : (xs ++ [x])[n]? = none :=
  List.getElem?_eq_none (by rw [List.length_append]; exact hn)

theorem glyph_empty_row (rows : List (List α)) (r c : Nat) :
    glyph (rows ++ [[]]) r c = glyph rows r c := by
  unfold glyph
  rcases Nat.lt_trichotomy r rows.length with hlt | rfl | hgt
  · rw [List.getElem?_append_left hlt]
  · simp
  · rw [getElem?_behind hgt, List.getElem?_eq_none (Nat.le_of_lt hgt)]

theorem glyph_extend (done : List (List α)) (last : List α) (a : α) (r c : Nat) :
    glyph (done ++ [last ++ [a]]) r c =
      if r = done.length ∧ c = last.length then some a
      else glyph (done ++ [last]) r c := by
  unfold glyph
  rcases Nat.lt_trichotomy r done.length with hlt | rfl | hgt
  · rw [if_neg (by omega), List.getElem?_append_left hlt,
      List.getElem?_append_left hlt]
  · rw [List.getElem?_concat_length, List.getElem?_concat_length,
      Option.bind_some, Option.bind_some]
    rcases Nat.lt_trichotomy c last.length with hlt | rfl | hgt
    · rw [if_neg (by omega), List.getElem?_append_left hlt]
    · rw [if_pos ⟨rfl, rfl⟩, List.getElem?_concat_length]
    · rw [if_neg (by omega), getElem?_behind hgt,
        List.getElem?_eq_none (Nat.le_of_lt hgt)]
  · rw [if_neg (by omega), getElem?_behind hgt, getElem?_behind hgt]

theorem glyph_below {rows : List (List α)} {r : Nat} (hr : rows.length ≤ r)
    (c : Nat) : glyph rows r c = none := by
  unfold glyph
  rw [List.getElem?_eq_none hr, Option.bind_none]

theorem glyph_drop (rows : List (List α)) (k r c : Nat) :
    glyph (rows.drop k) r c = glyph rows (k + r) c := by
  unfold glyph
  rw [List.getElem?_drop]

variable [DecidableEq α]

/-- The rows of a text, of which the last one is still open.  A row ends at a break,
and as soon as it is `width` characters long. -/
def layoutFrom (lineBreak : α) (width : Nat) (row : List α) : List α → List (List α)
  | [] => [row]
  | a :: rest =>
      if a = lineBreak then row :: layoutFrom lineBreak width [] rest
      else if row.length + 1 = width then
        (row ++ [a]) :: layoutFrom lineBreak width [] rest
      else layoutFrom lineBreak width (row ++ [a]) rest

def layout (lineBreak : α) (width : Nat) (text : List α) : List (List α) :=
  layoutFrom lineBreak width [] text

example : layout 0 3 [1, 2, 3, 4, 0, 5] = [[1, 2, 3], [4], [5]] := rfl

variable {lineBreak : α} {width : Nat} {row last text : List α}
  {rows done : List (List α)}

theorem layoutFrom_open (hrow : row.length < width) :
    ∃ done last, last.length < width ∧ ∀ more,
      layoutFrom lineBreak width row (text ++ more) =
        done ++ layoutFrom lineBreak width last more := by
  induction text generalizing row with
  | nil => exact ⟨[], row, hrow, fun _ => rfl⟩
  | cons a rest ih =>
      have hwidth : ([] : List α).length < width := Nat.zero_lt_of_lt hrow
      by_cases hbreak : a = lineBreak
      · obtain ⟨done, last, hlast, hrest⟩ := ih hwidth
        refine ⟨row :: done, last, hlast, ?_⟩
        intro more
        simp only [List.cons_append, layoutFrom, if_pos hbreak, hrest]
      by_cases hfull : row.length + 1 = width
      · obtain ⟨done, last, hlast, hrest⟩ := ih hwidth
        refine ⟨(row ++ [a]) :: done, last, hlast, ?_⟩
        intro more
        simp only [List.cons_append, layoutFrom, if_neg hbreak, if_pos hfull, hrest]
      · have hnext : (row ++ [a]).length < width := by
          rw [List.length_append, List.length_singleton]
          omega
        obtain ⟨done, last, hlast, hrest⟩ := ih hnext
        refine ⟨done, last, hlast, ?_⟩
        intro more
        simp only [List.cons_append, layoutFrom, if_neg hbreak, if_neg hfull, hrest]

theorem layout_open (lineBreak : α) (hwidth : 0 < width) (text : List α) :
    ∃ done last, last.length < width ∧
      layout lineBreak width text = done ++ [last] ∧ ∀ a,
      layout lineBreak width (text ++ [a]) =
        done ++ layoutFrom lineBreak width last [a] := by
  obtain ⟨done, last, hlast, hmore⟩ :=
    @layoutFrom_open _ _ lineBreak width [] text hwidth
  refine ⟨done, last, hlast, ?_, fun a => hmore [a]⟩
  have hend := hmore []
  rwa [List.append_nil] at hend

end Sheet

end X86Os32.Library
