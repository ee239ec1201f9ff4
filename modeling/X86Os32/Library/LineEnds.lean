import Mathlib.Data.List.Basic
import X86Os32.Library.Folds

namespace X86Os32.Library

/-! Lists in which a mark stands directly in front of every break, and lists that
are marked piece by piece. -/

namespace LineEnds

variable {α : Type*} [DecidableEq α] (mark lineBreak : α)

/-- The list with a mark in front of every break that has none.  `marked` says
whether there is one in front of the list. -/
def insertMarks (marked : Bool) : List α → List α
  | [] => []
  | a :: rest =>
      if a = lineBreak ∧ marked = false then
        mark :: a :: insertMarks (a = mark) rest
      else a :: insertMarks (a = mark) rest

def endsMarked (marked : Bool) : List α → Bool
  | [] => marked
  | a :: rest => endsMarked (a = mark) rest

/-- A piece that begins with a break has a mark in front of it. -/
def Covered (marked : Bool) (piece : List α) : Prop :=
  piece.head? = some lineBreak → marked = true

variable {mark lineBreak}

theorem endsMarked_append (marked : Bool) (as bs : List α) :
    endsMarked mark marked (as ++ bs) =
      endsMarked mark (endsMarked mark marked as) bs := by
  induction as generalizing marked with
  | nil => rfl
  | cons a as ih => exact ih _

theorem endsMarked_false (as : List α) :
    endsMarked mark false as = true ↔ as.getLast? = some mark := by
  rcases List.eq_nil_or_concat as with rfl | ⟨as, a, rfl⟩
  · simp [endsMarked]
  · simp [endsMarked_append, endsMarked]

theorem insertMarks_append (marked : Bool) (as bs : List α) :
    insertMarks mark lineBreak marked (as ++ bs) =
      insertMarks mark lineBreak marked as ++
        insertMarks mark lineBreak (endsMarked mark marked as) bs := by
  induction as generalizing marked with
  | nil => rfl
  | cons a as ih =>
      simp only [List.cons_append, insertMarks, endsMarked, ih]
      split <;> rfl

theorem length_insertMarks (mark lineBreak : α) (marked : Bool) (as : List α) :
    (insertMarks mark lineBreak marked as).length =
      (insertMarks mark lineBreak true as).length +
        if as.head? = some lineBreak ∧ marked = false then 1 else 0 := by
  cases as with
  | nil => rfl
  | cons a as =>
      simp only [insertMarks, List.head?_cons, Option.some.injEq]
      split <;> simp

theorem insertMarks_of_head {as : List α} {marked : Bool}
    (hhead : as.head? = some lineBreak → marked = true) :
    insertMarks mark lineBreak marked as = insertMarks mark lineBreak true as := by
  cases marked with
  | true => rfl
  | false =>
      cases as with
      | nil => rfl
      | cons a as =>
          have hne : a ≠ lineBreak := fun heq => nomatch hhead (by rw [heq]; rfl)
          simp [insertMarks, hne]

theorem length_pieces_le (mark lineBreak : α) (marked : Bool) (pieces : List (List α)) :
    (pieces.flatMap (insertMarks mark lineBreak true)).length ≤
      (insertMarks mark lineBreak marked pieces.flatten).length := by
  induction pieces generalizing marked with
  | nil => exact Nat.le_refl _
  | cons piece pieces ih =>
      have hpiece := length_insertMarks mark lineBreak marked piece
      have hpieces := ih (endsMarked mark marked piece)
      simp only [List.flatMap_cons, List.flatten_cons, insertMarks_append,
        List.length_append]
      omega

/-- Marking the pieces on their own is marking the whole exactly if every piece is
covered where it comes. -/
theorem pieces_iff (marked : Bool) (pieces : List (List α)) :
    pieces.flatMap (insertMarks mark lineBreak true) =
        insertMarks mark lineBreak marked pieces.flatten ↔
      Folds.Along (endsMarked mark) (Covered lineBreak) marked pieces := by
  induction pieces generalizing marked with
  | nil => exact iff_of_true rfl trivial
  | cons piece pieces ih =>
      rw [List.flatMap_cons, List.flatten_cons, insertMarks_append, Folds.Along]
      constructor
      · intro hsame
        have hlength := congrArg List.length hsame
        have hpiece := length_insertMarks mark lineBreak marked piece
        have hpieces := length_pieces_le mark lineBreak
          (endsMarked mark marked piece) pieces
        rw [List.length_append, List.length_append] at hlength
        have hcovered : Covered lineBreak marked piece := by
          intro hhead
          by_contra hmarked
          rw [if_pos ⟨hhead, Bool.eq_false_iff.mpr hmarked⟩] at hpiece
          omega
        rw [insertMarks_of_head hcovered] at hsame
        exact ⟨hcovered, (ih _).mp (List.append_cancel_left hsame)⟩
      · rintro ⟨hcovered, hrest⟩
        rw [insertMarks_of_head hcovered, (ih _).mpr hrest]

theorem foldl_endsMarked (marked : Bool) (pieces : List (List α)) :
    pieces.foldl (endsMarked mark) marked =
      endsMarked mark marked pieces.flatten := by
  induction pieces generalizing marked with
  | nil => rfl
  | cons piece pieces ih =>
      rw [List.foldl_cons, ih, List.flatten_cons, endsMarked_append]

theorem covered_iff (pieces : List (List α)) :
    pieces.flatMap (insertMarks mark lineBreak true) =
        insertMarks mark lineBreak false pieces.flatten ↔
      ∀ earlier piece later, pieces = earlier ++ piece :: later →
        piece.head? = some lineBreak →
        earlier.flatten.getLast? = some mark := by
  rw [pieces_iff, Folds.along_iff]
  simp only [Covered, foldl_endsMarked, endsMarked_false]

end LineEnds

end X86Os32.Library
