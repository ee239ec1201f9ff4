import Mathlib.Data.List.Basic
import Mathlib.Data.List.Nodup
import Mathlib.Logic.Function.Basic

namespace X86Os32.Library

/-! Singly linked chains: where a chain of `next` pointers leads from a given
start. -/

namespace LinkChain

/-- Following `next` from `start` visits `items` and arrives at `stop`. -/
def Segment (next : α → Option α) (stop : Option α) : Option α → List α → Prop
  | start, [] => start = stop
  | start, item :: rest =>
      start = some item ∧ Segment next stop (next item) rest

variable {next next' : α → Option α}

theorem Segment.append (hleft : Segment next middle start left)
    (hright : Segment next stop middle right) :
    Segment next stop start (left ++ right) := by
  induction left generalizing start with
  | nil =>
      obtain rfl : start = middle := hleft
      exact hright
  | cons item rest ih => exact ⟨hleft.1, ih hleft.2⟩

theorem Segment.split (hsegment : Segment next stop start (left ++ right)) :
    ∃ middle, Segment next middle start left ∧
      Segment next stop middle right := by
  induction left generalizing start with
  | nil => exact ⟨start, rfl, hsegment⟩
  | cons item rest ih =>
      obtain ⟨middle, hleft, hright⟩ := ih hsegment.2
      exact ⟨middle, ⟨hsegment.1, hleft⟩, hright⟩

theorem Segment.congr (hsegment : Segment next stop start items)
    (hsame : ∀ item ∈ items, next' item = next item) :
    Segment next' stop start items := by
  induction items generalizing start with
  | nil => exact hsegment
  | cons item rest ih =>
      refine ⟨hsegment.1, ?_⟩
      rw [hsame item List.mem_cons_self]
      exact ih hsegment.2 fun other hother =>
        hsame other (List.mem_cons_of_mem _ hother)

theorem Segment.last_next {last : α}
    (hsegment : Segment next stop start (front ++ [last])) :
    next last = stop := by
  obtain ⟨middle, -, -, hlast⟩ := hsegment.split
  exact hlast

theorem Segment.redirect [DecidableEq α] {last : α}
    (hsegment : Segment next stop start (front ++ [last]))
    (hfresh : last ∉ front) (target : Option α) :
    Segment (Function.update next last target) target start
      (front ++ [last]) := by
  obtain ⟨middle, hfront, hlast⟩ := hsegment.split
  have hends : Segment (Function.update next last target) target
      (Function.update next last target last) [] := by
    simp [Segment]
  refine Segment.append (hfront.congr fun item hitem => ?_) ⟨hlast.1, hends⟩
  have hne : item ≠ last := by
    rintro rfl
    exact hfresh hitem
  simp [hne]

end LinkChain

end X86Os32.Library
