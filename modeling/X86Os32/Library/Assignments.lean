import Mathlib.Data.List.FinRange
import Mathlib.Logic.Function.Basic

namespace X86Os32.Library

/-! Tables that are filled by one assignment after the other.  Where several are made
to one place, the last of them counts. -/

namespace Assignments

variable {ι κ ν : Type} [DecidableEq κ] (place : ι → Option κ) (value : ι → ν)

/-- `table[place(i)] = value(i);`, if `i` has a place. -/
def assign (table : κ → ν) (i : ι) : κ → ν :=
  match place i with
  | none => table
  | some k => Function.update table k (value i)

def fill (table : κ → ν) (items : List ι) : κ → ν := items.foldl (assign place value) table

variable {place value} {table : κ → ν} {items : List ι} {i : ι} {k : κ}

theorem assign_of_ne (hne : place i ≠ some k) : assign place value table i k = table k := by
  unfold assign
  cases hplace : place i with
  | none => rfl
  | some k' =>
      apply Function.update_of_ne
      rintro rfl
      exact hne hplace

theorem assign_self (hplace : place i = some k) :
    assign place value table i k = value i := by
  unfold assign
  rw [hplace]
  exact Function.update_self ..

theorem fill_untouched (hnone : ∀ i ∈ items, place i ≠ some k) :
    fill place value table items k = table k := by
  induction items generalizing table with
  | nil => rfl
  | cons first rest ih =>
      obtain ⟨hfirst, hrest⟩ := List.forall_mem_cons.mp hnone
      exact (ih hrest).trans (assign_of_ne hfirst)

theorem fill_last (earlier later : List ι) (hplace : place i = some k)
    (hlater : ∀ j ∈ later, place j ≠ some k) :
    fill place value table (earlier ++ i :: later) k = value i := by
  unfold fill
  rw [List.foldl_append]
  exact (fill_untouched hlater).trans (assign_self hplace)

theorem fill_unique (hmem : i ∈ items) (hplace : place i = some k)
    (hunique : items.Pairwise fun i j => place i = some k → place j ≠ some k) :
    fill place value table items k = value i := by
  obtain ⟨earlier, later, rfl⟩ := List.append_of_mem hmem
  obtain ⟨-, hrest, -⟩ := List.pairwise_append.mp hunique
  apply fill_last earlier later hplace
  intro j hj
  exact (List.pairwise_cons.mp hrest).1 j hj hplace

theorem fill_greatest [LinearOrder ι] (hsorted : items.Pairwise (· < ·)) (hmem : i ∈ items)
    (hplace : place i = some k) (hgreatest : ∀ j, i < j → place j ≠ some k) :
    fill place value table items k = value i := by
  obtain ⟨earlier, later, rfl⟩ := List.append_of_mem hmem
  obtain ⟨-, hrest, -⟩ := List.pairwise_append.mp hsorted
  apply fill_last earlier later hplace
  intro j hj
  exact hgreatest j ((List.pairwise_cons.mp hrest).1 j hj)

end Assignments

end X86Os32.Library
