import Mathlib.Data.Set.BooleanAlgebra
import Mathlib.Data.Set.Disjoint
import Mathlib.Logic.Function.Basic
import Mathlib.Order.CompletePartialOrder

namespace X86Os32.Library

/-! Actions on a store that only use a region of it. -/

namespace LocalAction

variable {ι β : Type*}

/-- The action writes and reads nothing outside of the region. -/
structure Local (region : Set ι) (act : (ι → β) → ι → β) : Prop where
  frame : ∀ store i, i ∉ region → act store i = store i
  reads : ∀ store store', (∀ i ∈ region, store i = store' i) →
    ∀ i ∈ region, act store i = act store' i

variable {region other : Set ι} {act act' : (ι → β) → ι → β}

theorem Local.id : Local region (fun store : ι → β => store) where
  frame _ _ _ := rfl
  reads _ _ hagree := hagree

theorem Local.comp (hact' : Local region act') (hact : Local region act) :
    Local region fun store => act' (act store) where
  frame store i hi := by rw [hact'.frame _ i hi, hact.frame _ i hi]
  reads store store' hagree := hact'.reads _ _ (hact.reads _ _ hagree)

theorem Local.foldl {κ : Type*} {acts : (ι → β) → κ → ι → β} {steps : List κ}
    (hacts : ∀ step ∈ steps, Local region fun store => acts store step) :
    Local region fun store => steps.foldl acts store := by
  induction steps with
  | nil => exact Local.id
  | cons step rest ih =>
      exact (ih fun other hother => hacts other (List.mem_cons_of_mem _ hother)).comp
        (hacts step List.mem_cons_self)

theorem Local.update [DecidableEq ι] {i : ι} {value : (ι → β) → β}
    (hi : i ∈ region) (hvalue : ∀ store store',
      (∀ j ∈ region, store j = store' j) → value store = value store') :
    Local region fun store => Function.update store i (value store) where
  frame store j hj := by
    have hne : j ≠ i := fun heq => hj (heq ▸ hi)
    exact Function.update_of_ne hne _ _
  reads store store' hagree j hj := by
    by_cases heq : j = i
    · rw [heq, Function.update_self, Function.update_self]
      exact hvalue store store' hagree
    · rw [Function.update_of_ne heq, Function.update_of_ne heq]
      exact hagree j hj

/-- Actions on disjoint regions commute. -/
theorem Local.commute (hact : Local region act) (hact' : Local other act')
    (hdisjoint : Disjoint region other) (store : ι → β) :
    act (act' store) = act' (act store) := by
  have hseen : ∀ i ∈ region, act' store i = store i := fun i hi =>
    hact'.frame store i fun hother => Set.disjoint_left.mp hdisjoint hi hother
  have hseen' : ∀ i ∈ other, act store i = store i := fun i hi =>
    hact.frame store i fun hregion => Set.disjoint_left.mp hdisjoint hregion hi
  funext i
  by_cases hi : i ∈ region
  · have hout : i ∉ other := fun hother =>
      Set.disjoint_left.mp hdisjoint hi hother
    rw [hact.reads _ _ hseen i hi, hact'.frame _ i hout]
  · rw [hact.frame _ i hi]
    by_cases hother : i ∈ other
    · exact (hact'.reads _ _ hseen' i hother).symm
    · rw [hact'.frame _ i hother, hact'.frame _ i hother, hact.frame _ i hi]

/-! ### Actions on many regions -/

variable {κ : Type*} {acts : (ι → β) → κ → ι → β} {regions : κ → Set ι}
  {steps : List κ}

theorem foldl_outside (hacts : ∀ step ∈ steps,
      Local (regions step) fun store => acts store step)
    {i : ι} (hi : ∀ step ∈ steps, i ∉ regions step) (store : ι → β) :
    steps.foldl acts store i = store i := by
  induction steps generalizing store with
  | nil => rfl
  | cons first rest ih =>
      rw [List.foldl_cons, ih (fun step hstep => hacts step (.tail _ hstep))
        fun step hstep => hi step (.tail _ hstep)]
      exact (hacts first List.mem_cons_self).frame store i
        (hi first List.mem_cons_self)

theorem foldl_inside (hacts : ∀ step ∈ steps,
      Local (regions step) fun store => acts store step)
    (hapart : steps.Pairwise fun a b => Disjoint (regions a) (regions b))
    {step : κ} (hstep : step ∈ steps) {i : ι} (hi : i ∈ regions step)
    (store : ι → β) :
    steps.foldl acts store i = acts store step i := by
  induction steps generalizing store with
  | nil => cases hstep
  | cons first rest ih =>
      have hlater := fun other (hother : other ∈ rest) =>
        hacts other (.tail _ hother)
      obtain ⟨hfirst, hrest⟩ := List.pairwise_cons.mp hapart
      rw [List.foldl_cons]
      rcases List.mem_cons.mp hstep with rfl | hmem
      · apply foldl_outside hlater
        intro other hother hin
        exact Set.disjoint_left.mp (hfirst other hother) hi hin
      · rw [ih hlater hrest hmem]
        apply (hlater step hmem).reads _ _ _ i hi
        intro j hj
        apply (hacts first List.mem_cons_self).frame store j
        intro hin
        exact Set.disjoint_left.mp (hfirst step hmem) hin hj

end LocalAction

end X86Os32.Library
