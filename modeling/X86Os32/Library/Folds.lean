import Mathlib.Data.List.Basic

namespace X86Os32.Library

/-! What holds at every step of a fold, and what its steps collect. -/

namespace Folds

variable {σ κ : Type*} (step : σ → κ → σ) (allowed : σ → κ → Prop)

/-- Every step is allowed in the state in which it is made. -/
def Along : σ → List κ → Prop
  | _, [] => True
  | s, k :: ks => allowed s k ∧ Along (step s k) ks

variable {step allowed}

theorem along_iff {s : σ} {ks : List κ} :
    Along step allowed s ks ↔ ∀ earlier k later, ks = earlier ++ k :: later →
      allowed (earlier.foldl step s) k := by
  induction ks generalizing s with
  | nil =>
      refine iff_of_true trivial ?_
      intro earlier k later hnone
      simp at hnone
  | cons first rest ih =>
      rw [Along, ih]
      constructor
      · rintro ⟨hfirst, hrest⟩ earlier k later hsplit
        cases earlier with
        | nil =>
            obtain ⟨rfl, -⟩ := List.cons.inj hsplit
            exact hfirst
        | cons first' earlier =>
            obtain ⟨rfl, rfl⟩ := List.cons.inj hsplit
            exact hrest earlier k later rfl
      · intro hall
        refine ⟨hall [] first rest rfl, ?_⟩
        rintro earlier k later rfl
        exact hall (first :: earlier) k later rfl

theorem map_filter_eq_flatMap {ι : Type*} (p q : κ → Prop) [DecidablePred p]
    [DecidablePred q] (f : κ → ι) (ks : List κ) :
    ((ks.filter fun k => p k).filter fun k => q k).map f =
      ks.flatMap fun k => if p k ∧ q k then [f k] else [] := by
  induction ks with
  | nil => rfl
  | cons k ks ih =>
      rw [List.flatMap_cons, ← ih]
      by_cases hp : p k
      · by_cases hq : q k
        · simp [hp, hq]
        · simp [hp, hq]
      · simp [hp]

theorem drop_flatMap {ι : Type*} {f : κ → List ι} {k : ℕ}
    (hlength : ∀ a, (f a).length = k) (list : List κ) (i : ℕ) :
    (list.flatMap f).drop (k * i) = (list.drop i).flatMap f := by
  induction i generalizing list with
  | zero => rfl
  | succ i ih =>
      cases list with
      | nil => simp
      | cons a rest =>
          rw [List.flatMap_cons, Nat.mul_succ, Nat.add_comm, ← List.drop_drop,
            List.drop_left' (hlength a), ih, List.drop_succ_cons]

end Folds

end X86Os32.Library
