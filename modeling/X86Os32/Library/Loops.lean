namespace X86Os32.Library

/-! `while` loops over a state. -/

namespace Loops

variable {σ : Type} (continues : σ → Prop) [DecidablePred continues]
  (body : σ → σ)

/-- `while (continues(s)) s = body(s);`, where `none` stands for a loop that goes
on for `fuel` rounds. -/
def loop : Nat → σ → Option σ
  | 0, _ => none
  | fuel + 1, s => if continues s then loop fuel (body s) else some s

/-- The loop that starts in `s` comes to the test with the state. -/
inductive Visits (s : σ) : σ → Prop
  | start : Visits s s
  | round {t : σ} (hvisits : Visits s t) (hcontinues : continues t) :
      Visits s (body t)

variable {continues body}

omit [DecidablePred continues] in
theorem Visits.invariant {invariant : σ → Prop} {s t : σ}
    (hvisits : Visits continues body s t) (hstart : invariant s)
    (hround : ∀ t, invariant t → continues t → invariant (body t)) :
    invariant t := by
  induction hvisits with
  | start => exact hstart
  | round _ hcontinues ih => exact hround _ ih hcontinues

/-- A loop with a measure that every round makes smaller comes to its end, and the
invariant holds there. -/
theorem loop_ends (measure : σ → Nat) {invariant : σ → Prop} {s : σ} {fuel : Nat}
    (hstart : invariant s) (hround : ∀ t, invariant t → continues t →
      invariant (body t) ∧ measure (body t) < measure t)
    (hfuel : measure s < fuel) :
    ∃ t, loop continues body fuel s = some t ∧ invariant t ∧ ¬continues t := by
  induction fuel generalizing s with
  | zero => exact absurd hfuel (Nat.not_lt_zero _)
  | succ fuel ih =>
      by_cases hcontinues : continues s
      · obtain ⟨hnext, hless⟩ := hround s hstart hcontinues
        obtain ⟨t, hloop, hend⟩ := ih hnext
          (Nat.lt_of_lt_of_le hless (Nat.le_of_lt_succ hfuel))
        refine ⟨t, ?_, hend⟩
        rw [loop, if_pos hcontinues]
        exact hloop
      · refine ⟨s, ?_, hstart, hcontinues⟩
        rw [loop, if_neg hcontinues]

/-! ### Loops that are left in the middle -/

section Middle

variable (continues : σ → Prop) [DecidablePred continues] (first second : σ → σ)

/-- `for (;;) { s = first(s); if (!continues(s)) break; s = second(s); }` -/
def middle : Nat → σ → Option σ
  | 0, _ => none
  | fuel + 1, s =>
      if continues (first s) then middle fuel (second (first s))
      else some (first s)

variable {continues first second}

theorem middle_ends (measure : σ → Nat) {invariant : σ → Prop} {s : σ} {fuel : Nat}
    (hstart : invariant s)
    (hround : ∀ t, invariant t → continues (first t) →
      invariant (second (first t)) ∧ measure (second (first t)) < measure t)
    (hfuel : measure s < fuel) :
    ∃ t, middle continues first second fuel s = some (first t) ∧ invariant t ∧
      ¬continues (first t) := by
  induction fuel generalizing s with
  | zero => exact absurd hfuel (Nat.not_lt_zero _)
  | succ fuel ih =>
      by_cases hcontinues : continues (first s)
      · obtain ⟨hnext, hless⟩ := hround s hstart hcontinues
        obtain ⟨t, hmiddle, hend⟩ := ih hnext
          (Nat.lt_of_lt_of_le hless (Nat.le_of_lt_succ hfuel))
        refine ⟨t, ?_, hend⟩
        rw [middle, if_pos hcontinues]
        exact hmiddle
      · refine ⟨s, ?_, hstart, hcontinues⟩
        rw [middle, if_neg hcontinues]

end Middle

end Loops

end X86Os32.Library
