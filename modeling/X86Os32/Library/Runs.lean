import Mathlib.Logic.Function.Basic

namespace X86Os32.Library

/-! Runs of a machine whose steps are labelled with events. -/

namespace Runs

/-- The states that some run from a starting state reaches. -/
inductive Reachable (init : σ → Prop) (step : σ → ε → σ → Prop) : σ → Prop
  | start {s : σ} (hinit : init s) : Reachable init step s
  | next {s : σ} {event : ε} {s' : σ} (hreach : Reachable init step s)
      (hstep : step s event s') : Reachable init step s'

theorem Reachable.invariant {init : σ → Prop} {step : σ → ε → σ → Prop}
    {property : σ → Prop} (hreach : Reachable init step s)
    (hinit : ∀ s, init s → property s)
    (hstep : ∀ s event s', property s → step s event s' → property s') :
    property s := by
  induction hreach with
  | start hstart => exact hinit _ hstart
  | next _ hnext ih => exact hstep _ _ _ ih hnext

def run (step : σ → ε → Option σ) (s : σ) : List ε → Option σ
  | [] => some s
  | event :: rest => (step s event).bind fun s' => run step s' rest

theorem Reachable.run {init : σ → Prop} {step : σ → ε → Option σ}
    (hreach : Reachable init (fun s event s' => step s event = some s') s)
    (hrun : Runs.run step s events = some s') :
    Reachable init (fun s event s' => step s event = some s') s' := by
  induction events generalizing s with
  | nil =>
      obtain rfl : s = s' := by simpa [Runs.run] using hrun
      exact hreach
  | cons event rest ih =>
      obtain ⟨middle, hstep, hrest⟩ := Option.bind_eq_some_iff.mp hrun
      exact ih (hreach.next hstep) hrest

theorem Reachable.run_allowed {init : σ → Prop} {step : σ → ε → Option σ}
    {allowed : σ → ε → Prop} [∀ s, DecidablePred (allowed s)] (hinit : init s)
    (hrun : Runs.run (fun s event =>
      if allowed s event then step s event else none) s events = some s') :
    Reachable init
      (fun s event s' => allowed s event ∧ step s event = some s') s' := by
  have hreach := Reachable.run (Reachable.start hinit) hrun
  clear hrun
  induction hreach with
  | start hstart => exact .start hstart
  | next _ hstep ih =>
      split at hstep
      · next hallowed => exact .next ih ⟨hallowed, hstep⟩
      · cases hstep

end Runs

end X86Os32.Library
