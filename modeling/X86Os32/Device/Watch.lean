import X86Os32.Thread.IdleWakeup

namespace X86Os32.Idle

open Library
open Scheduler (Cpu)

/-! When the timer is masked while it is needed: for the bells, which processor 0
counts down, and for the time slices. -/

variable [DecidableEq τ] [DecidableEq β]

abbrev State.ReachableIf (n : Nat) (allowed : State τ β → Event τ β → Bool)
    (s : State τ β) : Prop :=
  Runs.Reachable State.Starts
    (fun s event s' => allowed s event = true ∧ s.step n event = some s') s

theorem State.ReachableIf.reachable {allowed : State τ β → Event τ β → Bool}
    {s : State τ β} (hreach : s.ReachableIf n allowed) : s.Reachable n := by
  induction hreach with
  | start hinit => exact .start hinit
  | next _ hstep ih => exact .next ih hstep.2

/-! ### Bells -/

/-- The idle thread of processor 0 has found the bell list empty, and is not
woken yet. -/
def Point.unaware : Point → Bool
  | .blocking | .halting true | .halted true => true
  | _ => false

/-- No bell comes into the empty bell list between the look of processor 0 at the
list and the end of its sleep, unless an interrupt is pending that wakes it. -/
def State.noticesBells (s : State τ β) : Event τ β → Bool
  | .run _ =>
      match s.todo with
      | .job _ :: _ =>
          !s.bells.isEmpty || !(s.idle 0).unaware || s.wakeup 0
      | _ => true
  | _ => true

/-- The bell list is empty while the idle thread of processor 0 relies on it, or
an interrupt is pending. -/
def State.BellsNoticed (s : State τ β) : Prop :=
  (s.idle 0).unaware = true → s.bells = [] ∨ s.wakeup 0 = true

omit [DecidableEq τ] [DecidableEq β] in
theorem Point.present_of_unaware {point : Point}
    (hunaware : point.unaware = true) : point.present = true := by
  rcases point with _ | _ | _ | _ | masked | masked | _ | _ | _ <;>
    first | rfl | cases hunaware

omit [DecidableEq τ] [DecidableEq β] in
theorem action_unaware {s : State τ β} (hpoint : s.idle 0 = point)
    (hstep : s.action 0 point = some s')
    (hunaware : (s'.idle 0).unaware = true) :
    s.bells = [] ∨ point.unaware = true := by
  cases point with
  | disabling | unblocking | enabling =>
      cases hstep
      simp [State.setIdle, Point.unaware] at hunaware
  | reading =>
      cases hstep
      simp only [State.setIdle, Function.update_self] at hunaware
      split at hunaware <;> cases hunaware
  | asking =>
      cases hstep
      simp only [State.setIdle, Function.update_self] at hunaware
      split at hunaware
      · next hempty => exact Or.inl (by simpa using hempty)
      · cases hunaware
  | blocking => exact Or.inr rfl
  | halting masked =>
      cases hstep
      cases masked with
      | true => exact Or.inr rfl
      | false => simp [State.setIdle, Point.unaware] at hunaware
  | halted => cases hstep
  | resuming =>
      cases hstep
      simp [State.setWaiting, hpoint, Point.unaware] at hunaware

theorem State.BellsNoticed.moves {s : State τ β} (hnoticed : s.BellsNoticed)
    (hplaced : Placed s) (hmoves : Moves n c s event s')
    (hallowed : s.noticesBells event = true) : s'.BellsNoticed := by
  intro hunaware
  -- An interrupt takes the idle thread out of its sleep.
  have hwake : s.Enabled c → ((s.wake c).idle 0).unaware = true →
      0 ≠ c ∧ (s.idle 0).unaware = true := by
    intro henabled hthere
    have hne : 0 ≠ c := by
      rintro rfl
      exact wake_present (hplaced.present 0) henabled
        (Point.present_of_unaware hthere)
    exact ⟨hne, by simpa [State.wake, State.setIdle, hne] using hthere⟩
  cases hmoves with
  | loop hidles hstep =>
      have hrest : s'.bells = s.bells ∧ s'.wakeup = s.wakeup := by
        generalize s.idle c = point at hstep
        cases point <;> cases hstep <;> exact ⟨rfl, rfl⟩
      rw [hrest.1, hrest.2]
      by_cases hc : 0 = c
      · subst hc
        rcases action_unaware rfl hstep hunaware with hempty | hbefore
        · exact Or.inl hempty
        · exact hnoticed hbefore
      · have hmoves : Moves n c s (.idle c) s' := .loop hidles hstep
        rw [(hmoves.elsewhere hc).1] at hunaware
        exact hnoticed hunaware
  | timerOutside henabled | interrupt henabled | epilogue henabled =>
      exact hnoticed (hwake henabled hunaware).2
  | wakeup henabled =>
      obtain ⟨hne, hbefore⟩ := hwake henabled hunaware
      simpa [State.wake, State.setIdle, hne] using hnoticed hbefore
  | callIdle hguard hdone =>
      by_cases hc : 0 = c
      · subst hc
        simp [State.setIdle, Point.unaware] at hunaware
      · simp only [State.setIdle, Function.update_of_ne hc] at hunaware
        exact hnoticed hunaware
  | run hguard htodo =>
      rename_i instruction rest
      cases instruction with
      | job bell =>
          right
          have hunaware : (s.idle 0).unaware = true := hunaware
          simp only [State.noticesBells, htodo, hunaware, Bool.not_true,
            Bool.or_false, Bool.or_eq_true] at hallowed
          rcases hallowed with hnonempty | hpending
          · refine (hnoticed hunaware).resolve_left fun hempty => ?_
            rw [hempty] at hnonempty
            cases hnonempty
          · exact hpending
      | cancel bell =>
          refine (hnoticed hunaware).imp_left fun hempty => ?_
          simp [State.exec, hempty]
      | sendCustomIPI =>
          refine (hnoticed hunaware).imp_right fun hpending => ?_
          simp [State.exec, hpending]
      | enqueue | remove | dispatchNext => exact hnoticed hunaware
  | _ => exact hnoticed hunaware

theorem State.ReachableIf.bells {s : State τ β}
    (hreach : s.ReachableIf n State.noticesBells) : s.BellsNoticed := by
  induction hreach with
  | start hinit =>
      intro hunaware
      rw [(hinit.2.2.2 0).2.2.1] at hunaware
      cases hunaware
  | next hbefore hstep ih =>
      rename_i s event s'
      obtain ⟨hallowed, hstep⟩ := hstep
      have hplaced :=
        State.Reachable.placed (State.ReachableIf.reachable hbefore)
      exact ih.moves hplaced (step_moves hstep).2 hallowed

/-- While a bell is registered and processor 0 sleeps, its timer is not masked,
or an interrupt is pending that wakes it. -/
theorem clock_runs {s : State τ β}
    (hreach : s.ReachableIf n State.noticesBells) (hbells : s.bells ≠ [])
    (hhalted : s.idle 0 = .halted masked) :
    s.masked 0 = false ∨ s.wakeup 0 = true := by
  have hmasked := hreach.reachable.placed.masked 0
  have hnoticed := hreach.bells
  rw [State.BellsNoticed, hhalted] at hnoticed
  rw [hhalted] at hmasked
  cases masked with
  | false => exact Or.inl hmasked
  | true => exact Or.inr ((hnoticed rfl).resolve_left hbells)

/-- Processor 0 sleeps after a bell was registered. -/
theorem clock_runs_bell :
    ∃ s : State Nat Nat, s.ReachableIf 2 State.noticesBells ∧
      s.bells = [5] ∧ s.idle 0 = .halted false ∧
      (s.masked 0 = false ∨ s.wakeup 0 = true) := by
  have hrun : (Runs.run (fun s event => if s.noticesBells event = true then
      s.step 2 event else none) (State.start [7] : State Nat Nat)
      (boot 1 ++ boot 0 ++ [Event.enter 1, .acquire 1, .call 1 (.sleep 5),
        .run 1, .run 1, .leave 1] ++
        List.replicate 4 (Event.idle 0))).any fun s =>
          s.bells = [5] ∧ s.idle 0 = .halted false := by
    decide +kernel
  obtain ⟨s, hs, hcheck⟩ := (Option.any_eq_true _ _).mp hrun
  simp only [decide_eq_true_eq] at hcheck
  obtain ⟨hbells, hhalted⟩ := hcheck
  have hreach : s.ReachableIf 2 State.noticesBells :=
    Runs.Reachable.run_allowed (start_starts _) hs
  exact ⟨s, hreach, hbells, hhalted,
    clock_runs hreach (by simp [hbells]) hhalted⟩

/-- Processor 0 finds no bell and masks its timer, processor 1 registers one, and
processor 0 sleeps. -/
theorem clock_stops :
    ¬ ∀ (s : State Nat Nat) (masked : Bool), s.Reachable 2 →
      s.bells ≠ [] → s.idle 0 = .halted masked →
      s.masked 0 = false ∨ s.wakeup 0 = true := by
  intro hclaim
  have hrun : (Runs.run (State.step 2) (State.start [7] : State Nat Nat)
      (boot 1 ++ boot 0 ++ List.replicate 4 (Event.idle 0) ++
        [Event.enter 1, .acquire 1, .call 1 (.sleep 5), .run 1, .run 1, .leave 1,
          .idle 0])).any fun s =>
          s.bells = [5] ∧ s.idle 0 = .halted true ∧ s.masked 0 = true ∧
            s.wakeup 0 = false := by
    decide +kernel
  obtain ⟨s, hs, hcheck⟩ := (Option.any_eq_true _ _).mp hrun
  simp only [decide_eq_true_eq] at hcheck
  obtain ⟨hbells, hhalted, hmasked, hwakeup⟩ := hcheck
  have hreach : s.Reachable 2 :=
    Runs.Reachable.run (.start (start_starts _)) hs
  have hruns := hclaim s true hreach (by simp [hbells]) hhalted
  simp [hmasked, hwakeup] at hruns

/-! ### Time slices -/

/-- A processor whose idle thread has masked the timer does not find a thread in
the ready list when it dispatches. -/
def State.keepsSlices (s : State τ β) : Event τ β → Bool
  | .run c =>
      match s.todo with
      | .dispatchNext :: _ => !(s.idle c).masks || s.readyList.isEmpty
      | _ => true
  | _ => true

/-- Where the timer is masked, the idle thread is active. -/
def State.SlicesKept (s : State τ β) : Prop :=
  ∀ c, s.masked c = true → s.active c = none

theorem State.SlicesKept.moves {s : State τ β} (hkept : s.SlicesKept)
    (hplaced : Placed s) (hmoves : Moves n c s event s')
    (hallowed : s.keepsSlices event = true) : s'.SlicesKept := by
  intro d hmasked
  cases hmoves with
  | loop hidles hstep =>
      have hactive : s'.active = s.active := by
        generalize s.idle c = point at hstep
        cases point <;> cases hstep <;> rfl
      rw [hactive]
      by_cases hd : d = c
      · exact hd ▸ hidles.2
      · have hmoves : Moves n c s (.idle c) s' := .loop hidles hstep
        rw [(hmoves.elsewhere hd).2.1] at hmasked
        exact hkept d hmasked
  | run hguard htodo =>
      rename_i instruction rest
      cases instruction with
      | dispatchNext =>
          have hmask : s.masked d = true := hmasked
          by_cases hd : d = c
          · subst hd
            rw [hplaced.masked] at hmask
            have hempty : s.readyList = [] := by
              simpa [State.keepsSlices, htodo, hmask] using hallowed
            simp [State.exec, hempty]
          · simpa [State.exec, hd] using hkept d hmask
      | enqueue | remove | sendCustomIPI | job | cancel =>
          exact hkept d hmasked
  | _ => exact hkept d hmasked

theorem State.ReachableIf.slices {s : State τ β}
    (hreach : s.ReachableIf n State.keepsSlices) : s.SlicesKept := by
  induction hreach with
  | start hinit => exact fun c _ => (hinit.2.2.2 c).2.1
  | next hbefore hstep ih =>
      obtain ⟨hallowed, hstep⟩ := hstep
      have hplaced :=
        State.Reachable.placed (State.ReachableIf.reachable hbefore)
      exact ih.moves hplaced (step_moves hstep).2 hallowed

/-- Wherever a thread other than the idle thread is active, inside the guard or
outside, the timer is not masked. -/
theorem slices_armed {s : State τ β}
    (hreach : s.ReachableIf n State.keepsSlices)
    (hactive : s.active c = some t) : s.masked c = false := by
  refine Bool.eq_false_of_not_eq_true fun hmasked => ?_
  have hidle := hreach.slices c hmasked
  rw [hactive] at hidle
  cases hidle

/-- Processor 0 is woken for a thread, unmasks its timer and runs the thread. -/
theorem slices_armed_ready :
    ∃ s : State Nat Nat, s.ReachableIf 2 State.keepsSlices ∧
      s.active 0 = some 8 ∧ s.guard = none ∧ s.masked 0 = false := by
  have hrun : (Runs.run (fun s event => if s.keepsSlices event = true then
      s.step 2 event else none) (State.start [7] : State Nat Nat)
      (boot 1 ++ boot 0 ++ List.replicate 5 (Event.idle 0) ++
        [Event.enter 1, .acquire 1, .call 1 (.ready 8), .run 1, .run 1,
          .leave 1, .wakeup 0] ++
        List.replicate 4 (Event.idle 0) ++ boot 0)).any fun s =>
          s.active 0 = some 8 ∧ s.guard = none := by
    decide +kernel
  obtain ⟨s, hs, hcheck⟩ := (Option.any_eq_true _ _).mp hrun
  simp only [decide_eq_true_eq] at hcheck
  obtain ⟨hactive, hguard⟩ := hcheck
  have hreach : s.ReachableIf 2 State.keepsSlices :=
    Runs.Reachable.run_allowed (start_starts _) hs
  exact ⟨s, hreach, hactive, hguard, slices_armed hreach hactive⟩

/-- The timer of processor 0 fires before it is masked, processor 1 makes a
thread ready, and the epilogue of the watch switches to it out of `hlt`. -/
theorem slices_lost :
    ¬ ∀ (s : State Nat Nat) (c : Cpu) (t : Nat), s.Reachable 2 →
      s.active c = some t → s.Outside c → s.masked c = false := by
  intro hclaim
  have hrun : (Runs.run (State.step 2) (State.start [7] : State Nat Nat)
      (boot 1 ++ boot 0 ++ List.replicate 3 (Event.idle 0) ++
        [Event.tick 0, .idle 0, .enter 1, .acquire 1, .call 1 (.ready 8),
          .run 1, .run 1, .leave 1, .idle 0, .timer 0 true, .acquire 0,
          .watch 0 [] none, .run 0, .leave 0])).any fun s =>
          s.active 0 = some 8 ∧ s.Outside 0 ∧ s.masked 0 = true := by
    decide +kernel
  obtain ⟨s, hs, hcheck⟩ := (Option.any_eq_true _ _).mp hrun
  simp only [decide_eq_true_eq] at hcheck
  obtain ⟨hactive, houtside, hmasked⟩ := hcheck
  have hreach : s.Reachable 2 :=
    Runs.Reachable.run (.start (start_starts _)) hs
  have harmed := hclaim s 0 8 hreach hactive houtside
  rw [hmasked] at harmed
  cases harmed

end X86Os32.Idle
