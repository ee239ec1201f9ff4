import X86Os32.Thread.IdleMoves

namespace X86Os32.Idle

open Library
open Scheduler (Cpu)

/-! No processor sleeps while a thread is ready: whoever puts a thread into an
empty ready list sends interrupts, or takes it out again. -/

def Point.window : Point → Bool
  | .asking | .blocking | .halting _ | .halted _ => true
  | _ => false

/-- A thread comes into the ready list right before interrupts are sent, or
before a thread is taken out. -/
def Paired : List (Instruction τ β) → Prop
  | [] => True
  | .enqueue _ :: rest =>
      (rest.head? = some .sendCustomIPI ∨ rest.head? = some .dispatchNext) ∧
        Paired rest
  | _ :: rest => Paired rest

/-- Once interrupts are sent or a thread is taken out, as is about to happen,
there is nothing in the ready list that an idle thread has to be woken for. -/
def Settled : List (Instruction τ β) → List τ → Prop
  | .sendCustomIPI :: _, _ => True
  | .dispatchNext :: _, readyList => readyList.tail = []
  | _, readyList => readyList = []

theorem Settled.empty (todo : List (Instruction τ β)) : Settled todo [] := by
  cases todo with
  | nil => rfl
  | cons instruction rest => cases instruction <;> first | rfl | trivial

theorem Paired.ready_append {rest : List (Instruction τ β)}
    (hrest : Paired rest) (t : τ) : Paired (ready t ++ rest) :=
  ⟨Or.inl rfl, hrest⟩

theorem Paired.flatMap_append {rest : List (Instruction τ β)}
    (hrest : Paired rest) (woken : List τ) :
    Paired (woken.flatMap ready ++ rest) := by
  induction woken with
  | nil => exact hrest
  | cons t others ih =>
      rw [List.flatMap_cons, List.append_assoc]
      exact ih.ready_append t

theorem paired_resume (dying : Option (List τ)) (active : Option τ) :
    Paired (resume dying active : List (Instruction τ β)) := by
  cases active with
  | none => trivial
  | some prev =>
      cases dying with
      | none => exact ⟨Or.inr rfl, trivial⟩
      | some woken => exact Paired.flatMap_append (by trivial) woken

theorem Paired.check_append {rest : List (Instruction τ β)}
    (hrest : Paired rest) (rung : List (β × List τ)) :
    Paired (check rung ++ rest) := by
  induction rung with
  | nil => exact hrest
  | cons first others ih =>
      rw [check, List.flatMap_cons, List.append_assoc, List.append_assoc]
      have hcancel : Paired ([.cancel first.1] ++ (check others ++ rest)) := ih
      exact hcancel.flatMap_append first.2

theorem paired_watchEpilogue (c : Cpu) (rung : List (β × List τ))
    (dying : Option (List τ)) (active : Option τ) :
    Paired (watchEpilogue c rung dying active) := by
  rw [watchEpilogue]
  split
  · exact (paired_resume dying active).check_append rung
  · exact paired_resume dying active

variable [DecidableEq τ] [DecidableEq β]

omit [DecidableEq β] in
theorem paired_program (s : State τ β) (c : Cpu)
    (operation : Operation τ β) : Paired (s.program c operation) := by
  have hdestroy : ∀ woken : List τ,
      Paired (destroy woken : List (Instruction τ β)) := by
    intro woken
    rw [destroy, ← List.append_nil (woken.flatMap ready)]
    exact Paired.flatMap_append (by trivial) woken
  cases operation with
  | ready t => exact ⟨Or.inl rfl, trivial⟩
  | resume dying => exact paired_resume dying _
  | block => trivial
  | sleep bell => trivial
  | exit woken => exact Paired.flatMap_append (by trivial) woken
  | kill t woken =>
      simp only [State.program]
      split
      · exact hdestroy woken
      · split
        · exact Paired.flatMap_append (by trivial) woken
        · exact hdestroy woken

structure Woken (n : Nat) (s : State τ β) : Prop where
  online : ∀ c, ¬ c.val < n → s.idle c = .resuming
  paired : Paired s.todo
  woken : ∀ c, (s.idle c).window = true →
    s.wakeup c = true ∨ Settled s.todo s.readyList

theorem exec_settled {s : State τ β} (hd : d.val < n)
    (hpaired : Paired (instruction :: rest))
    (hsettled : s.wakeup d = true ∨
      Settled (instruction :: rest) s.readyList) :
    (s.exec n c instruction).wakeup d = true ∨
      Settled rest (s.exec n c instruction).readyList := by
  cases instruction with
  | sendCustomIPI =>
      left
      simp [State.exec, Nat.testBit_two_pow_sub_one, hd]
  | enqueue t =>
      refine hsettled.imp_right fun hempty => ?_
      have hlist : s.readyList = [] := hempty
      simp only [State.exec, hlist, List.nil_append]
      obtain ⟨hnext | hnext, -⟩ := hpaired
      all_goals
        obtain ⟨instruction, others, rfl⟩ :
            ∃ instruction others, rest = instruction :: others := by
          cases rest with
          | nil => cases hnext
          | cons instruction others => exact ⟨instruction, others, rfl⟩
        obtain rfl := Option.some.inj hnext
      · trivial
      · rfl
  | dispatchNext =>
      refine hsettled.imp_right fun htail => ?_
      have hlist : s.readyList.tail = [] := htail
      simp only [State.exec, hlist]
      exact Settled.empty rest
  | remove | job | cancel =>
      refine hsettled.imp_right fun hempty => ?_
      have hlist : s.readyList = [] := hempty
      simp only [State.exec, hlist, List.erase_nil]
      exact Settled.empty rest

omit [DecidableEq τ] [DecidableEq β] in
theorem Point.present_of_window {point : Point}
    (hwindow : point.window = true) : point.present = true := by
  cases point <;> first | rfl | cases hwindow

omit [DecidableEq τ] [DecidableEq β] in
theorem action_window {s : State τ β} (hpoint : s.idle c = point)
    (hstep : s.action c point = some s')
    (hwindow : (s'.idle c).window = true) :
    s.readyList = [] ∨ point.window = true := by
  cases point with
  | disabling | unblocking | enabling =>
      cases hstep
      simp [State.setIdle, Point.window] at hwindow
  | reading =>
      cases hstep
      simp only [State.setIdle, Function.update_self] at hwindow
      split at hwindow
      · next hempty => exact Or.inl (List.isEmpty_iff.mp hempty)
      · cases hwindow
  | asking | blocking | halting => exact Or.inr rfl
  | halted => cases hstep
  | resuming =>
      cases hstep
      simp [State.setWaiting, hpoint, Point.window] at hwindow

theorem Woken.moves {s : State τ β} (hwoken : Woken n s) (hplaced : Placed s)
    (hc : c.val < n) (hmoves : Moves n c s event s') : Woken n s' := by
  have honline : ∀ d, ¬ d.val < n → s'.idle d = .resuming := by
    intro d hd
    have hne : d ≠ c := fun heq => hd (heq ▸ hc)
    rw [(hmoves.elsewhere hne).1]
    exact hwoken.online d hd
  have hempty : ∀ todo : List (Instruction τ β), s.todo = [] → ∀ d,
      (s.idle d).window = true →
      s.wakeup d = true ∨ Settled todo s.readyList := by
    intro todo hdone d hwindow
    refine (hwoken.woken d hwindow).imp_right fun hsettled => ?_
    rw [hdone] at hsettled
    have hlist : s.readyList = [] := hsettled
    rw [hlist]
    exact Settled.empty todo
  -- An interrupt takes the idle thread out of the window.
  have hwake : s.Enabled c → ∀ d, ((s.wake c).idle d).window = true →
      d ≠ c ∧ (s.idle d).window = true := by
    intro henabled d hwindow
    have hne : d ≠ c := by
      rintro rfl
      exact wake_present (hplaced.present d) henabled
        (Point.present_of_window hwindow)
    exact ⟨hne, by simpa [State.wake, State.setIdle, hne] using hwindow⟩
  refine ⟨honline, ?_, ?_⟩
  · cases hmoves with
    | loop hidles hstep =>
        generalize s.idle c = point at hstep
        cases point <;> cases hstep <;> exact hwoken.paired
    | call => exact paired_program s c _
    | callIdle => trivial
    | watch => exact paired_watchEpilogue c _ _ _
    | run hguard htodo =>
        have hpaired := hwoken.paired
        rw [htodo] at hpaired
        rename_i instruction rest
        cases instruction with
        | enqueue => exact hpaired.2
        | _ => exact hpaired
    | _ => exact hwoken.paired
  · intro d hwindow
    cases hmoves with
    | loop hidles hstep =>
        have hrest : s'.todo = s.todo ∧ s'.readyList = s.readyList ∧
            s'.wakeup = s.wakeup := by
          generalize s.idle c = point at hstep
          cases point <;> cases hstep <;> exact ⟨rfl, rfl, rfl⟩
        obtain ⟨htodo, hlist, hwakeup⟩ := hrest
        rw [htodo, hlist, hwakeup]
        by_cases hd : d = c
        · subst hd
          rcases action_window rfl hstep hwindow with hnil | hbefore
          · rw [hnil]
            exact Or.inr (Settled.empty _)
          · exact hwoken.woken d hbefore
        · have hmoves : Moves n c s (.idle c) s' := .loop hidles hstep
          rw [(hmoves.elsewhere hd).1] at hwindow
          exact hwoken.woken d hwindow
    | timerOutside henabled | interrupt henabled | epilogue henabled =>
        exact hwoken.woken d (hwake henabled d hwindow).2
    | wakeup henabled =>
        obtain ⟨hne, hbefore⟩ := hwake henabled d hwindow
        have hold := hwoken.woken d hbefore
        simpa [State.wake, State.setIdle, hne] using hold
    | call hguard hdone => exact hempty _ hdone d hwindow
    | watch hguard hdone => exact hempty _ hdone d hwindow
    | callIdle hguard hdone =>
        have hne : d ≠ c := by
          rintro rfl
          simp [State.setIdle, Point.window] at hwindow
        simp only [State.setIdle, Function.update_of_ne hne] at hwindow
        exact hempty _ hdone d hwindow
    | run hguard htodo =>
        rename_i instruction rest
        have hidle : (s.exec n c instruction).idle = s.idle := by
          cases instruction <;> rfl
        have hbefore : (s.idle d).window = true := by
          rw [← hidle]
          exact hwindow
        have hd : d.val < n := by
          by_contra hoffline
          rw [hwoken.online d hoffline] at hbefore
          cases hbefore
        have hpaired := hwoken.paired
        have hold := hwoken.woken d hbefore
        rw [htodo] at hpaired hold
        exact exec_settled hd hpaired hold
    | _ => exact hwoken.woken d hwindow

abbrev State.Reachable (n : Nat) (s : State τ β) : Prop :=
  Runs.Reachable State.Starts (fun s event s' => s.step n event = some s') s

theorem State.Reachable.placed {s : State τ β} (hreach : s.Reachable n) :
    Placed s := by
  induction hreach with
  | start hinit => exact .start hinit
  | next _ hstep ih => exact ih.moves (step_moves hstep).2

theorem State.Reachable.woken {s : State τ β} (hreach : s.Reachable n) :
    Woken n s := by
  induction hreach with
  | start hinit =>
      obtain ⟨-, -, htodo, hcpus⟩ := hinit
      refine ⟨fun c _ => (hcpus c).2.2.1, by rw [htodo]; trivial, ?_⟩
      intro c hwindow
      rw [(hcpus c).2.2.1] at hwindow
      cases hwindow
  | next hbefore hstep ih =>
      obtain ⟨hc, hmoves⟩ := step_moves hstep
      exact ih.moves (State.Reachable.placed hbefore) hc hmoves

/-- While no processor is inside the guard and a thread is ready, every processor
that sleeps has a pending interrupt. -/
theorem no_lost_wakeup {s : State τ β} (hreach : s.Reachable n)
    (hguard : s.guard = none) (hready : s.readyList ≠ [])
    (hhalted : s.idle c = .halted masked) : s.wakeup c = true := by
  have htodo := hreach.placed.quiet hguard
  rcases hreach.woken.woken c (by rw [hhalted]; rfl) with hpending | hsettled
  · exact hpending
  · rw [htodo] at hsettled
    exact absurd hsettled hready

omit [DecidableEq τ] [DecidableEq β] in
theorem start_starts (readyList : List τ) :
    (State.start readyList : State τ β).Starts :=
  ⟨rfl, rfl, rfl, fun _ => ⟨rfl, rfl, rfl, rfl, rfl⟩⟩

/-- Processor 0 sleeps when processor 1 makes a thread ready. -/
theorem no_lost_wakeup_ready :
    ∃ s : State Nat Nat, s.Reachable 2 ∧ s.readyList = [8] ∧
      s.idle 0 = .halted true ∧ s.wakeup 0 = true := by
  have hrun : (Runs.run (State.step 2) (State.start [7] : State Nat Nat)
      (boot 1 ++ boot 0 ++ List.replicate 5 (Event.idle 0) ++
        [Event.enter 1, .acquire 1, .call 1 (.ready 8), .run 1, .run 1,
          .leave 1])).any fun s =>
          s.guard = none ∧ s.readyList = [8] ∧ s.idle 0 = .halted true := by
    decide +kernel
  obtain ⟨s, hs, hcheck⟩ := (Option.any_eq_true _ _).mp hrun
  simp only [decide_eq_true_eq] at hcheck
  obtain ⟨hguard, hready, hhalted⟩ := hcheck
  have hreach : s.Reachable 2 := Runs.Reachable.run (.start (start_starts _)) hs
  exact ⟨s, hreach, hready, hhalted,
    no_lost_wakeup hreach hguard (by simp [hready]) hhalted⟩

end X86Os32.Idle
