import X86Os32.Library.Results
import X86Os32.Thread.IdleThread
import X86Os32.Thread.Invariants
import X86Os32.Thread.ReadyList

namespace X86Os32.Idle

open Library Library.Results
open Scheduler (Address Bell Cpu Lists Machine Wakes Switches)

/-! The programs beside the idle threads do with the ready list, and with the
threads that the processors execute, what the operations of the scheduler do. -/

variable {machine : Machine} {a a' : Scheduler.State Lists}
  {x : State Address Bell} {c cpu : Cpu} {t : Address} {n : Nat}

/-! ### Programs -/

def State.perform [DecidableEq τ] [DecidableEq β] (n : Nat) (x : State τ β)
    (c : Cpu) (instructions : List (Instruction τ β)) : State τ β :=
  instructions.foldl (fun x instruction => x.exec n c instruction) x

theorem perform_append [DecidableEq τ] [DecidableEq β] {x : State τ β}
    (before after : List (Instruction τ β)) :
    x.perform n c (before ++ after) =
      (x.perform n c before).perform n c after :=
  List.foldl_append

theorem run_program [DecidableEq τ] [DecidableEq β] {x : State τ β}
    (hc : c.val < n) (hguard : x.guard = some c)
    (instructions : List (Instruction τ β)) :
    Runs.run (State.step n) { x with todo := instructions }
      (List.replicate instructions.length (.run c)) =
        some { x.perform n c instructions with todo := [] } := by
  induction instructions generalizing x with
  | nil => rfl
  | cons instruction rest ih =>
      have hstep : State.step n { x with todo := instruction :: rest }
          (.run c) = some { x.exec n c instruction with todo := rest } := by
        refine (if_pos ⟨hc, hguard⟩).trans ?_
        cases instruction <;> rfl
      have hguard' : (x.exec n c instruction).guard = some c := by
        rw [← hguard]
        cases instruction <;> rfl
      rw [List.length_cons, List.replicate_succ, Runs.run, hstep]
      exact ih hguard'

def worker (machine : Machine) (t : Address) : Option Address :=
  if machine.Idle t then none else some t

/-- The ready list and the threads that are executed are the same. -/
structure Shows (machine : Machine) (a : Scheduler.State Lists)
    (x : State Address Bell) : Prop where
  ready : x.readyList = a.threads .readyList
  active : ∀ c, x.active c = (a.life c).bind (worker machine)

theorem perform_ready (woken : List Address) :
    (x.perform n c (woken.flatMap Idle.ready)).readyList =
        x.readyList ++ woken ∧
      (x.perform n c (woken.flatMap Idle.ready)).active = x.active := by
  induction woken generalizing x with
  | nil => exact ⟨(List.append_nil _).symm, rfl⟩
  | cons t rest ih =>
      obtain ⟨hready, hactive⟩ :=
        ih (x := (x.exec n c (.enqueue t)).exec n c .sendCustomIPI)
      exact ⟨hready.trans (List.append_assoc ..), hactive⟩

theorem perform_check (rung : List (Bell × List Address)) :
    (x.perform n c (Idle.check rung)).readyList =
        x.readyList ++ rung.flatMap (·.2) ∧
      (x.perform n c (Idle.check rung)).active = x.active := by
  induction rung generalizing x with
  | nil => exact ⟨(List.append_nil _).symm, rfl⟩
  | cons first rest ih =>
      obtain ⟨bell, waiting⟩ := first
      have hprogram : Idle.check ((bell, waiting) :: rest) =
          waiting.flatMap Idle.ready ++ (.cancel bell :: Idle.check rest) := by
        simp [Idle.check]
      obtain ⟨hwoken, hsame⟩ := perform_ready (x := x) (n := n) (c := c) waiting
      obtain ⟨hready, hactive⟩ := ih (x := (x.perform n c
        (waiting.flatMap Idle.ready)).exec n c (.cancel bell))
      rw [hprogram, perform_append]
      refine ⟨hready.trans ?_, hactive.trans hsame⟩
      change (x.perform n c (waiting.flatMap Idle.ready)).readyList ++ _ = _
      rw [hwoken, List.flatMap_cons, List.append_assoc]

namespace Shows

theorem congr (hshows : Shows machine a x)
    (hready : a'.threads .readyList = a.threads .readyList)
    (hlife : a'.life = a.life) : Shows machine a' x :=
  ⟨hshows.ready.trans hready.symm, fun c => by rw [hlife, hshows.active]⟩

theorem wakes {x' : State Address Bell} {woken : List Address}
    (hshows : Shows machine a x) (hwakes : Wakes a a' woken)
    (hperformed : x'.readyList = x.readyList ++ woken ∧ x'.active = x.active) :
    Shows machine a' x' := by
  constructor
  · rw [hperformed.1, hshows.ready, hwakes.ready]
  · rw [hperformed.2, hwakes.life]
    exact hshows.active

theorem switches (hshows : Shows machine a x)
    (hqueued : ∀ t ∈ a.threads .readyList, ¬ machine.Idle t)
    (hswitches : Switches machine cpu a a') :
    Shows machine a' (x.exec n cpu .dispatchNext) := by
  have hnext : x.readyList.tail = (a.threads .readyList).erase
        (a.next machine cpu) ∧
      x.readyList.head? = worker machine (a.next machine cpu) := by
    rw [hshows.ready]
    rcases Scheduler.State.next_cases machine a cpu with
      ⟨hnil, hidle⟩ | ⟨rest, hcons⟩
    · have hworker : worker machine (a.next machine cpu) = none := by
        rw [hidle]
        exact if_pos ⟨cpu, rfl⟩
      simp [hnil, hworker]
    · have hworker : worker machine (a.next machine cpu) =
          some (a.next machine cpu) :=
        if_neg (hqueued _ (by simp [hcons]))
      rw [hworker, hcons]
      simp
  constructor
  · rw [hswitches.ready]
    exact hnext.1
  · intro d
    change Function.update x.active cpu x.readyList.head? d = _
    rw [hswitches.life, hnext.2]
    by_cases hd : d = cpu
    · simp [hd]
    · simp [hd, hshows.active d]

theorem readied (hshows : Shows machine a x)
    (hready : a'.threads .readyList = a.threads .readyList ++ [t])
    (hlife : a'.life = a.life) :
    Shows machine a' (x.perform n c (Idle.ready t)) := by
  constructor
  · rw [hready, ← hshows.ready]
    rfl
  · rw [hlife]
    exact hshows.active

theorem active_iff (hshows : Shows machine a x) (hidle : ¬ machine.Idle t) :
    x.active c = some t ↔ a.life c = some t := by
  rw [hshows.active]
  cases a.life c with
  | none => simp
  | some u =>
      by_cases hu : machine.Idle u
      · have hne : u ≠ t := by
          rintro rfl
          exact hidle hu
        simp [worker, hu, hne]
      · simp [worker, hu]

end Shows

/-- The program that stands for an operation of the scheduler. -/
def Serves (x : State Address Bell) (cpu : Cpu) :
    Scheduler.Event → List (Instruction Address Bell) → Prop
  | .schedule, program => program = Idle.resume none none
  | .ready that, program => program = x.program cpu (.ready that)
  | .exit, program => ∃ woken, program = x.program cpu (.exit woken)
  | .kill that, program => ∃ woken, program = x.program cpu (.kill that woken)
  | .resume, program => ∃ dying, program = x.program cpu (.resume dying)
  | .block _, program => program = x.program cpu .block
  | .wakeup customer, program => program = x.program cpu (.ready customer)
  | .p _, program => program = [] ∨ program = x.program cpu .block
  | .v _, program => program = [] ∨ ∃ t, program = x.program cpu (.ready t)
  | .ring _, program => ∃ woken, program = List.flatMap Idle.ready woken
  | .lock _, program => program = [] ∨ program = x.program cpu .block
  | .unlock _, program =>
      program = [] ∨ ∃ t, program = x.program cpu (.ready t)
  | .sleep _ _, program =>
      program = [] ∨ ∃ bell, program = x.program cpu (.sleep bell)
  | .check, program => ∃ rung, program = Idle.check rung
  | .assassin _, program =>
      program = [] ∨ ∃ woken, program = x.program cpu (.exit woken)
  | .dropAssassins _, program => program = []

/-! ### The operations -/

theorem destroy_dispatches (hshows : Shows machine a x)
    (hqueued : ∀ i, ∀ t ∈ a.threads i, ¬ machine.Idle t)
    (hdone : (a.destroy t >>= fun s => s.dispatchNext machine cpu) = .ok a') :
    ∃ woken, Shows machine a'
      (x.perform n cpu (Idle.destroy woken ++ [.dispatchNext])) := by
  obtain ⟨middle, hdestroy, hdispatch⟩ := bind_eq_ok.mp hdone
  obtain ⟨woken, hwakes⟩ := Scheduler.destroy_wakes hdestroy
  refine ⟨woken, ?_⟩
  rw [perform_append]
  refine (hshows.wakes hwakes (perform_ready woken)).switches (n := n)
    (fun u hu => ?_) (Scheduler.dispatchNext_switches hdispatch)
  obtain ⟨j, hj⟩ := hwakes.queued _ u hu
  exact hqueued j u hj

theorem exit_serves (hshows : Shows machine a x)
    (hqueued : ∀ i, ∀ t ∈ a.threads i, ¬ machine.Idle t)
    (hdone : a.exit machine cpu = .ok a') :
    ∃ woken, Shows machine a'
      (x.perform n cpu (x.program cpu (.exit woken))) := by
  obtain ⟨t, -, hdone⟩ := bind_eq_ok.mp hdone
  exact destroy_dispatches hshows hqueued hdone

theorem kill_serves (hplaced : Scheduler.Placed machine a a.life place)
    (hshows : Shows machine a x) (hdestroyed : a.destroyed t = false)
    (hidle : ¬ machine.Idle t)
    (hqueued : ∀ i, ∀ t ∈ a.threads i, ¬ machine.Idle t)
    (hdone : a.exec machine cpu (.kill t) = .ok a') :
    ∃ woken, Shows machine a'
      (x.perform n cpu (x.program cpu (.kill t woken))) := by
  change (a.marked t).kill machine cpu t = .ok a' at hdone
  unfold Scheduler.State.kill at hdone
  by_cases hready : t ∈ a.threads .readyList
  · rw [Scheduler.remove_of_mem (s := a.marked t) hready, ok_bind] at hdone
    obtain ⟨woken, hwakes⟩ := Scheduler.destroy_wakes hdone
    have hprogram : x.program cpu (.kill t woken) =
        .remove t :: Idle.destroy woken := if_pos (hshows.ready ▸ hready)
    have hremoved : Shows machine ((a.marked t).pulled .readyList t)
        (x.exec n cpu (.remove t)) := by
      refine ⟨?_, hshows.active⟩
      change x.readyList.erase t = _
      rw [hshows.ready]
      simp [Scheduler.State.pulled, Scheduler.State.marked,
        Scheduler.Lists.erase]
    refine ⟨woken, ?_⟩
    rw [hprogram]
    exact hremoved.wakes hwakes (perform_ready woken)
  · have hprogram : ∀ woken, x.program cpu (.kill t woken) =
        if x.active cpu = some t then Idle.destroy woken ++ [.dispatchNext]
        else Idle.destroy woken :=
      fun woken => if_neg (hshows.ready ▸ hready)
    rw [Scheduler.remove_of_not_mem (s := a.marked t) hready, ok_bind] at hdone
    simp only [Option.isSome_none, Bool.false_eq_true, if_false] at hdone
    cases hwaiting : (a.marked t).waitingIn t with
    | some w =>
        rw [hwaiting] at hdone
        have hplace := hplaced.waits hwaiting hdestroyed
        have hactive : x.active cpu ≠ some t := by
          rw [Ne, hshows.active_iff hidle, hplaced.running, hplace]
          simp
        obtain ⟨woken, hwakes⟩ := Scheduler.destroy_wakes hdone
        refine ⟨woken, ?_⟩
        rw [hprogram, if_neg hactive]
        have hpulled : Shows machine ((a.marked t).pulled (.room w) t) x :=
          hshows.congr (by simp [Scheduler.State.pulled,
            Scheduler.State.marked, Scheduler.Lists.erase]) rfl
        exact hpulled.wakes hwakes (perform_ready woken)
    | none =>
        rw [hwaiting] at hdone
        dsimp only at hdone
        split at hdone
        · next hexecuting =>
          have hactive : x.active cpu ≠ some t := by
            rw [Ne, hshows.active_iff hidle]
            exact Scheduler.State.executing_none hexecuting cpu
          cases hdone
          refine ⟨[], ?_⟩
          rw [hprogram, if_neg hactive]
          exact hshows.congr rfl rfl
        · next dest hexecuting =>
          have hlife : a.life dest = some t :=
            Scheduler.State.executing_some hexecuting
          split at hdone
          · next hself =>
            subst hself
            obtain ⟨woken, hdone⟩ := destroy_dispatches (n := n)
              (a := (a.marked t).flagged t) (hshows.congr rfl rfl) hqueued
              hdone
            refine ⟨woken, ?_⟩
            rwa [hprogram, if_pos ((hshows.active_iff hidle).mpr hlife)]
          · next hother =>
            have hactive : x.active cpu ≠ some t := by
              rw [Ne, hshows.active_iff hidle, hplaced.running]
              rw [hplaced.running] at hlife
              intro hhere
              exact hother (Scheduler.Location.cpu.inj (hlife.symm.trans hhere))
            cases hdone
            refine ⟨[], ?_⟩
            rw [hprogram, if_neg hactive]
            exact hshows.congr rfl rfl

theorem resume_serves (hplaced : Scheduler.Placed machine a a.life place)
    (hshows : Shows machine a x)
    (hqueued : ∀ i, ∀ t ∈ a.threads i, ¬ machine.Idle t)
    (hdone : a.resume machine cpu = .ok a') :
    ∃ dying, Shows machine a'
      (x.perform n cpu (x.program cpu (.resume dying))) := by
  obtain ⟨prev, hprev, hdone⟩ := bind_eq_ok.mp hdone
  have hlife : a.life cpu = some prev := deref_eq_ok.mp hprev
  unfold Scheduler.State.putBack at hdone
  split at hdone
  · next hkilled =>
    have hidle := hplaced.not_idle_of_killed hkilled
    obtain ⟨woken, hdone⟩ := destroy_dispatches (n := n) hshows hqueued hdone
    refine ⟨some woken, ?_⟩
    unfold State.program
    rwa [(hshows.active_iff hidle).mpr hlife]
  · split at hdone
    · next hother =>
      have hidle : ¬ machine.Idle prev :=
        fun hidle => hother (hplaced.idle_running hlife hidle)
      obtain ⟨parked, hparked, hdone⟩ := bind_eq_ok.mp hdone
      obtain rfl := Scheduler.State.ready_done hparked
      have hentered : Shows machine (a.parked prev)
          (x.exec n cpu (.enqueue prev)) := by
        refine ⟨?_, hshows.active⟩
        change x.readyList ++ [prev] = _
        rw [hshows.ready]
        simp [Scheduler.State.parked, Scheduler.Lists.append]
      refine ⟨none, ?_⟩
      unfold State.program
      rw [(hshows.active_iff hidle).mpr hlife]
      refine hentered.switches (n := n) (fun u hu => ?_)
        (Scheduler.dispatchNext_switches hdone)
      rw [← hentered.ready] at hu
      rcases List.mem_append.mp hu with hbefore | hnew
      · exact hqueued _ u (hshows.ready ▸ hbefore)
      · rwa [List.mem_singleton.mp hnew]
    · next hsame =>
      have hactive : x.active cpu = none := by
        rw [hshows.active, hlife]
        exact if_pos ⟨cpu, (not_not.mp hsame).symm⟩
      refine ⟨none, ?_⟩
      unfold State.program
      rw [hactive]
      exact hshows.switches (n := n) (hqueued _)
        (Scheduler.dispatchNext_switches hdone)

theorem block_serves (hshows : Shows machine a x)
    (hqueued : ∀ i, ∀ t ∈ a.threads i, ¬ machine.Idle t)
    (hdone : a.block machine cpu w = .ok a') :
    Shows machine a' (x.exec n cpu .dispatchNext) := by
  obtain ⟨t, -, hdone⟩ := bind_eq_ok.mp hdone
  obtain ⟨threads, henqueue, hdone⟩ := bind_eq_ok.mp hdone
  obtain rfl := Scheduler.enqueue_done henqueue
  have hready : (a.blocked t w).threads .readyList = a.threads .readyList := by
    simp [Scheduler.State.blocked, Scheduler.Lists.append]
  refine Shows.switches (a := a.blocked t w) (hshows.congr hready rfl) ?_
    (Scheduler.dispatchNext_switches hdone)
  intro u hu
  exact hqueued .readyList u (hready ▸ hu)

theorem p_serves (hshows : Shows machine a x)
    (hqueued : ∀ i, ∀ t ∈ a.threads i, ¬ machine.Idle t)
    (hdone : a.p machine cpu w = .ok (granted, a')) :
    ∃ program, (program = [] ∨ program = x.program cpu .block) ∧
      Shows machine a' (x.perform n cpu program) := by
  unfold Scheduler.State.p at hdone
  split at hdone
  · cases hdone
    exact ⟨[], Or.inl rfl, hshows.congr rfl rfl⟩
  · obtain ⟨blocked, hblock, heq⟩ := bind_eq_ok.mp hdone
    cases heq
    exact ⟨_, Or.inr rfl, block_serves (n := n) hshows hqueued hblock⟩

theorem lock_serves (hshows : Shows machine a x)
    (hqueued : ∀ i, ∀ t ∈ a.threads i, ¬ machine.Idle t)
    (hdone : a.lock machine cpu m = .ok a') :
    ∃ program, (program = [] ∨ program = x.program cpu .block) ∧
      Shows machine a' (x.perform n cpu program) := by
  obtain ⟨⟨granted, middle⟩, hp, hdone⟩ := bind_eq_ok.mp hdone
  obtain ⟨program, hprogram, hmiddle⟩ := p_serves (n := n) hshows hqueued hp
  refine ⟨program, hprogram, ?_⟩
  dsimp only at hdone
  split at hdone
  · obtain ⟨hthreads, hlife⟩ := Scheduler.takeOwnership_keeps hdone
    exact hmiddle.congr (by rw [hthreads]) hlife
  · cases hdone
    exact hmiddle

theorem v_serves {woken : Option Address} (hshows : Shows machine a x)
    (hwakes : Wakes a a' woken.toList) :
    ∃ program, (program = [] ∨ ∃ t, program = x.program cpu (.ready t)) ∧
      Shows machine a' (x.perform n cpu program) := by
  refine ⟨woken.toList.flatMap Idle.ready, ?_,
    hshows.wakes hwakes (perform_ready _)⟩
  cases woken with
  | none => exact Or.inl rfl
  | some t => exact Or.inr ⟨t, rfl⟩

theorem sleep_serves (hshows : Shows machine a x)
    (hqueued : ∀ i, ∀ t ∈ a.threads i, ¬ machine.Idle t)
    (hdone : a.sleep machine cpu ms frame = .ok a') :
    ∃ program, (program = [] ∨
        ∃ bell, program = x.program cpu (.sleep bell)) ∧
      Shows machine a' (x.perform n cpu program) := by
  unfold Scheduler.State.sleep at hdone
  split at hdone
  · cases hdone
    exact ⟨[], Or.inl rfl, hshows⟩
  · obtain ⟨t, -, hdone⟩ := bind_eq_ok.mp hdone
    obtain ⟨listed, hjob, hblock⟩ := bind_eq_ok.mp hdone
    change (a.prepared ⟨t, frame⟩).job ⟨t, frame⟩ ms = .ok listed at hjob
    obtain ⟨bells, times, rfl⟩ := Scheduler.State.job_frame hjob
    have hprepared : Shows machine
        { a.prepared ⟨t, frame⟩ with bells, ms := times }
        (x.exec n cpu (.job ⟨t, frame⟩)) :=
      ⟨hshows.ready.trans (by simp [Scheduler.State.prepared]),
        hshows.active⟩
    have hqueued' : ∀ i, ∀ u ∈ (a.prepared ⟨t, frame⟩).threads i,
        ¬ machine.Idle u := by
      intro i u hu
      refine hqueued i u ?_
      by_cases hi : i = .room (.bell ⟨t, frame⟩)
      · simp [Scheduler.State.prepared, hi] at hu
      · simpa [Scheduler.State.prepared, hi] using hu
    exact ⟨_, Or.inr ⟨⟨t, frame⟩, rfl⟩, block_serves (n := n) hprepared
      (a := { a.prepared ⟨t, frame⟩ with bells, ms := times }) hqueued'
      hblock⟩

theorem assassin_serves (hshows : Shows machine a x)
    (hqueued : ∀ i, ∀ t ∈ a.threads i, ¬ machine.Idle t)
    (hdone : a.assassinEpilogue machine cpu served = .ok a') :
    ∃ program, (program = [] ∨
        ∃ woken, program = x.program cpu (.exit woken)) ∧
      Shows machine a' (x.perform n cpu program) := by
  obtain ⟨active, -, hdone⟩ := bind_eq_ok.mp hdone
  dsimp only at hdone
  split at hdone
  · obtain ⟨woken, hdone⟩ := exit_serves (n := n) (a := a.served cpu served)
      (hshows.congr rfl rfl) hqueued hdone
    exact ⟨_, Or.inr ⟨woken, rfl⟩, hdone⟩
  · cases hdone
    exact ⟨[], Or.inl rfl, hshows.congr rfl rfl⟩

/-- Every operation of the scheduler has a program, which does the same. -/
theorem exec_serves {event : Scheduler.Event}
    (hplaced : Scheduler.Placed machine a a.life place)
    (henabled : a.Enabled machine cpu event)
    (hdone : a.exec machine cpu event = .ok a') (hshows : Shows machine a x) :
    ∃ program, Serves x cpu event program ∧
      Shows machine a' (x.perform n cpu program) := by
  have hqueued : ∀ i, ∀ t ∈ a.threads i, ¬ machine.Idle t := by
    intro i t hmem
    exact (hplaced.readied_of_queue ((hplaced.listed i t).mp hmem)).2
  cases event with
  | schedule =>
      exact ⟨_, rfl, hshows.switches (n := n) (hqueued _)
        (Scheduler.schedule_switches hdone)⟩
  | ready that =>
      obtain rfl := Scheduler.State.ready_done hdone
      exact ⟨_, rfl, hshows.readied (by simp [Scheduler.State.parked,
        Scheduler.Lists.append]) rfl⟩
  | exit =>
      obtain ⟨woken, hdone⟩ := exit_serves hshows hqueued hdone
      exact ⟨_, ⟨woken, rfl⟩, hdone⟩
  | kill that =>
      obtain ⟨woken, hdone⟩ := kill_serves hplaced hshows henabled.1
        henabled.2 hqueued hdone
      exact ⟨_, ⟨woken, rfl⟩, hdone⟩
  | resume =>
      obtain ⟨dying, hdone⟩ := resume_serves hplaced hshows hqueued hdone
      exact ⟨_, ⟨dying, rfl⟩, hdone⟩
  | block w => exact ⟨_, rfl, block_serves (n := n) hshows hqueued hdone⟩
  | wakeup customer =>
      obtain ⟨w, rfl⟩ := Scheduler.State.wakeup_done hdone
      exact ⟨_, rfl, hshows.readied (by simp [Scheduler.State.woken,
        Scheduler.Lists.append, Scheduler.Lists.erase]) rfl⟩
  | p semaphore =>
      obtain ⟨⟨granted, a''⟩, hp, heq⟩ := bind_eq_ok.mp hdone
      cases heq
      exact p_serves hshows hqueued hp
  | v semaphore =>
      obtain ⟨woken, hwakes⟩ := Scheduler.v_wakes hdone
      exact v_serves hshows hwakes
  | ring b =>
      obtain ⟨-, -, hring⟩ := bind_eq_ok.mp hdone
      obtain ⟨woken, hwakes⟩ := Scheduler.ringFrom_wakes hring
      exact ⟨_, ⟨woken, rfl⟩, hshows.wakes hwakes (perform_ready woken)⟩
  | lock m => exact lock_serves hshows hqueued hdone
  | unlock m =>
      obtain ⟨⟨released, a''⟩, hunlock, heq⟩ := bind_eq_ok.mp hdone
      cases heq
      obtain ⟨woken, hwakes⟩ := Scheduler.unlock_wakes hunlock
      exact v_serves hshows hwakes
  | sleep ms frame => exact sleep_serves hshows hqueued hdone
  | check =>
      obtain ⟨rung, hwakes⟩ := Scheduler.check_wakes hdone
      exact ⟨_, ⟨rung, rfl⟩, hshows.wakes hwakes (perform_check rung)⟩
  | assassin served => exact assassin_serves hshows hqueued hdone
  | dropAssassins count =>
      cases hdone
      exact ⟨[], rfl, hshows.congr rfl rfl⟩

/-- Whenever an operation of the scheduler is executed, a processor that has the
program of the operation before it comes to the same ready list and the same
threads, access by access. -/
theorem step_serves {s s' : Scheduler.State Scheduler.Pointers}
    {event : Scheduler.Event} (hreach : Scheduler.Reachable machine s)
    (hstep : s.step machine (cpu, event) = some s') (hcpu : cpu.val < n) :
    ∃ a a', Scheduler.Represents s a ∧ Scheduler.Represents s' a' ∧
      ∀ x, Shows machine a x → x.guard = some cpu →
        ∃ program x', Serves x cpu event program ∧ Shows machine a' x' ∧
          Runs.run (State.step n) { x with todo := program }
            (List.replicate program.length (.run cpu)) = some x' := by
  obtain ⟨a, hrep, hconsistent⟩ := hreach.represents
  obtain ⟨a', hrep', henabled, hdone⟩ :=
    Scheduler.step_exec hrep hconsistent hstep
  obtain ⟨place, -, hplaced, -⟩ := hconsistent
  refine ⟨a, a', hrep, hrep', fun x hshows hguard => ?_⟩
  obtain ⟨program, hserves, hshows'⟩ :=
    exec_serves (n := n) hplaced henabled hdone hshows
  exact ⟨program, { x.perform n cpu program with todo := [] }, hserves,
    ⟨hshows'.ready, hshows'.active⟩, run_program hcpu hguard program⟩

end X86Os32.Idle
