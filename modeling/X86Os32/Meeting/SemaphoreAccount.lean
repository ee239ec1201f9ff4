import X86Os32.Library.CountingSemaphore
import X86Os32.Thread.Invariants

namespace X86Os32.Scheduler

open Library

/-! The tokens of a semaphore, `meeting/semaphore.cc`, over runs of the
scheduler. -/

variable {machine : Machine} {cpu : Cpu} {t : Address}

namespace State

section Actions

variable {σ : Type} [ThreadQueues σ] (s : State σ) (semaphore : Address)
  (cpu : Cpu)

/-- A thread that waits for the semaphore stops waiting without a token. -/
def abandons (t : Address) : Option (CountingSemaphore.Action Address) :=
  if s.waitingIn t = some (.semaphore semaphore) then some (.leave t) else none

def semaphoreAction : Event → Option (CountingSemaphore.Action Address)
  | .p a =>
      if a = semaphore then
        if s.counter (.semaphore semaphore) > 0 then some .grant
        else (s.life cpu).map .block
      else none
  | .v a =>
      if a = semaphore then
        match ThreadQueues.first s.threads (.room (.semaphore semaphore)) with
        | none => some .release
        | some t => some (.hand t)
      else none
  | .kill that => s.abandons semaphore that
  | .wakeup customer => s.abandons semaphore customer
  | _ => none

variable {s semaphore cpu} {a : Address}

theorem semaphoreAction_grant (hopen : s.counter (.semaphore a) > 0) :
    s.semaphoreAction a cpu (.p a) = some .grant :=
  (if_pos rfl).trans (if_pos hopen)

theorem semaphoreAction_block (hclosed : s.counter (.semaphore a) ≤ 0)
    (hlife : s.life cpu = some t) :
    s.semaphoreAction a cpu (.p a) = some (.block t) := by
  refine (if_pos rfl).trans ((if_neg (not_lt.mpr hclosed)).trans ?_)
  rw [hlife]
  rfl

theorem semaphoreAction_p_ne (hne : a ≠ semaphore) :
    s.semaphoreAction semaphore cpu (.p a) = none := if_neg hne

theorem semaphoreAction_v_ne (hne : a ≠ semaphore) :
    s.semaphoreAction semaphore cpu (.v a) = none := if_neg hne

theorem semaphoreAction_release
    (hfirst : ThreadQueues.first s.threads (.room (.semaphore a)) = none) :
    s.semaphoreAction a cpu (.v a) = some .release := by
  refine (if_pos rfl).trans ?_
  rw [hfirst]

theorem semaphoreAction_hand
    (hfirst : ThreadQueues.first s.threads (.room (.semaphore a)) = some t) :
    s.semaphoreAction a cpu (.v a) = some (.hand t) := by
  refine (if_pos rfl).trans ?_
  rw [hfirst]

theorem release_of_semaphoreAction {event : Event}
    (hrelease : s.semaphoreAction semaphore cpu event = some .release) :
    event = .v semaphore ∧
      ThreadQueues.first s.threads (.room (.semaphore semaphore)) = none := by
  cases event with
  | v a =>
      by_cases ha : a = semaphore
      · subst ha
        refine ⟨rfl, ?_⟩
        cases hfirst : ThreadQueues.first s.threads (.room (.semaphore a)) with
        | none => rfl
        | some t =>
            rw [semaphoreAction_hand hfirst] at hrelease
            cases hrelease
      · rw [semaphoreAction_v_ne ha] at hrelease
        cases hrelease
  | p a =>
      by_cases ha : a = semaphore
      · subst ha
        by_cases hopen : s.counter (.semaphore a) > 0
        · rw [semaphoreAction_grant hopen] at hrelease
          cases hrelease
        · have haction : s.semaphoreAction a cpu (.p a) = (s.life cpu).map .block :=
            (if_pos rfl).trans (if_neg hopen)
          rw [haction] at hrelease
          obtain ⟨t, -, hblock⟩ := Option.map_eq_some_iff.mp hrelease
          cases hblock
      · rw [semaphoreAction_p_ne ha] at hrelease
        cases hrelease
  | kill that =>
      change s.abandons semaphore that = _ at hrelease
      unfold abandons at hrelease
      split at hrelease <;> cases hrelease
  | wakeup customer =>
      change s.abandons semaphore customer = _ at hrelease
      unfold abandons at hrelease
      split at hrelease <;> cases hrelease
  | _ => cases hrelease

end Actions

def semaphore (s : State Lists) (a : Address) : CountingSemaphore Address where
  counter := s.counter (.semaphore a)
  waiting := s.threads (.room (.semaphore a))

end State

/-- `block` is called for a semaphore by `p` only. -/
def OnlyPBlocks (semaphore : Address) : Cpu × Event → Prop
  | (_, .block w) => w ≠ .semaphore semaphore
  | _ => True

instance (semaphore : Address) : DecidablePred (OnlyPBlocks semaphore)
  | (_, .block _) => inferInstanceAs (Decidable (_ ≠ _))
  | (_, .schedule) | (_, .ready _) | (_, .exit) | (_, .kill _) | (_, .resume) |
    (_, .wakeup _) | (_, .p _) | (_, .v _) | (_, .ring _) | (_, .lock _) |
    (_, .unlock _) | (_, .sleep _ _) | (_, .check) | (_, .assassin _) |
    (_, .dropAssassins _) =>
      inferInstanceAs (Decidable True)

section Moves

variable {s s' : State Lists} {a m : Address} {w : Room}

namespace State

theorem semaphore_congr
    (hcounter : s'.counter (.semaphore a) = s.counter (.semaphore a))
    (hroom : s'.threads (.room (.semaphore a)) =
      s.threads (.room (.semaphore a))) : s'.semaphore a = s.semaphore a := by
  simp [semaphore, hcounter, hroom]

theorem woken_semaphore (hne : w ≠ .semaphore a) :
    (s.woken w t).semaphore a = s.semaphore a :=
  semaphore_congr rfl (by simp [woken, Lists.append, Lists.erase, Ne.symm hne])

theorem released_semaphore (hne : w ≠ .semaphore a) :
    (s.released w).semaphore a = s.semaphore a := by
  unfold released
  split
  · exact semaphore_congr (by simp [setCounter, Ne.symm hne]) rfl
  · exact woken_semaphore hne

theorem unlocked_semaphore (mutexes : Queues Address Address) :
    (s.unlocked m t mutexes).semaphore a = s.semaphore a := by
  have hsame : (s.disowned m t mutexes).semaphore a = s.semaphore a := rfl
  exact (released_semaphore (by simp)).trans hsame

theorem rung_semaphore (b : Bell) :
    (s.rung b).semaphore a = s.semaphore a := by
  unfold rung
  split
  · rfl
  · exact woken_semaphore (by simp)

theorem dispatched_semaphore :
    (s.dispatched machine cpu).semaphore a = s.semaphore a := by
  refine semaphore_congr ?_ ?_
  · unfold dispatched continued
    dsimp only
    split <;> rfl
  · unfold dispatched
    rw [continued_threads]
    simp [Lists.erase]

theorem released_step :
    CountingSemaphore.Advance (s.semaphore a)
      (s.semaphoreAction a cpu (.v a))
      ((s.released (.semaphore a)).semaphore a) := by
  have hfirst : ThreadQueues.first s.threads (.room (.semaphore a)) =
      (s.threads (.room (.semaphore a))).head? := rfl
  unfold released
  cases hroom : s.threads (.room (.semaphore a)) with
  | nil =>
      rw [hroom] at hfirst
      rw [semaphoreAction_release hfirst]
      have hstep := CountingSemaphore.Step.release (τ := Address)
        (n := s.counter (.semaphore a))
      simpa [semaphore, setCounter, hroom] using hstep
  | cons t rest =>
      rw [hroom] at hfirst
      rw [semaphoreAction_hand hfirst]
      have hstep : CountingSemaphore.Step
          ⟨s.counter (.semaphore a), t :: rest⟩ (.hand t)
          ⟨s.counter (.semaphore a), rest⟩ := .hand
      simpa [semaphore, woken, Lists.append, Lists.erase, hroom] using hstep

theorem pulled_step {i : QueueId} {place : Address → Location}
    (hplaced : Placed machine s s.life place) (hmem : t ∈ s.threads i) :
    CountingSemaphore.Advance (s.semaphore a) (s.abandons a t)
      ((s.pulled i t).semaphore a) := by
  unfold abandons
  by_cases hi : i = .room (.semaphore a)
  · subst hi
    rw [if_pos (hplaced.waitingIn_eq hmem)]
    have hstep : CountingSemaphore.Step (s.semaphore a) (.leave t)
        ⟨s.counter (.semaphore a),
          (s.threads (.room (.semaphore a))).erase t⟩ := .leave
    simpa [semaphore, pulled, Lists.erase] using hstep
  · have hnot : s.waitingIn t ≠ some (.semaphore a) := by
      intro hwaiting
      have hplace := (hplaced.listed _ t).mp hmem
      have hdestroyed := hplaced.not_destroyed
        (by simp [hplace] : place t ≠ _)
      have hplace' := hplaced.waits hwaiting hdestroyed
      exact hi (Location.queue.inj (hplace.symm.trans hplace'))
    rw [if_neg hnot]
    exact semaphore_congr rfl (by simp [pulled, Lists.erase, Ne.symm hi])

theorem absent_step (hlists : ∀ i, t ∉ s.threads i) :
    CountingSemaphore.Advance (s.semaphore a) (s.abandons a t)
      (s.semaphore a) := by
  unfold abandons
  split
  · exact CountingSemaphore.Step.leave_absent (hlists _)
  · rfl

end State

theorem Follow.semaphore {cfg cfg' : Config}
    (hfollow : Follow machine cpu cfg cfg') (a : Address) :
    cfg'.state.semaphore a = cfg.state.semaphore a := by
  cases hfollow with
  | retire => rfl
  | unlock => exact State.unlocked_semaphore _
  | finish => rfl
  | expire hfirst hlive hcancel =>
      obtain ⟨bells, ms, rfl⟩ := State.cancel_frame hcancel
      exact State.rung_semaphore _
  | dispatch => exact State.dispatched_semaphore

theorem Entry.semaphore {event : Event} {cfg : Config}
    (hentry : Entry machine cpu s event cfg)
    (hconsistent : s.settled.Consistent machine)
    (hallowed : OnlyPBlocks a (cpu, event)) :
    CountingSemaphore.Advance (s.semaphore a) (s.semaphoreAction a cpu event)
      (cfg.state.semaphore a) := by
  obtain ⟨place, held, hplaced, -⟩ := hconsistent
  change Placed machine s s.life place at hplaced
  cases hentry with
  | start hstart =>
      cases event <;> first | exact hstart.elim | rfl
  | ready => exact State.semaphore_congr rfl (by
      simp [State.admitted, Lists.append])
  | pull hmem => exact State.pulled_step hplaced hmem
  | flag hidle hlists => exact State.absent_step hlists
  | send hidle hlife => exact State.absent_step (hplaced.runs hlife).2.2.2.2
  | self hidle hlife => exact State.absent_step (hplaced.runs hlife).2.2.2.2
  | park => exact State.semaphore_congr rfl (by
      simp [State.parked, Lists.append])
  | idle => rfl
  | @block t _ w hidle hlife hblocks =>
      have hother : w ≠ .semaphore a →
          (s.blocked t w).semaphore a = s.semaphore a := fun hne =>
        State.semaphore_congr rfl (by
          simp [State.blocked, Lists.append, Ne.symm hne])
      cases event with
      | block w' =>
          obtain ⟨rfl, -⟩ := hblocks
          exact hother hallowed
      | p a' =>
          obtain ⟨rfl, hcounter⟩ := hblocks
          by_cases ha : a' = a
          · subst ha
            have hstep := CountingSemaphore.Step.block hcounter
              ((hplaced.runs hlife).2.2.2.2 (.room (.semaphore a')))
            rw [State.semaphoreAction_block hcounter hlife]
            simpa [State.blocked, Lists.append, State.semaphore] using hstep
          · rw [State.semaphoreAction_p_ne ha]
            exact hother (by simpa using ha)
      | lock m =>
          obtain ⟨rfl, -⟩ := hblocks
          exact hother (by simp)
      | _ => exact hblocks.elim
  | @count a' hcounter =>
      by_cases ha : a' = a
      · subst ha
        rw [State.semaphoreAction_grant hcounter]
        have hstep : CountingSemaphore.Step (s.semaphore a') .grant
            ⟨s.counter (.semaphore a') - 1,
              s.threads (.room (.semaphore a'))⟩ := .grant hcounter
        simpa [State.setCounter, State.semaphore] using hstep
      · rw [State.semaphoreAction_p_ne ha]
        exact State.semaphore_congr (by simp [State.setCounter, Ne.symm ha]) rfl
  | lock => exact State.semaphore_congr (by
      simp [State.setCounter, State.owned, State.mutexHold]) rfl
  | @v a' =>
      by_cases ha : a' = a
      · subst ha
        exact State.released_step
      · rw [State.semaphoreAction_v_ne ha]
        exact State.released_semaphore (by simpa using ha)
  | unlock => exact State.unlocked_semaphore _
  | @wake w t hmem hmutex =>
      have hstep := State.pulled_step (a := a) hplaced hmem
      have hsame : (s.woken w t).semaphore a =
          (s.pulled (.room w) t).semaphore a :=
        State.semaphore_congr rfl (by
          simp [State.woken, State.pulled, Lists.append])
      change CountingSemaphore.Advance _ _ ((s.woken w t).semaphore a)
      rw [hsame]
      exact hstep
  | ring => exact State.rung_semaphore _
  | @sleep t ms frame s' hidle hlife hms hjob =>
      obtain ⟨bells, times, rfl⟩ := State.job_frame hjob
      exact State.semaphore_congr rfl (by
        simp [State.blocked, State.prepared, Lists.append])
  | tick => rfl
  | serve => rfl
  | execute => rfl
  | drop => rfl

theorem follows_semaphore {cfg cfg' : Config}
    (hfollows : Relation.ReflTransGen (Follow machine cpu) cfg cfg')
    (a : Address) : cfg'.state.semaphore a = cfg.state.semaphore a := by
  induction hfollows with
  | refl => rfl
  | tail _ hfollow ih => exact (hfollow.semaphore a).trans ih

theorem Performs.semaphore {event : Event}
    (hperforms : Performs machine cpu s event s')
    (hconsistent : s.settled.Consistent machine)
    (hallowed : OnlyPBlocks a (cpu, event)) :
    CountingSemaphore.Advance (s.semaphore a) (s.semaphoreAction a cpu event)
      (s'.semaphore a) := by
  obtain ⟨cfg, hentry, hfollows⟩ := hperforms
  have hsame : s'.semaphore a = cfg.state.semaphore a :=
    follows_semaphore hfollows a
  rw [hsame]
  exact hentry.semaphore hconsistent hallowed

/-- The operations of the scheduler on a semaphore do what `p` and `v` do on
it by itself. -/
theorem Performs.p (hperforms : Performs machine cpu s (.p a) s')
    (hconsistent : s.settled.Consistent machine)
    (hlife : s.life cpu = some t) :
    s'.semaphore a = (s.semaphore a).p t := by
  have hadvance := hperforms.semaphore hconsistent (a := a) trivial
  by_cases hopen : s.counter (.semaphore a) > 0
  · rw [State.semaphoreAction_grant hopen] at hadvance
    exact CountingSemaphore.Step.grant_eq hadvance
  · rw [State.semaphoreAction_block (not_lt.mp hopen) hlife] at hadvance
    exact CountingSemaphore.Step.block_eq hadvance

theorem Performs.v (hperforms : Performs machine cpu s (.v a) s')
    (hconsistent : s.settled.Consistent machine) :
    (s.semaphore a).v =
      (ThreadQueues.first s.threads (.room (.semaphore a)),
        s'.semaphore a) := by
  have hadvance := hperforms.semaphore hconsistent (a := a) trivial
  cases hfirst : ThreadQueues.first s.threads (.room (.semaphore a)) with
  | none =>
      rw [State.semaphoreAction_release hfirst] at hadvance
      exact CountingSemaphore.Step.release_eq hadvance
  | some t =>
      rw [State.semaphoreAction_hand hfirst] at hadvance
      exact CountingSemaphore.Step.hand_eq hadvance

end Moves

/-! ### Runs with the account of a semaphore -/

/-- The account is kept beside the scheduler, which does not look at it. -/
structure Audited where
  scheduler : State Pointers
  account : CountingSemaphore.Account Address

namespace Audited

def Initial (semaphore : Address) (value : Int32) (x : Audited) : Prop :=
  ∃ values, values semaphore = value ∧
    x = ⟨initial noThreads values, .empty⟩

def step (machine : Machine) (semaphore : Address) (x : Audited)
    (event : Cpu × Event) : Option Audited :=
  if OnlyPBlocks semaphore event then
    (x.scheduler.step machine event).map fun scheduler =>
      let action := x.scheduler.semaphoreAction semaphore event.1 event.2
      ⟨scheduler, x.account.recordAny action⟩
  else none

/-- `v` does not count beyond the greatest `int`. -/
def Fits (semaphore : Address) (x : Audited) : Cpu × Event → Prop
  | (_, .v a) => a = semaphore →
      x.scheduler.threads.first (.room (.semaphore semaphore)) = none →
      x.scheduler.counter (.semaphore semaphore) ≠ 2147483647
  | _ => True

instance (semaphore : Address) (x : Audited) : DecidablePred (Fits semaphore x)
  | (_, .v _) => inferInstanceAs (Decidable (_ → _ → _))
  | (_, .schedule) | (_, .ready _) | (_, .exit) | (_, .kill _) | (_, .resume) |
    (_, .block _) | (_, .wakeup _) | (_, .p _) | (_, .ring _) | (_, .lock _) |
    (_, .unlock _) | (_, .sleep _ _) | (_, .check) | (_, .assassin _) |
    (_, .dropAssassins _) => inferInstanceAs (Decidable True)

def ReachableBy (machine : Machine) (semaphore : Address) (value : Int32)
    (allowed : Audited → Cpu × Event → Prop) : Audited → Prop :=
  Runs.Reachable (Initial semaphore value) fun x event y =>
    allowed x event ∧ x.step machine semaphore event = some y

variable {x y : Audited} {a : Address} {value : Int32} {lists : State Lists}

theorem step_eq_some {event : Cpu × Event}
    (hstep : x.step machine a event = some y) :
    OnlyPBlocks a event ∧
      x.scheduler.step machine event = some y.scheduler ∧
      y.account = x.account.recordAny
        (x.scheduler.semaphoreAction a event.1 event.2) := by
  unfold step at hstep
  split at hstep
  · next hallowed =>
    obtain ⟨s, hs, rfl⟩ := Option.map_eq_some_iff.mp hstep
    exact ⟨hallowed, hs, rfl⟩
  · cases hstep

theorem semaphoreAction_represents (hrep : Represents x.scheduler lists)
    (event : Event) :
    x.scheduler.semaphoreAction a cpu event =
      lists.semaphoreAction a cpu event := by
  obtain ⟨qs, hholds, hsame⟩ := hrep
  rw [hsame]
  have hfirst : ∀ i, ThreadQueues.first qs i =
      ThreadQueues.first lists.threads i := fun i => first_eq hholds i
  cases event with
  | v a' =>
      simp only [State.semaphoreAction, hfirst]
  | _ => rfl

theorem ReachableBy.balanced (hvalue : 0 ≤ value)
    (hreach : ReachableBy machine a value (Fits a) x) :
    ∃ lists, Represents x.scheduler lists ∧
      lists.settled.Consistent machine ∧
      CountingSemaphore.Balanced value.toInt (lists.semaphore a) x.account := by
  apply Runs.Reachable.invariant hreach
  · rintro x ⟨values, rfl, rfl⟩
    exact ⟨_, represents_initial values, consistent_initial machine values,
      .start (Int32.le_iff_toInt_le.mp hvalue)⟩
  · rintro x ⟨cpu, event⟩ y ⟨lists, hrep, hconsistent, hbalanced⟩
      ⟨hfits, hstep⟩
    obtain ⟨hallowed, hstep, haccount⟩ := step_eq_some hstep
    obtain ⟨lists', hrep', hperforms⟩ := step_performs hrep hconsistent hstep
    refine ⟨lists', hrep', hperforms.consistent hconsistent, ?_⟩
    have hadvance := hperforms.semaphore hconsistent hallowed
    rw [haccount, semaphoreAction_represents hrep]
    refine hbalanced.advance hadvance fun hrelease => ?_
    obtain ⟨rfl, hfirst⟩ := State.release_of_semaphoreAction hrelease
    obtain ⟨qs, hholds, hsame⟩ := hrep
    have hroom : x.scheduler.threads.first (.room (.semaphore a)) = none := by
      rw [hsame]
      exact (first_eq hholds _).trans hfirst
    have hcounter := hfits rfl hroom
    rwa [hsame] at hcounter

theorem hands {t : Address} {rest : List Address}
    (hrep : Represents x.scheduler lists)
    (hconsistent : lists.settled.Consistent machine)
    (hroom : lists.threads (.room (.semaphore a)) = t :: rest)
    (hstep : x.step machine a (cpu, .v a) = some y) :
    (∃ lists', y.scheduler.threads.Holds lists' ∧
      lists' (.room (.semaphore a)) = rest ∧
      lists' .readyList = lists.threads .readyList ++ [t]) ∧
    y.account.granted = x.account.granted + 1 := by
  obtain ⟨-, hstep, haccount⟩ := step_eq_some hstep
  obtain ⟨-, hexec⟩ := State.step_eq_some.mp hstep
  obtain ⟨place, held, hplaced, -⟩ := hconsistent
  change Placed machine lists lists.life place at hplaced
  constructor
  · have hsimulates : Simulates Represents (x.scheduler.exec machine cpu (.v a))
        (lists.exec machine cpu (.v a)) := hrep.exec _
    have hdone : lists.exec machine cpu (.v a) =
        .ok (lists.released (.semaphore a)) := State.v_eq hplaced _
    rw [hexec, hdone] at hsimulates
    obtain ⟨s, hs, qs, hholds, hsame⟩ := hsimulates
    obtain rfl := Except.ok.inj hs
    have hreleased : lists.released (.semaphore a) =
        lists.woken (.semaphore a) t := by
      unfold State.released
      rw [hroom]
    rw [hreleased] at hholds
    refine ⟨(lists.woken (.semaphore a) t).threads, ?_, ?_, ?_⟩
    · rw [hsame]
      exact hholds
    · simp [State.woken, Lists.append, Lists.erase, hroom]
    · simp [State.woken, Lists.append, Lists.erase]
  · have hfirst : ThreadQueues.first lists.threads (.room (.semaphore a)) =
        some t := congrArg List.head? hroom
    rw [haccount, semaphoreAction_represents hrep,
      State.semaphoreAction_hand hfirst]
    rfl

end Audited

/-- While no `v` counts beyond the greatest `int`, the tokens of a semaphore are
conserved, and handed to the threads in the order in which they blocked. -/
theorem semaphore_conserved {value : Int32} {x : Audited} {a : Address}
    (hvalue : 0 ≤ value)
    (hreach : Audited.ReachableBy machine a value (Audited.Fits a) x) :
    0 ≤ x.scheduler.counter (.semaphore a) ∧
    (x.scheduler.threads.first (.room (.semaphore a)) ≠ none →
      x.scheduler.counter (.semaphore a) = 0) ∧
    value.toInt + x.account.released =
      x.scheduler.counter (.semaphore a) + x.account.granted ∧
    ∃ lists, x.scheduler.threads.Holds lists ∧
      (x.account.handed ++ (lists (.room (.semaphore a))).map
        x.account.since).Pairwise (· < ·) ∧
      ∀ cpu t rest y, lists (.room (.semaphore a)) = t :: rest →
        x.step machine a (cpu, .v a) = some y →
        (∃ lists', y.scheduler.threads.Holds lists' ∧
          lists' (.room (.semaphore a)) = rest ∧
          lists' .readyList = lists .readyList ++ [t]) ∧
        y.account.granted = x.account.granted + 1 := by
  obtain ⟨lists, hrep, hconsistent, hbalanced⟩ := hreach.balanced hvalue
  have hboth := hrep
  obtain ⟨qs, hholds, hsame⟩ := hboth
  have hcounter : x.scheduler.counter (.semaphore a) =
      (lists.semaphore a).counter := by
    rw [hsame]
    rfl
  have hthreads : x.scheduler.threads = qs := by rw [hsame]
  rw [hcounter, hthreads]
  refine ⟨hbalanced.nonneg, fun hfirst => hbalanced.closed fun hnil => ?_,
    hbalanced.conserved, lists.threads, hholds, hbalanced.ordered,
    fun cpu t rest y hroom hstep => Audited.hands hrep hconsistent hroom hstep⟩
  have hempty : ThreadQueues.first qs (.room (.semaphore a)) = none :=
    (first_eq hholds _).trans (congrArg List.head? hnil)
  exact hfirst hempty

/-- Three threads wait for a semaphore; the second is killed, and the first
gets the token. -/
theorem semaphore_conserved_kill :
    ∃ x : Audited, x.account.released = 1 ∧ x.account.granted = 1 ∧
      x.account.handed = [0] ∧
      x.scheduler.threads.first (.room (.semaphore 7)) = some 300 ∧
      x.scheduler.threads.first .readyList = some 100 ∧
      x.scheduler.counter (.semaphore 7) = 0 := by
  have hrun : (Runs.run (fun x event => if Audited.Fits 7 x event then
        Audited.step sampleMachine 7 x event else none)
      ⟨initial noThreads fun _ => 0, .empty⟩
      [(0, .ready 100), (0, .ready 200), (0, .ready 300), (0, .schedule),
        (1, .schedule), (2, .schedule), (0, .p 7), (1, .p 7), (2, .p 7),
        (0, .kill 200), (3, .v 7)]).any fun x =>
          x.account.released = 1 ∧ x.account.granted = 1 ∧
            x.account.handed = [0] ∧
            x.scheduler.threads.first (.room (.semaphore 7)) = some 300 ∧
            x.scheduler.threads.first .readyList = some 100 := by
    decide +kernel
  obtain ⟨x, hx, hcheck⟩ := (Option.any_eq_true _ _).mp hrun
  simp only [decide_eq_true_eq] at hcheck
  obtain ⟨hreleased, hgranted, hhanded, hfirst, hready⟩ := hcheck
  have hreach : Audited.ReachableBy sampleMachine 7 0 (Audited.Fits 7) x :=
    Runs.Reachable.run_allowed ⟨fun _ => 0, rfl, rfl⟩ hx
  obtain ⟨-, hclosed, -⟩ := semaphore_conserved (by decide) hreach
  exact ⟨x, hreleased, hgranted, hhanded, hfirst, hready,
    hclosed (by simp [hfirst])⟩

/-- `v` on a semaphore that has the greatest `int` as its counter. -/
theorem semaphore_overflows :
    ¬ ∀ machine (value : Int32) x a, 0 ≤ value →
      Audited.ReachableBy machine a value (fun _ _ => True) x →
      0 ≤ x.scheduler.counter (.semaphore a) ∧
        value.toInt + x.account.released =
          x.scheduler.counter (.semaphore a) + x.account.granted := by
  intro hclaim
  have hrun : (Audited.step sampleMachine 7
      ⟨initial noThreads fun _ => 2147483647, .empty⟩ (0, .v 7)).any fun x =>
        x.scheduler.counter (.semaphore 7) = -2 ^ 31 := by
    decide +kernel
  obtain ⟨x, hx, hcheck⟩ := (Option.any_eq_true _ _).mp hrun
  simp only [decide_eq_true_eq] at hcheck
  have hreach : Audited.ReachableBy sampleMachine 7 2147483647 (fun _ _ => True) x :=
    .next (.start ⟨fun _ => 2147483647, rfl, rfl⟩) ⟨trivial, hx⟩
  obtain ⟨hnonneg, -⟩ := hclaim sampleMachine 2147483647 x 7 (by decide) hreach
  omega

end X86Os32.Scheduler
