import X86Os32.Library.Results
import X86Os32.User.Mutex

namespace X86Os32.Scheduler

open Library Library.Results

/-! Each operation computes its effect on the lists, as long as the threads are
where their fields say. -/

variable {machine : Machine} {s : State Lists} {cpu : Cpu} {t m : Address}
  {w : Room} {current : Cpu → Option Address} {place : Address → Location}

namespace Placed

theorem bell_empty (hplaced : Placed machine s current place)
    (hplace : ∀ w, place t ≠ .queue (.room w)) (frame : Address) :
    s.threads (.room (.bell ⟨t, frame⟩)) = [] := by
  rw [List.eq_nil_iff_forall_not_mem]
  intro u hu
  have hu' := (hplaced.listed _ u).mp hu
  obtain rfl : t = u := ((hplaced.sits u).room _ hu').2 _ rfl
  exact hplace _ hu'

theorem bell_room (hplaced : Placed machine s current place) (b : Bell) :
    s.threads (.room (.bell b)) = [] ∨
      s.threads (.room (.bell b)) = [b.thread] := by
  have honly : ∀ u ∈ s.threads (.room (.bell b)), u = b.thread := by
    intro u hu
    have hu' := (hplaced.listed _ u).mp hu
    exact (((hplaced.sits u).room _ hu').2 _ rfl).symm
  have hnodup := hplaced.nodup (.room (.bell b))
  generalize s.threads (.room (.bell b)) = list at *
  cases list with
  | nil => exact Or.inl rfl
  | cons u rest =>
      right
      obtain rfl := honly u (by simp)
      cases rest with
      | nil => rfl
      | cons v rest =>
          obtain rfl := honly v (by simp)
          simp at hnodup

theorem waits (hplaced : Placed machine s current place)
    (hwaiting : s.waitingIn t = some w) (hdestroyed : s.destroyed t = false) :
    place t = .queue (.room w) :=
  ((hplaced.sits t).waiting hdestroyed w).mp hwaiting

theorem waitingIn_eq (hplaced : Placed machine s current place)
    (hmem : t ∈ s.threads (.room w)) : s.waitingIn t = some w := by
  have hplace := (hplaced.listed _ t).mp hmem
  have hdestroyed := hplaced.not_destroyed (by simp [hplace] : place t ≠ _)
  exact ((hplaced.sits t).waiting hdestroyed w).mpr hplace

end Placed

namespace State

theorem ready_eq (hfresh : ∀ i, t ∉ s.threads i) :
    s.ready t = .ok (s.parked t) := by
  have hnot : ¬ ∃ i, t ∈ s.threads i := not_exists.mpr hfresh
  have henqueue : ThreadQueues.enqueue s.threads .readyList t =
      .ok (s.threads.append .readyList t) := if_neg hnot
  unfold ready
  rw [henqueue]
  rfl

theorem wakeup_eq (hwaiting : s.waitingIn t = some w)
    (hfresh : ∀ i, t ∉ s.threads.erase (.room w) t i) :
    s.wakeup t = .ok (s.woken w t) := by
  unfold wakeup
  rw [hwaiting]
  exact ready_eq hfresh

theorem wakeup_eq_of_placed (hplaced : Placed machine s current place)
    (hmem : t ∈ s.threads (.room w)) : s.wakeup t = .ok (s.woken w t) := by
  have hplace := (hplaced.listed _ t).mp hmem
  refine wakeup_eq (hplaced.waitingIn_eq hmem) fun i hi => ?_
  rw [Lists.mem_erase hplaced.nodup (hplaced.only hplace)] at hi
  exact hi.1 rfl

theorem wakeup_dequeued (hplaced : Placed machine s current place)
    (hroom : s.threads (.room w) = t :: rest) :
    wakeup { s with threads := Function.update s.threads (.room w) rest } t =
      .ok (s.woken w t) := by
  have hmem : t ∈ s.threads (.room w) := by simp [hroom]
  have hnodup := hplaced.nodup (.room w)
  rw [hroom] at hnodup
  have hnot := (List.nodup_cons.mp hnodup).1
  have herase : Lists.erase (Function.update s.threads (.room w) rest)
      (.room w) t = s.threads.erase (.room w) t := by
    unfold Lists.erase
    rw [Function.update_self, Function.update_idem, hroom,
      List.erase_of_not_mem hnot, List.erase_cons_head]
  have hplace := (hplaced.listed _ t).mp hmem
  have hdone : wakeup { s with
      threads := Function.update s.threads (.room w) rest } t =
      .ok (State.woken { s with
        threads := Function.update s.threads (.room w) rest } w t) := by
    refine wakeup_eq (hplaced.waitingIn_eq hmem) fun i hi => ?_
    rw [herase, Lists.mem_erase hplaced.nodup (hplaced.only hplace)] at hi
    exact hi.1 rfl
  rw [hdone]
  unfold woken
  rw [herase]

theorem dequeue_nil {i : QueueId} (hlist : s.threads i = []) :
    ThreadQueues.dequeue s.threads i = .ok (none, s.threads) := by
  have htail : Function.update s.threads i (s.threads i).tail = s.threads := by
    rw [hlist, List.tail_nil, ← hlist, Function.update_eq_self]
  change Except.ok ((s.threads i).head?, _) = _
  rw [htail, hlist]
  rfl

theorem dequeue_cons {i : QueueId} (hlist : s.threads i = t :: rest) :
    ThreadQueues.dequeue s.threads i =
      .ok (some t, Function.update s.threads i rest) := by
  change Except.ok ((s.threads i).head?,
    Function.update s.threads i (s.threads i).tail) = _
  rw [hlist]
  rfl

theorem v_eq (hplaced : Placed machine s current place) (w : Room) :
    s.v w = .ok (s.released w) := by
  unfold v released
  cases hroom : s.threads (.room w) with
  | nil =>
      rw [dequeue_nil hroom]
      rfl
  | cons t rest =>
      rw [dequeue_cons hroom]
      exact wakeup_dequeued hplaced hroom

theorem unlock_eq {mutexes : Queues Address Address}
    (hplaced : Placed machine s current place) (howner : s.owner m = some t)
    (hremove : s.mutexes.remove t m = .ok (found, mutexes)) :
    s.unlock m = .ok (found.isSome, s.unlocked m t mutexes) := by
  have hplaced' : Placed machine (s.disowned m t mutexes) current place :=
    hplaced.congr rfl fun _ => ⟨rfl, rfl, rfl, rfl, rfl⟩
  have hv := v_eq hplaced' (.mutex m)
  unfold disowned at hv
  unfold unlock mutexRelease
  simp only [howner, hremove, deref_some, ok_bind, pure_bind, hv]
  rfl

theorem takeOwnership_eq (hlife : s.life cpu = some t) :
    s.takeOwnership cpu m = .ok (s.owned t m) := by
  unfold takeOwnership active
  rw [hlife]
  rfl

theorem continueThread_eq (hlife : s.life cpu = some t)
    (hroom : ∀ frame, s.threads (.room (.bell ⟨t, frame⟩)) = []) :
    s.continueThread cpu t = .ok (s.continued t) := by
  unfold continueThread continued
  cases s.resumption t with
  | none => rfl
  | some resumption =>
      cases resumption with
      | lock m => exact takeOwnership_eq hlife
      | sleep frame =>
          have hfirst : ThreadQueues.first s.threads
              (.room (.bell ⟨t, frame⟩)) = none := by
            change (s.threads _).head? = none
            rw [hroom]
            rfl
          dsimp only
          unfold destroyRoom
          rw [hfirst]

theorem isEmpty_iff : s.isEmpty = true ↔ s.threads .readyList = [] := by
  change ((s.threads .readyList).head?).isNone = true ↔ _
  cases s.threads .readyList <;> simp

/-- Where the thread that `dispatch_next` chooses comes from. -/
theorem next_cases (machine : Machine) (s : State Lists) (cpu : Cpu) :
    (s.threads .readyList = [] ∧
      s.next machine cpu = machine.idlethread cpu) ∨
    ∃ rest, s.threads .readyList = s.next machine cpu :: rest := by
  unfold next
  cases s.threads .readyList with
  | nil => exact Or.inl ⟨rfl, rfl⟩
  | cons t rest => exact Or.inr ⟨rest, rfl⟩

theorem nextThread_eq : s.nextThread machine cpu =
    .ok (s.next machine cpu, s.pulled .readyList (s.next machine cpu)) := by
  have hcases := next_cases machine s cpu
  generalize s.next machine cpu = t at *
  unfold nextThread pulled
  rcases hcases with ⟨hnil, rfl⟩ | ⟨rest, hcons⟩
  · rw [if_pos (isEmpty_iff.mpr hnil)]
    have hsame : s.threads.erase .readyList (machine.idlethread cpu) =
        s.threads := by
      unfold Lists.erase
      rw [hnil, List.erase_nil, ← hnil, Function.update_eq_self]
    rw [hsame]
  · have hne : ¬ s.isEmpty = true := by
      rw [isEmpty_iff, hcons]
      simp
    have hsame : s.threads.erase .readyList t =
        Function.update s.threads .readyList rest := by
      unfold Lists.erase
      rw [hcons, List.erase_cons_head]
    rw [if_neg hne, dequeue_cons hcons, hsame]
    rfl

theorem next_place (hplaced : Placed machine s current place)
    (hcurrent : current cpu = none) :
    place (s.next machine cpu) = .queue .readyList ∨
      place (s.next machine cpu) = .nowhere ∧
        s.next machine cpu = machine.idlethread cpu := by
  rcases next_cases machine s cpu with
    ⟨-, hidle⟩ | ⟨rest, hcons⟩
  · right
    refine ⟨?_, hidle⟩
    rw [hidle]
    have hunreadied :=
      ((hplaced.sits (machine.idlethread cpu)).idle ⟨cpu, rfl⟩).1
    rcases (hplaced.sits (machine.idlethread cpu)).unreadied hunreadied with
      hnowhere | ⟨c, hc, hplace⟩
    · exact hnowhere
    · obtain rfl := machine.injective hc
      rw [← hplaced.running, hcurrent] at hplace
      simp at hplace
  · left
    rw [← hplaced.listed, hcons]
    exact List.mem_cons_self

theorem dispatched_room (hplaced : Placed machine s current place)
    (hcurrent : current cpu = none) (frame : Address) :
    (s.threads.erase .readyList (s.next machine cpu))
      (.room (.bell ⟨s.next machine cpu, frame⟩)) = [] := by
  have hroom : s.threads (.room (.bell ⟨s.next machine cpu, frame⟩)) = [] := by
    refine hplaced.bell_empty (fun w => ?_) frame
    rcases next_place hplaced hcurrent with hready | ⟨hnowhere, -⟩
    · simp [hready]
    · simp [hnowhere]
  simpa [Lists.erase] using hroom

theorem go_eq (hplaced : Placed machine s current place)
    (hcurrent : current cpu = none) :
    s.schedule machine cpu = .ok (s.dispatched machine cpu) := by
  unfold schedule
  rw [nextThread_eq]
  exact continueThread_eq (by simp [setActive])
    (dispatched_room hplaced hcurrent)

theorem dispatchNext_eq (hplaced : Placed machine s current place)
    (hcurrent : current cpu = none) (hlife : s.life cpu ≠ none) :
    s.dispatchNext machine cpu = .ok (s.dispatched machine cpu) := by
  obtain ⟨prev, hprev⟩ := Option.ne_none_iff_exists'.mp hlife
  unfold dispatchNext
  rw [nextThread_eq]
  have hdone : continueThread ((s.pulled .readyList
      (s.next machine cpu)).setActive cpu (s.next machine cpu)) cpu
      (s.next machine cpu) = .ok (s.dispatched machine cpu) :=
    continueThread_eq (by simp [setActive])
      (dispatched_room hplaced hcurrent)
  unfold dispatch
  have hactive : active (s.pulled .readyList (s.next machine cpu)) cpu =
      some prev := hprev
  simp only [ok_bind, hactive, deref_some]
  exact hdone

theorem executing_some {d : Cpu} (hfound : s.executing t = some d) :
    s.life d = some t := by
  simpa using List.find?_some hfound

theorem executing_none (hfound : s.executing t = none) (c : Cpu) :
    s.life c ≠ some t := by
  have hnone := List.find?_eq_none.mp hfound c (List.mem_finRange c)
  simpa using hnone

/-! ### Fields that waking threads leaves alone -/

structure Keeps (s s' : State Lists) : Prop where
  killed : s'.killed = s.killed
  resumption : s'.resumption = s.resumption
  bells : s'.bells = s.bells
  ms : s'.ms = s.ms
  life : s'.life = s.life
  assassin : s'.assassin = s.assassin
  readied : s'.readied = s.readied
  destroyed : s'.destroyed = s.destroyed
  victim : s'.victim = s.victim

theorem released_keeps (w : Room) : Keeps s (s.released w) := by
  unfold released
  split <;> exact ⟨rfl, rfl, rfl, rfl, rfl, rfl, rfl, rfl, rfl⟩

theorem unlocked_keeps (mutexes : Queues Address Address) :
    Keeps s (s.unlocked m t mutexes) := by
  have hkeeps := released_keeps (s := s.disowned m t mutexes) (.mutex m)
  exact ⟨hkeeps.killed, hkeeps.resumption, hkeeps.bells, hkeeps.ms,
    hkeeps.life, hkeeps.assassin, hkeeps.readied, hkeeps.destroyed,
    hkeeps.victim⟩

/-! ### Bells -/

def rung (s : State Lists) (b : Bell) : State Lists :=
  match s.threads (.room (.bell b)) with
  | [] => s
  | t :: _ => s.woken (.bell b) t

theorem rung_keeps (b : Bell) : Keeps s (s.rung b) := by
  unfold rung
  split <;> exact ⟨rfl, rfl, rfl, rfl, rfl, rfl, rfl, rfl, rfl⟩

theorem touch_eq {b : Bell} (hlive : s.Live b) : s.touch b = .ok () :=
  if_pos hlive

theorem ringFrom_nil {b : Bell} (hroom : s.threads (.room (.bell b)) = [])
    (fuel : Nat) : s.ringFrom b (fuel + 1) = .ok s := by
  unfold ringFrom
  rw [dequeue_nil hroom]
  rfl

theorem ringFrom_eq {b : Bell} (hplaced : Placed machine s current place)
    (fuel : Nat) : s.ringFrom b (fuel + 2) = .ok (s.rung b) := by
  unfold rung
  rcases hplaced.bell_room b with hroom | hroom
  · rw [ringFrom_nil hroom, hroom]
  · have hempty : (s.woken (.bell b) b.thread).threads (.room (.bell b)) =
        [] := by
      simp [woken, Lists.append, Lists.erase, hroom]
    unfold ringFrom
    rw [dequeue_cons hroom]
    simp only [ok_bind]
    rw [wakeup_dequeued hplaced hroom, ok_bind, ringFrom_nil hempty, hroom]

theorem ring_eq {b : Bell} (hplaced : Placed machine s current place)
    (hlive : s.Live b) : s.ring b = .ok (s.rung b) := by
  have hfuel : Queues.addresses + 1 = (2 ^ 32 - 1) + 2 := by
    unfold Queues.addresses
    omega
  unfold ring
  rw [touch_eq hlive, ok_bind, hfuel]
  exact ringFrom_eq hplaced _

theorem inherit_frame {b : Bell} {s' : State Lists}
    (hdone : s.inherit b = .ok s') : ∃ ms, s' = { s with ms } := by
  unfold inherit at hdone
  split at hdone
  · obtain rfl := Except.ok.inj hdone
    exact ⟨s.ms, rfl⟩
  · obtain ⟨-, -, hdone⟩ := bind_eq_ok.mp hdone
    exact ⟨_, (Except.ok.inj hdone).symm⟩

theorem cancel_frame {b : Bell} {s' : State Lists}
    (hdone : s.cancel b = .ok s') : ∃ bells ms, s' = { s with bells, ms } := by
  obtain ⟨-, -, hdone⟩ := bind_eq_ok.mp hdone
  obtain ⟨inherited, hinherit, hdone⟩ := bind_eq_ok.mp hdone
  obtain ⟨⟨found, bells⟩, -, hdone⟩ := bind_eq_ok.mp hdone
  obtain ⟨ms, rfl⟩ := inherit_frame hinherit
  exact ⟨bells, ms, (Except.ok.inj hdone).symm⟩

theorem jobFrom_frame {prev : Option Bell} {ms fuel : Nat} {b : Option Bell}
    {result : Option Bell × Nat} {s' : State Lists}
    (hdone : s.jobFrom prev ms fuel b = .ok (result, s')) :
    ∃ ms, s' = { s with ms } := by
  induction fuel generalizing prev ms b with
  | zero =>
      cases b with
      | none =>
          obtain ⟨-, rfl⟩ := Prod.mk.inj (Except.ok.inj hdone)
          exact ⟨s.ms, rfl⟩
      | some b => cases hdone
  | succ fuel ih =>
      cases b with
      | none =>
          obtain ⟨-, rfl⟩ := Prod.mk.inj (Except.ok.inj hdone)
          exact ⟨s.ms, rfl⟩
      | some b =>
          obtain ⟨-, -, hdone⟩ := bind_eq_ok.mp hdone
          split at hdone
          · obtain ⟨-, rfl⟩ := Prod.mk.inj (Except.ok.inj hdone)
            exact ⟨_, rfl⟩
          · exact ih hdone

theorem job_frame {b : Bell} {ms : Nat} {s' : State Lists}
    (hdone : s.job b ms = .ok s') : ∃ bells ms, s' = { s with bells, ms } := by
  obtain ⟨⟨⟨prev, rest⟩, walked⟩, hwalk, hdone⟩ := bind_eq_ok.mp hdone
  obtain ⟨times, rfl⟩ := jobFrom_frame hwalk
  cases prev with
  | none => exact ⟨_, _, (Except.ok.inj hdone).symm⟩
  | some prev =>
      obtain ⟨-, -, hdone⟩ := bind_eq_ok.mp hdone
      exact ⟨_, _, (Except.ok.inj hdone).symm⟩

end State

end X86Os32.Scheduler
