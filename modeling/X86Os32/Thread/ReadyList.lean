import X86Os32.Library.Results
import X86Os32.Thread.Effects

namespace X86Os32.Scheduler

open Library Library.Results

/-! What the operations do to the ready list, and to the threads that the
processors execute. -/

variable {machine : Machine} {s s' : State Lists} {cpu : Cpu} {t m : Address}
  {w : Room}

/-! ### Waking threads -/

/-- The threads `woken` come to the end of the ready list, and no thread comes
into the queues from outside. -/
structure Wakes (s s' : State Lists) (woken : List Address) : Prop where
  ready : s'.threads .readyList = s.threads .readyList ++ woken
  life : s'.life = s.life
  queued : ∀ i t, t ∈ s'.threads i → ∃ j, t ∈ s.threads j

theorem Wakes.nobody (hthreads : s'.threads = s.threads)
    (hlife : s'.life = s.life) : Wakes s s' [] :=
  ⟨by simp [hthreads], hlife, fun i _ hmem => ⟨i, hthreads ▸ hmem⟩⟩

theorem Wakes.trans {middle : State Lists} {woken woken' : List Address}
    (hfirst : Wakes s middle woken) (hrest : Wakes middle s' woken') :
    Wakes s s' (woken ++ woken') := by
  refine ⟨?_, hrest.life.trans hfirst.life, fun i t hmem => ?_⟩
  · rw [hrest.ready, hfirst.ready, List.append_assoc]
  · obtain ⟨j, hj⟩ := hrest.queued i t hmem
    exact hfirst.queued j t hj

theorem enqueue_done {lists lists' : Lists} {i : QueueId}
    (hdone : ThreadQueues.enqueue lists i t = .ok lists') :
    lists' = lists.append i t := by
  by_cases hlinked : ∃ j, t ∈ lists j
  · have hstop : ThreadQueues.enqueue lists i t = .error .linkedTwice :=
      if_pos hlinked
    rw [hstop] at hdone
    cases hdone
  · have hlisted : ThreadQueues.enqueue lists i t =
        .ok (lists.append i t) := if_neg hlinked
    rw [hlisted] at hdone
    exact (Except.ok.inj hdone).symm

theorem State.ready_done (hdone : s.ready t = .ok s') : s' = s.parked t := by
  obtain ⟨threads, henqueue, heq⟩ := bind_eq_ok.mp hdone
  obtain rfl := enqueue_done henqueue
  exact (Except.ok.inj heq).symm

theorem State.wakeup_done (hdone : s.wakeup t = .ok s') :
    ∃ w, s' = s.woken w t := by
  obtain ⟨w, -, hdone⟩ := bind_eq_ok.mp hdone
  exact ⟨w, State.ready_done hdone⟩

theorem wakes_dequeued {rest : List Address}
    (hroom : s.threads (.room w) = t :: rest)
    (hdone : State.wakeup { s with
      threads := Function.update s.threads (.room w) rest } t = .ok s') :
    Wakes s s' [t] := by
  obtain ⟨w', rfl⟩ := State.wakeup_done hdone
  have hlisted : t ∈ s.threads (.room w) := by simp [hroom]
  refine ⟨by simp [State.woken, Lists.append, Lists.erase], rfl, ?_⟩
  intro i u hmem
  by_cases heq : u = t
  · exact ⟨_, heq ▸ hlisted⟩
  · refine ⟨i, ?_⟩
    have hbefore : u ∈ Lists.erase
        (Function.update s.threads (.room w) rest) (.room w') t i := by
      simp only [State.woken, Lists.append] at hmem
      by_cases hi : i = .readyList
      · subst hi
        simpa [heq] using hmem
      · simpa [hi] using hmem
    have hupdated := Lists.mem_of_mem_erase hbefore
    by_cases hi : i = .room w
    · subst hi
      rw [Function.update_self] at hupdated
      rw [hroom]
      exact List.mem_cons_of_mem t hupdated
    · rwa [Function.update_of_ne hi] at hupdated

theorem v_wakes (hdone : s.v w = .ok s') :
    ∃ woken : Option Address, Wakes s s' woken.toList := by
  unfold State.v at hdone
  cases hroom : s.threads (.room w) with
  | nil =>
      rw [State.dequeue_nil hroom] at hdone
      cases hdone
      exact ⟨none, .nobody rfl rfl⟩
  | cons t rest =>
      rw [State.dequeue_cons hroom] at hdone
      exact ⟨some t, wakes_dequeued hroom hdone⟩

theorem unlock_wakes {ret : Bool} (hdone : s.unlock m = .ok (ret, s')) :
    ∃ woken : Option Address, Wakes s s' woken.toList := by
  obtain ⟨t, -, hdone⟩ := bind_eq_ok.mp hdone
  obtain ⟨⟨found, released⟩, hrelease, hdone⟩ := bind_eq_ok.mp hdone
  obtain ⟨⟨item, mutexes⟩, -, heq⟩ := bind_eq_ok.mp hrelease
  cases heq
  obtain ⟨s'', hv, heq⟩ := bind_eq_ok.mp hdone
  cases heq
  obtain ⟨woken, hwakes⟩ := v_wakes hv
  exact ⟨woken, hwakes.ready, hwakes.life, hwakes.queued⟩

theorem mutexReleaseFrom_wakes {ret ret' : Bool} {fuel : Nat}
    {current : Option Address}
    (hdone : s.mutexReleaseFrom ret fuel current = .ok (ret', s')) :
    ∃ woken, Wakes s s' woken := by
  induction fuel generalizing s ret current with
  | zero =>
      cases current with
      | none =>
          cases hdone
          exact ⟨[], .nobody rfl rfl⟩
      | some current => cases hdone
  | succ fuel ih =>
      cases current with
      | none =>
          cases hdone
          exact ⟨[], .nobody rfl rfl⟩
      | some current =>
          obtain ⟨⟨released, middle⟩, hunlock, hrest⟩ := bind_eq_ok.mp hdone
          obtain ⟨first, hfirst⟩ := unlock_wakes hunlock
          obtain ⟨woken, hwakes⟩ := ih hrest
          exact ⟨_, hfirst.trans hwakes⟩

theorem destroy_wakes (hdone : s.destroy t = .ok s') :
    ∃ woken, Wakes s s' woken := by
  obtain ⟨⟨ret, s''⟩, hrelease, heq⟩ := bind_eq_ok.mp hdone
  cases heq
  obtain ⟨woken, hwakes⟩ := mutexReleaseFrom_wakes hrelease
  exact ⟨woken, hwakes.ready, hwakes.life, hwakes.queued⟩

theorem ringFrom_wakes {bell : Bell} {fuel : Nat}
    (hdone : s.ringFrom bell fuel = .ok s') : ∃ woken, Wakes s s' woken := by
  induction fuel generalizing s with
  | zero => cases hdone
  | succ fuel ih =>
      unfold State.ringFrom at hdone
      cases hroom : s.threads (.room (.bell bell)) with
      | nil =>
          rw [State.dequeue_nil hroom] at hdone
          cases hdone
          exact ⟨[], .nobody rfl rfl⟩
      | cons t rest =>
          rw [State.dequeue_cons hroom, ok_bind] at hdone
          obtain ⟨middle, hwakeup, hrest⟩ := bind_eq_ok.mp hdone
          obtain ⟨woken, hwakes⟩ := ih hrest
          exact ⟨_, (wakes_dequeued hroom hwakeup).trans hwakes⟩

theorem cancel_wakes {bell : Bell} (hdone : s.cancel bell = .ok s') :
    Wakes s s' [] := by
  obtain ⟨bells, ms, rfl⟩ := State.cancel_frame hdone
  exact .nobody rfl rfl

theorem checkFrom_wakes {fuel : Nat} {first : Bell}
    (hdone : s.checkFrom fuel first = .ok s') :
    ∃ rung : List (Bell × List Address), Wakes s s' (rung.flatMap (·.2)) := by
  induction fuel generalizing s first with
  | zero => cases hdone
  | succ fuel ih =>
      obtain ⟨rung, hring, hdone⟩ := bind_eq_ok.mp hdone
      obtain ⟨-, -, hring⟩ := bind_eq_ok.mp hring
      obtain ⟨woken, hwakes⟩ := ringFrom_wakes hring
      obtain ⟨middle, hcancel, hdone⟩ := bind_eq_ok.mp hdone
      have hfirst := hwakes.trans (cancel_wakes hcancel)
      split at hdone
      · cases hdone
        exact ⟨[(first, woken)], by simpa using hfirst⟩
      · next next hnext =>
        obtain ⟨-, -, hdone⟩ := bind_eq_ok.mp hdone
        split at hdone
        · obtain ⟨others, hrest⟩ := ih hdone
          exact ⟨(first, woken) :: others, by simpa using hfirst.trans hrest⟩
        · cases hdone
          exact ⟨[(first, woken)], by simpa using hfirst⟩

theorem check_wakes (hdone : s.check = .ok s') :
    ∃ rung : List (Bell × List Address), Wakes s s' (rung.flatMap (·.2)) := by
  unfold State.check at hdone
  split at hdone
  · cases hdone
    exact ⟨[], .nobody rfl rfl⟩
  · next first hfirst =>
    obtain ⟨-, -, hdone⟩ := bind_eq_ok.mp hdone
    dsimp only at hdone
    split at hdone
    · obtain ⟨rung, hwakes⟩ := checkFrom_wakes hdone
      exact ⟨rung, hwakes.ready, hwakes.life, hwakes.queued⟩
    · cases hdone
      exact ⟨[], .nobody rfl rfl⟩

/-! ### Switching threads -/

theorem takeOwnership_keeps (hdone : s.takeOwnership cpu m = .ok s') :
    s'.threads = s.threads ∧ s'.life = s.life := by
  obtain ⟨t, -, heq⟩ := bind_eq_ok.mp hdone
  cases heq
  exact ⟨rfl, rfl⟩

theorem continueThread_keeps (hdone : s.continueThread cpu t = .ok s') :
    s'.threads = s.threads ∧ s'.life = s.life := by
  unfold State.continueThread at hdone
  split at hdone
  · cases hdone
    exact ⟨rfl, rfl⟩
  · next m _ =>
    exact takeOwnership_keeps (s := { s with
      resumption := Function.update s.resumption t none }) hdone
  · unfold State.destroyRoom at hdone
    dsimp only at hdone
    split at hdone
    · cases hdone
      exact ⟨rfl, rfl⟩
    · cases hdone

/-- The next thread is taken out of the ready list and executed. -/
structure Switches (machine : Machine) (cpu : Cpu) (s s' : State Lists) :
    Prop where
  ready : s'.threads .readyList =
    (s.threads .readyList).erase (s.next machine cpu)
  life : s'.life = Function.update s.life cpu (some (s.next machine cpu))

theorem schedule_switches (hdone : s.schedule machine cpu = .ok s') :
    Switches machine cpu s s' := by
  unfold State.schedule at hdone
  rw [State.nextThread_eq, ok_bind] at hdone
  obtain ⟨hthreads, hlife⟩ := continueThread_keeps hdone
  exact ⟨by rw [hthreads]; simp [State.setActive, State.pulled, Lists.erase],
    hlife⟩

theorem dispatchNext_switches (hdone : s.dispatchNext machine cpu = .ok s') :
    Switches machine cpu s s' := by
  unfold State.dispatchNext at hdone
  rw [State.nextThread_eq, ok_bind] at hdone
  obtain ⟨prev, -, hdone⟩ := bind_eq_ok.mp hdone
  obtain ⟨hthreads, hlife⟩ := continueThread_keeps hdone
  exact ⟨by rw [hthreads]; simp [State.setActive, State.pulled, Lists.erase],
    hlife⟩

end X86Os32.Scheduler
