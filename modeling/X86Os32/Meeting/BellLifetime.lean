import X86Os32.Thread.Invariants

namespace X86Os32.Scheduler

open Library Library.Results

/-! Bells and the threads they lie on.  A bell that is linked in the list of the
bellringer lies on the stack of a thread that sleeps; only `check` both wakes
the thread and takes the bell out of the list. -/

variable {machine : Machine} {s s' : State Lists} {cpu : Cpu} {t : Address}
  {w : Room} {b : Bell} {bells : List Bell}
  {current : Cpu → Option Address} {place : Address → Location}

def State.Asleep (s : State σ) (t : Address) : Prop :=
  ∃ w ∈ s.waitingIn t, w.isBell = true

instance (s : State σ) (t : Address) : Decidable (s.Asleep t) :=
  Option.decidableExistsMem _

/-- Whom the operation ends or wakes, by name. -/
def Event.disturbs : Event → Option Address
  | .kill that => some that
  | .wakeup customer => some customer
  | .ring b => some b.thread
  | _ => none

/-- No thread that sleeps is killed, or woken otherwise than by `check`. -/
def LetsSleep (s : State σ) : Cpu × Event → Prop
  | (_, event) => ∀ t ∈ event.disturbs, ¬ s.Asleep t

instance (s : State σ) : DecidablePred (LetsSleep s) :=
  fun (_, event) => by
    have hdisturbs : Decidable (∀ t ∈ event.disturbs, ¬ s.Asleep t) :=
      Option.decidableForallMem _
    exact hdisturbs

structure Pending (s : State Lists) (bells : List Bell) : Prop where
  holds : s.bells.Holds fun _ => bells
  asleep : ∀ b ∈ bells, b.thread ∈ s.threads (.room (.bell b))

/-! ### Bells that are there -/

theorem Pending.live (hpending : Pending s bells)
    (hplaced : Placed machine s current place) (hmem : b ∈ bells) :
    s.Live b := by
  have hplace := (hplaced.listed _ _).mp (hpending.asleep b hmem)
  refine ⟨hplaced.not_destroyed (by simp [hplace]), ?_⟩
  exact ((hplaced.sits b.thread).room _ hplace).1

theorem Pending.length_le (hpending : Pending s bells)
    (hplaced : Placed machine s current place) :
    bells.length ≤ Queues.addresses := by
  have hinjective : ∀ b ∈ bells, ∀ b' ∈ bells, b.thread = b'.thread →
      b = b' := by
    intro b hb b' hb' heq
    have hplace := (hplaced.listed _ _).mp (hpending.asleep b hb)
    have hplace' := (hplaced.listed _ _).mp (hpending.asleep b' hb')
    rw [← heq, hplace] at hplace'
    simpa using hplace'
  have hnodup := (hpending.holds.queue ()).nodup.map_on hinjective
  simpa using length_le_addresses hnodup

theorem Pending.frame (hpending : Pending s bells)
    (hbells : s'.bells = s.bells)
    (hrooms : ∀ b ∈ bells, b.thread ∈ s.threads (.room (.bell b)) →
      b.thread ∈ s'.threads (.room (.bell b))) : Pending s' bells where
  holds := hbells ▸ hpending.holds
  asleep b hmem := hrooms b hmem (hpending.asleep b hmem)

/-! ### The walks along the list -/

theorem State.cancel_ok {rest : List Bell}
    (hholds : s.bells.Holds fun _ => b :: rest)
    (hlive : ∀ b' ∈ b :: rest, s.Live b')
    (hlength : (b :: rest).length ≤ Queues.addresses) :
    ∃ s', s.cancel b = .ok s' ∧ s'.bells.Holds fun _ => rest := by
  obtain ⟨bells, hremove, hrest, -⟩ := hholds.remove (i := ()) b hlength
  rw [update_unit, List.erase_cons_head] at hrest
  have hinherit : ∃ ms, s.inherit b = .ok { s with ms } := by
    unfold State.inherit
    rw [(hholds.queue ()).next_first]
    cases rest with
    | nil => exact ⟨s.ms, rfl⟩
    | cons next rest =>
        simp only [List.head?_cons]
        rw [State.touch_eq (hlive next (by simp))]
        exact ⟨_, rfl⟩
  obtain ⟨ms, hinherit⟩ := hinherit
  refine ⟨{ s with bells, ms }, ?_, hrest⟩
  unfold State.cancel
  rw [State.touch_eq (hlive b (by simp)), ok_bind, hinherit, ok_bind]
  dsimp only
  rw [hremove]
  rfl

theorem State.jobFrom_ok {rest : List Bell} {start : Option Bell}
    {fuel : Nat} (prev : Option Bell) (ms : Nat)
    (hstart : LinkChain.Segment s.bells.next none start rest)
    (hlive : ∀ b ∈ rest, s.Live b) (hfuel : rest.length ≤ fuel) :
    ∃ last left times,
      s.jobFrom prev ms fuel start = .ok ((last, left), { s with ms := times }) ∧
      (last = prev ∨ ∃ b ∈ rest, last = some b) := by
  induction rest generalizing start prev ms fuel with
  | nil =>
      obtain rfl : start = none := hstart
      refine ⟨prev, ms, s.ms, ?_, Or.inl rfl⟩
      cases fuel <;> rfl
  | cons b rest ih =>
      obtain ⟨rfl, hrest⟩ := hstart
      cases fuel with
      | zero => simp at hfuel
      | succ fuel =>
          unfold State.jobFrom
          rw [State.touch_eq (hlive b (by simp)), ok_bind]
          split
          · exact ⟨prev, ms, _, rfl, Or.inl rfl⟩
          · obtain ⟨last, left, times, hdone, hlast⟩ := ih (some b)
              (sub32 ms (s.ms b)) hrest
              (fun b' hb' => hlive b' (by simp [hb']))
              (by simpa using hfuel)
            refine ⟨last, left, times, hdone, Or.inr ?_⟩
            rcases hlast with rfl | ⟨b', hb', rfl⟩
            · exact ⟨b, by simp, rfl⟩
            · exact ⟨b', by simp [hb'], rfl⟩

theorem State.touchTail_ok (hholds : s.bells.Holds fun _ => bells)
    (hlive : ∀ b ∈ bells, s.Live b) : s.touchTail = .ok () := by
  unfold State.touchTail
  rcases (hholds.queue ()).tail_cases with
    ⟨-, hempty⟩ | ⟨front, last, rfl, -, htail⟩
  · rw [hempty]
  · rw [htail]
    exact State.touch_eq (hlive last (by simp))

theorem State.job_ok {bell : Bell} (ms : Nat)
    (hholds : s.bells.Holds fun _ => bells) (hlive : ∀ b ∈ bells, s.Live b)
    (hlength : bells.length ≤ Queues.addresses) (hfresh : bell ∉ bells) :
    ∃ s' items, s.job bell ms = .ok s' ∧ (s'.bells.Holds fun _ => items) ∧
      ∀ b, b ∈ items ↔ b = bell ∨ b ∈ bells := by
  obtain ⟨last, left, times, hwalk, hlast⟩ := State.jobFrom_ok none ms
    (hholds.queue ()).segment hlive hlength
  have hnew : ∀ _ : Unit, bell ∉ bells := fun _ => hfresh
  unfold State.job Queues.first
  rw [hwalk, ok_bind]
  rcases hlast with rfl | ⟨b, hb, rfl⟩
  · refine ⟨_, bell :: bells, rfl, ?_, by simp⟩
    have hinserted := hholds.insertFirst (i := ()) hnew
    rwa [update_unit] at hinserted
  · obtain ⟨before, after, rfl⟩ := List.append_of_mem hb
    have hinserted := hholds.insertAfter (i := ()) rfl hnew
    rw [update_unit] at hinserted
    have htail : State.touchTail { s with
        ms := Function.update times bell left } = .ok () :=
      State.touchTail_ok (s := { s with
        ms := Function.update times bell left }) hholds hlive
    refine ⟨{ s with
        ms := Function.update times bell left
        bells := s.bells.insertAfter () b bell },
      before ++ b :: bell :: after, ?_, hinserted, ?_⟩
    · dsimp only
      rw [htail]
      rfl
    · intro b'
      simp only [List.mem_append, List.mem_cons]
      tauto

theorem Pending.first_eq (hpending : Pending s bells) :
    s.bells.first () = bells.head? :=
  (hpending.holds.queue ()).head_eq

/-- The body of the loop of `check`: the first bell rings, and is gone from the
list. -/
theorem Pending.expire {rest : List Bell} (hpending : Pending s (b :: rest))
    (hplaced : Placed machine s current place) :
    ∃ s', (s.rung b).cancel b = .ok s' ∧ Pending s' rest := by
  have hkeeps := State.rung_keeps (s := s) b
  have hlive : ∀ b' ∈ b :: rest, (s.rung b).Live b' := by
    intro b' hb'
    unfold State.Live
    rw [hkeeps.destroyed, hkeeps.resumption]
    exact hpending.live hplaced hb'
  have hholds : (s.rung b).bells.Holds fun _ => b :: rest :=
    hkeeps.bells ▸ hpending.holds
  obtain ⟨s', hdone, hrest⟩ :=
    State.cancel_ok hholds hlive (hpending.length_le hplaced)
  refine ⟨s', hdone, hrest, fun b' hb' => ?_⟩
  obtain ⟨bells, ms, rfl⟩ := State.cancel_frame hdone
  have hne : b' ≠ b := by
    rintro rfl
    exact (List.nodup_cons.mp (hpending.holds.queue ()).nodup).1 hb'
  have hold := hpending.asleep b' (by simp [hb'])
  change b'.thread ∈ (s.rung b).threads (.room (.bell b'))
  unfold State.rung
  split
  · exact hold
  · simpa [State.woken, Lists.append, Lists.erase, hne] using hold

/-! ### The bells throughout a run -/

theorem Pending.pulled {i : QueueId} (hpending : Pending s bells)
    (hother : ∀ b, i ≠ .room (.bell b))
    (hbells : s'.bells = s.bells)
    (hthreads : ∀ b, s'.threads (.room (.bell b)) =
      s.threads.erase i t (.room (.bell b))) : Pending s' bells := by
  refine hpending.frame hbells fun b _ hmem => ?_
  rw [hthreads, Lists.erase, Function.update_of_ne (hother b).symm]
  exact hmem

theorem Pending.appended {i : QueueId} (hpending : Pending s bells)
    (hbells : s'.bells = s.bells)
    (hthreads : s'.threads = s.threads.append i t) : Pending s' bells := by
  refine hpending.frame hbells fun b _ hmem => ?_
  rw [hthreads]
  by_cases heq : QueueId.room (.bell b) = i
  · subst heq
    simp [Lists.append, hmem]
  · simpa [Lists.append, heq] using hmem

theorem Pending.released (hpending : Pending s bells)
    (hbell : ∀ b, w ≠ .bell b) : Pending (s.released w) bells := by
  refine hpending.frame (State.released_keeps w).bells fun b _ hmem => ?_
  rwa [(State.released_other (hbell b).symm).1]

theorem Pending.unlocked {m : Address} {mutexes : Queues Address Address}
    (hpending : Pending s bells) : Pending (s.unlocked m t mutexes) bells := by
  have hdisowned : Pending (s.disowned m t mutexes) bells :=
    hpending.frame rfl fun _ _ hmem => hmem
  exact hdisowned.released (by simp)

theorem Placed.asleep (hplaced : Placed machine s current place)
    (hmem : t ∈ s.threads (.room (.bell b))) : s.Asleep t :=
  ⟨_, hplaced.waitingIn_eq hmem, rfl⟩

theorem State.dispatched_bells : (s.dispatched machine cpu).bells = s.bells := by
  unfold State.dispatched State.continued
  dsimp only
  split <;> rfl

theorem Pending.job_ok (hpending : Pending s bells)
    (hplaced : Placed machine s current place) (hcurrent : current cpu = some t)
    (ms : Nat) (frame : Address) :
    ∃ s' items, (s.prepared ⟨t, frame⟩).job ⟨t, frame⟩ ms = .ok s' ∧
      Pending (s'.blocked t (.bell ⟨t, frame⟩)) items := by
  have hfresh : ⟨t, frame⟩ ∉ bells := by
    intro hmem
    have hplace := (hplaced.listed _ _).mp (hpending.asleep _ hmem)
    simp [(hplaced.runs hcurrent).1] at hplace
  have hholds : (s.prepared ⟨t, frame⟩).bells.Holds fun _ => bells :=
    hpending.holds.setNext (fun _ => hfresh) none
  obtain ⟨s', items, hdone, hholds', hitems⟩ := State.job_ok ms hholds
    (fun b hb => hpending.live hplaced hb) (hpending.length_le hplaced) hfresh
  have hthreads : s'.threads = s.threads := by
    obtain ⟨-, -, rfl⟩ := State.job_frame hdone
    exact hplaced.prepared_threads hcurrent frame
  refine ⟨s', items, hdone, hholds', fun b hb => ?_⟩
  change b.thread ∈ s'.threads.append _ t _
  rw [hthreads]
  rcases (hitems b).mp hb with rfl | hold
  · simp [Lists.append]
  · have hne : b ≠ ⟨t, frame⟩ := by
      rintro rfl
      exact hfresh hold
    simpa [Lists.append, hne] using hpending.asleep b hold

theorem pending_invariant : Invariant machine LetsSleep
    fun cfg => ∃ bells, Pending cfg.state bells where
  initial values := by
    refine ⟨[], ⟨⟨fun i => ⟨rfl, rfl, List.nodup_nil⟩, ?_⟩, by simp⟩⟩
    simp
  entry {a cpu event cfg} hconsistent hpending hallowed hentry := by
    obtain ⟨place, held, hplaced, -⟩ := hconsistent
    change Placed machine a a.life place at hplaced
    obtain ⟨bells, hpending⟩ := hpending
    change Pending a bells at hpending
    have hsame : ∀ a' : State Lists, a'.bells = a.bells →
        a'.threads = a.threads → Pending a' bells := by
      intro a' hbells hthreads
      exact hpending.frame hbells fun b _ hmem => hthreads ▸ hmem
    cases hentry with
    | start => exact ⟨bells, hpending⟩
    | ready hreadied hidle => exact ⟨bells, hpending.appended rfl rfl⟩
    | @pull i t hmem =>
        refine ⟨bells, hpending.pulled ?_ rfl fun b => rfl⟩
        rintro b rfl
        exact hallowed t rfl (hplaced.asleep hmem)
    | flag hidle hlists hlife => exact ⟨bells, hsame _ rfl rfl⟩
    | send hidle hlife => exact ⟨bells, hsame _ rfl rfl⟩
    | self hidle hlife => exact ⟨bells, hsame _ rfl rfl⟩
    | park hidle hlife hkilled => exact ⟨bells, hpending.appended rfl rfl⟩
    | idle hlife => exact ⟨bells, hpending⟩
    | block hidle hlife hblocks => exact ⟨bells, hpending.appended rfl rfl⟩
    | count hcounter => exact ⟨bells, hsame _ rfl rfl⟩
    | lock hlife hcounter => exact ⟨bells, hsame _ rfl rfl⟩
    | v => exact ⟨bells, hpending.released (by simp)⟩
    | unlock howner hremove => exact ⟨bells, hpending.unlocked⟩
    | @wake w t hmem hmutex =>
        have hpulled : Pending (a.pulled (.room w) t) bells := by
          refine hpending.pulled ?_ rfl fun b => rfl
          intro b heq
          obtain rfl := QueueId.room.inj heq
          exact hallowed t rfl (hplaced.asleep hmem)
        exact ⟨bells, hpulled.appended rfl rfl⟩
    | @ring b hlive =>
        have hroom : a.threads (.room (.bell b)) = [] := by
          refine (hplaced.bell_room b).resolve_right fun hone => ?_
          have hmem : b.thread ∈ a.threads (.room (.bell b)) := by simp [hone]
          exact hallowed b.thread rfl (hplaced.asleep hmem)
        have hquiet : a.rung b = a := by
          unfold State.rung
          rw [hroom]
        rw [hquiet]
        exact ⟨bells, hpending⟩
    | @sleep t ms frame s' hidle hlife hms hjob =>
        obtain ⟨s'', items, hdone, hpending'⟩ :=
          hpending.job_ok hplaced hlife ms frame
        obtain rfl := Except.ok.inj (hjob.symm.trans hdone)
        exact ⟨items, hpending'⟩
    | tick hfirst hlive => exact ⟨bells, hsame _ rfl rfl⟩
    | serve hlife hkilled => exact ⟨bells, hsame _ rfl rfl⟩
    | execute hidle hlife hkilled => exact ⟨bells, hsame _ rfl rfl⟩
    | drop => exact ⟨bells, hsame _ rfl rfl⟩
  follow {cpu cfg cfg'} hconsistent hpending hfollow := by
    obtain ⟨place, held, hplaced, -⟩ := hconsistent
    obtain ⟨bells, hpending⟩ := hpending
    cases hfollow with
    | retire hidle hcurrent =>
        exact ⟨bells, hpending.frame rfl fun _ _ hmem => hmem⟩
    | unlock howner hremove => exact ⟨bells, hpending.unlocked⟩
    | finish hfree => exact ⟨bells, hpending⟩
    | @expire b s s' current hfirst hlive hcancel =>
        change Pending s bells at hpending
        rw [hpending.first_eq] at hfirst
        obtain ⟨rest, rfl⟩ := List.head?_eq_some_iff.mp hfirst
        obtain ⟨s'', hdone, hrest⟩ := hpending.expire hplaced
        obtain rfl := Except.ok.inj (hcancel.symm.trans hdone)
        exact ⟨rest, hrest⟩
    | @dispatch current s hcurrent =>
        refine ⟨bells, hpending.pulled (i := .readyList)
          (t := s.next machine cpu) (by simp) State.dispatched_bells
          fun b => ?_⟩
        rw [State.dispatched, State.continued_threads]

/-! ### The operations on bells -/

theorem Pending.checkFrom_ok {rest : List Bell} {fuel : Nat}
    (hpending : Pending s (b :: rest))
    (hplaced : Placed machine s s.life place)
    (hfuel : (b :: rest).length ≤ fuel) :
    ∃ s', s.checkFrom fuel b = .ok s' := by
  induction fuel generalizing s b rest place with
  | zero => simp at hfuel
  | succ fuel ih =>
      obtain ⟨s', hdone, hrest⟩ := hpending.expire hplaced
      have hring := State.ring_eq hplaced
        (hpending.live hplaced List.mem_cons_self)
      obtain ⟨place', hplaced'⟩ : ∃ place, Placed machine s' s'.life place := by
        obtain ⟨bells, ms, rfl⟩ := State.cancel_frame hdone
        obtain ⟨place', hplaced'⟩ := hplaced.rung b
        rw [← (State.rung_keeps b).life] at hplaced'
        exact ⟨place', hplaced'.congr rfl fun _ => ⟨rfl, rfl, rfl, rfl, rfl⟩⟩
      unfold State.checkFrom
      simp only [hring, ok_bind, hdone, hrest.first_eq]
      cases rest with
      | nil => exact ⟨s', rfl⟩
      | cons next rest =>
          simp only [List.head?_cons]
          rw [State.touch_eq (hrest.live hplaced' (by simp)), ok_bind]
          split
          · exact ih hrest hplaced' (by simpa using hfuel)
          · exact ⟨s', rfl⟩

theorem Pending.check_ok (hpending : Pending s bells)
    (hplaced : Placed machine s s.life place) : ∃ s', s.check = .ok s' := by
  unfold State.check
  rw [hpending.first_eq]
  cases bells with
  | nil => exact ⟨s, rfl⟩
  | cons b rest =>
      have hlength := hpending.length_le hplaced
      have hticked : Pending (s.tick b) (b :: rest) :=
        hpending.frame rfl fun _ _ hmem => hmem
      have hplaced' : Placed machine (s.tick b) (s.tick b).life place :=
        hplaced.congr rfl fun _ => ⟨rfl, rfl, rfl, rfl, rfl⟩
      simp only [List.head?_cons]
      rw [State.touch_eq (hpending.live hplaced (by simp)), ok_bind]
      split
      · exact hticked.checkFrom_ok hplaced' hlength
      · exact ⟨_, rfl⟩

/-- No operation of any kind meets a bell that is gone. -/
theorem Pending.exec_ok {event : Event} (hpending : Pending s bells)
    (hconsistent : s.settled.Consistent machine)
    (henabled : s.Enabled machine cpu event) :
    ∃ s', s.exec machine cpu event = .ok s' := by
  obtain ⟨hsucceeds, -⟩ := exec_performs hconsistent henabled
  obtain ⟨place, held, hplaced, howned⟩ := hconsistent
  change Placed machine s s.life place at hplaced
  cases event with
  | check => exact hpending.check_ok hplaced
  | sleep ms frame =>
      obtain ⟨⟨t, hlife, hidle⟩, -⟩ := henabled
      change ∃ s', s.sleep machine cpu ms frame = .ok s'
      by_cases hms : ms = 0
      · exact ⟨s, by rw [State.sleep, if_pos hms]⟩
      · obtain ⟨s', items, hjob, -⟩ := hpending.job_ok hplaced hlife ms frame
        obtain ⟨s'', hblock, -⟩ :=
          sleep_blocks hplaced howned hidle hlife hms hjob
        refine ⟨s'', ?_⟩
        rw [sleep_eq hlife hms, hjob]
        exact hblock
  | _ => exact hsucceeds (by simp [Event.WalksBells])

/-- In a run in which no thread that sleeps is killed, or woken otherwise than
by `check`, every bell in the list lies on the stack of a thread that is
there, so that no operation meets a bell that is gone. -/
theorem bell_lives {s : State Pointers}
    (hreach : ReachableBy machine LetsSleep s) :
    (∃ bells, (s.bells.Holds fun _ => bells) ∧ ∀ b ∈ bells, s.Live b) ∧
      ∀ cpu event, s.Enabled machine cpu event →
        ∃ s', s.step machine (cpu, event) = some s' := by
  have hallowed : ∀ (s : State Pointers) a event, Represents s a →
      LetsSleep s event → LetsSleep a event := by
    rintro s a event ⟨qs, -, rfl⟩ hlets
    exact hlets
  obtain ⟨a, hrep, hconsistent, bells, hpending⟩ :=
    hreach.represents hallowed pending_invariant
  change Pending a bells at hpending
  constructor
  · obtain ⟨place, held, hplaced, -⟩ := hconsistent
    obtain ⟨qs, hholds, rfl⟩ := hrep
    exact ⟨bells, hpending.holds, fun b hb => hpending.live hplaced hb⟩
  · intro cpu event henabled
    obtain ⟨a', hdone⟩ :=
      hpending.exec_ok hconsistent ((hrep.enabled_iff event).mp henabled)
    have hsimulates : Follows (· = .linkedTwice) Represents
        (s.exec machine cpu event) (a.exec machine cpu event) :=
      hrep.exec event
    rw [hdone] at hsimulates
    obtain ⟨s', hexec, -⟩ := hsimulates
    exact ⟨s', State.step_eq_some.mpr ⟨henabled, hexec⟩⟩

/-- Two threads sleep. -/
theorem bell_lives_two_asleep :
    ∃ s : State Pointers, s.bells.first () = some ⟨100, 8⟩ ∧
      s.bells.next ⟨100, 8⟩ = some ⟨200, 9⟩ ∧
      (∃ bells, (s.bells.Holds fun _ => bells) ∧ ∀ b ∈ bells, s.Live b) ∧
      ∀ cpu event, s.Enabled sampleMachine cpu event →
        ∃ s', s.step sampleMachine (cpu, event) = some s' := by
  have hrun : (sampleRunBy LetsSleep [(0, .ready 100), (0, .ready 200),
      (0, .schedule), (1, .schedule), (1, .sleep 5 9), (0, .sleep 3 8)]).any
      fun s => s.bells.first () = some ⟨100, 8⟩ ∧
        s.bells.next ⟨100, 8⟩ = some ⟨200, 9⟩ := by
    decide +kernel
  obtain ⟨s, hreach, hcheck⟩ := sampleRunBy_reaches hrun
  simp only [decide_eq_true_eq] at hcheck
  exact ⟨s, hcheck.1, hcheck.2, bell_lives hreach⟩

/-- A thread that sleeps is killed, and its bell stays in the list. -/
theorem bell_outlives :
    ¬ ∀ machine (s : State Pointers), Reachable machine s →
      ∃ bells, (s.bells.Holds fun _ => bells) ∧
        ∀ b ∈ bells, s.destroyed b.thread = false := by
  intro hclaim
  have hrun : (sampleRun [(0, .ready 100), (0, .ready 200), (0, .schedule),
      (1, .schedule), (1, .sleep 5 9), (0, .kill 200)]).any fun s =>
        s.bells.first () = some ⟨200, 9⟩ ∧ s.destroyed 200 = true := by
    decide +kernel
  obtain ⟨s, hreach, hcheck⟩ := sampleRun_reaches hrun
  simp only [decide_eq_true_eq] at hcheck
  obtain ⟨hfirst, hdestroyed⟩ := hcheck
  obtain ⟨bells, hholds, hall⟩ := hclaim sampleMachine s hreach
  have hhead := (hholds.queue ()).head_eq
  rw [show (s.bells.queue ()).head = _ from hfirst] at hhead
  have hmem := List.mem_of_mem_head? hhead.symm
  simp [hall _ hmem] at hdestroyed

end X86Os32.Scheduler
