import X86Os32.User.MutexRelease

namespace X86Os32.Scheduler

open Library Library.Results

/-! Every operation makes its own move and then some that may follow. -/

/-- The moves that lead from the state before an operation to the one behind
it. -/
def Performs (machine : Machine) (cpu : Cpu) (s : State Lists) (event : Event)
    (s' : State Lists) : Prop :=
  ∃ cfg, Entry machine cpu s event cfg ∧
    Relation.ReflTransGen (Follow machine cpu) cfg s'.settled

variable {machine : Machine} {s s' : State Lists} {cpu : Cpu} {t m : Address}
  {w : Room} {current : Cpu → Option Address} {place : Address → Location}
  {held : Address → List Address} {cfg cfg' : Config}

theorem settled_eq (hlife : s.life = current) :
    s.settled = ⟨s, current, none⟩ := by
  rw [State.settled, hlife]

theorem follows_consistent
    (hfollows : Relation.ReflTransGen (Follow machine cpu) cfg cfg')
    (hconsistent : cfg.Consistent machine) : cfg'.Consistent machine := by
  induction hfollows with
  | refl => exact hconsistent
  | tail _ hfollow ih => exact hfollow.consistent ih

theorem Performs.consistent {event : Event}
    (hperforms : Performs machine cpu s event s')
    (hconsistent : s.settled.Consistent machine) :
    s'.settled.Consistent machine := by
  obtain ⟨cfg, hentry, hfollows⟩ := hperforms
  exact follows_consistent hfollows (hentry.consistent hconsistent)

/-! ### The parts of the operations -/

theorem destroy_moves (cpu : Cpu)
    (hconsistent : Config.Consistent machine ⟨s.buried t, current, some t⟩) :
    ∃ s', s.destroy t = .ok s' ∧ s'.life = s.life ∧
      Relation.ReflTransGen (Follow machine cpu)
        ⟨s.buried t, current, some t⟩ ⟨s', current, none⟩ := by
  obtain ⟨place, held, hplaced, howned⟩ := hconsistent
  obtain ⟨s', hdone, hfollows, -, hreleases⟩ :=
    mutexReleaseAll_spec cpu hplaced howned
  refine ⟨s', ?_, hreleases.life, hfollows⟩
  change State.mutexReleaseAll { s with
    destroyed := Function.update s.destroyed t true } t = _ at hdone
  unfold State.destroy
  dsimp only
  rw [hdone]
  rfl

theorem dispatch_moves
    (hconsistent : Config.Consistent machine
      ⟨s, Function.update s.life cpu none, none⟩)
    (hlife : s.life cpu ≠ none) :
    ∃ s', s.dispatchNext machine cpu = .ok s' ∧
      Relation.ReflTransGen (Follow machine cpu)
        ⟨s, Function.update s.life cpu none, none⟩ s'.settled := by
  obtain ⟨place, held, hplaced, howned⟩ := hconsistent
  have hcurrent : Function.update s.life cpu none cpu = none := by simp
  refine ⟨_, State.dispatchNext_eq hplaced hcurrent hlife, .single ?_⟩
  have hsettled : (s.dispatched machine cpu).life =
      Function.update (Function.update s.life cpu none) cpu
        (some (s.next machine cpu)) := by
    simp [State.dispatched]
  rw [settled_eq hsettled]
  exact .dispatch hcurrent

theorem destroy_dispatch_moves
    (hconsistent : Config.Consistent machine
      ⟨s.buried t, Function.update s.life cpu none, some t⟩)
    (hlife : s.life cpu ≠ none) :
    ∃ s', (s.destroy t >>= fun s => s.dispatchNext machine cpu) = .ok s' ∧
      Relation.ReflTransGen (Follow machine cpu)
        ⟨s.buried t, Function.update s.life cpu none, some t⟩ s'.settled := by
  obtain ⟨middle, hdestroy, hsame, hfollows⟩ :=
    destroy_moves cpu hconsistent
  have hconsistent' := follows_consistent hfollows hconsistent
  obtain ⟨s', hdispatch, hrest⟩ := dispatch_moves (s := middle)
    (by rwa [hsame]) (by rwa [hsame])
  rw [hsame] at hrest
  refine ⟨s', ?_, hfollows.trans hrest⟩
  rw [hdestroy]
  exact hdispatch

theorem block_moves
    (hconsistent : Config.Consistent machine
      ⟨s.blocked t w, Function.update s.life cpu none, none⟩)
    (hlife : s.life cpu = some t) (hfresh : ∀ i, t ∉ s.threads i) :
    ∃ s', s.block machine cpu w = .ok s' ∧
      Relation.ReflTransGen (Follow machine cpu)
        ⟨s.blocked t w, Function.update s.life cpu none, none⟩ s'.settled := by
  have hlife' : (s.blocked t w).life cpu ≠ none := by
    simp [State.blocked, hlife]
  obtain ⟨s', hdispatch, hfollows⟩ :=
    dispatch_moves (s := s.blocked t w) hconsistent hlife'
  refine ⟨s', ?_, hfollows⟩
  have henqueue : ThreadQueues.enqueue s.threads (.room w) t =
      .ok (s.threads.append (.room w) t) := if_neg (not_exists.mpr hfresh)
  unfold State.block State.active
  rw [hlife, deref_some, ok_bind, henqueue]
  exact hdispatch

theorem Placed.idle_running (hplaced : Placed machine s current place)
    (hcurrent : current cpu = some t) (hidle : machine.Idle t) :
    t = machine.idlethread cpu := by
  have hplace := (hplaced.running cpu t).mp hcurrent
  have hunreadied := ((hplaced.sits t).idle hidle).1
  rcases (hplaced.sits t).unreadied hunreadied with hnowhere | ⟨c, hc, hcpu⟩
  · simp [hplace] at hnowhere
  · rw [hplace, Location.cpu.injEq] at hcpu
    rw [hcpu, hc]

/-- Idle threads are never killed. -/
theorem Placed.not_idle_of_killed (hplaced : Placed machine s current place)
    (hkilled : s.killed t = true) : ¬ machine.Idle t := by
  intro hidle
  simp [((hplaced.sits t).idle hidle).2] at hkilled

/-! ### The operations -/

theorem schedule_performs (hplaced : Placed machine s s.life place)
    (hlife : s.life cpu = none) :
    ∃ s', s.schedule machine cpu = .ok s' ∧
      Performs machine cpu s .schedule s' := by
  refine ⟨_, State.go_eq hplaced hlife, s.settled, .start trivial, .single ?_⟩
  have hsettled : (s.dispatched machine cpu).life =
      Function.update s.life cpu (some (s.next machine cpu)) := by
    simp [State.dispatched]
  rw [settled_eq hsettled]
  exact .dispatch hlife

theorem exit_performs (event : Event) (hstart : event.Starts)
    (hplaced : Placed machine s s.life place) (howned : Owned s none held)
    (hlife : s.life cpu = some t)
    (hidle : ¬ machine.Idle t) :
    ∃ s', s.exit machine cpu = .ok s' ∧ Performs machine cpu s event s' := by
  have hstep : Follow machine cpu s.settled _ := .retire hidle hlife
  obtain ⟨s', hdone, hfollows⟩ := destroy_dispatch_moves
    (hstep.consistent ⟨place, held, hplaced, howned⟩) (by simp [hlife])
  refine ⟨s', ?_, s.settled, .start hstart, .head hstep hfollows⟩
  unfold State.exit State.active
  rw [hlife]
  exact hdone

theorem ready_performs (hplaced : Placed machine s s.life place)
    (hreadied : s.readied t = false)
    (hidle : ¬ machine.Idle t) :
    ∃ s', s.exec machine cpu (.ready t) = .ok s' ∧
      Performs machine cpu s (.ready t) s' := by
  obtain ⟨hplace, -⟩ := hplaced.new hreadied hidle
  have hfresh := hplaced.fresh (by simp [hplace] : ∀ i, place t ≠ _)
  exact ⟨s.admitted t, State.ready_eq hfresh, _, .ready hreadied hidle, .refl⟩

theorem resume_performs (hplaced : Placed machine s s.life place)
    (howned : Owned s none held) (hlife : s.life cpu = some t) :
    ∃ s', s.resume machine cpu = .ok s' ∧
      Performs machine cpu s .resume s' := by
  obtain ⟨-, -, -, -, hfresh⟩ := hplaced.runs hlife
  unfold State.resume State.active State.putBack
  rw [hlife]
  by_cases hkilled : s.killed t = true
  · have hidle := hplaced.not_idle_of_killed hkilled
    obtain ⟨s', hdone, hperforms⟩ :=
      exit_performs .resume trivial hplaced howned hlife hidle
    refine ⟨s', ?_, hperforms⟩
    unfold State.exit State.active at hdone
    rw [hlife] at hdone
    simpa [hkilled] using hdone
  · rw [Bool.not_eq_true] at hkilled
    by_cases hprev : t = machine.idlethread cpu
    · subst hprev
      have hentry : Entry machine cpu s .resume _ := .idle hlife
      obtain ⟨s', hdone, hfollows⟩ := dispatch_moves
        (hentry.consistent ⟨place, held, hplaced, howned⟩) (by simp [hlife])
      refine ⟨s', ?_, _, hentry, hfollows⟩
      simpa [hkilled] using hdone
    · have hidle : ¬ machine.Idle t :=
        fun hidle => hprev (hplaced.idle_running hlife hidle)
      have hentry : Entry machine cpu s .resume _ := .park hidle hlife hkilled
      obtain ⟨s', hdone, hfollows⟩ := dispatch_moves (s := s.parked t)
        (hentry.consistent ⟨place, held, hplaced, howned⟩)
        (by simp [State.parked, hlife])
      have henqueue : ThreadQueues.enqueue s.threads .readyList t =
          .ok (s.threads.append .readyList t) := if_neg (not_exists.mpr hfresh)
      refine ⟨s', ?_, _, hentry, hfollows⟩
      simp only [deref_some, ok_bind, hkilled, Bool.false_eq_true, if_false,
        ne_eq, hprev, not_false_eq_true, if_true, henqueue]
      exact hdone

theorem remove_of_mem {i : QueueId} (hmem : t ∈ s.threads i) :
    ThreadQueues.remove s.threads i t = .ok (some t, s.threads.erase i t) := by
  change Except.ok (if t ∈ s.threads i then some t else none, _) = _
  rw [if_pos hmem]
  rfl

theorem remove_of_not_mem {i : QueueId} (hnot : t ∉ s.threads i) :
    ThreadQueues.remove s.threads i t = .ok (none, s.threads) := by
  have hsame : Function.update s.threads i ((s.threads i).erase t) =
      s.threads := by
    rw [List.erase_of_not_mem hnot, Function.update_eq_self]
  change Except.ok (if t ∈ s.threads i then some t else none,
    Function.update s.threads i ((s.threads i).erase t)) = _
  rw [if_neg hnot, hsame]

theorem kill_performs (hplaced : Placed machine s s.life place)
    (howned : Owned s none held) (hdestroyed : s.destroyed t = false)
    (hidle : ¬ machine.Idle t) :
    ∃ s', s.exec machine cpu (.kill t) = .ok s' ∧
      Performs machine cpu s (.kill t) s' := by
  have hconsistent : s.settled.Consistent machine :=
    ⟨place, held, hplaced, howned⟩
  change ∃ s', (s.marked t).kill machine cpu t = .ok s' ∧ _
  have hpull : ∀ i, t ∈ s.threads i →
      ∃ s', ((s.marked t).pulled i t).destroy t = .ok s' ∧
        Performs machine cpu s (.kill t) s' := by
    intro i hmem
    have hentry : Entry machine cpu s (.kill t) _ := .pull hmem
    obtain ⟨s', hdone, hsame, hfollows⟩ := destroy_moves cpu
      (s := (s.marked t).pulled i t) (hentry.consistent hconsistent)
    refine ⟨s', hdone, _, hentry, ?_⟩
    rw [settled_eq hsame]
    exact hfollows
  unfold State.kill
  by_cases hready : t ∈ s.threads .readyList
  · obtain ⟨s', hdone, hperforms⟩ := hpull _ hready
    refine ⟨s', ?_, hperforms⟩
    rw [remove_of_mem (s := s.marked t) hready]
    exact hdone
  · rw [remove_of_not_mem (s := s.marked t) hready]
    cases hwaiting : (s.marked t).waitingIn t with
    | some w =>
        have hplace := hplaced.waits hwaiting hdestroyed
        have hmem := (hplaced.listed _ t).mpr hplace
        obtain ⟨s', hdone, hperforms⟩ := hpull _ hmem
        refine ⟨s', ?_, hperforms⟩
        simp only [ok_bind, Option.isSome_none, Bool.false_eq_true, if_false,
          hwaiting]
        rw [remove_of_mem (s := s.marked t) hmem]
        exact hdone
    | none =>
        simp only [ok_bind, Option.isSome_none, Bool.false_eq_true, if_false,
          hwaiting]
        cases hexecuting : ((s.marked t).flagged t).executing t with
        | none =>
            have hlists : ∀ i, t ∉ s.threads i := by
              intro i hmem
              cases i with
              | readyList => exact hready hmem
              | room w =>
                  have hw := hplaced.waitingIn_eq hmem
                  simp [State.marked, hw] at hwaiting
            refine ⟨((s.marked t).flagged t), ?_, _, .flag hidle hlists
              (State.executing_none hexecuting), .refl⟩
            unfold State.flagged at hexecuting
            rw [hexecuting]
            rfl
        | some dest =>
            have hlife : s.life dest = some t :=
              State.executing_some hexecuting
            unfold State.flagged at hexecuting
            rw [hexecuting]
            by_cases hself : dest = cpu
            · subst hself
              have hentry : Entry machine dest s (.kill t) _ :=
                .self hidle hlife
              obtain ⟨s', hdone, hfollows⟩ := destroy_dispatch_moves
                (s := (s.marked t).flagged t)
                (hentry.consistent hconsistent)
                (by simp [State.flagged, State.marked, hlife])
              refine ⟨s', ?_, _, hentry, hfollows⟩
              simp only [if_true]
              exact hdone
            · refine ⟨((s.marked t).flagged t).sent dest t, ?_, _,
                .send hidle hlife, .refl⟩
              simp only [hself, if_false]
              rfl

theorem block_performs (event : Event)
    (hplaced : Placed machine s s.life place) (howned : Owned s none held)
    (hidle : ¬ machine.Idle t) (hlife : s.life cpu = some t)
    (hblocks : event.Blocks s w) :
    ∃ s', s.block machine cpu w = .ok s' ∧
      Performs machine cpu s event s' := by
  obtain ⟨-, -, -, -, hfresh⟩ := hplaced.runs hlife
  have hentry : Entry machine cpu s event _ := .block hidle hlife hblocks
  obtain ⟨s', hdone, hfollows⟩ := block_moves
    (hentry.consistent ⟨place, held, hplaced, howned⟩) hlife hfresh
  exact ⟨s', hdone, _, hentry, hfollows⟩

theorem p_performs {a : Address} (hplaced : Placed machine s s.life place)
    (howned : Owned s none held) (hidle : ¬ machine.Idle t)
    (hlife : s.life cpu = some t) :
    ∃ s', s.exec machine cpu (.p a) = .ok s' ∧
      Performs machine cpu s (.p a) s' := by
  unfold State.exec State.p
  by_cases hcounter : s.counter (.semaphore a) > 0
  · refine ⟨_, ?_, _, .count hcounter, .refl⟩
    simp only [hcounter, if_true]
    rfl
  · obtain ⟨s', hdone, hperforms⟩ := block_performs (.p a) hplaced howned hidle
      hlife ⟨rfl, not_lt.mp hcounter⟩
    refine ⟨s', ?_, hperforms⟩
    simp only [hcounter, if_false, hdone]
    rfl

theorem lock_performs (hplaced : Placed machine s s.life place)
    (howned : Owned s none held) (hidle : ¬ machine.Idle t)
    (hlife : s.life cpu = some t) :
    ∃ s', s.lock machine cpu m = .ok s' ∧
      Performs machine cpu s (.lock m) s' := by
  unfold State.lock State.p
  by_cases hcounter : s.counter (.mutex m) > 0
  · refine ⟨_, ?_, _, .lock hlife hcounter, .refl⟩
    simp only [hcounter, if_true, ok_bind]
    exact State.takeOwnership_eq hlife
  · obtain ⟨s', hdone, hperforms⟩ := block_performs (.lock m) hplaced howned
      hidle hlife ⟨rfl, not_lt.mp hcounter⟩
    refine ⟨s', ?_, hperforms⟩
    simp only [hcounter, if_false, hdone]
    rfl

theorem v_performs {a : Address} (hplaced : Placed machine s s.life place) :
    ∃ s', s.v (.semaphore a) = .ok s' ∧ Performs machine cpu s (.v a) s' := by
  refine ⟨_, State.v_eq hplaced _, _, .v, ?_⟩
  rw [settled_eq (State.released_keeps _).life]

theorem unlock_performs (hplaced : Placed machine s s.life place)
    (howned : Owned s none held) (howner : s.owner m = some t) :
    ∃ s', s.exec machine cpu (.unlock m) = .ok s' ∧
      Performs machine cpu s (.unlock m) s' := by
  obtain ⟨mutexes, hremove, -, -⟩ := howned.holds.remove m
    (length_le_addresses (howned.holds.queue t).nodup)
  refine ⟨s.unlocked m t mutexes, ?_, _, .unlock howner hremove, ?_⟩
  · unfold State.exec
    simp only
    rw [State.unlock_eq hplaced howner hremove]
    rfl
  · rw [settled_eq (State.unlocked_keeps mutexes).life]

theorem wakeup_performs (hplaced : Placed machine s s.life place)
    (hdestroyed : s.destroyed t = false) (hwakeable : s.Wakeable t) :
    ∃ s', s.wakeup t = .ok s' ∧ Performs machine cpu s (.wakeup t) s' := by
  obtain ⟨w, hwaiting, hmutex⟩ := hwakeable
  have hmem := (hplaced.listed _ t).mpr (hplaced.waits hwaiting hdestroyed)
  exact ⟨_, State.wakeup_eq_of_placed hplaced hmem, _, .wake hmem hmutex,
    .refl⟩

theorem assassin_performs {count : Nat}
    (hplaced : Placed machine s s.life place) (howned : Owned s none held)
    (hlife : s.life cpu = some t) :
    ∃ s', s.assassinEpilogue machine cpu count = .ok s' ∧
      Performs machine cpu s (.assassin count) s' := by
  change ∃ s', (deref ((s.served cpu count).life cpu) >>= fun active =>
    if (s.served cpu count).killed active then
      (s.served cpu count).exit machine cpu
    else pure (s.served cpu count)) = .ok s' ∧ _
  have hlife' : (s.served cpu count).life cpu = some t := hlife
  rw [hlife', deref_some, ok_bind]
  by_cases hkilled : s.killed t = true
  · have hidle := hplaced.not_idle_of_killed hkilled
    have hentry : Entry machine cpu s (.assassin count) _ :=
      .execute hidle hlife hkilled
    obtain ⟨s', hdone, hfollows⟩ := destroy_dispatch_moves
      (s := s.served cpu count)
      (hentry.consistent ⟨place, held, hplaced, howned⟩)
      (by simp [State.served, hlife])
    refine ⟨s', ?_, _, hentry, hfollows⟩
    have hkilled' : (s.served cpu count).killed t = true := hkilled
    rw [if_pos hkilled']
    unfold State.exit State.active
    rw [hlife']
    exact hdone
  · have hkilled' : ¬ (s.served cpu count).killed t = true := hkilled
    rw [if_neg hkilled']
    rw [Bool.not_eq_true] at hkilled
    exact ⟨_, rfl, _, .serve hlife hkilled, .refl⟩

/-! ### Operations on bells -/

/-- What may happen when a linked bell is gone. -/
def Fault (stop : Stop) : Prop := stop = .useAfterFree ∨ stop = .endlessLoop

theorem touch_outcome (b : Bell) :
    Outcome Fault (fun _ => s.Live b) (s.touch b) := by
  unfold State.touch
  split
  · next hlive => exact hlive
  · exact Or.inl rfl

theorem inherit_outcome (b : Bell) :
    Outcome Fault (fun _ => True) (s.inherit b) := by
  unfold State.inherit
  split
  · trivial
  · exact (touch_outcome _).bind fun _ _ => trivial

theorem remove_outcome [DecidableEq ι] [DecidableEq α] (qs : Queues ι α)
    (i : ι) (item : α) : Outcome Fault (fun _ => True) (qs.remove i item) := by
  unfold Queues.remove Queues.removeWith
  generalize Place.head = prev
  generalize (qs.queue i).head = start
  generalize Queues.addresses = fuel
  induction fuel generalizing prev start with
  | zero =>
      cases start with
      | none => trivial
      | some current => exact Or.inr rfl
  | succ fuel ih =>
      cases start with
      | none => trivial
      | some current =>
          unfold Queues.removeFrom
          split
          · trivial
          · exact ih _ _

theorem cancel_outcome (b : Bell) :
    Outcome Fault (fun s' => s.cancel b = .ok s') (s.cancel b) := by
  have houtcome : Outcome Fault (fun _ => True) (s.cancel b) :=
    (touch_outcome b).bind fun _ _ => (inherit_outcome b).bind fun s _ =>
      (remove_outcome s.bells () b).bind fun _ _ => trivial
  cases hdone : s.cancel b with
  | ok s' => rfl
  | error stop =>
      rw [hdone] at houtcome
      exact houtcome

theorem jobFrom_outcome (prev : Option Bell) (ms fuel : Nat)
    (b : Option Bell) :
    Outcome Fault (fun _ => True) (s.jobFrom prev ms fuel b) := by
  induction fuel generalizing prev ms b with
  | zero =>
      cases b with
      | none => trivial
      | some b => exact Or.inr rfl
  | succ fuel ih =>
      cases b with
      | none => trivial
      | some b =>
          refine (touch_outcome b).bind fun _ _ => ?_
          split
          · trivial
          · exact ih _ _ _

theorem touchTail_outcome (s : State Lists) :
    Outcome Fault (fun _ => True) s.touchTail := by
  unfold State.touchTail
  split
  · trivial
  · exact (touch_outcome _).mono fun _ _ => trivial

theorem job_outcome (b : Bell) (ms : Nat) :
    Outcome Fault (fun s' => s.job b ms = .ok s') (s.job b ms) := by
  have houtcome : Outcome Fault (fun _ => True) (s.job b ms) := by
    refine (jobFrom_outcome _ _ _ _).bind fun ⟨⟨prev, _⟩, _⟩ _ => ?_
    cases prev with
    | none => trivial
    | some prev => exact (touchTail_outcome _).bind fun _ _ => trivial
  cases hdone : s.job b ms with
  | ok s' => rfl
  | error stop =>
      rw [hdone] at houtcome
      exact houtcome

theorem ring_performs {b : Bell} (hplaced : Placed machine s s.life place)
    (hlive : s.Live b) :
    ∃ s', s.ring b = .ok s' ∧ Performs machine cpu s (.ring b) s' := by
  refine ⟨_, State.ring_eq hplaced hlive, _, .ring hlive, ?_⟩
  rw [settled_eq (State.rung_keeps b).life]

theorem checkFrom_moves (cpu : Cpu) (fuel : Nat) (first : Bell)
    (hconsistent : s.settled.Consistent machine)
    (hfirst : s.bells.first () = some first) :
    Outcome Fault (fun s' => Relation.ReflTransGen (Follow machine cpu)
      s.settled s'.settled) (s.checkFrom fuel first) := by
  induction fuel generalizing s first with
  | zero => exact Or.inr rfl
  | succ fuel ih =>
      obtain ⟨place, held, hplaced, howned⟩ := hconsistent
      have hring : Outcome Fault (fun s' => s.Live first ∧ s' = s.rung first)
          (s.ring first) := by
        by_cases hlive : s.Live first
        · rw [State.ring_eq hplaced hlive]
          exact ⟨hlive, rfl⟩
        · unfold State.ring State.touch
          rw [if_neg hlive]
          exact Or.inl rfl
      refine hring.bind fun rung hrung => ?_
      obtain ⟨hlive, rfl⟩ := hrung
      refine (cancel_outcome first).bind fun s' hcancel => ?_
      have hsame : s'.life = s.life := by
        obtain ⟨bells, ms, rfl⟩ := State.cancel_frame hcancel
        exact (State.rung_keeps first).life
      have hstep : Follow machine cpu s.settled s'.settled := by
        rw [settled_eq hsame]
        exact .expire hfirst hlive hcancel
      have hconsistent' :=
        hstep.consistent ⟨place, held, hplaced, howned⟩
      cases hnext : s'.bells.first () with
      | none => exact .single hstep
      | some next =>
          refine (touch_outcome next).bind fun _ _ => ?_
          split
          · exact (ih next hconsistent' hnext).mono
              fun _ hrest => .head hstep hrest
          · exact .single hstep

theorem check_performs (hplaced : Placed machine s s.life place)
    (howned : Owned s none held) :
    Outcome Fault (Performs machine cpu s .check) s.check := by
  unfold State.check
  cases hfirst : s.bells.first () with
  | none => exact ⟨_, .start trivial, .refl⟩
  | some first =>
      refine (touch_outcome first).bind fun _ hlive => ?_
      have hentry : Entry machine cpu s .check _ := .tick hfirst hlive
      have hconsistent := hentry.consistent ⟨place, held, hplaced, howned⟩
      dsimp only
      split
      · exact (checkFrom_moves cpu _ first hconsistent hfirst).mono
          fun s' hfollows => ⟨_, hentry, hfollows⟩
      · exact ⟨_, hentry, .refl⟩

theorem sleep_blocks {ms : Nat} {frame : Address}
    (hplaced : Placed machine s s.life place) (howned : Owned s none held)
    (hidle : ¬ machine.Idle t) (hlife : s.life cpu = some t) (hms : ms ≠ 0)
    (hjob : (s.prepared ⟨t, frame⟩).job ⟨t, frame⟩ ms = .ok s') :
    ∃ s'', s'.block machine cpu (.bell ⟨t, frame⟩) = .ok s'' ∧
      Performs machine cpu s (.sleep ms frame) s'' := by
  have hentry : Entry machine cpu s (.sleep ms frame) _ :=
    .sleep hidle hlife hms hjob
  obtain ⟨-, -, -, -, hfresh⟩ := hplaced.runs hlife
  obtain ⟨bells, times, rfl⟩ := State.job_frame hjob
  have hthreads := hplaced.prepared_threads hlife frame
  obtain ⟨s'', hdone, hfollows⟩ := block_moves
    (s := { s.prepared ⟨t, frame⟩ with bells, ms := times })
    (hentry.consistent ⟨place, held, hplaced, howned⟩) hlife
    (by simpa [hthreads] using hfresh)
  exact ⟨s'', hdone, _, hentry, hfollows⟩

theorem sleep_eq {ms : Nat} {frame : Address} (hlife : s.life cpu = some t)
    (hms : ms ≠ 0) : s.sleep machine cpu ms frame =
      ((s.prepared ⟨t, frame⟩).job ⟨t, frame⟩ ms >>= fun s =>
        s.block machine cpu (.bell ⟨t, frame⟩)) := by
  have hactive : deref (s.active cpu) = .ok t := by
    simp [State.active, hlife]
  unfold State.sleep
  rw [if_neg hms, hactive]
  rfl

theorem sleep_performs {ms : Nat} {frame : Address}
    (hplaced : Placed machine s s.life place) (howned : Owned s none held)
    (hidle : ¬ machine.Idle t) (hlife : s.life cpu = some t) :
    Outcome Fault (Performs machine cpu s (.sleep ms frame))
      (s.sleep machine cpu ms frame) := by
  by_cases hms : ms = 0
  · unfold State.sleep
    rw [if_pos hms]
    exact ⟨_, .start trivial, .refl⟩
  · rw [sleep_eq hlife hms]
    refine Outcome.bind (job_outcome (s := s.prepared ⟨t, frame⟩) _ ms)
      fun s' hjob => .of_ok ?_
    exact sleep_blocks hplaced howned hidle hlife hms hjob

/-! ### All of them -/

/-- The operations that follow the links of the bellringer. -/
def Event.WalksBells : Event → Prop
  | .sleep _ _ => True
  | .check => True
  | _ => False

/-- Every operation succeeds, unless it walks into a bell that is gone. -/
theorem exec_performs {event : Event} (hconsistent : s.settled.Consistent machine)
    (henabled : s.Enabled machine cpu event) :
    (¬ event.WalksBells →
      ∃ s', s.exec machine cpu event = .ok s') ∧
    Outcome Fault (Performs machine cpu s event)
      (s.exec machine cpu event) := by
  obtain ⟨place, held, hplaced, howned⟩ := hconsistent
  change Placed machine s s.life place at hplaced
  change Owned s none held at howned
  have hsucceeds : ∀ {event : Event},
      (∃ s', s.exec machine cpu event = .ok s' ∧
        Performs machine cpu s event s') →
      (¬ event.WalksBells → ∃ s', s.exec machine cpu event = .ok s') ∧
      Outcome Fault (Performs machine cpu s event)
        (s.exec machine cpu event) := by
    intro event hdone
    refine ⟨fun _ => ?_, .of_ok hdone⟩
    obtain ⟨s', hok, -⟩ := hdone
    exact ⟨s', hok⟩
  cases event with
  | schedule => exact hsucceeds (schedule_performs hplaced henabled)
  | ready that =>
      exact hsucceeds (ready_performs hplaced henabled.1 henabled.2)
  | exit =>
      obtain ⟨t, hlife, hidle⟩ := henabled
      exact hsucceeds (exit_performs .exit trivial hplaced howned hlife hidle)
  | kill that =>
      exact hsucceeds (kill_performs hplaced howned henabled.1 henabled.2)
  | resume =>
      obtain ⟨t, hlife⟩ := Option.ne_none_iff_exists'.mp henabled
      exact hsucceeds (resume_performs hplaced howned hlife)
  | block w =>
      obtain ⟨⟨t, hlife, hidle⟩, hkind⟩ := henabled
      exact hsucceeds
        (block_performs (.block w) hplaced howned hidle hlife ⟨rfl, hkind⟩)
  | wakeup customer =>
      exact hsucceeds (wakeup_performs hplaced henabled.1 henabled.2)
  | p a =>
      obtain ⟨t, hlife, hidle⟩ := henabled
      exact hsucceeds (p_performs hplaced howned hidle hlife)
  | v a => exact hsucceeds (v_performs hplaced)
  | ring b => exact hsucceeds (ring_performs hplaced henabled)
  | lock m =>
      obtain ⟨t, hlife, hidle⟩ := henabled
      exact hsucceeds (lock_performs hplaced howned hidle hlife)
  | unlock m =>
      obtain ⟨t, -, howner⟩ := henabled
      exact hsucceeds (unlock_performs hplaced howned howner)
  | sleep ms frame =>
      obtain ⟨⟨t, hlife, hidle⟩, -⟩ := henabled
      exact ⟨fun hnot => absurd trivial hnot,
        sleep_performs hplaced howned hidle hlife⟩
  | check =>
      exact ⟨fun hnot => absurd trivial hnot, check_performs hplaced howned⟩
  | assassin count =>
      obtain ⟨t, hlife⟩ := Option.ne_none_iff_exists'.mp henabled.1
      exact hsucceeds (assassin_performs hplaced howned hlife)
  | dropAssassins count => exact hsucceeds ⟨_, rfl, _, .drop, .refl⟩

end X86Os32.Scheduler
