import X86Os32.Thread.Invariants

namespace X86Os32.Scheduler

open Library

/-! The kill flag.  A thread that runs on another CPU when it is killed is only
flagged, and dies when it is next asked about the flag.  `resume` and the
assassin ask; `block` and `wakeup` do not. -/

def Event.Blocking (s : State σ) : Event → Prop
  | .block _ => True
  | .p a => s.counter (.semaphore a) ≤ 0
  | .lock m => s.counter (.mutex m) ≤ 0
  | .sleep ms _ => ms ≠ 0
  | _ => False

instance (s : State σ) : DecidablePred (Event.Blocking s)
  | .block _ => inferInstanceAs (Decidable True)
  | .p _ | .lock _ => inferInstanceAs (Decidable (_ ≤ _))
  | .sleep _ _ => inferInstanceAs (Decidable (_ ≠ _))
  | .schedule | .ready _ | .exit | .kill _ | .resume | .wakeup _ | .v _ |
    .ring _ | .unlock _ | .check | .assassin _ | .dropAssassins _ =>
      inferInstanceAs (Decidable False)

def Event.Drops : Event → Prop
  | .dropAssassins _ => True
  | _ => False

instance : DecidablePred Event.Drops
  | .dropAssassins _ => inferInstanceAs (Decidable True)
  | .schedule | .ready _ | .exit | .kill _ | .resume | .block _ | .wakeup _ | .p _ |
    .v _ | .ring _ | .lock _ | .unlock _ | .sleep _ _ | .check | .assassin _ =>
      inferInstanceAs (Decidable False)

/-- No thread with the kill flag blocks, none is given to `ready`, and no assassin is
dropped. -/
def RespectsKillFlag (s : State σ) : Cpu × Event → Prop
  | (cpu, event) =>
      (event.Blocking s → ∀ t ∈ s.life cpu, s.killed t = false) ∧
        (∀ t ∈ event.readies, s.killed t = false) ∧ ¬event.Drops

instance (s : State σ) : DecidablePred (RespectsKillFlag s) :=
  fun (cpu, event) => by
    unfold RespectsKillFlag
    have hlife : Decidable (∀ t ∈ s.life cpu, s.killed t = false) :=
      Option.decidableForallMem _
    have hreadies : Decidable (∀ t ∈ event.readies, s.killed t = false) :=
      Option.decidableForallMem _
    infer_instance

/-- A killed thread whose assassins have all arrived neither runs nor is
ready. -/
def KilledIsGone (s : State Pointers) (lists : Lists) : Prop :=
  ∀ t, s.victim t = true → (∀ c, t ∉ s.assassin c) →
    t ∉ lists .readyList ∧ ∀ c, s.life c ≠ some t

/-- A flagged thread is dead, or was never readied, or an assassin is under way
to the CPU that it runs on. -/
def Doomed (s : State Lists) (current : Cpu → Option Address)
    (t : Address) : Prop :=
  s.destroyed t = true ∨ s.readied t = false ∨
    ∃ c, current c = some t ∧ t ∈ s.assassin c

structure Flagged (cfg : Config) : Prop where
  doomed : ∀ t, cfg.state.killed t = true → Doomed cfg.state cfg.current t
  victim : ∀ t, cfg.state.victim t = true →
    cfg.state.killed t = true ∨ cfg.state.destroyed t = true

variable {machine : Machine} {s s' : State Lists} {cpu : Cpu} {t : Address}
  {w : Room} {current current' : Cpu → Option Address}
  {dying dying' : Option Address}

structure SameFlags (s s' : State Lists) : Prop where
  killed : s'.killed = s.killed
  readied : s'.readied = s.readied
  destroyed : s'.destroyed = s.destroyed
  assassin : s'.assassin = s.assassin
  victim : s'.victim = s.victim

theorem State.Keeps.flags (hkeeps : State.Keeps s s') : SameFlags s s' :=
  ⟨hkeeps.killed, hkeeps.readied, hkeeps.destroyed, hkeeps.assassin,
    hkeeps.victim⟩

theorem State.continued_flags : SameFlags s (s.continued t) := by
  unfold State.continued
  split <;> exact ⟨rfl, rfl, rfl, rfl, rfl⟩

theorem State.dispatched_flags : SameFlags s (s.dispatched machine cpu) := by
  obtain ⟨h1, h2, h3, h4, h5⟩ := State.continued_flags
    (t := s.next machine cpu) (s := { s with
      threads := s.threads.erase .readyList (s.next machine cpu)
      life := Function.update s.life cpu (some (s.next machine cpu)) })
  exact ⟨h1, h2, h3, h4, h5⟩

namespace Flagged

/-- Steps that set no flag.  The assassins of the threads that run with the flag
stay under way. -/
theorem keep (hflagged : Flagged ⟨s, current, dying⟩)
    (hkilled : s'.killed = s.killed) (hreadied : s'.readied = s.readied)
    (hdestroyed : s'.destroyed = s.destroyed) (hvictim : s'.victim = s.victim)
    (hpending : ∀ c t, s.killed t = true → current c = some t →
      t ∈ s.assassin c → current' c = some t ∧ t ∈ s'.assassin c) :
    Flagged ⟨s', current', dying'⟩ where
  doomed t hflag := by
    change s'.killed t = true at hflag
    rw [hkilled] at hflag
    unfold Doomed
    rw [hdestroyed, hreadied]
    rcases hflagged.doomed t hflag with hdead | hnew | ⟨c, hc, hassassin⟩
    · exact Or.inl hdead
    · exact Or.inr (Or.inl hnew)
    · exact Or.inr (Or.inr ⟨c, hpending c t hflag hc hassassin⟩)
  victim t ht := by
    change s'.victim t = true at ht
    rw [hvictim] at ht
    change s'.killed t = true ∨ s'.destroyed t = true
    rw [hkilled, hdestroyed]
    exact hflagged.victim t ht

/-- Steps that leave the flags alone, and take no flagged thread off its
CPU. -/
theorem frame (hflagged : Flagged ⟨s, current, dying⟩)
    (hsame : SameFlags s s')
    (hcurrent : ∀ c t, s.killed t = true → current c = some t →
      current' c = some t) :
    Flagged ⟨s', current', dying'⟩ :=
  hflagged.keep hsame.killed hsame.readied hsame.destroyed hsame.victim
    fun c t hflag hc hassassin =>
      ⟨hcurrent c t hflag hc, hsame.assassin ▸ hassassin⟩

theorem mark (hflagged : Flagged ⟨s, current, dying⟩)
    (hkilled : s'.killed = Function.update s.killed t true)
    (hvictim : s'.victim = Function.update s.victim t true)
    (hreadied : s'.readied = s.readied)
    (hdestroyed : s'.destroyed = s.destroyed)
    (hassassin : ∀ c, s.assassin c ⊆ s'.assassin c)
    (hdoomed : Doomed s' current t) : Flagged ⟨s', current, dying'⟩ where
  doomed u hflag := by
    by_cases heq : u = t
    · rw [heq]
      exact hdoomed
    · have hold : s.killed u = true := by simpa [hkilled, heq] using hflag
      unfold Doomed
      rw [hdestroyed, hreadied]
      rcases hflagged.doomed u hold with hdead | hnew | ⟨c, hc, hpending⟩
      · exact Or.inl hdead
      · exact Or.inr (Or.inl hnew)
      · exact Or.inr (Or.inr ⟨c, hc, hassassin c hpending⟩)
  victim u hu := by
    change s'.killed u = true ∨ s'.destroyed u = true
    rw [hkilled, hdestroyed]
    by_cases heq : u = t
    · exact Or.inl (by simp [heq])
    · have hold : s.victim u = true := by simpa [hvictim, heq] using hu
      simpa [heq] using hflagged.victim u hold

theorem off (hcurrent : current cpu = some t) (hkilled : s.killed t = false)
    (c : Cpu) (u : Address) (hflag : s.killed u = true)
    (hu : current c = some u) :
    Function.update current cpu none c = some u := by
  have hne : c ≠ cpu := by
    rintro rfl
    obtain rfl : t = u := by simpa [hcurrent] using hu
    simp [hkilled] at hflag
  rw [Function.update_of_ne hne, hu]

theorem bury (hflagged : Flagged ⟨s, current, dying⟩)
    (hkilled : ∀ u, u ≠ t → s'.killed u = s.killed u)
    (hreadied : s'.readied = s.readied)
    (hdestroyed : s'.destroyed = Function.update s.destroyed t true)
    (hassassin : ∀ c u, u ≠ t → current c = some u →
      u ∈ s.assassin c → u ∈ s'.assassin c)
    (hvictim : ∀ u, u ≠ t → s'.victim u = s.victim u)
    (hcurrent : ∀ c u, u ≠ t → current c = some u → current' c = some u) :
    Flagged ⟨s', current', dying'⟩ where
  doomed u hu := by
    change s'.killed u = true at hu
    unfold Doomed
    rw [hdestroyed, hreadied]
    by_cases heq : u = t
    · exact Or.inl (by simp [heq])
    · rw [hkilled u heq] at hu
      rcases hflagged.doomed u hu with hdead | hnew | ⟨c, hc, hpending⟩
      · exact Or.inl (by simpa [heq] using hdead)
      · exact Or.inr (Or.inl hnew)
      · exact Or.inr (Or.inr ⟨c, hcurrent c u heq hc,
          hassassin c u heq hc hpending⟩)
  victim u hu := by
    change s'.victim u = true at hu
    change s'.killed u = true ∨ s'.destroyed u = true
    rw [hdestroyed]
    by_cases heq : u = t
    · exact Or.inr (by simp [heq])
    · rw [hvictim u heq] at hu
      rw [hkilled u heq]
      rcases hflagged.victim u hu with hflag | hdead
      · exact Or.inl hflag
      · exact Or.inr (by simpa [heq] using hdead)

theorem off_dead (hcurrent : current cpu = some t) (c : Cpu) (u : Address)
    (hne : u ≠ t) (hu : current c = some u) :
    Function.update current cpu none c = some u := by
  have hc : c ≠ cpu := by
    rintro rfl
    rw [hcurrent] at hu
    exact hne (Option.some.inj hu).symm
  rw [Function.update_of_ne hc, hu]

end Flagged

theorem Event.Blocks.blocking {a : State Lists} {event : Event}
    (hblocks : event.Blocks a w) : event.Blocking a := by
  cases event with
  | block => trivial
  | p _ =>
      obtain ⟨rfl, hcounter⟩ := hblocks
      exact hcounter
  | lock _ =>
      obtain ⟨rfl, hcounter⟩ := hblocks
      exact hcounter
  | _ => exact hblocks.elim

theorem flagged_invariant :
    Invariant machine RespectsKillFlag Flagged where
  initial values := ⟨by simp [listInitial, initial],
    by simp [listInitial, initial]⟩
  entry {a cpu event cfg} hconsistent hflagged hallowed hentry := by
    obtain ⟨place, held, hplaced, -⟩ := hconsistent
    change Placed machine a a.life place at hplaced
    obtain ⟨hblocking, hready, hkept⟩ := hallowed
    have hstay : ∀ c t, a.killed t = true → a.life c = some t →
        a.life c = some t := fun _ _ _ hc => hc
    cases hentry with
    | start => exact hflagged
    | @ready t hreadied hidle =>
        have hkilled := hready t rfl
        refine ⟨fun u hu => ?_, hflagged.victim⟩
        have hne : u ≠ t := by
          rintro rfl
          have hu' : a.killed u = true := hu
          simp [hkilled] at hu'
        rcases hflagged.doomed u hu with hdead | hnew | hpending
        · exact Or.inl hdead
        · exact Or.inr (Or.inl (by simpa [State.admitted, hne] using hnew))
        · exact Or.inr (Or.inr hpending)
    | pull hmem =>
        exact hflagged.bury (fun _ _ => rfl) rfl rfl (fun _ _ _ _ h => h)
          (fun u hne => by simp [State.marked, State.pulled, State.buried, hne])
          (fun _ _ _ h => h)
    | @flag t hidle hlists hlife =>
        refine hflagged.mark rfl rfl rfl rfl (fun _ _ h => h) ?_
        -- A thread that is nowhere is dead, or was never readied.
        have hnowhere : place t = .nowhere := by
          cases hplace : place t with
          | nowhere => rfl
          | queue i => exact absurd ((hplaced.listed i t).mpr hplace) (hlists i)
          | cpu c => exact absurd ((hplaced.running c t).mpr hplace) (hlife c)
        by_cases hdead : a.destroyed t = true
        · exact Or.inl hdead
        · rw [Bool.not_eq_true] at hdead
          refine Or.inr (Or.inl ?_)
          by_contra hreadied
          rw [Bool.not_eq_false] at hreadied
          exact (hplaced.sits t).settled hreadied hdead hnowhere
    | @send t dest hidle hlife =>
        refine hflagged.mark rfl rfl rfl rfl (fun c u hu => ?_)
          (Or.inr (Or.inr ⟨dest, hlife, by simp [State.sent]⟩))
        by_cases hc : c = dest
        · subst hc
          have hold : u ∈ ((a.marked t).flagged t).assassin c := hu
          simp [State.sent, hold]
        · simpa [State.sent, State.flagged, State.marked, hc] using hu
    | self hidle hlife =>
        exact hflagged.bury
          (fun u hne => by
            simp [State.marked, State.flagged, State.buried, hne])
          rfl rfl (fun _ _ _ _ h => h)
          (fun u hne => by
            simp [State.marked, State.flagged, State.buried, hne])
          (Flagged.off_dead hlife)
    | park hidle hlife hkilled =>
        exact hflagged.frame ⟨rfl, rfl, rfl, rfl, rfl⟩
          (Flagged.off hlife hkilled)
    | idle hlife =>
        have hkilled := ((hplaced.sits (machine.idlethread cpu)).idle
          ⟨cpu, rfl⟩).2
        exact hflagged.frame ⟨rfl, rfl, rfl, rfl, rfl⟩
          (Flagged.off hlife hkilled)
    | block hidle hlife hblocks =>
        exact hflagged.frame ⟨rfl, rfl, rfl, rfl, rfl⟩
          (Flagged.off hlife (hblocking hblocks.blocking _ hlife))
    | count hcounter =>
        exact hflagged.frame ⟨rfl, rfl, rfl, rfl, rfl⟩ hstay
    | lock hlife hcounter =>
        exact hflagged.frame ⟨rfl, rfl, rfl, rfl, rfl⟩ hstay
    | v => exact hflagged.frame (State.released_keeps _).flags hstay
    | unlock howner hremove =>
        exact hflagged.frame (State.unlocked_keeps _).flags hstay
    | wake hmem hmutex =>
        exact hflagged.frame ⟨rfl, rfl, rfl, rfl, rfl⟩ hstay
    | ring hlive => exact hflagged.frame (State.rung_keeps _).flags hstay
    | sleep hidle hlife hms hjob =>
        obtain ⟨bells, times, rfl⟩ := State.job_frame hjob
        exact hflagged.frame ⟨rfl, rfl, rfl, rfl, rfl⟩
          (Flagged.off hlife (hblocking hms _ hlife))
    | tick hfirst hlive =>
        exact hflagged.frame ⟨rfl, rfl, rfl, rfl, rfl⟩ hstay
    | @serve t count hlife hkilled =>
        refine hflagged.keep rfl rfl rfl rfl fun c u hflag hc hpending =>
          ⟨hc, ?_⟩
        have hne : c ≠ cpu := by
          rintro rfl
          obtain rfl : t = u := by simpa [hlife] using hc
          simp [hkilled] at hflag
        simpa [State.served, hne] using hpending
    | drop => exact absurd trivial hkept
    | @execute t count hidle hlife hkilled =>
        refine hflagged.bury (fun _ _ => rfl) rfl rfl
          (fun c u hne hc hpending => ?_) (fun _ _ => rfl)
          (Flagged.off_dead hlife)
        have hother : c ≠ cpu := by
          rintro rfl
          exact hne (Option.some.inj (hc.symm.trans hlife))
        simpa [State.buried, State.served, hother] using hpending
  follow {cpu cfg cfg'} hconsistent hflagged hfollow := by
    cases hfollow with
    | retire hidle hcurrent =>
        exact hflagged.bury (fun _ _ => rfl) rfl rfl (fun _ _ _ _ h => h)
          (fun _ _ => rfl) (Flagged.off_dead hcurrent)
    | unlock howner hremove =>
        exact hflagged.frame (State.unlocked_keeps _).flags
          fun _ _ _ hc => hc
    | finish hfree => exact ⟨hflagged.doomed, hflagged.victim⟩
    | expire hfirst hlive hcancel =>
        obtain ⟨bells, times, rfl⟩ := State.cancel_frame hcancel
        obtain ⟨hkilled, hreadied, hdestroyed, hassassin, hvictim⟩ :=
          (State.rung_keeps _).flags
        exact hflagged.frame
          ⟨hkilled, hreadied, hdestroyed, hassassin, hvictim⟩
          fun _ _ _ hc => hc
    | @dispatch current s hcurrent =>
        refine hflagged.frame State.dispatched_flags fun c u _ hc => ?_
        have hne : c ≠ cpu := by
          rintro rfl
          simp [hcurrent] at hc
        rw [Function.update_of_ne hne, hc]

/-- In a run in which no thread with the kill flag blocks, none is given to `ready` and
no assassin is dropped, a killed thread never runs again. -/
theorem killed_is_gone {s : State Pointers}
    (hreach : ReachableBy machine RespectsKillFlag s) :
    ∃ lists, s.threads.Holds lists ∧ KilledIsGone s lists := by
  have hallowed : ∀ (s : State Pointers) a event, Represents s a →
      RespectsKillFlag s event → RespectsKillFlag a event := by
    rintro s a event ⟨qs, -, rfl⟩ hrespects
    exact hrespects
  obtain ⟨a, ⟨qs, hholds, rfl⟩, ⟨place, held, hplaced, -⟩, hflagged⟩ :=
    hreach.represents hallowed flagged_invariant
  change Placed machine a a.life place at hplaced
  refine ⟨a.threads, hholds, fun t hvictim hserved => ?_⟩
  have hnowhere : place t = .nowhere := by
    have hburied : a.destroyed t = true → place t = .nowhere :=
      fun hdead => ((hplaced.sits t).buried hdead).2
    rcases hflagged.victim t hvictim with hkilled | hdead
    · rcases hflagged.doomed t hkilled with hdead | hnew | ⟨c, -, hpending⟩
      · exact hburied hdead
      · rcases (hplaced.sits t).unreadied hnew with hplace | ⟨c, hc, -⟩
        · exact hplace
        · exact absurd ⟨c, hc⟩ (hplaced.not_idle_of_killed hkilled)
      · exact absurd hpending (hserved c)
    · exact hburied hdead
  refine ⟨hplaced.fresh (by simp [hnowhere]) _, fun c hlife => ?_⟩
  have hplace := (hplaced.running c t).mp hlife
  simp [hnowhere] at hplace

/-- The assassin comes for a thread that runs. -/
theorem killed_is_gone_served :
    ∃ s, s.victim 200 = true ∧ (∀ c, s.assassin c = []) ∧
      ∃ lists, s.threads.Holds lists ∧ KilledIsGone s lists := by
  have hrun : (sampleRunBy RespectsKillFlag [(0, .ready 100), (0, .ready 200),
      (0, .schedule), (1, .schedule), (0, .kill 200), (1, .assassin 1)]).any
      fun s => s.victim 200 = true ∧ ∀ c, s.assassin c = [] := by
    decide +kernel
  obtain ⟨s, hreach, hcheck⟩ := sampleRunBy_reaches hrun
  simp only [decide_eq_true_eq] at hcheck
  exact ⟨s, hcheck.1, hcheck.2, killed_is_gone hreach⟩

/-- A thread blocks between its kill and the arrival of the assassin, and is
ready again. -/
theorem killed_is_ready :
    ¬ ∀ machine s, Reachable machine s →
      ∃ lists, s.threads.Holds lists ∧ KilledIsGone s lists := by
  intro hclaim
  have hrun : (sampleRun [(0, .ready 100), (0, .ready 200), (0, .schedule),
      (1, .schedule), (0, .kill 200), (1, .p 5), (1, .assassin 1),
      (0, .v 5)]).any fun s => s.victim 200 = true ∧
        (∀ c, s.assassin c = []) ∧
        s.threads.first .readyList = some 200 := by
    decide +kernel
  obtain ⟨s, hreach, hcheck⟩ := sampleRun_reaches hrun
  simp only [decide_eq_true_eq] at hcheck
  obtain ⟨hvictim, hserved, hfirst⟩ := hcheck
  obtain ⟨lists, hholds, hgone⟩ := hclaim sampleMachine s hreach
  have hnot := (hgone 200 hvictim (by simp [hserved])).1
  have hhead := (hholds.queue .readyList).head_eq
  rw [show (s.threads.queue .readyList).head = some 200 from hfirst] at hhead
  exact hnot (List.mem_of_mem_head? hhead.symm)

/-- The assassin is dropped, and the killed thread goes on. -/
theorem killed_runs_on :
    ∃ s, Reachable sampleMachine s ∧ s.victim 200 = true ∧
      (∀ c, s.assassin c = []) ∧ s.life 1 = some 200 := by
  have hrun : (sampleRun [(0, .ready 100), (0, .ready 200), (0, .schedule),
      (1, .schedule), (0, .kill 200), (1, .dropAssassins 1)]).any fun s =>
        s.victim 200 = true ∧ (∀ c, s.assassin c = []) ∧
          s.life 1 = some 200 := by
    decide +kernel
  obtain ⟨s, hreach, hcheck⟩ := sampleRun_reaches hrun
  simp only [decide_eq_true_eq] at hcheck
  exact ⟨s, hreach, hcheck⟩

end X86Os32.Scheduler
