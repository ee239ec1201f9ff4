import X86Os32.Thread.Invariants

namespace X86Os32.Scheduler

open Library

/-! The token of a mutex is never lost, unless a thread is killed that
`unlock` has woken and that has not run since. -/

variable {machine : Machine} {s s' : State Lists} {cpu : Cpu} {t m : Address}
  {w : Room} {current : Cpu → Option Address} {place : Address → Location}
  {held : Address → List Address} {dying : Option Address}

/-- A live thread has been granted the mutex in `p`, and is on its way to
becoming the owner. -/
def State.InTransit (s : State σ) (m t : Address) : Prop :=
  s.destroyed t = false ∧ s.waitingIn t = none ∧
    s.resumption t = some (.lock m)

/-- If no live thread owns the mutex, and none is on its way to it, then the
mutex is free. -/
def MutexKept (s : State Pointers) (m : Address) : Prop :=
  (∀ t, s.owner m = some t → s.destroyed t = true) →
    (∀ t, ¬ s.InTransit m t) →
      s.counter (.mutex m) = 1 ∧ s.threads.first (.room (.mutex m)) = none

def Resumption.isLock : Resumption → Bool
  | .lock _ => true
  | .sleep _ => false

def State.Underway (s : State σ) (t : Address) : Prop :=
  s.waitingIn t = none ∧ ∃ r ∈ s.resumption t, r.isLock = true

instance (s : State σ) (t : Address) : Decidable (s.Underway t) := by
  have hlock : Decidable (∃ r ∈ s.resumption t, r.isLock = true) :=
    Option.decidableExistsMem _
  exact inferInstanceAs (Decidable (_ ∧ _))

/-- No thread is killed while it is on its way to a mutex. -/
def SparesUnderway (s : State σ) : Cpu × Event → Prop
  | (_, event) => ∀ t ∈ event.kills, ¬ s.Underway t

instance (s : State σ) : DecidablePred (SparesUnderway s) :=
  fun (_, event) => by
    have hkills : Decidable (∀ t ∈ event.kills, ¬ s.Underway t) :=
      Option.decidableForallMem _
    exact hkills

/-- The token is somewhere, and a mutex that is free has nobody waiting. -/
structure Kept (s : State Lists) : Prop where
  token : ∀ m, s.counter (.mutex m) = 1 ∨ s.owner m ≠ none ∨
    ∃ t, s.Granted m t
  empty : ∀ m, s.counter (.mutex m) = 1 → s.threads (.room (.mutex m)) = []

namespace Kept

theorem frame (hkept : Kept s)
    (hcounter : ∀ m, s'.counter (.mutex m) = s.counter (.mutex m))
    (howner : s'.owner = s.owner)
    (hgranted : ∀ m t, s.Granted m t → s'.Granted m t)
    (hrooms : ∀ m, s.counter (.mutex m) = 1 →
      s.threads (.room (.mutex m)) = [] →
      s'.threads (.room (.mutex m)) = []) : Kept s' where
  token m := by
    rw [hcounter, howner]
    rcases hkept.token m with hfree | howned | ⟨t, ht⟩
    · exact Or.inl hfree
    · exact Or.inr (Or.inl howned)
    · exact Or.inr (Or.inr ⟨t, hgranted m t ht⟩)
  empty m hm := by
    rw [hcounter] at hm
    exact hrooms m hm (hkept.empty m hm)

theorem same (hkept : Kept s) (hcounter : s'.counter = s.counter)
    (howner : s'.owner = s.owner) (hthreads : s'.threads = s.threads)
    (hresumption : s'.resumption = s.resumption) : Kept s' := by
  refine hkept.frame (fun m => by rw [hcounter]) howner ?_
    (fun m _ hm => by rw [hthreads, hm])
  rintro m t ⟨hmem, ht⟩
  exact ⟨hthreads ▸ hmem, hresumption ▸ ht⟩

theorem moved (hkept : Kept s)
    (hcounter : ∀ m, s'.counter (.mutex m) = s.counter (.mutex m))
    (howner : s'.owner = s.owner)
    (hnot : ∀ m, ¬ s.Granted m t)
    (hready : ∀ u, u ≠ t → u ∈ s.threads .readyList →
      u ∈ s'.threads .readyList)
    (hresumption : ∀ u, u ≠ t → s'.resumption u = s.resumption u)
    (hrooms : ∀ m, s.counter (.mutex m) = 1 →
      s.threads (.room (.mutex m)) = [] →
      s'.threads (.room (.mutex m)) = []) : Kept s' := by
  refine hkept.frame hcounter howner ?_ hrooms
  rintro m u ⟨hmem, hu⟩
  have hne : u ≠ t := by
    rintro rfl
    exact hnot m ⟨hmem, hu⟩
  exact ⟨hready u hne hmem, by rw [hresumption u hne, hu]⟩

theorem readied (hkept : Kept s) (hcounter : s'.counter = s.counter)
    (howner : s'.owner = s.owner)
    (hthreads : s'.threads = s.threads.append .readyList t)
    (hresumption : s'.resumption = s.resumption) : Kept s' := by
  refine hkept.frame (fun m => by rw [hcounter]) howner ?_ ?_
  · rintro m u ⟨hmem, hu⟩
    exact ⟨by simp [hthreads, Lists.append, hmem], hresumption ▸ hu⟩
  · intro m _ hm
    simpa [hthreads, Lists.append] using hm

theorem woken (hkept : Kept s) (hmutex : w.isMutex = false) :
    Kept (s.woken w t) := by
  have hne : ∀ m, Room.mutex m ≠ w := by
    rintro m rfl
    simp [Room.isMutex] at hmutex
  refine hkept.frame (fun _ => rfl) rfl ?_ ?_
  · rintro m u ⟨hmem, hu⟩
    exact ⟨by simp [State.woken, Lists.append, Lists.erase, hmem], hu⟩
  · intro m _ hm
    simpa [State.woken, Lists.append, Lists.erase, hne] using hm

theorem released (hkept : Kept s) (hmutex : w.isMutex = false) :
    Kept (s.released w) := by
  have hne : ∀ m, Room.mutex m ≠ w := by
    rintro m rfl
    simp [Room.isMutex] at hmutex
  unfold State.released
  split
  · exact hkept.frame (fun m => by simp [State.setCounter, hne]) rfl
      (fun _ _ h => h) (fun _ _ h => h)
  · exact hkept.woken hmutex

theorem rung (hkept : Kept s) (b : Bell) : Kept (s.rung b) := by
  unfold State.rung
  split
  · exact hkept
  · exact hkept.woken rfl

/-- `unlock` hands the token on. -/
theorem unlocked {mutexes : Queues Address Address} (hkept : Kept s)
    (howned : Owned s dying held) (hplaced : Placed machine s current place)
    (howner : s.owner m = some t) : Kept (s.unlocked m t mutexes) := by
  have hzero : s.counter (.mutex m) = 0 := by
    rcases howned.counter m with hzero | hone
    · exact hzero
    · simp [(howned.obtainable m hone).1] at howner
  cases hroom : s.threads (.room (.mutex m)) with
  | nil =>
      have heq : s.unlocked m t mutexes =
          (s.disowned m t mutexes).setCounter (.mutex m) 1 := by
        simp [State.unlocked, State.released, State.disowned, hroom, hzero, succInt]
      rw [heq]
      constructor
      · intro m'
        by_cases hm : m' = m
        · exact Or.inl (by simp [State.setCounter, hm])
        · simpa [State.setCounter, State.disowned, State.Granted, hm]
            using hkept.token m'
      · intro m' hm'
        by_cases hm : m' = m
        · rw [hm]
          exact hroom
        · exact hkept.empty m'
            (by simpa [State.setCounter, State.disowned, hm] using hm')
  | cons u rest =>
      have heq : s.unlocked m t mutexes =
          (s.disowned m t mutexes).woken (.mutex m) u := by
        simp [State.unlocked, State.released, State.disowned, hroom]
      have hplace := (hplaced.listed (.room (.mutex m)) u).mp (by simp [hroom])
      have hresumption := ((hplaced.sits u).room _ hplace).1
      rw [heq]
      constructor
      · intro m'
        by_cases hm : m' = m
        · refine Or.inr (Or.inr ⟨u, ?_, hm ▸ hresumption⟩)
          simp [State.woken, Lists.append]
        · rcases hkept.token m' with hfree | hheld | ⟨v, hmem, hv⟩
          · exact Or.inl hfree
          · exact Or.inr (Or.inl (by
              simpa [State.woken, State.disowned, hm] using hheld))
          · refine Or.inr (Or.inr ⟨v, ?_, hv⟩)
            simp [State.woken, State.disowned, Lists.append, Lists.erase, hmem]
      · intro m' hm'
        have hne : m' ≠ m := by
          rintro rfl
          have hone : s.counter (.mutex m') = 1 := hm'
          omega
        have hold := hkept.empty m' hm'
        simpa [State.woken, State.disowned, Lists.append, Lists.erase, hne]
          using hold

/-- The thread that is dispatched takes the token with it. -/
theorem dispatched (hkept : Kept s) : Kept (s.dispatched machine cpu) := by
  unfold State.dispatched
  generalize s.next machine cpu = t
  dsimp only
  have hready : ∀ u, u ≠ t → u ∈ s.threads .readyList →
      u ∈ s.threads.erase .readyList t .readyList := by
    intro u hne hmem
    simpa [Lists.erase] using (List.mem_erase_of_ne hne).mpr hmem
  have hrooms : ∀ m, s.threads (.room (.mutex m)) = [] →
      s.threads.erase .readyList t (.room (.mutex m)) = [] := by
    intro m hm
    simpa [Lists.erase] using hm
  unfold State.continued
  dsimp only
  cases hresumption : s.resumption t with
  | none =>
      refine hkept.moved (t := t) (fun _ => rfl) rfl ?_ hready
        (fun _ _ => rfl) (fun m _ => hrooms m)
      rintro m ⟨-, hm⟩
      simp [hresumption] at hm
  | some resumption =>
      cases resumption with
      | sleep frame =>
          refine hkept.moved (t := t) (fun _ => rfl) rfl ?_ hready
            (fun u hne => by simp [hne]) (fun m _ => hrooms m)
          rintro m ⟨-, hm⟩
          simp [hresumption] at hm
      | lock m =>
          constructor
          · intro m'
            by_cases hm : m' = m
            · exact Or.inr (Or.inl (by
                simp [State.owned, State.mutexHold, hm]))
            · rcases hkept.token m' with hfree | hheld | ⟨u, hmem, hu⟩
              · exact Or.inl hfree
              · exact Or.inr (Or.inl (by
                  simpa [State.owned, State.mutexHold, hm] using hheld))
              · have hne : u ≠ t := by
                  rintro rfl
                  rw [hresumption] at hu
                  simp [Ne.symm hm] at hu
                refine Or.inr (Or.inr ⟨u, hready u hne hmem, ?_⟩)
                simpa [State.owned, State.mutexHold, hne] using hu
          · exact fun m' hm' => hrooms m' (hkept.empty m' hm')

theorem blocked (hkept : Kept s) (hplaced : Placed machine s current place)
    (hcurrent : current cpu = some t)
    (hclosed : ∀ m, w = .mutex m → s.counter w ≤ 0) : Kept (s.blocked t w) := by
  obtain ⟨-, -, -, -, hfresh⟩ := hplaced.runs hcurrent
  refine hkept.moved (t := t) (fun _ => rfl) rfl ?_ ?_ ?_ ?_
  · rintro m ⟨hmem, -⟩
    exact hfresh _ hmem
  · intro u _ hmem
    simpa [State.blocked, Lists.append] using hmem
  · intro u hne
    simp [State.blocked, hne]
  · intro m hone hm
    have hne : Room.mutex m ≠ w := by
      rintro rfl
      have hle := hclosed m rfl
      omega
    simpa [State.blocked, Lists.append, hne] using hm

end Kept

theorem Event.Blocks.closed {event : Event}
    (hblocks : event.Blocks s (.mutex m)) : s.counter (.mutex m) ≤ 0 := by
  cases event with
  | lock _ => exact hblocks.2
  | block _ => simp [Event.Blocks, Room.isMutex] at hblocks
  | _ => simp [Event.Blocks] at hblocks

theorem kept_invariant :
    Invariant machine SparesUnderway fun cfg => Kept cfg.state where
  initial values := ⟨by simp [listInitial, initial],
    by simp [listInitial, initial]⟩
  entry {a cpu event cfg} hconsistent hkept hallowed hentry := by
    obtain ⟨place, held, hplaced, howned⟩ := hconsistent
    change Placed machine a a.life place at hplaced
    change Owned a none held at howned
    change Kept a at hkept
    cases hentry with
    | start => exact hkept
    | ready hreadied hidle => exact hkept.readied rfl rfl rfl rfl
    | @pull i t hmem =>
        refine hkept.moved (t := t) (fun _ => rfl) rfl ?_ ?_ (fun _ _ => rfl) ?_
        · rintro m ⟨hready, hresumption⟩
          have hplace := (hplaced.listed _ t).mp hready
          have hdestroyed :=
            hplaced.not_destroyed (by simp [hplace] : place t ≠ _)
          have hwaiting := hplaced.waitingIn_eq_none
            (by simp [hplace] : ∀ w, place t ≠ _) hdestroyed
          exact hallowed t rfl ⟨hwaiting, _, hresumption, rfl⟩
        · intro u hne hready
          by_cases hi : i = .readyList
          · subst hi
            simpa [State.pulled, State.buried, State.marked, Lists.erase]
              using (List.mem_erase_of_ne hne).mpr hready
          · simpa [State.pulled, State.buried, State.marked, Lists.erase,
              Ne.symm hi] using hready
        · intro m _ hm
          by_cases hi : i = .room (.mutex m)
          · subst hi
            simp [State.pulled, State.buried, State.marked, Lists.erase, hm]
          · simpa [State.pulled, State.buried, State.marked, Lists.erase,
              Ne.symm hi] using hm
    | flag hidle hlists hlife => exact hkept.same rfl rfl rfl rfl
    | send hidle hlife => exact hkept.same rfl rfl rfl rfl
    | self hidle hlife => exact hkept.same rfl rfl rfl rfl
    | park hidle hlife hkilled => exact hkept.readied rfl rfl rfl rfl
    | idle hlife => exact hkept
    | block hidle hlife hblocks =>
        refine hkept.blocked hplaced hlife ?_
        rintro m rfl
        exact hblocks.closed
    | count hcounter =>
        exact hkept.frame (fun m => by simp [State.setCounter]) rfl
          (fun _ _ h => h) (fun _ _ h => h)
    | @lock t m hlife hcounter =>
        have hone : a.counter (.mutex m) = 1 := by
          rcases howned.counter m with hzero | hone
          · omega
          · exact hone
        constructor
        · intro m'
          by_cases hm : m' = m
          · exact Or.inr (Or.inl (by simp [State.owned, State.mutexHold, hm]))
          · simpa [State.owned, State.mutexHold, State.setCounter,
              State.Granted, hm] using hkept.token m'
        · intro m' hm'
          have hne : m' ≠ m := by
            rintro rfl
            simp [State.owned, State.mutexHold, State.setCounter, hone] at hm'
          exact hkept.empty m' (by
            simpa [State.owned, State.mutexHold, State.setCounter, hne]
              using hm')
    | v => exact hkept.released rfl
    | unlock howner hremove => exact hkept.unlocked howned hplaced howner
    | wake hmem hmutex => exact hkept.woken hmutex
    | ring hlive => exact hkept.rung _
    | @sleep t ms frame s' hidle hlife hms hjob =>
        obtain ⟨bells, times, rfl⟩ := State.job_frame hjob
        have hthreads := hplaced.prepared_threads hlife frame
        have hkept' : Kept { a.prepared ⟨t, frame⟩ with bells, ms := times } :=
          hkept.same rfl rfl hthreads rfl
        have hplaced' : Placed machine
            { a.prepared ⟨t, frame⟩ with bells, ms := times } a.life place :=
          hplaced.congr hthreads fun _ => ⟨rfl, rfl, rfl, rfl, rfl⟩
        exact hkept'.blocked hplaced' hlife (by simp)
    | tick hfirst hlive => exact hkept.same rfl rfl rfl rfl
    | serve hlife hkilled => exact hkept.same rfl rfl rfl rfl
    | execute hidle hlife hkilled => exact hkept.same rfl rfl rfl rfl
    | drop => exact hkept.same rfl rfl rfl rfl
  follow {cpu cfg cfg'} hconsistent hkept hfollow := by
    obtain ⟨place, held, hplaced, howned⟩ := hconsistent
    cases hfollow with
    | retire hidle hcurrent => exact hkept.same rfl rfl rfl rfl
    | unlock howner hremove => exact hkept.unlocked howned hplaced howner
    | finish hfree => exact hkept
    | expire hfirst hlive hcancel =>
        obtain ⟨bells, times, rfl⟩ := State.cancel_frame hcancel
        exact (hkept.rung _).same rfl rfl rfl rfl
    | dispatch hcurrent => exact hkept.dispatched

theorem Placed.ready_of_inTransit (hplaced : Placed machine s current place)
    (htransit : s.InTransit m t) : t ∈ s.threads .readyList := by
  obtain ⟨hdestroyed, hwaiting, hresumption⟩ := htransit
  have hsits := hplaced.sits t
  rw [hplaced.listed]
  rcases hsits.resumes (by simp [hresumption]) with ⟨i, hplace⟩ | hdead
  · cases i with
    | readyList => exact hplace
    | room w => simp [(hsits.waiting hdestroyed w).mpr hplace] at hwaiting
  · simp [hdestroyed] at hdead

/-- In a run in which no thread is killed while it is on its way to a mutex, no
mutex is lost. -/
theorem mutex_kept {s : State Pointers}
    (hreach : ReachableBy machine SparesUnderway s) (m : Address) :
    MutexKept s m := by
  have hallowed : ∀ (s : State Pointers) a event, Represents s a →
      SparesUnderway s event → SparesUnderway a event := by
    rintro s a event ⟨qs, -, rfl⟩ hspares
    exact hspares
  obtain ⟨a, ⟨qs, hholds, rfl⟩, ⟨place, held, hplaced, howned⟩, hkept⟩ :=
    hreach.represents hallowed kept_invariant
  change Placed machine a a.life place at hplaced
  intro hnobody hnone
  have hone : a.counter (.mutex m) = 1 := by
    rcases hkept.token m with hfree | hheld | ⟨t, hready, hresumption⟩
    · exact hfree
    · obtain ⟨t, howner⟩ := Option.ne_none_iff_exists'.mp hheld
      rcases howned.alive m t howner with halive | hdying
      · have hdead : a.destroyed t = true := hnobody t howner
        simp [hdead] at halive
      · simp at hdying
    · have hplace := (hplaced.listed _ t).mp hready
      have hdestroyed :=
        hplaced.not_destroyed (by simp [hplace] : place t ≠ _)
      have hwaiting := hplaced.waitingIn_eq_none
        (by simp [hplace] : ∀ w, place t ≠ _) hdestroyed
      exact absurd ⟨hdestroyed, hwaiting, hresumption⟩ (hnone t)
  refine ⟨hone, ?_⟩
  have hhead := (hholds.queue (.room (.mutex m))).head_eq
  rw [hkept.empty m hone] at hhead
  exact hhead

/-- The owner dies while another thread waits, which then runs and unlocks. -/
theorem mutex_kept_owner_killed :
    ∃ s : State Pointers, s.destroyed 100 = true ∧ s.critical 7 = [] ∧
      MutexKept s 7 := by
  have hrun : (sampleRunBy SparesUnderway [(0, .ready 100), (0, .ready 200),
      (0, .schedule), (1, .schedule), (0, .lock 7), (1, .lock 7),
      (0, .kill 100), (0, .resume), (0, .unlock 7)]).any fun s =>
        s.destroyed 100 = true ∧ s.critical 7 = [] := by
    decide +kernel
  obtain ⟨s, hreach, hcheck⟩ := sampleRunBy_reaches hrun
  simp only [decide_eq_true_eq] at hcheck
  exact ⟨s, hcheck.1, hcheck.2, mutex_kept hreach 7⟩

/-- A thread that `unlock` has just woken is killed. -/
theorem mutex_lost :
    ¬ ∀ machine s, Reachable machine s → ∀ m, MutexKept s m := by
  intro hclaim
  have hrun : (sampleRun [(0, .ready 100), (0, .ready 200), (0, .schedule),
      (1, .schedule), (0, .lock 7), (1, .lock 7), (0, .unlock 7),
      (0, .kill 200)]).any fun s => s.owner 7 = none ∧
        s.counter (.mutex 7) = 0 ∧ s.threads.first .readyList = none := by
    decide +kernel
  obtain ⟨s, hreach, hcheck⟩ := sampleRun_reaches hrun
  simp only [decide_eq_true_eq] at hcheck
  obtain ⟨howner, hcounter, hfirst⟩ := hcheck
  have hkept := hclaim sampleMachine s hreach 7
  obtain ⟨a, ⟨qs, hholds, rfl⟩, place, held, hplaced, -⟩ := hreach.represents
  have hready : a.threads .readyList = [] := by
    have hhead := (hholds.queue .readyList).head_eq
    rw [show (qs.queue .readyList).head = none from hfirst] at hhead
    exact List.head?_eq_none_iff.mp hhead.symm
  have hnone : ∀ t, ¬ a.InTransit 7 t := by
    intro t htransit
    have hmem := hplaced.ready_of_inTransit htransit
    simp [hready] at hmem
  have hnobody : ∀ t, a.owner 7 = some t → a.destroyed t = true := by
    change a.owner 7 = none at howner
    simp [howner]
  have hfree := (hkept hnobody hnone).1
  rw [hcounter] at hfree
  cases hfree

end X86Os32.Scheduler
