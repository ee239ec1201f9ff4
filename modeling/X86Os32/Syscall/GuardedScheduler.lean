import X86Os32.Thread.DestroyOnce

namespace X86Os32.Scheduler

open Library Library.Results

/-! The thread counter of `user/status/status.h`, which the calls of
`syscall/guarded_scheduler.cc` keep. -/

variable {machine : Machine} {cpu : Cpu} {t : Address}

/-- The scheduler below the system calls, and the status.  `exited` records
which threads called `exit`. -/
structure Guarded (σ : Type) where
  scheduler : State σ
  threadCounter : Nat
  exited : Address → Bool

def threadInc (threadCounter : Nat) : Nat := add32 threadCounter 1

def threadDec (threadCounter : Nat) : Nat := sub32 threadCounter 1

namespace Guarded

section Calls

variable {σ : Type} [ThreadQueues σ] (machine : Machine) (g : Guarded σ)
  (cpu : Cpu)

/-- The scheduler does its part, and the status gets a new counter. -/
def call (event : Event) (threadCounter : Nat)
    (exited : Address → Bool) : Except Stop (Guarded σ) := do
  let scheduler ← g.scheduler.exec machine cpu event
  return ⟨scheduler, threadCounter, exited⟩

/-- Threads call `exit`, `kill` and `ready` here; the epilogues call the
scheduler. -/
def exec : Event → Except Stop (Guarded σ)
  | .exit => do
      let t ← deref (g.scheduler.active cpu)
      let exited := Function.update g.exited t true
      g.call machine cpu .exit (threadDec g.threadCounter) exited
  | .kill that =>
      g.call machine cpu (.kill that) (threadDec g.threadCounter) g.exited
  | .ready that =>
      g.call machine cpu (.ready that) (threadInc g.threadCounter) g.exited
  | event => g.call machine cpu event g.threadCounter g.exited

def step (g : Guarded σ) : Cpu × Event → Option (Guarded σ)
  | (cpu, event) =>
      if g.scheduler.Callable machine cpu event then
        match g.exec machine cpu event with
        | .ok g' => some g'
        | .error _ => none
      else none

end Calls

def Initial (g : Guarded Pointers) : Prop :=
  Scheduler.Initial g.scheduler ∧ g.threadCounter = 0 ∧
    g.exited = fun _ => false

def ReachableBy (machine : Machine)
    (allowed : Guarded Pointers → Cpu × Event → Prop) :
    Guarded Pointers → Prop :=
  Runs.Reachable Initial fun g event g' =>
    allowed g event ∧ g.step machine event = some g'

/-- The thread was readied, and has neither exited nor been killed. -/
def Alive (g : Guarded σ) (t : Address) : Prop :=
  g.scheduler.readied t = true ∧ g.exited t = false ∧
    g.scheduler.victim t = false

instance (g : Guarded σ) (t : Address) : Decidable (g.Alive t) :=
  inferInstanceAs (Decidable (_ ∧ _))

def living (g : Guarded σ) : Finset Address := Finset.univ.filter g.Alive

def exiting (g : Guarded σ) (cpu : Cpu) : Event → Option Address
  | .exit => g.scheduler.life cpu
  | _ => none

/-- Only threads that are alive are killed, and none exits that has been
killed. -/
def EndsOnce (g : Guarded σ) : Cpu × Event → Prop
  | (cpu, event) =>
      (∀ t ∈ event.kills, g.Alive t) ∧
        ∀ t ∈ g.exiting cpu event, g.scheduler.victim t = false

instance (g : Guarded σ) : DecidablePred (EndsOnce g) :=
  fun (cpu, event) => by
    have hkills : Decidable (∀ t ∈ event.kills, g.Alive t) :=
      Option.decidableForallMem _
    have hexiting : Decidable
        (∀ t ∈ g.exiting cpu event, g.scheduler.victim t = false) :=
      Option.decidableForallMem _
    exact inferInstanceAs (Decidable (_ ∧ _))

structure Exact (machine : Machine) (g : Guarded Pointers) : Prop where
  represents : ∃ a, Represents g.scheduler a ∧ a.settled.Consistent machine
  counter : g.threadCounter = g.living.card
  exited : ∀ t, g.exited t = true → g.scheduler.destroyed t = true
  victim : ∀ t, g.scheduler.victim t = true → g.scheduler.readied t = true
  flagged : ∀ t, g.scheduler.killed t = true → g.scheduler.victim t = true
  ended : ∀ t, g.scheduler.destroyed t = true →
    g.exited t = true ∨ g.scheduler.victim t = true

def counts (n : Nat) : Event → Nat
  | .ready _ => threadInc n
  | .kill _ => threadDec n
  | .exit => threadDec n
  | _ => n

variable {g g' : Guarded Pointers} {event : Event}

theorem mem_living : t ∈ g.living ↔ g.Alive t := by
  simp [living]

theorem call_eq_ok {n : Nat} {exited : Address → Bool}
    (hdone : g.call machine cpu event n exited = .ok g') :
    g.scheduler.exec machine cpu event = .ok g'.scheduler ∧
      g'.threadCounter = n ∧ g'.exited = exited := by
  obtain ⟨scheduler, hexec, hdone⟩ := bind_eq_ok.mp hdone
  obtain rfl := Except.ok.inj hdone
  exact ⟨hexec, rfl, rfl⟩

theorem exec_eq_ok (hdone : g.exec machine cpu event = .ok g') :
    g.scheduler.exec machine cpu event = .ok g'.scheduler ∧
      g'.threadCounter = counts g.threadCounter event ∧
      g'.exited = State.record g.exited (g.exiting cpu event) := by
  cases event with
  | exit =>
      obtain ⟨t, hactive, hdone⟩ := bind_eq_ok.mp hdone
      obtain ⟨hexec, hcounter, hexited⟩ := call_eq_ok hdone
      have hlife : g.scheduler.life cpu = some t := deref_eq_ok.mp hactive
      refine ⟨hexec, hcounter, ?_⟩
      rw [hexited, exiting, hlife]
      rfl
  | _ => exact call_eq_ok hdone

theorem step_eq_some (hstep : g.step machine (cpu, event) = some g') :
    g.scheduler.Callable machine cpu event ∧
      g.exec machine cpu event = .ok g' := by
  unfold step at hstep
  dsimp only at hstep
  split at hstep
  · next hcallable =>
    refine ⟨hcallable, ?_⟩
    split at hstep
    · next hexec =>
      obtain rfl := Option.some.inj hstep
      exact hexec
    · cases hstep
  · cases hstep

theorem Exact.enabled (hexact : Exact machine g)
    (hcallable : g.scheduler.Callable machine cpu event)
    (hallowed : EndsOnce g (cpu, event)) :
    g.scheduler.Enabled machine cpu event := by
  by_contra hnot
  obtain ⟨t, rfl, hdead, -⟩ := hcallable.late hnot
  obtain ⟨-, hexited, hvictim⟩ := hallowed.1 t rfl
  rcases hexact.ended t hdead with hended | hended
  · simp [hexited] at hended
  · simp [hvictim] at hended

/-- No idle thread is alive, so the counter does not wrap. -/
theorem card_lt
    (hrep : ∃ a, Represents g.scheduler a ∧ a.settled.Consistent machine) :
    g.living.card < 2 ^ 32 := by
  obtain ⟨a, ⟨qs, hholds, hsame⟩, place, held, hplaced, -⟩ := hrep
  have hnot : machine.idlethread 0 ∉ g.living := by
    rw [mem_living]
    rintro ⟨hreadied, -, -⟩
    rw [hsame] at hreadied
    have hidle := ((hplaced.sits (machine.idlethread 0)).idle ⟨0, rfl⟩).1
    change a.readied _ = true at hreadied
    change a.readied _ = false at hidle
    simp [hidle] at hreadied
  simpa using Finset.card_lt_univ_of_notMem hnot

theorem Exact.readied_of_destroyed (hexact : Exact machine g)
    (hdead : g.scheduler.destroyed t = true) :
    g.scheduler.readied t = true := by
  obtain ⟨a, ⟨qs, hholds, hsame⟩, place, held, hplaced, -⟩ := hexact.represents
  rw [hsame] at hdead ⊢
  exact ((hplaced.sits t).buried hdead).1

/-! ### One operation -/

theorem record_true {table : Address → Bool} {entry : Option Address} :
    State.record table entry t = true ↔ table t = true ∨ entry = some t := by
  cases entry with
  | none => simp [State.record]
  | some u =>
      by_cases heq : t = u
      · simp [State.record, heq]
      · simp [State.record, heq, Ne.symm heq]

structure Advances (g : Guarded Pointers) (cpu : Cpu) (event : Event)
    (g' : Guarded Pointers) : Prop where
  readied : g'.scheduler.readied =
    State.record g.scheduler.readied event.readies
  victim : g'.scheduler.victim = State.record g.scheduler.victim event.kills
  exited : g'.exited = State.record g.exited (g.exiting cpu event)
  counter : g'.threadCounter = counts g.threadCounter event
  destroyed : ∀ t, g'.scheduler.destroyed t = true →
    g.scheduler.destroyed t = true ∨ g.exiting cpu event = some t ∨
      g.scheduler.killed t = true ∨ event.kills = some t
  grows : ∀ t, g.scheduler.destroyed t = true →
    g'.scheduler.destroyed t = true
  ends : ∀ t, g.exiting cpu event = some t →
    g'.scheduler.destroyed t = true
  flagged : ∀ t, g'.scheduler.killed t = true →
    g.scheduler.killed t = true ∨ event.kills = some t

theorem exec_advances (hdone : g.exec machine cpu event = .ok g') :
    Advances g cpu event g' := by
  obtain ⟨hexec, hcounter, hexited⟩ := exec_eq_ok hdone
  obtain ⟨call, hcall⟩ := State.destroyCall_ok hexec
  have hrecords := State.exec_records machine hcall
  rw [hexec] at hrecords
  obtain ⟨hreadied, hvictim, hdestroyed, hkilled⟩ := hrecords
  refine ⟨hreadied, hvictim, hexited, hcounter, ?_, ?_, ?_, hkilled⟩
  · intro t ht
    rw [hdestroyed, record_true] at ht
    rcases ht with hold | hnew
    · exact Or.inl hold
    · right
      cases call with
      | none => cases hnew
      | some call =>
          obtain ⟨u, middle⟩ := call
          obtain rfl : u = t := Option.some.inj hnew
          rcases State.destroyCall_cases hcall with ⟨rfl, hlife⟩ | hrest
          · exact Or.inl hlife
          · exact Or.inr hrest
  · intro t ht
    rw [hdestroyed, record_true]
    exact Or.inl ht
  · intro t ht
    rw [hdestroyed, record_true]
    cases event with
    | exit =>
        obtain ⟨u, hactive, hcall⟩ := bind_eq_ok.mp hcall
        obtain rfl := Except.ok.inj hcall
        have hlife : g.scheduler.life cpu = some u := deref_eq_ok.mp hactive
        exact Or.inr (hlife.symm.trans ht)
    | _ => cases ht

theorem alive_iff (hadvances : Advances g cpu event g') :
    g'.Alive t ↔
      (g.scheduler.readied t = true ∨ event.readies = some t) ∧
      (g.exited t = false ∧ g.exiting cpu event ≠ some t) ∧
      (g.scheduler.victim t = false ∧ event.kills ≠ some t) := by
  have hfalse : ∀ (table : Address → Bool) (entry : Option Address),
      State.record table entry t = false ↔
        table t = false ∧ entry ≠ some t := by
    intro table entry
    rw [← Bool.not_eq_true, record_true, not_or, Bool.not_eq_true]
  unfold Alive
  rw [hadvances.readied, hadvances.exited, hadvances.victim, record_true,
    hfalse, hfalse]

theorem Exact.readied (hexact : Exact machine g)
    (hadvances : Advances g cpu (.ready t) g')
    (hnew : g.scheduler.readied t = false) :
    g'.living = insert t g.living ∧ t ∉ g.living := by
  have hvictim : g.scheduler.victim t = false := by
    by_contra hvictim
    rw [Bool.not_eq_false] at hvictim
    simp [hexact.victim t hvictim] at hnew
  have hexited : g.exited t = false := by
    by_contra hexited
    rw [Bool.not_eq_false] at hexited
    have hreadied := hexact.readied_of_destroyed (hexact.exited t hexited)
    simp [hnew] at hreadied
  constructor
  · ext u
    rw [Finset.mem_insert, mem_living, mem_living, alive_iff hadvances]
    by_cases heq : u = t
    · simp [heq, Event.readies, Event.kills, exiting, hvictim, hexited]
    · simp [heq, Ne.symm heq, Event.readies, Event.kills, exiting, Alive]
  · rw [mem_living]
    rintro ⟨hreadied, -⟩
    simp [hnew] at hreadied

theorem living_erase (hadvances : Advances g cpu event g')
    (hreadies : event.readies = none)
    (hends : ∀ u, (event.kills = some u ∨ g.exiting cpu event = some u) ↔
      u = t) : g'.living = g.living.erase t := by
  ext u
  rw [Finset.mem_erase, mem_living, mem_living, alive_iff hadvances, hreadies]
  have hu := hends u
  unfold Alive
  by_cases heq : u = t
  · have hor := hu.mpr heq
    simp only [heq, ne_eq, not_true, false_and, iff_false]
    rw [heq] at hor
    tauto
  · have hnor := (not_congr hu).mpr heq
    rw [not_or] at hnor
    simp [heq, hnor.1, hnor.2]

theorem Exact.erased (hexact : Exact machine g)
    (hliving : g'.living = g.living.erase t) (hmem : t ∈ g.living)
    (hcounter : g'.threadCounter = threadDec g.threadCounter) :
    g'.threadCounter = g'.living.card := by
  have hpos := Finset.card_pos.mpr ⟨t, hmem⟩
  have hlt := card_lt hexact.represents
  rw [hcounter, hexact.counter, hliving, Finset.card_erase_of_mem hmem]
  exact sub32_of_le hpos hlt

theorem Exact.exiting_alive (hexact : Exact machine g)
    (henabled : g.scheduler.Enabled machine cpu .exit)
    (hallowed : EndsOnce g (cpu, .exit)) :
    ∃ t, g.scheduler.life cpu = some t ∧ g.Alive t := by
  obtain ⟨t, hlife, hidle⟩ := henabled
  obtain ⟨a, ⟨qs, hholds, hsame⟩, place, held, hplaced, -⟩ := hexact.represents
  change Placed machine a a.life place at hplaced
  have hlife' : a.life cpu = some t := by
    rw [hsame] at hlife
    exact hlife
  obtain ⟨hplace, hdestroyed, -⟩ := hplaced.runs hlife'
  refine ⟨t, hlife, ?_, ?_, hallowed.2 t hlife⟩
  · rw [hsame]
    exact hplaced.readied (by simp [hplace] : place t ≠ _) hidle
  · by_contra hexited
    rw [Bool.not_eq_false] at hexited
    have hdead := hexact.exited t hexited
    rw [hsame] at hdead
    change a.destroyed t = true at hdead
    simp [hdestroyed] at hdead

theorem Exact.counts (hexact : Exact machine g)
    (henabled : g.scheduler.Enabled machine cpu event)
    (hallowed : EndsOnce g (cpu, event)) (hadvances : Advances g cpu event g')
    (hrep : ∃ a, Represents g'.scheduler a ∧ a.settled.Consistent machine) :
    g'.threadCounter = g'.living.card := by
  have hcounter := hadvances.counter
  have hothers : event.readies = none → event.kills = none →
      g.exiting cpu event = none →
      Guarded.counts g.threadCounter event = g.threadCounter →
      g'.threadCounter = g'.living.card := by
    intro hreadies hkills hexiting hcounts
    have hliving : g'.living = g.living := by
      ext u
      rw [mem_living, mem_living, alive_iff hadvances, hreadies, hkills,
        hexiting]
      simp [Alive]
    rw [hcounter, hcounts, hliving, hexact.counter]
  cases event with
  | ready t =>
      obtain ⟨hliving, hnot⟩ := hexact.readied hadvances henabled.1
      have hcard := Finset.card_insert_of_notMem hnot
      have hlt := card_lt hrep
      rw [← hliving] at hcard
      rw [hcounter, hcard]
      change add32 g.threadCounter 1 = _
      rw [hexact.counter]
      exact add32_of_lt (by omega)
  | kill t =>
      have halive := hallowed.1 t rfl
      refine hexact.erased (living_erase hadvances rfl fun u => ?_)
        (mem_living.mpr halive) hcounter
      simp [Event.kills, exiting, eq_comm]
  | exit =>
      obtain ⟨t, hlife, halive⟩ := hexact.exiting_alive henabled hallowed
      refine hexact.erased (living_erase hadvances rfl fun u => ?_)
        (mem_living.mpr halive) hcounter
      simp [Event.kills, exiting, hlife, eq_comm]
  | _ => exact hothers rfl rfl rfl rfl

theorem Exact.step {event : Cpu × Event} (hexact : Exact machine g)
    (hallowed : EndsOnce g event) (hstep : g.step machine event = some g') :
    Exact machine g' := by
  obtain ⟨cpu, event⟩ := event
  obtain ⟨hcallable, hdone⟩ := step_eq_some hstep
  have henabled := hexact.enabled hcallable hallowed
  have hadvances := exec_advances hdone
  have hrep : ∃ a, Represents g'.scheduler a ∧
      a.settled.Consistent machine := by
    obtain ⟨a, hrep, hconsistent⟩ := hexact.represents
    obtain ⟨hexec, -⟩ := exec_eq_ok hdone
    obtain ⟨a', hrep', hperforms⟩ := step_performs hrep hconsistent
      (State.step_eq_some.mpr ⟨henabled, hexec⟩)
    exact ⟨a', hrep', hperforms.consistent hconsistent⟩
  refine ⟨hrep, hexact.counts henabled hallowed hadvances hrep, ?_, ?_, ?_, ?_⟩
  · intro t hexited
    rw [hadvances.exited, record_true] at hexited
    rcases hexited with hold | hnew
    · exact hadvances.grows t (hexact.exited t hold)
    · exact hadvances.ends t hnew
  · intro t hvictim
    rw [hadvances.victim, record_true] at hvictim
    rw [hadvances.readied, record_true]
    rcases hvictim with hold | hnew
    · exact Or.inl (hexact.victim t hold)
    · exact Or.inl (hallowed.1 t hnew).1
  · intro t hkilled
    rw [hadvances.victim, record_true]
    exact (hadvances.flagged t hkilled).imp_left (hexact.flagged t)
  · intro t hdead
    rw [hadvances.exited, hadvances.victim, record_true, record_true]
    rcases hadvances.destroyed t hdead with hold | hexit | hkilled | hkill
    · exact (hexact.ended t hold).imp Or.inl Or.inl
    · exact Or.inl (Or.inr hexit)
    · exact Or.inr (Or.inl (hexact.flagged t hkilled))
    · exact Or.inr (Or.inr hkill)

end Guarded

/-- In a run in which only threads are killed that are alive, and no thread
exits that has been killed, the thread counter is exact. -/
theorem thread_counter_exact {g : Guarded Pointers}
    (hreach : Guarded.ReachableBy machine Guarded.EndsOnce g) :
    g.threadCounter = g.living.card := by
  have hexact : g.Exact machine := by
    apply Runs.Reachable.invariant hreach
    · rintro ⟨s, n, exited⟩ ⟨⟨values, rfl⟩, rfl, rfl⟩
      have hliving : Guarded.living ⟨initial noThreads values, 0,
          fun _ => false⟩ = ∅ := by
        ext t
        simp [Guarded.mem_living, Guarded.Alive, initial]
      refine ⟨⟨_, represents_initial values,
        consistent_initial machine values⟩, ?_, ?_, ?_, ?_, ?_⟩
      · rw [hliving, Finset.card_empty]
      all_goals simp [initial]
    · rintro g event g' hexact ⟨hallowed, hstep⟩
      exact hexact.step hallowed hstep
  exact hexact.counter

def Guarded.sample : Guarded Pointers where
  scheduler := initial noThreads fun _ => 0
  threadCounter := 0
  exited _ := false

theorem Guarded.sample_initial : Guarded.sample.Initial :=
  ⟨initial_values, rfl, rfl⟩

/-- Of two threads one is killed while it runs, and comes to its end. -/
theorem thread_counter_exact_killed :
    ∃ g : Guarded Pointers, g.scheduler.destroyed 200 = true ∧
      g.threadCounter = 1 ∧ g.threadCounter = g.living.card := by
  have hrun : (Runs.run (fun g event => if Guarded.EndsOnce g event then
      g.step sampleMachine event else none) Guarded.sample
      [(0, .ready 100), (0, .ready 200), (0, .schedule), (1, .schedule),
        (0, .kill 200), (1, .assassin 1)]).any fun g =>
          g.scheduler.destroyed 200 = true ∧ g.threadCounter = 1 := by
    decide +kernel
  obtain ⟨g, hg, hcheck⟩ := (Option.any_eq_true _ _).mp hrun
  simp only [decide_eq_true_eq] at hcheck
  have hreach : Guarded.ReachableBy sampleMachine Guarded.EndsOnce g :=
    Runs.Reachable.run_allowed Guarded.sample_initial hg
  exact ⟨g, hcheck.1, hcheck.2, thread_counter_exact hreach⟩

/-- A thread that has been killed exits before the assassin comes. -/
theorem thread_counter_wrong :
    ¬ ∀ machine g, Guarded.ReachableBy machine (fun _ _ => True) g →
      g.threadCounter = g.living.card := by
  intro hclaim
  have hrun : (Runs.run (fun g event => if True then
      g.step sampleMachine event else none) Guarded.sample
      [(0, .ready 100), (0, .ready 200), (0, .schedule), (1, .schedule),
        (0, .kill 200), (1, .exit)]).any fun g =>
          g.threadCounter = 0 ∧ g.Alive 100 := by
    decide +kernel
  obtain ⟨g, hg, hcheck⟩ := (Option.any_eq_true _ _).mp hrun
  simp only [decide_eq_true_eq] at hcheck
  have hreach : Guarded.ReachableBy sampleMachine (fun _ _ => True) g :=
    Runs.Reachable.run_allowed Guarded.sample_initial hg
  have hpos := Finset.card_pos.mpr ⟨100, Guarded.mem_living.mpr hcheck.2⟩
  rw [← hclaim sampleMachine g hreach, hcheck.1] at hpos
  exact absurd hpos (lt_irrefl 0)

end X86Os32.Scheduler
