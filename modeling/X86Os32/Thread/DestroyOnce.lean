import X86Os32.Thread.Invariants
import X86Os32.Thread.Past
import X86Os32.User.MutexOwnership

namespace X86Os32.Scheduler

open Library Library.Results

/-! How often a thread is destroyed.  Here a thread may also be killed that is
no more. -/

variable {machine : Machine} {cpu : Cpu} {t : Address}

/-- When an operation may be called by callers that do not know which threads
are left. -/
def State.Callable (machine : Machine) (s : State σ) (cpu : Cpu) :
    Event → Prop
  | .kill that => ¬ machine.Idle that
  | event => s.Enabled machine cpu event

theorem State.callable_iff {s : State σ} {event : Event} :
    s.Callable machine cpu event ↔
      (∀ that ∈ event.kills, ¬ machine.Idle that) ∧
        (event.kills = none → s.Enabled machine cpu event) := by
  cases event <;> simp [State.Callable, Event.kills]

instance (s : State σ) : DecidablePred (s.Callable machine cpu) :=
  fun event =>
    have : Decidable (∀ that ∈ event.kills, ¬ machine.Idle that) :=
      Option.decidableForallMem _
    decidable_of_iff _ State.callable_iff.symm

/-- A state, and how often `Thread::~Thread` has run on each thread. -/
structure History where
  state : State Pointers
  destructions : Address → Nat

def destruct (destructions : Address → Nat) :
    Option (Address × State Pointers) → Address → Nat
  | none => destructions
  | some (t, _) => Function.update destructions t (destructions t + 1)

def History.step (machine : Machine) (x : History) :
    Cpu × Event → Option History
  | (cpu, event) =>
      if x.state.Callable machine cpu event then
        match x.state.destroyCall cpu event,
          x.state.exec machine cpu event with
        | .ok call, .ok s => some ⟨s, destruct x.destructions call⟩
        | _, _ => none
      else none

def History.Initial (x : History) : Prop :=
  Scheduler.Initial x.state ∧ x.destructions = fun _ => 0

/-- The thread is no more, and still has the waiting room on record in which
it was killed. -/
def State.Stale (s : State σ) (t : Address) : Prop :=
  s.destroyed t = true ∧ s.waitingIn t ≠ none

instance (s : State σ) (t : Address) : Decidable (s.Stale t) :=
  inferInstanceAs (Decidable (_ ∧ _))

/-- No thread is killed that has been killed in a waiting room. -/
def SparesStale (s : State σ) : Cpu × Event → Prop
  | (_, event) => ∀ t ∈ event.kills, ¬ s.Stale t

instance (s : State σ) : DecidablePred (SparesStale s) :=
  fun (_, event) => by
    have hkills : Decidable (∀ t ∈ event.kills, ¬ s.Stale t) :=
      Option.decidableForallMem _
    exact hkills

def HistoryBy (machine : Machine)
    (allowed : State Pointers → Cpu × Event → Prop) : History → Prop :=
  Runs.Reachable History.Initial fun x event x' =>
    allowed x.state event ∧ x.step machine event = some x'

structure Counted (machine : Machine) (x : History) : Prop where
  represents : ∃ a, Represents x.state a ∧ a.settled.Consistent machine
  destructions : ∀ t, x.destructions t = (x.state.destroyed t).toNat

/-- A kill that comes too late only leaves its marks on the thread. -/
theorem late_kill {s : State Pointers} {a : State Lists} (cpu : Cpu)
    (hrep : Represents s a) (hconsistent : a.settled.Consistent machine)
    (hdead : s.destroyed t = true) (hwaiting : s.waitingIn t = none) :
    s.destroyCall cpu (.kill t) = .ok none ∧
      s.exec machine cpu (.kill t) = .ok { s with
        victim := Function.update s.victim t true
        killed := Function.update s.killed t true } := by
  obtain ⟨place, held, hplaced, -⟩ := hconsistent
  change Placed machine a a.life place at hplaced
  obtain ⟨qs, hholds, rfl⟩ := hrep
  have hplace := ((hplaced.sits t).buried hdead).2
  have hfresh := hplaced.fresh (by simp [hplace] : ∀ i, place t ≠ _)
  obtain ⟨qs', hremove, -, -⟩ := hholds.remove (i := .readyList) t
    (length_le_addresses (hholds.queue _).nodup)
  rw [if_neg (hfresh _)] at hremove
  obtain rfl := Queues.removeFrom_none hremove
  have hexecuting : State.executing { a with
      threads := qs'
      victim := Function.update a.victim t true
      killed := Function.update a.killed t true } t = none := by
    refine List.find?_eq_none.mpr fun c _ => ?_
    have hlife : a.life c ≠ some t := by
      rw [ne_eq, hplaced.running c t, hplace]
      simp
    simpa using hlife
  have hfound : ThreadQueues.remove qs' .readyList t = .ok (none, qs') :=
    hremove
  change a.waitingIn t = none at hwaiting
  constructor
  · unfold State.destroyCall
    dsimp only
    rw [hfound, ok_bind]
    dsimp only
    rw [if_neg (by simp), hwaiting]
    dsimp only
    rw [hexecuting, if_neg (by simp)]
    rfl
  · unfold State.exec State.kill
    dsimp only
    rw [hfound, ok_bind]
    dsimp only
    rw [if_neg (by simp), hwaiting]
    dsimp only
    rw [hexecuting]
    rfl

theorem late_kill_represents {s : State Pointers}
    (hrep : ∃ a, Represents s a ∧ a.settled.Consistent machine)
    (hidle : ¬ machine.Idle t) :
    ∃ a, Represents { s with
        victim := Function.update s.victim t true
        killed := Function.update s.killed t true } a ∧
      a.settled.Consistent machine := by
  obtain ⟨a, ⟨qs, hholds, rfl⟩, place, held, hplaced, howned⟩ := hrep
  change Placed machine a a.life place at hplaced
  have hmarked : Placed machine (a.marked t) a.life place :=
    hplaced.congr rfl fun _ => ⟨rfl, rfl, rfl, rfl, rfl⟩
  refine ⟨(a.marked t).flagged t, ⟨qs, hholds, rfl⟩, place, held,
    hmarked.flagged hidle, ?_⟩
  exact howned.frame rfl rfl rfl (fun _ => rfl) (fun _ h => h)
    (fun _ _ h => h)

theorem destroyCall_alive {s middle : State Pointers} {event : Event}
    (hrep : ∃ a, Represents s a ∧ a.settled.Consistent machine)
    (henabled : s.Enabled machine cpu event)
    (hcall : s.destroyCall cpu event = .ok (some (t, middle))) :
    s.destroyed t = false := by
  obtain ⟨a, ⟨qs, hholds, rfl⟩, place, held, hplaced, -⟩ := hrep
  change Placed machine a a.life place at hplaced
  have hrunning : ∀ u, deref (a.life cpu) = .ok u → a.destroyed u = false :=
    fun u hactive => (hplaced.runs (deref_eq_ok.mp hactive)).2.1
  cases event with
  | exit =>
      obtain ⟨u, hactive, hcall⟩ := bind_eq_ok.mp hcall
      obtain ⟨rfl, -⟩ := Prod.mk.inj (Option.some.inj (Except.ok.inj hcall))
      exact hrunning u hactive
  | resume =>
      obtain ⟨u, hactive, hcall⟩ := bind_eq_ok.mp hcall
      split at hcall
      · obtain ⟨rfl, -⟩ := Prod.mk.inj (Option.some.inj (Except.ok.inj hcall))
        exact hrunning u hactive
      · cases hcall
  | assassin served =>
      obtain ⟨u, hactive, hcall⟩ := bind_eq_ok.mp hcall
      split at hcall
      · obtain ⟨rfl, -⟩ := Prod.mk.inj (Option.some.inj (Except.ok.inj hcall))
        exact hrunning u hactive
      · cases hcall
  | kill that =>
      obtain rfl : that = t := State.destroyCall_kill hcall
      exact henabled.1
  | _ => cases hcall

theorem destruct_eq {s s' : State Pointers} {destructions : Address → Nat}
    {call : Option (Address × State Pointers)}
    (hcount : ∀ t, destructions t = (s.destroyed t).toNat)
    (halive : ∀ t ∈ call.map Prod.fst, s.destroyed t = false)
    (hrecorded : s'.destroyed =
      State.record s.destroyed (call.map Prod.fst)) (t : Address) :
    destruct destructions call t = (s'.destroyed t).toNat := by
  rw [hrecorded]
  cases call with
  | none => exact hcount t
  | some call =>
      obtain ⟨u, middle⟩ := call
      by_cases heq : t = u
      · subst heq
        simp [destruct, State.record, hcount, halive t rfl]
      · simp [destruct, State.record, heq, hcount]

theorem History.step_eq_some {x x' : History} {event : Event}
    (hstep : x.step machine (cpu, event) = some x') :
    x.state.Callable machine cpu event ∧
      ∃ call, x.state.destroyCall cpu event = .ok call ∧
        x.state.exec machine cpu event = .ok x'.state ∧
        x'.destructions = destruct x.destructions call := by
  unfold History.step at hstep
  dsimp only at hstep
  split at hstep
  · next hcallable =>
    refine ⟨hcallable, ?_⟩
    split at hstep
    · next call s hcall hexec =>
      obtain rfl := Option.some.inj hstep
      exact ⟨call, hcall, hexec, rfl⟩
    · cases hstep
  · cases hstep

theorem State.Callable.late {s : State Pointers} {event : Event}
    (hcallable : s.Callable machine cpu event)
    (hnot : ¬ s.Enabled machine cpu event) :
    ∃ t, event = .kill t ∧ s.destroyed t = true ∧ ¬ machine.Idle t := by
  cases event with
  | kill t =>
      refine ⟨t, rfl, ?_, hcallable⟩
      by_contra halive
      rw [Bool.not_eq_true] at halive
      exact hnot ⟨halive, hcallable⟩
  | _ => exact absurd hcallable hnot

theorem Counted.step {x x' : History} {event : Cpu × Event}
    (hcounted : Counted machine x) (hallowed : SparesStale x.state event)
    (hstep : x.step machine event = some x') : Counted machine x' := by
  obtain ⟨cpu, event⟩ := event
  obtain ⟨hcallable, call, hcall, hexec, hdestruct⟩ :=
    History.step_eq_some hstep
  by_cases henabled : x.state.Enabled machine cpu event
  · have hrecords := State.exec_records machine hcall
    rw [hexec] at hrecords
    constructor
    · obtain ⟨a, hrep, hconsistent⟩ := hcounted.represents
      obtain ⟨a', hrep', hperforms⟩ := step_performs hrep hconsistent
        (State.step_eq_some.mpr ⟨henabled, hexec⟩)
      exact ⟨a', hrep', hperforms.consistent hconsistent⟩
    · rw [hdestruct]
      refine destruct_eq hcounted.destructions ?_ hrecords.destroyed
      intro t ht
      cases call with
      | none => cases ht
      | some call =>
          obtain ⟨u, middle⟩ := call
          obtain rfl : u = t := Option.some.inj ht
          exact destroyCall_alive hcounted.represents henabled hcall
  · obtain ⟨t, rfl, hdead, hidle⟩ := hcallable.late henabled
    have hwaiting : x.state.waitingIn t = none := by
      by_contra hwaiting
      exact hallowed t rfl ⟨hdead, hwaiting⟩
    obtain ⟨a, hrep, hconsistent⟩ := hcounted.represents
    obtain ⟨hlate, hmarks⟩ := late_kill cpu hrep hconsistent hdead hwaiting
    obtain rfl := Except.ok.inj (hcall.symm.trans hlate)
    have hstate := Except.ok.inj (hexec.symm.trans hmarks)
    constructor
    · rw [hstate]
      exact late_kill_represents ⟨a, hrep, hconsistent⟩ hidle
    · rw [hdestruct, hstate]
      exact hcounted.destructions

/-- In a run in which no thread is killed that has been killed in a waiting
room, the destructor runs once at most on each thread, and a kill that comes
too late changes no more than the marks on the dead thread. -/
theorem destroyed_once {x : History} (hreach : HistoryBy machine SparesStale x) :
    (∀ t, x.destructions t ≤ 1) ∧
      ∀ cpu t, x.state.destroyed t = true → SparesStale x.state (cpu, .kill t) →
        x.state.destroyCall cpu (.kill t) = .ok none ∧
          x.state.exec machine cpu (.kill t) = .ok { x.state with
            victim := Function.update x.state.victim t true
            killed := Function.update x.state.killed t true } := by
  have hcounted : Counted machine x := by
    apply Runs.Reachable.invariant hreach
    · rintro ⟨s, destructions⟩ ⟨⟨values, rfl⟩, rfl⟩
      exact ⟨⟨_, represents_initial values, consistent_initial machine values⟩,
        fun t => rfl⟩
    · rintro x event x' hcounted ⟨hallowed, hstep⟩
      exact hcounted.step hallowed hstep
  constructor
  · intro t
    rw [hcounted.destructions t]
    cases x.state.destroyed t <;> simp
  · intro cpu t hdead hspares
    obtain ⟨a, hrep, hconsistent⟩ := hcounted.represents
    have hwaiting : x.state.waitingIn t = none := by
      by_contra hwaiting
      exact hspares t rfl ⟨hdead, hwaiting⟩
    exact late_kill _ hrep hconsistent hdead hwaiting

def History.sample : History where
  state := initial noThreads fun _ => 0
  destructions _ := 0

theorem History.sample_initial : History.sample.Initial :=
  ⟨initial_values, rfl⟩

/-- A thread exits, and is killed afterwards. -/
theorem destroyed_once_late :
    ∃ x : History, x.destructions 200 = 1 ∧ x.state.victim 200 = true ∧
      (∀ t, x.destructions t ≤ 1) ∧
      x.state.destroyCall 0 (.kill 200) = .ok none := by
  have hrun : (Runs.run (fun x event => if SparesStale x.state event then
      History.step sampleMachine x event else none) History.sample
      [(0, .ready 100), (0, .ready 200), (0, .schedule), (1, .schedule),
        (1, .exit), (0, .kill 200)]).any fun x =>
          x.destructions 200 = 1 ∧ x.state.victim 200 = true ∧
            x.state.destroyed 200 = true ∧ ¬ x.state.Stale 200 := by
    decide +kernel
  obtain ⟨x, hx, hcheck⟩ := (Option.any_eq_true _ _).mp hrun
  simp only [decide_eq_true_eq] at hcheck
  obtain ⟨hcount, hvictim, hdead, hstale⟩ := hcheck
  have hreach : HistoryBy sampleMachine SparesStale x :=
    Runs.Reachable.run_allowed History.sample_initial hx
  obtain ⟨honce, hlate⟩ := destroyed_once hreach
  have hspares : SparesStale x.state (0, .kill 200) := by
    intro t ht
    obtain rfl : 200 = t := Option.some.inj ht
    exact hstale
  exact ⟨x, hcount, hvictim, honce, (hlate 0 200 hdead hspares).1⟩

/-- A thread is killed in a waiting room, and then once more. -/
theorem destroyed_twice :
    ¬ ∀ machine x, HistoryBy machine (fun _ _ => True) x →
      ∀ t, x.destructions t ≤ 1 := by
  intro hclaim
  have hrun : (Runs.run (fun x event => if True then
      History.step sampleMachine x event else none) History.sample
      [(0, .ready 100), (0, .ready 200), (0, .schedule), (1, .schedule),
        (1, .p 5), (0, .kill 200), (0, .kill 200)]).any fun x =>
          x.destructions 200 = 2 := by
    decide +kernel
  obtain ⟨x, hx, hcheck⟩ := (Option.any_eq_true _ _).mp hrun
  simp only [decide_eq_true_eq] at hcheck
  have hreach : HistoryBy sampleMachine (fun _ _ => True) x :=
    Runs.Reachable.run_allowed History.sample_initial hx
  have honce := hclaim sampleMachine x hreach 200
  omega

end X86Os32.Scheduler
