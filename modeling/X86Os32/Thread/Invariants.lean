import X86Os32.Thread.Steps

namespace X86Os32.Scheduler

open Library Library.Results

/-! Invariants of runs.  A property that the moves keep holds, over the lists
that the pointers represent, in every state that a run reaches. -/

def ReachableBy (machine : Machine)
    (allowed : State Pointers → Cpu × Event → Prop) : State Pointers → Prop :=
  Runs.Reachable Initial fun s event s' =>
    allowed s event ∧ s.step machine event = some s'

variable {machine : Machine} {s s' : State Pointers} {a : State Lists}
  {cpu : Cpu} {event : Event}

def listInitial (values : Address → Int32) : State Lists :=
  initial (fun _ => []) values

theorem represents_initial (values : Address → Int32) :
    Represents (initial noThreads values) (listInitial values) := by
  refine ⟨noThreads, ⟨fun i => ⟨rfl, rfl, List.nodup_nil⟩, ?_⟩, rfl⟩
  intro i j item hmem
  simp [listInitial, initial] at hmem

theorem consistent_initial (machine : Machine) (values : Address → Int32) :
    (listInitial values).settled.Consistent machine := by
  refine ⟨fun _ => .nowhere, fun _ => [], ?_, ?_⟩
  · constructor
    · simp [listInitial, initial]
    · simp [listInitial, initial]
    · simp [listInitial, initial]
    · intro t
      constructor <;> simp [listInitial, initial]
  · constructor
    · refine ⟨fun i => ⟨rfl, rfl, List.nodup_nil⟩, ?_⟩
      simp
    · simp [listInitial, initial]
    · simp [listInitial, initial]
    · simp [listInitial, initial]
    · simp [listInitial, initial]
    · simp [listInitial, initial, State.Granted]
    · simp [listInitial, initial, State.Granted]

theorem State.step_eq_some :
    s.step machine (cpu, event) = some s' ↔
      s.Enabled machine cpu event ∧ s.exec machine cpu event = .ok s' := by
  by_cases henabled : s.Enabled machine cpu event
  · cases hexec : s.exec machine cpu event <;>
      simp [State.step, henabled, hexec]
  · simp [State.step, henabled]

/-- An operation over pointers does what the operation over lists does. -/
theorem step_exec (hrep : Represents s a)
    (hconsistent : a.settled.Consistent machine)
    (hstep : s.step machine (cpu, event) = some s') :
    ∃ a', Represents s' a' ∧ a.Enabled machine cpu event ∧
      a.exec machine cpu event = .ok a' := by
  obtain ⟨henabled, hexec⟩ := State.step_eq_some.mp hstep
  have henabled' := (hrep.enabled_iff event).mp henabled
  obtain ⟨-, houtcome⟩ := exec_performs hconsistent henabled'
  have hsimulates : Simulates Represents (s.exec machine cpu event)
      (a.exec machine cpu event) := hrep.exec event
  rw [hexec] at hsimulates
  cases habstract : a.exec machine cpu event with
  | ok a' =>
      rw [habstract] at hsimulates
      obtain ⟨s'', hsame, hrep'⟩ := hsimulates
      obtain rfl := Except.ok.inj hsame
      exact ⟨a', hrep', henabled', rfl⟩
  | error stop =>
      rw [habstract] at hsimulates houtcome
      rcases hsimulates with rfl | hstop
      · rcases houtcome with hstop | hstop <;> cases hstop
      · cases hstop

theorem step_performs (hrep : Represents s a)
    (hconsistent : a.settled.Consistent machine)
    (hstep : s.step machine (cpu, event) = some s') :
    ∃ a', Represents s' a' ∧ Performs machine cpu a event a' := by
  obtain ⟨a', hrep', henabled, hdone⟩ := step_exec hrep hconsistent hstep
  obtain ⟨-, houtcome⟩ := exec_performs hconsistent henabled
  rw [hdone] at houtcome
  exact ⟨a', hrep', houtcome⟩

/-- The moves keep a property of what lies inside and between operations. -/
structure Invariant (machine : Machine)
    (allowed : State Lists → Cpu × Event → Prop) (property : Config → Prop) :
    Prop where
  initial : ∀ values, property (listInitial values).settled
  entry : ∀ {a cpu event cfg}, a.settled.Consistent machine →
    property a.settled → allowed a (cpu, event) →
    Entry machine cpu a event cfg → property cfg
  follow : ∀ {cpu cfg cfg'}, cfg.Consistent machine → property cfg →
    Follow machine cpu cfg cfg' → property cfg'

theorem Invariant.follows {allowed : State Lists → Cpu × Event → Prop}
    {property : Config → Prop} {cfg cfg' : Config}
    (hinvariant : Invariant machine allowed property)
    (hfollows : Relation.ReflTransGen (Follow machine cpu) cfg cfg')
    (hconsistent : cfg.Consistent machine) (hproperty : property cfg) :
    property cfg' := by
  induction hfollows with
  | refl => exact hproperty
  | tail hbefore hfollow ih =>
      exact hinvariant.follow (follows_consistent hbefore hconsistent) ih
        hfollow

theorem ReachableBy.represents
    {allowed : State Pointers → Cpu × Event → Prop}
    {allowed' : State Lists → Cpu × Event → Prop} {property : Config → Prop}
    (hreach : ReachableBy machine allowed s)
    (hallowed : ∀ s a event, Represents s a → allowed s event →
      allowed' a event)
    (hinvariant : Invariant machine allowed' property) :
    ∃ a, Represents s a ∧ a.settled.Consistent machine ∧
      property a.settled := by
  apply Runs.Reachable.invariant hreach
  · rintro s ⟨values, rfl⟩
    exact ⟨_, represents_initial values, consistent_initial machine values,
      hinvariant.initial values⟩
  · rintro s ⟨cpu, event⟩ s' ⟨a, hrep, hconsistent, hproperty⟩
      ⟨hpermitted, hstep⟩
    obtain ⟨a', hrep', hperforms⟩ := step_performs hrep hconsistent hstep
    refine ⟨a', hrep', hperforms.consistent hconsistent, ?_⟩
    obtain ⟨cfg, hentry, hfollows⟩ := hperforms
    have hentered := hinvariant.entry hconsistent hproperty
      (hallowed s a _ hrep hpermitted) hentry
    exact hinvariant.follows hfollows (hentry.consistent hconsistent) hentered

theorem Reachable.by (hreach : Reachable machine s) :
    ReachableBy machine (fun _ _ => True) s := by
  induction hreach with
  | start hinit => exact .start hinit
  | next _ hstep ih => exact .next ih ⟨trivial, hstep⟩

theorem Reachable.represents (hreach : Reachable machine s) :
    ∃ a, Represents s a ∧ a.settled.Consistent machine := by
  have htrivial : Invariant machine (fun _ _ => True) fun _ => True :=
    ⟨fun _ => trivial, fun _ _ _ _ => trivial, fun _ _ _ => trivial⟩
  obtain ⟨a, hrep, hconsistent, -⟩ :=
    hreach.by.represents (fun _ _ _ _ _ => trivial) htrivial
  exact ⟨a, hrep, hconsistent⟩

theorem initial_values : Initial (initial noThreads fun _ => 0) := ⟨_, rfl⟩

def sampleRunBy (allowed : State Pointers → Cpu × Event → Prop)
    [∀ s, DecidablePred (allowed s)] (events : List (Cpu × Event)) :
    Option (State Pointers) :=
  Runs.run (fun s event =>
    if allowed s event then s.step sampleMachine event else none)
    (initial noThreads fun _ => 0) events

theorem sampleRunBy_reaches {allowed : State Pointers → Cpu × Event → Prop}
    [∀ s, DecidablePred (allowed s)] {events : List (Cpu × Event)}
    {check : State Pointers → Bool}
    (hrun : (sampleRunBy allowed events).any check) :
    ∃ s, ReachableBy sampleMachine allowed s ∧ check s := by
  obtain ⟨s, hs, hcheck⟩ := (Option.any_eq_true _ _).mp hrun
  exact ⟨s, Runs.Reachable.run_allowed initial_values hs, hcheck⟩

end X86Os32.Scheduler
