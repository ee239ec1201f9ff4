import X86Os32.Thread.Invariants

namespace X86Os32.Scheduler

open Library

/-! Every thread is in one place.  The lists are what a walk along the pointers
of each queue finds. -/

def State.At (s : State Pointers) (lists : Lists) (t : Address) :
    Location → Prop
  | .nowhere => False
  | .queue i => t ∈ lists i
  | .cpu c => s.life c = some t

structure SinglePlace (machine : Machine) (s : State Pointers)
    (lists : Lists) : Prop where
  holds : s.threads.Holds lists
  once : ∀ i, (lists i).Nodup
  place : ∀ t, s.readied t = true → s.destroyed t = false →
    ∃! location, s.At lists t location
  waiting : ∀ t, s.destroyed t = false →
    ∀ w, s.waitingIn t = some w ↔ t ∈ lists (.room w)
  idle : ∀ c i, machine.idlethread c ∉ lists i
  destroyed : ∀ t, s.destroyed t = true →
    (∀ i, t ∉ lists i) ∧ ∀ c, s.life c ≠ some t

variable {machine : Machine} {s : State Pointers} {a : State Lists}
  {place : Address → Location}

theorem Represents.at_iff (hrep : Represents s a)
    (hplaced : Placed machine a a.life place) (t : Address)
    (location : Location) :
    s.At a.threads t location ↔
      place t = location ∧ location ≠ .nowhere := by
  obtain ⟨qs, hholds, rfl⟩ := hrep
  cases location with
  | nowhere => simp [State.At]
  | queue i => simp [State.At, hplaced.listed]
  | cpu c =>
      have hrunning := hplaced.running c t
      simpa [State.At] using hrunning

theorem Represents.singlePlace (hrep : Represents s a)
    (hconsistent : a.settled.Consistent machine) :
    SinglePlace machine s a.threads := by
  obtain ⟨place, -, hplaced, -⟩ := hconsistent
  change Placed machine a a.life place at hplaced
  have hat := hrep.at_iff hplaced
  obtain ⟨qs, hholds, rfl⟩ := hrep
  refine ⟨hholds, hplaced.nodup, ?_, ?_, ?_, ?_⟩
  · intro t hreadied hdestroyed
    have hsettled := (hplaced.sits t).settled hreadied hdestroyed
    refine ⟨place t, (hat t _).mpr ⟨rfl, hsettled⟩, fun location hlocation => ?_⟩
    exact ((hat t location).mp hlocation).1.symm
  · intro t hdestroyed w
    rw [hplaced.listed]
    exact (hplaced.sits t).waiting hdestroyed w
  · intro c i hmem
    have hplace := (hplaced.listed i _).mp hmem
    exact (hplaced.readied_of_queue hplace).2 ⟨c, rfl⟩
  · intro t hdestroyed
    have hplace := ((hplaced.sits t).buried hdestroyed).2
    refine ⟨hplaced.fresh (by simp [hplace]), fun c hlife => ?_⟩
    have hcpu := (hplaced.running c t).mp hlife
    simp [hplace] at hcpu

/-- In every state of a run each thread is in one place, and each operation
that does not walk along bells succeeds. -/
theorem single_place (hreach : Reachable machine s) :
    (∃ lists, SinglePlace machine s lists) ∧
      ∀ cpu event, s.Enabled machine cpu event → ¬ event.WalksBells →
        ∃ s', s.step machine (cpu, event) = some s' := by
  obtain ⟨a, hrep, hconsistent⟩ := hreach.represents
  refine ⟨⟨a.threads, hrep.singlePlace hconsistent⟩, ?_⟩
  intro cpu event henabled hbells
  obtain ⟨hsucceeds, -⟩ :=
    exec_performs hconsistent ((hrep.enabled_iff event).mp henabled)
  obtain ⟨a', hdone⟩ := hsucceeds hbells
  have hsimulates : Results.Follows (· = .linkedTwice) Represents
      (s.exec machine cpu event) (a.exec machine cpu event) := hrep.exec event
  rw [hdone] at hsimulates
  obtain ⟨s', hexec, -⟩ := hsimulates
  exact ⟨s', State.step_eq_some.mpr ⟨henabled, hexec⟩⟩

/-- Two threads run on two CPUs. -/
theorem single_place_two_running :
    ∃ s, s.life 0 = some 100 ∧ s.life 1 = some 200 ∧
      (∃ lists, SinglePlace sampleMachine s lists) ∧
      ∀ cpu event, s.Enabled sampleMachine cpu event → ¬ event.WalksBells →
        ∃ s', s.step sampleMachine (cpu, event) = some s' := by
  have hrun : (sampleRun [(0, .ready 100), (0, .ready 200), (0, .schedule),
      (1, .schedule)]).any fun s =>
        s.life 0 = some 100 ∧ s.life 1 = some 200 := by
    decide +kernel
  obtain ⟨s, hreach, hlife⟩ := sampleRun_reaches hrun
  simp only [decide_eq_true_eq] at hlife
  exact ⟨s, hlife.1, hlife.2, single_place hreach⟩

/-- `kill` leaves the waiting room on record of a thread that it takes out of
it. -/
theorem waiting_in_after_kill :
    ¬ ∀ machine s, Reachable machine s → ∃ lists : Lists,
      s.threads.Holds lists ∧
        ∀ t w, s.waitingIn t = some w ↔ t ∈ lists (.room w) := by
  intro hclaim
  have hrun : (sampleRun [(0, .ready 100), (0, .ready 200), (0, .schedule),
      (1, .schedule), (1, .block (.waitingroom 5)), (0, .kill 200)]).any
      fun s => s.waitingIn 200 = some (.waitingroom 5) ∧
        s.threads.first (.room (.waitingroom 5)) = none := by
    decide +kernel
  obtain ⟨s, hreach, hcheck⟩ := sampleRun_reaches hrun
  simp only [decide_eq_true_eq] at hcheck
  obtain ⟨hwaiting, hfirst⟩ := hcheck
  obtain ⟨lists, hholds, hiff⟩ := hclaim sampleMachine s hreach
  have hmem := (hiff 200 _).mp hwaiting
  have hhead := (hholds.queue (.room (.waitingroom 5))).head_eq
  rw [show (s.threads.queue _).head = none from hfirst] at hhead
  rw [List.head?_eq_none_iff.mp hhead.symm] at hmem
  simp at hmem

end X86Os32.Scheduler
