import X86Os32.Thread.Invariants
import X86Os32.Thread.Past

namespace X86Os32.Scheduler

open Library Library.Results

/-! Who owns a mutex, and what becomes of the mutexes of a thread that is
destroyed. -/

variable {machine : Machine} {cpu : Cpu} {t : Address}

/-- The mutexes in the list of the thread, which are those that it holds, have
all been released, and its list is empty. -/
def ReleasesHeld (s s' : State Pointers) (t : Address) : Prop :=
  ∃ a a' held held', Represents s a ∧ Represents s' a' ∧
    s.mutexes.Holds held ∧ (∀ m, m ∈ held t ↔ s.owner m = some t) ∧
    Releases a a' (held t) ∧ s'.mutexes.Holds held' ∧ held' t = []

section Calls

variable {a middle : State Lists} {place : Address → Location}
  {held : Address → List Address}

theorem running_consistent (hconsistent : a.settled.Consistent machine)
    (hactive : a.life cpu = some t) (hidle : ¬ machine.Idle t) :
    ∃ current, Config.Consistent machine ⟨a.buried t, current, some t⟩ := by
  have hstep : Follow machine cpu a.settled _ := .retire hidle hactive
  exact ⟨_, hstep.consistent hconsistent⟩

theorem kill_consistent {that : Address}
    (hplaced : Placed machine a a.life place)
    (hconsistent : a.settled.Consistent machine)
    (hdestroyed : a.destroyed that = false) (hidle : ¬ machine.Idle that)
    (hcall : a.destroyCall cpu (.kill that) = .ok (some (t, middle))) :
    ∃ current, Config.Consistent machine
      ⟨middle.buried t, current, some t⟩ := by
  have hpull : ∀ i, that ∈ a.threads i → ∃ current, Config.Consistent machine
      ⟨((a.marked that).pulled i that).buried that, current, some that⟩ := by
    intro i hmem
    have hentry : Entry machine cpu a (.kill that) _ := .pull hmem
    exact ⟨_, hentry.consistent hconsistent⟩
  obtain ⟨⟨found, threads⟩, hremove, hcall⟩ := bind_eq_ok.mp hcall
  dsimp only at hremove hcall
  by_cases hready : that ∈ a.threads .readyList
  · rw [remove_of_mem hready] at hremove
    obtain ⟨rfl, rfl⟩ := Prod.mk.inj (Except.ok.inj hremove)
    obtain ⟨rfl, hmiddle⟩ :=
      Prod.mk.inj (Option.some.inj (Except.ok.inj hcall))
    rw [← hmiddle]
    exact hpull _ hready
  · rw [remove_of_not_mem hready] at hremove
    obtain ⟨rfl, rfl⟩ := Prod.mk.inj (Except.ok.inj hremove)
    rw [if_neg (by simp)] at hcall
    cases hwaiting : a.waitingIn that with
    | some w =>
        have hplace := hplaced.waits hwaiting hdestroyed
        have hmem := (hplaced.listed _ that).mpr hplace
        rw [hwaiting] at hcall
        obtain ⟨⟨found, threads⟩, hremove', hcall⟩ := bind_eq_ok.mp hcall
        rw [remove_of_mem hmem] at hremove'
        obtain ⟨rfl, rfl⟩ := Prod.mk.inj (Except.ok.inj hremove')
        obtain ⟨rfl, hmiddle⟩ :=
          Prod.mk.inj (Option.some.inj (Except.ok.inj hcall))
        rw [← hmiddle]
        exact hpull _ hmem
    | none =>
        rw [hwaiting] at hcall
        dsimp only at hcall
        split at hcall
        · next hself =>
          obtain ⟨rfl, hmiddle⟩ :=
            Prod.mk.inj (Option.some.inj (Except.ok.inj hcall))
          have hlife : a.life cpu = some that := State.executing_some hself
          have hentry : Entry machine cpu a (.kill that) _ :=
            .self hidle hlife
          rw [← hmiddle]
          exact ⟨_, hentry.consistent hconsistent⟩
        · cases hcall

theorem destroyCall_consistent {event : Event}
    (hconsistent : a.settled.Consistent machine)
    (henabled : a.Enabled machine cpu event)
    (hcall : a.destroyCall cpu event = .ok (some (t, middle))) :
    ∃ current, Config.Consistent machine
      ⟨middle.buried t, current, some t⟩ := by
  have hboth := hconsistent
  obtain ⟨place, held, hplaced, -⟩ := hboth
  change Placed machine a a.life place at hplaced
  cases event with
  | exit =>
      obtain ⟨u, hactive, hcall⟩ := bind_eq_ok.mp hcall
      obtain ⟨rfl, rfl⟩ :=
        Prod.mk.inj (Option.some.inj (Except.ok.inj hcall))
      have hlife : a.life cpu = some u := deref_eq_ok.mp hactive
      obtain ⟨v, hv, hidle⟩ := henabled
      obtain rfl : v = u := Option.some.inj (hv.symm.trans hlife)
      exact running_consistent hconsistent hlife hidle
  | resume =>
      obtain ⟨u, hactive, hcall⟩ := bind_eq_ok.mp hcall
      have hlife : a.life cpu = some u := deref_eq_ok.mp hactive
      split at hcall
      · next hkilled =>
        obtain ⟨rfl, rfl⟩ :=
          Prod.mk.inj (Option.some.inj (Except.ok.inj hcall))
        exact running_consistent hconsistent hlife
          (hplaced.not_idle_of_killed hkilled)
      · cases hcall
  | assassin served =>
      obtain ⟨u, hactive, hcall⟩ := bind_eq_ok.mp hcall
      have hlife : a.life cpu = some u := deref_eq_ok.mp hactive
      split at hcall
      · next hkilled =>
        obtain ⟨rfl, hmiddle⟩ :=
          Prod.mk.inj (Option.some.inj (Except.ok.inj hcall))
        have hentry : Entry machine cpu a (.assassin served) _ :=
          .execute (hplaced.not_idle_of_killed hkilled) hlife hkilled
        rw [← hmiddle]
        exact ⟨_, hentry.consistent hconsistent⟩
      · cases hcall
  | kill that =>
      exact kill_consistent hplaced hconsistent henabled.1 henabled.2 hcall
  | _ => cases hcall

end Calls

section Pointers

variable {s middle : State Pointers} {a b : State Lists}

abbrev SameCall (x : Address × State Pointers) (y : Address × State Lists) :
    Prop :=
  x.1 = y.1 ∧ Represents x.2 y.2

theorem Represents.destroyCall (hrep : Represents s a) (cpu : Cpu)
    (event : Event) :
    Follows (fun _ => False) (Option.Rel SameCall)
      (s.destroyCall cpu event) (a.destroyCall cpu event) := by
  obtain ⟨qs, hholds, rfl⟩ := hrep
  have hsame : ∀ {t : Address} {s : State Pointers} {a : State Lists},
      Represents s a → Follows (fun _ : Stop => False) (Option.Rel SameCall)
        (.ok (some (t, s))) (.ok (some (t, a))) :=
    fun hrep => .ok (.some ⟨rfl, hrep⟩)
  cases event with
  | exit =>
      refine (Follows.refl _).bind fun t _ ht => ?_
      subst ht
      exact hsame ⟨qs, hholds, rfl⟩
  | resume =>
      refine (Follows.refl _).bind fun t _ ht => ?_
      subst ht
      dsimp only
      split
      · exact hsame ⟨qs, hholds, rfl⟩
      · exact .ok .none
  | assassin served =>
      refine (Follows.refl _).bind fun t _ ht => ?_
      subst ht
      dsimp only
      split
      · exact hsame ⟨qs, hholds, rfl⟩
      · exact .ok .none
  | kill that =>
      refine (simulates_remove hholds _ _).bind fun x y hxy => ?_
      obtain ⟨found, qs⟩ := x
      obtain ⟨_, lists⟩ := y
      obtain ⟨rfl, hholds⟩ := hxy
      dsimp only
      split
      · exact hsame ⟨_, hholds, rfl⟩
      · cases a.waitingIn that with
        | some w =>
            refine (simulates_remove hholds _ _).bind fun x y hxy => ?_
            exact hsame ⟨_, hxy.2, rfl⟩
        | none =>
            unfold State.executing
            dsimp only
            split
            · exact hsame ⟨_, hholds, rfl⟩
            · exact .ok .none
  | _ => exact .ok .none

/-- `mutex_release_all` in the state in which the destructor is called. -/
theorem releases_held {current : Cpu → Option Address}
    (hconsistent : Config.Consistent machine
      ⟨b.buried t, current, some t⟩) (hrep : Represents middle b) :
    ∃ s', State.mutexReleaseAll { middle with
        destroyed := Function.update middle.destroyed t true } t =
          .ok (true, s') ∧ ReleasesHeld middle s' t := by
  obtain ⟨place, held, hplaced, howned⟩ := hconsistent
  change Placed machine (b.buried t) current place at hplaced
  change Owned (b.buried t) (some t) held at howned
  obtain ⟨b', hdone, -, ⟨held', howned', hempty⟩, hreleases⟩ :=
    mutexReleaseAll_spec 0 hplaced howned
  have hboth := hrep
  obtain ⟨qs, hholds, rfl⟩ := hrep
  have hburied : Represents { b with
      threads := qs
      destroyed := Function.update b.destroyed t true } (b.buried t) :=
    ⟨qs, hholds, rfl⟩
  have hsimulates : Simulates RepresentsWith
      (State.mutexReleaseAll { b with
        threads := qs
        destroyed := Function.update b.destroyed t true } t)
      ((b.buried t).mutexReleaseAll t) :=
    hburied.mutexReleaseFrom true _ _
  rw [hdone] at hsimulates
  obtain ⟨x, hexec, hwith⟩ := hsimulates
  obtain ⟨-, hrep'⟩ := hwith
  refine ⟨_, hexec, b, b', held, held', hboth, hrep', howned.holds,
    fun m => howned.owner_iff m t, ?_, ?_, hempty⟩
  · exact ⟨hreleases.ready, hreleases.owner, hreleases.room,
      hreleases.counter, hreleases.rooms, hreleases.woken,
      hreleases.waitingIn, hreleases.life⟩
  · obtain ⟨qs', -, rfl⟩ := hrep'
    exact howned'.holds

/-- The lists of held mutexes agree with the owners, a mutex has one owner, and
the destructor of a thread, wherever it is called, releases what the thread
holds. -/
theorem mutex_ownership (hreach : Reachable machine s) :
    (∃ held, s.mutexes.Holds held ∧
      (∀ m t, m ∈ held t ↔ s.owner m = some t) ∧
      ∀ m, s.critical m = (s.owner m).toList) ∧
    ∀ cpu event t middle, s.Enabled machine cpu event →
      s.destroyCall cpu event = .ok (some (t, middle)) →
      State.GoesOn machine cpu t middle (s.exec machine cpu event) ∧
      ∃ s', State.mutexReleaseAll { middle with
          destroyed := Function.update middle.destroyed t true } t =
            .ok (true, s') ∧ ReleasesHeld middle s' t := by
  obtain ⟨a, hrep, hconsistent⟩ := hreach.represents
  constructor
  · obtain ⟨place, held, -, howned⟩ := hconsistent
    obtain ⟨qs, -, rfl⟩ := hrep
    exact ⟨held, howned.holds, howned.owner_iff, howned.critical⟩
  · intro cpu event t middle henabled hcall
    refine ⟨(State.destroyCall_exec machine hcall).1, ?_⟩
    have hfollows := hrep.destroyCall cpu event
    cases habstract : a.destroyCall cpu event with
    | error stop =>
        rw [habstract, hcall] at hfollows
        rcases hfollows with hfalse | hstop
        · exact hfalse.elim
        · cases hstop
    | ok call =>
        rw [habstract, hcall] at hfollows
        obtain ⟨x, hx, hrel⟩ := hfollows
        obtain rfl := Except.ok.inj hx
        cases hrel with
        | @some _ y hsame =>
            obtain ⟨u, b⟩ := y
            obtain ⟨rfl, hmiddle⟩ := hsame
            obtain ⟨current, hcalled⟩ := destroyCall_consistent hconsistent
              ((hrep.enabled_iff event).mp henabled) habstract
            exact releases_held hcalled hmiddle

/-- A thread that holds two mutexes exits, while another waits for the
first. -/
theorem mutex_ownership_exit :
    ∃ s s' : State Pointers, s.owner 7 = some 100 ∧ s.owner 8 = some 100 ∧
      s.threads.first (.room (.mutex 7)) = some 200 ∧
      State.mutexReleaseAll { s with
        destroyed := Function.update s.destroyed 100 true } 100 =
          .ok (true, s') ∧
      ReleasesHeld s s' 100 := by
  have hrun : (sampleRun [(0, .ready 100), (0, .ready 200), (0, .schedule),
      (1, .schedule), (0, .lock 7), (0, .lock 8), (1, .lock 7)]).any fun s =>
        s.Enabled sampleMachine 0 .exit ∧ s.life 0 = some 100 ∧
          s.owner 7 = some 100 ∧ s.owner 8 = some 100 ∧
          s.threads.first (.room (.mutex 7)) = some 200 := by
    decide +kernel
  obtain ⟨s, hreach, hcheck⟩ := sampleRun_reaches hrun
  simp only [decide_eq_true_eq] at hcheck
  obtain ⟨henabled, hlife, howner, howner', hfirst⟩ := hcheck
  have hcall : s.destroyCall 0 .exit = .ok (some (100, s)) := by
    unfold State.destroyCall State.active
    rw [hlife]
    rfl
  obtain ⟨-, s', hdone, hreleases⟩ :=
    (mutex_ownership hreach).2 0 .exit 100 s henabled hcall
  exact ⟨s, s', howner, howner', hfirst, hdone, hreleases⟩

end Pointers

end X86Os32.Scheduler
