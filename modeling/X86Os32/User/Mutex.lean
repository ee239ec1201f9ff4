import X86Os32.Thread.Placement

namespace X86Os32.Scheduler

open Library

/-! Who holds a mutex.  The token of a mutex is its counter, its owner or a
thread that `unlock` has woken and that has not run since; there is never more
than one. -/

/-- The thread has been woken from `lock` and is on its way to becoming the
owner. -/
def State.Granted (s : State Lists) (m t : Address) : Prop :=
  t ∈ s.threads .readyList ∧ s.resumption t = some (.lock m)

/-- `held` are the `mutex_list`s.  A thread that is being destroyed, `dying`,
still holds mutexes until `mutex_release_all` has released them. -/
structure Owned (s : State Lists) (dying : Option Address)
    (held : Address → List Address) : Prop where
  holds : s.mutexes.Holds held
  owner_iff : ∀ m t, m ∈ held t ↔ s.owner m = some t
  critical : ∀ m, s.critical m = (s.owner m).toList
  alive : ∀ m t, s.owner m = some t →
    s.destroyed t = false ∨ dying = some t
  counter : ∀ m, s.counter (.mutex m) = 0 ∨ s.counter (.mutex m) = 1
  obtainable : ∀ m, s.counter (.mutex m) = 1 →
    s.owner m = none ∧ ∀ t, ¬ s.Granted m t
  granted : ∀ m t, s.Granted m t →
    s.owner m = none ∧ ∀ u, s.Granted m u → u = t

namespace Owned

variable {s s' : State Lists} {dying dying' : Option Address}
  {held : Address → List Address} {t m : Address}

theorem frame (howned : Owned s dying held) (hmutexes : s'.mutexes = s.mutexes)
    (howner : s'.owner = s.owner) (hcritical : s'.critical = s.critical)
    (hcounter : ∀ m, s'.counter (.mutex m) = s.counter (.mutex m))
    (halive : ∀ t, s.destroyed t = false ∨ dying = some t →
      s'.destroyed t = false ∨ dying' = some t)
    (hgranted : ∀ m t, s'.Granted m t → s.Granted m t) :
    Owned s' dying' held where
  holds := hmutexes ▸ howned.holds
  owner_iff := howner ▸ howned.owner_iff
  critical := by
    rw [hcritical, howner]
    exact howned.critical
  alive m t hm := by
    rw [howner] at hm
    exact halive t (howned.alive m t hm)
  counter m := by
    rw [hcounter]
    exact howned.counter m
  obtainable m hm := by
    rw [hcounter] at hm
    rw [howner]
    obtain ⟨hnone, hfree⟩ := howned.obtainable m hm
    exact ⟨hnone, fun t ht => hfree t (hgranted m t ht)⟩
  granted m t ht := by
    rw [howner]
    obtain ⟨hnone, honly⟩ := howned.granted m t (hgranted m t ht)
    exact ⟨hnone, fun u hu => honly u (hgranted m u hu)⟩

structure Unclaimed (s : State Lists) (m : Address) : Prop where
  counter : s.counter (.mutex m) = 0
  owner : s.owner m = none
  granted : ∀ t, ¬ s.Granted m t

theorem take (howned : Owned s dying held) (hfree : Unclaimed s m)
    (halive : s.destroyed t = false) :
    Owned (s.owned t m) dying
      (Function.update held t (held t ++ [m])) where
  holds := howned.holds.enqueue fun u hu => by
    rw [howned.owner_iff, hfree.owner] at hu
    simp at hu
  owner_iff m' u := by
    by_cases hm : m' = m
    · subst hm
      have hnot : ∀ u, m' ∉ held u := by
        intro u hu
        rw [howned.owner_iff, hfree.owner] at hu
        simp at hu
      by_cases hu : u = t
      · simp [State.owned, State.mutexHold, hu]
      · simp [State.owned, State.mutexHold, hu, Ne.symm hu, hnot]
    · by_cases hu : u = t
      · subst hu
        simp [State.owned, State.mutexHold, hm, howned.owner_iff]
      · simp [State.owned, State.mutexHold, hm, hu, howned.owner_iff]
  critical m' := by
    by_cases hm : m' = m
    · subst hm
      simp [State.owned, State.mutexHold, howned.critical, hfree.owner]
    · simp [State.owned, State.mutexHold, hm, howned.critical]
  alive m' u hu := by
    by_cases hm : m' = m
    · subst hm
      obtain rfl : t = u := by
        simpa [State.owned, State.mutexHold] using hu
      exact Or.inl halive
    · exact howned.alive m' u (by
        simpa [State.owned, State.mutexHold, hm] using hu)
  counter := howned.counter
  obtainable m' hm' := by
    have hm : m' ≠ m := by
      rintro rfl
      have hzero := hfree.counter
      have hone : s.counter (.mutex m') = 1 := hm'
      omega
    have hold := howned.obtainable m' hm'
    exact ⟨by simpa [State.owned, State.mutexHold, hm] using hold.1, hold.2⟩
  granted m' u hu := by
    have hm : m' ≠ m := by
      rintro rfl
      exact hfree.granted u hu
    have hold := howned.granted m' u hu
    exact ⟨by simpa [State.owned, State.mutexHold, hm] using hold.1, hold.2⟩

theorem count (howned : Owned s dying held)
    (hcounter : s.counter (.mutex m) = 1) :
    Owned (s.setCounter (.mutex m) 0) dying held ∧
      Unclaimed (s.setCounter (.mutex m) 0) m := by
  obtain ⟨hnone, hfree⟩ := howned.obtainable m hcounter
  refine ⟨⟨howned.holds, howned.owner_iff, howned.critical, howned.alive, ?_,
    ?_, howned.granted⟩, by simp [State.setCounter], hnone, hfree⟩
  · intro m'
    by_cases hm : m' = m
    · simp [State.setCounter, hm]
    · simpa [State.setCounter, hm] using howned.counter m'
  · intro m' hm'
    exact howned.obtainable m' (by
      by_cases hm : m' = m
      · simp [State.setCounter, hm] at hm'
      · simpa [State.setCounter, hm] using hm')

theorem disown (howned : Owned s dying held) (howner : s.owner m = some t)
    (hholds : mutexes.Holds (Function.update held t ((held t).erase m))) :
    Owned (s.disowned m t mutexes) dying
        (Function.update held t ((held t).erase m)) ∧
      Unclaimed (s.disowned m t mutexes) m := by
  have hgranted : ∀ u, ¬ s.Granted m u := by
    intro u hu
    simp [(howned.granted m u hu).1] at howner
  have hcounter : s.counter (.mutex m) = 0 := by
    rcases howned.counter m with hzero | hone
    · exact hzero
    · simp [(howned.obtainable m hone).1] at howner
  have hnodup := (howned.holds.queue t).nodup
  refine ⟨⟨hholds, ?_, ?_, ?_, howned.counter, ?_, ?_⟩, hcounter,
    by simp [State.disowned], hgranted⟩
  · intro m' u
    by_cases hu : u = t
    · subst hu
      by_cases hm : m' = m
      · simp [State.disowned, hm, hnodup.mem_erase_iff]
      · simp [State.disowned, hm, hnodup.mem_erase_iff, howned.owner_iff]
    · by_cases hm : m' = m
      · simp [State.disowned, hm, hu, howned.owner_iff, howner, Ne.symm hu]
      · simp [State.disowned, hm, hu, howned.owner_iff]
  · intro m'
    by_cases hm : m' = m
    · simp [State.disowned, hm, howned.critical, howner]
    · simp [State.disowned, hm, howned.critical]
  · intro m' u hu
    by_cases hm : m' = m
    · simp [State.disowned, hm] at hu
    · exact howned.alive m' u (by simpa [State.disowned, hm] using hu)
  · intro m' hm'
    obtain ⟨hnone, hfree⟩ := howned.obtainable m' hm'
    refine ⟨?_, hfree⟩
    by_cases hm : m' = m
    · simp [State.disowned, hm]
    · simpa [State.disowned, hm] using hnone
  · intro m' u hu
    obtain ⟨hnone, honly⟩ := howned.granted m' u hu
    refine ⟨?_, honly⟩
    by_cases hm : m' = m
    · simp [State.disowned, hm]
    · simpa [State.disowned, hm] using hnone

/-- `v` puts the token back into the counter, or gives it to the first thread
that waits. -/
theorem give (howned : Owned s dying held) (hfree : Unclaimed s m)
    (hwaits : ∀ t ∈ s.threads (.room (.mutex m)),
      s.resumption t = some (.lock m)) :
    Owned (s.released (.mutex m)) dying held := by
  cases hroom : s.threads (.room (.mutex m)) with
  | nil =>
      have heq : s.released (.mutex m) = s.setCounter (.mutex m) 1 := by
        simp [State.released, hroom, hfree.counter, succInt]
      rw [heq]
      refine ⟨howned.holds, howned.owner_iff, howned.critical, howned.alive,
        ?_, ?_, howned.granted⟩
      · intro m'
        by_cases hm : m' = m
        · simp [State.setCounter, hm]
        · simpa [State.setCounter, hm] using howned.counter m'
      · intro m' hm'
        by_cases hm : m' = m
        · rw [hm]
          exact ⟨hfree.owner, hfree.granted⟩
        · exact howned.obtainable m' (by
            simpa [State.setCounter, hm] using hm')
  | cons t rest =>
      have heq : s.released (.mutex m) = s.woken (.mutex m) t := by
        simp [State.released, hroom]
      have hresumption := hwaits t (by simp [hroom])
      rw [heq]
      have hgranted : ∀ m' u, (s.woken (.mutex m) t).Granted m' u →
          s.Granted m' u ∨ (m' = m ∧ u = t) := by
        rintro m' u ⟨hmem, hu⟩
        have hor : u ∈ s.threads .readyList ∨ u = t := by
          simpa [State.woken, Lists.append, Lists.erase] using hmem
        rcases hor with hold | rfl
        · exact Or.inl ⟨hold, hu⟩
        · right
          have hsame : some (Resumption.lock m) = some (.lock m') :=
            hresumption.symm.trans hu
          simp only [Option.some.injEq, Resumption.lock.injEq] at hsame
          exact ⟨hsame.symm, rfl⟩
      refine ⟨howned.holds, howned.owner_iff, howned.critical, howned.alive,
        howned.counter, ?_, ?_⟩
      · intro m' hm'
        obtain ⟨hnone, hno⟩ := howned.obtainable m' hm'
        refine ⟨hnone, fun u hu => ?_⟩
        rcases hgranted m' u hu with hold | ⟨rfl, -⟩
        · exact hno u hold
        · have hone : s.counter (.mutex m') = 1 := hm'
          have hzero := hfree.counter
          omega
      · intro m' u hu
        rcases hgranted m' u hu with hold | ⟨rfl, rfl⟩
        · obtain ⟨hnone, honly⟩ := howned.granted m' u hold
          refine ⟨hnone, fun v hv => ?_⟩
          rcases hgranted m' v hv with hold' | ⟨rfl, -⟩
          · exact honly v hold'
          · exact absurd hold (hfree.granted u)
        · refine ⟨hfree.owner, fun v hv => ?_⟩
          rcases hgranted m' v hv with hold' | ⟨-, rfl⟩
          · exact absurd hold' (hfree.granted v)
          · rfl

end Owned

end X86Os32.Scheduler
