import X86Os32.Thread.Moves

namespace X86Os32.Scheduler

open Library Library.LinkChain

/-! `mutex_release_all`, which removes mutexes from the list it walks.  The walk
goes on because `Queue::remove` leaves the link of the removed mutex alone. -/

variable {machine : Machine} {s s' : State Lists} {cpu : Cpu}
  {t m : Address} {w : Room} {current : Cpu → Option Address}
  {held : Address → List Address} {items : List Address}

/-! ### The effect of `v` -/

namespace State

theorem released_room (w : Room) :
    (s.released w).threads (.room w) = (s.threads (.room w)).tail := by
  unfold released
  split
  · next hnil => simp [setCounter, hnil]
  · next t rest hcons => simp [woken, Lists.append, Lists.erase, hcons]

theorem released_ready (w : Room) :
    (s.released w).threads .readyList =
      s.threads .readyList ++ (s.threads (.room w)).head?.toList := by
  unfold released
  split
  · next hnil => simp [setCounter, hnil]
  · next t rest hcons => simp [woken, Lists.append, Lists.erase, hcons]

theorem released_counter (w : Room) :
    (s.released w).counter w =
      if s.threads (.room w) = [] then succInt (s.counter w) else s.counter w := by
  unfold released
  split
  · next hnil => simp [setCounter, hnil]
  · next t rest hcons => simp [woken, hcons]

theorem released_other {w w' : Room} (hne : w' ≠ w) :
    (s.released w).threads (.room w') = s.threads (.room w') ∧
      (s.released w).counter w' = s.counter w' := by
  unfold released
  split
  · simp [setCounter, hne]
  · simp [woken, Lists.append, Lists.erase, hne]

theorem released_waitingIn (w : Room) :
    (∀ t ∈ (s.threads (.room w)).head?, (s.released w).waitingIn t = none) ∧
      ∀ t, s.waitingIn t = none → (s.released w).waitingIn t = none := by
  unfold released
  split
  · next hnil => simp [setCounter, hnil]
  · next u rest hcons =>
    refine ⟨by simp [woken, hcons], fun t hwaiting => ?_⟩
    by_cases heq : t = u
    · simp [woken, heq]
    · simp [woken, heq, hwaiting]

@[simp] theorem released_owner (w : Room) :
    (s.released w).owner = s.owner := by
  unfold released
  split <;> rfl

@[simp] theorem released_mutexes (w : Room) :
    (s.released w).mutexes = s.mutexes := by
  unfold released
  split <;> rfl

end State

/-! ### The effect of the loop -/

/-- What releasing the mutexes `items`, one after the other, does: each loses
its owner and wakes its first waiter, or else becomes free. -/
structure Releases (s s' : State Lists) (items : List Address) : Prop where
  ready : s'.threads .readyList = s.threads .readyList ++
    items.filterMap fun m => (s.threads (.room (.mutex m))).head?
  owner : ∀ m, s'.owner m = if m ∈ items then none else s.owner m
  room : ∀ m, s'.threads (.room (.mutex m)) =
    if m ∈ items then (s.threads (.room (.mutex m))).tail
    else s.threads (.room (.mutex m))
  counter : ∀ m, s'.counter (.mutex m) =
    if m ∈ items ∧ s.threads (.room (.mutex m)) = [] then
      s.counter (.mutex m) + 1
    else s.counter (.mutex m)
  rooms : ∀ w, w.isMutex = false →
    s'.threads (.room w) = s.threads (.room w) ∧ s'.counter w = s.counter w
  woken : ∀ m ∈ items, ∀ t ∈ (s.threads (.room (.mutex m))).head?,
    s'.waitingIn t = none
  waitingIn : ∀ t, s.waitingIn t = none → s'.waitingIn t = none
  life : s'.life = s.life

theorem Releases.nil : Releases s s [] where
  ready := by simp
  owner := by simp
  room := by simp
  counter := by simp
  rooms := fun _ _ => ⟨rfl, rfl⟩
  woken := by simp
  waitingIn := fun _ h => h
  life := rfl

theorem Releases.cons {mutexes : Queues Address Address}
    (hrest : Releases (s.unlocked m t mutexes) s' items) (hnot : m ∉ items)
    (hcounter : s.counter (.mutex m) ≠ 2147483647) :
    Releases s s' (m :: items) := by
  have hne : ∀ m' ∈ items, Room.mutex m' ≠ .mutex m := by
    rintro m' hm' heq
    obtain rfl := Room.mutex.inj heq
    exact hnot hm'
  have hother : ∀ m' ∈ items,
      (s.unlocked m t mutexes).threads (.room (.mutex m')) =
        s.threads (.room (.mutex m')) :=
    fun m' hm' => (State.released_other (hne m' hm')).1
  have hfirst := State.released_waitingIn (s := s.disowned m t mutexes)
    (.mutex m)
  constructor
  · rw [hrest.ready]
    have hready : (s.unlocked m t mutexes).threads .readyList =
        s.threads .readyList ++
          (s.threads (.room (.mutex m))).head?.toList :=
      State.released_ready _
    have hmap : items.filterMap (fun m' =>
        ((s.unlocked m t mutexes).threads (.room (.mutex m'))).head?) =
        items.filterMap fun m' => (s.threads (.room (.mutex m'))).head? :=
      List.filterMap_congr fun m' hm' => by rw [hother m' hm']
    rw [hready, hmap, List.append_assoc, List.filterMap_cons]
    cases (s.threads (.room (.mutex m))).head? <;> rfl
  · intro m'
    rw [hrest.owner]
    by_cases hm : m' = m
    · simp [State.unlocked, State.disowned, hm]
    · simp [State.unlocked, State.disowned, hm]
  · intro m'
    rw [hrest.room]
    by_cases hm : m' = m
    · subst hm
      have hroom : (s.unlocked m' t mutexes).threads (.room (.mutex m')) =
          (s.threads (.room (.mutex m'))).tail := State.released_room _
      simp [hnot, hroom]
    · have hroom : (s.unlocked m t mutexes).threads (.room (.mutex m')) =
          s.threads (.room (.mutex m')) :=
        (State.released_other (by simpa using hm)).1
      simp [hm, hroom]
  · intro m'
    rw [hrest.counter]
    by_cases hm : m' = m
    · subst hm
      have hreleased : (s.unlocked m' t mutexes).counter (.mutex m') =
          if s.threads (.room (.mutex m')) = [] then
            succInt (s.counter (.mutex m'))
          else s.counter (.mutex m') := State.released_counter _
      simp [hnot, hreleased, succInt_of_ne hcounter]
    · have hroom : (s.unlocked m t mutexes).threads (.room (.mutex m')) =
            s.threads (.room (.mutex m')) ∧
          (s.unlocked m t mutexes).counter (.mutex m') =
            s.counter (.mutex m') :=
        State.released_other (by simpa using hm)
      simp [hm, hroom.1, hroom.2]
  · intro w hw
    have hroom : (s.unlocked m t mutexes).threads (.room w) =
          s.threads (.room w) ∧
        (s.unlocked m t mutexes).counter w = s.counter w := by
      refine State.released_other ?_
      rintro rfl
      simp [Room.isMutex] at hw
    rw [(hrest.rooms w hw).1, (hrest.rooms w hw).2, hroom.1, hroom.2]
    exact ⟨rfl, rfl⟩
  · intro m' hm' u hu
    rcases List.mem_cons.mp hm' with rfl | hm'
    · exact hrest.waitingIn u (hfirst.1 u hu)
    · exact hrest.woken m' hm' u (by rwa [hother m' hm'])
  · exact fun u hu => hrest.waitingIn u (hfirst.2 u hu)
  · rw [hrest.life]
    exact (State.unlocked_keeps mutexes).life

theorem mutexReleaseFrom_spec (cpu : Cpu) (fuel : Nat)
    (hconsistent : ∃ place, Placed machine s current place ∧
      Owned s (some t) held)
    (hitems : held t = items) (hfuel : items.length ≤ fuel) :
    ∃ s', s.mutexReleaseFrom true fuel items.head? = .ok (true, s') ∧
      Relation.ReflTransGen (Follow machine cpu) ⟨s, current, some t⟩
        ⟨s', current, some t⟩ ∧
      (∃ held', Owned s' (some t) held' ∧ held' t = []) ∧
      Releases s s' items := by
  induction items generalizing s held fuel with
  | nil =>
      obtain ⟨place, -, howned⟩ := hconsistent
      refine ⟨s, ?_, .refl, ⟨held, howned, hitems⟩, .nil⟩
      cases fuel <;> rfl
  | cons m rest ih =>
      obtain ⟨place, hplaced, howned⟩ := hconsistent
      have hqueue := howned.holds.queue t
      rw [hitems] at hqueue
      have hnot := (List.nodup_cons.mp hqueue.nodup).1
      have howner : s.owner m = some t := by
        rw [← howned.owner_iff, hitems]
        exact List.mem_cons_self
      obtain ⟨mutexes, hremove, hholds, hnext⟩ := howned.holds.remove m
        (length_le_addresses (howned.holds.queue t).nodup)
      have hmem : m ∈ held t := by simp [hitems]
      rw [if_pos hmem] at hremove
      have hstep : Follow machine cpu ⟨s, current, some t⟩
          ⟨s.unlocked m t mutexes, current, some t⟩ :=
        .unlock howner hremove
      obtain ⟨place', hplaced'⟩ := hplaced.unlocked (m := m) (t := t) mutexes
      have howned' := howned.unlocked hplaced howner hremove
      have hrest : Function.update held t ((held t).erase m) t = rest := by
        simp [hitems]
      cases fuel with
      | zero => simp at hfuel
      | succ fuel =>
          obtain ⟨s', hdone, hfollows, hempty, hreleases⟩ :=
            ih fuel ⟨place', hplaced', howned'⟩ hrest (by simpa using hfuel)
          have hcounter : s.counter (.mutex m) ≠ 2147483647 := by
            rcases howned.counter m with hzero | hone <;> omega
          refine ⟨s', ?_, .head hstep hfollows, hempty,
            hreleases.cons hnot hcounter⟩
          have hcursor : (s.unlocked m t mutexes).mutexes.next m =
              rest.head? := by
            have hmutexes : (s.unlocked m t mutexes).mutexes = mutexes :=
              State.released_mutexes _
            rw [hmutexes, hnext, hqueue.next_first]
          have hunlock := State.unlock_eq hplaced howner hremove
          simp only [List.head?_cons, State.mutexReleaseFrom, hunlock, ok_bind,
            hcursor]
          exact hdone

/-- Every mutex of the thread is released, and the list is empty. -/
theorem mutexReleaseAll_spec (cpu : Cpu) {place : Address → Location}
    (hplaced : Placed machine s current place)
    (howned : Owned s (some t) held) :
    ∃ s', s.mutexReleaseAll t = .ok (true, s') ∧
      Relation.ReflTransGen (Follow machine cpu) ⟨s, current, some t⟩
        ⟨s', current, none⟩ ∧
      (∃ held', Owned s' (some t) held' ∧ held' t = []) ∧
      Releases s s' (held t) := by
  obtain ⟨s', hdone, hfollows, ⟨held', howned', hempty⟩, hreleases⟩ :=
    mutexReleaseFrom_spec cpu Queues.addresses
      ⟨place, hplaced, howned⟩ rfl
      (length_le_addresses (howned.holds.queue t).nodup)
  have hfree : ∀ m, s'.owner m ≠ some t := by
    intro m hm
    rw [← howned'.owner_iff, hempty] at hm
    simp at hm
  refine ⟨s', ?_, hfollows.tail (.finish hfree), ⟨held', howned', hempty⟩,
    hreleases⟩
  unfold State.mutexReleaseAll Queues.first
  rw [(howned.holds.queue t).head_eq]
  exact hdone

end X86Os32.Scheduler
