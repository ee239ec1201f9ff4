import Mathlib.Data.Fintype.Card
import X86Os32.Library.Results
import X86Os32.Thread.Operations

namespace X86Os32.Scheduler

open Library Library.Results

/-! The same operations over lists of threads.  Here an item that is linked
anywhere cannot be inserted; as long as that does not happen, the operations
over pointers follow those over lists. -/

abbrev Lists := QueueId → List Address

open Classical in
noncomputable instance : ThreadQueues Lists where
  construct lists i := Function.update lists i []
  enqueue lists i t :=
    if ∃ j, t ∈ lists j then .error .linkedTwice
    else .ok (Function.update lists i (lists i ++ [t]))
  dequeue lists i :=
    .ok ((lists i).head?, Function.update lists i (lists i).tail)
  remove lists i t :=
    .ok (if t ∈ lists i then some t else none,
      Function.update lists i ((lists i).erase t))
  first lists i := (lists i).head?

/-- The pointers of `s` hold the lists of `a`, and all else is the same. -/
def Represents (s : State Pointers) (a : State Lists) : Prop :=
  ∃ qs : Pointers, qs.Holds a.threads ∧ s = { a with threads := qs }

abbrev Simulates (related : α → β → Prop) : Except Stop α → Except Stop β → Prop :=
  Follows (· = .linkedTwice) related

/-- Results that consist of a value and a state. -/
inductive RepresentsWith : α × State Pointers → α × State Lists → Prop
  | intro (value : α) (hrep : Represents s a) :
      RepresentsWith (value, s) (value, a)

theorem simulates_bind {related : α → β → Prop}
    {concrete : Except Stop (State Pointers)}
    {abstract : Except Stop (State Lists)}
    (hstate : Simulates Represents concrete abstract)
    (hnext : ∀ s a, Represents s a →
      Simulates related (next s) (next' a)) :
    Simulates related (concrete >>= next) (abstract >>= next') :=
  hstate.bind hnext

/-! ### The queues -/

/-- Threads are distinct addresses, so a list of them is not longer than a walk
may be. -/
theorem length_le_addresses {threads : List Address} (hnodup : threads.Nodup) :
    threads.length ≤ Queues.addresses := by
  simpa [Queues.addresses] using hnodup.length_le_card

section Queues

variable {qs : Pointers} {lists : Lists}

theorem simulates_construct (hholds : qs.Holds lists) (i : QueueId) :
    (ThreadQueues.construct qs i).Holds (ThreadQueues.construct lists i) :=
  hholds.construct i

theorem simulates_enqueue (hholds : qs.Holds lists) (i : QueueId)
    (t : Address) :
    Simulates Queues.Holds (ThreadQueues.enqueue qs i t)
      (ThreadQueues.enqueue lists i t) := by
  by_cases hlinked : ∃ j, t ∈ lists j
  · have hstop : ThreadQueues.enqueue lists i t = .error .linkedTwice :=
      if_pos hlinked
    rw [hstop]
    exact Or.inl rfl
  · have hdone : ThreadQueues.enqueue lists i t =
        .ok (Function.update lists i (lists i ++ [t])) := if_neg hlinked
    rw [hdone]
    exact .ok (hholds.enqueue (not_exists.mp hlinked))

theorem simulates_dequeue (hholds : qs.Holds lists) (i : QueueId) :
    Simulates (fun x y => x.1 = y.1 ∧ Queues.Holds x.2 y.2)
      (ThreadQueues.dequeue qs i) (ThreadQueues.dequeue lists i) := by
  refine .ok ?_
  cases hlist : lists i with
  | nil =>
      rw [hholds.dequeue_nil hlist]
      refine ⟨rfl, ?_⟩
      rw [List.tail_nil, ← hlist, Function.update_eq_self]
      exact hholds
  | cons t rest =>
      obtain ⟨qs', hdone, hholds'⟩ := hholds.dequeue hlist
      rw [hdone]
      exact ⟨rfl, hholds'⟩

theorem simulates_remove {excused : Stop → Prop} (hholds : qs.Holds lists)
    (i : QueueId) (t : Address) :
    Follows excused (fun x y => x.1 = y.1 ∧ Queues.Holds x.2 y.2)
      (ThreadQueues.remove qs i t) (ThreadQueues.remove lists i t) := by
  obtain ⟨qs', hdone, hholds', -⟩ := hholds.remove t
    (length_le_addresses (hholds.queue i).nodup)
  refine ⟨_, hdone, ?_, hholds'⟩
  dsimp only

theorem first_eq (hholds : qs.Holds lists) (i : QueueId) :
    ThreadQueues.first qs i = ThreadQueues.first lists i :=
  (hholds.queue i).head_eq

end Queues

/-! ### The operations -/

namespace Represents

variable {s : State Pointers} {a : State Lists} {machine : Machine} {cpu : Cpu}

theorem ready (hrep : Represents s a) (that : Address) :
    Simulates Represents (s.ready that) (a.ready that) := by
  obtain ⟨qs, hholds, rfl⟩ := hrep
  refine (simulates_enqueue hholds _ _).bind fun qs lists hholds => ?_
  exact .ok ⟨_, hholds, rfl⟩

theorem wakeup (hrep : Represents s a) (customer : Address) :
    Simulates Represents (s.wakeup customer) (a.wakeup customer) := by
  obtain ⟨qs, hholds, rfl⟩ := hrep
  refine (Follows.refl _).bind fun w _ hw => ?_
  subst hw
  refine (simulates_remove hholds _ _).bind fun x y hxy => ?_
  exact ready ⟨_, hxy.2, rfl⟩ customer

theorem v (hrep : Represents s a) (w : Room) :
    Simulates Represents (s.v w) (a.v w) := by
  obtain ⟨qs, hholds, rfl⟩ := hrep
  refine (simulates_dequeue hholds _).bind fun x y hxy => ?_
  obtain ⟨t, qs⟩ := x
  obtain ⟨_, lists⟩ := y
  obtain ⟨rfl, hholds⟩ := hxy
  cases t with
  | none => exact .ok ⟨_, hholds, rfl⟩
  | some t => exact wakeup ⟨_, hholds, rfl⟩ t

theorem unlock (hrep : Represents s a) (m : Address) :
    Simulates RepresentsWith (s.unlock m) (a.unlock m) := by
  obtain ⟨qs, hholds, rfl⟩ := hrep
  refine (Follows.refl _).bind fun t _ ht => ?_
  subst ht
  have hrelease : Simulates RepresentsWith
      (State.mutexRelease { a with threads := _ } t m)
      (a.mutexRelease t m) :=
    (Follows.refl (a.mutexes.remove t m)).bind fun x y hxy => by
      subst hxy
      exact .ok (.intro _ ⟨_, hholds, rfl⟩)
  refine hrelease.bind fun x y hxy => ?_
  obtain ⟨ret, qs, hholds, rfl⟩ := hxy
  refine simulates_bind (v ?_ (.mutex m)) fun s a hrep => ?_
  · exact ⟨_, hholds, rfl⟩
  · exact .ok (.intro ret hrep)

theorem mutexReleaseFrom (hrep : Represents s a) (ret : Bool) (fuel : Nat)
    (current : Option Address) :
    Simulates RepresentsWith (s.mutexReleaseFrom ret fuel current)
      (a.mutexReleaseFrom ret fuel current) := by
  induction fuel generalizing s a ret current with
  | zero =>
      cases current with
      | none => exact .ok (.intro ret hrep)
      | some m => exact .error _
  | succ fuel ih =>
      cases current with
      | none => exact .ok (.intro ret hrep)
      | some m =>
          refine (hrep.unlock m).bind fun x y hxy => ?_
          obtain ⟨released, qs, hholds, rfl⟩ := hxy
          exact ih ⟨_, hholds, rfl⟩ _ _

theorem destroy (hrep : Represents s a) (t : Address) :
    Simulates Represents (s.destroy t) (a.destroy t) := by
  obtain ⟨qs, hholds, rfl⟩ := hrep
  refine Follows.bind (mutexReleaseFrom ?_ true _ _) fun x y hxy => ?_
  · exact ⟨_, hholds, rfl⟩
  · obtain ⟨_, hrep⟩ := hxy
    exact .ok hrep

theorem takeOwnership (hrep : Represents s a) (m : Address) :
    Simulates Represents (s.takeOwnership cpu m) (a.takeOwnership cpu m) := by
  obtain ⟨qs, hholds, rfl⟩ := hrep
  refine (Follows.refl _).bind fun t _ ht => ?_
  subst ht
  exact .ok ⟨_, hholds, rfl⟩

theorem destroyRoom (hrep : Represents s a) (w : Room) :
    Simulates Represents (s.destroyRoom w) (a.destroyRoom w) := by
  obtain ⟨qs, hholds, rfl⟩ := hrep
  unfold State.destroyRoom
  rw [first_eq hholds]
  cases ThreadQueues.first a.threads (.room w) with
  | none => exact .ok ⟨_, hholds, rfl⟩
  | some t => exact .error _

theorem continueThread (hrep : Represents s a) (next : Address) :
    Simulates Represents (s.continueThread cpu next)
      (a.continueThread cpu next) := by
  obtain ⟨qs, hholds, rfl⟩ := hrep
  unfold State.continueThread
  dsimp only
  cases a.resumption next with
  | none => exact .ok ⟨_, hholds, rfl⟩
  | some resumption =>
      cases resumption with
      | lock m =>
          refine takeOwnership ?_ m
          exact ⟨_, hholds, rfl⟩
      | sleep frame =>
          refine destroyRoom ?_ _
          exact ⟨_, hholds, rfl⟩

theorem setActive (hrep : Represents s a) (c : Address) :
    Represents (s.setActive cpu c) (a.setActive cpu c) := by
  obtain ⟨qs, hholds, rfl⟩ := hrep
  exact ⟨_, hholds, rfl⟩

theorem go (hrep : Represents s a) (first : Address) :
    Simulates Represents (s.go cpu first) (a.go cpu first) :=
  (hrep.setActive first).continueThread first

theorem active_eq (hrep : Represents s a) : s.active cpu = a.active cpu := by
  obtain ⟨qs, hholds, rfl⟩ := hrep
  rfl

theorem dispatch (hrep : Represents s a) (next : Address) :
    Simulates Represents (s.dispatch cpu next) (a.dispatch cpu next) := by
  unfold State.dispatch
  rw [hrep.active_eq]
  refine (Follows.refl _).bind fun _ _ _ => ?_
  exact (hrep.setActive next).continueThread next

theorem nextThread (hrep : Represents s a) :
    Simulates RepresentsWith (s.nextThread machine cpu)
      (a.nextThread machine cpu) := by
  obtain ⟨qs, hholds, rfl⟩ := hrep
  unfold State.nextThread State.isEmpty
  rw [first_eq hholds]
  split
  · exact .ok (.intro _ ⟨_, hholds, rfl⟩)
  · refine (simulates_dequeue hholds _).bind fun x y hxy => ?_
    obtain ⟨t, qs⟩ := x
    obtain ⟨_, lists⟩ := y
    obtain ⟨rfl, hholds⟩ := hxy
    refine (Follows.refl _).bind fun t _ ht => ?_
    subst ht
    exact .ok (.intro t ⟨_, hholds, rfl⟩)

theorem dispatchNext (hrep : Represents s a) :
    Simulates Represents (s.dispatchNext machine cpu)
      (a.dispatchNext machine cpu) := by
  refine hrep.nextThread.bind fun x y hxy => ?_
  obtain ⟨next, hrep⟩ := hxy
  exact hrep.dispatch next

theorem schedule (hrep : Represents s a) :
    Simulates Represents (s.schedule machine cpu) (a.schedule machine cpu) := by
  refine hrep.nextThread.bind fun x y hxy => ?_
  obtain ⟨next, hrep⟩ := hxy
  exact hrep.go next

theorem exit (hrep : Represents s a) :
    Simulates Represents (s.exit machine cpu) (a.exit machine cpu) := by
  unfold State.exit
  rw [hrep.active_eq]
  refine (Follows.refl _).bind fun t _ ht => ?_
  subst ht
  exact (hrep.destroy t).bind fun s a hrep => hrep.dispatchNext

theorem kill (hrep : Represents s a) (that : Address) :
    Simulates Represents (s.kill machine cpu that)
      (a.kill machine cpu that) := by
  obtain ⟨qs, hholds, rfl⟩ := hrep
  refine (simulates_remove hholds _ _).bind fun x y hxy => ?_
  obtain ⟨found, qs⟩ := x
  obtain ⟨_, lists⟩ := y
  obtain ⟨rfl, hholds⟩ := hxy
  dsimp only
  split
  · exact destroy ⟨_, hholds, rfl⟩ that
  · cases a.waitingIn that with
    | some w =>
        refine (simulates_remove hholds _ _).bind fun x y hxy => ?_
        exact destroy ⟨_, hxy.2, rfl⟩ that
    | none =>
        unfold State.executing
        dsimp only
        cases (List.finRange 8).find? fun i => a.life i = some that with
        | none => exact .ok ⟨_, hholds, rfl⟩
        | some dest =>
            dsimp only
            split
            · refine simulates_bind (destroy ?_ that)
                fun s a hrep => hrep.dispatchNext
              exact ⟨_, hholds, rfl⟩
            · exact .ok ⟨_, hholds, rfl⟩

theorem putBack (hrep : Represents s a) (prev : Address) :
    Simulates Represents (s.putBack machine cpu prev)
      (a.putBack machine cpu prev) := by
  obtain ⟨qs, hholds, rfl⟩ := hrep
  unfold State.putBack
  dsimp only
  split
  · exact destroy ⟨_, hholds, rfl⟩ prev
  · split
    · refine (simulates_enqueue hholds _ _).bind fun qs lists hholds => ?_
      exact .ok ⟨_, hholds, rfl⟩
    · exact .ok ⟨_, hholds, rfl⟩

theorem resume (hrep : Represents s a) :
    Simulates Represents (s.resume machine cpu) (a.resume machine cpu) := by
  unfold State.resume
  rw [hrep.active_eq]
  refine (Follows.refl _).bind fun t _ ht => ?_
  subst ht
  exact (hrep.putBack t).bind fun s a hrep => hrep.dispatchNext

theorem block (hrep : Represents s a) (w : Room) :
    Simulates Represents (s.block machine cpu w) (a.block machine cpu w) := by
  obtain ⟨qs, hholds, rfl⟩ := hrep
  refine (Follows.refl _).bind fun t _ ht => ?_
  subst ht
  refine (simulates_enqueue hholds _ _).bind fun qs lists hholds => ?_
  exact dispatchNext ⟨_, hholds, rfl⟩

theorem p (hrep : Represents s a) (w : Room) :
    Simulates RepresentsWith (s.p machine cpu w) (a.p machine cpu w) := by
  have hblock : Simulates Represents (s.block machine cpu w)
      (a.block machine cpu w) := hrep.block w
  obtain ⟨qs, hholds, rfl⟩ := hrep
  unfold State.p
  dsimp only
  split
  · exact .ok (.intro true ⟨_, hholds, rfl⟩)
  · exact hblock.bind fun s a hrep => .ok (.intro false hrep)

theorem lock (hrep : Represents s a) (m : Address) :
    Simulates Represents (s.lock machine cpu m) (a.lock machine cpu m) := by
  refine (hrep.p (.mutex m)).bind fun x y hxy => ?_
  obtain ⟨granted, hrep⟩ := hxy
  cases granted with
  | true => exact hrep.takeOwnership m
  | false => exact .ok hrep

theorem assassinEpilogue (hrep : Represents s a) (served : Nat) :
    Simulates Represents (s.assassinEpilogue machine cpu served)
      (a.assassinEpilogue machine cpu served) := by
  obtain ⟨qs, hholds, rfl⟩ := hrep
  refine (Follows.refl _).bind fun t _ ht => ?_
  subst ht
  dsimp only
  split
  · exact exit ⟨_, hholds, rfl⟩
  · exact .ok ⟨_, hholds, rfl⟩

/-! ### Bells -/

theorem touch_eq (hrep : Represents s a) (bell : Bell) :
    s.touch bell = a.touch bell := by
  obtain ⟨qs, hholds, rfl⟩ := hrep
  rfl

theorem ringFrom (hrep : Represents s a) (bell : Bell) (fuel : Nat) :
    Simulates Represents (s.ringFrom bell fuel) (a.ringFrom bell fuel) := by
  induction fuel generalizing s a with
  | zero => exact .error _
  | succ fuel ih =>
      obtain ⟨qs, hholds, rfl⟩ := hrep
      refine (simulates_dequeue hholds _).bind fun x y hxy => ?_
      obtain ⟨t, qs⟩ := x
      obtain ⟨_, lists⟩ := y
      obtain ⟨rfl, hholds⟩ := hxy
      cases t with
      | none => exact .ok ⟨_, hholds, rfl⟩
      | some t =>
          refine simulates_bind (wakeup ?_ t) fun s a hrep => ih hrep
          exact ⟨_, hholds, rfl⟩

theorem ring (hrep : Represents s a) (bell : Bell) :
    Simulates Represents (s.ring bell) (a.ring bell) := by
  unfold State.ring
  rw [hrep.touch_eq]
  exact (Follows.refl _).bind fun _ _ _ => hrep.ringFrom bell _

theorem inherit (hrep : Represents s a) (bell : Bell) :
    Simulates Represents (s.inherit bell) (a.inherit bell) := by
  obtain ⟨qs, hholds, rfl⟩ := hrep
  unfold State.inherit
  dsimp only
  cases a.bells.next bell with
  | none => exact .ok ⟨_, hholds, rfl⟩
  | some next =>
      refine (Follows.refl (a.touch next)).bind fun _ _ _ => ?_
      exact .ok ⟨_, hholds, rfl⟩

theorem cancel (hrep : Represents s a) (bell : Bell) :
    Simulates Represents (s.cancel bell) (a.cancel bell) := by
  unfold State.cancel
  rw [hrep.touch_eq]
  refine (Follows.refl _).bind fun _ _ _ => ?_
  refine simulates_bind (hrep.inherit bell) fun s a hrep => ?_
  obtain ⟨qs, hholds, rfl⟩ := hrep
  refine (Follows.refl (a.bells.remove () bell)).bind fun x y hxy => ?_
  subst hxy
  exact .ok ⟨_, hholds, rfl⟩

theorem jobFrom (hrep : Represents s a) (prev : Option Bell) (ms fuel : Nat)
    (b : Option Bell) :
    Simulates RepresentsWith (s.jobFrom prev ms fuel b)
      (a.jobFrom prev ms fuel b) := by
  induction fuel generalizing prev ms b with
  | zero =>
      cases b with
      | none => exact .ok (.intro _ hrep)
      | some b => exact .error _
  | succ fuel ih =>
      cases b with
      | none => exact .ok (.intro _ hrep)
      | some b =>
          unfold State.jobFrom
          rw [hrep.touch_eq]
          refine (Follows.refl _).bind fun _ _ _ => ?_
          obtain ⟨qs, hholds, rfl⟩ := hrep
          dsimp only
          split
          · exact .ok (.intro _ ⟨_, hholds, rfl⟩)
          · exact ih _ _ _

theorem job (hrep : Represents s a) (bell : Bell) (ms : Nat) :
    Simulates Represents (s.job bell ms) (a.job bell ms) := by
  have hstart : s.bells.first () = a.bells.first () := by
    obtain ⟨qs, hholds, rfl⟩ := hrep
    rfl
  unfold State.job
  rw [hstart]
  refine (hrep.jobFrom _ _ _ _).bind fun x y hxy => ?_
  obtain ⟨⟨prev, ms⟩, qs, hholds, rfl⟩ := hxy
  cases prev with
  | none => exact .ok ⟨_, hholds, rfl⟩
  | some prev =>
      refine (Follows.refl (State.touchTail _)).bind fun _ _ _ => ?_
      exact .ok ⟨_, hholds, rfl⟩

theorem checkFrom (hrep : Represents s a) (fuel : Nat) (first : Bell) :
    Simulates Represents (s.checkFrom fuel first) (a.checkFrom fuel first) := by
  induction fuel generalizing s a first with
  | zero => exact .error _
  | succ fuel ih =>
      refine (hrep.ring first).bind fun s a hrep => ?_
      refine (hrep.cancel first).bind fun s a hrep => ?_
      obtain ⟨qs, hholds, rfl⟩ := hrep
      dsimp only
      cases a.bells.first () with
      | none => exact .ok ⟨_, hholds, rfl⟩
      | some first =>
          refine (Follows.refl (a.touch first)).bind fun _ _ _ => ?_
          split
          · exact ih ⟨_, hholds, rfl⟩ first
          · exact .ok ⟨_, hholds, rfl⟩

theorem tick (hrep : Represents s a) (first : Bell) :
    Represents (s.tick first) (a.tick first) := by
  obtain ⟨qs, hholds, rfl⟩ := hrep
  exact ⟨_, hholds, rfl⟩

theorem check (hrep : Represents s a) :
    Simulates Represents s.check a.check := by
  have hstart : s.bells.first () = a.bells.first () := by
    obtain ⟨qs, hholds, rfl⟩ := hrep
    rfl
  unfold State.check
  rw [hstart]
  cases a.bells.first () with
  | none => exact .ok hrep
  | some first =>
      have htick := hrep.tick first
      have hms : (s.tick first).ms first = (a.tick first).ms first := by
        obtain ⟨qs, hholds, rfl⟩ := hrep
        rfl
      dsimp only
      rw [hrep.touch_eq, hms]
      refine (Follows.refl (a.touch first)).bind fun _ _ _ => ?_
      split
      · exact htick.checkFrom _ first
      · exact .ok htick

theorem sleep (hrep : Represents s a) (ms : Nat) (frame : Address) :
    Simulates Represents (s.sleep machine cpu ms frame)
      (a.sleep machine cpu ms frame) := by
  obtain ⟨qs, hholds, rfl⟩ := hrep
  unfold State.sleep
  split
  · exact .ok ⟨_, hholds, rfl⟩
  · refine (Follows.refl _).bind fun t _ ht => ?_
    subst ht
    refine simulates_bind (job ?_ _ ms) fun s a hrep => hrep.block _
    exact ⟨_, simulates_construct hholds _, rfl⟩

theorem exec (hrep : Represents s a) (event : Event) :
    Simulates Represents (s.exec machine cpu event)
      (a.exec machine cpu event) := by
  cases event with
  | schedule => exact hrep.schedule
  | ready that =>
      obtain ⟨qs, hholds, rfl⟩ := hrep
      refine ready ?_ that
      exact ⟨_, hholds, rfl⟩
  | exit => exact hrep.exit
  | kill that =>
      obtain ⟨qs, hholds, rfl⟩ := hrep
      refine kill ?_ that
      exact ⟨_, hholds, rfl⟩
  | resume => exact hrep.resume
  | block w => exact hrep.block w
  | wakeup customer => exact hrep.wakeup customer
  | p semaphore => exact (hrep.p _).bind fun x y ⟨_, hrep⟩ => .ok hrep
  | v semaphore => exact hrep.v _
  | ring b => exact hrep.ring b
  | lock m => exact hrep.lock m
  | unlock m => exact (hrep.unlock m).bind fun x y ⟨_, hrep⟩ => .ok hrep
  | sleep ms frame => exact hrep.sleep ms frame
  | check => exact hrep.check
  | assassin served => exact hrep.assassinEpilogue served
  | dropAssassins count =>
      obtain ⟨qs, hholds, rfl⟩ := hrep
      exact .ok ⟨_, hholds, rfl⟩

theorem enabled_iff (hrep : Represents s a) (event : Event) :
    s.Enabled machine cpu event ↔ a.Enabled machine cpu event := by
  obtain ⟨qs, hholds, rfl⟩ := hrep
  rfl

end Represents

end X86Os32.Scheduler
