import Mathlib.Logic.Relation
import X86Os32.Thread.Effects

namespace X86Os32.Scheduler

open Library

/-! What an operation does, said once.  Over lists, an operation first makes
one move of its own, an `Entry`, and then moves that any operation may make:
it destroys the thread that runs, releases the mutexes of a destroyed thread,
lets bells expire and dispatches the next thread. -/

/-- A state inside an operation, with the thread that each CPU executes and the
thread whose mutexes are being released. -/
structure Config where
  state : State Lists
  current : Cpu → Option Address
  dying : Option Address

abbrev State.settled (s : State Lists) : Config := ⟨s, s.life, none⟩

/-- The threads are in their places, and the tokens of the mutexes exist once. -/
def Config.Consistent (machine : Machine) (cfg : Config) : Prop :=
  ∃ place held, Placed machine cfg.state cfg.current place ∧
    Owned cfg.state cfg.dying held

namespace State

variable (s : State Lists)

def marked (t : Address) : State Lists :=
  { s with victim := Function.update s.victim t true }

def sent (dest : Cpu) (t : Address) : State Lists :=
  { s with
    assassin := Function.update s.assassin dest (s.assassin dest ++ [t]) }

def served (cpu : Cpu) (count : Nat) : State Lists :=
  { s with
    assassin := Function.update s.assassin cpu ((s.assassin cpu).drop count) }

def prepared (b : Bell) : State Lists :=
  { s with
    threads := Function.update s.threads (.room (.bell b)) []
    bells := s.bells.setNext b none
    ms := Function.update s.ms b 0 }

end State

/-- The operation blocks in the room if it does not find it open. -/
def Event.Blocks (s : State Lists) (w : Room) : Event → Prop
  | .block w' => w' = w ∧ w.isMutex = false ∧ w.isBell = false
  | .p a => w = .semaphore a ∧ s.counter w ≤ 0
  | .lock m => w = .mutex m ∧ s.counter w ≤ 0
  | _ => False

/-- The operation may do without a move of its own. -/
def Event.Starts : Event → Prop
  | .schedule => True
  | .exit => True
  | .resume => True
  | .sleep _ _ => True
  | .check => True
  | _ => False

/-- The move of its own that an operation makes first. -/
inductive Entry (machine : Machine) (cpu : Cpu) (s : State Lists) :
    Event → Config → Prop
  | start (hstart : event.Starts) : Entry machine cpu s event s.settled
  | ready (hreadied : s.readied t = false) (hidle : ¬ machine.Idle t) :
      Entry machine cpu s (.ready t) (s.admitted t).settled
  | pull (hmem : t ∈ s.threads i) :
      Entry machine cpu s (.kill t)
        ⟨((s.marked t).pulled i t).buried t, s.life, some t⟩
  | flag (hidle : ¬ machine.Idle t) (hlists : ∀ i, t ∉ s.threads i)
      (hlife : ∀ c, s.life c ≠ some t) :
      Entry machine cpu s (.kill t) ((s.marked t).flagged t).settled
  | send (hidle : ¬ machine.Idle t) (hlife : s.life dest = some t) :
      Entry machine cpu s (.kill t)
        (((s.marked t).flagged t).sent dest t).settled
  | self (hidle : ¬ machine.Idle t) (hlife : s.life cpu = some t) :
      Entry machine cpu s (.kill t)
        ⟨((s.marked t).flagged t).buried t,
          Function.update s.life cpu none, some t⟩
  | park (hidle : ¬ machine.Idle t) (hlife : s.life cpu = some t)
      (hkilled : s.killed t = false) :
      Entry machine cpu s .resume
        ⟨s.parked t, Function.update s.life cpu none, none⟩
  | idle (hlife : s.life cpu = some (machine.idlethread cpu)) :
      Entry machine cpu s .resume
        ⟨s, Function.update s.life cpu none, none⟩
  | block (hidle : ¬ machine.Idle t) (hlife : s.life cpu = some t)
      (hblocks : event.Blocks s w) :
      Entry machine cpu s event
        ⟨s.blocked t w, Function.update s.life cpu none, none⟩
  | count (hcounter : s.counter (.semaphore a) > 0) :
      Entry machine cpu s (.p a)
        (s.setCounter (.semaphore a) (s.counter (.semaphore a) - 1)).settled
  | lock (hlife : s.life cpu = some t) (hcounter : s.counter (.mutex m) > 0) :
      Entry machine cpu s (.lock m)
        ((s.setCounter (.mutex m) (s.counter (.mutex m) - 1)).owned t m).settled
  | v : Entry machine cpu s (.v a) ⟨s.released (.semaphore a), s.life, none⟩
  | unlock {mutexes : Queues Address Address} (howner : s.owner m = some t)
      (hremove : s.mutexes.remove t m = .ok (found, mutexes)) :
      Entry machine cpu s (.unlock m) ⟨s.unlocked m t mutexes, s.life, none⟩
  | wake (hmem : t ∈ s.threads (.room w)) (hmutex : w.isMutex = false) :
      Entry machine cpu s (.wakeup t) (s.woken w t).settled
  | ring (hlive : s.Live b) :
      Entry machine cpu s (.ring b) ⟨s.rung b, s.life, none⟩
  | sleep (hidle : ¬ machine.Idle t) (hlife : s.life cpu = some t)
      (hms : ms ≠ 0)
      (hjob : (s.prepared ⟨t, frame⟩).job ⟨t, frame⟩ ms = .ok s') :
      Entry machine cpu s (.sleep ms frame)
        ⟨s'.blocked t (.bell ⟨t, frame⟩),
          Function.update s.life cpu none, none⟩
  | tick (hfirst : s.bells.first () = some b) (hlive : s.Live b) :
      Entry machine cpu s .check (s.tick b).settled
  | serve (hlife : s.life cpu = some t) (hkilled : s.killed t = false) :
      Entry machine cpu s (.assassin count) (s.served cpu count).settled
  | execute (hidle : ¬ machine.Idle t) (hlife : s.life cpu = some t)
      (hkilled : s.killed t = true) :
      Entry machine cpu s (.assassin count)
        ⟨(s.served cpu count).buried t,
          Function.update s.life cpu none, some t⟩
  | drop : Entry machine cpu s (.dropAssassins count) (s.served cpu count).settled

inductive Follow (machine : Machine) (cpu : Cpu) : Config → Config → Prop
  | retire (hidle : ¬ machine.Idle t) (hcurrent : current cpu = some t) :
      Follow machine cpu ⟨s, current, none⟩
        ⟨s.buried t, Function.update current cpu none, some t⟩
  | unlock {mutexes : Queues Address Address} (howner : s.owner m = some t)
      (hremove : s.mutexes.remove t m = .ok (found, mutexes)) :
      Follow machine cpu ⟨s, current, some t⟩
        ⟨s.unlocked m t mutexes, current, some t⟩
  | finish (hfree : ∀ m, s.owner m ≠ some t) :
      Follow machine cpu ⟨s, current, some t⟩ ⟨s, current, none⟩
  | expire (hfirst : s.bells.first () = some b) (hlive : s.Live b)
      (hcancel : (s.rung b).cancel b = .ok s') :
      Follow machine cpu ⟨s, current, none⟩ ⟨s', current, none⟩
  | dispatch (hcurrent : current cpu = none) :
      Follow machine cpu ⟨s, current, none⟩
        ⟨s.dispatched machine cpu,
          Function.update current cpu (some (s.next machine cpu)), none⟩

/-! ### Consistency is kept -/

variable {machine : Machine} {s : State Lists} {cpu : Cpu} {t m : Address}
  {w : Room} {current : Cpu → Option Address} {place : Address → Location}
  {held : Address → List Address} {dying : Option Address}

namespace State

@[simp] theorem continued_threads : (s.continued t).threads = s.threads := by
  unfold continued
  split <;> rfl

@[simp] theorem continued_waitingIn :
    (s.continued t).waitingIn = s.waitingIn := by
  unfold continued
  split <;> rfl

@[simp] theorem continued_killed : (s.continued t).killed = s.killed := by
  unfold continued
  split <;> rfl

@[simp] theorem continued_readied : (s.continued t).readied = s.readied := by
  unfold continued
  split <;> rfl

@[simp] theorem continued_destroyed :
    (s.continued t).destroyed = s.destroyed := by
  unfold continued
  split <;> rfl

@[simp] theorem continued_life : (s.continued t).life = s.life := by
  unfold continued
  split <;> rfl

@[simp] theorem continued_resumption :
    (s.continued t).resumption = Function.update s.resumption t none := by
  unfold continued
  split
  · next hnone => rw [← hnone, Function.update_eq_self]
  · rfl
  · rfl

end State

namespace Placed

theorem released (hplaced : Placed machine s current place) (w : Room) :
    ∃ place', Placed machine (s.released w) current place' := by
  unfold State.released
  split
  · exact ⟨place, hplaced.congr rfl fun _ => ⟨rfl, rfl, rfl, rfl, rfl⟩⟩
  · next t rest hroom =>
    have hmem : t ∈ s.threads (.room w) := by simp [hroom]
    exact ⟨_, hplaced.woken ((hplaced.listed _ t).mp hmem)⟩

theorem unlocked (hplaced : Placed machine s current place)
    (mutexes : Queues Address Address) :
    ∃ place', Placed machine (s.unlocked m t mutexes) current place' := by
  have hplaced' : Placed machine (s.disowned m t mutexes) current place :=
    hplaced.congr rfl fun _ => ⟨rfl, rfl, rfl, rfl, rfl⟩
  exact hplaced'.released _

theorem rung (hplaced : Placed machine s current place) (b : Bell) :
    ∃ place', Placed machine (s.rung b) current place' := by
  unfold State.rung
  split
  · exact ⟨place, hplaced⟩
  · next t rest hroom =>
    have hmem : t ∈ s.threads (.room (.bell b)) := by simp [hroom]
    exact ⟨_, hplaced.woken ((hplaced.listed _ t).mp hmem)⟩

theorem dispatched (hplaced : Placed machine s current place)
    (hcurrent : current cpu = none) :
    Placed machine (s.dispatched machine cpu)
      (Function.update current cpu (some (s.next machine cpu)))
      (Function.update place (s.next machine cpu) (.cpu cpu)) := by
  have hfrom := State.next_place hplaced hcurrent
  unfold State.dispatched
  generalize s.next machine cpu = t at *
  have hroom : ∀ w, place t ≠ .queue (.room w) := by
    intro w
    rcases hfrom with hready | ⟨hnowhere, -⟩
    · simp [hready]
    · simp [hnowhere]
  have hcpu : ∀ c, place t ≠ .cpu c := by
    intro c
    rcases hfrom with hready | ⟨hnowhere, -⟩
    · simp [hready]
    · simp [hnowhere]
  have honly : ∀ j, t ∈ s.threads j → j = .readyList := by
    intro j hj
    rcases hfrom with hready | ⟨hnowhere, -⟩
    · exact hplaced.only hready j hj
    · exact absurd hj (hplaced.fresh (by simp [hnowhere]) j)
  have hdestroyed : s.destroyed t = false := by
    rcases hfrom with hready | ⟨-, hidle⟩
    · exact hplaced.not_destroyed (by simp [hready])
    · by_contra hdead
      rw [Bool.not_eq_false] at hdead
      have hreadied := ((hplaced.sits t).buried hdead).1
      simp [((hplaced.sits t).idle ⟨cpu, hidle.symm⟩).1] at hreadied
  have hwaiting := hplaced.waitingIn_eq_none hroom hdestroyed
  refine hplaced.move ?_ ?_ ?_ ?_ ?_
  · intro i u
    rw [State.continued_threads]
    refine (Lists.mem_erase hplaced.nodup honly).trans ?_
    by_cases heq : u = t <;> simp [heq]
  · intro i
    rw [State.continued_threads]
    exact Lists.nodup_erase hplaced.nodup
  · intro c u
    by_cases hc : c = cpu
    · subst hc
      by_cases heq : u = t
      · simp [heq]
      · simp [heq, hcurrent, Ne.symm heq]
    · by_cases heq : u = t
      · simp [heq, hc, Ne.symm hc, hplaced.running, hcpu]
      · simp [heq, hc]
  · intro u hne
    exact ⟨by simp, by simp, by simp, by simp, by simp [hne]⟩
  · have hsits := hplaced.sits t
    constructor
    · simp [hwaiting]
    · intro _
      rcases hfrom with hready | ⟨-, hidle⟩
      · have hreadied := (hplaced.readied_of_queue hready).1
        simp_all
      · exact Or.inr ⟨cpu, hidle.symm, rfl⟩
    · simpa using hsits.idle
    · simp [hdestroyed]
    · simp
    · simp
    · simp

end Placed

namespace Owned

theorem granted_of_append {s' : State Lists}
    (hready : ∀ u, u ∈ s'.threads .readyList →
      u ∈ s.threads .readyList ∨ u = t)
    (hresumption : s'.resumption = s.resumption)
    (hnot : ∀ m, s.resumption t ≠ some (.lock m)) :
    ∀ m u, s'.Granted m u → s.Granted m u := by
  rintro m u ⟨hmem, hu⟩
  rw [hresumption] at hu
  rcases hready u hmem with hold | rfl
  · exact ⟨hold, hu⟩
  · exact absurd hu (hnot m)

theorem woken (howned : Owned s dying held)
    (hplaced : Placed machine s current place)
    (hplace : place t = .queue (.room w)) (hmutex : w.isMutex = false) :
    Owned (s.woken w t) dying held := by
  refine howned.frame rfl rfl rfl (fun _ => rfl) (fun _ h => h)
    (granted_of_append (t := t) (fun u hu => ?_) rfl fun m hm => ?_)
  · simpa [State.woken, Lists.append, Lists.erase] using hu
  · rw [((hplaced.sits t).room w hplace).1] at hm
    cases w <;> simp [Room.resumption, Room.isMutex] at hm hmutex

theorem unlocked {mutexes : Queues Address Address}
    (howned : Owned s dying held)
    (hplaced : Placed machine s current place) (howner : s.owner m = some t)
    (hremove : s.mutexes.remove t m = .ok (found, mutexes)) :
    Owned (s.unlocked m t mutexes) dying
      (Function.update held t ((held t).erase m)) := by
  obtain ⟨qs, hdone, hholds, -⟩ := howned.holds.remove m
    (length_le_addresses (howned.holds.queue t).nodup)
  obtain ⟨-, rfl⟩ := Prod.mk.inj (Except.ok.inj (hremove.symm.trans hdone))
  obtain ⟨howned', hfree⟩ := howned.disown howner hholds
  refine howned'.give hfree fun u hu => ?_
  have hu' := (hplaced.listed _ u).mp hu
  exact ((hplaced.sits u).room _ hu').1

theorem released (howned : Owned s dying held)
    (hplaced : Placed machine s current place) (hmutex : w.isMutex = false) :
    Owned (s.released w) dying held := by
  unfold State.released
  split
  · refine howned.frame rfl rfl rfl (fun m => ?_) (fun _ h => h)
      (fun _ _ h => h)
    have hne : Room.mutex m ≠ w := by
      rintro rfl
      simp [Room.isMutex] at hmutex
    simp [State.setCounter, hne]
  · next t rest hroom =>
    have hmem : t ∈ s.threads (.room w) := by simp [hroom]
    exact howned.woken hplaced ((hplaced.listed _ t).mp hmem) hmutex

theorem rung (howned : Owned s dying held)
    (hplaced : Placed machine s current place) (b : Bell) :
    Owned (s.rung b) dying held := by
  unfold State.rung
  split
  · exact howned
  · next t rest hroom =>
    have hmem : t ∈ s.threads (.room (.bell b)) := by simp [hroom]
    exact howned.woken hplaced ((hplaced.listed _ t).mp hmem) rfl

theorem blocked (howned : Owned s dying held)
    (hplaced : Placed machine s current place)
    (hcurrent : current cpu = some t) : Owned (s.blocked t w) dying held := by
  obtain ⟨-, -, -, -, hfresh⟩ := hplaced.runs hcurrent
  refine howned.frame rfl rfl rfl (fun _ => rfl) (fun _ h => h) ?_
  rintro m u ⟨hmem, hu⟩
  have hmem' : u ∈ s.threads .readyList := by
    simpa [State.blocked, Lists.append] using hmem
  have hne : u ≠ t := by
    rintro rfl
    exact hfresh _ hmem'
  exact ⟨hmem', by simpa [State.blocked, hne] using hu⟩

theorem dispatched (howned : Owned s dying held)
    (hplaced : Placed machine s current place)
    (hcurrent : current cpu = none) :
    ∃ held', Owned (s.dispatched machine cpu) dying held' := by
  have hfrom := State.next_place hplaced hcurrent
  unfold State.dispatched
  generalize s.next machine cpu = t at *
  have hready : ∀ u, u ∈ s.threads.erase .readyList t .readyList →
      u ≠ t ∧ u ∈ s.threads .readyList := by
    intro u hu
    simpa [Lists.erase, (hplaced.nodup .readyList).mem_erase_iff] using hu
  dsimp only
  unfold State.continued
  cases hresumption : s.resumption t with
  | none =>
      exact ⟨held, howned.frame rfl rfl rfl (fun _ => rfl) (fun _ h => h)
        fun m u hu => ⟨(hready u hu.1).2, hu.2⟩⟩
  | some resumption =>
      have hpopped : Owned { s with
          threads := s.threads.erase .readyList t
          life := Function.update s.life cpu (some t)
          resumption := Function.update s.resumption t none } dying held := by
        refine howned.frame rfl rfl rfl (fun _ => rfl) (fun _ h => h) ?_
        rintro m u ⟨hmem, hu⟩
        obtain ⟨hne, hold⟩ := hready u hmem
        exact ⟨hold, by simpa [hne] using hu⟩
      cases resumption with
      | sleep frame => exact ⟨held, hpopped⟩
      | lock m =>
          have hplace : place t = .queue .readyList := by
            rcases hfrom with hready | ⟨hnowhere, hidle⟩
            · exact hready
            · rcases (hplaced.sits t).resumes (by simp [hresumption]) with
                ⟨i, hi⟩ | hdead
              · simp [hnowhere] at hi
              · have hreadied := ((hplaced.sits t).buried hdead).1
                simp [((hplaced.sits t).idle ⟨cpu, hidle.symm⟩).1] at hreadied
          have hgranted : s.Granted m t :=
            ⟨(hplaced.listed _ t).mpr hplace, hresumption⟩
          obtain ⟨hnone, honly⟩ := howned.granted m t hgranted
          have hdestroyed :=
            hplaced.not_destroyed (by simp [hplace] : place t ≠ _)
          refine ⟨_, hpopped.take ⟨?_, hnone, ?_⟩ hdestroyed⟩
          · rcases howned.counter m with hzero | hone
            · exact hzero
            · exact absurd hgranted ((howned.obtainable m hone).2 t)
          · rintro u ⟨hmem, hu⟩
            obtain ⟨hne, hold⟩ := hready u hmem
            exact hne (honly u ⟨hold, by simpa [hne] using hu⟩)

end Owned

theorem Placed.prepared_threads (hplaced : Placed machine s current place)
    (hcurrent : current cpu = some t) (frame : Address) :
    (s.prepared ⟨t, frame⟩).threads = s.threads := by
  have hempty := hplaced.bell_empty (t := t) (by
    simp [(hplaced.runs hcurrent).1]) frame
  simp [State.prepared, ← hempty]

/-- A destroyed thread may keep its mutexes for a while. -/
theorem alive_buried (u : Address)
    (halive : s.destroyed u = false ∨ (none : Option Address) = some u) :
    Function.update s.destroyed t true u = false ∨ some t = some u := by
  by_cases heq : u = t
  · exact Or.inr (by rw [heq])
  · simpa [heq, Ne.symm heq] using halive

theorem Event.Blocks.admits {event : Event} (hblocks : event.Blocks s w) :
    w.Admits t := by
  rintro b rfl
  cases event <;> simp_all [Event.Blocks, Room.isBell]

theorem Follow.consistent {cfg cfg' : Config}
    (hfollow : Follow machine cpu cfg cfg')
    (hconsistent : cfg.Consistent machine) : cfg'.Consistent machine := by
  obtain ⟨place, held, hplaced, howned⟩ := hconsistent
  cases hfollow with
  | retire hidle hcurrent =>
      refine ⟨_, held, hplaced.retired hcurrent hidle, ?_⟩
      refine howned.frame rfl rfl rfl (fun _ => rfl) ?_ (fun _ _ h => h)
      exact alive_buried
  | unlock howner hremove =>
      obtain ⟨place', hplaced'⟩ := hplaced.unlocked _
      exact ⟨place', _, hplaced', howned.unlocked hplaced howner hremove⟩
  | @finish t s current hfree =>
      refine ⟨place, held, hplaced, { howned with alive := ?_ }⟩
      intro m u hu
      rcases howned.alive m u hu with halive | hdying
      · exact Or.inl halive
      · obtain rfl : t = u := by simpa using hdying
        exact absurd hu (hfree m)
  | @expire b s s' current hfirst hlive hcancel =>
      obtain ⟨bells, ms, rfl⟩ := State.cancel_frame hcancel
      obtain ⟨place', hplaced'⟩ := hplaced.rung b
      refine ⟨place', held,
        hplaced'.congr rfl fun _ => ⟨rfl, rfl, rfl, rfl, rfl⟩, ?_⟩
      exact (howned.rung hplaced b).frame rfl rfl rfl (fun _ => rfl)
        (fun _ h => h) (fun _ _ h => h)
  | dispatch hcurrent =>
      obtain ⟨held', howned'⟩ := howned.dispatched hplaced hcurrent
      exact ⟨_, held', hplaced.dispatched hcurrent, howned'⟩

theorem Entry.consistent {event : Event} {cfg : Config}
    (hentry : Entry machine cpu s event cfg)
    (hconsistent : s.settled.Consistent machine) :
    cfg.Consistent machine := by
  obtain ⟨place, held, hplaced, howned⟩ := hconsistent
  change Placed machine s s.life place at hplaced
  change Owned s none held at howned
  have hmarked : ∀ t, Placed machine (s.marked t) s.life place :=
    fun t => hplaced.congr rfl fun _ => ⟨rfl, rfl, rfl, rfl, rfl⟩
  cases hentry with
  | start => exact ⟨place, held, hplaced, howned⟩
  | @ready t hreadied hidle =>
      refine ⟨_, held, hplaced.admitted hreadied hidle, ?_⟩
      have hresumption := hplaced.unreadied_resumption hreadied hidle
      refine howned.frame rfl rfl rfl (fun _ => rfl) (fun _ h => h)
        (Owned.granted_of_append (t := t) (fun u hu => ?_) rfl ?_)
      · simpa [State.admitted, Lists.append] using hu
      · simp [hresumption]
  | pull hmem =>
      have hplace := (hplaced.listed _ _).mp hmem
      refine ⟨_, held, (hmarked _).pulled hplace, ?_⟩
      refine howned.frame rfl rfl rfl (fun _ => rfl) alive_buried ?_
      rintro m u ⟨hu, hresumption⟩
      exact ⟨Lists.mem_of_mem_erase hu, hresumption⟩
  | flag hidle hlists hlife =>
      refine ⟨place, held, (hmarked _).flagged hidle, ?_⟩
      exact howned.frame rfl rfl rfl (fun _ => rfl) (fun _ h => h)
        (fun _ _ h => h)
  | send hidle hlife =>
      refine ⟨place, held, ((hmarked _).flagged hidle).congr rfl
        fun _ => ⟨rfl, rfl, rfl, rfl, rfl⟩, ?_⟩
      exact howned.frame rfl rfl rfl (fun _ => rfl) (fun _ h => h)
        (fun _ _ h => h)
  | self hidle hlife =>
      refine ⟨_, held, ((hmarked _).flagged hidle).retired hlife hidle, ?_⟩
      exact howned.frame rfl rfl rfl (fun _ => rfl) alive_buried
        (fun _ _ h => h)
  | @park t hidle hlife hkilled =>
      obtain ⟨-, -, -, hresumption, -⟩ := hplaced.runs hlife
      refine ⟨_, held, hplaced.parked hlife hidle, ?_⟩
      refine howned.frame rfl rfl rfl (fun _ => rfl) (fun _ h => h)
        (Owned.granted_of_append (t := t) (fun u hu => ?_) rfl ?_)
      · simpa [State.parked, Lists.append] using hu
      · simp [hresumption]
  | idle hlife => exact ⟨_, held, hplaced.idled hlife, howned⟩
  | block hidle hlife hblocks =>
      refine ⟨_, held, hplaced.blocked hlife hidle ?_,
        howned.blocked hplaced hlife⟩
      exact hblocks.admits
  | count hcounter =>
      refine ⟨place, held, hplaced.congr rfl
        fun _ => ⟨rfl, rfl, rfl, rfl, rfl⟩, ?_⟩
      exact howned.frame rfl rfl rfl (fun _ => by
        simp [State.setCounter]) (fun _ h => h) (fun _ _ h => h)
  | @lock t m hlife hcounter =>
      obtain ⟨-, hdestroyed, -, -, -⟩ := hplaced.runs hlife
      have hone : s.counter (.mutex m) = 1 := by
        rcases howned.counter m with hzero | hone
        · have hzero' : s.counter (.mutex m) = 0 := hzero
          omega
        · exact hone
      obtain ⟨howned', hfree⟩ := howned.count hone
      have hzero : s.counter (.mutex m) - 1 = 0 := by omega
      rw [hzero]
      refine ⟨place, Function.update held t (held t ++ [m]), hplaced.congr rfl
        fun _ => ⟨rfl, rfl, rfl, rfl, rfl⟩, ?_⟩
      exact howned'.take hfree hdestroyed
  | @v a =>
      obtain ⟨place', hplaced'⟩ := hplaced.released (.semaphore a)
      exact ⟨place', held, hplaced', howned.released hplaced rfl⟩
  | @unlock m t _ mutexes howner hremove =>
      obtain ⟨place', hplaced'⟩ := hplaced.unlocked (m := m) (t := t) mutexes
      exact ⟨place', _, hplaced', howned.unlocked hplaced howner hremove⟩
  | wake hmem hmutex =>
      have hplace := (hplaced.listed _ _).mp hmem
      exact ⟨_, held, hplaced.woken hplace,
        howned.woken hplaced hplace hmutex⟩
  | @ring b hlive =>
      obtain ⟨place', hplaced'⟩ := hplaced.rung b
      exact ⟨place', held, hplaced', howned.rung hplaced _⟩
  | @sleep t ms frame s' hidle hlife hms hjob =>
      obtain ⟨bells, times, rfl⟩ := State.job_frame hjob
      have hthreads := hplaced.prepared_threads hlife frame
      have hplaced' : Placed machine
          { s.prepared ⟨t, frame⟩ with bells, ms := times } s.life place :=
        hplaced.congr hthreads fun _ => ⟨rfl, rfl, rfl, rfl, rfl⟩
      have howned' : Owned
          { s.prepared ⟨t, frame⟩ with bells, ms := times } none held := by
        refine howned.frame rfl rfl rfl (fun _ => rfl) (fun _ h => h) ?_
        rintro m u ⟨hu, hresumption⟩
        exact ⟨hthreads ▸ hu, hresumption⟩
      refine ⟨_, held, hplaced'.blocked hlife hidle ?_,
        howned'.blocked hplaced' hlife⟩
      rintro b hb
      obtain rfl := Room.bell.inj hb
      rfl
  | tick hfirst hlive =>
      refine ⟨place, held, hplaced.congr rfl
        fun _ => ⟨rfl, rfl, rfl, rfl, rfl⟩, ?_⟩
      exact howned.frame rfl rfl rfl (fun _ => rfl) (fun _ h => h)
        (fun _ _ h => h)
  | serve hlife hkilled =>
      refine ⟨place, held, hplaced.congr rfl
        fun _ => ⟨rfl, rfl, rfl, rfl, rfl⟩, ?_⟩
      exact howned.frame rfl rfl rfl (fun _ => rfl) (fun _ h => h)
        (fun _ _ h => h)
  | drop =>
      refine ⟨place, held, hplaced.congr rfl
        fun _ => ⟨rfl, rfl, rfl, rfl, rfl⟩, ?_⟩
      exact howned.frame rfl rfl rfl (fun _ => rfl) (fun _ h => h)
        (fun _ _ h => h)
  | @execute t count hidle hlife hkilled =>
      have hplaced' : Placed machine (s.served cpu count) s.life place :=
        hplaced.congr rfl fun _ => ⟨rfl, rfl, rfl, rfl, rfl⟩
      refine ⟨_, held, hplaced'.retired hlife hidle, ?_⟩
      exact howned.frame rfl rfl rfl (fun _ => rfl) alive_buried
        (fun _ _ h => h)

end X86Os32.Scheduler
