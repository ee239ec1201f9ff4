import X86Os32.Guard.Moves
import X86Os32.Library.TicketLock

namespace X86Os32.Guard

open Library
open Scheduler (Cpu)

/-! The epilogue level is locked by a ticket lock: the processors draw tickets
in `enter` and `relay`, and give them back in `leave`. -/

def Point.place : Point γ → TicketLock.Place
  | .waiting _ old => .waiting old
  | .calling _ | .inside | .emptying | .dequeued _ | .released _
  | .unlocking => .holding
  | .storing value => .storing value
  | _ => .away

def Shared.lock (x : Shared γ) (location : Cpu → Point γ) :
    TicketLock.Lock Cpu where
  serving := x.bkl.l
  next := x.bkl.t
  place c := (location c).place
  drawn := x.drawn
  acquired := x.acquired
  released := x.released

def Point.locked (point : Point γ) : Bool := point.place.locked

theorem lock_update (x : Shared γ) (location : Cpu → Point γ) (c : Cpu)
    (point : Point γ) :
    x.lock (Function.update location c point) =
      (x.lock location).move c point.place := by
  have hplace : (fun d => (Function.update location c point d).place) =
      Function.update (fun d => (location d).place) c point.place := by
    funext d
    by_cases hd : d = c
    · subst hd
      simp
    · simp [hd]
  simp only [Shared.lock, TicketLock.Lock.move, hplace]

theorem lock_skip {x x' : Shared γ} {location : Cpu → Point γ}
    {point' : Point γ} (hbkl : x'.bkl = x.bkl) (hdrawn : x'.drawn = x.drawn)
    (hacquired : x'.acquired = x.acquired)
    (hreleased : x'.released = x.released)
    (hplace : point'.place = (location c).place) :
    TicketLock.Step 256 (x.lock location) c
      (x'.lock (Function.update location c point')) := by
  have hsame : x'.lock (Function.update location c point') =
      x.lock location := by
    rw [lock_update, hplace]
    simp only [Shared.lock, TicketLock.Lock.move, Function.update_eq_self, hbkl,
      hdrawn, hacquired, hreleased]
  rw [hsame]
  exact .skip

variable [DecidableEq γ]

theorem moves_lock {x : Shared γ} (hflags : Flags x location)
    (hmoves : Moves c x (location c) x' point') :
    TicketLock.Step 256 (x.lock location) c
      (x'.lock (Function.update location c point')) := by
  generalize hpoint : location c = point at hmoves
  have hplace : (x.lock location).place c = point.place := by
    rw [← hpoint]
    rfl
  cases hmoves with
  | draw =>
      rw [lock_update]
      exact .draw hplace
  | acquire hidle hcalled | acquireFor hidle hcalled =>
      subst hcalled
      rw [lock_update]
      exact .acquire hplace
  | read =>
      rw [lock_update]
      exact .read hplace
  | store =>
      rw [lock_update]
      exact .store hplace
  | nest hhandler hlevel =>
      have houtside := hflags.outside hhandler hlevel
      exact lock_skip rfl rfl rfl rfl (by rw [houtside]; rfl)
  | spin | interrupt | later | mark | share | drop | queue | finish =>
      exact lock_skip rfl rfl rfl rfl (by rw [hpoint])
  | enter | set | enable | call | leave | dequeue | empty | clear | allow
  | reset | done | switchInt =>
      exact lock_skip rfl rfl rfl rfl (by simp [hpoint, Point.place])

omit [DecidableEq γ] in
theorem start_lock :
    TicketLock.Ordered 256 ((.start : Shared γ).lock fun _ => .outside) [] where
  serving_lt := Nat.zero_lt_succ 255
  numbered := rfl
  once := List.nodup_nil
  ticket c := by simp [Shared.lock, Point.place]
  waiting c number hwaiting := by cases hwaiting
  first c hlocked := by cases hlocked
  storing c number hstoring := by cases hstoring
  drawn := rfl
  acquired := Or.inl ⟨rfl, fun _ => rfl⟩

variable [DecidableEq τ]

theorem State.Reachable.lock {s : State γ τ} (hreach : s.Reachable) :
    ∃ line, TicketLock.Ordered 256 (s.shared.lock s.location) line := by
  refine hreach.keeps (fun x location => ∃ line,
    TicketLock.Ordered 256 (x.lock location) line) ⟨[], start_lock⟩ ?_
  rintro x location c x' point' hflags ⟨line, hordered⟩ hmoves
  -- There are at most `CPU_MAX` tickets for 256 numbers.
  exact (moves_lock hflags hmoves).ordered hordered (by decide)

/-- At most one processor is between the acquisition of the lock and its
release, each has at most one ticket that it has not given back, the lock is
acquired in the order of the tickets, and `unlock` is only executed on the
processor that has acquired it last. -/
theorem epilogue_level_exclusive {s : State γ τ} (hreach : s.Reachable) :
    (∀ c d, (s.location c).locked = true → (s.location d).locked = true →
      c = d) ∧
    (∀ c, (s.location c).locked = true ↔
      s.shared.acquired = s.shared.released ++ [c]) ∧
    (∀ c, s.shared.drawn.count c ≤ s.shared.released.count c + 1) ∧
    s.shared.acquired <+: s.shared.drawn ∧
    (∀ c, (s.location c = .unlocking ∨
        ∃ value, s.location c = .storing value) →
      s.shared.acquired = s.shared.released ++ [c]) := by
  obtain ⟨line, hordered⟩ := hreach.lock
  refine ⟨fun c d => hordered.exclusive, fun c => ⟨hordered.held, ?_⟩,
    hordered.count_drawn, hordered.acquired_prefix, ?_⟩
  · intro hheld
    rcases hordered.acquired with ⟨hfree, -⟩ | ⟨d, hlocked, hacquired⟩
    · have hsame := hfree.symm.trans hheld
      simp [Shared.lock] at hsame
    · have hsame := hheld.symm.trans hacquired
      obtain rfl : c = d := by simpa [Shared.lock] using hsame
      exact hlocked
  · rintro c (hunlock | ⟨value, hunlock⟩)
    all_goals
      refine hordered.held ?_
      change (s.location c).locked = true
      rw [hunlock]
      rfl

/-- A processor waits while another one switches threads inside the guard, and
gets the lock when the second thread leaves. -/
theorem epilogue_level_exclusive_switch :
    ∃ s : State Unit (Fin 9), s.Reachable ∧ s.current 0 = 8 ∧
      s.shared.drawn = [0, 1] ∧ s.shared.released = [0] ∧
      s.location 1 = .inside ∧ s.shared.acquired = [0, 1] := by
  have hrun : (Library.Runs.run State.step
      (State.start Fin.castSucc : State Unit (Fin 9))
      ([Event.act 0 .enter] ++ List.replicate 4 (Event.act 0 .advance) ++
        [Event.act 1 .enter] ++ List.replicate 5 (Event.act 1 .advance) ++
        [Event.dispatch 0 8, .act 0 .leave] ++
        List.replicate 3 (Event.act 0 .advance) ++
        [Event.act 1 .advance])).any fun s =>
          s.current 0 = 8 ∧ s.shared.drawn = [0, 1] ∧
            s.shared.released = [0] ∧ s.location 1 = .inside := by
    decide +kernel
  obtain ⟨s, hs, hcheck⟩ := (Option.any_eq_true _ _).mp hrun
  simp only [decide_eq_true_eq] at hcheck
  obtain ⟨hcurrent, hdrawn, hreleased, hinside⟩ := hcheck
  have hreach : s.Reachable := Library.Runs.Reachable.run
    (.start ⟨_, Fin.castSucc_injective 8, rfl⟩) hs
  obtain ⟨-, hheld, -⟩ := epilogue_level_exclusive hreach
  have hlocked := (hheld 1).mp (by rw [hinside]; rfl)
  exact ⟨s, hreach, hcurrent, hdrawn, hreleased, hinside,
    by rw [hlocked, hreleased]; rfl⟩

end X86Os32.Guard
