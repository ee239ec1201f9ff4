import X86Os32.Guard.Guard

namespace X86Os32.Guard

open Scheduler (Cpu)

/-! What a step changes, and what holds of the flags. -/

variable [DecidableEq γ]

/-- What a step on a processor does to the shared state, and to the place where
the thread that runs there is. -/
inductive Moves (c : Cpu) (x : Shared γ) :
    Point γ → Shared γ → Point γ → Prop
  | enter (hidle : x.handler c = .idle) :
      Moves c x .outside (x.setInterrupts c false) (.entering none)
  | set (hidle : x.handler c = .idle) :
      Moves c x (.entering request) (x.setInEpilogue c true)
        (.entered request)
  | enable (hidle : x.handler c = .idle) :
      Moves c x (.entered request) (x.setInterrupts c true)
        (.locking request)
  | draw (hidle : x.handler c = .idle) :
      Moves c x (.locking request)
        { x with
          bkl := { x.bkl with t := (x.bkl.t + 1) % 256 }
          drawn := x.drawn ++ [c] } (.waiting request x.bkl.t)
  | spin : Moves c x point x point
  | acquire (hidle : x.handler c = .idle) (hcalled : x.bkl.l = old) :
      Moves c x (.waiting none old) { x with acquired := x.acquired ++ [c] }
        .inside
  | acquireFor (hidle : x.handler c = .idle) (hcalled : x.bkl.l = old) :
      Moves c x (.waiting (some g) old)
        { x with acquired := x.acquired ++ [c] } (.calling g)
  | call (hidle : x.handler c = .idle) :
      Moves c x (.calling g) (x.call c g) .inside
  | leave (hidle : x.handler c = .idle) :
      Moves c x .inside (x.setInterrupts c false) .emptying
  | dequeue (hidle : x.handler c = .idle)
      (hqueue : x.queue.dequeue c = (some g, queue)) :
      Moves c x .emptying { x with queue } (.dequeued g)
  | empty (hidle : x.handler c = .idle)
      (hqueue : x.queue.dequeue c = (none, queue)) :
      Moves c x .emptying { x with queue } .unlocking
  | clear (hidle : x.handler c = .idle) :
      Moves c x (.dequeued g) (x.setDequeued g) (.released g)
  | allow (hidle : x.handler c = .idle) :
      Moves c x (.released g) (x.setInterrupts c true) (.calling g)
  | read (hidle : x.handler c = .idle) :
      Moves c x .unlocking x (.storing ((x.bkl.l + 1) % 256))
  | store (hidle : x.handler c = .idle) :
      Moves c x (.storing value)
        { x with
          bkl := { x.bkl with l := value }
          released := x.released ++ [c] } .unlocked
  | reset (hidle : x.handler c = .idle) :
      Moves c x .unlocked (x.setInEpilogue c false) .left
  | done (hidle : x.handler c = .idle) :
      Moves c x .left (x.setInterrupts c true) .outside
  | interrupt (henabled : x.interrupts c = true) :
      Moves c x point
        ((x.setInterrupts c false).setHandler c (.relaying g)) point
  | later (hhandler : x.handler c = .relaying g)
      (hlevel : x.inEpilogue c = true) :
      Moves c x point (x.setHandler c (.marking g)) point
  | nest (hhandler : x.handler c = .relaying g)
      (hlevel : x.inEpilogue c = false) :
      Moves c x point ((x.setOwed c g true).setHandler c .idle)
        (.entering (some g))
  | mark (hhandler : x.handler c = .marking g) (hunset : x.inQueue g = false) :
      Moves c x point
        ((({ x with
          inQueue := Function.update x.inQueue g true
          marker := Function.update x.marker g (some c) }).setOwed
            c g true).setHandler c (.queuing g)) point
  | share (hhandler : x.handler c = .marking g) (hset : x.inQueue g = true)
      (hown : x.marker g = some c) :
      Moves c x point ((x.setOwed c g true).setHandler c .returning) point
  | drop (hhandler : x.handler c = .marking g) (hset : x.inQueue g = true)
      (hforeign : x.marker g ≠ some c) :
      Moves c x point (x.setHandler c .returning) point
  | queue (hhandler : x.handler c = .queuing g) :
      Moves c x point
        (({ x with queue := x.queue.enqueue c g }).setHandler c .returning)
        point
  | finish (hhandler : x.handler c = .returning) :
      Moves c x point ((x.setInterrupts c true).setHandler c .idle) point
  | switchInt (hidle : x.handler c = .idle) (value : Bool) :
      Moves c x .outside (x.setInterrupts c value) .outside

theorem proceed_moves {x : Shared γ} (hidle : x.handler c = .idle)
    (hstep : x.proceed c point = some (x', point')) :
    Moves c x point x' point' := by
  cases point with
  | outside => cases hstep
  | inside => cases hstep
  | waiting request old =>
      simp only [Shared.proceed] at hstep
      split at hstep
      · next hcalled =>
          cases hstep
          cases request with
          | none => exact .acquire hidle hcalled
          | some g => exact .acquireFor hidle hcalled
      · cases hstep
        exact .spin
  | emptying =>
      simp only [Shared.proceed] at hstep
      split at hstep
      · next hqueue =>
          cases hstep
          exact .dequeue hidle hqueue
      · next hqueue =>
          cases hstep
          exact .empty hidle hqueue
  | entering => cases hstep; exact .set hidle
  | entered => cases hstep; exact .enable hidle
  | locking => cases hstep; exact .draw hidle
  | calling => cases hstep; exact .call hidle
  | dequeued => cases hstep; exact .clear hidle
  | released => cases hstep; exact .allow hidle
  | unlocking => cases hstep; exact .read hidle
  | storing => cases hstep; exact .store hidle
  | unlocked => cases hstep; exact .reset hidle
  | left => cases hstep; exact .done hidle

theorem handle_moves {x : Shared γ} (hhandler : x.handler c = handler)
    (hstep : x.handle c flow handler = some (x', flow')) :
    Moves c x flow.point x' flow'.point := by
  cases handler with
  | idle => cases hstep
  | relaying g =>
      simp only [Shared.handle] at hstep
      split at hstep
      · next hlevel => cases hstep; exact .later hhandler hlevel
      · next hlevel =>
          cases hstep
          exact .nest hhandler (Bool.eq_false_of_not_eq_true hlevel)
  | marking g =>
      cases hstep
      simp only [Shared.setQueued]
      split
      · next hset =>
          split
          · next hown => exact .share hhandler hset hown
          · next hforeign => exact .drop hhandler hset hforeign
      · next hunset =>
          exact .mark hhandler (Bool.eq_false_of_not_eq_true hunset)
  | queuing g => cases hstep; exact .queue hhandler
  | returning => cases hstep; exact .finish hhandler

/-- Whatever was interrupted to run an epilogue was not in the guard. -/
def Flow.Nested (flow : Flow γ) : Prop :=
  ∀ point ∈ flow.interrupted, point = .outside

theorem act_moves {x : Shared γ} (hnested : flow.Nested)
    (hact : x.act c flow a = some (x', flow')) :
    Moves c x flow.point x' flow'.point := by
  cases a with
  | advance =>
      simp only [Shared.act] at hact
      split at hact
      · next hidle =>
          obtain ⟨⟨x'', point⟩, hstep, heq⟩ := Option.map_eq_some_iff.mp hact
          cases heq
          exact proceed_moves hidle hstep
      · exact handle_moves rfl hact
  | enter =>
      obtain ⟨⟨hidle, rfl⟩, heq⟩ := Option.ite_none_right_eq_some.mp hact
      cases heq
      exact .enter hidle
  | leave =>
      obtain ⟨⟨hidle, hpoint⟩, heq⟩ := Option.ite_none_right_eq_some.mp hact
      cases heq
      rw [hpoint]
      exact .leave hidle
  | interrupt g =>
      obtain ⟨henabled, heq⟩ := Option.ite_none_right_eq_some.mp hact
      cases heq
      exact .interrupt henabled
  | iret =>
      simp only [Shared.act] at hact
      split at hact
      · next point interrupted =>
          obtain ⟨hidle, heq⟩ := Option.ite_none_right_eq_some.mp hact
          cases heq
          obtain rfl : point = .outside := hnested point (by simp)
          exact .switchInt hidle true
      · cases hact
  | disableInt =>
      obtain ⟨⟨hidle, rfl⟩, heq⟩ := Option.ite_none_right_eq_some.mp hact
      cases heq
      exact .switchInt hidle false
  | enableInt =>
      obtain ⟨⟨hidle, rfl⟩, heq⟩ := Option.ite_none_right_eq_some.mp hact
      cases heq
      exact .switchInt hidle true

/-- Interrupts are enabled here, unless one is handled. -/
def Point.interruptible : Point γ → Bool
  | .outside | .locking _ | .waiting _ _ | .calling _ | .inside => true
  | _ => false

def Point.level : Point γ → Bool
  | .outside | .entering _ | .left => false
  | _ => true

structure FlagsAt (x : Shared γ) (c : Cpu) (point : Point γ) : Prop where
  enabled : x.interrupts c = true →
    x.handler c = .idle ∧ point.interruptible = true
  handling : x.handler c ≠ .idle → point.interruptible = true
  inEpilogue : x.inEpilogue c = point.level
  marking : ∀ g, x.handler c = .marking g ∨ x.handler c = .queuing g →
    x.inEpilogue c = true

def Flags (x : Shared γ) (location : Cpu → Point γ) : Prop :=
  ∀ c, FlagsAt x c (location c)

theorem Moves.elsewhere {x : Shared γ} (hmoves : Moves c x point x' point')
    (hd : d ≠ c) :
    x'.interrupts d = x.interrupts d ∧ x'.handler d = x.handler d ∧
      x'.inEpilogue d = x.inEpilogue d := by
  cases hmoves <;>
    simp [Shared.setInterrupts, Shared.setInEpilogue, Shared.setHandler,
      Shared.setOwed, Shared.call, Shared.setDequeued, hd]

theorem FlagsAt.moves {x : Shared γ} (hflags : FlagsAt x c point)
    (hmoves : Moves c x point x' point') : FlagsAt x' c point' := by
  obtain ⟨henabled, hhandling, hlevel, hmarking⟩ := hflags
  cases hmoves with
  | spin => exact ⟨henabled, hhandling, hlevel, hmarking⟩
  | interrupt hinterrupts =>
      obtain ⟨-, hpoint⟩ := henabled hinterrupts
      exact ⟨by simp [Shared.setInterrupts, Shared.setHandler],
        fun _ => hpoint, hlevel, by simp [Shared.setHandler]⟩
  | later hhandler hset =>
      have hpoint := hhandling (by simp [hhandler])
      refine ⟨fun hinterrupts => ?_, fun _ => hpoint, hlevel, fun _ _ => hset⟩
      have hidle := (henabled hinterrupts).1
      rw [hhandler] at hidle
      cases hidle
  | nest hhandler hunset =>
      refine ⟨fun hinterrupts => ?_, fun hbusy => ?_, hunset, ?_⟩
      · have hidle := (henabled hinterrupts).1
        rw [hhandler] at hidle
        cases hidle
      · simp [Shared.setHandler] at hbusy
      · simp [Shared.setHandler]
  | mark hhandler | share hhandler | drop hhandler =>
      have hpoint := hhandling (by simp [hhandler])
      have hset := hmarking _ (Or.inl hhandler)
      refine ⟨fun hinterrupts => ?_, fun _ => hpoint, hlevel, fun _ _ => hset⟩
      have hidle := (henabled hinterrupts).1
      rw [hhandler] at hidle
      cases hidle
  | queue hhandler =>
      have hpoint := hhandling (by simp [hhandler])
      have hset := hmarking _ (Or.inr hhandler)
      refine ⟨fun hinterrupts => ?_, fun _ => hpoint, hlevel, fun _ _ => hset⟩
      have hidle := (henabled hinterrupts).1
      rw [hhandler] at hidle
      cases hidle
  | finish hhandler =>
      have hpoint := hhandling (by simp [hhandler])
      exact ⟨fun _ => ⟨by simp [Shared.setHandler], hpoint⟩,
        fun _ => hpoint, hlevel, by simp [Shared.setHandler]⟩
  | enter hidle | set hidle | enable hidle | draw hidle | acquire hidle
  | acquireFor hidle | call hidle | leave hidle | dequeue hidle | empty hidle
  | clear hidle | allow hidle | read hidle | store hidle | reset hidle
  | done hidle | switchInt hidle =>
      -- No request is handled, and the place decides.
      have hpoint := fun hinterrupts => (henabled hinterrupts).2
      constructor <;>
        simp [Shared.setInterrupts, Shared.setInEpilogue, Shared.call,
          Shared.setOwed, Shared.setDequeued, hidle, hlevel,
          Point.interruptible, Point.level] <;>
        simpa [Point.interruptible] using hpoint

theorem Flags.moves {x : Shared γ} (hflags : Flags x location)
    (hmoves : Moves c x (location c) x' point') :
    Flags x' (Function.update location c point') := by
  intro d
  by_cases hd : d = c
  · subst hd
    rw [Function.update_self]
    exact (hflags d).moves hmoves
  · obtain ⟨hinterrupts, hhandler, hinEpilogue⟩ := hmoves.elsewhere hd
    rw [Function.update_of_ne hd]
    obtain ⟨henabled, hhandling, hlevel, hmarking⟩ := hflags d
    constructor
    · rwa [hinterrupts, hhandler]
    · rwa [hhandler]
    · rwa [hinEpilogue]
    · rwa [hhandler, hinEpilogue]

omit [DecidableEq γ] in
theorem Flags.outside {x : Shared γ} (hflags : Flags x location)
    (hhandler : x.handler c = .relaying g) (hlevel : x.inEpilogue c = false) :
    location c = .outside := by
  have hinterruptible := (hflags c).handling (by simp [hhandler])
  rw [(hflags c).inEpilogue] at hlevel
  generalize location c = point at *
  cases point <;> simp_all [Point.interruptible, Point.level]

theorem act_nested {x : Shared γ} (hflags : Flags x location)
    (hpoint : location c = flow.point) (hnested : flow.Nested)
    (hact : x.act c flow a = some (x', flow')) : flow'.Nested := by
  cases a with
  | advance =>
      simp only [Shared.act] at hact
      split at hact
      · obtain ⟨⟨x'', point⟩, -, heq⟩ := Option.map_eq_some_iff.mp hact
        cases heq
        exact hnested
      · generalize hhandler : x.handler c = handler at hact
        cases handler with
        | idle => cases hact
        | relaying g =>
            simp only [Shared.handle] at hact
            split at hact
            · cases hact
              exact hnested
            · next hlevel =>
                cases hact
                have houtside := hflags.outside hhandler
                  (Bool.eq_false_of_not_eq_true hlevel)
                intro point hmem
                rcases List.mem_cons.mp hmem with rfl | hold
                · rw [← hpoint, houtside]
                · exact hnested point hold
        | marking g => cases hact; exact hnested
        | queuing g => cases hact; exact hnested
        | returning => cases hact; exact hnested
  | iret =>
      simp only [Shared.act] at hact
      split at hact
      · obtain ⟨-, heq⟩ := Option.ite_none_right_eq_some.mp hact
        cases heq
        exact fun point hmem => hnested point (List.mem_cons_of_mem _ hmem)
      · cases hact
  | enter | leave | interrupt | disableInt | enableInt =>
      obtain ⟨-, heq⟩ := Option.ite_none_right_eq_some.mp hact
      cases heq
      exact hnested

/-! What the threads that do not run are, and how every property of the
processors carries over to the threads. -/

structure Threads (s : State γ τ) : Prop where
  current : Function.Injective s.current
  resting : ∀ u, (∀ c, s.current c ≠ u) → (s.flow u).point = .inside
  nested : ∀ u, (s.flow u).Nested

variable [DecidableEq τ]

theorem Threads.step {s : State γ τ} (hthreads : Threads s)
    (hflags : Flags s.shared s.location) (hstep : s.step event = some s') :
    Threads s' ∧ ∃ c point',
      Moves c s.shared (s.location c) s'.shared point' ∧
      s'.location = Function.update s.location c point' := by
  obtain ⟨hcurrent, hresting, hnested⟩ := hthreads
  cases event with
  | act c a =>
      obtain ⟨⟨x', flow'⟩, hact, heq⟩ := Option.map_eq_some_iff.mp hstep
      cases heq
      refine ⟨⟨hcurrent, ?_, ?_⟩, c, flow'.point,
        act_moves (hnested _) hact, ?_⟩
      · intro u hidle
        dsimp only
        rw [Function.update_of_ne (hidle c).symm]
        exact hresting u hidle
      · intro u
        dsimp only
        by_cases hu : u = s.current c
        · subst hu
          rw [Function.update_self]
          exact act_nested hflags rfl (hnested _) hact
        · rw [Function.update_of_ne hu]
          exact hnested u
      · funext d
        by_cases hd : d = c
        · subst hd
          simp [State.location]
        · simp [State.location, hd, hcurrent.ne hd]
  | dispatch c next =>
      obtain ⟨⟨-, hinside, hfree⟩, heq⟩ :=
        Option.ite_none_right_eq_some.mp hstep
      cases heq
      refine ⟨⟨?_, ?_, hnested⟩, c, s.location c, .spin, ?_⟩
      · intro d e heq
        by_cases hd : d = c <;> by_cases he : e = c <;>
          simp_all
        · exact absurd rfl (hfree e)
        · exact hcurrent heq
      · intro u hidle
        by_cases hu : u = s.current c
        · exact hu ▸ hinside
        · refine hresting u fun d heq => ?_
          by_cases hd : d = c
          · exact hu (heq ▸ congrArg s.current hd)
          · exact hidle d (by simpa [hd] using heq)
      · funext d
        by_cases hd : d = c
        · subst hd
          rw [Function.update_self, hinside]
          simpa [State.location] using hresting next hfree
        · simp [State.location, hd]

omit [DecidableEq γ] in
theorem Threads.start {current : Cpu → τ}
    (hcurrent : Function.Injective current) :
    Threads (State.start current : State γ τ) where
  current := hcurrent
  resting u hidle := by
    have hnone : ¬ ∃ c, current c = u := fun ⟨c, hc⟩ => hidle c hc
    simp [State.start, hnone]
  nested u point hmem := by cases hmem

omit [DecidableEq γ] in
theorem start_location (current : Cpu → τ) :
    (State.start current : State γ τ).location = fun _ => .outside := by
  funext c
  simp [State.location, State.start]

omit [DecidableEq γ] [DecidableEq τ] in
theorem Flags.start : Flags (.start : Shared γ) fun _ => .outside := by
  intro c
  constructor <;> simp [Shared.start, Point.level]

theorem State.Reachable.threads {s : State γ τ} (hreach : s.Reachable) :
    Threads s ∧ Flags s.shared s.location := by
  induction hreach with
  | start hinit =>
      obtain ⟨current, hcurrent, rfl⟩ := hinit
      rw [start_location]
      exact ⟨.start hcurrent, .start⟩
  | next _ hstep ih =>
      obtain ⟨hthreads, hflags⟩ := ih
      obtain ⟨hthreads', c, point', hmoves, hlocation⟩ :=
        hthreads.step hflags hstep
      rw [hlocation]
      exact ⟨hthreads', hflags.moves hmoves⟩

/-- A property of the processors that holds at the start and that no move
breaks holds throughout. -/
theorem State.Reachable.keeps {s : State γ τ} (hreach : s.Reachable)
    (property : Shared γ → (Cpu → Point γ) → Prop)
    (hstart : property .start fun _ => .outside)
    (hkept : ∀ x location c x' point', Flags x location →
      property x location → Moves c x (location c) x' point' →
      property x' (Function.update location c point')) :
    property s.shared s.location := by
  induction hreach with
  | start hinit =>
      obtain ⟨current, -, rfl⟩ := hinit
      rw [start_location]
      exact hstart
  | next hbefore hstep ih =>
      obtain ⟨hthreads, hflags⟩ := State.Reachable.threads hbefore
      obtain ⟨-, c, point', hmoves, hlocation⟩ := hthreads.step hflags hstep
      rw [hlocation]
      exact hkept _ _ _ _ _ hflags ih hmoves

end X86Os32.Guard
