import X86Os32.Guard.EpilogueQueue

namespace X86Os32.Guard

open Library
open Scheduler (Cpu)

/-! What becomes of the requests for epilogues. -/

/-- The control flow is on its way to the epilogue of the gate. -/
def Point.carries (g : γ) : Point γ → Prop
  | .entering request | .entered request | .locking request
  | .waiting request _ => request = some g
  | .released h | .calling h => h = g
  | _ => False

/-- A gate whose epilogue is owed has its flag set by the processor, or the
epilogue is about to be called there. -/
def Owes (x : Shared γ) (location : Cpu → Point γ) : Prop :=
  ∀ c g, x.owed c g = true →
    x.marker g = some c ∨ (location c).carries g

variable [DecidableEq γ]

omit [DecidableEq γ] in
theorem Owes.frame {x x' : Shared γ} (howes : Owes x location)
    (howed : x'.owed = x.owed) (hmarker : x'.marker = x.marker)
    (hcarries : ∀ g, (location c).carries g → point'.carries g) :
    Owes x' (Function.update location c point') := by
  intro d g hd
  rw [howed] at hd
  rw [hmarker]
  refine (howes d g hd).imp_right fun hcarried => ?_
  by_cases heq : d = c
  · subst heq
    rw [Function.update_self]
    exact hcarries g hcarried
  · rwa [Function.update_of_ne heq]

@[simp] theorem setOwed_self (x : Shared γ) (c : Cpu) (g : γ) (value : Bool) :
    (x.setOwed c g value).owed c g = value := by
  simp [Shared.setOwed]

theorem setOwed_of_ne (x : Shared γ) (value : Bool)
    (hne : ¬ (d = c ∧ h = g)) :
    (x.setOwed c g value).owed d h = x.owed d h := by
  by_cases hd : d = c
  · subst hd
    have hh : h ≠ g := fun heq => hne ⟨rfl, heq⟩
    simp [Shared.setOwed, hh]
  · simp [Shared.setOwed, hd]

theorem Owes.moves {x : Shared γ} (howes : Owes x location)
    (hgates : Gates x location lists) (hflags : Flags x location)
    (hmoves : Moves c x (location c) x' point') :
    Owes x' (Function.update location c point') := by
  generalize hpoint : location c = point at hmoves
  have hstay := Function.update_eq_self c location
  rw [hpoint] at hstay
  cases hmoves with
  | call hidle =>
      rename_i g
      intro d h howed
      by_cases heq : d = c ∧ h = g
      · obtain ⟨rfl, rfl⟩ := heq
        rw [Shared.call, setOwed_self] at howed
        cases howed
      · rw [Shared.call, setOwed_of_ne _ _ heq] at howed
        refine (howes d h howed).imp_right fun hcarried => ?_
        by_cases hd : d = c
        · subst hd
          rw [hpoint] at hcarried
          exact absurd ⟨rfl, hcarried.symm⟩ heq
        · rwa [Function.update_of_ne hd]
  | clear hidle =>
      rename_i g
      have hmarker : x.marker g = some c :=
        (hgates.marker c g).mpr (Or.inr (Or.inr hpoint))
      intro d h howed
      by_cases hd : d = c
      · subst hd
        rw [Function.update_self]
        by_cases hh : h = g
        · exact Or.inr hh.symm
        · have hold := howes d h howed
          rw [hpoint] at hold
          left
          simpa [Shared.setDequeued, hh, Point.carries] using hold
      · rw [Function.update_of_ne hd]
        refine (howes d h howed).imp_left fun hmarked => ?_
        have hh : h ≠ g := by
          rintro rfl
          rw [hmarker] at hmarked
          exact hd (Option.some.inj hmarked).symm
        simpa [Shared.setDequeued, hh] using hmarked
  | nest hhandler hlevel =>
      rename_i g
      have houtside := hflags.outside hhandler hlevel
      intro d h howed
      by_cases heq : d = c ∧ h = g
      · obtain ⟨rfl, rfl⟩ := heq
        rw [Function.update_self]
        exact Or.inr rfl
      · have hold := howes d h ((setOwed_of_ne x true heq).symm.trans howed)
        by_cases hd : d = c
        · subst hd
          rw [houtside] at hold
          exact hold.imp_right False.elim
        · rwa [Function.update_of_ne hd]
  | mark hhandler hunset =>
      rename_i g
      have hnone : x.marker g = none := by
        rw [hgates.inQueue] at hunset
        simpa using hunset
      rw [hstay]
      intro d h howed
      by_cases heq : d = c ∧ h = g
      · obtain ⟨rfl, rfl⟩ := heq
        exact Or.inl (Function.update_self ..)
      · refine (howes d h ((setOwed_of_ne _ true heq).symm.trans
          howed)).imp_left fun hmarked => ?_
        have hh : h ≠ g := by
          rintro rfl
          rw [hnone] at hmarked
          cases hmarked
        simpa [Shared.setHandler, Shared.setOwed, hh] using hmarked
  | share hhandler hset hown =>
      rename_i g
      rw [hstay]
      intro d h howed
      by_cases heq : d = c ∧ h = g
      · obtain ⟨rfl, rfl⟩ := heq
        exact Or.inl hown
      · exact howes d h ((setOwed_of_ne x true heq).symm.trans howed)
  | spin | interrupt | later | drop | queue | finish =>
      exact howes.frame rfl rfl (by simp [hpoint])
  | enter | set | enable | draw | acquire | acquireFor | leave | dequeue | empty
  | allow | read | store | reset | done | switchInt =>
      exact howes.frame rfl rfl (by simp [hpoint, Point.carries])

omit [DecidableEq γ] in
theorem Owes.left {x : Shared γ} (howes : Owes x location)
    (hgates : Gates x location lists) (hflags : Flags x location)
    (hleft : location c = .unlocked ∨ location c = .left ∨
      location c = .outside) : x.owed c g = false := by
  refine Bool.eq_false_of_not_eq_true fun howed => ?_
  have hempty : lists c = [] := hgates.empty c (by
    rcases hleft with hpoint | hpoint | hpoint <;> rw [hpoint] <;> rfl)
  rcases howes c g howed with hmarker | hcarried
  · rcases (hgates.marker c g).mp hmarker with hmem | hqueuing | hdequeued
    · rw [hempty] at hmem
      cases hmem
    · have hinterruptible := (hflags c).handling (by simp [hqueuing])
      have hlevel := (hflags c).marking g (Or.inr hqueuing)
      rw [(hflags c).inEpilogue] at hlevel
      rcases hleft with hpoint | hpoint | hpoint <;>
        simp [hpoint, Point.interruptible, Point.level] at hinterruptible hlevel
    · rcases hleft with hpoint | hpoint | hpoint <;> rw [hpoint] at hdequeued <;>
        cases hdequeued
  · rcases hleft with hpoint | hpoint | hpoint <;> rw [hpoint] at hcarried <;>
      exact hcarried

variable [DecidableEq τ]

theorem State.Reachable.owes {s : State γ τ} (hreach : s.Reachable) :
    ∃ lists, Gates s.shared s.location lists ∧ Owes s.shared s.location := by
  refine hreach.keeps (fun x location =>
    ∃ lists, Gates x location lists ∧ Owes x location)
    ⟨_, .start, fun _ _ howed => by cases howed⟩ ?_
  rintro x location c x' point' hflags ⟨lists, hgates, howes⟩ hmoves
  obtain ⟨lists', hgates'⟩ := hgates.moves hflags hmoves
  exact ⟨lists', hgates', howes.moves hgates hflags hmoves⟩

/-- `relay` has been called on the processor, and is going to keep the request:
it runs the epilogue at once, or the flag of the gate is not set by another
processor. -/
def State.Accepts (s : State γ τ) (c : Cpu) (g : γ) : Prop :=
  (s.shared.handler c = .relaying g ∧ s.shared.inEpilogue c = false) ∨
    (s.shared.handler c = .marking g ∧
      (s.shared.inQueue g = true → s.shared.marker g = some c))

def State.Calls (s : State γ τ) (c : Cpu) (g : γ) : Prop :=
  s.shared.handler c = .idle ∧ s.location c = .calling g

theorem State.Accepts.owed {s : State γ τ} (haccepts : s.Accepts c g)
    (hstep : s.step (.act c .advance) = some s') :
    s'.shared.owed c g = true := by
  obtain ⟨⟨x', flow'⟩, hact, heq⟩ := Option.map_eq_some_iff.mp hstep
  cases heq
  rcases haccepts with ⟨hhandler, hlevel⟩ | ⟨hhandler, hmarker⟩
  · simp only [Shared.act, hhandler, reduceCtorEq, if_false, Shared.handle,
      hlevel, Bool.false_eq_true] at hact
    cases hact
    exact setOwed_self ..
  · simp only [Shared.act, hhandler, reduceCtorEq, if_false,
      Shared.handle] at hact
    cases hact
    simp only [Shared.setQueued]
    split
    · next hset =>
        rw [if_pos (hmarker hset)]
        exact setOwed_self ..
    · exact setOwed_self ..

theorem owed_act {x : Shared γ} (hact : x.act d flow a = some (x', flow'))
    (howed : x.owed c g = true) :
    x'.owed c g = true ∨
      (d = c ∧ a = .advance ∧ x.handler d = .idle ∧
        flow.point = .calling g) := by
  have hset : ∀ (y : Shared γ) h, y.owed = x.owed →
      (y.setOwed d h true).owed c g = true := by
    intro y h hsame
    by_cases heq : c = d ∧ g = h
    · obtain ⟨rfl, rfl⟩ := heq
      exact setOwed_self ..
    · rw [setOwed_of_ne y true heq, hsame]
      exact howed
  cases a with
  | advance =>
      simp only [Shared.act] at hact
      split at hact
      · next hidle =>
          obtain ⟨⟨x'', point⟩, hproceed, heq⟩ :=
            Option.map_eq_some_iff.mp hact
          cases heq
          generalize hpoint : flow.point = point' at hproceed
          cases point' with
          | calling h =>
              cases hproceed
              by_cases heq : c = d ∧ g = h
              · obtain ⟨rfl, rfl⟩ := heq
                exact Or.inr ⟨rfl, rfl, hidle, rfl⟩
              · rw [Shared.call, setOwed_of_ne _ false heq]
                exact Or.inl howed
          | outside | inside => cases hproceed
          | waiting request old =>
              simp only [Shared.proceed] at hproceed
              split at hproceed <;> cases hproceed <;> exact Or.inl howed
          | emptying =>
              simp only [Shared.proceed] at hproceed
              split at hproceed <;> cases hproceed <;> exact Or.inl howed
          | entering | entered | locking | dequeued | released | unlocking
          | storing | unlocked | left => cases hproceed; exact Or.inl howed
      · left
        generalize x.handler d = handler at hact
        cases handler with
        | idle => cases hact
        | relaying h =>
            simp only [Shared.handle] at hact
            split at hact
            · cases hact
              exact howed
            · cases hact
              exact hset x h rfl
        | marking h =>
            cases hact
            simp only [Shared.setQueued]
            split
            · split
              · exact hset x h rfl
              · exact howed
            · exact hset _ h rfl
        | queuing h => cases hact; exact howed
        | returning => cases hact; exact howed
  | iret =>
      simp only [Shared.act] at hact
      split at hact
      · obtain ⟨-, heq⟩ := Option.ite_none_right_eq_some.mp hact
        cases heq
        exact Or.inl howed
      · cases hact
  | enter | leave | interrupt | disableInt | enableInt =>
      obtain ⟨-, heq⟩ := Option.ite_none_right_eq_some.mp hact
      cases heq
      exact Or.inl howed

theorem owed_step {s : State γ τ} (hstep : s.step event = some s')
    (howed : s.shared.owed c g = true) :
    s'.shared.owed c g = true ∨
      (event = .act c .advance ∧ s.Calls c g) := by
  cases event with
  | act d a =>
      obtain ⟨⟨x', flow'⟩, hact, heq⟩ := Option.map_eq_some_iff.mp hstep
      cases heq
      rcases owed_act hact howed with hkept | ⟨rfl, rfl, hidle, hpoint⟩
      · exact Or.inl hkept
      · exact Or.inr ⟨rfl, hidle, hpoint⟩
  | dispatch d next =>
      obtain ⟨-, heq⟩ := Option.ite_none_right_eq_some.mp hstep
      cases heq
      exact Or.inl howed

/-- An epilogue that is owed is called before the processor leaves. -/
theorem State.Reachable.settles {s : State γ τ} (hreach : s.Reachable)
    (howed : s.shared.owed c g = true)
    (hrun : Runs.run State.step s events = some s')
    (hleft : s'.location c = .unlocked ∨ s'.location c = .left ∨
      s'.location c = .outside) :
    ∃ before after middle, events = before ++ .act c .advance :: after ∧
      Runs.run State.step s before = some middle ∧ middle.Calls c g := by
  induction events generalizing s with
  | nil =>
      obtain rfl : s = s' := by simpa [Runs.run] using hrun
      obtain ⟨lists, hgates, howes⟩ := hreach.owes
      rw [howes.left hgates hreach.threads.2 hleft] at howed
      cases howed
  | cons event rest ih =>
      obtain ⟨next, hstep, hrest⟩ := Option.bind_eq_some_iff.mp hrun
      rcases owed_step hstep howed with hkept | ⟨rfl, hcalls⟩
      · obtain ⟨before, after, middle, hevents, hbefore, hcalls⟩ :=
          ih (hreach.next hstep) hkept hrest
        refine ⟨event :: before, after, middle, by rw [hevents]; rfl, ?_,
          hcalls⟩
        rw [Runs.run, hstep]
        exact hbefore
      · exact ⟨[], rest, s, rfl, rfl, hcalls⟩

/-- Of a request that `relay` drops nothing is left. -/
theorem State.dropped {s : State γ τ}
    (hhandler : s.shared.handler c = .marking g) (hdrops : ¬ s.Accepts c g)
    (hstep : s.step (.act c .advance) = some next) :
    next = { s with shared := s.shared.setHandler c .returning } := by
  have hset : s.shared.inQueue g = true := by
    by_contra hunset
    exact hdrops (Or.inr ⟨hhandler, fun hset => absurd hset hunset⟩)
  have hother : s.shared.marker g ≠ some c := fun hown =>
    hdrops (Or.inr ⟨hhandler, fun _ => hown⟩)
  obtain ⟨⟨x', flow'⟩, hact, rfl⟩ := Option.map_eq_some_iff.mp hstep
  simp only [Shared.act, hhandler, reduceCtorEq, if_false, Shared.handle,
    Shared.setQueued, hset, if_true, hother] at hact
  cases hact
  simp

/-- Every request that `relay` keeps leads to a call of the epilogue, on the
same processor and behind the request, before this processor next leaves the
level.  One that it drops changes nothing. -/
theorem requests_served {s : State γ τ} (hreach : s.Reachable)
    (hstep : s.step (.act c .advance) = some next) :
    (s.Accepts c g → ∀ events s', Runs.run State.step next events = some s' →
      (s'.location c = .unlocked ∨ s'.location c = .left ∨
        s'.location c = .outside) →
      ∃ before after middle, events = before ++ .act c .advance :: after ∧
        Runs.run State.step next before = some middle ∧ middle.Calls c g) ∧
    (s.shared.handler c = .marking g → ¬ s.Accepts c g →
      next = { s with shared := s.shared.setHandler c .returning }) := by
  constructor
  · intro haccepts events s' hrun hleft
    exact State.Reachable.settles (hreach.next hstep) (haccepts.owed hstep) hrun
      hleft
  · intro hhandler hdrops
    exact State.dropped hhandler hdrops hstep

/-- Processor 0 is inside the guard, and a request of the timer is about to set
the flag of its gate. -/
def timerRequest : List (Event Unit Cpu) :=
  [Event.act 0 .enter] ++ List.replicate 4 (Event.act 0 .advance) ++
    [Event.act 0 (.interrupt ()), .act 0 .advance]

/-- The gate is linked, and processor 0 leaves. -/
def timerServed : List (Event Unit Cpu) :=
  List.replicate 2 (Event.act 0 .advance) ++ [Event.act 0 .leave] ++
    List.replicate 4 (Event.act 0 .advance) ++ [Event.act 0 .leave] ++
    List.replicate 3 (Event.act 0 .advance)

theorem requests_served_timer :
    ∃ before after, timerServed = before ++ .act 0 .advance :: after ∧
      ∃ next middle : State Unit Cpu,
        Runs.run State.step next before = some middle ∧
        middle.Calls 0 () := by
  have hrun : (Runs.run State.step (State.start id : State Unit Cpu)
      timerRequest).any fun s => s.shared.handler 0 = .marking () ∧
        s.shared.inQueue () = false ∧
        (s.step (.act 0 .advance)).any fun next =>
          (Runs.run State.step next timerServed).any fun s' =>
            s'.location 0 = .unlocked := by
    decide +kernel
  obtain ⟨s, hs, hcheck⟩ := (Option.any_eq_true _ _).mp hrun
  simp only [decide_eq_true_eq, Option.any_eq_true] at hcheck
  obtain ⟨hhandler, hunset, next, hnext, s', hs', hleft⟩ := hcheck
  have hreach : s.Reachable :=
    Runs.Reachable.run (.start ⟨id, Function.injective_id, rfl⟩) hs
  have haccepts : s.Accepts 0 () := Or.inr ⟨hhandler, by simp [hunset]⟩
  obtain ⟨before, after, middle, hevents, hbefore, hcalls⟩ :=
    (requests_served hreach hnext).1 haccepts timerServed s' hs' (Or.inl hleft)
  exact ⟨before, after, hevents, next, middle, hbefore, hcalls⟩

/-- Processor 1 is inside the guard with a request of the timer in its queue, and
processor 0 waits for the lock when a request of the timer comes there. -/
def timerTwice : List (Event Unit Cpu) :=
  [Event.act 1 .enter] ++ List.replicate 4 (Event.act 1 .advance) ++
    [Event.act 0 .enter] ++ List.replicate 3 (Event.act 0 .advance) ++
    [Event.act 1 (.interrupt ())] ++ List.replicate 4 (Event.act 1 .advance) ++
    [Event.act 0 (.interrupt ())]

/-- The epilogue runs on processor 1, and both processors leave. -/
def timerDropped : List (Event Unit Cpu) :=
  List.replicate 2 (Event.act 0 .advance) ++ [Event.act 1 .leave] ++
    List.replicate 4 (Event.act 1 .advance) ++ [Event.act 1 .leave] ++
    List.replicate 5 (Event.act 1 .advance) ++
    [Event.act 0 .advance, .act 0 .leave] ++
    List.replicate 3 (Event.act 0 .advance)

/-- A request that finds the flag of its gate set by another processor does not
lead to a call on its own. -/
theorem requests_dropped :
    ¬ ∀ (s next s' : State Unit Cpu) (c : Cpu) (g : Unit) events,
      s.Reachable → s.shared.handler c = .relaying g →
      s.step (.act c .advance) = some next →
      Runs.run State.step next events = some s' →
      s'.location c = .unlocked ∨ s'.location c = .left ∨
        s'.location c = .outside →
      ∃ before after middle, events = before ++ .act c .advance :: after ∧
        Runs.run State.step next before = some middle ∧
        middle.Calls c g := by
  intro hclaim
  have hrun : (Runs.run State.step (State.start id : State Unit Cpu)
      timerTwice).any fun s => s.shared.handler 0 = .relaying () ∧
        (s.step (.act 0 .advance)).any fun next =>
          ((Runs.run State.step next timerDropped).any fun s' =>
            s'.location 0 = .unlocked) ∧
          ∀ n < timerDropped.length + 1,
            (Runs.run State.step next (timerDropped.take n)).all fun middle =>
              middle.location 0 ≠ .calling () := by
    decide +kernel
  obtain ⟨s, hs, hcheck⟩ := (Option.any_eq_true _ _).mp hrun
  simp only [decide_eq_true_eq, Option.any_eq_true] at hcheck
  obtain ⟨hhandler, next, hnext, ⟨s', hs', hleft⟩, hnever⟩ := hcheck
  have hreach : s.Reachable :=
    Runs.Reachable.run (.start ⟨id, Function.injective_id, rfl⟩) hs
  obtain ⟨before, after, middle, hevents, hbefore, -, hcalls⟩ :=
    hclaim s next s' 0 () timerDropped hreach hhandler hnext hs' (Or.inl hleft)
  have htake : timerDropped.take before.length = before := by
    rw [hevents, List.take_left]
  have hlength : before.length < timerDropped.length + 1 := by
    rw [hevents, List.length_append]
    omega
  have hmiddle := hnever before.length hlength
  rw [htake, hbefore] at hmiddle
  simp [hcalls] at hmiddle

end X86Os32.Guard
