import X86Os32.Guard.Moves

namespace X86Os32.Guard

open Scheduler (Cpu)

/-! The queues of epilogues.  The flag of a gate belongs to the processor that
has set it, until the gate is dequeued there. -/

/-- The queue of the processor has been emptied, and nothing was put into it
since. -/
def Point.emptied : Point γ → Bool
  | .outside | .entering _ | .unlocking | .storing _ | .unlocked
  | .left => true
  | _ => false

def Marks (x : Shared γ) (location : Cpu → Point γ) (lists : Cpu → List γ)
    (c : Cpu) (g : γ) : Prop :=
  g ∈ lists c ∨ x.handler c = .queuing g ∨ location c = .dequeued g

structure Gates (x : Shared γ) (location : Cpu → Point γ)
    (lists : Cpu → List γ) : Prop where
  holds : x.queue.Holds lists
  marker : ∀ c g, x.marker g = some c ↔ Marks x location lists c g
  apart : ∀ c g, g ∈ lists c →
    x.handler c ≠ .queuing g ∧ location c ≠ .dequeued g
  inQueue : ∀ g, x.inQueue g = (x.marker g).isSome
  empty : ∀ c, (location c).emptied = true → lists c = []

theorem Gates.frame {x x' : Shared γ} (hgates : Gates x location lists)
    (hqueue : x'.queue = x.queue) (hinQueue : x'.inQueue = x.inQueue)
    (hmarker : x'.marker = x.marker)
    (hhandler : ∀ d g, x'.handler d = .queuing g ↔ x.handler d = .queuing g)
    (hpoint : ∀ g, point' = .dequeued g ↔ location c = .dequeued g)
    (hemptied : point'.emptied = true → (location c).emptied = true) :
    Gates x' (Function.update location c point') lists := by
  have hdequeued : ∀ d g, Function.update location c point' d = .dequeued g ↔
      location d = .dequeued g := by
    intro d g
    by_cases hd : d = c
    · subst hd
      rw [Function.update_self]
      exact hpoint g
    · rw [Function.update_of_ne hd]
  refine ⟨hqueue ▸ hgates.holds, ?_, ?_, ?_, ?_⟩
  · intro d g
    rw [hmarker, hgates.marker, Marks, Marks, hhandler, hdequeued]
  · intro d g hmem
    rw [Ne, Ne, hhandler, hdequeued]
    exact hgates.apart d g hmem
  · rw [hinQueue, hmarker]
    exact hgates.inQueue
  · intro d hempty
    by_cases hd : d = c
    · subst hd
      rw [Function.update_self] at hempty
      exact hgates.empty d (hemptied hempty)
    · rw [Function.update_of_ne hd] at hempty
      exact hgates.empty d hempty

variable [DecidableEq γ]

omit [DecidableEq γ] in
theorem setHandler_queuing {x : Shared γ} {value : Handler γ}
    (hold : ∀ g, x.handler c ≠ .queuing g) (hnew : ∀ g, value ≠ .queuing g)
    (d : Cpu) (g : γ) :
    (x.setHandler c value).handler d = .queuing g ↔
      x.handler d = .queuing g := by
  by_cases hd : d = c
  · subst hd
    simp [Shared.setHandler, hold g, hnew g]
  · simp [Shared.setHandler, hd]

theorem Gates.dequeue {x : Shared γ} (hgates : Gates x location lists)
    (hidle : x.handler c = .idle) (hpoint : location c = .emptying)
    (hdequeue : x.queue.dequeue c = (some g, queue)) :
    ∃ rest, lists c = g :: rest ∧
      Gates { x with queue } (Function.update location c (.dequeued g))
        (Function.update lists c rest) := by
  cases hlist : lists c with
  | nil =>
      rw [hgates.holds.dequeue_nil hlist] at hdequeue
      cases hdequeue
  | cons item rest =>
      obtain ⟨qs', hresult, hholds⟩ := hgates.holds.dequeue hlist
      rw [hdequeue] at hresult
      cases hresult
      have hnodup := (hgates.holds.queue c).nodup
      rw [hlist, List.nodup_cons] at hnodup
      refine ⟨rest, rfl, hholds, ?_, ?_, hgates.inQueue, ?_⟩
      · intro d h
        rw [hgates.marker d h, Marks, Marks]
        by_cases hd : d = c
        · subst hd
          simp only [hlist, hidle, hpoint, Function.update_self, List.mem_cons,
            reduceCtorEq, false_or, or_false, Point.dequeued.injEq]
          rw [or_comm, eq_comm]
        · rw [Function.update_of_ne hd, Function.update_of_ne hd]
      · intro d h hmem
        by_cases hd : d = c
        · subst hd
          rw [Function.update_self] at hmem
          simp only [hidle, Function.update_self]
          refine ⟨by simp, fun hsame => ?_⟩
          cases hsame
          exact hnodup.1 hmem
        · rw [Function.update_of_ne hd] at hmem ⊢
          exact hgates.apart d h hmem
      · intro d hempty
        by_cases hd : d = c
        · subst hd
          rw [Function.update_self] at hempty
          cases hempty
        · rw [Function.update_of_ne hd] at hempty ⊢
          exact hgates.empty d hempty

theorem Gates.finished {x : Shared γ} (hgates : Gates x location lists)
    (hpoint : location c = .emptying)
    (hdequeue : x.queue.dequeue c = (none, queue)) :
    lists c = [] ∧
      Gates { x with queue } (Function.update location c .unlocking) lists := by
  cases hlist : lists c with
  | cons item rest =>
      obtain ⟨qs', hresult, -⟩ := hgates.holds.dequeue hlist
      rw [hdequeue] at hresult
      cases hresult
  | nil =>
      rw [hgates.holds.dequeue_nil hlist] at hdequeue
      cases hdequeue
      refine ⟨rfl, hgates.holds, ?_, ?_, hgates.inQueue, ?_⟩
      · intro d h
        rw [hgates.marker d h, Marks, Marks]
        by_cases hd : d = c
        · subst hd
          simp [hpoint]
        · rw [Function.update_of_ne hd]
      · intro d h hmem
        by_cases hd : d = c
        · subst hd
          rw [hlist] at hmem
          cases hmem
        · rw [Function.update_of_ne hd]
          exact hgates.apart d h hmem
      · intro d hempty
        by_cases hd : d = c
        · exact hd ▸ hlist
        · rw [Function.update_of_ne hd] at hempty
          exact hgates.empty d hempty

theorem Gates.clear {x : Shared γ} (hgates : Gates x location lists)
    (hidle : x.handler c = .idle) (hpoint : location c = .dequeued g) :
    Gates (x.setDequeued g) (Function.update location c (.released g))
      lists := by
  have hmarker : x.marker g = some c :=
    (hgates.marker c g).mpr (Or.inr (Or.inr hpoint))
  -- Nobody else has set the flag, and the gate is no longer linked.
  have hnone : ∀ d,
      ¬ Marks x (Function.update location c (.released g)) lists d g := by
    rintro d hmarks
    by_cases hd : d = c
    · subst hd
      rcases hmarks with hmem | hqueuing | hdequeued
      · exact (hgates.apart d g hmem).2 hpoint
      · rw [hidle] at hqueuing
        cases hqueuing
      · rw [Function.update_self] at hdequeued
        cases hdequeued
    · rw [Marks, Function.update_of_ne hd] at hmarks
      have hother := (hgates.marker d g).mpr hmarks
      rw [hmarker] at hother
      exact hd (Option.some.inj hother).symm
  refine ⟨hgates.holds, ?_, ?_, ?_, ?_⟩
  · intro d h
    by_cases hh : h = g
    · subst hh
      refine ⟨fun hmark => ?_, fun hmarks => absurd hmarks (hnone d)⟩
      simp [Shared.setDequeued] at hmark
    · simp only [Shared.setDequeued, Function.update_of_ne hh]
      rw [hgates.marker d h, Marks, Marks]
      by_cases hd : d = c
      · subst hd
        simp [hpoint, Ne.symm hh]
      · rw [Function.update_of_ne hd]
  · intro d h hmem
    refine ⟨(hgates.apart d h hmem).1, ?_⟩
    by_cases hd : d = c
    · subst hd
      rw [Function.update_self]
      simp
    · rw [Function.update_of_ne hd]
      exact (hgates.apart d h hmem).2
  · intro h
    by_cases hh : h = g
    · subst hh
      simp [Shared.setDequeued]
    · simp only [Shared.setDequeued, Function.update_of_ne hh]
      exact hgates.inQueue h
  · intro d hempty
    by_cases hd : d = c
    · subst hd
      rw [Function.update_self] at hempty
      cases hempty
    · rw [Function.update_of_ne hd] at hempty
      exact hgates.empty d hempty

theorem Gates.mark {x : Shared γ} (hgates : Gates x location lists)
    (hflags : Flags x location) (hhandler : x.handler c = .marking g)
    (hunset : x.inQueue g = false) :
    Gates ((({ x with
        inQueue := Function.update x.inQueue g true
        marker := Function.update x.marker g (some c) }).setOwed
          c g true).setHandler c (.queuing g)) location lists := by
  have hnone : x.marker g = none := by
    rw [hgates.inQueue] at hunset
    simpa using hunset
  have hfree : ∀ d, ¬ Marks x location lists d g := by
    intro d hmarks
    have hmarked := (hgates.marker d g).mpr hmarks
    rw [hnone] at hmarked
    cases hmarked
  have hinterruptible := (hflags c).handling (by simp [hhandler])
  have hdequeued : ∀ h, location c ≠ .dequeued h := by
    intro h hpoint
    rw [hpoint] at hinterruptible
    cases hinterruptible
  refine ⟨hgates.holds, ?_, ?_, ?_, hgates.empty⟩
  · intro d h
    simp only [Shared.setHandler, Shared.setOwed, Marks]
    by_cases hh : h = g
    · subst hh
      rw [Function.update_self, Option.some_inj]
      by_cases hd : d = c
      · subst hd
        simp
      · rw [Function.update_of_ne hd]
        exact ⟨fun heq => absurd heq.symm hd, fun hmarks =>
          absurd hmarks (hfree d)⟩
    · rw [Function.update_of_ne hh, hgates.marker d h, Marks]
      by_cases hd : d = c
      · subst hd
        simp [hhandler, Ne.symm hh]
      · rw [Function.update_of_ne hd]
  · intro d h hmem
    refine ⟨?_, (hgates.apart d h hmem).2⟩
    by_cases hd : d = c
    · subst hd
      simp only [Shared.setHandler, Function.update_self]
      rintro ⟨⟩
      exact hfree d (Or.inl hmem)
    · simp only [Shared.setHandler, Shared.setOwed, Function.update_of_ne hd]
      exact (hgates.apart d h hmem).1
  · intro h
    by_cases hh : h = g
    · subst hh
      simp [Shared.setHandler, Shared.setOwed]
    · simp only [Shared.setHandler, Shared.setOwed, Function.update_of_ne hh]
      exact hgates.inQueue h

theorem Gates.enqueue {x : Shared γ} (hgates : Gates x location lists)
    (hflags : Flags x location) (hhandler : x.handler c = .queuing g) :
    Gates (({ x with queue := x.queue.enqueue c g }).setHandler c .returning)
      location (Function.update lists c (lists c ++ [g])) := by
  have hmarker : x.marker g = some c :=
    (hgates.marker c g).mpr (Or.inr (Or.inl hhandler))
  have hfresh : ∀ d, g ∉ lists d := by
    intro d hmem
    have hother := (hgates.marker d g).mpr (Or.inl hmem)
    rw [hmarker] at hother
    cases hother
    exact (hgates.apart c g hmem).1 hhandler
  have hinterruptible := (hflags c).handling (by simp [hhandler])
  have hlevel := (hflags c).marking g (Or.inr hhandler)
  rw [(hflags c).inEpilogue] at hlevel
  refine ⟨hgates.holds.enqueue hfresh, ?_, ?_, hgates.inQueue, ?_⟩
  · intro d h
    simp only [Shared.setHandler]
    rw [hgates.marker d h, Marks, Marks]
    by_cases hd : d = c
    · subst hd
      simp only [hhandler, Function.update_self, List.mem_append,
        List.mem_singleton, reduceCtorEq, false_or, Handler.queuing.injEq]
      rw [or_assoc, eq_comm]
    · simp [hd]
  · intro d h hmem
    by_cases hd : d = c
    · subst hd
      refine ⟨by simp [Shared.setHandler], fun hpoint => ?_⟩
      rw [hpoint] at hinterruptible
      cases hinterruptible
    · rw [Function.update_of_ne hd] at hmem
      simpa [Shared.setHandler, hd] using hgates.apart d h hmem
  · intro d hempty
    by_cases hd : d = c
    · subst hd
      generalize location d = point at *
      cases point <;> simp_all [Point.emptied, Point.level, Point.interruptible]
    · rw [Function.update_of_ne hd]
      exact hgates.empty d hempty

theorem Gates.moves {x : Shared γ} (hgates : Gates x location lists)
    (hflags : Flags x location)
    (hmoves : Moves c x (location c) x' point') :
    ∃ lists', Gates x' (Function.update location c point') lists' := by
  generalize hpoint : location c = point at hmoves
  have hstay := Function.update_eq_self c location
  rw [hpoint] at hstay
  have hsame : ∀ d h, x.handler d = .queuing h ↔ x.handler d = .queuing h :=
    fun _ _ => Iff.rfl
  cases hmoves with
  | dequeue hidle hdequeue =>
      obtain ⟨rest, -, hgates'⟩ := hgates.dequeue hidle hpoint hdequeue
      exact ⟨_, hgates'⟩
  | empty hidle hdequeue => exact ⟨_, (hgates.finished hpoint hdequeue).2⟩
  | clear hidle => exact ⟨_, hgates.clear hidle hpoint⟩
  | mark hhandler hunset =>
      rw [hstay]
      exact ⟨_, hgates.mark hflags hhandler hunset⟩
  | queue hhandler =>
      rw [hstay]
      exact ⟨_, hgates.enqueue hflags hhandler⟩
  | nest hhandler hlevel =>
      have houtside := hflags.outside hhandler hlevel
      refine ⟨lists, hgates.frame rfl rfl rfl (setHandler_queuing
        (by simp [Shared.setOwed, hhandler]) (by simp)) ?_ ?_⟩
      · simp [houtside]
      · simp [houtside, Point.emptied]
  | spin =>
      rw [hstay]
      exact ⟨lists, hgates⟩
  | interrupt henabled =>
      refine ⟨lists, hgates.frame rfl rfl rfl (setHandler_queuing ?_ (by simp))
        (by simp [hpoint]) (by simp [hpoint])⟩
      simp [Shared.setInterrupts, ((hflags c).enabled henabled).1]
  | later hhandler | share hhandler | drop hhandler | finish hhandler =>
      refine ⟨lists, hgates.frame rfl rfl rfl (setHandler_queuing ?_ (by simp))
        (by simp [hpoint]) (by simp [hpoint])⟩
      simp [Shared.setInterrupts, Shared.setOwed, hhandler]
  | enter | set | enable | draw | acquire | acquireFor | call | leave | allow
  | read | store | reset | done | switchInt =>
      exact ⟨lists, hgates.frame rfl rfl rfl hsame (by simp [hpoint])
        (by simp [hpoint, Point.emptied])⟩

omit [DecidableEq γ] in
theorem Gates.start :
    Gates (.start : Shared γ) (fun _ => .outside) fun _ => [] where
  holds := ⟨fun _ => ⟨rfl, rfl, List.nodup_nil⟩, fun _ _ _ hmem => by cases hmem⟩
  marker c g := by simp [Shared.start, Marks]
  apart c g hmem := by cases hmem
  inQueue g := rfl
  empty c _ := rfl

variable [DecidableEq τ]

theorem State.Reachable.gates {s : State γ τ} (hreach : s.Reachable) :
    ∃ lists, Gates s.shared s.location lists := by
  refine hreach.keeps (fun x location => ∃ lists, Gates x location lists)
    ⟨_, .start⟩ ?_
  rintro x location c x' point' hflags ⟨lists, hgates⟩ hmoves
  exact hgates.moves hflags hmoves

/-- Every gate is linked at most once, in the queue of at most one processor,
and only while its flag is set, and the queue of a processor whose `in_epilogue`
is not set is empty. -/
theorem epilogue_queues {s : State γ τ} (hreach : s.Reachable) :
    ∃ lists, s.shared.queue.Holds lists ∧
      (∀ c, (lists c).Nodup) ∧
      (∀ c d g, g ∈ lists c → g ∈ lists d → c = d) ∧
      (∀ c g, g ∈ lists c → s.shared.inQueue g = true) ∧
      ∀ c, s.shared.inEpilogue c = false → lists c = [] := by
  obtain ⟨lists, hgates⟩ := hreach.gates
  obtain ⟨-, hflags⟩ := hreach.threads
  refine ⟨lists, hgates.holds, fun c => (hgates.holds.queue c).nodup,
    hgates.holds.apart, ?_, ?_⟩
  · intro c g hmem
    rw [hgates.inQueue, (hgates.marker c g).mpr (Or.inl hmem)]
    rfl
  · intro c hlevel
    refine hgates.empty c ?_
    rw [(hflags c).inEpilogue] at hlevel
    generalize s.location c = point at *
    cases point <;> simp_all [Point.emptied, Point.level]

/-- An epilogue waits on processor 0, where the threads were switched inside the
guard. -/
theorem epilogue_queues_switch :
    ∃ s : State Unit (Fin 9), s.Reachable ∧ s.current 0 = 8 ∧
      s.shared.queue.first 0 = some () ∧ s.shared.inQueue () = true := by
  have hrun : (Library.Runs.run State.step
      (State.start Fin.castSucc : State Unit (Fin 9))
      ([Event.act 0 .enter] ++ List.replicate 4 (Event.act 0 .advance) ++
        [Event.act 0 (.interrupt ())] ++
        List.replicate 4 (Event.act 0 .advance) ++
        [Event.dispatch 0 8])).any fun s =>
          s.current 0 = 8 ∧ s.shared.queue.first 0 = some () := by
    decide +kernel
  obtain ⟨s, hs, hcheck⟩ := (Option.any_eq_true _ _).mp hrun
  simp only [decide_eq_true_eq] at hcheck
  obtain ⟨hcurrent, hfirst⟩ := hcheck
  have hreach : s.Reachable := Library.Runs.Reachable.run
    (.start ⟨_, Fin.castSucc_injective 8, rfl⟩) hs
  obtain ⟨lists, hholds, -, -, hlinked, -⟩ := epilogue_queues hreach
  have hhead : (lists 0).head? = some () := by
    rw [← (hholds.queue 0).head_eq]
    exact hfirst
  exact ⟨s, hreach, hcurrent, hfirst,
    hlinked 0 () (List.mem_of_mem_head? hhead)⟩

end X86Os32.Guard
