import X86Os32.Library.Results
import X86Os32.Thread.Operations

namespace X86Os32.Scheduler

open Library Library.Results

/-! What the operations put on record: which threads were given to `ready`,
which were killed, and on which `Thread::~Thread` was called. -/

variable {σ : Type} {machine : Machine} {s s' : State σ} {cpu : Cpu}

namespace State

section Calls

variable [ThreadQueues σ] (s : State σ) (cpu : Cpu)

/-- The call of `Thread::~Thread` by an operation, if it makes one: on which
thread, and in which state. -/
def destroyCall : Event → Except Stop (Option (Address × State σ))
  | .exit => do
      let t ← deref (s.active cpu)
      return some (t, s)
  | .resume => do
      let prev ← deref (s.active cpu)
      if s.killed prev then return some (prev, s) else return none
  | .assassin served => do
      let rest := (s.assassin cpu).drop served
      let s := { s with assassin := Function.update s.assassin cpu rest }
      let active ← deref (s.active cpu)
      if s.killed active then return some (active, s) else return none
  | .kill that => do
      let s := { s with victim := Function.update s.victim that true }
      let (found, threads) ← ThreadQueues.remove s.threads .readyList that
      let s := { s with threads }
      if found.isSome then return some (that, s)
      else match s.waitingIn that with
        | some w => do
            let (_, threads) ← ThreadQueues.remove s.threads (.room w) that
            return some (that, { s with threads })
        | none =>
            let s := { s with killed := Function.update s.killed that true }
            if s.executing that = some cpu then return some (that, s)
            else return none
  | _ => return none

end Calls

structure SamePast (s s' : State σ) : Prop where
  readied : s'.readied = s.readied
  victim : s'.victim = s.victim
  destroyed : s'.destroyed = s.destroyed
  killed : s'.killed = s.killed

theorem SamePast.refl : SamePast s s := ⟨rfl, rfl, rfl, rfl⟩

theorem SamePast.trans {s'' : State σ} (hfirst : SamePast s s')
    (hnext : SamePast s' s'') : SamePast s s'' :=
  ⟨hnext.readied.trans hfirst.readied, hnext.victim.trans hfirst.victim,
    hnext.destroyed.trans hfirst.destroyed,
    hnext.killed.trans hfirst.killed⟩

/-- The operation puts nothing on record, if it comes back. -/
abbrev Unrecorded (s : State σ) (result : Except Stop (State σ)) : Prop :=
  Outcome (fun _ => True) (SamePast s) result

abbrev UnrecordedWith (s : State σ) (result : Except Stop (α × State σ)) :
    Prop :=
  Outcome (fun _ => True) (fun x => SamePast s x.2) result

def record (table : Address → Bool) (entry : Option Address) :
    Address → Bool :=
  entry.elim table fun t => Function.update table t true

/-- What an operation puts on record. -/
structure Records (s : State σ) (event : Event)
    (call : Option (Address × State σ)) (s' : State σ) : Prop where
  readied : s'.readied = record s.readied event.readies
  victim : s'.victim = record s.victim event.kills
  destroyed : s'.destroyed = record s.destroyed (call.map Prod.fst)
  killed : ∀ t, s'.killed t = true →
    s.killed t = true ∨ event.kills = some t

theorem flag_kept {event : Event} (hsame : s'.killed = s.killed) (t : Address)
    (hkilled : s'.killed t = true) :
    s.killed t = true ∨ event.kills = some t := by
  rw [hsame] at hkilled
  exact Or.inl hkilled

theorem flag_set {that : Address}
    (hset : s'.killed = Function.update s.killed that true) (t : Address)
    (hkilled : s'.killed t = true) :
    s.killed t = true ∨ (Event.kill that).kills = some t := by
  by_cases heq : t = that
  · exact Or.inr (by rw [heq]; rfl)
  · rw [hset, Function.update_of_ne heq] at hkilled
    exact Or.inl hkilled

theorem Unrecorded.records {result : Except Stop (State σ)} {event : Event}
    (hresult : Unrecorded s result) (hreadies : event.readies = none)
    (hkills : event.kills = none) :
    Outcome (fun _ => True) (Records s event none) result :=
  hresult.mono fun _ hsame =>
    ⟨by rw [hreadies]; exact hsame.1, by rw [hkills]; exact hsame.2, hsame.3,
      flag_kept hsame.4⟩

theorem takeOwnership_past (m : Address) :
    Unrecorded s (s.takeOwnership cpu m) :=
  (Outcome.any _).bind fun _ _ => ⟨rfl, rfl, rfl, rfl⟩

/-! ### The delta list -/

theorem inherit_past (b : Bell) : Unrecorded s (s.inherit b) := by
  unfold State.inherit
  split
  · exact .refl
  · exact (Outcome.any _).bind fun _ _ => ⟨rfl, rfl, rfl, rfl⟩

theorem cancel_past (b : Bell) : Unrecorded s (s.cancel b) :=
  (Outcome.any _).bind fun _ _ => (inherit_past b).bind fun _ hsame =>
    (Outcome.any _).bind fun _ _ => ⟨hsame.1, hsame.2, hsame.3, hsame.4⟩

theorem jobFrom_past (prev : Option Bell) (ms fuel : Nat) (b : Option Bell) :
    UnrecordedWith s (s.jobFrom prev ms fuel b) := by
  induction fuel generalizing prev ms b with
  | zero =>
      cases b with
      | none => exact .refl
      | some b => trivial
  | succ fuel ih =>
      cases b with
      | none => exact .refl
      | some b =>
          refine (Outcome.any _).bind fun _ _ => ?_
          split
          · exact ⟨rfl, rfl, rfl, rfl⟩
          · exact ih _ _ _

theorem job_past (b : Bell) (ms : Nat) : Unrecorded s (s.job b ms) := by
  refine (jobFrom_past _ _ _ _).bind fun ⟨⟨prev, _⟩, s'⟩ hsame => ?_
  cases prev with
  | none => exact ⟨hsame.1, hsame.2, hsame.3, hsame.4⟩
  | some prev =>
      exact (Outcome.any _).bind fun _ _ => ⟨hsame.1, hsame.2, hsame.3, hsame.4⟩

/-! ### Threads -/

variable [ThreadQueues σ]

theorem ready_past (t : Address) : Unrecorded s (s.ready t) :=
  (Outcome.any _).bind fun _ _ => ⟨rfl, rfl, rfl, rfl⟩

theorem wakeup_past (t : Address) : Unrecorded s (s.wakeup t) :=
  (Outcome.any _).bind fun _ _ => (Outcome.any _).bind fun _ _ =>
    (ready_past t).mono fun _ hsame => ⟨hsame.1, hsame.2, hsame.3, hsame.4⟩

theorem v_past (w : Room) : Unrecorded s (s.v w) := by
  refine (Outcome.any _).bind fun ⟨t, threads⟩ _ => ?_
  cases t with
  | none => exact ⟨rfl, rfl, rfl, rfl⟩
  | some t =>
      exact (wakeup_past t).mono fun _ hsame =>
        ⟨hsame.1, hsame.2, hsame.3, hsame.4⟩

theorem unlock_past (m : Address) : UnrecordedWith s (s.unlock m) := by
  refine (Outcome.any _).bind fun t _ => ?_
  have hrelease : UnrecordedWith s (s.mutexRelease t m) :=
    (Outcome.any _).bind fun _ _ => ⟨rfl, rfl, rfl, rfl⟩
  refine hrelease.bind fun ⟨ret, s'⟩ hsame => ?_
  refine (v_past (.mutex m)).bind fun s'' hsame' => ?_
  exact hsame.trans ⟨hsame'.1, hsame'.2, hsame'.3, hsame'.4⟩

theorem mutexReleaseFrom_past (ret : Bool) (fuel : Nat)
    (current : Option Address) :
    UnrecordedWith s (s.mutexReleaseFrom ret fuel current) := by
  induction fuel generalizing s ret current with
  | zero =>
      cases current with
      | none => exact .refl
      | some m => trivial
  | succ fuel ih =>
      cases current with
      | none => exact .refl
      | some m =>
          refine (unlock_past m).bind fun ⟨released, s'⟩ hsame => ?_
          exact (ih _ _).mono fun _ => hsame.trans

theorem destroy_past (t : Address) :
    Unrecorded { s with destroyed := Function.update s.destroyed t true }
      (s.destroy t) :=
  (mutexReleaseFrom_past _ _ _).bind fun _ hsame => hsame

theorem destroyRoom_past (w : Room) : Unrecorded s (s.destroyRoom w) := by
  unfold destroyRoom
  split
  · exact .refl
  · trivial

theorem continueThread_past (next : Address) :
    Unrecorded s (s.continueThread cpu next) := by
  unfold continueThread
  dsimp only
  split
  · exact .refl
  · exact (takeOwnership_past _).mono fun _ hsame =>
      ⟨hsame.1, hsame.2, hsame.3, hsame.4⟩
  · exact (destroyRoom_past _).mono fun _ hsame =>
      ⟨hsame.1, hsame.2, hsame.3, hsame.4⟩

theorem nextThread_past : UnrecordedWith s (s.nextThread machine cpu) := by
  unfold nextThread
  split
  · exact .refl
  · exact (Outcome.any _).bind fun _ _ => (Outcome.any _).bind fun _ _ =>
      ⟨rfl, rfl, rfl, rfl⟩

theorem dispatchNext_past : Unrecorded s (s.dispatchNext machine cpu) := by
  refine nextThread_past.bind fun ⟨next, s'⟩ hsame => ?_
  refine (Outcome.any _).bind fun _ _ => ?_
  exact (continueThread_past next).mono fun _ hsame' =>
    hsame.trans ⟨hsame'.1, hsame'.2, hsame'.3, hsame'.4⟩

theorem schedule_past : Unrecorded s (s.schedule machine cpu) := by
  refine nextThread_past.bind fun ⟨next, s'⟩ hsame => ?_
  exact (continueThread_past next).mono fun _ hsame' =>
    hsame.trans ⟨hsame'.1, hsame'.2, hsame'.3, hsame'.4⟩

theorem block_past (w : Room) : Unrecorded s (s.block machine cpu w) :=
  (Outcome.any _).bind fun _ _ => (Outcome.any _).bind fun _ _ =>
    dispatchNext_past.mono fun _ hsame => ⟨hsame.1, hsame.2, hsame.3, hsame.4⟩

theorem p_past (w : Room) : UnrecordedWith s (s.p machine cpu w) := by
  unfold p
  split
  · exact ⟨rfl, rfl, rfl, rfl⟩
  · exact (block_past w).bind fun _ hsame => hsame

theorem lock_past (m : Address) : Unrecorded s (s.lock machine cpu m) := by
  refine (p_past _).bind fun ⟨granted, s'⟩ hsame => ?_
  dsimp only
  split
  · exact (takeOwnership_past m).mono fun _ => hsame.trans
  · exact hsame

/-! ### Bells -/

theorem ringFrom_past (b : Bell) (fuel : Nat) :
    Unrecorded s (s.ringFrom b fuel) := by
  induction fuel generalizing s with
  | zero => trivial
  | succ fuel ih =>
      refine (Outcome.any _).bind fun ⟨t, threads⟩ _ => ?_
      cases t with
      | none => exact ⟨rfl, rfl, rfl, rfl⟩
      | some t =>
          have hwake := wakeup_past (s := { s with threads }) t
          refine hwake.bind fun s' hsame =>
            (ih (s := s')).mono fun _ hsame' => ?_
          exact ⟨hsame'.1.trans hsame.1, hsame'.2.trans hsame.2,
            hsame'.3.trans hsame.3, hsame'.4.trans hsame.4⟩

theorem ring_past (b : Bell) : Unrecorded s (s.ring b) :=
  (Outcome.any _).bind fun _ _ => ringFrom_past b _

theorem checkFrom_past (fuel : Nat) (first : Bell) :
    Unrecorded s (s.checkFrom fuel first) := by
  induction fuel generalizing s first with
  | zero => trivial
  | succ fuel ih =>
      refine (ring_past first).bind fun s' hsame => ?_
      refine (cancel_past first).bind fun s'' hsame' => ?_
      split
      · exact hsame.trans hsame'
      · refine (Outcome.any _).bind fun _ _ => ?_
        split
        · exact (ih _).mono fun _ => (hsame.trans hsame').trans
        · exact hsame.trans hsame'

theorem check_past : Unrecorded s s.check := by
  unfold check
  split
  · exact .refl
  · refine (Outcome.any _).bind fun _ _ => ?_
    dsimp only
    split
    · exact (checkFrom_past _ _).mono fun _ hsame =>
        ⟨hsame.1, hsame.2, hsame.3, hsame.4⟩
    · exact ⟨rfl, rfl, rfl, rfl⟩

theorem sleep_past (ms : Nat) (frame : Address) :
    Unrecorded s (s.sleep machine cpu ms frame) := by
  unfold sleep
  split
  · exact .refl
  · refine (Outcome.any _).bind fun t _ => ?_
    refine (job_past _ ms).bind fun s' hsame => ?_
    exact (block_past _).mono fun _ hsame' =>
      ⟨hsame'.1.trans hsame.1, hsame'.2.trans hsame.2,
        hsame'.3.trans hsame.3, hsame'.4.trans hsame.4⟩

/-! ### All of them -/

theorem destroyCall_ok {event : Event}
    (hdone : s.exec machine cpu event = .ok s') :
    ∃ call, s.destroyCall cpu event = .ok call := by
  cases event with
  | exit =>
      obtain ⟨t, hactive, -⟩ := bind_eq_ok.mp hdone
      exact ⟨some (t, s), bind_eq_ok.mpr ⟨t, hactive, rfl⟩⟩
  | resume =>
      obtain ⟨t, hactive, -⟩ := bind_eq_ok.mp hdone
      refine ⟨if s.killed t then some (t, s) else none,
        bind_eq_ok.mpr ⟨t, hactive, ?_⟩⟩
      split <;> rfl
  | assassin served =>
      obtain ⟨t, hactive, -⟩ := bind_eq_ok.mp hdone
      unfold destroyCall
      dsimp only
      rw [hactive, ok_bind]
      split <;> exact ⟨_, rfl⟩
  | kill that =>
      obtain ⟨⟨found, threads⟩, hremove, hdone⟩ := bind_eq_ok.mp hdone
      unfold destroyCall
      dsimp only at hremove hdone ⊢
      rw [hremove, ok_bind]
      dsimp only
      split at hdone
      · next hfound =>
        rw [if_pos hfound]
        exact ⟨_, rfl⟩
      · next hfound =>
        rw [if_neg hfound]
        cases hwaiting : s.waitingIn that with
        | some w =>
            rw [hwaiting] at hdone
            obtain ⟨⟨found, threads'⟩, hremove', -⟩ := bind_eq_ok.mp hdone
            dsimp only at hremove' ⊢
            rw [hremove']
            exact ⟨_, rfl⟩
        | none =>
            dsimp only
            split <;> exact ⟨_, rfl⟩
  | _ => exact ⟨none, rfl⟩

/-- The operation goes on with the destructor of the thread, and switches to the next
one if the thread ran here. -/
def GoesOn (machine : Machine) (cpu : Cpu) (t : Address) (middle : State σ)
    (result : Except Stop (State σ)) : Prop :=
  result = middle.destroy t ∨
    result = (middle.destroy t >>= fun s => s.dispatchNext machine cpu)

theorem kill_goesOn (machine : Machine) {that t : Address} {middle : State σ}
    (hcall : s.destroyCall cpu (.kill that) = .ok (some (t, middle))) :
    GoesOn machine cpu t middle (s.exec machine cpu (.kill that)) ∧
      Records s (.kill that) none middle := by
  obtain ⟨⟨found, threads⟩, hremove, hcall⟩ := bind_eq_ok.mp hcall
  unfold exec kill
  dsimp only at hremove hcall ⊢
  rw [hremove, ok_bind]
  dsimp only
  split at hcall
  · next hfound =>
    cases hcall
    rw [if_pos hfound]
    exact ⟨.inl rfl, rfl, rfl, rfl, flag_kept rfl⟩
  · next hfound =>
    rw [if_neg hfound]
    cases hwaiting : s.waitingIn that with
    | some w =>
        rw [hwaiting] at hcall
        obtain ⟨⟨found, threads'⟩, hremove', hcall⟩ := bind_eq_ok.mp hcall
        cases hcall
        dsimp only at hremove' ⊢
        rw [hremove', ok_bind]
        exact ⟨.inl rfl, rfl, rfl, rfl, flag_kept rfl⟩
    | none =>
        rw [hwaiting] at hcall
        dsimp only at hcall ⊢
        split at hcall
        · next hself =>
          cases hcall
          rw [hself]
          dsimp only
          rw [if_pos rfl]
          exact ⟨.inr rfl, rfl, rfl, rfl, flag_set rfl⟩
        · cases hcall

/-- From its call of the destructor on, an operation does nothing else, and before it
nothing but what it puts on record. -/
theorem destroyCall_exec (machine : Machine) {event : Event} {t : Address}
    {middle : State σ}
    (hcall : s.destroyCall cpu event = .ok (some (t, middle))) :
    GoesOn machine cpu t middle (s.exec machine cpu event) ∧
      Records s event none middle := by
  cases event with
  | exit =>
      obtain ⟨u, hactive, hcall⟩ := bind_eq_ok.mp hcall
      cases hcall
      refine ⟨.inr ?_, rfl, rfl, rfl, flag_kept rfl⟩
      unfold exec State.exit
      dsimp only
      rw [hactive, ok_bind]
  | resume =>
      obtain ⟨prev, hactive, hcall⟩ := bind_eq_ok.mp hcall
      split at hcall
      · next hkilled =>
        cases hcall
        refine ⟨.inr ?_, rfl, rfl, rfl, flag_kept rfl⟩
        unfold exec resume putBack
        dsimp only
        rw [hactive, ok_bind, if_pos hkilled]
      · cases hcall
  | assassin served =>
      obtain ⟨active, hactive, hcall⟩ := bind_eq_ok.mp hcall
      split at hcall
      · next hkilled =>
        cases hcall
        refine ⟨.inr ?_, rfl, rfl, rfl, flag_kept rfl⟩
        unfold exec assassinEpilogue State.exit
        dsimp only
        rw [hactive, ok_bind, if_pos hkilled, ok_bind]
      · cases hcall
  | kill that => exact kill_goesOn machine hcall
  | _ => cases hcall

theorem destroyCall_kill {that t : Address} {middle : State σ}
    (hcall : s.destroyCall cpu (.kill that) = .ok (some (t, middle))) :
    that = t := by
  obtain ⟨⟨found, threads⟩, -, hcall⟩ := bind_eq_ok.mp hcall
  dsimp only at hcall
  split at hcall
  · exact (Prod.mk.inj (Option.some.inj (Except.ok.inj hcall))).1
  · split at hcall
    · obtain ⟨⟨found, threads⟩, -, hcall⟩ := bind_eq_ok.mp hcall
      exact (Prod.mk.inj (Option.some.inj (Except.ok.inj hcall))).1
    · split at hcall
      · exact (Prod.mk.inj (Option.some.inj (Except.ok.inj hcall))).1
      · cases hcall

/-- A thread is destroyed because it exits, or is killed, or has been. -/
theorem destroyCall_cases {event : Event} {t : Address} {middle : State σ}
    (hcall : s.destroyCall cpu event = .ok (some (t, middle))) :
    (event = .exit ∧ s.life cpu = some t) ∨ s.killed t = true ∨
      event.kills = some t := by
  cases event with
  | exit =>
      obtain ⟨u, hactive, hcall⟩ := bind_eq_ok.mp hcall
      obtain ⟨rfl, -⟩ := Prod.mk.inj (Option.some.inj (Except.ok.inj hcall))
      exact Or.inl ⟨rfl, deref_eq_ok.mp hactive⟩
  | resume =>
      obtain ⟨u, -, hcall⟩ := bind_eq_ok.mp hcall
      split at hcall
      · next hkilled =>
        obtain ⟨rfl, -⟩ := Prod.mk.inj (Option.some.inj (Except.ok.inj hcall))
        exact Or.inr (Or.inl hkilled)
      · cases hcall
  | assassin served =>
      obtain ⟨u, -, hcall⟩ := bind_eq_ok.mp hcall
      split at hcall
      · next hkilled =>
        obtain ⟨rfl, -⟩ := Prod.mk.inj (Option.some.inj (Except.ok.inj hcall))
        exact Or.inr (Or.inl hkilled)
      · cases hcall
  | kill that =>
      obtain rfl := destroyCall_kill hcall
      exact Or.inr (Or.inr rfl)
  | _ => cases hcall

theorem GoesOn.records {event : Event} {t : Address} {middle : State σ}
    {result : Except Stop (State σ)} (hgoes : GoesOn machine cpu t middle result)
    (hmiddle : Records s event none middle) :
    Outcome (fun _ => True) (Records s event (some (t, middle))) result := by
  have hrecords (s' : State σ)
      (hsame : SamePast
        { middle with destroyed := Function.update middle.destroyed t true } s') :
      Records s event (some (t, middle)) s' := by
    refine ⟨hsame.readied.trans hmiddle.readied, hsame.victim.trans hmiddle.victim,
      ?_, fun u hkilled => hmiddle.killed u ?_⟩
    · rw [hsame.destroyed, hmiddle.destroyed]
      rfl
    · rwa [hsame.killed] at hkilled
  rcases hgoes with rfl | rfl
  · exact (destroy_past t).mono hrecords
  · refine (destroy_past t).bind fun u hdestroyed => ?_
    exact dispatchNext_past.mono fun v hdispatched =>
      hrecords v (hdestroyed.trans hdispatched)

theorem resume_records (hcall : s.destroyCall cpu .resume = .ok none) :
    Outcome (fun _ => True) (Records s .resume none) (s.resume machine cpu) := by
  obtain ⟨prev, hactive, hcall⟩ := bind_eq_ok.mp hcall
  unfold resume putBack
  rw [hactive, ok_bind]
  split at hcall
  · cases hcall
  · next hkilled =>
    rw [if_neg hkilled]
    have hput : Unrecorded s (if prev ≠ machine.idlethread cpu then do
          let threads ← ThreadQueues.enqueue s.threads .readyList prev
          return { s with threads }
        else .ok s) := by
      split
      · exact (Outcome.any _).bind fun _ _ => ⟨rfl, rfl, rfl, rfl⟩
      · exact .refl
    refine Unrecorded.records ?_ rfl rfl
    exact hput.bind fun _ hsame => dispatchNext_past.mono fun _ => hsame.trans

theorem assassin_records {served : Nat}
    (hcall : s.destroyCall cpu (.assassin served) = .ok none) :
    Outcome (fun _ => True) (Records s (.assassin served) none)
      (s.assassinEpilogue machine cpu served) := by
  obtain ⟨active, hactive, hcall⟩ := bind_eq_ok.mp hcall
  unfold assassinEpilogue
  dsimp only
  rw [hactive, ok_bind]
  split at hcall
  · cases hcall
  · next hkilled =>
    rw [if_neg hkilled]
    exact ⟨rfl, rfl, rfl, flag_kept rfl⟩

theorem kill_records {that : Address}
    (hcall : s.destroyCall cpu (.kill that) = .ok none) :
    Outcome (fun _ => True) (Records s (.kill that) none)
      (s.exec machine cpu (.kill that)) := by
  obtain ⟨⟨found, threads⟩, hremove, hcall⟩ := bind_eq_ok.mp hcall
  unfold exec kill
  dsimp only at hremove hcall ⊢
  rw [hremove, ok_bind]
  dsimp only
  split at hcall
  · cases hcall
  · next hfound =>
    rw [if_neg hfound]
    cases hwaiting : s.waitingIn that with
    | some w =>
        rw [hwaiting] at hcall
        obtain ⟨_, -, hcall⟩ := bind_eq_ok.mp hcall
        cases hcall
    | none =>
        rw [hwaiting] at hcall
        dsimp only at hcall ⊢
        split at hcall
        · cases hcall
        · next hself =>
          split
          · exact ⟨rfl, rfl, rfl, flag_set rfl⟩
          · next dest hdest =>
            rw [hdest, Option.some.injEq] at hself
            rw [if_neg hself]
            exact ⟨rfl, rfl, rfl, flag_set rfl⟩

/-- Every operation puts on record what it does. -/
theorem exec_records (machine : Machine) {event : Event}
    {call : Option (Address × State σ)}
    (hcall : s.destroyCall cpu event = .ok call) :
    Outcome (fun _ => True) (Records s event call)
      (s.exec machine cpu event) := by
  rcases call with - | ⟨t, middle⟩
  case some =>
    obtain ⟨hgoes, hmiddle⟩ := destroyCall_exec machine hcall
    exact hgoes.records hmiddle
  cases event with
  | exit =>
      obtain ⟨t, -, hcall⟩ := bind_eq_ok.mp hcall
      cases hcall
  | resume => exact resume_records hcall
  | assassin served => exact assassin_records hcall
  | kill that => exact kill_records hcall
  | ready that =>
      exact (ready_past that).mono fun _ hsame =>
        ⟨hsame.readied, hsame.victim, hsame.destroyed, flag_kept hsame.killed⟩
  | schedule =>
      exact schedule_past.records rfl rfl
  | block w =>
      exact (block_past w).records rfl rfl
  | wakeup customer =>
      exact (wakeup_past customer).records rfl rfl
  | p a =>
      have hdone : Unrecorded s (s.exec machine cpu (.p a)) :=
        (p_past _).bind fun _ hsame => hsame
      exact hdone.records rfl rfl
  | v a =>
      exact (v_past _).records rfl rfl
  | ring b =>
      exact (ring_past b).records rfl rfl
  | lock m =>
      exact (lock_past m).records rfl rfl
  | unlock m =>
      have hdone : Unrecorded s (s.exec machine cpu (.unlock m)) :=
        (unlock_past m).bind fun _ hsame => hsame
      exact hdone.records rfl rfl
  | sleep ms frame =>
      exact (sleep_past ms frame).records rfl rfl
  | check =>
      exact check_past.records rfl rfl
  | dropAssassins count =>
      exact ⟨rfl, rfl, rfl, flag_kept rfl⟩

end State

end X86Os32.Scheduler
