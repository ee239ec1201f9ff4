import Mathlib.Logic.Relation
import X86Os32.Library.Runs
import X86Os32.Machine.Toc

namespace X86Os32

open Library Library.Processor Library.AddressSpace

/-! What the threads see of the switches between them, on any number of
processors: `Thread::go`, `Thread::resume` and `thread/dispatcher.cc`. -/

namespace ContextSwitch

/-- Where the threads have their `regs` and their stacks. Of a stack only the part
counts that no other thread writes to. -/
structure Layout (T : Type) where
  toc : T → UInt32
  stack : T → UInt32 → Prop
  toc_not_stack : ∀ t a, Words (toc t) Toc.places a → ¬stack t a
  disjoint : ∀ t t' a, t ≠ t' → Words (toc t) Toc.places a ∨ stack t a →
    ¬(Words (toc t') Toc.places a ∨ stack t' a)

variable {P T : Type}

def Layout.Owns (L : Layout T) (t : T) (a : UInt32) : Prop :=
  Words (L.toc t) Toc.places a ∨ L.stack t a

/-- The processors, the memory that they share, and `Dispatcher::life`. -/
structure System (P T : Type) where
  regs : P → Reg → UInt32
  memory : AddressSpace
  life : P → Option T

def System.Idle (s : System P T) (t : T) : Prop := ∀ p, s.life p ≠ some t

def go (L : Layout T) (first : T) (back : UInt32) (p : Processor) : Processor :=
  (p.call [L.toc first] back).run Toc.tocGo

def resume (L : Layout T) (t next : T) (back : UInt32) (p : Processor) : Processor :=
  (p.call [L.toc t, L.toc next] back).run Toc.tocSwitch

section Dispatcher

variable [DecidableEq P]

/-- `Dispatcher::set_active`, and the thread operation on that processor. -/
def System.switch (s : System P T) (p : P) (next : T)
    (operation : Processor → Processor) : System P T :=
  let q := operation ⟨s.regs p, s.memory⟩
  { regs := Function.update s.regs p q.regs
    memory := q.memory
    life := Function.update s.life p (some next) }

theorem System.switch_regs (s : System P T) (p : P) (next : T)
    (operation : Processor → Processor) :
    (s.switch p next operation).regs p = (operation ⟨s.regs p, s.memory⟩).regs :=
  Function.update_self ..

theorem System.switch_memory (s : System P T) (p : P) (next : T)
    (operation : Processor → Processor) :
    (s.switch p next operation).memory = (operation ⟨s.regs p, s.memory⟩).memory := rfl

theorem System.switch_life (s : System P T) (p : P) (next : T)
    (operation : Processor → Processor) (p' : P) :
    (s.switch p next operation).life p' = if p' = p then some next else s.life p' :=
  Function.update_apply ..

def System.go (L : Layout T) (s : System P T) (p : P) (first : T) (back : UInt32) :
    System P T :=
  s.switch p first (ContextSwitch.go L first back)

/-- `Dispatcher::dispatch`, where `prev` is the active thread. -/
def System.dispatch (L : Layout T) (s : System P T) (p : P) (prev next : T)
    (back : UInt32) : System P T :=
  s.switch p next (resume L prev next back)

/-- The constructor of `Thread` settles the new thread. -/
def System.settle (L : Layout T) (s : System P T) (t : T)
    (tos kickoff fail object : UInt32) : System P T :=
  { s with memory := Toc.tocSettle s.memory (L.toc t) tos kickoff fail object }

end Dispatcher

inductive Event (P T : Type)
  /-- The processor runs anything else. -/
  | compute (p : P)
  | go (p : P) (first : T) (back : UInt32)
  | dispatch (p : P) (next : T) (back : UInt32)
  | settle (t : T) (tos kickoff fail object : UInt32)

def Event.Starts (t : T) (p : P) : Event P T → Prop
  | .compute _ => False
  | .go p' first _ => p' = p ∧ first = t
  | .dispatch p' next _ => p' = p ∧ next = t
  | .settle .. => False

def Event.Settles (t : T) : Event P T → Prop
  | .settle t' .. => t' = t
  | _ => False

/-- A thread only runs on one processor at a time. What a processor does between
two switches leaves alone what idle threads own, and there is room on the stack
for the calls. -/
inductive Step [DecidableEq P] (L : Layout T) :
    System P T → Event P T → System P T → Prop
  | compute {s s' : System P T} {p : P} (hlife : s'.life = s.life)
      (hregs : ∀ p', p' ≠ p → s'.regs p' = s.regs p')
      (howned : ∀ t a, s.Idle t → L.Owns t a → s'.memory a = s.memory a) :
      Step L s (.compute p) s'
  | go {s : System P T} {p : P} {first : T} {back : UInt32} (hlife : s.life p = none)
      (hidle : s.Idle first)
      (hroom : ∀ t a, s.Idle t → Words (s.regs p .esp - 8) [4, 0] a → ¬L.Owns t a) :
      Step L s (.go p first back) (s.go L p first back)
  | dispatch {s : System P T} {p : P} {prev next : T} {back : UInt32}
      (hlife : s.life p = some prev) (hidle : ∀ p', p' ≠ p → s.life p' ≠ some next)
      (hroom : ∀ a, Words (s.regs p .esp - 12) Toc.frame a → L.stack prev a) :
      Step L s (.dispatch p next back) (s.dispatch L p prev next back)
  | settle {s : System P T} {t : T} {tos kickoff fail object : UInt32}
      (hidle : s.Idle t) (hroom : ∀ a, Words (tos - 8) Toc.frame a → L.stack t a) :
      Step L s (.settle t tos kickoff fail object)
        (s.settle L t tos kickoff fail object)

section Switches

variable [DecidableEq P] {L : Layout T} {s s' : System P T} {p q : P} {t : T}

theorem Layout.toc_unowned {t t' : T} {a : UInt32} (hne : t ≠ t') (ha : L.Owns t a) :
    ¬Words (L.toc t') Toc.places a :=
  fun htoc => L.disjoint t t' a hne ha (.inl htoc)

theorem Layout.stack_unowned {t t' : T} {a : UInt32} (hne : t ≠ t')
    (ha : L.Owns t a) : ¬L.stack t' a :=
  fun hstack => L.disjoint t t' a hne ha (.inr hstack)

omit [DecidableEq P] in
theorem resume_eq {prev next : T} (back : UInt32)
    (hroom : ∀ a, Words (s.regs p .esp - 12) Toc.frame a → L.stack prev a) :
    resume L prev next back ⟨s.regs p, s.memory⟩ =
      (let q := Processor.call ⟨s.regs p, s.memory⟩ [L.toc prev, L.toc next] back
       let m := Toc.saved q.memory (L.toc prev) q.regs
       ⟨Toc.loaded m (L.toc next) q.regs, m⟩) :=
  Toc.run_call_tocSwitch _ _ _ _ fun a ha htoc =>
    L.toc_not_stack prev a htoc (hroom a ha)

/-- A switch only writes to its frame and to the `regs` of the thread that it
leaves. -/
theorem dispatch_memory {prev next : T} {back a : UInt32}
    (hroom : ∀ a, Words (s.regs p .esp - 12) Toc.frame a → L.stack prev a)
    (hframe : ¬Words (s.regs p .esp - 12) Toc.frame a)
    (htoc : ¬Words (L.toc prev) Toc.places a) :
    (s.dispatch L p prev next back).memory a = s.memory a := by
  calc (s.dispatch L p prev next back).memory a
      = (resume L prev next back ⟨s.regs p, s.memory⟩).memory a := by
        rw [System.dispatch, System.switch_memory]
    _ = Toc.saved _ (L.toc prev) _ a := by rw [resume_eq back hroom]
    _ = (Processor.call ⟨s.regs p, s.memory⟩ [L.toc prev, L.toc next] back).memory a :=
      Toc.saved_of_not_places _ _ htoc
    _ = s.memory a := by
      rw [Toc.call_switch_memory]
      exact s.memory.stores_of_not_words hframe

theorem go_memory {first : T} {back a : UInt32}
    (hframe : ¬Words (s.regs p .esp - 8) [4, 0] a) :
    (s.go L p first back).memory a = s.memory a := by
  calc (s.go L p first back).memory a
      = (go L first back ⟨s.regs p, s.memory⟩).memory a := by
        rw [System.go, System.switch_memory]
    _ = (Processor.call ⟨s.regs p, s.memory⟩ [L.toc first] back).memory a := by
      rw [go, Toc.run_call_tocGo]
    _ = s.memory a := by
      rw [Toc.call_go_memory]
      exact s.memory.stores_of_not_words hframe

theorem Step.idle_keeps {event : Event P T} (hstep : Step L s event s')
    (hidle : s.Idle t) (hstarts : ∀ p, ¬event.Starts t p) (hsettles : ¬event.Settles t) :
    s'.Idle t ∧ ∀ a, L.Owns t a → s'.memory a = s.memory a := by
  cases hstep with
  | compute hlife _ howned => exact ⟨fun p' => hlife ▸ hidle p', fun a => howned t a hidle⟩
  | @go p first _ hlife _ hroom =>
      refine ⟨fun p' => ?_, fun a ha => go_memory fun hframe => hroom t a hidle hframe ha⟩
      intro hrun
      rw [System.go, System.switch_life] at hrun
      split at hrun
      · next heq => exact hstarts p' ⟨heq.symm, Option.some.inj hrun⟩
      · exact hidle p' hrun
  | @dispatch p prev next _ hlife _ hroom =>
      have hne : t ≠ prev := fun heq => hidle p (heq ▸ hlife)
      refine ⟨fun p' => ?_, fun a ha => dispatch_memory hroom (fun hframe => ?_)
        (L.toc_unowned hne ha)⟩
      · intro hrun
        rw [System.dispatch, System.switch_life] at hrun
        split at hrun
        · next heq => exact hstarts p' ⟨heq.symm, Option.some.inj hrun⟩
        · exact hidle p' hrun
      · exact L.stack_unowned hne ha (hroom a hframe)
  | @settle t' _ _ _ _ _ hroom =>
      have hne : t ≠ t' := fun heq => hsettles heq.symm
      refine ⟨hidle, fun a ha =>
        Toc.tocSettle_of_not_words _ (fun hframe => ?_) (L.toc_unowned hne ha)⟩
      exact L.stack_unowned hne ha (hroom a hframe)

theorem Step.starts {event : Event P T} (hstep : Step L s event s')
    (hidle : s.Idle t) (hstarts : event.Starts t q) :
    s'.life q = some t ∧ (∀ a, L.Owns t a → s'.memory a = s.memory a) ∧
      ∃ regs, s'.regs q = Toc.loaded s'.memory (L.toc t) regs := by
  cases hstep with
  | compute => cases hstarts
  | settle => cases hstarts
  | @go p first back hlife _ hroom =>
      obtain ⟨rfl, rfl⟩ := hstarts
      have hmemory (a : UInt32) (ha : L.Owns first a) :
          (s.go L p first back).memory a = s.memory a :=
        go_memory fun hframe => hroom first a hidle hframe ha
      refine ⟨by rw [System.go, System.switch_life, if_pos rfl], hmemory, ?_⟩
      refine ⟨(Processor.call ⟨s.regs p, s.memory⟩ [L.toc first] back).regs, ?_⟩
      rw [System.go, System.switch_regs, System.switch_memory, ContextSwitch.go,
        Toc.run_call_tocGo]
  | @dispatch p prev next back hlife _ hroom =>
      obtain ⟨rfl, rfl⟩ := hstarts
      have hne : next ≠ prev := fun heq => hidle p (heq ▸ hlife)
      refine ⟨by rw [System.dispatch, System.switch_life, if_pos rfl], fun a ha =>
        dispatch_memory hroom (fun hframe => L.stack_unowned hne ha (hroom a hframe))
          (L.toc_unowned hne ha), ?_⟩
      refine ⟨(Processor.call ⟨s.regs p, s.memory⟩ [L.toc prev, L.toc next] back).regs, ?_⟩
      rw [System.dispatch, System.switch_regs, System.switch_memory, resume_eq back hroom]

/-- From one state to another the thread is neither started nor settled. -/
def Away (L : Layout T) (t : T) : System P T → System P T → Prop :=
  Relation.ReflTransGen fun s s' =>
    ∃ event, (∀ p, ¬event.Starts t p) ∧ ¬event.Settles t ∧ Step L s event s'

theorem Away.keeps (haway : Away L t s s') (hidle : s.Idle t) :
    s'.Idle t ∧ ∀ a, L.Owns t a → s'.memory a = s.memory a := by
  induction haway with
  | refl => exact ⟨hidle, fun _ _ => rfl⟩
  | tail _ hstep ih =>
      obtain ⟨event, hstarts, hsettles, hstep⟩ := hstep
      obtain ⟨hidle', hsame⟩ := hstep.idle_keeps ih.1 hstarts hsettles
      exact ⟨hidle', fun a ha => (hsame a ha).trans (ih.2 a ha)⟩

/-- No thread runs on two processors. -/
def System.Exclusive (s : System P T) : Prop :=
  ∀ p p' t, s.life p = some t → s.life p' = some t → p = p'

theorem System.Exclusive.switch (hexclusive : s.Exclusive) {next : T}
    {operation : Processor → Processor} (hidle : ∀ p', p' ≠ p → s.life p' ≠ some next) :
    (s.switch p next operation).Exclusive := by
  intro q q' t hq hq'
  rw [System.switch_life] at hq hq'
  split at hq <;> split at hq'
  · next hqp hqp' => exact hqp.trans hqp'.symm
  · next hqp hqp' => exact absurd (hq'.trans hq.symm) (hidle q' hqp')
  · next hqp hqp' => exact absurd (hq.trans hq'.symm) (hidle q hqp)
  · exact hexclusive q q' t hq hq'

theorem Step.exclusive {event : Event P T} (hstep : Step L s event s')
    (hexclusive : s.Exclusive) : s'.Exclusive := by
  cases hstep with
  | compute hlife => exact fun q q' t hq hq' => hexclusive q q' t (hlife ▸ hq) (hlife ▸ hq')
  | go _ hidle => exact hexclusive.switch fun p' _ => hidle p'
  | dispatch _ hidle => exact hexclusive.switch hidle
  | settle => exact hexclusive

def Initial (s : System P T) : Prop := ∀ p, s.life p = none

theorem exclusive_of_reachable (hreach : Runs.Reachable Initial (Step L) s) :
    s.Exclusive := by
  refine hreach.invariant (fun s hinit p p' t hlife => ?_)
    (fun s event s' hexclusive hstep => hstep.exclusive hexclusive)
  rw [hinit p] at hlife
  cases hlife

theorem dispatch_idle {next : T} {back : UInt32} (hexclusive : s.Exclusive)
    (hlife : s.life p = some t) (hnext : next ≠ t) :
    (s.dispatch L p t next back).Idle t := by
  intro q hq
  rw [System.dispatch, System.switch_life] at hq
  split at hq
  · exact hnext (Option.some.inj hq)
  · next hqp => exact hqp (hexclusive q p t hq hlife)

/-- After the thread has called the dispatcher it goes on: at once, when it was the
next one itself, or when it is started again, on whatever processor. -/
inductive GoesOn (L : Layout T) (t : T) (p : P) (next : T) (s : System P T) :
    P → System P T → Prop
  | atOnce (hnext : next = t) : GoesOn L t p next s p s
  | later {s' s'' : System P T} {q : P} {event : Event P T} (hnext : next ≠ t)
      (haway : Away L t s s') (hstep : Step L s' event s'')
      (hstarts : event.Starts t q) : GoesOn L t p next s q s''

theorem started_again {s₀ s₁ s₂ : System P T} {event : Event P T}
    (hidle : s₀.Idle t) (haway : Away L t s₀ s₁) (hstep : Step L s₁ event s₂)
    (hstarts : event.Starts t q) :
    s₂.life q = some t ∧ (∀ a, L.Owns t a → s₂.memory a = s₀.memory a) ∧
      ∃ regs, s₂.regs q = Toc.loaded s₂.memory (L.toc t) regs := by
  obtain ⟨hidle', hsame⟩ := haway.keeps hidle
  obtain ⟨hlife, hsame', hregs⟩ := hstep.starts hidle' hstarts
  exact ⟨hlife, fun a ha => (hsame' a ha).trans (hsame a ha), hregs⟩

theorem loaded_dispatch {next : T} {back : UInt32}
    (hroom : ∀ a, Words (s.regs p .esp - 12) Toc.frame a → L.stack t a)
    (regs : Reg → UInt32) {r : Reg} (hr : r ∈ Toc.nonvolatile) :
    Toc.loaded (s.dispatch L p t next back).memory (L.toc t) regs r =
      Toc.returned (s.regs p) back r := by
  rw [System.dispatch, System.switch_memory, resume_eq back hroom]
  exact Toc.loaded_saved_call ⟨s.regs p, s.memory⟩ (L.toc t) (L.toc next) back
    (fun a ha htoc => L.toc_not_stack t a htoc (hroom a ha)) regs hr

end Switches

/-! ### Two threads on two processors -/

def twoThreads : Layout Bool where
  toc t := if t then 0x2000 else 0x1000
  stack t := Words (if t then 0x6000 else 0x5000) [0, 4, 8, 12, 16]
  toc_not_stack t a ha := by
    cases t
    · exact not_words_of_apart (by decide) ha
    · exact not_words_of_apart (by decide) ha
  disjoint t t' a hne ha ha' := by
    cases t <;> cases t' <;> first
      | exact hne rfl
      | rcases ha with ha | ha <;> rcases ha' with ha' | ha' <;>
          exact not_words_of_apart (by decide) ha ha'

def booted : System Bool Bool where
  regs p _ := if p then 0xA000 else 0x9000
  memory _ := 0
  life _ := none

def settled : System Bool Bool :=
  (booted.settle twoThreads false 0x5010 1 2 3).settle twoThreads true 0x6010 1 2 4

def started : System Bool Bool := settled.go twoThreads false false 5

theorem booted_idle (t : Bool) : booted.Idle t := fun _ hlife => nomatch hlife

theorem step_settle :
    Step twoThreads booted (.settle false 0x5010 1 2 3)
      (booted.settle twoThreads false 0x5010 1 2 3) :=
  .settle (booted_idle false) fun _ => Words.of_places (by decide)

theorem step_settled :
    Step twoThreads (booted.settle twoThreads false 0x5010 1 2 3)
      (.settle true 0x6010 1 2 4) settled :=
  .settle (booted_idle true) fun _ => Words.of_places (by decide)

theorem step_started : Step twoThreads settled (.go false false 5) started := by
  refine .go rfl (booted_idle false) fun t a _ ha => ?_
  rintro (htoc | hstack)
  · cases t <;> exact not_words_of_apart (by decide) ha htoc
  · cases t <;> exact not_words_of_apart (by decide) ha hstack

theorem started_esp : started.regs false .esp = 0x500C := by decide +kernel

theorem started_life (p t : Bool) (hlife : started.life p = some t) :
    p = false ∧ t = false := by
  rw [started, System.go, System.switch_life] at hlife
  split at hlife
  · next hp => exact ⟨hp, (Option.some.inj hlife).symm⟩
  · cases hlife

theorem step_switched :
    Step twoThreads started (.dispatch false true 6)
      (started.dispatch twoThreads false false true 6) := by
  refine .dispatch rfl (fun p hp hlife => hp (started_life p true hlife).1) fun a ha => ?_
  rw [started_esp] at ha
  exact ha.of_places (by decide)

theorem switched_life (p t : Bool)
    (hlife : (started.dispatch twoThreads false false true 6).life p = some t) :
    p = false ∧ t = true := by
  rw [System.dispatch, System.switch_life] at hlife
  split at hlife
  · next hp => exact ⟨hp, (Option.some.inj hlife).symm⟩
  · next hp => exact absurd (started_life p t hlife).1 hp

theorem switched_idle : (started.dispatch twoThreads false false true 6).Idle false := by
  intro p hlife
  exact absurd (switched_life p false hlife).2 (by decide)

theorem step_resumed :
    Step twoThreads (started.dispatch twoThreads false false true 6) (.go true false 7)
      ((started.dispatch twoThreads false false true 6).go twoThreads true false 7) := by
  refine .go rfl switched_idle fun t a _ ha => ?_
  rintro (htoc | hstack)
  · cases t <;> exact not_words_of_apart (by decide) ha htoc
  · cases t <;> exact not_words_of_apart (by decide) ha hstack

theorem started_reachable : Runs.Reachable Initial (Step twoThreads) started :=
  (((Runs.Reachable.start fun _ => rfl).next step_settle).next step_settled).next
    step_started

/-! ### What a thread sees -/

variable [DecidableEq P] {L : Layout T} {s s' : System P T} {p q : P} {t : T}

/-- To a thread a switch is a function call that returns: whatever ran meanwhile, and
on whatever processor it goes on, it does so at the return address with its stack
and its nonvolatile registers. -/
theorem goes_on_as_left {next : T} {back : UInt32}
    (hreach : Runs.Reachable Initial (Step L) s) (hlife : s.life p = some t)
    (hswitch : Step L s (.dispatch p next back) s') {s'' : System P T}
    (hback : GoesOn L t p next s' q s'') :
    s''.life q = some t ∧
      (∀ r ∈ Toc.nonvolatile, s''.regs q r = Toc.returned (s.regs p) back r) ∧
      ∀ a, L.stack t a → ¬Words (s.regs p .esp - 12) Toc.frame a →
        s''.memory a = s.memory a := by
  cases hswitch with
  | @dispatch _ prev _ _ hprev hidle hroom =>
      obtain rfl : prev = t := Option.some.inj (hprev.symm.trans hlife)
      have hleft (a : UInt32) (ha : L.stack prev a)
          (hframe : ¬Words (s.regs p .esp - 12) Toc.frame a) :
          (s.dispatch L p prev next back).memory a = s.memory a :=
        dispatch_memory hroom hframe fun htoc => L.toc_not_stack prev a htoc ha
      cases hback with
      | atOnce hnext =>
          subst hnext
          refine ⟨by rw [System.dispatch, System.switch_life, if_pos rfl], ?_, hleft⟩
          intro r hr
          rw [← loaded_dispatch hroom (Processor.call ⟨s.regs p, s.memory⟩ _ back).regs hr,
            System.dispatch, System.switch_regs, System.switch_memory,
            resume_eq back hroom]
      | later hnext haway hstep hstarts =>
          have hidle' : (s.dispatch L p prev next back).Idle prev :=
            dispatch_idle (exclusive_of_reachable hreach) hlife hnext
          obtain ⟨hlife', hsame, regs, hregs⟩ :=
            started_again hidle' haway hstep hstarts
          refine ⟨hlife', fun r hr => ?_, fun a ha hframe =>
            (hsame a (.inr ha)).trans (hleft a ha hframe)⟩
          -- the return address is still where the saved stack pointer points
          have htop : (s.dispatch L p prev next back).memory.read32
              (L.toc prev + Toc.espOffset) = s.regs p .esp - 12 := by
            have hesp : Toc.loaded (s.dispatch L p prev next back).memory (L.toc prev)
                (s.regs p) .esp = Toc.returned (s.regs p) back .esp :=
              loaded_dispatch hroom (s.regs p) (by decide)
            simp only [Toc.loaded, Toc.returned] at hesp
            grind
          calc s''.regs q r
              = Toc.loaded s''.memory (L.toc prev) regs r := by rw [hregs]
            _ = Toc.loaded (s.dispatch L p prev next back).memory (L.toc prev) regs r := by
              refine Toc.loaded_congr (fun a ha => hsame a (.inl ha)) (fun a ha => ?_) _ _ hr
              rw [htop] at ha
              exact hsame a (.inr (hroom a ⟨0, by decide, by rwa [UInt32.add_zero]⟩))
            _ = Toc.returned (s.regs p) back r := loaded_dispatch hroom regs hr

/-- The first thread is switched away from one processor and goes on on the other. -/
theorem goes_on_as_left_elsewhere :
    ((started.dispatch twoThreads false false true 6).go twoThreads true false 7).life
        true = some false ∧
      (∀ r ∈ Toc.nonvolatile,
        ((started.dispatch twoThreads false false true 6).go twoThreads true false
          7).regs true r = Toc.returned (started.regs false) 6 r) ∧
      ∀ a, twoThreads.stack false a →
        ¬Words (started.regs false .esp - 12) Toc.frame a →
        ((started.dispatch twoThreads false false true 6).go twoThreads true false
          7).memory a = started.memory a :=
  goes_on_as_left started_reachable rfl step_switched
    (.later (by decide) .refl step_resumed ⟨rfl, rfl⟩)

/-- A new thread starts with `kickoff`, as if it had been called with the object from
the beginning of `fail`. -/
theorem settled_starts_with_kickoff {tos kickoff fail object : UInt32}
    (hsettle : Step L s (.settle t tos kickoff fail object) s') {s₁ s₂ : System P T}
    {event : Event P T} (haway : Away L t s' s₁) (hstep : Step L s₁ event s₂)
    (hstarts : event.Starts t q) :
    s₂.life q = some t ∧ s₂.regs q .eip = kickoff ∧ s₂.regs q .ebp = tos ∧
      s₂.regs q .esp = tos - 4 ∧ s₂.memory.read32 (s₂.regs q .esp) = fail ∧
        s₂.memory.read32 (s₂.regs q .esp + 4) = object := by
  cases hsettle with
  | settle hidle hroom =>
      have hidle' : (s.settle L t tos kickoff fail object).Idle t := hidle
      obtain ⟨hlife, hsame, regs, hregs⟩ :=
        started_again hidle' haway hstep hstarts
      obtain ⟨hebp, hesp, hkickoff, hfail, hobject⟩ :=
        Toc.tocSettle_spec s.memory (L.toc t) tos kickoff fail object
          fun a ha htoc => L.toc_not_stack t a htoc (hroom a ha)
      have htoc {x w : UInt32} (hx : x ∈ Toc.places)
          (hw : (Toc.tocSettle s.memory (L.toc t) tos kickoff fail object).read32
            (L.toc t + x) = w) : s₂.memory.read32 (L.toc t + x) = w :=
        (read32_congr fun a ha => hsame a (.inl ⟨x, hx, ha⟩)).trans hw
      have hstack {x y w : UInt32} (hx : x ∈ Toc.frame) (hy : tos - 8 + x = y)
          (hw : (Toc.tocSettle s.memory (L.toc t) tos kickoff fail object).read32 y = w) :
          s₂.memory.read32 y = w :=
        (read32_congr fun a ha => hsame a (.inr (hroom a ⟨x, hx, hy ▸ ha⟩))).trans hw
      have hebp' : s₂.memory.read32 (L.toc t + Toc.ebpOffset) = tos :=
        htoc (by decide) hebp
      have hesp' : s₂.memory.read32 (L.toc t + Toc.espOffset) = tos - 8 :=
        htoc (by decide) hesp
      have h4 : tos - 8 + 4 = tos - 4 := by grind
      have h44 : tos - 4 + 4 = tos := by grind
      have hkickoff' : s₂.memory.read32 (tos - 8) = kickoff :=
        hstack (x := 0) (by decide) (UInt32.add_zero _) hkickoff
      have hfail' : s₂.memory.read32 (tos - 4) = fail :=
        hstack (x := 4) (by decide) h4 hfail
      have hobject' : s₂.memory.read32 tos = object :=
        hstack (x := 8) (by decide) (by grind) hobject
      rw [hregs]
      simp only [Toc.loaded, hesp', h4, h44]
      exact ⟨hlife, hkickoff', hebp', trivial, hfail', hobject'⟩

theorem settled_starts_with_kickoff_first :
    started.life false = some false ∧ started.regs false .eip = 1 ∧
      started.regs false .ebp = 0x5010 ∧ started.regs false .esp = 0x5010 - 4 ∧
        started.memory.read32 (started.regs false .esp) = 2 ∧
          started.memory.read32 (started.regs false .esp + 4) = 3 := by
  refine settled_starts_with_kickoff step_settle (.single ?_) step_started ⟨rfl, rfl⟩
  exact ⟨.settle true 0x6010 1 2 4, fun _ => id, nofun, step_settled⟩

end ContextSwitch

end X86Os32
