import X86Os32.Library.Runs
import X86Os32.Thread.State

namespace X86Os32.Idle

open Scheduler (Cpu)

/-! The loop of the idle threads, which runs outside the guard, beside what the
guarded operations do with the ready list, the bell list and the interrupts of
all processors, access by access.  Threads and bells are any type; which threads
wait where, and the ticks of the bells, are left open. -/

/-- Where an idle thread is in its loop, or where it goes on when it is switched
to again. -/
inductive Point
  | disabling
  /-- About to call `is_empty`. -/
  | reading
  /-- About to call `bell_pending`. -/
  | asking
  /-- About to mask the timer. -/
  | blocking
  /-- About to execute `sti` and `hlt`, with the timer masked or not. -/
  | halting (masked : Bool)
  | halted (masked : Bool)
  /-- About to unmask the timer. -/
  | unblocking
  | enabling
  /-- About to enter the guard and call `resume`. -/
  | resuming
deriving DecidableEq

def Point.enabled : Point → Bool
  | .disabling | .halted _ | .unblocking | .resuming => true
  | _ => false

/-- Where the idle thread goes on behind an interrupt. -/
def Point.woken : Point → Point
  | .halted true => .unblocking
  | .halted false => .disabling
  | point => point

/-- An access of a guarded operation. -/
inductive Instruction (τ β : Type)
  | enqueue (t : τ)
  | remove (t : τ)
  | sendCustomIPI
  | job (bell : β)
  | cancel (bell : β)
  | dispatchNext
deriving DecidableEq

/-- `Scheduler::ready`, which is also what `wakeup` does once the thread has left
its waiting room. -/
def ready (t : τ) : List (Instruction τ β) := [.enqueue t, .sendCustomIPI]

/-- `Thread::~Thread`, whose `mutex_release_all` wakes the threads. -/
def destroy (woken : List τ) : List (Instruction τ β) := woken.flatMap ready

/-- `Scheduler::resume`, where `none` stands for the idle thread.  A thread that
is dying is destroyed. -/
def resume (dying : Option (List τ)) : Option τ → List (Instruction τ β)
  | none => [.dispatchNext]
  | some prev =>
      match dying with
      | none => [.enqueue prev, .dispatchNext]
      | some woken => destroy woken ++ [.dispatchNext]

/-- `Bellringer::check`, with the bells that ring and the threads that wait for
them. -/
def check (rung : List (β × List τ)) : List (Instruction τ β) :=
  rung.flatMap fun (bell, waiting) => waiting.flatMap ready ++ [.cancel bell]

def watchEpilogue (c : Cpu) (rung : List (β × List τ))
    (dying : Option (List τ)) (active : Option τ) : List (Instruction τ β) :=
  (if c = 0 then check rung else []) ++ resume dying active

/-- What is called under the guard. -/
inductive Operation (τ β : Type)
  | ready (t : τ)
  | resume (dying : Option (List τ))
  | block
  | sleep (bell : β)
  | exit (woken : List τ)
  | kill (t : τ) (woken : List τ)

/-- An idle thread calls `resume`, and the epilogues that interrupt it wake
threads. -/
def Operation.ofIdle : Operation τ β → Bool
  | .ready _ | .resume _ => true
  | _ => false

/-- A processor is outside the guard, waits for its lock, or is inside; there it
has got `todo` before it.  `active` is `none` for the idle thread.  `timer` and
`wakeup` are interrupts that are pending, and `request` says that the epilogue of
the watch is. -/
structure State (τ β : Type) where
  readyList : List τ
  bells : List β
  guard : Option Cpu
  todo : List (Instruction τ β)
  waiting : Cpu → Bool
  active : Cpu → Option τ
  idle : Cpu → Point
  masked : Cpu → Bool
  timer : Cpu → Bool
  wakeup : Cpu → Bool
  request : Cpu → Bool

inductive Event (τ β : Type)
  | idle (c : Cpu)
  /-- The timer fires, which has no effect where it is masked. -/
  | tick (c : Cpu)
  /-- The interrupt of the timer is handled.  Inside the guard, the request for
  its epilogue may be dropped. -/
  | timer (c : Cpu) (kept : Bool)
  | wakeup (c : Cpu)
  /-- Any other interrupt is handled, and its gate has an epilogue or none. -/
  | interrupt (c : Cpu) (epilogue : Bool)
  | enter (c : Cpu)
  | acquire (c : Cpu)
  | call (c : Cpu) (operation : Operation τ β)
  | watch (c : Cpu) (rung : List (β × List τ)) (dying : Option (List τ))
  | run (c : Cpu)
  | leave (c : Cpu)

def Event.cpu : Event τ β → Cpu
  | .idle c | .tick c | .timer c _ | .wakeup c | .interrupt c _ | .enter c
  | .acquire c | .call c _ | .watch c _ _ | .run c | .leave c => c

namespace State

abbrev Outside (s : State τ β) (c : Cpu) : Prop :=
  s.waiting c = false ∧ s.guard ≠ some c

abbrev Idles (s : State τ β) (c : Cpu) : Prop :=
  s.Outside c ∧ s.active c = none

abbrev Enabled (s : State τ β) (c : Cpu) : Prop :=
  s.Idles c → (s.idle c).enabled = true

def setIdle (s : State τ β) (c : Cpu) (point : Point) : State τ β :=
  { s with idle := Function.update s.idle c point }

def setMasked (s : State τ β) (c : Cpu) (value : Bool) : State τ β :=
  { s with masked := Function.update s.masked c value }

def setWaiting (s : State τ β) (c : Cpu) (value : Bool) : State τ β :=
  { s with waiting := Function.update s.waiting c value }

def setRequest (s : State τ β) (c : Cpu) (value : Bool) : State τ β :=
  { s with request := Function.update s.request c value }

def action (s : State τ β) (c : Cpu) : Point → Option (State τ β)
  | .disabling => some (s.setIdle c .reading)
  | .reading =>
      some (s.setIdle c (if s.readyList.isEmpty then .asking else .enabling))
  | .asking =>
      some (s.setIdle c
        (if s.bells.isEmpty ∨ c ≠ 0 then .blocking else .halting false))
  | .blocking => some ((s.setMasked c true).setIdle c (.halting true))
  | .halting masked => some (s.setIdle c (.halted masked))
  | .halted _ => none
  | .unblocking => some ((s.setMasked c false).setIdle c .disabling)
  | .enabling => some (s.setIdle c .resuming)
  | .resuming => some (s.setWaiting c true)

/-- An interrupt leads the idle thread out of `hlt`. -/
def wake (s : State τ β) (c : Cpu) : State τ β :=
  s.setIdle c (if s.Idles c then (s.idle c).woken else s.idle c)

variable [DecidableEq τ]

/-- What an operation does, access by access.  `kill` destroys the thread where
it finds it in the ready list or in a waiting room, or where it is the active
one; otherwise an interrupt is sent for it, and nobody is woken. -/
def program (s : State τ β) (c : Cpu) :
    Operation τ β → List (Instruction τ β)
  | .ready t => Idle.ready t
  | .resume dying => Idle.resume dying (s.active c)
  | .block => [.dispatchNext]
  | .sleep bell => [.job bell, .dispatchNext]
  | .exit woken => destroy woken ++ [.dispatchNext]
  | .kill t woken =>
      if t ∈ s.readyList then .remove t :: destroy woken
      else if s.active c = some t then destroy woken ++ [.dispatchNext]
      else destroy woken

variable [DecidableEq β]

def exec (n : Nat) (s : State τ β) (c : Cpu) : Instruction τ β → State τ β
  | .enqueue t => { s with readyList := s.readyList ++ [t] }
  | .remove t => { s with readyList := s.readyList.erase t }
  | .sendCustomIPI =>
      { s with wakeup := fun d => s.wakeup d || (2 ^ n - 1).testBit d }
  | .job bell => { s with bells := bell :: s.bells }
  | .cancel bell => { s with bells := s.bells.erase bell }
  | .dispatchNext =>
      -- The idle thread is next where the list is empty.
      { s with
        readyList := s.readyList.tail
        active := Function.update s.active c s.readyList.head? }

def step (n : Nat) (s : State τ β) : Event τ β → Option (State τ β)
  | .idle c =>
      if c.val < n ∧ s.Idles c then s.action c (s.idle c) else none
  | .tick c =>
      if c.val < n ∧ s.masked c = false then
        some { s with timer := Function.update s.timer c true }
      else none
  | .timer c kept =>
      if c.val < n ∧ s.timer c = true ∧ s.Enabled c then
        let s' := { s with timer := Function.update s.timer c false }
        if s.Outside c then
          some (((s'.wake c).setWaiting c true).setRequest c true)
        else some (s'.setRequest c (s.request c || kept))
      else none
  | .wakeup c =>
      if c.val < n ∧ s.wakeup c = true ∧ s.Enabled c then
        let s' := { s with wakeup := Function.update s.wakeup c false }
        some (s'.wake c)
      else none
  | .interrupt c epilogue =>
      if c.val < n ∧ s.Enabled c then
        if epilogue = true ∧ s.Outside c then
          some ((s.wake c).setWaiting c true)
        else some (s.wake c)
      else none
  | .enter c =>
      if c.val < n ∧ s.Outside c ∧ s.active c ≠ none then
        some (s.setWaiting c true)
      else none
  | .acquire c =>
      if c.val < n ∧ s.waiting c = true ∧ s.guard = none then
        some { s.setWaiting c false with guard := some c }
      else none
  | .call c operation =>
      if c.val < n ∧ s.guard = some c ∧ s.todo = [] ∧
          (s.active c = none → operation.ofIdle = true) then
        let s' := { s with todo := s.program c operation }
        match operation, s.active c with
        | .resume _, none =>
            -- The idle thread has entered the guard for this.
            if s.idle c = .resuming then some (s'.setIdle c .disabling)
            else none
        | _, _ => some s'
      else none
  | .watch c rung dying =>
      if c.val < n ∧ s.guard = some c ∧ s.todo = [] ∧ s.request c = true then
        some { s.setRequest c false with
          todo := watchEpilogue c rung dying (s.active c) }
      else none
  | .run c =>
      match s.todo with
      | [] => none
      | instruction :: rest =>
          if c.val < n ∧ s.guard = some c then
            some { s.exec n c instruction with todo := rest }
          else none
  | .leave c =>
      if c.val < n ∧ s.guard = some c ∧ s.todo = [] ∧ s.request c = false then
        some { s with guard := none }
      else none

def start (readyList : List τ) : State τ β where
  readyList := readyList
  bells := []
  guard := none
  todo := []
  waiting _ := false
  active _ := none
  idle _ := .resuming
  masked _ := false
  timer _ := false
  wakeup _ := false
  request _ := false

/-- Behind `Watch::activate`, every processor is about to enter the guard and to
call `schedule`, which does what `resume` does for an idle thread. -/
def Starts (s : State τ β) : Prop :=
  s.bells = [] ∧ s.guard = none ∧ s.todo = [] ∧ ∀ c, s.waiting c = false ∧
    s.active c = none ∧ s.idle c = .resuming ∧ s.masked c = false ∧
    s.request c = false

end State

def boot (c : Cpu) : List (Event τ β) :=
  [.idle c, .acquire c, .call c (.resume none), .run c, .leave c]

end X86Os32.Idle
