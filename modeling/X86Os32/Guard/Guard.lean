import X86Os32.Library.Runs
import X86Os32.Thread.State

namespace X86Os32.Guard

open Library.Runs
open Scheduler (Cpu)

/-! The big kernel lock, the gates and the guard.  A step is one access to
memory that other processors or interrupts can see, or one change of the
interrupt flag.  Gates and threads are any type. -/

/-- `Ticketlock`, with counters of eight bits. -/
structure Ticketlock where
  l : Nat
  t : Nat

/-- `__sync_fetch_and_add(&t, 1)` -/
def Ticketlock.fetchAndAdd (lock : Ticketlock) : Nat × Ticketlock :=
  (lock.t, { lock with t := (lock.t + 1) % 256 })

/-- Where a control flow is.  A `request` is the gate for whose epilogue `relay`
enters the level; `enter` has none. -/
inductive Point (γ : Type)
  | outside
  /-- Interrupts are disabled, `in_epilogue` is about to be set. -/
  | entering (request : Option γ)
  /-- About to enable interrupts. -/
  | entered (request : Option γ)
  /-- In `lock`, about to draw a ticket. -/
  | locking (request : Option γ)
  /-- In the loop of `lock`. -/
  | waiting (request : Option γ) (old : Nat)
  /-- About to call the epilogue of a gate. -/
  | calling (g : γ)
  /-- In the critical section or in an epilogue. -/
  | inside
  /-- At the head of the loop of `leave`. -/
  | emptying
  /-- About to call `set_dequeued`. -/
  | dequeued (g : γ)
  /-- About to enable interrupts for an epilogue. -/
  | released (g : γ)
  /-- In `unlock`, about to read `l`. -/
  | unlocking
  /-- In `unlock`, about to write `l`. -/
  | storing (value : Nat)
  /-- About to reset `in_epilogue`. -/
  | unlocked
  /-- About to enable interrupts at the end of `leave`. -/
  | left
deriving DecidableEq

/-- Where `guardian` is on a processor, once the prologue of a gate has returned
true. -/
inductive Handler (γ : Type)
  | idle
  /-- About to look at `in_epilogue`. -/
  | relaying (g : γ)
  /-- About to call `set_queued`. -/
  | marking (g : γ)
  /-- About to call `enqueue`. -/
  | queuing (g : γ)
  | returning
deriving DecidableEq

/-- The control flow of a thread, with those it has interrupted. -/
structure Flow (γ : Type) where
  point : Point γ
  interrupted : List (Point γ)
deriving DecidableEq

/-- What all threads share.  `queue[c]` is only used on processor `c`, with
interrupts disabled; an operation on it is one step.

The last five fields record the past: the processors that have drawn a ticket,
acquired the lock and released it, in this order; on which processor
`set_queued` has found the flag of a gate unset; and on which processors `relay`
has kept a request for an epilogue that was not called since. -/
structure Shared (γ : Type) where
  bkl : Ticketlock
  inEpilogue : Cpu → Bool
  queue : Queues Cpu γ
  inQueue : γ → Bool
  interrupts : Cpu → Bool
  handler : Cpu → Handler γ
  drawn : List Cpu
  acquired : List Cpu
  released : List Cpu
  marker : γ → Option Cpu
  owed : Cpu → γ → Bool

inductive Act (γ : Type)
  | advance
  | enter
  /-- A thread calls `leave`, or an epilogue returns to its loop. -/
  | leave
  /-- An interrupt comes, and the prologue of the gate returns true. -/
  | interrupt (g : γ)
  /-- `guardian` returns from an epilogue that `relay` has called. -/
  | iret
  | disableInt
  | enableInt
deriving DecidableEq

namespace Shared

variable [DecidableEq γ]

def setInterrupts (x : Shared γ) (c : Cpu) (value : Bool) : Shared γ :=
  { x with interrupts := Function.update x.interrupts c value }

def setInEpilogue (x : Shared γ) (c : Cpu) (value : Bool) : Shared γ :=
  { x with inEpilogue := Function.update x.inEpilogue c value }

def setHandler (x : Shared γ) (c : Cpu) (value : Handler γ) : Shared γ :=
  { x with handler := Function.update x.handler c value }

def setOwed (x : Shared γ) (c : Cpu) (g : γ) (value : Bool) : Shared γ :=
  let row := Function.update (x.owed c) g value
  { x with owed := Function.update x.owed c row }

def call (x : Shared γ) (c : Cpu) (g : γ) : Shared γ :=
  x.setOwed c g false

/-- `Gate::set_queued`, and the condition around it.  A request that finds the
flag set by another processor is not kept. -/
def setQueued (x : Shared γ) (c : Cpu) (g : γ) : Shared γ :=
  if x.inQueue g then
    let x := if x.marker g = some c then x.setOwed c g true else x
    x.setHandler c .returning
  else
    let x := { x with
      inQueue := Function.update x.inQueue g true
      marker := Function.update x.marker g (some c) }
    (x.setOwed c g true).setHandler c (.queuing g)

def setDequeued (x : Shared γ) (g : γ) : Shared γ :=
  { x with
    inQueue := Function.update x.inQueue g false
    marker := Function.update x.marker g none }

def handle (x : Shared γ) (c : Cpu) (flow : Flow γ) :
    Handler γ → Option (Shared γ × Flow γ)
  | .idle => none
  | .relaying g =>
      if x.inEpilogue c then some (x.setHandler c (.marking g), flow)
      else
        -- The epilogue runs on top of what was interrupted.
        some ((x.setOwed c g true).setHandler c .idle,
          ⟨.entering (some g), flow.point :: flow.interrupted⟩)
  | .marking g => some (x.setQueued c g, flow)
  | .queuing g =>
      some (({ x with queue := x.queue.enqueue c g }).setHandler c .returning,
        flow)
  | .returning => some ((x.setInterrupts c true).setHandler c .idle, flow)

def proceed (x : Shared γ) (c : Cpu) : Point γ → Option (Shared γ × Point γ)
  | .outside => none
  | .entering request => some (x.setInEpilogue c true, .entered request)
  | .entered request => some (x.setInterrupts c true, .locking request)
  | .locking request =>
      let (old, bkl) := x.bkl.fetchAndAdd
      some ({ x with bkl, drawn := x.drawn ++ [c] }, .waiting request old)
  | .waiting request old =>
      if x.bkl.l = old then
        some ({ x with acquired := x.acquired ++ [c] },
          request.elim .inside .calling)
      else some (x, .waiting request old)
  | .calling g => some (x.call c g, .inside)
  | .inside => none
  | .emptying =>
      match x.queue.dequeue c with
      | (some g, queue) => some ({ x with queue }, .dequeued g)
      | (none, queue) => some ({ x with queue }, .unlocking)
  | .dequeued g => some (x.setDequeued g, .released g)
  | .released g => some (x.setInterrupts c true, .calling g)
  | .unlocking => some (x, .storing ((x.bkl.l + 1) % 256))
  | .storing value =>
      some ({ x with
        bkl := { x.bkl with l := value }
        released := x.released ++ [c] }, .unlocked)
  | .unlocked => some (x.setInEpilogue c false, .left)
  | .left => some (x.setInterrupts c true, .outside)

def act (x : Shared γ) (c : Cpu) (flow : Flow γ) :
    Act γ → Option (Shared γ × Flow γ)
  | .advance =>
      if x.handler c = .idle then
        (x.proceed c flow.point).map fun (x', point) =>
          (x', { flow with point })
      else x.handle c flow (x.handler c)
  | .enter =>
      if x.handler c = .idle ∧ flow = ⟨.outside, []⟩ then
        some (x.setInterrupts c false, { flow with point := .entering none })
      else none
  | .leave =>
      if x.handler c = .idle ∧ flow.point = .inside then
        some (x.setInterrupts c false, { flow with point := .emptying })
      else none
  | .interrupt g =>
      if x.interrupts c then
        some ((x.setInterrupts c false).setHandler c (.relaying g), flow)
      else none
  | .iret =>
      match flow with
      | ⟨.outside, point :: interrupted⟩ =>
          if x.handler c = .idle then
            some (x.setInterrupts c true, ⟨point, interrupted⟩)
          else none
      | _ => none
  | .disableInt =>
      if x.handler c = .idle ∧ flow = ⟨.outside, []⟩ then
        some (x.setInterrupts c false, flow)
      else none
  | .enableInt =>
      if x.handler c = .idle ∧ flow = ⟨.outside, []⟩ then
        some (x.setInterrupts c true, flow)
      else none

def start : Shared γ where
  bkl := ⟨0, 0⟩
  inEpilogue _ := false
  queue := ⟨fun _ => none, fun _ => .empty⟩
  inQueue _ := false
  interrupts _ := false
  handler _ := .idle
  drawn := []
  acquired := []
  released := []
  marker _ := none
  owed _ _ := false

end Shared

structure State (γ τ : Type) where
  shared : Shared γ
  flow : τ → Flow γ
  current : Cpu → τ

inductive Event (γ τ : Type)
  | act (c : Cpu) (a : Act γ)
  /-- Inside the guard, the processor switches to another thread. -/
  | dispatch (c : Cpu) (next : τ)

namespace State

variable [DecidableEq γ] [DecidableEq τ]

def location (s : State γ τ) (c : Cpu) : Point γ := (s.flow (s.current c)).point

def step (s : State γ τ) : Event γ τ → Option (State γ τ)
  | .act c a =>
      (s.shared.act c (s.flow (s.current c)) a).map fun (shared, flow) =>
        { s with shared, flow := Function.update s.flow (s.current c) flow }
  | .dispatch c next =>
      if s.shared.handler c = .idle ∧ s.location c = .inside ∧
          ∀ d, s.current d ≠ next then
        some { s with current := Function.update s.current c next }
      else none

/-- The threads that do not run have left the processor inside the guard, or
begin with `leave` in `Dispatcher::kickoff`. -/
def start (current : Cpu → τ) : State γ τ where
  shared := .start
  flow u := ⟨if ∃ c, current c = u then .outside else .inside, []⟩
  current := current

def Starts (s : State γ τ) : Prop :=
  ∃ current, Function.Injective current ∧ s = start current

abbrev Reachable (s : State γ τ) : Prop :=
  Library.Runs.Reachable Starts (fun s event s' => s.step event = some s') s

end State

end X86Os32.Guard
