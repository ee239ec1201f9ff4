import X86Os32.Library.Word32
import X86Os32.Thread.State

namespace X86Os32.Scheduler

open Library

/-! The guarded operations, from `thread/scheduler.cc`, `thread/dispatcher.cc`,
`thread/thread.cc`, `thread/assassin.cc`, `meeting/` and `user/mutex/`.  Each
runs in the epilogue level, so nothing interferes with it. -/

namespace State

variable {σ : Type} [ThreadQueues σ] (machine : Machine) (s : State σ)
  (cpu : Cpu)

def active : Option Address := s.life cpu

/-- The wakeup IPI only ends the `hlt` of an idle CPU. -/
def ready (that : Address) : Except Stop (State σ) := do
  let threads ← ThreadQueues.enqueue s.threads .readyList that
  return { s with threads }

def wakeup (customer : Address) : Except Stop (State σ) := do
  let w ← deref (s.waitingIn customer)
  let (_, threads) ← ThreadQueues.remove s.threads (.room w) customer
  let waitingIn := Function.update s.waitingIn customer none
  let s := { s with threads, waitingIn }
  s.ready customer

/-! ### Semaphores and mutexes -/

def setCounter (w : Room) (value : Int) : State σ :=
  { s with counter := Function.update s.counter w value }

def v (w : Room) : Except Stop (State σ) := do
  let (t, threads) ← ThreadQueues.dequeue s.threads (.room w)
  let s := { s with threads }
  match t with
  | some t => s.wakeup t
  | none => return s.setCounter w (succInt (s.counter w))

def mutexHold (t m : Address) : State σ :=
  { s with mutexes := s.mutexes.enqueue t m }

def mutexRelease (t m : Address) : Except Stop (Bool × State σ) := do
  let (found, mutexes) ← s.mutexes.remove t m
  return (found.isSome, { s with mutexes })

def unlock (m : Address) : Except Stop (Bool × State σ) := do
  let t ← deref (s.owner m)
  let (ret, s) ← s.mutexRelease t m
  let owner := Function.update s.owner m none
  let critical := Function.update s.critical m ((s.critical m).erase t)
  let s ← { s with owner, critical }.v (.mutex m)
  return (ret, s)

/-- The loop of `mutex_release_all` at the mutex `current`. -/
def mutexReleaseFrom (s : State σ) (ret : Bool) :
    Nat → Option Address → Except Stop (Bool × State σ)
  | _, none => .ok (ret, s)
  | 0, some _ => .error .endlessLoop
  | fuel + 1, some current => do
      let (released, s) ← s.unlock current
      mutexReleaseFrom s (ret && released) fuel (s.mutexes.next current)

def mutexReleaseAll (t : Address) : Except Stop (Bool × State σ) :=
  s.mutexReleaseFrom true Queues.addresses (s.mutexes.first t)

/-- `Thread::~Thread` -/
def destroy (t : Address) : Except Stop (State σ) := do
  let destroyed := Function.update s.destroyed t true
  let (_, s) ← { s with destroyed }.mutexReleaseAll t
  return s

/-- `Mutex::lock` behind `Semaphore::p`. -/
def takeOwnership (m : Address) : Except Stop (State σ) := do
  let t ← deref (s.active cpu)
  let owner := Function.update s.owner m (some t)
  let critical := Function.update s.critical m (s.critical m ++ [t])
  return { s with owner, critical }.mutexHold t m

/-! ### Switching threads -/

/-- `Waitingroom::~Waitingroom` for the bell of `Bell::sleep`.  It would wake
waiting threads through `Guarded_Scheduler`, inside the guard. -/
def destroyRoom (w : Room) : Except Stop (State σ) :=
  match ThreadQueues.first s.threads (.room w) with
  | none => .ok s
  | some _ => .error .deadlock

/-- The thread switched to leaves the operation it was switched away in. -/
def continueThread (next : Address) : Except Stop (State σ) :=
  let resumption := Function.update s.resumption next none
  match s.resumption next with
  | none => .ok s
  | some (.lock m) => { s with resumption }.takeOwnership cpu m
  | some (.sleep frame) => { s with resumption }.destroyRoom (.bell ⟨next, frame⟩)

def setActive (c : Address) : State σ :=
  { s with life := Function.update s.life cpu (some c) }

/-- A CPU that already has a thread only gets a message. -/
def go (first : Address) : Except Stop (State σ) :=
  (s.setActive cpu first).continueThread cpu first

def dispatch (next : Address) : Except Stop (State σ) := do
  let _prev ← deref (s.active cpu)
  (s.setActive cpu next).continueThread cpu next

def isEmpty : Bool := (ThreadQueues.first s.threads .readyList).isNone

/-- `is_empty() ? idlethread[system.getCPUID()] : ready_list.dequeue()` -/
def nextThread : Except Stop (Address × State σ) :=
  if s.isEmpty then .ok (machine.idlethread cpu, s)
  else do
    let (t, threads) ← ThreadQueues.dequeue s.threads .readyList
    let t ← deref t
    return (t, { s with threads })

def dispatchNext : Except Stop (State σ) := do
  let (next, s) ← s.nextThread machine cpu
  s.dispatch cpu next

def schedule : Except Stop (State σ) := do
  let (next, s) ← s.nextThread machine cpu
  s.go cpu next

def exit : Except Stop (State σ) := do
  let t ← deref (s.active cpu)
  let s ← s.destroy t
  s.dispatchNext machine cpu

/-- The search of `kill` for the CPU that executes a thread. -/
def executing (that : Address) : Option Cpu :=
  (List.finRange 8).find? fun i => s.life i = some that

def kill (that : Address) : Except Stop (State σ) := do
  let (found, threads) ← ThreadQueues.remove s.threads .readyList that
  let s := { s with threads }
  if found.isSome then s.destroy that
  else match s.waitingIn that with
    | some w =>
        let (_, threads) ← ThreadQueues.remove s.threads (.room w) that
        let s := { s with threads }
        s.destroy that
    | none =>
        let s := { s with killed := Function.update s.killed that true }
        match s.executing that with
        | none => return s
        | some dest =>
            if dest = cpu then
              let s ← s.destroy that
              s.dispatchNext machine cpu
            else
              let pending := s.assassin dest ++ [that]
              return { s with
                assassin := Function.update s.assassin dest pending }

/-- What `resume` does with the thread it switches away from. -/
def putBack (prev : Address) : Except Stop (State σ) :=
  if s.killed prev then s.destroy prev
  else if prev ≠ machine.idlethread cpu then do
    let threads ← ThreadQueues.enqueue s.threads .readyList prev
    return { s with threads }
  else .ok s

def resume : Except Stop (State σ) := do
  let prev ← deref (s.active cpu)
  let s ← s.putBack machine cpu prev
  s.dispatchNext machine cpu

def block (w : Room) : Except Stop (State σ) := do
  let t ← deref (s.active cpu)
  let threads ← ThreadQueues.enqueue s.threads (.room w) t
  let waitingIn := Function.update s.waitingIn t (some w)
  let resumption := Function.update s.resumption t w.resumption
  let s := { s with threads, waitingIn, resumption }
  s.dispatchNext machine cpu

/-- The result says whether the call comes back at once. -/
def p (w : Room) : Except Stop (Bool × State σ) :=
  if s.counter w > 0 then .ok (true, s.setCounter w (s.counter w - 1))
  else do
    let s ← s.block machine cpu w
    return (false, s)

def lock (m : Address) : Except Stop (State σ) := do
  let (granted, s) ← s.p machine cpu (.mutex m)
  if granted then s.takeOwnership cpu m else return s

/-- One run of the epilogue stands for the first `served` interrupts under
way. -/
def assassinEpilogue (served : Nat) : Except Stop (State σ) := do
  let rest := (s.assassin cpu).drop served
  let s := { s with assassin := Function.update s.assassin cpu rest }
  let active ← deref (s.active cpu)
  if s.killed active then s.exit machine cpu else return s

/-- `Guard::relay` finds the gate of the assassin marked, because another CPU has it
in its queue, and lets the first `count` interrupts under way go. -/
def dropAssassins (count : Nat) : State σ :=
  { s with
    assassin := Function.update s.assassin cpu ((s.assassin cpu).drop count) }

end State

end X86Os32.Scheduler
