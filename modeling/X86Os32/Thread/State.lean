import Mathlib.Algebra.GroupWithZero.Nat
import X86Os32.Object.Queue

namespace X86Os32.Scheduler

/-! The objects that the guarded operations of `thread/`, `meeting/` and
`user/mutex/` work on.  An object is known by its address. -/

abbrev Address := Fin (2 ^ 32)

/-- One of `CPU_MAX` processors. -/
abbrev Cpu := Fin 8

instance Cpu.neZero : NeZero 8 := ⟨by decide⟩

/-- A `Bell` is a local object of `Bell::sleep`, at some place on the stack of
the thread that sleeps. -/
structure Bell where
  thread : Address
  frame : Address
deriving DecidableEq

/-- A `Waitingroom`: a plain one, or one of the classes derived from it. -/
inductive Room
  | waitingroom (address : Address)
  | semaphore (address : Address)
  | mutex (address : Address)
  | bell (b : Bell)
deriving DecidableEq

/-- The queues that link threads, all through `Thread::queue_link`. -/
inductive QueueId
  | readyList
  | room (w : Room)
deriving DecidableEq

/-- What a thread that was switched away from inside an operation still does
under the guard when it is switched to again: the rest of `Mutex::lock` behind
`Semaphore::p`, or the rest of `Bell::sleep`, whose `bell` lies at `frame`. -/
inductive Resumption
  | lock (m : Address)
  | sleep (frame : Address)
deriving DecidableEq

def Room.resumption : Room → Option Resumption
  | .waitingroom _ => none
  | .semaphore _ => none
  | .mutex m => some (.lock m)
  | .bell b => some (.sleep b.frame)

/-- What the scheduler and the waiting rooms use of their queues. -/
class ThreadQueues (σ : Type) where
  construct : σ → QueueId → σ
  enqueue : σ → QueueId → Address → Except Stop σ
  dequeue : σ → QueueId → Except Stop (Option Address × σ)
  remove : σ → QueueId → Address → Except Stop (Option Address × σ)
  first : σ → QueueId → Option Address

/-- The queues of the kernel, linked by pointers. -/
abbrev Pointers := Queues QueueId Address

instance : ThreadQueues Pointers where
  construct := Queues.construct
  enqueue qs i t := .ok (qs.enqueue i t)
  dequeue qs i := .ok (qs.dequeue i)
  remove := Queues.remove
  first := Queues.first

/-- The state between two guarded operations, over the queues of threads.

`waitingIn`, `killed` and `mutexes` are fields of the threads; `owner` and
`counter` of the mutexes and semaphores; `ms` of the bells, which `bells` links
in the `bell_list`.  `assassin` holds, for every CPU, the threads for whose sake
an assassin interrupt is under way to it.

The last four fields record the past: which threads were given to `ready`, on
which threads `Thread::~Thread` was called, for which threads `kill` was called,
and which threads are between the return of `lock` and the `unlock` of a
mutex. -/
structure State (σ : Type) where
  threads : σ
  waitingIn : Address → Option Room
  killed : Address → Bool
  resumption : Address → Option Resumption
  mutexes : Queues Address Address
  owner : Address → Option Address
  counter : Room → Int
  bells : Queues Unit Bell
  ms : Bell → Nat
  life : Cpu → Option Address
  assassin : Cpu → List Address
  readied : Address → Bool
  destroyed : Address → Bool
  victim : Address → Bool
  critical : Address → List Address

/-- The idle threads, which are set up before the first operation. -/
structure Machine where
  idlethread : Cpu → Address
  injective : Function.Injective idlethread

end X86Os32.Scheduler
