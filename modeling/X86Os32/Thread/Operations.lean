import Mathlib.Data.Fintype.Basic
import X86Os32.Library.Runs
import X86Os32.Meeting.Bellringer

namespace X86Os32.Scheduler

open Library

/-! Runs of the guarded operations.  The big kernel lock puts them in some
order, whichever CPUs they run on, so a run is a list of operations, each with
its CPU. -/

inductive Event
  | schedule
  | ready (that : Address)
  | exit
  | kill (that : Address)
  | resume
  | block (w : Room)
  | wakeup (customer : Address)
  | p (semaphore : Address)
  | v (semaphore : Address)
  | ring (b : Bell)
  | lock (m : Address)
  | unlock (m : Address)
  | sleep (ms : Nat) (frame : Address)
  | check
  | assassin (served : Nat)
  | dropAssassins (count : Nat)

def Event.readies : Event → Option Address
  | .ready that => some that
  | _ => none

def Event.kills : Event → Option Address
  | .kill that => some that
  | _ => none

def Machine.Idle (machine : Machine) (t : Address) : Prop :=
  ∃ c, machine.idlethread c = t

instance (machine : Machine) (t : Address) : Decidable (machine.Idle t) :=
  inferInstanceAs (Decidable (∃ _, _))

/-- A mutex, which only `lock` blocks in and only `unlock` wakes from. -/
def Room.isMutex : Room → Bool
  | .mutex _ => true
  | _ => false

/-- The bell of a sleeping thread, which only `sleep` blocks in. -/
def Room.isBell : Room → Bool
  | .bell _ => true
  | _ => false

namespace State

variable {σ : Type} (machine : Machine) (s : State σ) (cpu : Cpu)

def Worker : Prop := ∃ t ∈ s.life cpu, ¬ machine.Idle t

instance : Decidable (s.Worker machine cpu) := Option.decidableExistsMem _

/-- The thread waits, but not for a mutex. -/
def Wakeable (customer : Address) : Prop :=
  ∃ w ∈ s.waitingIn customer, w.isMutex = false

instance : Decidable (s.Wakeable customer) := Option.decidableExistsMem _

def Owns (m : Address) : Prop := ∃ t ∈ s.life cpu, s.owner m = some t

instance : Decidable (s.Owns cpu m) := Option.decidableExistsMem _

/-- When a thread, or the interrupt, on this CPU may start the operation. -/
def Enabled : Event → Prop
  | .schedule => s.life cpu = none
  | .ready that => s.readied that = false ∧ ¬ machine.Idle that
  | .exit => s.Worker machine cpu
  | .kill that => s.destroyed that = false ∧ ¬ machine.Idle that
  | .resume => s.life cpu ≠ none
  | .block w => s.Worker machine cpu ∧ w.isMutex = false ∧ w.isBell = false
  | .wakeup customer => s.destroyed customer = false ∧ s.Wakeable customer
  | .p _ => s.Worker machine cpu
  | .v _ => True
  | .ring b => s.Live b
  | .lock _ => s.Worker machine cpu
  | .unlock m => s.Owns cpu m
  | .sleep ms _ => s.Worker machine cpu ∧ ms < 2 ^ 32
  | .check => cpu = 0
  | .assassin served => s.life cpu ≠ none ∧ 0 < served ∧
      served ≤ (s.assassin cpu).length
  | .dropAssassins count => s.life cpu ≠ none ∧ 0 < count ∧
      count ≤ (s.assassin cpu).length

instance : DecidablePred (s.Enabled machine cpu)
  | .schedule => inferInstanceAs (Decidable (_ = _))
  | .ready _ | .kill _ | .wakeup _ => inferInstanceAs (Decidable (_ ∧ _))
  | .exit | .p _ | .lock _ => inferInstanceAs (Decidable (s.Worker machine cpu))
  | .resume => inferInstanceAs (Decidable (_ ≠ _))
  | .block _ => inferInstanceAs (Decidable (_ ∧ _ ∧ _))
  | .v _ => inferInstanceAs (Decidable True)
  | .ring b => inferInstanceAs (Decidable (s.Live b))
  | .unlock m => inferInstanceAs (Decidable (s.Owns cpu m))
  | .sleep _ _ => inferInstanceAs (Decidable (_ ∧ _))
  | .check => inferInstanceAs (Decidable (_ = _))
  | .assassin _ | .dropAssassins _ => inferInstanceAs (Decidable (_ ∧ _ ∧ _))

variable [ThreadQueues σ]

def exec : Event → Except Stop (State σ)
  | .schedule => s.schedule machine cpu
  | .ready that =>
      let readied := Function.update s.readied that true
      { s with readied }.ready that
  | .exit => s.exit machine cpu
  | .kill that =>
      let victim := Function.update s.victim that true
      { s with victim }.kill machine cpu that
  | .resume => s.resume machine cpu
  | .block w => s.block machine cpu w
  | .wakeup customer => s.wakeup customer
  | .p semaphore => do
      let (_, s) ← s.p machine cpu (.semaphore semaphore)
      return s
  | .v semaphore => s.v (.semaphore semaphore)
  | .ring b => s.ring b
  | .lock m => s.lock machine cpu m
  | .unlock m => do
      let (_, s) ← s.unlock m
      return s
  | .sleep ms frame => s.sleep machine cpu ms frame
  | .check => s.check
  | .assassin served => s.assassinEpilogue machine cpu served
  | .dropAssassins count => .ok (s.dropAssassins cpu count)

def step (s : State σ) : Cpu × Event → Option (State σ)
  | (cpu, event) =>
      if s.Enabled machine cpu event then
        match s.exec machine cpu event with
        | .ok s' => some s'
        | .error _ => none
      else none

end State

/-- Before the first operation, with semaphores of any initial values. -/
def initial (threads : σ) (values : Address → Int32) : State σ where
  threads := threads
  waitingIn _ := none
  killed _ := false
  resumption _ := none
  mutexes := ⟨fun _ => none, fun _ => .empty⟩
  owner _ := none
  counter
    | .semaphore a => (values a).toInt
    | .mutex _ => 1
    | _ => 0
  bells := ⟨fun _ => none, fun _ => .empty⟩
  ms _ := 0
  life _ := none
  assassin _ := []
  readied _ := false
  destroyed _ := false
  victim _ := false
  critical _ := []

def noThreads : Pointers := ⟨fun _ => none, fun _ => .empty⟩

def Initial (s : State Pointers) : Prop := ∃ values, s = initial noThreads values

def Reachable (machine : Machine) : State Pointers → Prop :=
  Runs.Reachable Initial fun s event s' => s.step machine event = some s'

/-! Runs of a sample machine. -/

def sampleMachine : Machine where
  idlethread c := ⟨c.val + 1, by omega⟩
  injective c d heq := by
    simpa [Fin.ext_iff] using heq

def sampleRun (events : List (Cpu × Event)) : Option (State Pointers) :=
  Runs.run (State.step sampleMachine) (initial noThreads fun _ => 0) events

theorem sampleRun_reaches {events : List (Cpu × Event)}
    {check : State Pointers → Bool} (hrun : (sampleRun events).any check) :
    ∃ s, Reachable sampleMachine s ∧ check s := by
  obtain ⟨s, hs, hcheck⟩ := (Option.any_eq_true _ _).mp hrun
  exact ⟨s, Runs.Reachable.run (.start ⟨_, rfl⟩) hs, hcheck⟩

end X86Os32.Scheduler
