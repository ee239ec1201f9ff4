import X86Os32.Thread.Scheduler

namespace X86Os32.Scheduler

open Library

/-! Bells and the delta list of the `Bellringer`, from `meeting/bell.cc` and
`meeting/bellringer.cc`. -/

namespace State

variable {σ : Type} [ThreadQueues σ] (machine : Machine) (s : State σ)
  (cpu : Cpu)

/-- The object is there: its thread is inside the `sleep` that declares it, and
the stack has not been freed. -/
def Live (bell : Bell) : Prop :=
  s.destroyed bell.thread = false ∧
    s.resumption bell.thread = some (.sleep bell.frame)

instance : Decidable (s.Live bell) := inferInstanceAs (Decidable (_ ∧ _))

def touch (bell : Bell) : Except Stop Unit :=
  if s.Live bell then .ok () else .error .useAfterFree

/-- The loop of `Bell::ring`. -/
def ringFrom (s : State σ) (bell : Bell) : Nat → Except Stop (State σ)
  | 0 => .error .endlessLoop
  | fuel + 1 => do
      let (t, threads) ← ThreadQueues.dequeue s.threads (.room (.bell bell))
      let s := { s with threads }
      match t with
      | none => return s
      | some t => do
          let s ← s.wakeup t
          ringFrom s bell fuel

def ring (bell : Bell) : Except Stop (State σ) := do
  s.touch bell
  s.ringFrom bell (Queues.addresses + 1)

/-- The first half of `cancel`: the bell behind a cancelled one inherits its
time. -/
def inherit (bell : Bell) : Except Stop (State σ) :=
  match s.bells.next bell with
  | none => .ok s
  | some next => do
      s.touch next
      let sum := add32 (s.ms next) (s.ms bell)
      return { s with ms := Function.update s.ms next sum }

def cancel (bell : Bell) : Except Stop (State σ) := do
  s.touch bell
  let s ← s.inherit bell
  let (_, bells) ← s.bells.remove () bell
  return { s with bells }

def jobFrom (s : State σ) (prev : Option Bell) (ms : Nat) :
    Nat → Option Bell → Except Stop ((Option Bell × Nat) × State σ)
  | _, none => .ok ((prev, ms), s)
  | 0, some _ => .error .endlessLoop
  | fuel + 1, some b => do
      s.touch b
      if s.ms b > ms then
        let rest := sub32 (s.ms b) ms
        return ((prev, ms), { s with ms := Function.update s.ms b rest })
      else
        jobFrom s (some b) (sub32 ms (s.ms b)) fuel (s.bells.next b)

/-- The item whose link `tail` of the list points to, which `insert_after`
reads. -/
def touchTail : Except Stop Unit :=
  match (s.bells.queue ()).tail with
  | .head => .ok ()
  | .link b => s.touch b

def job (bell : Bell) (ms : Nat) : Except Stop (State σ) := do
  let ((prev, ms), s) ← s.jobFrom none ms Queues.addresses (s.bells.first ())
  let s := { s with ms := Function.update s.ms bell ms }
  match prev with
  | none => return { s with bells := s.bells.insertFirst () bell }
  | some prev => do
      s.touchTail
      return { s with bells := s.bells.insertAfter () prev bell }

/-- The do-while loop of `check` at the first bell. -/
def checkFrom (s : State σ) : Nat → Bell → Except Stop (State σ)
  | 0, _ => .error .endlessLoop
  | fuel + 1, first => do
      let s ← s.ring first
      let s ← s.cancel first
      match s.bells.first () with
      | none => return s
      | some first => do
          s.touch first
          if s.ms first = 0 then checkFrom s fuel first else return s

/-- `--first->ms` -/
def tick (first : Bell) : State σ :=
  { s with ms := Function.update s.ms first (sub32 (s.ms first) 1) }

def check : Except Stop (State σ) :=
  match s.bells.first () with
  | none => .ok s
  | some first => do
      s.touch first
      let s := s.tick first
      if s.ms first = 0 then s.checkFrom Queues.addresses first else return s

def sleep (ms : Nat) (frame : Address) : Except Stop (State σ) :=
  if ms = 0 then .ok s
  else do
    let t ← deref (s.active cpu)
    let bell : Bell := ⟨t, frame⟩
    let threads := ThreadQueues.construct s.threads (.room (.bell bell))
    let bells := s.bells.setNext bell none
    let s := { s with threads, bells, ms := Function.update s.ms bell 0 }
    let s ← s.job bell ms
    s.block machine cpu (.bell bell)

end State

end X86Os32.Scheduler
