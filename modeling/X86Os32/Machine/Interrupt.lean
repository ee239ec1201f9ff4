import X86Os32.Library.Processor

namespace X86Os32

open Library Library.Processor Library.AddressSpace

/-! The way of an interrupt through the processor and the entries of
`boot/startup.asm` to `guardian`, and back. -/

namespace Interrupt

def kernelCS : UInt32 := 8

/-- The exceptions for which the processor saves an error code. -/
def hasErrorCode (vector : Nat) : Bool :=
  vector == 8 || (10 ≤ vector && vector ≤ 14) || vector == 17

def saved (vector : Nat) (error : UInt32) (regs : Reg → UInt32) : List UInt32 :=
  [regs .eflags, regs .cs, regs .eip] ++ if hasErrorCode vector then [error] else []

/-- The flags TF, IF, NT, RF and VM, which an interrupt gate clears. -/
def clearedFlags : UInt32 := 0x34300

/-- The processor enters a handler through an interrupt gate of the IDT, without
a change of the privilege level. -/
def deliver (vector : Nat) (error handler : UInt32) (p : Processor) : Processor :=
  let q := p.pushes (saved vector error p.regs)
  ((q.set .eflags (p.regs .eflags &&& ~~~clearedFlags)).set .cs kernelCS).set .eip
    handler

/-- The registers that a C function may leave changed. -/
def volatile : List Reg := [.eax, .ecx, .edx, .eflags, .eip]

/-- A C function has been called and has returned, and has left this part of the
memory alone. -/
structure Returned (kept : UInt32 → Prop) (p p' : Processor) : Prop where
  regs : ∀ r, r ∉ volatile → p'.regs r = p.regs r
  memory : ∀ a, kept a → p'.memory a = p.memory a

/-! ### Up to the call -/

section Deliver

variable (vector : Nat) (error handler : UInt32) (p : Processor)

end Deliver

/-! ### After the call -/

section Leave

variable {vector : Nat} {error handler : UInt32} {p p' : Processor}

end Leave

end Interrupt

end X86Os32
