import X86Os32.Debug.GDBSession
import X86Os32.Machine.Interrupt

namespace X86Os32.GDB

open Library Library.Processor Library.AddressSpace Library.Results Library.Program
open OStream (Text)

/-! A trap into the debugger and back: the entries of `debug/gdb/handler.asm` and
`debug_handler` of `debug/gdb/handler.cc`. -/

/-- `dbg_irq_entry` up to the call of `debug_handler`. -/
def dbgIrqEnter (vector : Nat) : List Instr :=
  (if Interrupt.hasErrorCode vector then [] else [.pushImm 0]) ++
    [.pushImm (UInt32.ofNat vector),
      .pushad,
      .push .ds, .push .es, .push .fs, .push .gs, .push .ss,
      .mov .ebp .esp,
      .push .ebp]

/-- `dbg_irq_entry` after the call of `debug_handler`. -/
def dbgIrqLeave : List Instr :=
  [.mov .esp .ebp,
    .pop .ss, .pop .gs, .pop .fs, .pop .es, .pop .ds,
    .popad,
    .addImm .esp 8,
    .iret]

def register (r : Fin numRegisters) : Reg :=
  [Reg.eax, .ecx, .edx, .ebx, .esp, .ebp, .esi, .edi, .eip, .eflags, .cs, .ss, .ds,
    .es, .fs, .gs].getD r.val .gs

/-- Where `struct debug_context` has the register. -/
def contextOffset : Reg → UInt32
  | .ss => 0
  | .gs => 4
  | .fs => 8
  | .es => 12
  | .ds => 16
  | .edi => 20
  | .esi => 24
  | .ebp => 28
  | .esp => 32
  | .ebx => 36
  | .edx => 40
  | .ecx => 44
  | .eax => 48
  -- `vector` and `error_code` lie between
  | .eip => 60
  | .cs => 64
  | .eflags => 68

section Enter

variable (vector : Nat) (error handler : UInt32) (p : Processor)

/-- What is on the stack when `debug_handler` is called, from `eflags` down to `ss`. -/
def contextWords (vector : Nat) (error : UInt32) (regs : Reg → UInt32) : List UInt32 :=
  [regs .eflags, regs .cs, regs .eip,
    if Interrupt.hasErrorCode vector then error else 0, UInt32.ofNat vector,
    regs .eax, regs .ecx, regs .edx, regs .ebx, regs .esp - 20, regs .ebp, regs .esi,
    regs .edi, regs .ds, regs .es, regs .fs, regs .gs, regs .ss]

def gated (handler : UInt32) (p : Processor) : Processor :=
  ((p.set .eflags (p.regs .eflags &&& ~~~Interrupt.clearedFlags)).set .cs
    Interrupt.kernelCS).set .eip handler

theorem deliver_eq :
    Interrupt.deliver vector error handler p =
      (gated handler p).pushes (Interrupt.saved vector error p.regs) := by
  rw [Interrupt.deliver, gated, pushes_set _ _ (by decide), pushes_set _ _ (by decide),
    pushes_set _ _ (by decide)]

theorem gated_regs {r : Reg} (hr : r ∉ [Reg.eflags, .cs, .eip]) :
    (gated handler p).regs r = p.regs r := by
  simp only [List.mem_cons, List.not_mem_nil, or_false, not_or] at hr
  obtain ⟨heflags, hcs, heip⟩ := hr
  rw [gated, set_regs_of_ne _ heip, set_regs_of_ne _ hcs, set_regs_of_ne _ heflags]

theorem dbgIrqEnter_rest {q : Processor} {words : List UInt32}
    (hregs : ∀ r, r ∉ [Reg.eflags, .cs, .eip] → q.regs r = p.regs r)
    (hesp : (q.pushes words).regs .esp = p.regs .esp - 20) :
    (q.pushes words).run [.pushad,
      .push .ds, .push .es, .push .fs, .push .gs, .push .ss,
      .mov .ebp .esp,
      .push .ebp] =
      ((q.pushes (words ++ [p.regs .eax, p.regs .ecx, p.regs .edx, p.regs .ebx,
        p.regs .esp - 20, p.regs .ebp, p.regs .esi, p.regs .edi, p.regs .ds, p.regs .es,
        p.regs .fs, p.regs .gs, p.regs .ss])).set .ebp (p.regs .esp - 72)).push
          (p.regs .esp - 72) := by
  have hpushed (r : Reg) (hr : r ∉ [Reg.esp, .eflags, .cs, .eip]) (words' : List UInt32) :
      (q.pushes words').regs r = p.regs r :=
    (pushes_regs q words' (List.ne_of_not_mem_cons hr)).trans
      (hregs r (List.not_mem_of_not_mem_cons hr))
  have hgeneral : general.map (q.pushes words).regs = [p.regs .eax, p.regs .ecx,
      p.regs .edx, p.regs .ebx, p.regs .esp - 20, p.regs .ebp, p.regs .esi, p.regs .edi] := by
    simp only [general, List.map_cons, List.map_nil, hesp]
    rw [hpushed .eax (by decide), hpushed .ecx (by decide), hpushed .edx (by decide),
      hpushed .ebx (by decide), hpushed .ebp (by decide), hpushed .esi (by decide),
      hpushed .edi (by decide)]
  have hcontext (words' : List UInt32) (hlength : words'.length = 13) :
      (q.pushes (words ++ words')).regs .esp = p.regs .esp - 72 := by
    rw [pushes_append, pushes_esp words' (hesp.trans (UInt32.sub_eq_add_neg _ _)), hlength,
      UInt32.sub_eq_add_neg]
    rfl
  rw [run_cons, exec_pushad, ← pushes_append, hgeneral]
  rw [run_cons, exec_push q _ (by decide), run_cons, exec_push q _ (by decide), run_cons,
    exec_push q _ (by decide), run_cons, exec_push q _ (by decide), run_cons,
    exec_push q _ (by decide), hregs .ds (by decide), hregs .es (by decide),
    hregs .fs (by decide), hregs .gs (by decide), hregs .ss (by decide)]
  simp only [List.append_assoc, List.cons_append, List.nil_append, run_cons, run_nil, exec]
  rw [set_regs_self, hcontext _ rfl]

theorem dbgIrqEnter_eq :
    (Interrupt.deliver vector error handler p).run (dbgIrqEnter vector) =
      (((gated handler p).pushes (contextWords vector error p.regs)).set .ebp
        (p.regs .esp - 72)).push (p.regs .esp - 72) := by
  have hregs (r : Reg) (hr : r ∉ [Reg.eflags, .cs, .eip]) :
      (gated handler p).regs r = p.regs r := gated_regs handler p hr
  have hesp (words : List UInt32) (hlength : words.length = 5) :
      ((gated handler p).pushes words).regs .esp = p.regs .esp - 20 := by
    have hbase : (gated handler p).regs .esp = p.regs .esp + 0 :=
      (hregs .esp (by decide)).trans (UInt32.add_zero _).symm
    rw [pushes_esp words hbase, hlength, UInt32.sub_eq_add_neg]
    rfl
  rw [deliver_eq]
  generalize gated handler p = q at hregs hesp
  rw [contextWords, Interrupt.saved, dbgIrqEnter, run_append]
  cases Interrupt.hasErrorCode vector with
  | false =>
      rw [if_neg Bool.false_ne_true, if_neg Bool.false_ne_true, if_neg Bool.false_ne_true,
        run_cons _ (.pushImm 0), run_nil, exec_pushImm, run_cons, exec_pushImm]
      exact dbgIrqEnter_rest p hregs (hesp _ rfl)
  | true =>
      rw [if_pos rfl, if_pos rfl, if_pos rfl, run_nil, run_cons, exec_pushImm]
      exact dbgIrqEnter_rest p hregs (hesp _ rfl)

def dbgCall (back : UInt32) : Processor :=
  ((Interrupt.deliver vector error handler p).run (dbgIrqEnter vector)).push back

theorem dbgIrqEnter_ebp :
    ((Interrupt.deliver vector error handler p).run (dbgIrqEnter vector)).regs .ebp =
      p.regs .esp - 72 := by
  rw [dbgIrqEnter_eq, push_regs _ _ (by decide), set_regs_self]

end Enter

/-! ### After the call -/

/-- What is taken from the stack again.  The stack pointer of the context, the vector
and the error code are dropped. -/
def dbgSlots : List (Option Reg) :=
  [some .ss, some .gs, some .fs, some .es, some .ds,
    some .edi, some .esi, some .ebp, none, some .ebx, some .edx, some .ecx, some .eax,
    none, none,
    some .eip, some .cs, some .eflags]

theorem exec_popad_takes (p : Processor) : p.exec .popad = p.takes
    [some .edi, some .esi, some .ebp, none, some .ebx, some .edx, some .ecx, some .eax] :=
  exec_popad p

theorem dbgIrqLeave_eq (p : Processor) :
    p.run dbgIrqLeave = (p.set .esp (p.regs .ebp)).takes dbgSlots := by
  simp only [dbgIrqLeave, run_cons, run_nil, addImm_eight, exec_popad_takes]
  simp only [exec, dbgSlots, takes_some, takes_none, takes_nil]

theorem dbgSlots_once :
    dbgSlots.Pairwise fun slot slot' => slot = slot' → slot = none := by decide

theorem mem_upwards_dbgSlots {r : Reg} (hr : r ≠ .esp) :
    (contextOffset r, some r) ∈ upwards 0 dbgSlots := by
  cases r <;> first | exact absurd rfl hr | decide

def contextPlaces : List UInt32 :=
  (List.finRange numRegisters).map fun r => contextOffset (register r)

theorem exists_register (r : Reg) : ∃ n, register n = r := by
  cases r <;> decide

section Leave

variable {q : Processor} {context : UInt32}

theorem dbgIrqLeave_esp (hebp : q.regs .ebp = context) :
    (q.run dbgIrqLeave).regs .esp = context + 72 := by
  have hesp : (q.set .esp (q.regs .ebp)).regs .esp = context + 0 := by
    rw [set_regs_self, hebp, UInt32.add_zero]
  rw [dbgIrqLeave_eq, takes_esp hesp (by decide)]
  exact congrArg (context + ·) (by decide : above 0 18 = 72)

theorem dbgIrqLeave_regs (hebp : q.regs .ebp = context) {r : Reg} (hr : r ≠ .esp) :
    (q.run dbgIrqLeave).regs r = q.memory.read32 (context + contextOffset r) := by
  have hesp : (q.set .esp (q.regs .ebp)).regs .esp = context + 0 := by
    rw [set_regs_self, hebp, UInt32.add_zero]
  rw [dbgIrqLeave_eq, takes_regs hesp (by decide) dbgSlots_once (mem_upwards_dbgSlots hr),
    set_memory]

end Leave

/-! ### The whole trap -/

section Trap

variable {vector : Nat} {error handler back : UInt32} {p : Processor}

/-- The stopped system as the debugger gets it. -/
def stopped (vector : Nat) (error handler back : UInt32) (p : Processor) : Target where
  registers r :=
    if register r = .esp then p.regs .esp - 20 else p.regs (register r)
  memory := (dbgCall vector error handler p back).memory

/-- `debug_handler` has been called and has returned with this memory. -/
def HasReturned (vector : Nat) (error handler : UInt32) (p : Processor)
    (memory : AddressSpace) : Processor → Prop :=
  Interrupt.Returned (Words (p.regs .esp - 72) contextPlaces)
    { (Interrupt.deliver vector error handler p).run (dbgIrqEnter vector) with
      memory := memory }

theorem HasReturned.ebp {memory : AddressSpace} {q : Processor}
    (hreturned : HasReturned vector error handler p memory q) :
    q.regs .ebp = p.regs .esp - 72 :=
  (Interrupt.Returned.regs hreturned .ebp (by decide)).trans
    (dbgIrqEnter_ebp vector error handler p)

theorem HasReturned.regs {memory : AddressSpace} {q : Processor}
    (hreturned : HasReturned vector error handler p memory q) {r : Reg} (hr : r ≠ .esp) :
    (q.run dbgIrqLeave).regs r = memory.read32 (p.regs .esp - 72 + contextOffset r) := by
  rw [dbgIrqLeave_regs hreturned.ebp hr]
  obtain ⟨n, hn⟩ := exists_register r
  refine read32_congr fun a ha => Interrupt.Returned.memory hreturned a ⟨_, ?_, ha⟩
  exact List.mem_map.mpr ⟨n, List.mem_finRange n, congrArg contextOffset hn⟩

theorem HasReturned.esp {memory : AddressSpace} {q : Processor}
    (hreturned : HasReturned vector error handler p memory q) :
    (q.run dbgIrqLeave).regs .esp = p.regs .esp := by
  rw [dbgIrqLeave_esp hreturned.ebp]
  grind

end Trap

end X86Os32.GDB
