import X86Os32.Library.AddressSpace

namespace X86Os32.Library

/-! A processor with the registers of the 32-bit x86 and the few instructions
that move words between them and the memory. -/

inductive Reg
  | eax
  | ecx
  | edx
  | ebx
  | esp
  | ebp
  | esi
  | edi
  | eip
  | eflags
  | cs
  | ss
  | ds
  | es
  | fs
  | gs
deriving DecidableEq, Repr

structure Processor where
  regs : Reg → UInt32
  memory : AddressSpace

namespace Processor

variable (p : Processor)

def set (r : Reg) (v : UInt32) : Processor :=
  { p with regs := fun r' => if r' = r then v else p.regs r' }

def write (a v : UInt32) : Processor :=
  { p with memory := p.memory.write32 a v }

/-- The stack grows downwards, and the stack pointer is at the last word. -/
def push (v : UInt32) : Processor :=
  (p.set .esp (p.regs .esp - 4)).write (p.regs .esp - 4) v

def top : UInt32 := p.memory.read32 (p.regs .esp)

def dropTop : Processor := p.set .esp (p.regs .esp + 4)

def pop (r : Reg) : Processor := p.dropTop.set r p.top

end Processor

inductive Instr
  | mov (dst src : Reg)
  /-- `mov dst, [base + disp]` -/
  | load (dst base : Reg) (disp : UInt32)
  /-- `mov [base + disp], src` -/
  | store (base : Reg) (disp : UInt32) (src : Reg)
  | push (src : Reg)
  | pushImm (imm : UInt32)
  | pop (dst : Reg)
  | addImm (dst : Reg) (imm : UInt32)
  | pushad
  | popad
  | ret
  | iret
deriving DecidableEq, Repr

namespace Processor

def general : List Reg := [.eax, .ecx, .edx, .ebx, .esp, .ebp, .esi, .edi]

def pushAll (p : Processor) (rs : List Reg) : Processor :=
  rs.foldl (fun q r => q.push (p.regs r)) p

/-- The stack pointer that `pushad` saved is dropped. -/
def popAll (p : Processor) (rs : List Reg) : Processor :=
  rs.foldl (fun q r => if r = .esp then q.dropTop else q.pop r) p

/-- One instruction, apart from the instruction pointer of those that go on with
the next one.  The checks that the processor makes before it loads a segment register
or the flags are those of `Passes`. -/
def exec (p : Processor) : Instr → Processor
  | .mov dst src => p.set dst (p.regs src)
  | .load dst base disp => p.set dst (p.memory.read32 (p.regs base + disp))
  | .store base disp src => p.write (p.regs base + disp) (p.regs src)
  | .push src => p.push (p.regs src)
  | .pushImm imm => p.push imm
  | .pop dst => p.pop dst
  | .addImm dst imm => p.set dst (p.regs dst + imm)
  | .pushad => p.pushAll general
  | .popad => p.popAll general.reverse
  | .ret => p.pop .eip
  | .iret => ((p.pop .eip).pop .cs).pop .eflags

/-- The call of a function: the arguments are pushed, the first one last, and then
the address to return to. -/
def call (p : Processor) (arguments : List UInt32) (back : UInt32) : Processor :=
  (arguments.foldr (fun v q => q.push v) p).push back

def run (p : Processor) (code : List Instr) : Processor :=
  code.foldl exec p

theorem run_nil (p : Processor) : p.run [] = p := rfl

theorem run_cons (p : Processor) (i : Instr) (code : List Instr) :
    p.run (i :: code) = (p.exec i).run code := rfl

theorem run_append (p : Processor) (code code' : List Instr) :
    p.run (code ++ code') = (p.run code).run code' :=
  List.foldl_append

@[simp] theorem set_regs_self (p : Processor) (r : Reg) (v : UInt32) :
    (p.set r v).regs r = v := by
  simp [set]

theorem set_regs_of_ne (p : Processor) {r r' : Reg} (hne : r' ≠ r) (v : UInt32) :
    (p.set r v).regs r' = p.regs r' := by
  simp [set, hne]

@[simp] theorem set_memory (p : Processor) (r : Reg) (v : UInt32) :
    (p.set r v).memory = p.memory := rfl

/-! ### The stack -/

def pushes (p : Processor) (words : List UInt32) : Processor := words.foldl push p

def below : UInt32 → Nat → UInt32
  | k, 0 => k
  | k, n + 1 => below (k - 4) n

theorem push_esp (p : Processor) (v : UInt32) :
    (p.push v).regs .esp = p.regs .esp - 4 := rfl

theorem push_regs (p : Processor) (v : UInt32) {r : Reg} (hr : r ≠ .esp) :
    (p.push v).regs r = p.regs r := set_regs_of_ne p hr _

theorem pushes_regs (p : Processor) (words : List UInt32) {r : Reg} (hr : r ≠ .esp) :
    (p.pushes words).regs r = p.regs r := by
  induction words generalizing p with
  | nil => rfl
  | cons w rest ih => exact (ih (p.push w)).trans (push_regs p w hr)

theorem pushes_esp {p : Processor} {base k : UInt32} (words : List UInt32)
    (hesp : p.regs .esp = base + k) :
    (p.pushes words).regs .esp = base + below k words.length := by
  induction words generalizing p k with
  | nil => exact hesp
  | cons w rest ih =>
      have hnext : (p.push w).regs .esp = base + (k - 4) := by
        rw [push_esp, hesp]
        grind
      exact ih hnext

theorem pushes_append (p : Processor) (words words' : List UInt32) :
    p.pushes (words ++ words') = (p.pushes words).pushes words' :=
  List.foldl_append

theorem set_comm (p : Processor) {r r' : Reg} (hne : r ≠ r') (v v' : UInt32) :
    (p.set r v).set r' v' = (p.set r' v').set r v := by
  have hregs : ((p.set r v).set r' v').regs = ((p.set r' v').set r v).regs := by
    funext x
    by_cases hx : x = r
    · have hx' : x ≠ r' := fun heq => hne (hx.symm.trans heq)
      rw [set_regs_of_ne _ hx', hx, set_regs_self, set_regs_self]
    · rw [set_regs_of_ne _ hx]
      by_cases hx' : x = r'
      · rw [hx', set_regs_self, set_regs_self]
      · rw [set_regs_of_ne _ hx', set_regs_of_ne _ hx', set_regs_of_ne _ hx]
  exact congrArg (Processor.mk · p.memory) hregs

theorem pushes_set (p : Processor) (words : List UInt32) {r : Reg} (hr : r ≠ .esp)
    (v : UInt32) : (p.pushes words).set r v = (p.set r v).pushes words := by
  induction words generalizing p with
  | nil => rfl
  | cons w rest ih =>
      have hpush : (p.push w).set r v = (p.set r v).push w := by
        rw [push, push, set_regs_of_ne p hr.symm, set_comm p hr]
        rfl
      exact (ih (p.push w)).trans (congrArg (pushes · rest) hpush)

theorem exec_pushImm (p : Processor) (words : List UInt32) (v : UInt32) :
    (p.pushes words).exec (.pushImm v) = p.pushes (words ++ [v]) :=
  (p.pushes_append words [v]).symm

theorem exec_push (p : Processor) (words : List UInt32) {r : Reg} (hr : r ≠ .esp) :
    (p.pushes words).exec (.push r) = p.pushes (words ++ [p.regs r]) := by
  rw [pushes_append, exec, pushes_regs p words hr]
  rfl

theorem exec_pushad (p : Processor) : p.exec .pushad = p.pushes (general.map p.regs) := by
  rw [exec, pushAll, pushes, List.foldl_map]

/-- Words are taken from the stack into registers, or dropped. -/
def takes (p : Processor) (slots : List (Option Reg)) : Processor :=
  slots.foldl (fun q slot => match slot with
    | some r => q.pop r
    | none => q.dropTop) p

def upwards : UInt32 → List (Option Reg) → List (UInt32 × Option Reg)
  | _, [] => []
  | k, slot :: rest => (k, slot) :: upwards (k + 4) rest

def above : UInt32 → Nat → UInt32
  | k, 0 => k
  | k, n + 1 => above (k + 4) n

theorem takes_nil (p : Processor) : p.takes [] = p := rfl

theorem takes_some (p : Processor) (r : Reg) (slots : List (Option Reg)) :
    p.takes (some r :: slots) = (p.pop r).takes slots := rfl

theorem takes_none (p : Processor) (slots : List (Option Reg)) :
    p.takes (none :: slots) = p.dropTop.takes slots := rfl

theorem addImm_eight (p : Processor) : p.exec (.addImm .esp 8) = p.takes [none, none] := by
  have hregs : (p.exec (.addImm .esp 8)).regs = (p.takes [none, none]).regs := by
    funext r
    cases r
    case esp =>
      calc p.regs .esp + 8
          = p.regs .esp + 4 + 4 := by rw [UInt32.add_assoc]; rfl
        _ = _ := rfl
    all_goals rfl
  exact congrArg (Processor.mk · p.memory) hregs

theorem exec_popad (p : Processor) : p.exec .popad =
    p.takes (general.reverse.map fun r => if r = .esp then none else some r) := by
  rw [exec, popAll, takes, List.foldl_map]
  congr 1
  funext q r
  split <;> rfl

theorem dropTop_esp (p : Processor) : p.dropTop.regs .esp = p.regs .esp + 4 := rfl

theorem dropTop_regs (p : Processor) {r : Reg} (hr : r ≠ .esp) :
    p.dropTop.regs r = p.regs r := set_regs_of_ne p hr _

theorem pop_esp (p : Processor) {r : Reg} (hr : r ≠ .esp) :
    (p.pop r).regs .esp = p.regs .esp + 4 := set_regs_of_ne _ hr.symm _

theorem takes_esp {p : Processor} {base k : UInt32} {slots : List (Option Reg)}
    (hesp : p.regs .esp = base + k) (hslots : some .esp ∉ slots) :
    (p.takes slots).regs .esp = base + above k slots.length := by
  induction slots generalizing p k with
  | nil => exact hesp
  | cons slot rest ih =>
      have hslot := List.ne_of_not_mem_cons hslots
      have hrest := List.not_mem_of_not_mem_cons hslots
      cases slot with
      | none => exact ih (by rw [dropTop_esp, hesp, UInt32.add_assoc]) hrest
      | some r =>
          have hr : r ≠ .esp := fun heq => hslot (congrArg some heq.symm)
          exact ih (by rw [pop_esp p hr, hesp, UInt32.add_assoc]) hrest

theorem takes_regs_of_not_mem (p : Processor) {slots : List (Option Reg)} {r : Reg}
    (hr : r ≠ .esp) (hmem : some r ∉ slots) : (p.takes slots).regs r = p.regs r := by
  induction slots generalizing p with
  | nil => rfl
  | cons slot rest ih =>
      have hslot := List.ne_of_not_mem_cons hmem
      have hrest := List.not_mem_of_not_mem_cons hmem
      cases slot with
      | none => exact (ih _ hrest).trans (dropTop_regs p hr)
      | some r' =>
          have hne : r ≠ r' := fun heq => hslot (congrArg some heq)
          calc ((p.pop r').takes rest).regs r
              = (p.pop r').regs r := ih _ hrest
            _ = p.dropTop.regs r := set_regs_of_ne _ hne _
            _ = p.regs r := dropTop_regs p hr

theorem takes_regs {p : Processor} {base k x : UInt32} {slots : List (Option Reg)}
    {r : Reg} (hesp : p.regs .esp = base + k) (hslots : some .esp ∉ slots)
    (honce : slots.Pairwise fun slot slot' => slot = slot' → slot = none)
    (hmem : (x, some r) ∈ upwards k slots) :
    (p.takes slots).regs r = p.memory.read32 (base + x) := by
  induction slots generalizing p k with
  | nil => cases hmem
  | cons slot rest ih =>
      have hslot := List.ne_of_not_mem_cons hslots
      have hrest := List.not_mem_of_not_mem_cons hslots
      obtain ⟨hfirst, honceRest⟩ := List.pairwise_cons.mp honce
      rcases List.mem_cons.mp hmem with heq | hlater
      · obtain ⟨rfl, rfl⟩ := Prod.mk.inj heq
        have hr : r ≠ .esp := fun heq => hslot (congrArg some heq.symm)
        have hnever : some r ∉ rest := fun hmem => nomatch hfirst _ hmem rfl
        calc ((p.pop r).takes rest).regs r
            = (p.pop r).regs r := takes_regs_of_not_mem _ hr hnever
          _ = p.top := set_regs_self ..
          _ = p.memory.read32 (base + x) := by rw [top, hesp]
      · cases slot with
        | none => exact ih (by rw [dropTop_esp, hesp, UInt32.add_assoc]) hrest honceRest hlater
        | some r' =>
            have hr' : r' ≠ .esp := fun heq => hslot (congrArg some heq.symm)
            exact ih (by rw [pop_esp p hr', hesp, UInt32.add_assoc]) hrest honceRest hlater

/-! ### The checks -/

def nestedTask : UInt32 := 0x4000

/-- The flags that never change, and VM, which would end the protected mode. -/
def fixedFlags : UInt32 := 0xffc2802a

section Checks

-- The selectors for which the descriptor tables have a segment that the register may be
-- loaded with, flat and of the same privilege level.
variable (loadable : Reg → UInt32 → Prop)

/-- The register holds the word as it is, and may be loaded with it. -/
def Accepts : Reg → UInt32 → Prop
  | .cs, w => w < 0x10000 ∧ loadable .cs w
  | .ss, w => w < 0x10000 ∧ loadable .ss w
  | .ds, w => w < 0x10000 ∧ loadable .ds w
  | .es, w => w < 0x10000 ∧ loadable .es w
  | .fs, w => w < 0x10000 ∧ loadable .fs w
  | .gs, w => w < 0x10000 ∧ loadable .gs w
  | .eflags, w => w &&& fixedFlags = 2
  | _, _ => True

instance [∀ r w, Decidable (loadable r w)] (r : Reg) (w : UInt32) :
    Decidable (Accepts loadable r w) :=
  match r with
  | .cs | .ss | .ds | .es | .fs | .gs => inferInstanceAs (Decidable (_ ∧ _))
  | .eflags => inferInstanceAs (Decidable (_ = _))
  | .eax | .ecx | .edx | .ebx | .esp | .ebp | .esi | .edi | .eip => .isTrue trivial

/-- The words that are taken are accepted by the registers they are taken into. -/
def Fills : Processor → List (Option Reg) → Prop
  | _, [] => True
  | p, some r :: slots => Accepts loadable r p.top ∧ Fills (p.pop r) slots
  | p, none :: slots => Fills p.dropTop slots

def Passes (p : Processor) : Instr → Prop
  | .mov dst src => Accepts loadable dst (p.regs src)
  | .load dst base disp =>
      Accepts loadable dst (p.memory.read32 (p.regs base + disp))
  | .pop dst => p.Fills loadable [some dst]
  | .iret =>
      p.regs .eflags &&& nestedTask = 0 ∧
        p.Fills loadable [some .eip, some .cs, some .eflags]
  | _ => True

variable {loadable}

end Checks

end Processor

end X86Os32.Library
