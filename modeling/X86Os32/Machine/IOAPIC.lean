import X86Os32.Library.Bitfields

namespace X86Os32

open Library Library.Bitfield

/-! The I/O APIC: `machine/ioapic.cc` on top of the two registers through which the
others are reached. -/

namespace IOAPIC

abbrev Register := BitVec 32

/-! ### `machine/ioapic_registers.h` -/

def destinationModeLogical : BitVec 1 := 1

def triggerModeEdge : BitVec 1 := 0

def triggerModeLevel : BitVec 1 := 1

def polarityHigh : BitVec 1 := 0

def maskEnabled : BitVec 1 := 0

def maskDisabled : BitVec 1 := 1

def deliveryModeLowestpri : BitVec 3 := 1

def panic : BitVec 8 := 255

/-! ### The chip -/

structure Chip where
  ioregsel : Register
  /-- By the lower eight bits of `IOREGSEL`. -/
  registers : BitVec 8 → Register

def isLow (index : BitVec 8) : Bool :=
  0x10 ≤ index && index ≤ 0x3e && index.getLsbD 0 == false

def Chip.index (chip : Chip) : BitVec 8 := chip.ioregsel.setWidth 8

/-- `*IOREGSEL_REG = reg;` -/
def Chip.select (chip : Chip) (reg : Register) : Chip := { chip with ioregsel := reg }

/-- `*IOWIN_REG` -/
def Chip.window (chip : Chip) : Register := chip.registers chip.index

/-- `*IOWIN_REG = value;`, where `delivery_status` and `remote_irr` are read-only. -/
def Chip.store (chip : Chip) (value : Register) : Chip :=
  let old := chip.window
  let value :=
    if isLow chip.index then put (put value 12 (get old 12 1)) 14 (get old 14 1) else value
  { chip with registers := fun index =>
      if index = chip.index then value else chip.registers index }

/-! ### The driver -/

namespace Chip

variable (chip : Chip)

def writeReg (reg entry : Register) : Chip := (chip.select reg).store entry

def readReg (reg : Register) : Register × Chip :=
  ((chip.select reg).window, chip.select reg)

/-- The body of the loop in `init`. -/
def initEntry (cpu_bitmask : BitVec 8) (i : Register) : Chip :=
  let (rte_l, chip) := chip.readReg i
  let rte_l := put rte_l 0 panic
  let rte_l := put rte_l 8 deliveryModeLowestpri
  let rte_l := put rte_l 11 destinationModeLogical
  let rte_l := put rte_l 13 polarityHigh
  let rte_l := put rte_l 15 triggerModeEdge
  let rte_l := put rte_l 16 maskDisabled
  let (rte_h, chip) := chip.readReg (i + 1)
  let rte_h := put rte_h 24 cpu_bitmask
  (chip.writeReg i rte_l).writeReg (i + 1) rte_h

/-- `0x10 + 2 * slot` -/
def reg (slot : BitVec 8) : Register := 0x10 + 2 * slot.setWidth 32

/-- `init`, with `getIOAPICID()` and `getNumberOfCPUs()`. -/
def init (ioapicID : BitVec 8) (numCPUs : Nat) : Chip :=
  let (id, chip) := chip.readReg 0x00
  let id := put id 24 (ioapicID.setWidth 4)
  let chip := chip.writeReg 0x00 id
  let cpu_bitmask := ((1 : BitVec 32) <<< numCPUs - 1).setWidth 8
  (List.range 24).foldl (fun chip k => chip.initEntry cpu_bitmask (reg (BitVec.ofNat 8 k)))
    chip

def config (slot vector : BitVec 8) (triggerMode polarity : BitVec 1) : Chip :=
  let (cur_l, chip) := chip.readReg (reg slot)
  let cur_l := put cur_l 0 vector
  let cur_l := put cur_l 13 polarity
  let cur_l := put cur_l 15 triggerMode
  chip.writeReg (reg slot) cur_l

def allow (slot : BitVec 8) : Chip :=
  let (cur_l, chip) := chip.readReg (reg slot)
  chip.writeReg (reg slot) (put cur_l 16 maskEnabled)

def forbid (slot : BitVec 8) : Chip :=
  let (cur_l, chip) := chip.readReg (reg slot)
  chip.writeReg (reg slot) (put cur_l 16 maskDisabled)

def status (slot : BitVec 8) : Bool × Chip :=
  let (cur_l, chip) := chip.readReg (reg slot)
  (get cur_l 16 1 == 0, chip)

end Chip

/-! ### The redirection table -/

structure Entry where
  vector : BitVec 8
  deliveryMode : BitVec 3
  destinationMode : BitVec 1
  deliveryStatus : BitVec 1
  polarity : BitVec 1
  remoteIRR : BitVec 1
  triggerMode : BitVec 1
  mask : BitVec 1
  reservedLow : BitVec 15
  reservedHigh : BitVec 24
  logicalDestination : BitVec 8
deriving DecidableEq

def Entry.of (low high : Register) : Entry where
  vector := get low 0 8
  deliveryMode := get low 8 3
  destinationMode := get low 11 1
  deliveryStatus := get low 12 1
  polarity := get low 13 1
  remoteIRR := get low 14 1
  triggerMode := get low 15 1
  mask := get low 16 1
  reservedLow := get low 17 15
  reservedHigh := get high 0 24
  logicalDestination := get high 24 8

def lowIndex (slot : BitVec 8) : BitVec 8 := 0x10 + 2 * slot

def highIndex (slot : BitVec 8) : BitVec 8 := 0x11 + 2 * slot

def Chip.entry (chip : Chip) (slot : BitVec 8) : Entry :=
  Entry.of (chip.registers (lowIndex slot)) (chip.registers (highIndex slot))

namespace Entry

def init (cpu_bitmask : BitVec 8) (e : Entry) : Entry :=
  { e with
    vector := panic
    deliveryMode := deliveryModeLowestpri
    destinationMode := destinationModeLogical
    polarity := polarityHigh
    triggerMode := triggerModeEdge
    mask := maskDisabled
    logicalDestination := cpu_bitmask }

def config (vector : BitVec 8) (triggerMode polarity : BitVec 1) (e : Entry) : Entry :=
  { e with vector, triggerMode, polarity }

def allow (e : Entry) : Entry := { e with mask := maskEnabled }

def forbid (e : Entry) : Entry := { e with mask := maskDisabled }

def signal (deliveryStatus remoteIRR : BitVec 1) (e : Entry) : Entry :=
  { e with deliveryStatus, remoteIRR }

end Entry

/-! ### One access -/

section Access

variable {slot slot' : BitVec 8} (chip : Chip) (value : Register)

theorem reg_index (slot : BitVec 8) : (Chip.reg slot).setWidth 8 = lowIndex slot := by
  revert slot
  decide +kernel

theorem reg_succ_index (slot : BitVec 8) :
    (Chip.reg slot + 1).setWidth 8 = highIndex slot := by
  revert slot
  decide +kernel

theorem lowIndex_inj (hslot : slot < 24) (hslot' : slot' < 24)
    (heq : lowIndex slot = lowIndex slot') : slot = slot' := by
  unfold lowIndex at heq
  bv_omega

theorem highIndex_inj (hslot : slot < 24) (hslot' : slot' < 24)
    (heq : highIndex slot = highIndex slot') : slot = slot' := by
  unfold highIndex at heq
  bv_omega

theorem lowIndex_ne_highIndex (slot slot' : BitVec 8) :
    lowIndex slot ≠ highIndex slot' := by
  unfold lowIndex highIndex
  bv_omega

theorem isLow_lowIndex (hslot : slot < 24) : isLow (lowIndex slot) = true := by
  revert slot
  decide +kernel

theorem isLow_highIndex (slot : BitVec 8) : isLow (highIndex slot) = false := by
  revert slot
  decide +kernel

def keep (old value : Register) : Register :=
  put (put value 12 (get old 12 1)) 14 (get old 14 1)

theorem write_low (hslot : slot < 24) (index : BitVec 8) :
    (chip.writeReg (Chip.reg slot) value).registers index =
      if index = lowIndex slot then keep (chip.registers (lowIndex slot)) value
      else chip.registers index := by
  have hindex : (chip.select (Chip.reg slot)).index = lowIndex slot := reg_index slot
  simp only [Chip.writeReg, Chip.store, hindex, isLow_lowIndex hslot, Chip.window]
  rfl

theorem write_high (slot : BitVec 8) (index : BitVec 8) :
    (chip.writeReg (Chip.reg slot + 1) value).registers index =
      if index = highIndex slot then value else chip.registers index := by
  have hindex : (chip.select (Chip.reg slot + 1)).index = highIndex slot :=
    reg_succ_index slot
  simp only [Chip.writeReg, Chip.store, hindex, isLow_highIndex slot]
  rfl

theorem read_low (slot : BitVec 8) :
    (chip.readReg (Chip.reg slot)).1 = chip.registers (lowIndex slot) :=
  congrArg chip.registers (reg_index slot)

theorem read_high (slot : BitVec 8) :
    (chip.readReg (Chip.reg slot + 1)).1 = chip.registers (highIndex slot) :=
  congrArg chip.registers (reg_succ_index slot)

theorem read_registers (reg : Register) : (chip.readReg reg).2.registers = chip.registers :=
  rfl

end Access

/-! ### What becomes of the table -/

section Table

variable {slot slot' : BitVec 8} (chip : Chip)

theorem entry_write_low (hslot : slot < 24) (hslot' : slot' < 24) (value : Register) :
    (chip.writeReg (Chip.reg slot) value).entry slot' =
      if slot' = slot then Entry.of (keep (chip.registers (lowIndex slot)) value)
        (chip.registers (highIndex slot))
      else chip.entry slot' := by
  simp only [Chip.entry, write_low chip value hslot,
    if_neg (lowIndex_ne_highIndex slot slot').symm]
  by_cases heq : slot' = slot
  · rw [if_pos heq, heq, if_pos rfl]
  · have hne : lowIndex slot' ≠ lowIndex slot := fun hsame =>
      heq (lowIndex_inj hslot' hslot hsame)
    rw [if_neg heq, if_neg hne]

theorem entry_write_high (hslot : slot < 24) (hslot' : slot' < 24) (value : Register) :
    (chip.writeReg (Chip.reg slot + 1) value).entry slot' =
      if slot' = slot then Entry.of (chip.registers (lowIndex slot)) value
      else chip.entry slot' := by
  simp only [Chip.entry, write_high, if_neg (lowIndex_ne_highIndex slot' slot)]
  by_cases heq : slot' = slot
  · rw [if_pos heq, heq, if_pos rfl]
  · have hne : highIndex slot' ≠ highIndex slot := fun hsame =>
      heq (highIndex_inj hslot' hslot hsame)
    rw [if_neg heq, if_neg hne]

theorem config_entry (hslot : slot < 24) (hslot' : slot' < 24) (vector : BitVec 8)
    (triggerMode polarity : BitVec 1) :
    (chip.config slot vector triggerMode polarity).entry slot' =
      if slot' = slot then (chip.entry slot).config vector triggerMode polarity
      else chip.entry slot' := by
  simp only [Chip.config, entry_write_low _ hslot hslot', read_low, read_registers]
  by_cases heq : slot' = slot
  · simp [heq, Entry.of, Entry.config, Chip.entry, keep, get_put_self, get_put_of_apart]
  · rw [if_neg heq, if_neg heq]
    rfl

theorem allow_entry (hslot : slot < 24) (hslot' : slot' < 24) :
    (chip.allow slot).entry slot' =
      if slot' = slot then (chip.entry slot).allow else chip.entry slot' := by
  simp only [Chip.allow, entry_write_low _ hslot hslot', read_low, read_registers]
  by_cases heq : slot' = slot
  · simp [heq, Entry.of, Entry.allow, Chip.entry, keep, get_put_self, get_put_of_apart]
  · rw [if_neg heq, if_neg heq]
    rfl

theorem forbid_entry (hslot : slot < 24) (hslot' : slot' < 24) :
    (chip.forbid slot).entry slot' =
      if slot' = slot then (chip.entry slot).forbid else chip.entry slot' := by
  simp only [Chip.forbid, entry_write_low _ hslot hslot', read_low, read_registers]
  by_cases heq : slot' = slot
  · simp [heq, Entry.of, Entry.forbid, Chip.entry, keep, get_put_self, get_put_of_apart]
  · rw [if_neg heq, if_neg heq]
    rfl

theorem initEntry_entry (hslot : slot < 24) (hslot' : slot' < 24) (cpu_bitmask : BitVec 8) :
    (chip.initEntry cpu_bitmask (Chip.reg slot)).entry slot' =
      if slot' = slot then (chip.entry slot).init cpu_bitmask else chip.entry slot' := by
  simp only [Chip.initEntry, entry_write_high _ hslot hslot',
    entry_write_low _ hslot hslot', write_low _ _ hslot, read_low, read_high, read_registers]
  by_cases heq : slot' = slot
  · simp [heq, Entry.of, Entry.init, Chip.entry, keep, get_put_self, get_put_of_apart]
  · rw [if_neg heq, if_neg heq, if_neg heq]
    rfl

theorem status_eq (slot : BitVec 8) :
    (chip.status slot).1 = ((chip.entry slot).mask == maskEnabled) := by
  simp only [Chip.status, read_low]
  rfl

def Outside (index : BitVec 8) : Prop := index < 0x10 ∨ 0x3f < index

theorem Outside.ne_low {index : BitVec 8} (houtside : Outside index) (hslot : slot < 24) :
    index ≠ lowIndex slot := by
  unfold Outside at houtside
  unfold lowIndex
  bv_omega

theorem Outside.ne_high {index : BitVec 8} (houtside : Outside index) (hslot : slot < 24) :
    index ≠ highIndex slot := by
  unfold Outside at houtside
  unfold highIndex
  bv_omega

theorem initEntry_outside (hslot : slot < 24) (cpu_bitmask : BitVec 8) {index : BitVec 8}
    (houtside : Outside index) :
    (chip.initEntry cpu_bitmask (Chip.reg slot)).registers index =
      chip.registers index := by
  simp only [Chip.initEntry, write_high, write_low _ _ hslot, read_registers,
    if_neg (houtside.ne_low hslot), if_neg (houtside.ne_high hslot)]

def initLoop (cpu_bitmask : BitVec 8) (rounds : Nat) : Chip :=
  (List.range rounds).foldl
    (fun chip k => chip.initEntry cpu_bitmask (Chip.reg (BitVec.ofNat 8 k))) chip

theorem ofNat_lt {k : Nat} (hk : k < 24) : BitVec.ofNat 8 k < 24 := by
  have hbound : (24 : BitVec 8).toNat = 24 := rfl
  rw [BitVec.lt_def, BitVec.toNat_ofNat, hbound]
  omega

theorem initLoop_entry (hslot : slot < 24) (cpu_bitmask : BitVec 8) {rounds : Nat}
    (hrounds : rounds ≤ 24) :
    (initLoop chip cpu_bitmask rounds).entry slot =
      if slot.toNat < rounds then (chip.entry slot).init cpu_bitmask
      else chip.entry slot := by
  induction rounds with
  | zero => rfl
  | succ k ih =>
      have hk := ofNat_lt hrounds
      have hstep : initLoop chip cpu_bitmask (k + 1) =
          (initLoop chip cpu_bitmask k).initEntry cpu_bitmask
            (Chip.reg (BitVec.ofNat 8 k)) := by
        rw [initLoop, List.range_succ, List.foldl_append]
        rfl
      rw [hstep, initEntry_entry _ hk hslot]
      by_cases heq : slot = BitVec.ofNat 8 k
      · have hnumber : slot.toNat = k := by
          rw [heq, BitVec.toNat_ofNat]
          omega
        rw [if_pos heq, ← heq, ih (by omega), if_neg (by omega), if_pos (by omega)]
      · have hnumber : slot.toNat ≠ k := fun hsame => heq (by
          rw [← hsame, BitVec.ofNat_toNat, BitVec.setWidth_eq])
        rw [if_neg heq, ih (by omega)]
        by_cases hlt : slot.toNat < k
        · rw [if_pos hlt, if_pos (by omega)]
        · rw [if_neg hlt, if_neg (by omega)]

theorem initLoop_outside (cpu_bitmask : BitVec 8) {rounds : Nat} (hrounds : rounds ≤ 24)
    {index : BitVec 8} (houtside : Outside index) :
    (initLoop chip cpu_bitmask rounds).registers index = chip.registers index := by
  induction rounds with
  | zero => rfl
  | succ k ih =>
      rw [initLoop, List.range_succ, List.foldl_append]
      exact (initEntry_outside _ (ofNat_lt hrounds) cpu_bitmask houtside).trans
        (ih (by omega))

def cpuBitmask (numCPUs : Nat) : BitVec 8 := ((1 : BitVec 32) <<< numCPUs - 1).setWidth 8

theorem init_eq (ioapicID : BitVec 8) (numCPUs : Nat) :
    chip.init ioapicID numCPUs =
      initLoop ((chip.readReg 0).2.writeReg 0
        (put (chip.registers 0) 24 (ioapicID.setWidth 4))) (cpuBitmask numCPUs) 24 := rfl

theorem write_zero (value : Register) (index : BitVec 8) :
    (chip.writeReg 0 value).registers index =
      if index = 0 then value else chip.registers index := rfl

theorem init_table (hslot : slot < 24) (ioapicID : BitVec 8) (numCPUs : Nat) :
    (chip.init ioapicID numCPUs).entry slot =
      (chip.entry slot).init (cpuBitmask numCPUs) := by
  have hlow : lowIndex slot ≠ 0 := by
    unfold lowIndex
    bv_omega
  have hhigh : highIndex slot ≠ 0 := by
    unfold highIndex
    bv_omega
  have hlt : slot.toNat < 24 := BitVec.lt_def.mp hslot
  rw [init_eq, initLoop_entry _ hslot _ (Nat.le_refl 24), if_pos hlt]
  simp only [Chip.entry, write_zero, if_neg hlow, if_neg hhigh, read_registers]

theorem init_id (ioapicID : BitVec 8) (numCPUs : Nat) :
    (chip.init ioapicID numCPUs).registers 0 =
      put (chip.registers 0) 24 (ioapicID.setWidth 4) := by
  rw [init_eq, initLoop_outside _ _ (Nat.le_refl 24) (.inl (by decide))]
  rfl

theorem init_outside (ioapicID : BitVec 8) (numCPUs : Nat) {index : BitVec 8}
    (houtside : Outside index) (hzero : index ≠ 0) :
    (chip.init ioapicID numCPUs).registers index = chip.registers index := by
  rw [init_eq, initLoop_outside _ _ (Nat.le_refl 24) houtside, write_zero, if_neg hzero]
  rfl

end Table

/-! ### Calls of the driver -/

/-- A call for a slot, or the chip itself sets the read-only bits. -/
inductive Call
  | config (slot vector : BitVec 8) (triggerMode polarity : BitVec 1)
  | allow (slot : BitVec 8)
  | forbid (slot : BitVec 8)
  | status (slot : BitVec 8)
  | signal (slot : BitVec 8) (deliveryStatus remoteIRR : BitVec 1)

def Call.slot : Call → BitVec 8
  | config slot .. | allow slot | forbid slot | status slot | signal slot .. => slot

def Chip.signal (chip : Chip) (slot : BitVec 8) (deliveryStatus remoteIRR : BitVec 1) :
    Chip where
  ioregsel := chip.ioregsel
  registers index :=
    if index = lowIndex slot then
      put (put (chip.registers index) 12 deliveryStatus) 14 remoteIRR
    else chip.registers index

def Chip.perform (chip : Chip) : Call → Chip
  | .config slot vector triggerMode polarity =>
      chip.config slot vector triggerMode polarity
  | .allow slot => chip.allow slot
  | .forbid slot => chip.forbid slot
  | .status slot => (chip.status slot).2
  | .signal slot deliveryStatus remoteIRR => chip.signal slot deliveryStatus remoteIRR

def Entry.perform (e : Entry) : Call → Entry
  | .config _ vector triggerMode polarity => e.config vector triggerMode polarity
  | .allow _ => e.allow
  | .forbid _ => e.forbid
  | .status _ => e
  | .signal _ deliveryStatus remoteIRR => e.signal deliveryStatus remoteIRR

def allowed (was : Bool) : Call → Bool
  | .allow _ => true
  | .forbid _ => false
  | _ => was

section Calls

variable {slot : BitVec 8} (chip : Chip)

theorem perform_entry {call : Call} (hcall : call.slot < 24) (hslot : slot < 24) :
    (chip.perform call).entry slot =
      if slot = call.slot then (chip.entry call.slot).perform call
      else chip.entry slot := by
  cases call with
  | config slot' vector triggerMode polarity =>
      exact config_entry chip hcall hslot vector triggerMode polarity
  | allow slot' => exact allow_entry chip hcall hslot
  | forbid slot' => exact forbid_entry chip hcall hslot
  | status slot' =>
      by_cases heq : slot = slot'
      · rw [Call.slot, if_pos heq, heq]
        rfl
      · rw [Call.slot, if_neg heq]
        rfl
  | signal slot' deliveryStatus remoteIRR =>
      rw [Chip.perform, Call.slot, Chip.entry, Chip.entry, Chip.entry, Chip.signal]
      simp only [if_neg (lowIndex_ne_highIndex slot' slot).symm]
      by_cases heq : slot = slot'
      · simp [heq, Entry.of, Entry.perform, Entry.signal, get_put_self, get_put_of_apart]
      · have hne : lowIndex slot ≠ lowIndex slot' := fun hsame =>
          heq (lowIndex_inj hslot hcall hsame)
        rw [if_neg heq, if_neg hne]

theorem perform_outside {call : Call} (hcall : call.slot < 24) {index : BitVec 8}
    (houtside : Outside index) :
    (chip.perform call).registers index = chip.registers index := by
  have hne := houtside.ne_low hcall
  cases call with
  | config slot' vector triggerMode polarity =>
      exact (write_low _ _ hcall index).trans (if_neg hne)
  | allow slot' => exact (write_low _ _ hcall index).trans (if_neg hne)
  | forbid slot' => exact (write_low _ _ hcall index).trans (if_neg hne)
  | status slot' => rfl
  | signal slot' deliveryStatus remoteIRR => exact if_neg hne

def Entry.run (slot : BitVec 8) (e : Entry) (calls : List Call) : Entry :=
  calls.foldl (fun e call => if slot = call.slot then e.perform call else e) e

theorem run_entry {calls : List Call} (hcalls : ∀ call ∈ calls, call.slot < 24)
    (hslot : slot < 24) :
    (calls.foldl Chip.perform chip).entry slot = (chip.entry slot).run slot calls := by
  induction calls generalizing chip with
  | nil => rfl
  | cons call rest ih =>
      have hfirst := perform_entry chip (hcalls call List.mem_cons_self) hslot
      have hrest := ih (chip.perform call)
        fun other hother => hcalls other (List.mem_cons_of_mem _ hother)
      rw [List.foldl_cons, hrest, hfirst, Entry.run, Entry.run, List.foldl_cons]
      congr 1
      by_cases heq : slot = call.slot
      · rw [if_pos heq, if_pos heq, heq]
      · rw [if_neg heq, if_neg heq]

theorem run_outside {calls : List Call} (hcalls : ∀ call ∈ calls, call.slot < 24)
    {index : BitVec 8} (houtside : Outside index) :
    (calls.foldl Chip.perform chip).registers index = chip.registers index := by
  induction calls generalizing chip with
  | nil => rfl
  | cons call rest ih =>
      rw [List.foldl_cons, ih _ fun other hother => hcalls other (List.mem_cons_of_mem _ hother)]
      exact perform_outside chip (hcalls call List.mem_cons_self) houtside

theorem run_mask (slot : BitVec 8) (e : Entry) (calls : List Call) :
    ((e.run slot calls).mask == maskEnabled) =
      calls.foldl (fun was call => if slot = call.slot then allowed was call else was)
        (e.mask == maskEnabled) := by
  induction calls generalizing e with
  | nil => rfl
  | cons call rest ih =>
      rw [Entry.run, List.foldl_cons, List.foldl_cons]
      refine (ih _).trans ?_
      congr 1
      by_cases heq : slot = call.slot
      · rw [if_pos heq, if_pos heq]
        cases call <;> rfl
      · rw [if_neg heq, if_neg heq]

/-- The table after `init` and any further calls: every entry is what the calls for its
slot make of it, whatever is read and written for the others, and every slot is masked
that has not been allowed since. -/
theorem redirection_table (ioapicID : BitVec 8) (numCPUs : Nat) {calls : List Call}
    (hcalls : ∀ call ∈ calls, call.slot < 24) :
    let chip' := calls.foldl Chip.perform (chip.init ioapicID numCPUs)
    (∀ slot, slot < 24 →
      chip'.entry slot =
        ((chip.entry slot).init (cpuBitmask numCPUs)).run slot calls ∧
      (chip'.status slot).1 = calls.foldl
        (fun was call => if slot = call.slot then allowed was call else was) false) ∧
    chip'.registers 0 = put (chip.registers 0) 24 (ioapicID.setWidth 4) ∧
    ∀ index, Outside index → index ≠ 0 → chip'.registers index = chip.registers index := by
  intro chip'
  refine ⟨fun slot hslot => ?_, ?_, fun index houtside hzero => ?_⟩
  · have hentry : chip'.entry slot =
        ((chip.entry slot).init (cpuBitmask numCPUs)).run slot calls := by
      rw [← init_table chip hslot ioapicID numCPUs]
      exact run_entry _ hcalls hslot
    refine ⟨hentry, ?_⟩
    rw [status_eq, hentry, run_mask]
    rfl
  · rw [← init_id chip ioapicID numCPUs]
    exact run_outside _ hcalls (.inl (by decide))
  · rw [← init_outside chip ioapicID numCPUs houtside hzero]
    exact run_outside _ hcalls houtside

/-- The keyboard at slot 1. -/
theorem redirection_table_keyboard :
    let chip' := [Call.config 1 33 triggerModeLevel polarityHigh, .allow 1].foldl
      Chip.perform (Chip.init ⟨0, fun _ => 0⟩ 1 2)
    (chip'.entry 1).vector = 33 ∧ (chip'.status 1).1 = true ∧ (chip'.status 2).1 = false := by
  have hcalls : ∀ call ∈ [Call.config 1 33 triggerModeLevel polarityHigh, .allow 1],
      call.slot < 24 := by decide
  have htable := (redirection_table ⟨0, fun _ => 0⟩ 1 2 hcalls).1
  refine ⟨?_, (htable 1 (by decide)).2, (htable 2 (by decide)).2⟩
  rw [(htable 1 (by decide)).1]
  rfl

end Calls

end IOAPIC

end X86Os32
