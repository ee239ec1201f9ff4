import X86Os32.Library.Runs
import X86Os32.Machine.SystemConfig

namespace X86Os32

open Library

/-! The start of the other processors: `bootCPU` and `setupThisProcessor` of
`machine/apicsystem.cc`, with the loop of `main` and the way through
`boot/startup.asm`.  The processors have the numbers under which `sys_conf` lists
them, and 0 is the boot processor. -/

namespace APBoot

structure Setting where
  conf : SystemConfig
  cpuStack : UInt32

/-- `getNumberOfCPUs` -/
def Setting.cpuCount (c : Setting) : Nat := c.conf.cpuCount

def Setting.lapicId (c : Setting) (i : Nat) : UInt32 :=
  if h : i < cpuMax then c.conf.lapicId ⟨i, h⟩ else 0

/-- `&cpu_stack[i * CPU_STACK_SIZE]` -/
def Setting.stack (c : Setting) (i : Nat) : UInt32 :=
  c.cpuStack + UInt32.ofNat i * 4096

inductive BSP
  /-- `bootCPU(i, startup_stack)` is called next, if there is a processor `i`. -/
  | loop (i : Nat)
  /-- The stack is set, and the IPIs are sent. -/
  | sent (i : Nat)
  /-- The number is set, and the callin is awaited. -/
  | waiting (i : Nat)
deriving DecidableEq, Repr

inductive AP
  | off
  /-- In `setup_ap` and `startup`. -/
  | startup
  /-- In `kernel_init`, where `callout_cpu_number` is awaited. -/
  | kernelInit (esp : UInt32)
  /-- `cpu_id` is read. -/
  | setup (esp : UInt32) (cpuId : UInt8)
  /-- The LAPIC is set up, and the callin comes next. -/
  | callin (esp : UInt32) (cpuId : UInt8)
  | mainAP (esp : UInt32) (cpuId : UInt8)
deriving DecidableEq, Repr

structure Boot where
  apStack : UInt32
  calloutCPUNumber : Int8
  cpuID : UInt32 → UInt8
  logicalLAPICID : UInt8 → UInt8
  onlineCPUs : Nat
  bsp : BSP
  ap : Nat → AP

inductive Event
  | bootCPU
  /-- The startup IPI gets to its processor, if need be late. -/
  | startup (j : Nat)
  | delivered
  | undelivered
  | calledIn
  | timeout
  | loadStack (j : Nat)
  | takeNumber (j : Nat)
  | setLAPIC (j : Nat)
  | callIn (j : Nat)
deriving DecidableEq, Repr

/-- `1 << cpu_id` as an `unsigned char`. -/
def llapicId (cpuId : UInt8) : UInt8 :=
  if cpuId.toNat < 8 then 1 <<< cpuId else 0

def BSP.called : BSP → Nat → Bool
  | .loop i, j => 0 < j && j < i
  | .sent i, j | .waiting i, j => 0 < j && j ≤ i

def Boot.setAP (s : Boot) (j : Nat) (ap : AP) : Boot :=
  { s with ap := fun j' => if j' = j then ap else s.ap j' }

/-- What a processor does next, `none` where the event is not its next one. -/
def step (c : Setting) (s : Boot) : Event → Option Boot
  | .bootCPU =>
      match s.bsp with
      | .loop i =>
          if i < c.cpuCount then
            some { s with apStack := c.stack i, calloutCPUNumber := -1, bsp := .sent i }
          else none
      | _ => none
  | .startup j =>
      if s.bsp.called j ∧ s.ap j = .off then some (s.setAP j .startup) else none
  | .delivered =>
      match s.bsp with
      | .sent i =>
          some { s with calloutCPUNumber := Int8.ofNat i, bsp := .waiting i }
      | _ => none
  | .undelivered =>
      match s.bsp with
      | .sent i => some { s with bsp := .loop (i + 1) }
      | _ => none
  | .calledIn =>
      match s.bsp with
      | .waiting i =>
          if s.calloutCPUNumber = -1 then
            some { s with onlineCPUs := s.onlineCPUs + 1, bsp := .loop (i + 1) }
          else none
      | _ => none
  | .timeout =>
      match s.bsp with
      | .waiting i => some { s with bsp := .loop (i + 1) }
      | _ => none
  | .loadStack j =>
      match s.ap j with
      | .startup => some (s.setAP j (.kernelInit s.apStack))
      | _ => none
  | .takeNumber j =>
      match s.ap j with
      | .kernelInit esp =>
          if s.calloutCPUNumber < 0 then none
          else some (s.setAP j (.setup esp s.calloutCPUNumber.toUInt8))
      | _ => none
  | .setLAPIC j =>
      match s.ap j with
      | .setup esp cpuId =>
          some { s.setAP j (.callin esp cpuId) with
            logicalLAPICID := fun k =>
              if k = cpuId then llapicId cpuId else s.logicalLAPICID k
            cpuID := fun k => if k = c.lapicId j then cpuId else s.cpuID k }
      | _ => none
  | .callIn j =>
      match s.ap j with
      | .callin esp cpuId =>
          some { s.setAP j (.mainAP esp cpuId) with calloutCPUNumber := -1 }
      | _ => none

def Initial (c : Setting) (s : Boot) : Prop :=
  s.bsp = .loop 1 ∧ (∀ j, s.ap j = .off) ∧ s.onlineCPUs = 1 ∧
    s.cpuID (c.lapicId 0) = 0 ∧ s.logicalLAPICID 0 = llapicId 0

/-- The boot processor gives up only processors that never start. -/
def Punctual (s : Boot) : Event → Bool
  | .startup j =>
      match s.bsp with
      | .sent i | .waiting i => j == i
      | .loop _ => false
  | .undelivered | .timeout =>
      match s.bsp with
      | .sent i | .waiting i => s.ap i == .off
      | .loop _ => true
  | _ => true

/-! ### The invariant -/

def BSP.number : BSP → Nat
  | .loop i | .sent i | .waiting i => i

def AP.known : AP → Bool
  | .callin _ _ | .mainAP _ _ => true
  | _ => false

def AP.running : AP → Bool
  | .mainAP _ _ => true
  | _ => false

/-- How far the boot processor and the processor `i` may be while it is booted. -/
inductive Stage (c : Setting) (i : Nat) : BSP → AP → Int8 → Prop
  | sentOff : Stage c i (.sent i) .off (-1)
  | sentStartup : Stage c i (.sent i) .startup (-1)
  | sentInit : Stage c i (.sent i) (.kernelInit (c.stack i)) (-1)
  | off : Stage c i (.waiting i) .off (Int8.ofNat i)
  | startup : Stage c i (.waiting i) .startup (Int8.ofNat i)
  | kernelInit : Stage c i (.waiting i) (.kernelInit (c.stack i)) (Int8.ofNat i)
  | setup : Stage c i (.waiting i) (.setup (c.stack i) (UInt8.ofNat i)) (Int8.ofNat i)
  | callin : Stage c i (.waiting i) (.callin (c.stack i) (UInt8.ofNat i)) (Int8.ofNat i)
  | mainAP : Stage c i (.waiting i) (.mainAP (c.stack i) (UInt8.ofNat i)) (-1)

/-- Every processor that has set up its LAPIC is found under its number. -/
def Registered (c : Setting) (s : Boot) : Prop :=
  ∀ j, j = 0 ∨ (s.ap j).known → j < c.cpuCount →
    s.cpuID (c.lapicId j) = UInt8.ofNat j ∧
      s.logicalLAPICID (UInt8.ofNat j) = llapicId (UInt8.ofNat j)

/-- At most one processor is being booted, and those before it are in `main_ap` or have
never started. -/
structure Orderly (c : Setting) (s : Boot) : Prop where
  zero : s.ap 0 = .off
  past : ∀ j, j < s.bsp.number →
    s.ap j = .off ∨ s.ap j = .mainAP (c.stack j) (UInt8.ofNat j)
  later : ∀ j, s.bsp.number < j → s.ap j = .off
  number : 1 ≤ s.bsp.number
  present : match s.bsp with
    | .loop i => s.ap i = .off ∧ (i ≤ c.cpuCount ∨ i = 1)
    | .sent i | .waiting i => i < c.cpuCount ∧ s.apStack = c.stack i ∧
        Stage c i s.bsp (s.ap i) s.calloutCPUNumber
  registered : Registered c s
  online : s.onlineCPUs =
    1 + (List.range s.bsp.number).countP fun j => (s.ap j).running

section Steps

variable {c : Setting} {s s' : Boot} {i j : Nat}

structure Advances (c : Setting) (i : Nat) (s s' : Boot) : Prop where
  number : s.bsp.number = i
  stage : Stage c i s'.bsp (s'.ap i) s'.calloutCPUNumber
  others : ∀ j, j ≠ i → s'.ap j = s.ap j
  apStack : s'.apStack = c.stack i
  onlineCPUs : s'.onlineCPUs = s.onlineCPUs
  registered : Registered c s'

theorem Stage.number {bsp : BSP} {ap : AP} {callout : Int8}
    (hstage : Stage c i bsp ap callout) : bsp.number = i := by
  cases hstage <;> rfl

theorem Orderly.advance (horderly : Orderly c s) (hadvances : Advances c i s s')
    (hcount : i < c.cpuCount) : Orderly c s' := by
  obtain ⟨hnumber, hstage, hothers, hap_stack, hcpus, hregistered⟩ := hadvances
  have hnumber' := hstage.number
  have hpos := horderly.number
  have honline := horderly.online
  rw [hnumber] at hpos honline
  refine ⟨?_, fun j hj => ?_, fun j hj => ?_, hnumber' ▸ hpos, ?_, hregistered, ?_⟩
  · rw [hothers 0 (by omega)]
    exact horderly.zero
  · rw [hnumber'] at hj
    rw [hothers j (by omega)]
    exact horderly.past j (by omega)
  · rw [hnumber'] at hj
    rw [hothers j (by omega)]
    exact horderly.later j (by omega)
  · generalize s'.bsp = bsp at hstage hnumber'
    subst hnumber'
    cases bsp with
    | loop i => cases hstage
    | sent i => exact ⟨hcount, hap_stack, hstage⟩
    | waiting i => exact ⟨hcount, hap_stack, hstage⟩
  · rw [hcpus, honline, hnumber']
    congr 1
    refine List.countP_congr fun j hj => ?_
    have hlt := List.mem_range.mp hj
    rw [hothers j (by omega)]

theorem Orderly.booting (horderly : Orderly c s) (hoff : s.ap j ≠ .off)
    (hrunning : (s.ap j).running = false) :
    s.bsp.number = j ∧ j < c.cpuCount ∧ s.apStack = c.stack j ∧
      Stage c j s.bsp (s.ap j) s.calloutCPUNumber := by
  have hpast : ¬j < s.bsp.number := by
    intro hlt
    rcases horderly.past j hlt with hap | hap
    · exact hoff hap
    · rw [hap] at hrunning
      cases hrunning
  have hlater : ¬s.bsp.number < j := fun hlt => hoff (horderly.later j hlt)
  have hnumber : s.bsp.number = j := by omega
  have hpresent := horderly.present
  generalize s.bsp = bsp at hnumber hpresent
  subst hnumber
  cases bsp with
  | loop i => exact absurd hpresent.1 hoff
  | sent i => exact ⟨rfl, hpresent⟩
  | waiting i => exact ⟨rfl, hpresent⟩

theorem Stage.load {bsp : BSP} {callout : Int8}
    (hstage : Stage c i bsp .startup callout) :
    Stage c i bsp (.kernelInit (c.stack i)) callout := by
  cases hstage <;> constructor

theorem Stage.start {bsp : BSP} {callout : Int8} (hstage : Stage c i bsp .off callout) :
    Stage c i bsp .startup callout := by
  cases hstage <;> constructor

theorem ofNat_toUInt8 (hi : i < cpuMax) : (Int8.ofNat i).toUInt8 = UInt8.ofNat i := by
  revert i
  decide

theorem Stage.take {bsp : BSP} {esp : UInt32} {callout : Int8} (hi : i < cpuMax)
    (hstage : Stage c i bsp (.kernelInit esp) callout) (hcallout : ¬callout < 0) :
    Stage c i bsp (.setup esp callout.toUInt8) callout := by
  cases hstage with
  | sentInit => exact absurd (by decide) hcallout
  | kernelInit =>
      rw [ofNat_toUInt8 hi]
      exact .setup

theorem Stage.set {bsp : BSP} {esp : UInt32} {cpuId : UInt8} {callout : Int8}
    (hstage : Stage c i bsp (.setup esp cpuId) callout) :
    cpuId = UInt8.ofNat i ∧ Stage c i bsp (.callin esp cpuId) callout := by
  cases hstage with
  | setup => exact ⟨rfl, .callin⟩

theorem Stage.call {bsp : BSP} {esp : UInt32} {cpuId : UInt8} {callout : Int8}
    (hstage : Stage c i bsp (.callin esp cpuId) callout) :
    Stage c i bsp (.mainAP esp cpuId) (-1) := by
  cases hstage with
  | callin => exact .mainAP

theorem Stage.deliver {ap : AP} {callout : Int8}
    (hstage : Stage c i (.sent i) ap callout) :
    Stage c i (.waiting i) ap (Int8.ofNat i) := by
  cases hstage <;> constructor

@[simp] theorem setAP_self (s : Boot) (j : Nat) (ap : AP) : (s.setAP j ap).ap j = ap :=
  if_pos rfl

theorem setAP_of_ne (s : Boot) {j k : Nat} (hne : k ≠ j) (ap : AP) :
    (s.setAP j ap).ap k = s.ap k := if_neg hne

theorem Registered.setAP (hregistered : Registered c s) {ap : AP}
    (hknown : ap.known → (s.ap j).known) : Registered c (s.setAP j ap) := by
  intro k hk
  refine hregistered k (hk.imp id fun hk => ?_)
  by_cases heq : k = j
  · subst heq
    rw [setAP_self] at hk
    exact hknown hk
  · rwa [setAP_of_ne s heq] at hk

theorem Orderly.setAP (horderly : Orderly c s) (hnumber : s.bsp.number = i)
    (hcount : i < c.cpuCount) (hstack : s.apStack = c.stack i) {ap : AP}
    (hstage : Stage c i s.bsp ap s.calloutCPUNumber)
    (hknown : ap.known → (s.ap i).known) : Orderly c (s.setAP i ap) := by
  refine horderly.advance ⟨hnumber, ?_, fun j hj => setAP_of_ne s hj ap, hstack, rfl,
    horderly.registered.setAP hknown⟩ hcount
  rw [setAP_self]
  exact hstage

theorem ofNat_inj (hi : i < cpuMax) (hj : j < cpuMax)
    (heq : UInt8.ofNat i = UInt8.ofNat j) : i = j := by
  have hall : ∀ i < cpuMax, ∀ j < cpuMax, UInt8.ofNat i = UInt8.ofNat j → i = j := by
    decide
  exact hall i hi j hj heq

theorem Orderly.leave (horderly : Orderly c s) (hnumber : s.bsp.number = i)
    (hcount : i < c.cpuCount)
    (hap : s.ap i = .off ∨ s.ap i = .mainAP (c.stack i) (UInt8.ofNat i))
    (hsame : s' = { s with
      bsp := .loop (i + 1)
      onlineCPUs := s.onlineCPUs + if (s.ap i).running then 1 else 0 }) :
    Orderly c s' := by
  subst hsame
  have honline := horderly.online
  rw [hnumber] at honline
  refine ⟨horderly.zero, fun j hj => ?_, fun j hj => ?_, Nat.succ_pos i, ⟨?_, .inl hcount⟩,
    horderly.registered, ?_⟩
  · rcases Nat.lt_succ_iff_lt_or_eq.mp hj with hlt | rfl
    · exact horderly.past j (hnumber ▸ hlt)
    · exact hap
  · exact horderly.later j (hnumber ▸ Nat.lt_of_succ_lt hj)
  · exact horderly.later (i + 1) (hnumber ▸ Nat.lt_succ_self i)
  · simp only [BSP.number, List.range_succ, List.countP_append, List.countP_singleton,
      honline, Nat.add_assoc]

theorem Orderly.bootCPU (horderly : Orderly c s)
    (hstep : step c s .bootCPU = some s') : Orderly c s' := by
  cases hbsp : s.bsp with
  | loop i =>
      simp only [step, hbsp] at hstep
      split at hstep
      · next hcount =>
          obtain rfl := Option.some.inj hstep
          have hoff : s.ap i = .off := by
            have hpresent := horderly.present
            rw [hbsp] at hpresent
            exact hpresent.1
          have hnumber : s.bsp.number = i := by rw [hbsp]; rfl
          refine horderly.advance ⟨hnumber, ?_, fun _ _ => rfl, rfl, rfl,
            horderly.registered⟩ hcount
          simp only [hoff]
          exact .sentOff
      · cases hstep
  | _ => simp [step, hbsp] at hstep

theorem Orderly.active (horderly : Orderly c s) (hbsp : s.bsp = .sent i ∨ s.bsp = .waiting i) :
    s.bsp.number = i ∧ i < c.cpuCount ∧ s.apStack = c.stack i ∧
      Stage c i s.bsp (s.ap i) s.calloutCPUNumber := by
  have hpresent := horderly.present
  rcases hbsp with hbsp | hbsp
  · rw [hbsp] at hpresent ⊢
    exact ⟨rfl, hpresent⟩
  · rw [hbsp] at hpresent ⊢
    exact ⟨rfl, hpresent⟩

theorem Orderly.startup (horderly : Orderly c s) (hpunctual : Punctual s (.startup j))
    (hstep : step c s (.startup j) = some s') : Orderly c s' := by
  have hbsp : s.bsp = .sent j ∨ s.bsp = .waiting j := by
    cases hbsp : s.bsp <;> simp_all [Punctual]
  obtain ⟨hnumber, hcount, hstack, hstage⟩ := horderly.active hbsp
  simp only [step] at hstep
  split at hstep
  · next hoff =>
      obtain rfl := Option.some.inj hstep
      rw [hoff.2] at hstage
      exact horderly.setAP hnumber hcount hstack hstage.start nofun
  · cases hstep

theorem Orderly.delivered (horderly : Orderly c s)
    (hstep : step c s .delivered = some s') : Orderly c s' := by
  cases hbsp : s.bsp with
  | sent i =>
      obtain ⟨hnumber, hcount, hstack, hstage⟩ := horderly.active (.inl hbsp)
      rw [hbsp] at hstage
      simp only [step, hbsp, Option.some.injEq] at hstep
      subst hstep
      exact horderly.advance ⟨hnumber, hstage.deliver, fun _ _ => rfl, hstack, rfl,
        horderly.registered⟩ hcount
  | _ => simp [step, hbsp] at hstep

theorem Orderly.undelivered (horderly : Orderly c s) (hpunctual : Punctual s .undelivered)
    (hstep : step c s .undelivered = some s') : Orderly c s' := by
  cases hbsp : s.bsp with
  | sent i =>
      obtain ⟨hnumber, hcount, -, -⟩ := horderly.active (.inl hbsp)
      have hoff : s.ap i = .off := by simpa [Punctual, hbsp] using hpunctual
      simp only [step, hbsp, Option.some.injEq] at hstep
      refine horderly.leave hnumber hcount (.inl hoff) ?_
      rw [← hstep, hoff]
      rfl
  | _ => simp [step, hbsp] at hstep

theorem Orderly.timeout (horderly : Orderly c s) (hpunctual : Punctual s .timeout)
    (hstep : step c s .timeout = some s') : Orderly c s' := by
  cases hbsp : s.bsp with
  | waiting i =>
      obtain ⟨hnumber, hcount, -, -⟩ := horderly.active (.inr hbsp)
      have hoff : s.ap i = .off := by simpa [Punctual, hbsp] using hpunctual
      simp only [step, hbsp, Option.some.injEq] at hstep
      refine horderly.leave hnumber hcount (.inl hoff) ?_
      rw [← hstep, hoff]
      rfl
  | _ => simp [step, hbsp] at hstep

theorem ofNat_ne_neg_one (hi : i < cpuMax) : Int8.ofNat i ≠ -1 := by
  revert i
  decide

/-- The number is only taken back by the processor that has come up. -/
theorem Stage.running (hi : i < cpuMax) {ap : AP}
    (hstage : Stage c i (.waiting i) ap (-1)) :
    ap = .mainAP (c.stack i) (UInt8.ofNat i) := by
  generalize hcallout : (-1 : Int8) = callout at hstage
  cases hstage with
  | mainAP => rfl
  | _ => exact absurd hcallout.symm (ofNat_ne_neg_one hi)

theorem Orderly.calledIn (hcpus : c.cpuCount ≤ cpuMax) (horderly : Orderly c s)
    (hstep : step c s .calledIn = some s') : Orderly c s' := by
  cases hbsp : s.bsp with
  | waiting i =>
      obtain ⟨hnumber, hcount, -, hstage⟩ := horderly.active (.inr hbsp)
      simp only [step, hbsp] at hstep
      split at hstep
      · next hcallout =>
          rw [hbsp, hcallout] at hstage
          have hap := hstage.running (Nat.lt_of_lt_of_le hcount hcpus)
          refine horderly.leave hnumber hcount (.inr hap) ?_
          rw [← Option.some.inj hstep, hap]
          rfl
      · cases hstep
  | _ => simp [step, hbsp] at hstep

theorem Orderly.loadStack (horderly : Orderly c s)
    (hstep : step c s (.loadStack j) = some s') : Orderly c s' := by
  cases hap : s.ap j with
  | startup =>
      obtain ⟨hnumber, hcount, hstack, hstage⟩ :=
        horderly.booting (by rw [hap]; decide) (by rw [hap]; rfl)
      rw [hap] at hstage
      simp only [step, hap, Option.some.injEq, hstack] at hstep
      rw [← hstep]
      exact horderly.setAP hnumber hcount hstack hstage.load nofun
  | _ => simp [step, hap] at hstep

theorem Orderly.takeNumber (hcpus : c.cpuCount ≤ cpuMax) (horderly : Orderly c s)
    (hstep : step c s (.takeNumber j) = some s') : Orderly c s' := by
  cases hap : s.ap j with
  | kernelInit esp =>
      obtain ⟨hnumber, hcount, hstack, hstage⟩ :=
        horderly.booting (by rw [hap]; nofun) (by rw [hap]; rfl)
      rw [hap] at hstage
      simp only [step, hap] at hstep
      split at hstep
      · cases hstep
      · next hcallout =>
          obtain rfl := Option.some.inj hstep
          have hstage' := hstage.take (Nat.lt_of_lt_of_le hcount hcpus) hcallout
          exact horderly.setAP hnumber hcount hstack hstage' nofun
  | _ => simp [step, hap] at hstep

theorem Orderly.setLAPIC (hcpus : c.cpuCount ≤ cpuMax)
    (hids : ∀ j < c.cpuCount, ∀ k < c.cpuCount, c.lapicId j = c.lapicId k → j = k)
    (horderly : Orderly c s) (hstep : step c s (.setLAPIC j) = some s') :
    Orderly c s' := by
  cases hap : s.ap j with
  | setup esp cpuId =>
      obtain ⟨hnumber, hcount, hstack, hstage⟩ :=
        horderly.booting (by rw [hap]; nofun) (by rw [hap]; rfl)
      rw [hap] at hstage
      obtain ⟨rfl, hstage'⟩ := hstage.set
      simp only [step, hap, Option.some.injEq] at hstep
      subst hstep
      refine horderly.advance ⟨hnumber, ?_, fun k hk => setAP_of_ne s hk _, hstack, rfl, ?_⟩
        hcount
      · rw [← setAP_self s j (.callin esp (UInt8.ofNat j))] at hstage'
        exact hstage'
      · intro k hk hkcount
        by_cases heq : k = j
        · subst heq
          exact ⟨if_pos rfl, if_pos rfl⟩
        · have hknown : k = 0 ∨ (s.ap k).known := hk.imp id fun hk => by
            rwa [← setAP_of_ne s heq]
          have hlapic : c.lapicId k ≠ c.lapicId j := fun hsame =>
            heq (hids k hkcount j hcount hsame)
          have hid : UInt8.ofNat k ≠ UInt8.ofNat j := fun hsame =>
            heq (ofNat_inj (Nat.lt_of_lt_of_le hkcount hcpus)
              (Nat.lt_of_lt_of_le hcount hcpus) hsame)
          obtain ⟨hcpuID, hlogical⟩ := horderly.registered k hknown hkcount
          exact ⟨(if_neg hlapic).trans hcpuID, (if_neg hid).trans hlogical⟩
  | _ => simp [step, hap] at hstep

theorem Orderly.callIn (horderly : Orderly c s)
    (hstep : step c s (.callIn j) = some s') : Orderly c s' := by
  cases hap : s.ap j with
  | callin esp cpuId =>
      obtain ⟨hnumber, hcount, hstack, hstage⟩ :=
        horderly.booting (by rw [hap]; nofun) (by rw [hap]; rfl)
      rw [hap] at hstage
      simp only [step, hap, Option.some.injEq] at hstep
      subst hstep
      refine horderly.advance ⟨hnumber, ?_, fun k hk => setAP_of_ne s hk _, hstack, rfl,
        horderly.registered.setAP fun _ => by rw [hap]; rfl⟩ hcount
      have hstage' := hstage.call
      rw [← setAP_self s j (.mainAP esp cpuId)] at hstage'
      exact hstage'
  | _ => simp [step, hap] at hstep

theorem Orderly.step (hcpus : c.cpuCount ≤ cpuMax)
    (hids : ∀ j < c.cpuCount, ∀ k < c.cpuCount, c.lapicId j = c.lapicId k → j = k)
    (horderly : Orderly c s) {event : Event} (hpunctual : Punctual s event)
    (hstep : step c s event = some s') : Orderly c s' := by
  cases event with
  | bootCPU => exact horderly.bootCPU hstep
  | startup j => exact horderly.startup hpunctual hstep
  | delivered => exact horderly.delivered hstep
  | undelivered => exact horderly.undelivered hpunctual hstep
  | calledIn => exact horderly.calledIn hcpus hstep
  | timeout => exact horderly.timeout hpunctual hstep
  | loadStack j => exact horderly.loadStack hstep
  | takeNumber j => exact horderly.takeNumber hcpus hstep
  | setLAPIC j => exact horderly.setLAPIC hcpus hids hstep
  | callIn j => exact horderly.callIn hstep

end Steps

/-! ### All runs -/

def AP.esp? : AP → Option UInt32
  | .kernelInit esp | .setup esp _ | .callin esp _ | .mainAP esp _ => some esp
  | _ => none

def AP.cpuId? : AP → Option UInt8
  | .setup _ cpuId | .callin _ cpuId | .mainAP _ cpuId => some cpuId
  | _ => none

theorem Stage.esp {c : Setting} {i : Nat} {bsp : BSP} {ap : AP} {callout : Int8}
    (hstage : Stage c i bsp ap callout) {esp : UInt32} (hesp : ap.esp? = some esp) :
    esp = c.stack i := by
  cases hstage <;> cases hesp <;> rfl

theorem Stage.cpuId {c : Setting} {i : Nat} {bsp : BSP} {ap : AP} {callout : Int8}
    (hstage : Stage c i bsp ap callout) {cpuId : UInt8} (hid : ap.cpuId? = some cpuId) :
    cpuId = UInt8.ofNat i := by
  cases hstage <;> cases hid <;> rfl

theorem Orderly.number_le {c : Setting} {s : Boot} (horderly : Orderly c s) :
    s.bsp.number ≤ c.cpuCount ∨ s.bsp.number = 1 := by
  have hpresent := horderly.present
  cases hbsp : s.bsp with
  | loop i =>
      rw [hbsp] at hpresent
      exact hpresent.2
  | sent i =>
      rw [hbsp] at hpresent
      exact .inl (Nat.le_of_lt hpresent.1)
  | waiting i =>
      rw [hbsp] at hpresent
      exact .inl (Nat.le_of_lt hpresent.1)

theorem Orderly.started {c : Setting} {s : Boot} (horderly : Orderly c s) {j : Nat}
    (hoff : s.ap j ≠ .off) : 0 < j ∧ (∀ esp, (s.ap j).esp? = some esp → esp = c.stack j) ∧
      (∀ cpuId, (s.ap j).cpuId? = some cpuId → cpuId = UInt8.ofNat j) ∧
      j < c.cpuCount := by
  have hpos : 0 < j := Nat.pos_of_ne_zero fun heq => hoff (heq ▸ horderly.zero)
  refine ⟨hpos, ?_⟩
  by_cases hpast : j < s.bsp.number
  · rcases horderly.past j hpast with hap | hap
    · exact absurd hap hoff
    · rw [hap]
      refine ⟨fun esp hesp => (Option.some.inj hesp).symm,
        fun cpuId hid => (Option.some.inj hid).symm, ?_⟩
      rcases horderly.number_le with hle | hone <;> omega
  · have hnumber : s.bsp.number = j := by
      have hnotlater : ¬s.bsp.number < j := fun hlt => hoff (horderly.later j hlt)
      omega
    obtain ⟨hcount, hstage⟩ : j < c.cpuCount ∧
        Stage c j s.bsp (s.ap j) s.calloutCPUNumber := by
      have hpresent := horderly.present
      generalize s.bsp = bsp at hnumber hpresent
      subst hnumber
      cases bsp with
      | loop i => exact absurd hpresent.1 hoff
      | sent i => exact ⟨hpresent.1, hpresent.2.2⟩
      | waiting i => exact ⟨hpresent.1, hpresent.2.2⟩
    exact ⟨fun esp => hstage.esp, fun cpuId => hstage.cpuId, hcount⟩

def three : Setting where
  conf := { SystemConfig.constructed with cpuCount := 3, lapicId := fun i => UInt32.ofNat i }
  cpuStack := 0x10000

def threeStart : Boot where
  apStack := 0
  calloutCPUNumber := -1
  cpuID _ := 0
  logicalLAPICID _ := 1
  onlineCPUs := 1
  bsp := .loop 1
  ap _ := .off

/-- A processor that starts after the boot processor has given it up can get the stack
of the next one. -/
theorem late_processor_gets_next_stack :
    ∃ s, Runs.run (step three) threeStart
        [.bootCPU, .delivered, .timeout, .bootCPU, .startup 2, .startup 1,
          .loadStack 1, .loadStack 2] = some s ∧
      (s.ap 1).esp? = some (three.stack 2) ∧ (s.ap 2).esp? = some (three.stack 2) :=
  ⟨_, rfl, rfl, rfl⟩

end APBoot

end X86Os32
