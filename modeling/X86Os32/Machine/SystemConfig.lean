import Mathlib.Logic.Function.Basic

namespace X86Os32

/-! `system_configuration` of `machine/apicsystem.h`. -/

def cpuMax : Nat := 8

/-- `ioapic_irqs` tells the device at a slot of the I/O APIC, `slot_map` the slot of a
device. -/
structure SystemConfig where
  cpuCount : Nat
  bspId : UInt32
  ioapicId : Int32
  disablePICs : Bool
  ioapicIRQs : Fin 24 → Int8
  slotMap : Fin 16 → Int8
  lapicId : Fin cpuMax → UInt32

def SystemConfig.constructed : SystemConfig where
  cpuCount := 0
  bspId := 0
  ioapicId := -1
  disablePICs := false
  ioapicIRQs := fun _ => -1
  slotMap := fun _ => -1
  lapicId := fun _ => 0

namespace SystemConfig

/-- The identifiers are those of the local APICs found, in the order in which they
were found; `lapic_id` has room for the first of them. -/
structure Lists (conf : SystemConfig) (ids : List UInt32) : Prop where
  cpuCount : conf.cpuCount = ids.length
  lapicId : ∀ i : Fin cpuMax, (i : Nat) < ids.length →
    ids[(i : Nat)]? = some (conf.lapicId i)

variable {conf conf' : SystemConfig} {ids : List UInt32}

theorem lists_constructed : constructed.Lists [] where
  cpuCount := rfl
  lapicId _ hi := absurd hi (Nat.not_lt_zero _)

theorem Lists.congr (hlists : conf.Lists ids) (hcount : conf'.cpuCount = conf.cpuCount)
    (hlapic : conf'.lapicId = conf.lapicId) : conf'.Lists ids where
  cpuCount := hcount.trans hlists.cpuCount
  lapicId i hi := by
    rw [hlapic]
    exact hlists.lapicId i hi

theorem Lists.push (hlists : conf.Lists ids) {id : UInt32}
    (hcount : conf'.cpuCount = conf.cpuCount + 1)
    (hnew : ∀ i : Fin cpuMax, i = conf.cpuCount → conf'.lapicId i = id)
    (hold : ∀ i : Fin cpuMax, (i : Nat) ≠ conf.cpuCount →
      conf'.lapicId i = conf.lapicId i) :
    conf'.Lists (ids ++ [id]) where
  cpuCount := by
    rw [hcount, hlists.cpuCount, List.length_append]
    rfl
  lapicId i hi := by
    rw [List.length_append, List.length_singleton] at hi
    by_cases hlast : (i : Nat) = conf.cpuCount
    · rw [hnew i hlast, hlast, hlists.cpuCount]
      exact List.getElem?_concat_length
    · have hlt : (i : Nat) < ids.length := by
        have hcount := hlists.cpuCount
        omega
      rw [hold i hlast, List.getElem?_append_left hlt]
      exact hlists.lapicId i hlt

theorem Lists.mem (hlists : conf.Lists ids) (i : Fin cpuMax)
    (hi : i < conf.cpuCount) : conf.lapicId i ∈ ids :=
  List.mem_of_getElem? (hlists.lapicId i (hlists.cpuCount ▸ hi))

end SystemConfig

/-- What keeps the detection of the processors from coming to its end. -/
inductive Crash
  | endlessLoop
  | outOfBounds
deriving DecidableEq

end X86Os32
