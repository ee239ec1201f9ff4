import X86Os32.Machine.IRQMap
import X86Os32.Machine.MPCounting

namespace X86Os32

open Library Library.Results

/-! `detectSystemType` of `machine/apicsystem.cc`: two configurations are searched for,
and one of them is used. -/

namespace APICSystem

inductive SystemType
  | mpAPIC
  | upAPIC
  | UNDETECTED
deriving DecidableEq

inductive ConfPtr
  | mpsConf
  | acpiConf

structure System where
  systemType : SystemType
  onlineCPUs : Nat
  mps : MPState
  acpiConf : SystemConfig
  sysConf : ConfPtr
  /-- The ports that were written to, with the values. -/
  written : List (UInt16 × UInt8)

def System.conf (s : System) : SystemConfig :=
  match s.sysConf with
  | .mpsConf => s.mps.conf
  | .acpiConf => s.acpiConf

def System.setConf (s : System) (conf : SystemConfig) : System :=
  match s.sysConf with
  | .mpsConf => { s with mps := { s.mps with conf } }
  | .acpiConf => { s with acpiConf := conf }

def System.disablePICs (s : System) : System :=
  { s with written := s.written ++ [(0x22, 0x70), (0x23, 0x01)] }

/-- The second half of `detectSystemType`.  Where the type is set to `UNDETECTED`, it
is overwritten at once. -/
def chooseConfig (mps : MPState) (acpiConf : SystemConfig) : System :=
  let sysConf :=
    if acpiConf.cpuCount ≥ mps.conf.cpuCount then .acpiConf else .mpsConf
  let s : System := ⟨.UNDETECTED, 1, mps, acpiConf, sysConf, []⟩
  let s := if s.conf.disablePICs then s.disablePICs else s
  let s := { s with systemType := if s.conf.cpuCount > 1 then .mpAPIC else .upAPIC }
  if s.systemType ≠ .mpAPIC then
    let s := s.setConf { s.conf with cpuCount := 1 }
    { s with onlineCPUs := 1 }
  else s

def detectSystemType (m : AddressSpace) : Except Crash System := do
  let mps ← MPSearch.searchAll m (MPSearch.areas m) .constructed
  let acpiConf ← ACPI.queryACPI m .constructed
  return chooseConfig mps (IRQMap.generateIRQMap acpiConf)

/-- What the memory holds for the detection: the tables that the search comes to, and
the structures of the MADT. -/
structure Holds (m : AddressSpace) (reads : List MPSearch.Read) (entries : List UInt32) :
    Prop where
  searches : MPSearch.Searches m 0 (MPSearch.areas m) reads
  structures : ACPI.Structures m entries

def processors (m : AddressSpace) (reads : List MPSearch.Read) (entries : List UInt32) :
    List UInt32 :=
  reads.flatMap (MPSearch.Read.processors m) ++ ACPI.processors m entries

def enabledIds (m : AddressSpace) (reads : List MPSearch.Read) (entries : List UInt32) :
    List UInt32 :=
  MPSearch.enabledIds m reads ++ ACPI.enabledIds m entries

/-- All arrays have room for the processors. -/
def Bounded (s : System) : Prop := 1 ≤ s.conf.cpuCount ∧ s.conf.cpuCount ≤ cpuMax

/-- If there is a processor entry, then all processors are enabled ones. -/
def Listed (m : AddressSpace) (s : System) : Prop :=
  ∀ reads entries, Holds m reads entries → processors m reads entries ≠ [] →
    ∀ i : Fin cpuMax, i < s.conf.cpuCount →
      s.conf.lapicId i ∈ enabledIds m reads entries

variable {m : AddressSpace} {mps : MPState} {acpiConf : SystemConfig} {s : System}
  {reads : List MPSearch.Read} {entries : List UInt32}

theorem Holds.unique {reads' : List MPSearch.Read} {entries' : List UInt32}
    (hholds : Holds m reads entries) (hholds' : Holds m reads' entries') :
    reads = reads' ∧ entries = entries' :=
  ⟨hholds.searches.unique hholds'.searches,
    hholds.structures.unique hholds'.structures⟩

/-! ### The choice -/

def larger (mps : MPState) (acpiConf : SystemConfig) : SystemConfig :=
  if acpiConf.cpuCount ≥ mps.conf.cpuCount then acpiConf else mps.conf

theorem chooseConfig_conf :
    (chooseConfig mps acpiConf).conf =
      if (larger mps acpiConf).cpuCount > 1 then larger mps acpiConf
      else { larger mps acpiConf with cpuCount := 1 } := by
  unfold chooseConfig larger
  by_cases hacpi : acpiConf.cpuCount ≥ mps.conf.cpuCount
  · by_cases hmany : acpiConf.cpuCount > 1
    · cases hpics : acpiConf.disablePICs <;>
        simp [hacpi, hmany, hpics, System.conf, System.disablePICs]
    · cases hpics : acpiConf.disablePICs <;>
        simp [hacpi, hmany, hpics, System.conf, System.setConf, System.disablePICs]
  · by_cases hmany : mps.conf.cpuCount > 1
    · cases hpics : mps.conf.disablePICs <;>
        simp [hacpi, hmany, hpics, System.conf, System.disablePICs]
    · cases hpics : mps.conf.disablePICs <;>
        simp [hacpi, hmany, hpics, System.conf, System.setConf, System.disablePICs]

theorem larger_cpuCount :
    (larger mps acpiConf).cpuCount = max mps.conf.cpuCount acpiConf.cpuCount := by
  unfold larger
  split <;> omega

theorem chooseConfig_cpuCount :
    (chooseConfig mps acpiConf).conf.cpuCount =
      max 1 (max mps.conf.cpuCount acpiConf.cpuCount) := by
  rw [chooseConfig_conf, ← larger_cpuCount]
  split
  · next hmany => omega
  · next hsingle =>
      dsimp only
      omega

theorem chooseConfig_lapicId :
    (chooseConfig mps acpiConf).conf.lapicId = (larger mps acpiConf).lapicId := by
  rw [chooseConfig_conf]
  split <;> rfl

theorem chooseConfig_mem {mpIds acpiIds : List UInt32} (hmps : mps.conf.Lists mpIds)
    (hacpi : ACPI.ListsFirst acpiConf acpiIds) (hany : mpIds ++ acpiIds ≠ [])
    (i : Fin cpuMax) (hi : i < (chooseConfig mps acpiConf).conf.cpuCount) :
    (chooseConfig mps acpiConf).conf.lapicId i ∈ mpIds ++ acpiIds := by
  have hmpCount := hmps.cpuCount
  have hacpiCount := hacpi.cpuCount
  have hsome : 1 ≤ max mps.conf.cpuCount acpiConf.cpuCount := by
    have hlength := List.length_pos_iff.mpr hany
    rw [List.length_append] at hlength
    rw [List.length_take] at hacpiCount
    unfold cpuMax at hacpiCount
    omega
  have hi' : i < (larger mps acpiConf).cpuCount := by
    rw [chooseConfig_cpuCount] at hi
    rw [larger_cpuCount]
    omega
  rw [chooseConfig_lapicId]
  unfold larger at hi' ⊢
  split at hi'
  · next hchosen =>
      rw [if_pos hchosen]
      exact List.mem_append_right _ (List.mem_of_mem_take (hacpi.mem i hi'))
  · next hchosen =>
      rw [if_neg hchosen]
      exact List.mem_append_left _ (hmps.mem i hi')

/-! ### The detection -/

theorem detectSystemType_ok (hdetect : detectSystemType m = .ok s) :
    ∃ mps acpiConf, MPSearch.searchAll m (MPSearch.areas m) .constructed = .ok mps ∧
      ACPI.queryACPI m .constructed = .ok acpiConf ∧
      s = chooseConfig mps (IRQMap.generateIRQMap acpiConf) := by
  obtain ⟨mps, hsearch, hdetect⟩ := bind_eq_ok.mp hdetect
  obtain ⟨acpiConf, hquery, hdetect⟩ := bind_eq_ok.mp hdetect
  exact ⟨mps, acpiConf, hsearch, hquery, (Except.ok.inj hdetect).symm⟩

/-- A detection that comes to its end has read what the memory holds. -/
theorem holds_of_detectSystemType (hdetect : detectSystemType m = .ok s) :
    ∃ reads entries, Holds m reads entries ∧ ACPI.SlotsFit m entries := by
  obtain ⟨mps, acpiConf, hsearch, hquery, -⟩ := detectSystemType_ok hdetect
  have hstart : MPState.constructed.conf.Lists [] := SystemConfig.lists_constructed
  obtain ⟨reads, hreads⟩ := MPSearch.searches_of_searchAll hsearch hstart
  obtain ⟨entries, hentries, hfit⟩ := ACPI.structures_of_queryACPI hquery
  exact ⟨reads, entries, ⟨hreads, hentries⟩, hfit⟩

theorem Holds.detectSystemType (hholds : Holds m reads entries)
    (hfit : ACPI.SlotsFit m entries) :
    ∃ s, detectSystemType m = .ok s ∧
      s.conf.cpuCount = max 1 (max (MPSearch.enabledIds m reads).length
        (min cpuMax (ACPI.enabledIds m entries).length)) ∧
      (enabledIds m reads entries ≠ [] →
        ∀ i : Fin cpuMax, i < s.conf.cpuCount →
          s.conf.lapicId i ∈ enabledIds m reads entries) := by
  have hstart : SystemConfig.constructed.Lists [] := SystemConfig.lists_constructed
  obtain ⟨mps, hsearch, hmps⟩ :=
    hholds.searches.searchAll (s := .constructed) hstart rfl
  obtain ⟨acpiConf, hquery, hqueried⟩ :=
    ACPI.queryACPI_of_structures hholds.structures hfit .constructed
  have hacpi : ACPI.ListsFirst (IRQMap.generateIRQMap acpiConf)
      (ACPI.enabledIds m entries) := (hqueried.lists [] hstart).congr rfl rfl
  rw [List.nil_append] at hmps
  refine ⟨chooseConfig mps (IRQMap.generateIRQMap acpiConf), ?_, ?_, ?_⟩
  · unfold APICSystem.detectSystemType
    rw [hsearch, hquery]
    rfl
  · rw [chooseConfig_cpuCount, hmps.cpuCount, hacpi.cpuCount, List.length_take]
  · exact chooseConfig_mem hmps hacpi

theorem Holds.few (hholds : Holds m reads entries) (hfit : ACPI.SlotsFit m entries)
    (hdetect : APICSystem.detectSystemType m = .ok s) (hbounded : Bounded s) :
    (MPSearch.enabledIds m reads).length ≤ cpuMax := by
  obtain ⟨s', hdetect', hcount, -⟩ := hholds.detectSystemType hfit
  obtain rfl := Except.ok.inj (hdetect.symm.trans hdetect')
  have hle := hbounded.2
  omega

theorem bounded_of_few
    (hcount : s.conf.cpuCount = max 1 (max (MPSearch.enabledIds m reads).length
      (min cpuMax (ACPI.enabledIds m entries).length)))
    (hfew : (MPSearch.enabledIds m reads).length ≤ cpuMax) : Bounded s := by
  unfold Bounded
  unfold cpuMax at hcount hfew ⊢
  omega

/-- The number of the processors is bounded if the detection comes to its end and the
MP tables have no more than eight that are enabled; for the MADT they are not counted
further.  Only enabled processors are used unless all are disabled. -/
theorem cpus_bounded_iff (m : AddressSpace) :
    ((∃ s, detectSystemType m = .ok s ∧ Bounded s) ↔
      ∃ reads entries, Holds m reads entries ∧ ACPI.SlotsFit m entries ∧
        (MPSearch.enabledIds m reads).length ≤ cpuMax) ∧
    ((∃ s, detectSystemType m = .ok s ∧ Bounded s ∧ Listed m s) ↔
      ∃ reads entries, Holds m reads entries ∧ ACPI.SlotsFit m entries ∧
        (MPSearch.enabledIds m reads).length ≤ cpuMax ∧
        (processors m reads entries ≠ [] → enabledIds m reads entries ≠ [])) := by
  refine ⟨⟨?_, ?_⟩, ?_, ?_⟩
  · rintro ⟨s, hdetect, hbounded⟩
    obtain ⟨reads, entries, hholds, hfit⟩ := holds_of_detectSystemType hdetect
    exact ⟨reads, entries, hholds, hfit, hholds.few hfit hdetect hbounded⟩
  · rintro ⟨reads, entries, hholds, hfit, hfew⟩
    obtain ⟨s, hdetect, hcount, -⟩ := hholds.detectSystemType hfit
    exact ⟨s, hdetect, bounded_of_few hcount hfew⟩
  · rintro ⟨s, hdetect, hbounded, hlisted⟩
    obtain ⟨reads, entries, hholds, hfit⟩ := holds_of_detectSystemType hdetect
    refine ⟨reads, entries, hholds, hfit, hholds.few hfit hdetect hbounded, ?_⟩
    intro hany
    exact List.ne_nil_of_mem (hlisted reads entries hholds hany ⟨0, by decide⟩
      hbounded.1)
  · rintro ⟨reads, entries, hholds, hfit, hfew, henabled⟩
    obtain ⟨s, hdetect, hcount, hmem⟩ := hholds.detectSystemType hfit
    refine ⟨s, hdetect, bounded_of_few hcount hfew, ?_⟩
    intro reads' entries' hholds' hany
    obtain ⟨rfl, rfl⟩ := hholds.unique hholds'
    exact hmem (henabled hany)

def crowdedMemory : AddressSpace := MPSearch.sampleMemory 0x7f 9 191

/-- All nine are counted. -/
theorem cpus_unbounded :
    ¬∀ m, ∃ s, detectSystemType m = .ok s ∧ Bounded s ∧ Listed m s := by
  intro hclaim
  obtain ⟨s, hdetect, hbounded, -⟩ := hclaim crowdedMemory
  obtain ⟨mps, acpiConf, hsearch, -, rfl⟩ := detectSystemType_ok hdetect
  have hnine : (MPSearch.searchAll crowdedMemory (MPSearch.areas crowdedMemory)
      .constructed).map (fun mps => mps.conf.cpuCount) = .ok 9 := by
    decide +kernel
  rw [hsearch] at hnine
  have hcount : mps.conf.cpuCount = 9 := Except.ok.inj hnine
  have hle := hbounded.2
  rw [chooseConfig_cpuCount] at hle
  unfold cpuMax at hle
  omega

end APICSystem

end X86Os32
