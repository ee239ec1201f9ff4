import Mathlib.Algebra.Group.Nat.Defs
import X86Os32.Library.AddressSpace
import X86Os32.Library.Assignments
import X86Os32.Library.Folds
import X86Os32.Library.Results
import X86Os32.Library.Walks
import X86Os32.Machine.SystemConfig

namespace X86Os32

open Library Library.Results Library.Walks

/-! The ACPI tables of `machine/acpi.h`, and `queryACPI` of
`machine/apicsystem.cc`. -/

namespace ACPI

variable (m : AddressSpace)

/-- `len` counts down to zero, through all values when it is negative. -/
def sumsToZero (start len : UInt32) : Prop :=
  len ≠ 0 ∧ m.sum start len.toNat % 256 = 0

instance (start len : UInt32) : Decidable (sumsToZero m start len) :=
  inferInstanceAs (Decidable (_ ∧ _))

/-! ### The root system description pointer -/

def isACPI1 (rsdp : UInt32) : Prop := m (rsdp + 15) = 0

instance (rsdp : UInt32) : Decidable (isACPI1 m rsdp) :=
  inferInstanceAs (Decidable (_ = _))

def checkSum (rsdp : UInt32) : Prop :=
  sumsToZero m rsdp (if isACPI1 m rsdp then 20 else m.read32 (rsdp + 20))

instance (rsdp : UInt32) : Decidable (checkSum m rsdp) :=
  inferInstanceAs (Decidable (sumsToZero _ _ _))

def getRSDTPtr (rsdp : UInt32) : UInt32 := m.read32 (rsdp + 16)

/-- The signature is `RSD PTR` and the checksum is right. -/
def IsRSDP (search : UInt32) : Prop :=
  m.read32 search = 0x20445352 ∧ m.read32 (search + 4) = 0x20525450 ∧
    checkSum m search

instance (search : UInt32) : Decidable (IsRSDP m search) :=
  inferInstanceAs (Decidable (_ ∧ _ ∧ _))

/-- The addresses at which `find(start, len)` looks, for a `len` that is a multiple of
sixteen: there are none when the end of the area has wrapped around. -/
def places (start len : UInt32) : List UInt32 :=
  if start < start + len then
    (List.range (len.toNat / 16)).map fun i => start + 16 * UInt32.ofNat i
  else []

def findIn (start len : UInt32) : Option UInt32 :=
  (places start len).find? fun search => decide (IsRSDP m search)

/-- `RSDP::find`, for which the null pointer is none found. -/
def find : Option UInt32 :=
  ((findIn m (m.read32 0x40e) 0x400).filter fun found => found ≠ 0).or
    ((findIn m 0xe0000 0x20000).filter fun found => found ≠ 0)

/-! ### The system description tables -/

def getLength (table : UInt32) : UInt32 := m.read32 (table + 4)

/-- A `char`, which is signed. -/
def signed (c : UInt8) : UInt32 := c.toInt8.toInt32.toUInt32

def getType (table : UInt32) : UInt32 :=
  signed (m table) ||| signed (m (table + 1)) <<< 8 |||
    signed (m (table + 2)) <<< 16 ||| signed (m (table + 3)) <<< 24

/-- The characters `APIC`. -/
def MADT : UInt32 := 0x43495041

def getNumSDTPtrs (rsdt : UInt32) : Nat := ((getLength m rsdt - 36) / 4).toNat

def getSDTPtr (rsdt : UInt32) (num : Nat) : UInt32 :=
  m.read32 (rsdt + 36 + 4 * UInt32.ofNat num)

/-- The last table of this type, or null. -/
def searchMADT (rsdt : UInt32) : UInt32 :=
  (List.range (getNumSDTPtrs m rsdt)).foldl (fun madt idx =>
    let entry := getSDTPtr m rsdt idx
    if getType m entry = MADT then entry else madt) 0

/-- The table that `queryACPI` parses. -/
def madt : Option UInt32 := do
  let rsdp ← find m
  let madt := searchMADT m (getRSDTPtr m rsdp)
  if madt = 0 then none else some madt

def hasPcatCompat (madt : UInt32) : Prop := m.read32 (madt + 40) &&& 1 ≠ 0

instance (madt : UInt32) : Decidable (hasPcatCompat m madt) :=
  inferInstanceAs (Decidable (_ ≠ _))

/-! ### The structures of the MADT -/

def localAPIC : UInt8 := 0

def ioAPIC : UInt8 := 1

def sourceOverride : UInt8 := 2

def getFirstAPICStructurePtr (madt : UInt32) : UInt32 := madt + 44

def getRearPtr (madt : UInt32) : UInt32 := madt + getLength m madt

def structureLength (entry : UInt32) : UInt8 := m (entry + 1)

/-- `isEnabled`, of a local APIC. -/
def Enabled (entry : UInt32) : Prop := m.read32 (entry + 4) &&& 1 ≠ 0

instance (entry : UInt32) : Decidable (Enabled m entry) :=
  inferInstanceAs (Decidable (_ ≠ _))

/-- `getAPIC_ID`, of a local APIC. -/
def apicId (entry : UInt32) : UInt8 := m (entry + 3)

def getBus (entry : UInt32) : UInt8 := m (entry + 2)

def getSource (entry : UInt32) : UInt8 := m (entry + 3)

def getGlobalSystemInterrupt (entry : UInt32) : UInt32 := m.read32 (entry + 4)

structure Query where
  conf : SystemConfig
  foundBSP : Bool

def readLocalAPIC (q : Query) (entry : UInt32) : Query :=
  if ¬Enabled m entry then q
  else if q.conf.cpuCount = cpuMax then q
  else
    let lapicId := (apicId m entry).toUInt32
    let current_cpu := UInt8.ofNat q.conf.cpuCount
    if h : current_cpu.toNat < cpuMax then
      let conf := { q.conf with
        cpuCount := q.conf.cpuCount + 1
        lapicId := Function.update q.conf.lapicId ⟨_, h⟩ lapicId }
      if ¬q.foundBSP then ⟨{ conf with bspId := lapicId }, true⟩
      else { q with conf }
    else q

/-- The identifier is a `char`. -/
def readIOAPIC (q : Query) (entry : UInt32) : Query :=
  { q with conf := { q.conf with ioapicId := (m (entry + 2)).toInt8.toInt32 } }

def readOverride (q : Query) (entry : UInt32) : Except Crash Query :=
  if getBus m entry ≠ 0 then .ok q
  else if h : (getGlobalSystemInterrupt m entry).toNat < 24 then
    .ok { q with
      conf := { q.conf with
        ioapicIRQs := Function.update q.conf.ioapicIRQs ⟨_, h⟩
          (getSource m entry).toInt8 } }
  else .error .outOfBounds

def readStructure (q : Query) (entry : UInt32) : Except Crash Query :=
  if m entry = localAPIC then .ok (readLocalAPIC m q entry)
  else if m entry = ioAPIC then .ok (readIOAPIC m q entry)
  else if m entry = sourceOverride then readOverride m q entry
  else .ok q

/-- The loop is over at the end of the table, and at a structure without a length. -/
def Finished (last entry : UInt32) : Prop := ¬entry < last ∨ structureLength m entry = 0

instance (last : UInt32) : DecidablePred (Finished m last) := fun _ =>
  inferInstanceAs (Decidable (_ ∨ _))

def nextStructure (entry : UInt32) : Option UInt32 :=
  some (entry + (structureLength m entry).toUInt32)

/-- `while ( entry < end )`.  More rounds than there are addresses are a loop that goes
round. -/
def readStructures (madt : UInt32) (q : Query) : Except Crash (Query × UInt32) :=
  walk (Finished m (getRearPtr m madt)) (nextStructure m) (readStructure m)
    Crash.endlessLoop (2 ^ 32 + 1) q (getFirstAPICStructurePtr madt)

def queryACPI (conf : SystemConfig) : Except Crash SystemConfig :=
  match madt m with
  | none => .ok conf
  | some madt => do
      let conf :=
        if hasPcatCompat m madt then { conf with disablePICs := true } else conf
      let (q, _) ← readStructures m madt ⟨conf, false⟩
      return q.conf

/-! ### What is read -/

/-- The structures of the MADT up to its end; there are none without one. -/
inductive Structures : List UInt32 → Prop
  | absent (habsent : madt m = none) : Structures []
  | table {table last : UInt32} {entries : List UInt32} (htable : madt m = some table)
      (hwalk : Walk (Finished m (getRearPtr m table)) (nextStructure m)
        (getFirstAPICStructurePtr table) entries last) : Structures entries

def processors (entries : List UInt32) : List UInt32 :=
  entries.filter fun entry => m entry = localAPIC

def enabledIds (entries : List UInt32) : List UInt32 :=
  ((processors m entries).filter fun entry => Enabled m entry).map fun entry =>
    (apicId m entry).toUInt32

def Override (entry : UInt32) : Prop := m entry = sourceOverride ∧ getBus m entry = 0

instance : DecidablePred (Override m) := fun _ => inferInstanceAs (Decidable (_ ∧ _))

def slot (entry : UInt32) : Option (Fin 24) :=
  if h : Override m entry ∧ (getGlobalSystemInterrupt m entry).toNat < 24 then
    some ⟨_, h.2⟩
  else none

def entryIds (entry : UInt32) : List UInt32 :=
  if m entry = localAPIC ∧ Enabled m entry then [(apicId m entry).toUInt32] else []

variable {m} {q q' : Query} {entry : UInt32} {entries : List UInt32} {ids : List UInt32}

theorem Structures.unique {entries' : List UInt32} (hentries : Structures m entries)
    (hentries' : Structures m entries') : entries = entries' := by
  cases hentries with
  | absent habsent =>
      cases hentries' with
      | absent => rfl
      | table htable => cases habsent.symm.trans htable
  | table htable hwalk =>
      cases hentries' with
      | absent habsent => cases habsent.symm.trans htable
      | table htable' hwalk' =>
          obtain rfl := Option.some.inj (htable.symm.trans htable')
          exact (hwalk.unique hwalk').1

/-! ### A single structure -/

theorem readStructure_ok_iff :
    (∃ q', readStructure m q entry = .ok q') ↔
      (Override m entry → (getGlobalSystemInterrupt m entry).toNat < 24) := by
  unfold readStructure Override
  by_cases hlapic : m entry = localAPIC
  · simp [hlapic, localAPIC, sourceOverride]
  by_cases hioapic : m entry = ioAPIC
  · simp [hioapic, localAPIC, ioAPIC, sourceOverride]
  by_cases hoverride : m entry = sourceOverride
  · rw [if_neg hlapic, if_neg hioapic, if_pos hoverride]
    unfold readOverride
    split_ifs with hbus hroom
    · simp [hbus]
    · simp [hroom]
    · simp [hoverride, not_not.mp hbus, hroom]
  · simp [hlapic, hioapic, hoverride]

theorem readLocalAPIC_irqs :
    (readLocalAPIC m q entry).conf.ioapicIRQs = q.conf.ioapicIRQs := by
  unfold readLocalAPIC
  dsimp only
  split_ifs <;> rfl

theorem readStructure_irqs (hread : readStructure m q entry = .ok q') :
    q'.conf.ioapicIRQs =
      Assignments.assign (slot m) (fun entry => (getSource m entry).toInt8)
        q.conf.ioapicIRQs entry := by
  have hslot : ¬Override m entry → slot m entry = none :=
    fun hother => dif_neg fun h => hother h.1
  unfold Assignments.assign
  unfold readStructure at hread
  split at hread
  · next hlapic =>
      cases hread
      rw [hslot fun h => absurd (hlapic.symm.trans h.1) (by decide), readLocalAPIC_irqs]
  split at hread
  · next hioapic =>
      cases hread
      rw [hslot fun h => absurd (hioapic.symm.trans h.1) (by decide)]
      rfl
  split at hread
  · next hoverride =>
      unfold readOverride at hread
      split_ifs at hread with hbus hroom
      · cases hread
        rw [hslot fun h => hbus h.2]
      · cases hread
        have hisa : Override m entry := ⟨hoverride, not_not.mp hbus⟩
        unfold slot
        rw [dif_pos ⟨hisa, hroom⟩]
  · next hother =>
      cases hread
      rw [hslot fun h => hother h.1]

def ListsFirst (conf : SystemConfig) (ids : List UInt32) : Prop :=
  conf.Lists (ids.take cpuMax)

theorem readLocalAPIC_lists (hlists : ListsFirst q.conf ids)
    (henabled : Enabled m entry) :
    ListsFirst (readLocalAPIC m q entry).conf (ids ++ [(apicId m entry).toUInt32]) := by
  have hcount := hlists.cpuCount
  rw [List.length_take] at hcount
  unfold ListsFirst readLocalAPIC
  rw [if_neg (not_not.mpr henabled)]
  by_cases hfull : q.conf.cpuCount = cpuMax
  · rw [if_pos hfull, List.take_append_of_le_length (by omega)]
    exact hlists
  · have hall : ids.length < cpuMax := by omega
    have hcurrent : (UInt8.ofNat q.conf.cpuCount).toNat = q.conf.cpuCount := by
      rw [UInt8.toNat_ofNat']
      unfold cpuMax at hall
      omega
    have hroom : (UInt8.ofNat q.conf.cpuCount).toNat < cpuMax := by omega
    rw [if_neg hfull, List.take_of_length_le (by
      rw [List.length_append, List.length_singleton]
      omega)]
    unfold ListsFirst at hlists
    rw [List.take_of_length_le hall.le] at hlists
    dsimp only
    rw [dif_pos hroom]
    have hpush (conf : SystemConfig) (hcpu : conf.cpuCount = q.conf.cpuCount + 1)
        (hlapic : conf.lapicId = Function.update q.conf.lapicId ⟨_, hroom⟩
          (apicId m entry).toUInt32) :
        conf.Lists (ids ++ [(apicId m entry).toUInt32]) := by
      refine hlists.push hcpu ?_ ?_
      · intro i hi
        have hlast : i = ⟨_, hroom⟩ := Fin.ext (hi.trans hcurrent.symm)
        rw [hlapic, hlast]
        exact Function.update_self ..
      · intro i hi
        rw [hlapic]
        refine Function.update_of_ne (fun h => hi ?_) _ _
        exact (congrArg Fin.val h).trans hcurrent
    split
    · exact hpush _ rfl rfl
    · exact hpush _ rfl rfl

theorem readStructure_lists (hlists : ListsFirst q.conf ids)
    (hread : readStructure m q entry = .ok q') :
    ListsFirst q'.conf (ids ++ entryIds m entry) := by
  unfold readStructure at hread
  unfold entryIds
  split at hread
  · next hlapic =>
      cases hread
      by_cases henabled : Enabled m entry
      · rw [if_pos ⟨hlapic, henabled⟩]
        exact readLocalAPIC_lists hlists henabled
      · rw [if_neg fun h => henabled h.2, List.append_nil]
        unfold readLocalAPIC
        rw [if_pos henabled]
        exact hlists
  next hlapic =>
  have hother : ¬(m entry = localAPIC ∧ Enabled m entry) := fun h => hlapic h.1
  rw [if_neg hother, List.append_nil]
  split at hread
  · cases hread
    exact hlists.congr rfl rfl
  split at hread
  · unfold readOverride at hread
    split_ifs at hread
    · cases hread
      exact hlists
    · cases hread
      exact hlists.congr rfl rfl
  · cases hread
    exact hlists

/-! ### The whole table -/

def SlotsFit (m : AddressSpace) (entries : List UInt32) : Prop :=
  ∀ entry ∈ entries, Override m entry → (getGlobalSystemInterrupt m entry).toNat < 24

theorem enabledIds_eq : enabledIds m entries = entries.flatMap (entryIds m) := by
  unfold enabledIds processors
  rw [Folds.map_filter_eq_flatMap]
  rfl

theorem foldlM_ok_iff :
    (∃ q', entries.foldlM (readStructure m) q = .ok q') ↔ SlotsFit m entries := by
  induction entries generalizing q with
  | nil => simp [SlotsFit, pure, Except.pure]
  | cons entry entries ih =>
      unfold SlotsFit
      rw [List.forall_mem_cons, ← readStructure_ok_iff (q := q)]
      rw [List.foldlM_cons]
      cases hread : readStructure m q entry with
      | error crash => simp [bind, Except.bind]
      | ok next =>
          have hrest : _ ↔ SlotsFit m entries := ih (q := next)
          simp [bind, Except.bind, hrest, SlotsFit]

theorem foldlM_irqs (hfold : entries.foldlM (readStructure m) q = .ok q') :
    q'.conf.ioapicIRQs =
      Assignments.fill (slot m) (fun entry => (getSource m entry).toInt8)
        q.conf.ioapicIRQs entries := by
  induction entries generalizing q with
  | nil =>
      cases hfold
      rfl
  | cons entry entries ih =>
      rw [List.foldlM_cons] at hfold
      obtain ⟨next, hread, hfold⟩ := bind_eq_ok.mp hfold
      rw [ih hfold, readStructure_irqs hread]
      rfl

theorem foldlM_lists (hlists : ListsFirst q.conf ids)
    (hfold : entries.foldlM (readStructure m) q = .ok q') :
    ListsFirst q'.conf (ids ++ enabledIds m entries) := by
  rw [enabledIds_eq]
  induction entries generalizing q ids with
  | nil =>
      cases hfold
      rwa [List.flatMap_nil, List.append_nil]
  | cons entry entries ih =>
      rw [List.foldlM_cons] at hfold
      obtain ⟨next, hread, hfold⟩ := bind_eq_ok.mp hfold
      rw [List.flatMap_cons, ← List.append_assoc]
      exact ih (readStructure_lists hlists hread) hfold

theorem readStructures_eq {table last : UInt32}
    (hwalk : Walk (Finished m (getRearPtr m table)) (nextStructure m)
      (getFirstAPICStructurePtr table) entries last) :
    readStructures m table q =
      (entries.foldlM (readStructure m) q).map fun q' => (q', last) := by
  have hinjective : Function.Injective UInt32.toFin := fun _ _ => UInt32.toFin_inj.mp
  have hlength : entries.length ≤ 2 ^ 32 := hwalk.length_le_places hinjective
  unfold readStructures
  rw [hwalk.walk_eq q (by omega)]

structure Queried (m : AddressSpace) (entries : List UInt32) (conf conf' : SystemConfig) :
    Prop where
  ioapicIRQs : conf'.ioapicIRQs = Assignments.fill (slot m)
    (fun entry => (getSource m entry).toInt8) conf.ioapicIRQs entries
  lists : ∀ ids, ListsFirst conf ids → ListsFirst conf' (ids ++ enabledIds m entries)

def prepared (m : AddressSpace) (table : UInt32) (conf : SystemConfig) : SystemConfig :=
  if hasPcatCompat m table then { conf with disablePICs := true } else conf

theorem prepared_lists {table : UInt32} {conf : SystemConfig}
    (hlists : ListsFirst conf ids) : ListsFirst (prepared m table conf) ids := by
  unfold prepared
  split
  · exact hlists.congr rfl rfl
  · exact hlists

theorem prepared_irqs (table : UInt32) (conf : SystemConfig) :
    (prepared m table conf).ioapicIRQs = conf.ioapicIRQs := by
  unfold prepared
  split <;> rfl

theorem queryACPI_of_table {table : UInt32} (htable : madt m = some table)
    (conf : SystemConfig) :
    queryACPI m conf = (fun result => result.1.conf) <$>
      readStructures m table ⟨prepared m table conf, false⟩ := by
  unfold queryACPI
  rw [htable]
  rfl

theorem queryACPI_of_structures (hentries : Structures m entries)
    (hfit : SlotsFit m entries) (conf : SystemConfig) :
    ∃ conf', queryACPI m conf = .ok conf' ∧ Queried m entries conf conf' := by
  cases hentries with
  | absent habsent =>
      have hquery : queryACPI m conf = .ok conf := by
        unfold queryACPI
        rw [habsent]
      refine ⟨conf, hquery, rfl, fun ids hlists => ?_⟩
      rwa [show enabledIds m [] = [] from rfl, List.append_nil]
  | table htable hwalk =>
      obtain ⟨q', hfold⟩ :=
        (foldlM_ok_iff (q := ⟨prepared m _ conf, false⟩)).mpr hfit
      rw [queryACPI_of_table htable, readStructures_eq hwalk, hfold]
      refine ⟨q'.conf, rfl, ?_, fun ids hlists => ?_⟩
      · rw [foldlM_irqs hfold, prepared_irqs]
      · exact foldlM_lists (prepared_lists hlists) hfold

theorem structures_of_queryACPI {conf conf' : SystemConfig}
    (hquery : queryACPI m conf = .ok conf') :
    ∃ entries, Structures m entries ∧ SlotsFit m entries := by
  cases htable : madt m with
  | none => exact ⟨[], .absent htable, fun entry hmem => by cases hmem⟩
  | some table =>
      rw [queryACPI_of_table htable] at hquery
      obtain ⟨result, hloop, -⟩ := map_eq_ok.mp hquery
      obtain ⟨entries, hwalk, hfold⟩ := walk_ok hloop
      exact ⟨entries, .table htable hwalk, foldlM_ok_iff.mp ⟨result.1, hfold⟩⟩

end ACPI

end X86Os32
