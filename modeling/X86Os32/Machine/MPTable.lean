import Mathlib.Algebra.Group.Nat.Defs
import X86Os32.Library.AddressSpace
import X86Os32.Library.Folds
import X86Os32.Library.Results
import X86Os32.Library.Walks
import X86Os32.Machine.SystemConfig

namespace X86Os32

open Library Library.Results Library.Walks

/-! The MP configuration table: `readMPCT` of `machine/apicsystem.cc`. -/

/-- A configuration, with the members of `APICSystem` that the search for it
fills. -/
structure MPState where
  conf : SystemConfig
  compatibilityMode : UInt8
  lapicVersion : Fin cpuMax → UInt32
  cpuFamily : Fin cpuMax → UInt32
  cpuModel : Fin cpuMax → UInt32

def MPState.constructed : MPState where
  conf := .constructed
  compatibilityMode := 0
  lapicVersion := fun _ => 0
  cpuFamily := fun _ => 0
  cpuModel := fun _ => 0

namespace MPTable

variable (m : AddressSpace)

def mpctProcessor : UInt8 := 0

def mpctBus : UInt8 := 1

def mpctIOAPIC : UInt8 := 2

def mpctIOInt : UInt8 := 3

def mpctLInt : UInt8 := 4

def cpuEnabled : UInt8 := 1

def cpuBootprocessor : UInt8 := 2

def mpbChecksumOK (start_address : UInt32) (len : Nat) : Prop :=
  m.sum start_address len % 256 = 0

instance (start_address : UInt32) (len : Nat) :
    Decidable (mpbChecksumOK m start_address len) :=
  inferInstanceAs (Decidable (_ = _))

def headerSize : Nat := 44

def length (mpcth : UInt32) : Nat := (m.read16 (mpcth + 4)).toNat

def entry (mpcth : UInt32) (count : Nat) : UInt32 := mpcth + UInt32.ofNat count

/-- The size of an entry, by which the loop goes on; for other types it does not. -/
def entrySize (type : UInt8) : Option Nat :=
  if type = mpctProcessor then some 20
  else if type = mpctBus ∨ type = mpctIOAPIC ∨ type = mpctIOInt ∨
      type = mpctLInt then some 8
  else none

/-- `m->cpuflag & CPU_ENABLED`, of a processor entry. -/
def Enabled (mpt : UInt32) : Prop := m (mpt + 3) &&& cpuEnabled ≠ 0

instance (mpt : UInt32) : Decidable (Enabled m mpt) :=
  inferInstanceAs (Decidable (_ ≠ _))

def lapicid (mpt : UInt32) : UInt8 := m (mpt + 1)

def readProcessor (s : MPState) (mpt : UInt32) : MPState :=
  if Enabled m mpt then
    let count := s.conf.cpuCount + 1
    let bspId :=
      if m (mpt + 3) &&& cpuBootprocessor ≠ 0 then (lapicid m mpt).toUInt32
      else s.conf.bspId
    let s := { s with conf := { s.conf with cpuCount := count, bspId } }
    if h : count ≤ cpuMax then
      let current : Fin cpuMax := ⟨count - 1, by omega⟩
      let cpusignature := m.read32 (mpt + 4)
      { s with
        conf := { s.conf with
          lapicId := Function.update s.conf.lapicId current
            (lapicid m mpt).toUInt32 }
        lapicVersion := Function.update s.lapicVersion current
          (m (mpt + 2)).toUInt32
        cpuFamily := Function.update s.cpuFamily current
          ((cpusignature &&& 0xf00) >>> 8)
        cpuModel := Function.update s.cpuModel current
          ((cpusignature &&& 0xf0) >>> 4) }
    else s
  else s

def readIOAPIC (s : MPState) (mpt : UInt32) : MPState :=
  { s with conf := { s.conf with ioapicId := (m (mpt + 1)).toUInt32.toInt32 } }

/-- `srcbus`, `srcbusirq` and `dstirq` are the bytes four, five and seven. -/
def readIOINT (s : MPState) (mpt : UInt32) : MPState :=
  if m (mpt + 4) = 0 then
    if h : (m (mpt + 5)).toNat < 16 ∧ (m (mpt + 7)).toNat < 24 then
      { s with
        conf := { s.conf with
          ioapicIRQs := Function.update s.conf.ioapicIRQs ⟨_, h.2⟩
            (m (mpt + 5)).toInt8
          slotMap := Function.update s.conf.slotMap ⟨_, h.1⟩
            (m (mpt + 7)).toInt8 } }
    else s
  else s

def readEntry (s : MPState) (mpt : UInt32) : MPState :=
  if m mpt = mpctProcessor then readProcessor m s mpt
  else if m mpt = mpctIOAPIC then readIOAPIC m s mpt
  else if m mpt = mpctIOInt then readIOINT m s mpt
  else s

def Finished (mpcth : UInt32) (count : Nat) : Prop := ¬count < length m mpcth

instance (mpcth : UInt32) : DecidablePred (Finished m mpcth) := fun _ =>
  inferInstanceAs (Decidable (¬_ < _))

def nextEntry (mpcth : UInt32) (count : Nat) : Option Nat :=
  (entrySize (m (entry mpcth count))).map fun size => count + size

/-- `while (count < mpcth->length)`, with `count` in the result.  More rounds than
the table may have bytes are rounds without progress. -/
def readEntries (mpcth : UInt32) (s : MPState) : Except Crash (MPState × Nat) :=
  walk (Finished m mpcth) (nextEntry m mpcth)
    (fun s count => .ok (readEntry m s (entry mpcth count)))
    Crash.endlessLoop (2 ^ 16) s headerSize

/-- The signature is `PCMP` and the checksum is right. -/
def Accepted (mpcth : UInt32) : Prop :=
  (m mpcth = 'P'.toUInt8 ∧ m (mpcth + 1) = 'C'.toUInt8 ∧
    m (mpcth + 2) = 'M'.toUInt8 ∧ m (mpcth + 3) = 'P'.toUInt8) ∧
  mpbChecksumOK m mpcth (length m mpcth)

instance (mpcth : UInt32) : Decidable (Accepted m mpcth) :=
  inferInstanceAs (Decidable ((_ ∧ _ ∧ _ ∧ _) ∧ _))

def legacySlots (i : Fin 16) : Int8 :=
  if (i : Nat) = 0 then 2 else if (i : Nat) = 1 then 1 else if (i : Nat) = 2 then -1
  else Int8.ofNat i

def readMPCT (mpcth : UInt32) (s : MPState) : Except Crash MPState := do
  if ¬Accepted m mpcth then return s
  let s := { s with conf := { s.conf with slotMap := legacySlots } }
  let (s, _) ← readEntries m mpcth s
  return s

/-! ### The entries -/

/-- The counts at which the entries of the table begin, up to the last one. -/
def Entries (mpcth : UInt32) (counts : List Nat) : Prop :=
  ∃ last, Walk (Finished m mpcth) (nextEntry m mpcth) headerSize counts last

abbrev Comes (mpcth : UInt32) : Nat → Prop :=
  Reached (Finished m mpcth) (nextEntry m mpcth) headerSize

variable {m} {mpcth : UInt32} {s : MPState}

theorem nextEntry_eq_some {count next : Nat}
    (hnext : nextEntry m mpcth count = some next) :
    count + 8 ≤ next ∧ next ≤ count + 20 := by
  unfold nextEntry at hnext
  obtain ⟨size, hsize, rfl⟩ := Option.map_eq_some_iff.mp hnext
  unfold entrySize at hsize
  split at hsize
  · cases hsize
    omega
  split at hsize
  · cases hsize
    omega
  · cases hsize

theorem nextEntry_ne_none {count : Nat} :
    nextEntry m mpcth count ≠ none ↔ m (entry mpcth count) ≤ mpctLInt := by
  have hall : ∀ n < 256,
      entrySize (UInt8.ofNat n) ≠ none ↔ UInt8.ofNat n ≤ mpctLInt := by
    decide +kernel
  unfold nextEntry
  rw [ne_eq, Option.map_eq_none_iff, ← ne_eq]
  have hentry := hall _ (m (entry mpcth count)).toNat_lt
  rwa [UInt8.ofNat_toNat] at hentry

def left (m : AddressSpace) (mpcth : UInt32) (count : Nat) : Nat :=
  length m mpcth - count

theorem left_less (count next : Nat) (hopen : ¬Finished m mpcth count)
    (hnext : nextEntry m mpcth count = some next) :
    left m mpcth next < left m mpcth count := by
  have hstep := nextEntry_eq_some hnext
  unfold left
  unfold Finished at hopen
  omega

theorem length_lt (m : AddressSpace) (mpcth : UInt32) : length m mpcth < 2 ^ 16 :=
  (m.read16 (mpcth + 4)).toNat_lt

theorem last_le {start last : Nat} {counts : List Nat}
    (hwalk : Walk (Finished m mpcth) (nextEntry m mpcth) start counts last) :
    last ≤ max start (length m mpcth + 19) := by
  induction hwalk with
  | finish => exact Nat.le_max_left _ _
  | record hopen hnext _ ih =>
      have hstep := nextEntry_eq_some hnext
      unfold Finished at hopen
      omega

theorem readEntries_of_walk {counts : List Nat} {last : Nat}
    (hwalk : Walk (Finished m mpcth) (nextEntry m mpcth) headerSize counts last) :
    readEntries m mpcth s =
      .ok (counts.foldl (fun s count => readEntry m s (entry mpcth count)) s, last) := by
  have hlength := hwalk.length_le (left m mpcth) left_less
  have hlt := length_lt m mpcth
  unfold left at hlength
  unfold readEntries
  rw [hwalk.walk_eq s (by omega)]
  have hfold := List.foldlM_pure (m := Except Crash) (l := counts) (b := s)
    (f := fun s count => readEntry m s (entry mpcth count))
  change Except.map _ (List.foldlM (fun s count => pure _) s counts) = _
  rw [hfold]
  rfl

def AllKnown (m : AddressSpace) (mpcth : UInt32) : Prop :=
  ∀ count, Comes m mpcth count → count < length m mpcth →
    m (entry mpcth count) ≤ mpctLInt

theorem exists_walk_iff :
    (∃ counts last,
      Walk (Finished m mpcth) (nextEntry m mpcth) headerSize counts last) ↔
      AllKnown m mpcth := by
  have hends := ends_iff (p := headerSize) (left m mpcth) left_less
  simp only [nextEntry_ne_none] at hends
  rw [hends]
  constructor
  · intro hknown count hcomes hlt
    exact hknown count hcomes (not_not.mpr hlt)
  · intro hknown count hcomes hopen
    exact hknown count hcomes (not_not.mp hopen)

/-- The loop that comes to an entry that it does not know stays there, however long
it goes on. -/
theorem endless_of_unknown (hunknown : ¬AllKnown m mpcth) (fuel : Nat) :
    ∀ result, walk (Finished m mpcth) (nextEntry m mpcth)
      (fun s count => .ok (readEntry m s (entry mpcth count)))
      Crash.endlessLoop fuel s headerSize ≠ .ok result := by
  intro result hloop
  obtain ⟨counts, hwalk, -⟩ := walk_ok hloop
  exact hunknown (exists_walk_iff.mp ⟨counts, result.2, hwalk⟩)

theorem start_le {start last : Nat} {counts : List Nat}
    (hwalk : Walk (Finished m mpcth) (nextEntry m mpcth) start counts last) :
    start ≤ last := by
  induction hwalk with
  | finish => exact Nat.le_refl _
  | record _ hnext _ ih =>
      have hstep := nextEntry_eq_some hnext
      omega

/-! ### The processors -/

def processors (m : AddressSpace) (mpcth : UInt32) (counts : List Nat) : List UInt32 :=
  (counts.map (entry mpcth)).filter fun mpt => m mpt = mpctProcessor

def enabledIds (m : AddressSpace) (mpcth : UInt32) (counts : List Nat) :
    List UInt32 :=
  ((processors m mpcth counts).filter fun mpt => Enabled m mpt).map fun mpt =>
    (lapicid m mpt).toUInt32

def entryIds (m : AddressSpace) (mpt : UInt32) : List UInt32 :=
  if m mpt = mpctProcessor ∧ Enabled m mpt then [(lapicid m mpt).toUInt32] else []

theorem enabledIds_eq (counts : List Nat) :
    enabledIds m mpcth counts =
      counts.flatMap fun count => entryIds m (entry mpcth count) := by
  unfold enabledIds processors
  rw [Folds.map_filter_eq_flatMap, List.flatMap_map]
  rfl

theorem readProcessor_lists {ids : List UInt32} (hlists : s.conf.Lists ids)
    {mpt : UInt32} (henabled : Enabled m mpt) :
    (readProcessor m s mpt).conf.Lists (ids ++ [(lapicid m mpt).toUInt32]) := by
  unfold readProcessor
  rw [if_pos henabled]
  dsimp only
  by_cases hroom : s.conf.cpuCount + 1 ≤ cpuMax
  · rw [dif_pos hroom]
    refine hlists.push rfl ?_ ?_
    · intro i hi
      have hlast : i = ⟨s.conf.cpuCount + 1 - 1, by omega⟩ := Fin.ext hi
      rw [hlast]
      exact Function.update_self ..
    · intro i hi
      exact Function.update_of_ne (fun h => hi (congrArg Fin.val h)) _ _
  · rw [dif_neg hroom]
    refine hlists.push rfl ?_ fun _ _ => rfl
    intro i hi
    exact absurd i.isLt (by omega)

theorem readEntry_lists {ids : List UInt32} (hlists : s.conf.Lists ids)
    (mpt : UInt32) :
    (readEntry m s mpt).conf.Lists (ids ++ entryIds m mpt) := by
  unfold readEntry entryIds
  by_cases hprocessor : m mpt = mpctProcessor
  · rw [if_pos hprocessor]
    by_cases henabled : Enabled m mpt
    · rw [if_pos ⟨hprocessor, henabled⟩]
      exact readProcessor_lists hlists henabled
    · rw [if_neg fun h => henabled h.2, List.append_nil]
      unfold readProcessor
      rw [if_neg henabled]
      exact hlists
  have hother : ¬(m mpt = mpctProcessor ∧ Enabled m mpt) :=
    fun h => hprocessor h.1
  rw [if_neg hprocessor, if_neg hother, List.append_nil]
  split
  · exact hlists.congr rfl rfl
  split
  · unfold readIOINT
    split_ifs
    · exact hlists.congr rfl rfl
    · exact hlists
    · exact hlists
  · exact hlists

theorem foldl_readEntry_lists {ids : List UInt32} (hlists : s.conf.Lists ids)
    (counts : List Nat) :
    (counts.foldl (fun s count => readEntry m s (entry mpcth count)) s).conf.Lists
      (ids ++ enabledIds m mpcth counts) := by
  rw [enabledIds_eq]
  induction counts generalizing s ids with
  | nil => rwa [List.flatMap_nil, List.append_nil]
  | cons count counts ih =>
      rw [List.flatMap_cons, ← List.append_assoc]
      exact ih (readEntry_lists hlists _)

/-! ### The whole function -/

/-- The loop ends behind `count` bytes of the table. -/
def ReadsTable (m : AddressSpace) (mpcth : UInt32) (s : MPState) (count : Nat) :
    Prop :=
  ∃ s', readMPCT m mpcth s = .ok s' ∧
    readEntries m mpcth { s with conf := { s.conf with slotMap := legacySlots } } =
      .ok (s', count)

theorem readMPCT_of_accepted (haccepted : Accepted m mpcth) (s : MPState) :
    readMPCT m mpcth s = Prod.fst <$>
      readEntries m mpcth { s with conf := { s.conf with slotMap := legacySlots } } := by
  unfold readMPCT
  rw [if_neg (not_not.mpr haccepted)]
  rfl

/-- A table that ends adds the processors enabled in it. -/
theorem readMPCT_lists {counts : List Nat} {ids : List UInt32}
    (haccepted : Accepted m mpcth) (hentries : Entries m mpcth counts)
    (hlists : s.conf.Lists ids) :
    ∃ s', readMPCT m mpcth s = .ok s' ∧
      s'.conf.Lists (ids ++ enabledIds m mpcth counts) := by
  obtain ⟨last, hwalk⟩ := hentries
  rw [readMPCT_of_accepted haccepted, readEntries_of_walk hwalk]
  refine ⟨_, rfl, foldl_readEntry_lists ?_ counts⟩
  exact hlists.congr rfl rfl

theorem entries_of_readMPCT {s' : MPState} (haccepted : Accepted m mpcth)
    (hread : readMPCT m mpcth s = .ok s') : ∃ counts, Entries m mpcth counts := by
  rw [readMPCT_of_accepted haccepted] at hread
  obtain ⟨result, hloop, -⟩ := map_eq_ok.mp hread
  obtain ⟨counts, hwalk, -⟩ := walk_ok hloop
  exact ⟨counts, result.2, hwalk⟩

theorem readMPCT_of_refused (hrefused : ¬Accepted m mpcth) (s : MPState) :
    readMPCT m mpcth s = .ok s := by
  unfold readMPCT
  rw [if_pos hrefused]
  rfl

theorem readsTable_iff (haccepted : Accepted m mpcth) {count : Nat} :
    ReadsTable m mpcth s count ↔ ∃ counts,
      Walk (Finished m mpcth) (nextEntry m mpcth) headerSize counts count := by
  unfold ReadsTable
  rw [readMPCT_of_accepted haccepted]
  constructor
  · rintro ⟨s', -, hloop⟩
    obtain ⟨counts, hwalk, -⟩ := walk_ok hloop
    exact ⟨counts, hwalk⟩
  · rintro ⟨counts, hwalk⟩
    rw [readEntries_of_walk hwalk]
    exact ⟨_, rfl, rfl⟩

/-- The loop ends exactly if it knows the types of all entries; then the entries that
it goes through have no more bytes than the table.  It stays inside the table if also
the last entry does. -/
theorem readMPCT_ends_iff (haccepted : Accepted m mpcth) (s : MPState) :
    ((∃ count, ReadsTable m mpcth s count ∧ count - headerSize ≤ length m mpcth) ↔
      AllKnown m mpcth) ∧
    ((∃ count, ReadsTable m mpcth s count ∧
        count ≤ max headerSize (length m mpcth)) ↔
      AllKnown m mpcth ∧
        ∀ count, Comes m mpcth count → count ≤ max headerSize (length m mpcth)) := by
  simp only [readsTable_iff haccepted]
  rw [← exists_walk_iff]
  constructor
  · constructor
    · rintro ⟨count, ⟨counts, hwalk⟩, -⟩
      exact ⟨counts, count, hwalk⟩
    · rintro ⟨counts, last, hwalk⟩
      have hlast := last_le hwalk
      refine ⟨last, ⟨counts, hwalk⟩, ?_⟩
      unfold headerSize at hlast ⊢
      omega
  · constructor
    · rintro ⟨count, ⟨counts, hwalk⟩, hinside⟩
      refine ⟨⟨counts, count, hwalk⟩, fun place hcomes => ?_⟩
      obtain ⟨rest, hrest⟩ := hwalk.from_reached hcomes
      exact (start_le hrest).trans hinside
    · rintro ⟨⟨counts, last, hwalk⟩, hinside⟩
      exact ⟨last, ⟨counts, hwalk⟩, hinside last hwalk.reached_last⟩

def sampleTable (type : UInt8) : AddressSpace :=
  AddressSpace.put (fun _ => 0) 0x1000
    ([80, 67, 77, 80, 52, 0, 4, 152 - type] ++ List.replicate 36 0 ++ [type])

/-- The table of a single bus is read up to its end. -/
theorem readMPCT_ends_bus :
    ∃ count, ReadsTable (sampleTable mpctBus) 0x1000 .constructed count ∧
      count ≤ max headerSize (length (sampleTable mpctBus) 0x1000) := by
  have hwalk : Walk (Finished (sampleTable mpctBus) 0x1000)
      (nextEntry (sampleTable mpctBus) 0x1000) headerSize [44] 52 :=
    .record (by decide +kernel) (by decide +kernel) (.finish (by decide +kernel))
  refine (readMPCT_ends_iff (by decide +kernel) _).2.mpr
    ⟨exists_walk_iff.mp ⟨_, _, hwalk⟩, fun count hcomes => ?_⟩
  obtain ⟨rest, hrest⟩ := hwalk.from_reached hcomes
  exact (start_le hrest).trans (by decide +kernel)

/-- The loop stays at an entry of type five. -/
theorem readMPCT_endless :
    ¬∀ m mpcth s, Accepted m mpcth →
      ∃ count, ReadsTable m mpcth s count ∧ count - headerSize ≤ length m mpcth := by
  intro hclaim
  have haccepted : Accepted (sampleTable 5) 0x1000 := by decide +kernel
  obtain ⟨count, hreads, -⟩ := hclaim _ _ .constructed haccepted
  obtain ⟨counts, hwalk⟩ := (readsTable_iff haccepted).mp hreads
  have hknown := exists_walk_iff.mp ⟨counts, count, hwalk⟩ 44 .start
    (by decide +kernel)
  revert hknown
  decide +kernel

end MPTable

end X86Os32
