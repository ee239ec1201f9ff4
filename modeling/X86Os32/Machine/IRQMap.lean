import Mathlib.Data.List.Sort
import X86Os32.Machine.ACPI

namespace X86Os32

open Library Library.Assignments

/-! `generateIRQMap` of `machine/apicsystem.cc`: which device is at which slot of the
I/O APIC. -/

namespace IRQMap

/-- Interrupts that are not remapped are those of the legacy PIC. -/
def fillLegacy (ioapicIRQs : Fin 24 → Int8) : Fin 24 → Int8 := fun i =>
  if (i : Nat) < 16 ∧ ioapicIRQs i = -1 then Int8.ofNat i else ioapicIRQs i

def device (ioapicIRQs : Fin 24 → Int8) (i : Fin 24) : Option (Fin 16) :=
  if h : 0 ≤ (ioapicIRQs i).toInt ∧ (ioapicIRQs i).toInt < 16 then
    some ⟨(ioapicIRQs i).toInt.toNat, by omega⟩
  else none

/-- `slot_map[device] = i;` for every slot. -/
def mapSlots (ioapicIRQs : Fin 24 → Int8) (slotMap : Fin 16 → Int8) :
    Fin 16 → Int8 :=
  fill (device ioapicIRQs) (fun i : Fin 24 => Int8.ofNat i) slotMap (List.finRange 24)

def generateIRQMap (conf : SystemConfig) : SystemConfig :=
  let ioapicIRQs := fillLegacy conf.ioapicIRQs
  { conf with ioapicIRQs, slotMap := mapSlots ioapicIRQs conf.slotMap }

structure Override where
  source : Fin 16
  target : Fin 24
deriving DecidableEq

/-- The slots hold the devices that were moved to them, and no others. -/
structure Moved (overrides : List Override) (ioapicIRQs : Fin 24 → Int8) : Prop where
  moved : ∀ o ∈ overrides, ioapicIRQs o.target = Int8.ofNat o.source
  legacy : ∀ i, (∀ o ∈ overrides, o.target ≠ i) → ioapicIRQs i = -1

structure Distinct (overrides : List Override) : Prop where
  sources : (overrides.map Override.source).Nodup
  targets : (overrides.map Override.target).Nodup

variable {overrides : List Override} {ioapicIRQs : Fin 24 → Int8}
  {slotMap : Fin 16 → Int8} {i : Fin 24} {d : Fin 16}

theorem toInt_ofNat {n : Nat} (hn : n < 24) : (Int8.ofNat n).toInt = n :=
  Int8.toInt_ofNat_of_lt (by omega)

theorem device_of_ofNat {n : Nat} (hn : n < 24)
    (hslot : ioapicIRQs i = Int8.ofNat n) :
    device ioapicIRQs i = some d ↔ n = d := by
  have hvalue : (ioapicIRQs i).toInt = n := by rw [hslot, toInt_ofNat hn]
  unfold device
  by_cases hdevice : n < 16
  · rw [dif_pos (by omega), Option.some.injEq, Fin.ext_iff]
    dsimp only
    omega
  · rw [dif_neg (by omega)]
    simp only [reduceCtorEq, false_iff]
    omega

theorem device_of_none (hslot : ioapicIRQs i = -1) : device ioapicIRQs i ≠ some d := by
  have hvalue : (ioapicIRQs i).toInt = -1 := by rw [hslot]; rfl
  unfold device
  rw [dif_neg (by omega)]
  exact (Option.some_ne_none d).symm

/-- A slot has the device that was moved to it, or else the one with its number. -/
theorem device_iff (hmoved : Moved overrides ioapicIRQs) :
    device (fillLegacy ioapicIRQs) i = some d ↔
      (∃ o ∈ overrides, o.target = i ∧ o.source = d) ∨
        (∀ o ∈ overrides, o.target ≠ i) ∧ (i : Nat) = d := by
  by_cases htarget : ∃ o ∈ overrides, o.target = i
  · obtain ⟨o, ho, rfl⟩ := htarget
    have hsource := o.source.isLt
    have hslot : fillLegacy ioapicIRQs o.target = Int8.ofNat o.source := by
      unfold fillLegacy
      rw [hmoved.moved o ho]
      refine if_neg fun hlegacy => ?_
      have hvalue := congrArg Int8.toInt hlegacy.2
      rw [toInt_ofNat (by omega)] at hvalue
      change (_ : Int) = -1 at hvalue
      omega
    rw [device_of_ofNat (by omega) hslot]
    constructor
    · intro hd
      exact .inl ⟨o, ho, rfl, Fin.ext hd⟩
    · rintro (⟨o', ho', htarget, rfl⟩ | ⟨hnone, -⟩)
      · have hsame := hmoved.moved o' ho'
        rw [htarget, hmoved.moved o ho] at hsame
        have hvalue := congrArg Int8.toInt hsame
        rw [toInt_ofNat (by omega), toInt_ofNat (by omega)] at hvalue
        exact_mod_cast hvalue
      · exact absurd rfl (hnone o ho)
  · have hnone : ∀ o ∈ overrides, o.target ≠ i :=
      fun o ho htarget' => htarget ⟨o, ho, htarget'⟩
    have hfree := hmoved.legacy i hnone
    have hothers : ¬∃ o ∈ overrides, o.target = i ∧ o.source = d :=
      fun ⟨o, ho, hsame, _⟩ => hnone o ho hsame
    simp only [hothers, false_or]
    by_cases hlegacy : (i : Nat) < 16
    · have hslot : fillLegacy ioapicIRQs i = Int8.ofNat i := if_pos ⟨hlegacy, hfree⟩
      rw [device_of_ofNat i.isLt hslot]
      exact ⟨fun hd => ⟨hnone, hd⟩, fun h => h.2⟩
    · have hslot : fillLegacy ioapicIRQs i = -1 :=
        (if_neg fun h => hlegacy h.1).trans hfree
      have hd := d.isLt
      refine iff_of_false (device_of_none hslot) ?_
      rintro ⟨-, hsame⟩
      omega

theorem mapSlots_greatest (hdevice : device ioapicIRQs i = some d)
    (hgreatest : ∀ j, i < j → device ioapicIRQs j ≠ some d) :
    mapSlots ioapicIRQs slotMap d = Int8.ofNat i :=
  fill_greatest (List.sortedLT_finRange 24).pairwise (List.mem_finRange i) hdevice
    hgreatest

theorem ofNat_inj {i j : Fin 24} : Int8.ofNat i = Int8.ofNat j ↔ i = j := by
  constructor
  · intro hsame
    have hvalue := congrArg Int8.toInt hsame
    rw [toInt_ofNat i.isLt, toInt_ofNat j.isLt] at hvalue
    exact Fin.ext (by exact_mod_cast hvalue)
  · rintro rfl
    rfl

/-- A device that is moved is found at its slot, unless the slot with its number comes
later and is not taken by another device. -/
theorem slot_of_override (hmoved : Moved overrides ioapicIRQs)
    (hdistinct : Distinct overrides) {o : Override} (ho : o ∈ overrides) :
    mapSlots (fillLegacy ioapicIRQs) slotMap o.source = Int8.ofNat o.target ↔
      (o.source : Nat) ≤ o.target ∨
        ∃ o' ∈ overrides, (o'.target : Nat) = o.source := by
  have hat : device (fillLegacy ioapicIRQs) o.target = some o.source :=
    (device_iff hmoved).mpr (.inl ⟨o, ho, rfl, rfl⟩)
  have hother (j : Fin 24) (hj : device (fillLegacy ioapicIRQs) j = some o.source)
      (hne : j ≠ o.target) :
      (∀ o' ∈ overrides, o'.target ≠ j) ∧ (j : Nat) = o.source := by
    rcases (device_iff hmoved).mp hj with ⟨o', ho', rfl, hsource⟩ | hlegacy
    · obtain rfl := List.inj_on_of_nodup_map hdistinct.sources ho' ho hsource
      exact absurd rfl hne
    · exact hlegacy
  constructor
  · intro hfound
    by_contra hcondition
    simp only [not_or, not_exists, not_and] at hcondition
    obtain ⟨hlater, hfree⟩ := hcondition
    let own : Fin 24 := ⟨o.source, by omega⟩
    have hown : device (fillLegacy ioapicIRQs) own = some o.source := by
      refine (device_iff hmoved).mpr (.inr ⟨fun o' ho' hsame => ?_, rfl⟩)
      exact hfree o' ho' (congrArg Fin.val hsame)
    have hgreatest : mapSlots (fillLegacy ioapicIRQs) slotMap o.source =
        Int8.ofNat own := by
      refine mapSlots_greatest hown fun j hj hsame => ?_
      have hsame' := (hother j hsame (by
        rintro rfl
        exact absurd (Fin.lt_def.mp hj) (by dsimp only [own]; omega))).2
      exact absurd (Fin.lt_def.mp hj) (by dsimp only [own]; omega)
    rw [hgreatest] at hfound
    have htarget := congrArg Fin.val (ofNat_inj.mp hfound)
    dsimp only [own] at htarget
    omega
  · intro hcondition
    refine mapSlots_greatest hat fun j hj hsame => ?_
    obtain ⟨hfree, hnumber⟩ := hother j hsame hj.ne'
    rcases hcondition with hle | ⟨o', ho', htarget⟩
    · exact absurd (Fin.lt_def.mp hj) (by omega)
    · exact hfree o' ho' (Fin.ext (htarget.trans hnumber.symm))

theorem slot_of_legacy (hmoved : Moved overrides ioapicIRQs)
    (hstays : ∀ o ∈ overrides, o.source ≠ d)
    (hfree : ∀ o ∈ overrides, (o.target : Nat) ≠ d) :
    mapSlots (fillLegacy ioapicIRQs) slotMap d = Int8.ofNat d := by
  let own : Fin 24 := ⟨d, by omega⟩
  have hown : device (fillLegacy ioapicIRQs) own = some d := by
    refine (device_iff hmoved).mpr (.inr ⟨fun o ho hsame => ?_, rfl⟩)
    exact hfree o ho (congrArg Fin.val hsame)
  refine mapSlots_greatest hown fun j hj hsame => ?_
  rcases (device_iff hmoved).mp hsame with ⟨o, ho, -, hsource⟩ | ⟨-, hnumber⟩
  · exact hstays o ho hsource
  · exact absurd (Fin.lt_def.mp hj) (by dsimp only [own]; omega)

/-! ### The overrides of the MADT -/

def Overrides (m : AddressSpace) (entries : List UInt32) (overrides : List Override) :
    Prop :=
  (entries.filter fun entry => ACPI.Override m entry).map (fun entry =>
      ((ACPI.getSource m entry).toNat, (ACPI.getGlobalSystemInterrupt m entry).toNat)) =
    overrides.map fun o => ((o.source : Nat), (o.target : Nat))

variable {m : AddressSpace} {entries : List UInt32} {entry : UInt32}

theorem Overrides.of_entry (hoverrides : Overrides m entries overrides)
    (hentry : entry ∈ entries) (hisa : ACPI.Override m entry) :
    ∃ o ∈ overrides, (ACPI.getSource m entry).toNat = o.source ∧
      (ACPI.getGlobalSystemInterrupt m entry).toNat = o.target := by
  have hmem : entry ∈ entries.filter fun entry => ACPI.Override m entry :=
    List.mem_filter.mpr ⟨hentry, decide_eq_true hisa⟩
  have hpair := List.mem_map_of_mem (f := fun entry =>
    ((ACPI.getSource m entry).toNat, (ACPI.getGlobalSystemInterrupt m entry).toNat)) hmem
  rw [hoverrides] at hpair
  obtain ⟨o, ho, hsame⟩ := List.mem_map.mp hpair
  obtain ⟨hsource, htarget⟩ := Prod.mk.inj hsame
  exact ⟨o, ho, hsource.symm, htarget.symm⟩

theorem Overrides.entry_of (hoverrides : Overrides m entries overrides) {o : Override}
    (ho : o ∈ overrides) :
    ∃ entry ∈ entries, ACPI.Override m entry ∧
      (ACPI.getSource m entry).toNat = o.source ∧
      (ACPI.getGlobalSystemInterrupt m entry).toNat = o.target := by
  have hpair := List.mem_map_of_mem (f := fun o : Override =>
    ((o.source : Nat), (o.target : Nat))) ho
  rw [← hoverrides] at hpair
  obtain ⟨entry, hmem, hsame⟩ := List.mem_map.mp hpair
  obtain ⟨hentry, hisa⟩ := List.mem_filter.mp hmem
  obtain ⟨hsource, htarget⟩ := Prod.mk.inj hsame
  exact ⟨entry, hentry, of_decide_eq_true hisa, hsource, htarget⟩

theorem Overrides.slotsFit (hoverrides : Overrides m entries overrides) :
    ACPI.SlotsFit m entries := by
  intro entry hentry hisa
  obtain ⟨o, -, -, htarget⟩ := hoverrides.of_entry hentry hisa
  rw [htarget]
  exact o.target.isLt

theorem toInt8_eq (c : UInt8) : c.toInt8 = Int8.ofNat c.toNat := by
  apply Int8.toBitVec_inj.mp
  simp

theorem slot_eq_some :
    ACPI.slot m entry = some i ↔
      ACPI.Override m entry ∧ (ACPI.getGlobalSystemInterrupt m entry).toNat = i := by
  unfold ACPI.slot
  constructor
  · intro hslot
    split at hslot
    · next h => exact ⟨h.1, congrArg Fin.val (Option.some.inj hslot)⟩
    · cases hslot
  · rintro ⟨hisa, htarget⟩
    rw [dif_pos ⟨hisa, by omega⟩]
    exact congrArg some (Fin.ext htarget)

theorem Overrides.slots_pairwise (hoverrides : Overrides m entries overrides)
    (hdistinct : Distinct overrides) (i : Fin 24) :
    entries.Pairwise fun entry entry' =>
      ACPI.slot m entry = some i → ACPI.slot m entry' ≠ some i := by
  have htargets : (overrides.map fun o => (o.target : Nat)).Nodup := by
    have hnodup := hdistinct.targets.map Fin.val_injective
    rwa [List.map_map] at hnodup
  have hsame : (entries.filter fun entry => ACPI.Override m entry).map (fun entry =>
      (ACPI.getGlobalSystemInterrupt m entry).toNat) =
        overrides.map fun o => (o.target : Nat) := by
    have hsecond := congrArg (List.map Prod.snd) hoverrides
    rwa [List.map_map, List.map_map] at hsecond
  rw [← hsame] at htargets
  have hpairs := List.pairwise_filter.mp (List.pairwise_map.mp htargets)
  refine hpairs.imp fun hne hslot hslot' => ?_
  obtain ⟨hisa, htarget⟩ := slot_eq_some.mp hslot
  obtain ⟨hisa', htarget'⟩ := slot_eq_some.mp hslot'
  exact hne (decide_eq_true hisa) (decide_eq_true hisa') (htarget.trans htarget'.symm)

theorem Overrides.moved (hoverrides : Overrides m entries overrides)
    (hdistinct : Distinct overrides) :
    Moved overrides (fill (ACPI.slot m) (fun entry => (ACPI.getSource m entry).toInt8)
      (fun _ => -1) entries) where
  moved o ho := by
    obtain ⟨entry, hentry, hisa, hsource, htarget⟩ := hoverrides.entry_of ho
    rw [fill_unique hentry (slot_eq_some.mpr ⟨hisa, htarget⟩)
      (hoverrides.slots_pairwise hdistinct o.target), ← hsource, toInt8_eq]
  legacy i hnone := by
    apply fill_untouched
    intro entry hentry hslot
    obtain ⟨hisa, htarget⟩ := slot_eq_some.mp hslot
    obtain ⟨o, ho, -, hsame⟩ := hoverrides.of_entry hentry hisa
    exact hnone o ho (Fin.ext (hsame.symm.trans htarget))

/-- An override is honoured if its slot does not come before the one with the number of
its device, or if that one is moved to, too.  All other devices stay where they are. -/
theorem overrides_honoured_iff (hentries : ACPI.Structures m entries)
    (hoverrides : Overrides m entries overrides) (hdistinct : Distinct overrides) :
    ∃ conf, ACPI.queryACPI m .constructed = .ok conf ∧
      ((∀ o ∈ overrides,
          (generateIRQMap conf).slotMap o.source = Int8.ofNat o.target) ↔
        ∀ o ∈ overrides, (o.source : Nat) ≤ o.target ∨
          ∃ o' ∈ overrides, (o'.target : Nat) = o.source) ∧
      ∀ d : Fin 16, (∀ o ∈ overrides, o.source ≠ d) →
        (∀ o ∈ overrides, (o.target : Nat) ≠ d) →
        (generateIRQMap conf).slotMap d = Int8.ofNat d := by
  obtain ⟨conf, hquery, hqueried⟩ :=
    ACPI.queryACPI_of_structures hentries hoverrides.slotsFit .constructed
  have hmoved : Moved overrides conf.ioapicIRQs := by
    rw [hqueried.ioapicIRQs]
    exact hoverrides.moved hdistinct
  refine ⟨conf, hquery, ?_, ?_⟩
  · exact forall₂_congr fun o ho => slot_of_override hmoved hdistinct ho
  · intro d hstays hfree
    exact slot_of_legacy hmoved hstays hfree

/-- The tables of a BIOS: a root system description pointer, the table that it points
to, and a MADT with a single override. -/
def sampleMemory (o : Override) : AddressSpace := fun a =>
  if a < 0xe0000 then 0
  else if a < 0xf0000 then
    ([82, 83, 68, 32, 80, 84, 82, 32, 191, 0, 0, 0, 0, 0, 0, 0, 0x14, 0, 0xe, 0,
      82, 83, 68, 84, 40] ++ List.replicate 31 0 ++ [0x3c, 0, 0xe, 0,
      65, 80, 73, 67, 54] ++ List.replicate 39 0 ++
      [2, 10, 0, UInt8.ofNat o.source, UInt8.ofNat o.target]).getD
        (a - 0xe0000).toNat 0
  else 0

/-- The timer, and a device whose slot comes before the one with its number. -/
def timer : Override := ⟨0, 2⟩

def swapped : Override := ⟨10, 5⟩

theorem timer_structures : ACPI.Structures (sampleMemory timer) [0xe0068] := by
  have htable : ACPI.madt (sampleMemory timer) = some 0xe003c := by decide +kernel
  have hend : ACPI.Finished (sampleMemory timer)
      (ACPI.getRearPtr (sampleMemory timer) 0xe003c) 0xe0072 := by decide +kernel
  exact .table htable (.record (by decide +kernel) (by decide +kernel) (.finish hend))

theorem swapped_structures : ACPI.Structures (sampleMemory swapped) [0xe0068] := by
  have htable : ACPI.madt (sampleMemory swapped) = some 0xe003c := by decide +kernel
  have hend : ACPI.Finished (sampleMemory swapped)
      (ACPI.getRearPtr (sampleMemory swapped) 0xe003c) 0xe0072 := by decide +kernel
  exact .table htable (.record (by decide +kernel) (by decide +kernel) (.finish hend))

theorem distinct_single (o : Override) : Distinct [o] where
  sources := List.nodup_singleton _
  targets := List.nodup_singleton _

/-- The timer is found at slot two. -/
theorem overrides_honoured_timer :
    ∃ conf, ACPI.queryACPI (sampleMemory timer) .constructed = .ok conf ∧
      (generateIRQMap conf).slotMap 0 = 2 ∧ (generateIRQMap conf).slotMap 1 = 1 := by
  have hoverrides : Overrides (sampleMemory timer) [0xe0068] [timer] := by
    unfold Overrides
    decide +kernel
  obtain ⟨conf, hquery, hmoved, hothers⟩ :=
    overrides_honoured_iff timer_structures hoverrides (distinct_single timer)
  refine ⟨conf, hquery, ?_, hothers 1 (by decide) (by decide)⟩
  exact hmoved.mpr (by decide) timer (List.mem_singleton_self _)

/-- Device ten, which was moved to slot five, is looked for at slot ten. -/
theorem overrides_forgotten :
    ¬∀ m entries overrides, ACPI.Structures m entries → Overrides m entries overrides →
      Distinct overrides →
        ∃ conf, ACPI.queryACPI m .constructed = .ok conf ∧
          ∀ o ∈ overrides,
            (generateIRQMap conf).slotMap o.source = Int8.ofNat o.target := by
  intro hclaim
  have hoverrides : Overrides (sampleMemory swapped) [0xe0068] [swapped] := by
    unfold Overrides
    decide +kernel
  obtain ⟨conf, hquery, hmoved⟩ :=
    hclaim _ _ _ swapped_structures hoverrides (distinct_single swapped)
  have hten : (ACPI.queryACPI (sampleMemory swapped) .constructed).map
      (fun conf => (generateIRQMap conf).slotMap 10) = .ok 10 := by
    decide +kernel
  rw [hquery] at hten
  have hslot := hmoved swapped (List.mem_singleton_self _)
  exact absurd (hslot.symm.trans (Except.ok.inj hten)) (by decide)

end IRQMap

end X86Os32
