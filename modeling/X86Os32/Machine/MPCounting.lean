import X86Os32.Machine.MPSearch

namespace X86Os32

open Library

/-! How many processors are counted when all structures in the areas that are
searched belong to one table. -/

namespace MPSearch

open MPTable

def Area.holds (m : AddressSpace) (area : Area) : Bool :=
  area.places.any fun bp => Valid m bp

/-- All structures that are accepted belong to the one table. -/
structure OneTable (m : AddressSpace) (mpcth : UInt32) (counts : List Nat) : Prop where
  refers : ∀ area ∈ areas m, ∀ bp ∈ area.places, Valid m bp →
    (mpfpsAt m bp).feature1 = 0 ∧ (mpfpsAt m bp).physptr = mpcth
  nonnull : mpcth ≠ 0
  accepted : Accepted m mpcth
  entries : Entries m mpcth counts

/-- The processors counted when `areas` further areas hold a structure and `known`
are known before, for a table with `enabled` of them. -/
def counted (enabled : Nat) : Nat → Nat → Nat
  | known, 0 => known
  | known, areas + 1 =>
      if 1 < known + enabled then known + enabled
      else counted enabled (known + enabled) areas

def holding (m : AddressSpace) (areas : List Area) : Nat := areas.countP (Area.holds m)

variable {m : AddressSpace} {mpcth : UInt32} {counts : List Nat}

theorem mpfps_isSome (area : Area) : (area.mpfps m).isSome = area.holds m := by
  unfold Area.mpfps Area.holds
  rw [Bool.eq_iff_iff, List.find?_isSome, List.any_eq_true]

theorem Area.mpfps_spec {area : Area} {bp : UInt32} (hfound : area.mpfps m = some bp) :
    bp ∈ area.places ∧ Valid m bp :=
  ⟨List.mem_of_find?_eq_some hfound, of_decide_eq_true
    (List.find?_some (p := fun bp => decide (Valid m bp)) hfound)⟩

theorem OneTable.reads (hone : OneTable m mpcth counts) {area : Area}
    (harea : area ∈ areas m) {bp : UInt32} (hfound : area.mpfps m = some bp) :
    Reads m (mpfpsAt m bp) [⟨mpcth, counts⟩] := by
  obtain ⟨hplace, hvalid⟩ := Area.mpfps_spec hfound
  obtain ⟨hfeature, hphysptr⟩ := hone.refers area harea bp hplace hvalid
  refine .table ?_ hone.entries
  unfold table
  rw [hphysptr]
  exact if_pos ⟨hfeature, hone.nonnull, hone.accepted⟩

theorem OneTable.searches (hone : OneTable m mpcth counts) {searched : List Area}
    (hareas : ∀ area ∈ searched, area ∈ areas m) (known : Nat) :
    ∃ reads, Searches m known searched reads ∧
      known + (enabledIds m reads).length =
        counted (MPTable.enabledIds m mpcth counts).length known
          (holding m searched) := by
  induction searched generalizing known with
  | nil => exact ⟨[], .done, rfl⟩
  | cons area rest ih =>
      obtain ⟨harea, hrest⟩ := List.forall_mem_cons.mp hareas
      have hsome := mpfps_isSome (m := m) area
      unfold holding
      rw [List.countP_cons]
      cases hfound : area.mpfps m with
      | none =>
          rw [hfound] at hsome
          rw [← hsome]
          obtain ⟨reads, hsearch, hcount⟩ := ih hrest known
          exact ⟨reads, .absent hfound hsearch, hcount⟩
      | some bp =>
          rw [hfound] at hsome
          rw [← hsome, if_pos Option.isSome_some]
          have hreads := hone.reads harea hfound
          have hnow : (enabledIds m [⟨mpcth, counts⟩]).length =
              (MPTable.enabledIds m mpcth counts).length := by
            rw [enabledIds_single]
            rfl
          rw [counted, ← hnow]
          by_cases hmany : 1 < known + (enabledIds m [⟨mpcth, counts⟩]).length
          · rw [if_pos hmany]
            exact ⟨_, .last hfound hreads hmany, rfl⟩
          · rw [if_neg hmany]
            obtain ⟨later, hlater, hcount⟩ := ih hrest
              (known + (enabledIds m [⟨mpcth, counts⟩]).length)
            refine ⟨_, .more hfound hreads (Nat.le_of_not_lt hmany) hlater, ?_⟩
            rw [enabledIds_append, List.length_append, ← Nat.add_assoc, hcount, hnow]
            rfl

theorem counted_none (areas : Nat) : counted 0 0 areas = 0 := by
  induction areas with
  | zero => rfl
  | succ areas ih => exact ih

theorem counted_eq_iff {enabled areas : Nat} (hareas : 0 < areas) :
    counted enabled 0 areas = enabled ↔ enabled ≠ 1 ∨ areas = 1 := by
  obtain ⟨areas, rfl⟩ := Nat.exists_eq_succ_of_ne_zero hareas.ne'
  match enabled with
  | 0 => simp [counted_none]
  | 1 =>
      cases areas with
      | zero => simp [counted]
      | succ areas => simp [counted]
  | enabled + 2 => simp [counted]

theorem OneTable.cpuCount (hone : OneTable m mpcth counts) :
    ∃ s, searchAll m (areas m) .constructed = .ok s ∧
      s.conf.cpuCount =
        counted (MPTable.enabledIds m mpcth counts).length 0 (holding m (areas m)) := by
  obtain ⟨reads, hsearch, hcounted⟩ := hone.searches (fun _ harea => harea) 0
  have hstart : MPState.constructed.conf.Lists [] := SystemConfig.lists_constructed
  obtain ⟨s, hresult, hlists⟩ := hsearch.searchAll hstart rfl
  refine ⟨s, hresult, ?_⟩
  rw [← hcounted, hlists.cpuCount, List.nil_append, Nat.zero_add]

/-- All processors of the table are counted once, unless there is just one and more
than one area holds a structure. -/
theorem counted_once_iff (hone : OneTable m mpcth counts)
    (hheld : ∃ area ∈ areas m, area.holds m) :
    ∃ s, searchAll m (areas m) .constructed = .ok s ∧
      (s.conf.cpuCount = (MPTable.enabledIds m mpcth counts).length ↔
        (MPTable.enabledIds m mpcth counts).length ≠ 1 ∨ holding m (areas m) = 1) := by
  obtain ⟨s, hresult, hcount⟩ := hone.cpuCount
  refine ⟨s, hresult, ?_⟩
  rw [hcount]
  exact counted_eq_iff (List.countP_pos_iff.mpr hheld)

/-- The EBDA is the last kilobyte of the base memory, whose size is `512 + memsize`
kilobytes.  A structure lies at its beginning, and behind that a table of processors
that are enabled. -/
def sampleMemory (memsize : UInt8) (processors : Nat) (checksum : UInt8) :
    AddressSpace := fun a =>
  if a < 0x9fc00 then
    if a = 0x40e then 0xc0 else if a = 0x40f then 0x9f
    else if a = 0x413 then memsize else if a = 0x414 then 2 else 0
  else if a < 0xa0000 then
    ([95, 77, 80, 95, 0x10, 0xfc, 9, 0, 1, 4, 139, 0, 0, 0, 0, 0,
      80, 67, 77, 80, UInt8.ofNat (44 + 20 * processors), 0, 4, checksum] ++
      List.replicate 36 0 ++ (List.range processors).flatMap fun i =>
        [0, UInt8.ofNat i, 0, 1] ++ List.replicate 16 0).getD (a - 0x9fc00).toNat 0
  else 0

def dualMemory : AddressSpace := sampleMemory 0x7f 2 117

def singleMemory : AddressSpace := sampleMemory 0x7f 1 139

theorem Valid.first {bp : UInt32} (hvalid : Valid m bp) : m bp = '_'.toUInt8 := by
  rw [← m.read32_toUInt8, hvalid.1]
  rfl

theorem places_ge {bp : UInt32} (hplace : bp ∈ (Area.mk 0xf0000 0x10000).places) :
    0xf0000 ≤ bp := by
  obtain ⟨i, hi, rfl⟩ := List.mem_map.mp hplace
  have hlt : i < 4096 := List.mem_range.mp hi
  rw [UInt32.le_iff_toNat_le, UInt32.toNat_add, UInt32.toNat_mul, UInt32.toNat_ofNat']
  change 0xf0000 ≤ (0xf0000 + 16 * (i % 2 ^ 32) % 2 ^ 32) % 2 ^ 32
  omega

theorem sampleMemory_above {memsize checksum : UInt8} {processors : Nat} {a : UInt32}
    (habove : 0xa0000 ≤ a) : sampleMemory memsize processors checksum a = 0 := by
  rw [UInt32.le_iff_toNat_le] at habove
  change 0xa0000 ≤ a.toNat at habove
  have hebda : ¬a < 0x9fc00 := by
    rw [UInt32.lt_iff_toNat_lt]
    change ¬a.toNat < 0x9fc00
    omega
  have hbase : ¬a < 0xa0000 := by
    rw [UInt32.lt_iff_toNat_lt]
    change ¬a.toNat < 0xa0000
    omega
  unfold sampleMemory
  rw [if_neg hebda, if_neg hbase]

theorem sampleMemory_oneTable {memsize checksum : UInt8} {processors : Nat}
    {counts : List Nat}
    (hlow : ((areas (sampleMemory memsize processors checksum)).take 4).all fun area =>
      area.places.all fun bp =>
        sampleMemory memsize processors checksum bp ≠ '_'.toUInt8 ∨ bp = 0x9fc00)
    (hrefers : (mpfpsAt (sampleMemory memsize processors checksum) 0x9fc00).feature1 = 0 ∧
      (mpfpsAt (sampleMemory memsize processors checksum) 0x9fc00).physptr = 0x9fc10)
    (haccepted : Accepted (sampleMemory memsize processors checksum) 0x9fc10)
    (hentries : Entries (sampleMemory memsize processors checksum) 0x9fc10 counts) :
    OneTable (sampleMemory memsize processors checksum) 0x9fc10 counts where
  refers := by
    intro area harea bp hplace hvalid
    have hfirst := hvalid.first
    have hmem : area ∈ (areas (sampleMemory memsize processors checksum)).take 4 ∨
        area = Area.mk 0xf0000 0x10000 := by
      rw [← List.take_append_drop 4 (areas _), List.mem_append] at harea
      exact harea.imp_right List.mem_singleton.mp
    rcases hmem with hmem | rfl
    · have hplaces := List.all_eq_true.mp (List.all_eq_true.mp hlow area hmem) bp hplace
      obtain rfl := (of_decide_eq_true hplaces).resolve_left (not_not.mpr hfirst)
      exact hrefers
    · have habove : 0xa0000 ≤ bp := UInt32.le_trans (by decide) (places_ge hplace)
      rw [sampleMemory_above habove] at hfirst
      cases hfirst
  nonnull := by decide
  accepted := haccepted
  entries := hentries

theorem singleMemory_oneTable : OneTable singleMemory 0x9fc10 [44] := by
  refine sampleMemory_oneTable (by decide +kernel) (by decide +kernel)
    (by decide +kernel) ⟨64, ?_⟩
  exact .record (by decide +kernel) (by decide +kernel) (.finish (by decide +kernel))

theorem singleMemory_holding : 3 ≤ holding singleMemory (areas singleMemory) := by
  have hlow : holding singleMemory ((areas singleMemory).take 4) = 3 := by
    decide +kernel
  rw [← hlow, ← List.take_append_drop 4 (areas singleMemory)]
  exact (List.sublist_append_left _ _).countP_le

theorem dualMemory_oneTable : OneTable dualMemory 0x9fc10 [44, 64] := by
  refine sampleMemory_oneTable (by decide +kernel) (by decide +kernel)
    (by decide +kernel) ⟨84, ?_⟩
  exact .record (by decide +kernel) (by decide +kernel)
    (.record (by decide +kernel) (by decide +kernel) (.finish (by decide +kernel)))

/-- Two processors are counted once, although three areas are the same memory. -/
theorem counted_once_two :
    ∃ s, searchAll dualMemory (areas dualMemory) .constructed = .ok s ∧
      s.conf.cpuCount = 2 := by
  obtain ⟨s, hsearch, hcount⟩ := counted_once_iff dualMemory_oneTable
    ⟨Area.mk 0x9fc00 1024, by decide +kernel, by decide +kernel⟩
  exact ⟨s, hsearch, hcount.mpr (.inl (by decide +kernel))⟩

/-- One processor is counted twice. -/
theorem counted_twice :
    ¬∀ m mpcth counts, OneTable m mpcth counts → (∃ area ∈ areas m, area.holds m) →
      ∃ s, searchAll m (areas m) .constructed = .ok s ∧
        s.conf.cpuCount = (MPTable.enabledIds m mpcth counts).length := by
  intro hclaim
  have hone := singleMemory_oneTable
  obtain ⟨s, hsearch, honce⟩ := hclaim _ _ _ hone
    ⟨Area.mk 0x9fc00 1024, by decide +kernel, by decide +kernel⟩
  obtain ⟨s', hsearch', hcount⟩ := hone.cpuCount
  obtain rfl := Except.ok.inj (hsearch.symm.trans hsearch')
  rw [honce] at hcount
  have hholding := singleMemory_holding
  rcases (counted_eq_iff (by omega)).mp hcount.symm with hmore | hsingle
  · exact hmore (by decide +kernel)
  · omega

end MPSearch

end X86Os32
