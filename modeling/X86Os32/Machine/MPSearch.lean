import X86Os32.Library.Results
import X86Os32.Machine.MPTable

namespace X86Os32

open Library Library.Results Library.Walks

/-! The search for MP floating pointer structures: `searchConfig` of
`machine/apicsystem.cc` and the areas that `detectSystemType` searches. -/

namespace MPSearch

open MPTable

variable (m : AddressSpace)

/-- The characters `_MP_`. -/
def mpfpsIdSignature : UInt32 := 0x5F504D5F

def compatibilityPIC : UInt8 := 0x80

structure Mpfps where
  physptr : UInt32
  feature1 : UInt8
  feature2 : UInt8

def mpfpsAt (bp : UInt32) : Mpfps := ⟨m.read32 (bp + 4), m (bp + 11), m (bp + 12)⟩

/-- The structure is accepted: signature, length, checksum and version. -/
def Valid (bp : UInt32) : Prop :=
  m.read32 bp = mpfpsIdSignature ∧ m (bp + 8) = 1 ∧ mpbChecksumOK m bp 16 ∧
    (m (bp + 9) = 1 ∨ m (bp + 9) = 4)

instance : DecidablePred (Valid m) := fun _ =>
  inferInstanceAs (Decidable (_ ∧ _ ∧ _ ∧ _))

/-- A stretch of memory, whose length is a multiple of sixteen. -/
structure Area where
  base : UInt32
  length : Nat
deriving DecidableEq

def Area.places (area : Area) : List UInt32 :=
  (List.range (area.length / 16)).map fun i =>
    (area.base &&& ~~~0x0000000f) + 16 * UInt32.ofNat i

def Area.mpfps (area : Area) : Option UInt32 := area.places.find? fun bp => decide (Valid m bp)

/-- The compatibility mode, for which the PICs may have to be switched off. -/
def setMode (mpfps : Mpfps) (s : MPState) : MPState :=
  let compatibilityMode := mpfps.feature2 &&& compatibilityPIC
  let s := { s with compatibilityMode }
  if compatibilityMode = compatibilityPIC then
    { s with conf := { s.conf with disablePICs := true } }
  else s

/-- A standard configuration has no table. -/
def readConfig (mpfps : Mpfps) (s : MPState) : Except Crash MPState :=
  let s := setMode mpfps s
  if mpfps.feature1 ≠ 0 then .ok s
  else if mpfps.physptr ≠ 0 then readMPCT m mpfps.physptr s
  else .ok s

/-- The configuration that was found first in the area is used. -/
def searchConfig (area : Area) (s : MPState) : Except Crash (Bool × MPState) :=
  match area.mpfps m with
  | none => .ok (false, s)
  | some bp => do
      let s ← readConfig m (mpfpsAt m bp) s
      return (s.conf.cpuCount > 1, s)

/-- The areas: the EBDA, the end of the base memory in three places, the BIOS. -/
def areas : List Area := [
  ⟨(m.read16 0x40e).toUInt32 <<< 4, 1024⟩,
  ⟨(m.read16 0x413).toUInt32 * 1024, 1024⟩,
  ⟨511 * 1024, 1024⟩,
  ⟨639 * 1024, 1024⟩,
  ⟨0x000f0000, 0x000fffff - 0x000f0000 + 1⟩]

/-- `searchConfig(..) || searchConfig(..) || ..` -/
def searchAll : List Area → MPState → Except Crash MPState
  | [], s => .ok s
  | area :: rest, s => do
      let (found, s) ← searchConfig m area s
      if found then return s else searchAll rest s

/-! ### What is read in the search -/

def table (mpfps : Mpfps) : Option UInt32 :=
  if mpfps.feature1 = 0 ∧ mpfps.physptr ≠ 0 ∧ Accepted m mpfps.physptr then
    some mpfps.physptr
  else none

structure Read where
  mpcth : UInt32
  counts : List Nat

def Read.processors (r : Read) : List UInt32 := MPTable.processors m r.mpcth r.counts

def Read.enabledIds (r : Read) : List UInt32 := MPTable.enabledIds m r.mpcth r.counts

/-- What is read for a structure, with the entries up to the end of the table. -/
inductive Reads (mpfps : Mpfps) : List Read → Prop
  | table {mpcth : UInt32} {counts : List Nat} (htable : table m mpfps = some mpcth)
      (hentries : Entries m mpcth counts) : Reads mpfps [⟨mpcth, counts⟩]
  | none (hnone : MPSearch.table m mpfps = none) : Reads mpfps []

def enabledIds (reads : List Read) : List UInt32 := reads.flatMap (Read.enabledIds m)

/-- The areas are searched in their order, up to the first one after which more than
one processor is known.  `known` are known before. -/
inductive Searches : Nat → List Area → List Read → Prop
  | done {known : Nat} : Searches known [] []
  | absent {known : Nat} {area : Area} {rest : List Area} {reads : List Read}
      (habsent : area.mpfps m = none) (hrest : Searches known rest reads) :
      Searches known (area :: rest) reads
  | last {known : Nat} {area : Area} {rest : List Area} {bp : UInt32}
      {reads : List Read} (hfound : area.mpfps m = some bp)
      (hreads : Reads m (mpfpsAt m bp) reads)
      (hmany : 1 < known + (enabledIds m reads).length) :
      Searches known (area :: rest) reads
  | more {known : Nat} {area : Area} {rest : List Area} {bp : UInt32}
      {reads later : List Read} (hfound : area.mpfps m = some bp)
      (hreads : Reads m (mpfpsAt m bp) reads)
      (hfew : known + (enabledIds m reads).length ≤ 1)
      (hrest : Searches (known + (enabledIds m reads).length) rest later) :
      Searches known (area :: rest) (reads ++ later)

variable {m} {s s' : MPState} {mpfps : Mpfps} {reads : List Read} {ids : List UInt32}

theorem enabledIds_append (reads later : List Read) :
    enabledIds m (reads ++ later) = enabledIds m reads ++ enabledIds m later :=
  List.flatMap_append

theorem enabledIds_single (r : Read) : enabledIds m [r] = r.enabledIds m :=
  List.flatMap_singleton ..

theorem setMode_lists (hlists : s.conf.Lists ids) (mpfps : Mpfps) :
    (setMode mpfps s).conf.Lists ids := by
  unfold setMode
  dsimp only
  split
  · exact hlists.congr rfl rfl
  · exact hlists

theorem readConfig_of_table {mpcth : UInt32} (htable : table m mpfps = some mpcth) :
    readConfig m mpfps s = readMPCT m mpcth (setMode mpfps s) ∧ Accepted m mpcth := by
  unfold table at htable
  split at htable
  · next hreadable =>
      cases htable
      refine ⟨?_, hreadable.2.2⟩
      unfold readConfig
      dsimp only
      rw [if_neg (not_not.mpr hreadable.1), if_pos hreadable.2.1]
  · cases htable

theorem readConfig_of_none (hnone : table m mpfps = none) :
    readConfig m mpfps s = .ok (setMode mpfps s) := by
  unfold readConfig
  dsimp only
  split
  · rfl
  · next hfeature =>
      split
      · next hphysptr =>
          apply readMPCT_of_refused
          intro haccepted
          unfold table at hnone
          rw [if_pos ⟨not_not.mp hfeature, hphysptr, haccepted⟩] at hnone
          cases hnone
      · rfl

theorem Reads.readConfig (hreads : Reads m mpfps reads) (hlists : s.conf.Lists ids) :
    ∃ s', readConfig m mpfps s = .ok s' ∧
      s'.conf.Lists (ids ++ enabledIds m reads) := by
  cases hreads with
  | table htable hentries =>
      obtain ⟨hread, haccepted⟩ := readConfig_of_table (s := s) htable
      rw [hread, enabledIds_single]
      exact readMPCT_lists haccepted hentries (setMode_lists hlists mpfps)
  | none hnone =>
      refine ⟨_, readConfig_of_none hnone, ?_⟩
      rw [show enabledIds m [] = [] from rfl, List.append_nil]
      exact setMode_lists hlists mpfps

theorem reads_of_readConfig (hread : readConfig m mpfps s = .ok s') :
    ∃ reads, Reads m mpfps reads := by
  cases htable : table m mpfps with
  | none => exact ⟨[], .none htable⟩
  | some mpcth =>
      obtain ⟨hsame, haccepted⟩ := readConfig_of_table (s := s) htable
      rw [hsame] at hread
      obtain ⟨counts, hentries⟩ := entries_of_readMPCT haccepted hread
      exact ⟨_, .table htable hentries⟩

theorem Reads.unique {reads' : List Read} (hreads : Reads m mpfps reads)
    (hreads' : Reads m mpfps reads') : reads = reads' := by
  cases hreads with
  | table htable hentries =>
      cases hreads' with
      | table htable' hentries' =>
          obtain rfl := Option.some.inj (htable.symm.trans htable')
          obtain ⟨last, hwalk⟩ := hentries
          obtain ⟨last', hwalk'⟩ := hentries'
          rw [(hwalk.unique hwalk').1]
      | none hnone => cases hnone.symm.trans htable
  | none hnone =>
      cases hreads' with
      | table htable => cases hnone.symm.trans htable
      | none => rfl

theorem Searches.unique {areas : List Area} {known : Nat} {reads' : List Read}
    (hsearch : Searches m known areas reads)
    (hsearch' : Searches m known areas reads') : reads = reads' := by
  induction hsearch generalizing reads' with
  | done =>
      cases hsearch'
      rfl
  | absent habsent _ ih =>
      cases hsearch' with
      | absent _ hrest => exact ih hrest
      | last hfound => cases habsent.symm.trans hfound
      | more hfound => cases habsent.symm.trans hfound
  | last hfound hreads hmany =>
      cases hsearch' with
      | absent habsent => cases habsent.symm.trans hfound
      | last hfound' hreads' =>
          obtain rfl := Option.some.inj (hfound.symm.trans hfound')
          exact hreads.unique hreads'
      | more hfound' hreads' hfew =>
          obtain rfl := Option.some.inj (hfound.symm.trans hfound')
          obtain rfl := hreads.unique hreads'
          omega
  | more hfound hreads hfew _ ih =>
      cases hsearch' with
      | absent habsent => cases habsent.symm.trans hfound
      | last hfound' hreads' hmany =>
          obtain rfl := Option.some.inj (hfound.symm.trans hfound')
          obtain rfl := hreads.unique hreads'
          omega
      | more hfound' hreads' _ hrest =>
          obtain rfl := Option.some.inj (hfound.symm.trans hfound')
          obtain rfl := hreads.unique hreads'
          rw [ih hrest]

/-- The search finds the enabled processors of the tables that it reads. -/
theorem Searches.searchAll {areas : List Area} {known : Nat}
    (hsearch : Searches m known areas reads) (hlists : s.conf.Lists ids)
    (hknown : ids.length = known) :
    ∃ s', searchAll m areas s = .ok s' ∧
      s'.conf.Lists (ids ++ enabledIds m reads) := by
  induction hsearch generalizing s ids with
  | done =>
      refine ⟨s, rfl, ?_⟩
      rwa [show enabledIds m [] = [] from rfl, List.append_nil]
  | absent habsent _ ih =>
      obtain ⟨s', hrest, hlists'⟩ := ih hlists hknown
      refine ⟨s', ?_, hlists'⟩
      rw [MPSearch.searchAll, searchConfig, habsent]
      exact hrest
  | last hfound hreads hmany =>
      obtain ⟨s', hread, hlists'⟩ := hreads.readConfig hlists
      refine ⟨s', ?_, hlists'⟩
      have hcount := hlists'.cpuCount
      rw [List.length_append, hknown] at hcount
      rw [MPSearch.searchAll, searchConfig, hfound]
      dsimp only
      rw [hread]
      exact if_pos (decide_eq_true (by omega))
  | more hfound hreads hfew _ ih =>
      obtain ⟨s', hread, hlists'⟩ := hreads.readConfig hlists
      obtain ⟨s'', hrest, hlists''⟩ := ih hlists'
        (by rw [List.length_append, hknown])
      rw [List.append_assoc, ← enabledIds_append] at hlists''
      refine ⟨s'', ?_, hlists''⟩
      have hcount := hlists'.cpuCount
      rw [List.length_append, hknown] at hcount
      rw [MPSearch.searchAll, searchConfig, hfound]
      dsimp only
      rw [hread]
      refine Eq.trans (if_neg ?_) hrest
      exact fun hmany => absurd (of_decide_eq_true hmany) (by omega)

theorem searches_of_searchAll {areas : List Area}
    (hsearch : searchAll m areas s = .ok s') (hlists : s.conf.Lists ids) :
    ∃ reads, Searches m ids.length areas reads := by
  induction areas generalizing s ids with
  | nil => exact ⟨[], .done⟩
  | cons area rest ih =>
      rw [searchAll, searchConfig] at hsearch
      cases hfound : area.mpfps m with
      | none =>
          rw [hfound] at hsearch
          obtain ⟨reads, hrest⟩ := ih hsearch hlists
          exact ⟨reads, .absent hfound hrest⟩
      | some bp =>
          rw [hfound] at hsearch
          obtain ⟨⟨found, now⟩, hconfig, hgoes⟩ := bind_eq_ok.mp hsearch
          obtain ⟨now', hread, hresult⟩ := bind_eq_ok.mp hconfig
          cases hresult
          obtain ⟨reads, hreads⟩ := reads_of_readConfig hread
          obtain ⟨now', hread', hlists'⟩ := hreads.readConfig hlists
          obtain rfl := Except.ok.inj (hread.symm.trans hread')
          by_cases hmany : 1 < ids.length + (enabledIds m reads).length
          · exact ⟨reads, .last hfound hreads hmany⟩
          · have hcount := hlists'.cpuCount
            rw [List.length_append] at hcount
            have hnotFound : ¬decide (now.conf.cpuCount > 1) = true :=
              fun hfull => absurd (of_decide_eq_true hfull) (by omega)
            obtain ⟨later, hlater⟩ := ih ((if_neg hnotFound).symm.trans hgoes) hlists'
            rw [List.length_append] at hlater
            exact ⟨reads ++ later, .more hfound hreads (by omega) hlater⟩

end MPSearch

end X86Os32
