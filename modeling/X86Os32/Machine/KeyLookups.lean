import X86Os32.Machine.KeyDecoder

namespace X86Os32

/-! The places in the tables that the key decoder reads. -/

inductive KeyTable
  | normalTab
  | shiftTab
  | altTab
  | ascNumTab
  | scanNumTab
deriving DecidableEq

def KeyTable.entries : KeyTable → List UInt8
  | normalTab => KeyTables.normalTab
  | shiftTab => KeyTables.shiftTab
  | altTab => KeyTables.altTab
  | ascNumTab => KeyTables.ascNumTab
  | scanNumTab => KeyTables.scanNumTab

/-- `table[index]` -/
structure Lookup where
  table : KeyTable
  index : Nat
deriving DecidableEq

namespace Lookup

def InRange (l : Lookup) : Prop := l.index < l.table.entries.length

instance (l : Lookup) : Decidable l.InRange := inferInstanceAs (Decidable (_ < _))

/-- What is read.  Nothing is known about the memory behind the number tables. -/
def read (tables : KeyTables) (l : Lookup) : UInt8 :=
  match l.table with
  | .normalTab => tables.normal (UInt8.ofNat l.index)
  | .shiftTab => tables.shift (UInt8.ofNat l.index)
  | .altTab => tables.alt (UInt8.ofNat l.index)
  | .ascNumTab => KeyTables.ascNumTab.getD l.index 0
  | .scanNumTab => KeyTables.scanNumTab.getD l.index 0

end Lookup

namespace KeyDecoder

variable (tables : KeyTables) (d : KeyDecoder)

def Letter (code : UInt8) : Prop :=
  (code ≥ 16 ∧ code ≤ 26) ∨ (code ≥ 30 ∧ code ≤ 40) ∨ (code ≥ 44 ∧ code ≤ 50)

instance : DecidablePred Letter := fun code =>
  inferInstanceAs (Decidable ((code ≥ 16 ∧ code ≤ 26) ∨ _ ∨ _))

/-- The division key of the number block has a code of its own. -/
def Division (code : UInt8) : Prop := code = 53 ∧ d.prefix_ = 0xe0

instance (code : UInt8) : Decidable (d.Division code) :=
  inferInstanceAs (Decidable (_ ∧ _))

def Number (code : UInt8) : Prop :=
  d.gather.numLock ∧ d.prefix_ = 0 ∧ code ≥ 71 ∧ code ≤ 83

instance (code : UInt8) : Decidable (d.Number code) :=
  inferInstanceAs (Decidable (_ ∧ _ ∧ _ ∧ _))

def keyTable (code : UInt8) : KeyTable :=
  if d.gather.altRight then .altTab
  else if d.gather.SHIFT then .shiftTab
  else if d.gather.capsLock ∧ Letter code then .shiftTab
  else .normalTab

/-- The reads of `get_ascii_code`. -/
def asciiLookups (code : UInt8) : List Lookup :=
  if d.Division code then []
  else if d.Number code then
    [⟨.ascNumTab, (code - 71).toNat⟩, ⟨.scanNumTab, (code - 71).toNat⟩]
  else [⟨d.keyTable code, code.toNat⟩]

def pressLookups (code : UInt8) : List Lookup :=
  if (d.modifier code).isSome ∨ code = 58 ∨ code = 70 then []
  else if code = 69 then if d.gather.ctrlLeft then d.asciiLookups code else []
  else if code = 91 ∨ code = 92 ∨ code = 93 then []
  else d.asciiLookups code

def decodeLookups (code : UInt8) : List Lookup :=
  if code = 0xe0 ∨ code = 0xe1 ∨ code &&& 0x80 ≠ 0 then []
  else { d with gather := d.gather.invalidate }.pressLookups code

def lookups : KeyDecoder → List UInt8 → List Lookup
  | _, [] => []
  | d, code :: rest => d.decodeLookups code ++ lookups (d.decode tables code) rest

/-- The codes for which there is no entry. -/
def Beyond (code : UInt8) : Prop :=
  code = 89 ∨ code = 90 ∨ 94 ≤ code ∧ code < 128

instance : DecidablePred Beyond := fun code =>
  inferInstanceAs (Decidable (code = 89 ∨ code = 90 ∨ _))

/-! ### The reads are those of the decoder -/

/-- The key that the values read make of the code. -/
def put (code : UInt8) : List UInt8 → KeyDecoder
  | [asc] => { d with gather := ⟨asc, code, d.gather.modi⟩ }
  | [asc, scan] => { d with gather := ⟨asc, scan, d.gather.modi⟩ }
  | _ => { d with gather := ⟨'/'.toUInt8, 8, d.gather.modi⟩ }

variable {tables} {d} {code : UInt8}

theorem read_keyTable :
    Lookup.read tables ⟨d.keyTable code, code.toNat⟩ =
      if d.gather.altRight then tables.alt code
      else if d.gather.SHIFT then tables.shift code
      else if d.gather.capsLock ∧ Letter code then tables.shift code
      else tables.normal code := by
  unfold keyTable
  split_ifs <;> simp only [Lookup.read, UInt8.ofNat_toNat]

/-- `get_ascii_code` makes the key of nothing but what it reads. -/
theorem getAsciiCode_eq :
    d.getAsciiCode tables code =
      d.put code ((d.asciiLookups code).map (Lookup.read tables)) := by
  unfold getAsciiCode asciiLookups
  dsimp only
  by_cases hdivision : d.Division code
  · rw [if_pos hdivision]
    exact if_pos hdivision
  rw [if_neg hdivision]
  refine (if_neg hdivision).trans ?_
  by_cases hnumber : d.Number code
  · rw [if_pos hnumber]
    exact if_pos hnumber
  rw [if_neg hnumber, List.map_singleton, read_keyTable]
  refine (if_neg hnumber).trans ?_
  by_cases halt : d.gather.altRight
  · rw [if_pos halt, if_pos halt]
    rfl
  rw [if_neg halt, if_neg halt]
  by_cases hshift : d.gather.SHIFT
  · rw [if_pos hshift, if_pos hshift]
    rfl
  rw [if_neg hshift, if_neg hshift]
  by_cases hcaps : d.gather.capsLock
  · rw [if_pos hcaps]
    by_cases hletter : Letter code
    · refine (if_pos hletter).trans ?_
      rw [if_pos (⟨hcaps, hletter⟩ : _ ∧ Letter code)]
      rfl
    · refine (if_neg hletter).trans ?_
      rw [if_neg fun hboth : _ ∧ Letter code => hletter hboth.2]
      rfl
  · rw [if_neg hcaps, if_neg fun hboth => hcaps hboth.1]
    rfl

/-- A press either reads nothing, or makes a key of what `get_ascii_code` reads. -/
theorem press_lookups (d : KeyDecoder) (code : UInt8) :
    (d.pressLookups code = [] ∧
      ∀ tables tables', d.press tables code = d.press tables' code) ∨
    (d.pressLookups code = d.asciiLookups code ∧
      ∀ tables, d.press tables code = d.getAsciiCode tables code) := by
  unfold pressLookups press
  cases hmodifier : d.modifier code with
  | some m => exact .inl ⟨if_pos (.inl rfl), fun _ _ => rfl⟩
  | none =>
      simp only [Option.isSome_none, Bool.false_eq_true, false_or]
      by_cases hcaps : code = 58
      · simp [hcaps]
      by_cases hscroll : code = 70
      · simp [hscroll]
      by_cases hnum : code = 69
      · cases d.gather.ctrlLeft <;> simp [hnum]
      by_cases hmenu : code = 91 ∨ code = 92 ∨ code = 93
      · simp [hcaps, hscroll, hnum, hmenu]
      · simp [hcaps, hscroll, hnum, hmenu]

/-- The lookups of `decode` are those of a press. -/
theorem decode_lookups (d : KeyDecoder) (code : UInt8) :
    (d.decodeLookups code = [] ∧
      ∀ tables tables', d.decode tables code = d.decode tables' code) ∨
    ∃ gather, d.decodeLookups code = { d with gather }.asciiLookups code ∧
      ∀ tables, d.decode tables code =
        { { d with gather }.getAsciiCode tables code with prefix_ := 0 } := by
  unfold decodeLookups decode
  by_cases hescape : code = 0xe0 ∨ code = 0xe1
  · refine .inl ⟨if_pos (hescape.imp_right .inl), fun _ _ => ?_⟩
    simp only [if_pos hescape]
  by_cases hbreak : code &&& 0x80 ≠ 0
  · refine .inl ⟨if_pos (by simp [hbreak]), fun _ _ => ?_⟩
    simp only [if_neg hescape, if_pos hbreak]
  have hmake : ¬(code = 0xe0 ∨ code = 0xe1 ∨ code &&& 0x80 ≠ 0) := by
    rw [← or_assoc, not_or]
    exact ⟨hescape, hbreak⟩
  simp only [if_neg hmake, if_neg hescape, if_neg hbreak]
  obtain ⟨hnone, hsame⟩ | ⟨hread, hkey⟩ :=
    press_lookups { d with gather := d.gather.invalidate } code
  · exact .inl ⟨hnone, fun tables tables' => by rw [hsame tables tables']⟩
  · exact .inr ⟨_, hread, fun tables => by rw [hkey tables]⟩

/-! ### Whether they are in range -/

theorem length_keyTable : (d.keyTable code).entries.length = 89 := by
  unfold keyTable
  split_ifs <;> rfl

theorem number_inRange (hnumber : d.Number code) : (code - 71).toNat < 13 := by
  obtain ⟨-, -, hlow, hhigh⟩ := hnumber
  have hle : code.toNat ≤ 83 := UInt8.le_iff_toNat_le.mp hhigh
  rw [UInt8.toNat_sub_of_le _ _ hlow]
  exact Nat.sub_lt_left_of_lt_add (UInt8.le_iff_toNat_le.mp hlow)
    (Nat.lt_succ_of_le hle)

theorem asciiLookups_inRange :
    (∀ l ∈ d.asciiLookups code, l.InRange) ↔
      d.Division code ∨ d.Number code ∨ code.toNat < 89 := by
  unfold asciiLookups
  split_ifs with hdivision hnumber
  · simp [hdivision]
  · have hrange := number_inRange hnumber
    simp [hnumber, Lookup.InRange, KeyTable.entries, KeyTables.ascNumTab,
      KeyTables.scanNumTab, hrange]
  · simp [hdivision, hnumber, Lookup.InRange, length_keyTable]

theorem beyond_iff : Beyond code ↔
    89 ≤ code.toNat ∧ code.toNat < 128 ∧ ¬(code = 91 ∨ code = 92 ∨ code = 93) := by
  simp only [Beyond, UInt8.le_iff_toNat_le, UInt8.lt_iff_toNat_lt, ← UInt8.toNat_inj,
    UInt8.reduceToNat]
  omega

/-- None of the codes without an entry is caught by a case of its own. -/
theorem pressLookups_of_beyond (hbeyond : Beyond code) :
    d.pressLookups code = [⟨d.keyTable code, code.toNat⟩] := by
  obtain ⟨hlow, -, hmenu⟩ := beyond_iff.mp hbeyond
  have hother : ∀ key : UInt8, key.toNat < 89 → code ≠ key := by
    rintro key hkey rfl
    omega
  have hmodifier : d.modifier code = none := by
    unfold modifier
    rw [if_neg (by simp [hother]), if_neg (hother 56 (by decide)),
      if_neg (hother 29 (by decide))]
  have hdivision : ¬d.Division code := fun h => hother 53 (by decide) h.1
  have hnumber : ¬d.Number code := by
    rintro ⟨-, -, -, hhigh⟩
    have hle : code.toNat ≤ 83 := UInt8.le_iff_toNat_le.mp hhigh
    omega
  unfold pressLookups
  rw [hmodifier, if_neg (by simp [hother]), if_neg (hother 69 (by decide)),
    if_neg hmenu]
  unfold asciiLookups
  rw [if_neg hdivision, if_neg hnumber]

theorem pressLookups_inRange (hlow : code.toNat < 128) :
    (∀ l ∈ d.pressLookups code, l.InRange) ↔ ¬Beyond code := by
  by_cases hbeyond : Beyond code
  · obtain ⟨hhigh, -, -⟩ := beyond_iff.mp hbeyond
    rw [pressLookups_of_beyond hbeyond]
    simp [hbeyond, Lookup.InRange, length_keyTable, hhigh]
  · simp only [hbeyond, not_false_eq_true, iff_true]
    have hentry : ¬(code = 91 ∨ code = 92 ∨ code = 93) →
        ∀ l ∈ d.asciiLookups code, l.InRange := by
      intro hmenu
      apply asciiLookups_inRange.mpr
      right
      right
      exact Nat.lt_of_not_le fun hle => hbeyond (beyond_iff.mpr ⟨hle, hlow, hmenu⟩)
    unfold pressLookups
    split_ifs with _ hnum _ hmenu
    · exact List.forall_mem_nil _
    · exact hentry (by simp [hnum])
    · exact List.forall_mem_nil _
    · exact List.forall_mem_nil _
    · exact hentry hmenu

theorem break_bit : ∀ n < 256, UInt8.ofNat n = 0xe0 ∨ UInt8.ofNat n = 0xe1 ∨
    UInt8.ofNat n &&& 0x80 ≠ 0 ↔ 128 ≤ n := by
  decide +kernel

theorem decodeLookups_inRange :
    (∀ l ∈ d.decodeLookups code, l.InRange) ↔ ¬Beyond code := by
  have hbreak := break_bit code.toNat code.toNat_lt
  rw [UInt8.ofNat_toNat] at hbreak
  unfold decodeLookups
  split_ifs with hhigh
  · have hcode := hbreak.mp hhigh
    simp only [List.not_mem_nil, false_imp_iff, implies_true, true_iff, beyond_iff]
    omega
  · exact pressLookups_inRange (Nat.lt_of_not_le (mt hbreak.mpr hhigh))

theorem lookups_inRange (codes : List UInt8) :
    (∀ l ∈ d.lookups tables codes, l.InRange) ↔ ∀ code ∈ codes, ¬Beyond code := by
  induction codes generalizing d with
  | nil => simp [lookups]
  | cons code rest ih =>
      unfold lookups
      rw [List.forall_mem_append, decodeLookups_inRange, ih, List.forall_mem_cons]

/-- The decoder stays inside its tables as long as no code without an entry comes. -/
theorem decoder_in_tables_iff (tables : KeyTables) (leds : Modifier → Bool)
    (codes : List UInt8) :
    (∀ l ∈ (constructed leds).lookups tables codes, l.InRange) ↔
      ∀ code ∈ codes, ¬(code = 89 ∨ code = 90 ∨ 94 ≤ code ∧ code < 128) :=
  lookups_inRange codes

/-- The first code behind the tables. -/
theorem decoder_beyond_tables :
    ¬∀ (tables : KeyTables) (leds : Modifier → Bool) (codes : List UInt8),
      ∀ l ∈ (constructed leds).lookups tables codes, l.InRange := by
  intro hclaim
  have hin := hclaim ⟨fun _ => 0, fun _ => 0, fun _ => 0⟩ (fun _ => false) [89]
    ⟨.normalTab, 89⟩ (by decide)
  revert hin
  decide

end KeyDecoder

end X86Os32
