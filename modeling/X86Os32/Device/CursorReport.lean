import X86Os32.Device.Console
import X86Os32.Library.Positional

namespace X86Os32

open Library Library.Positional
open OStream (Text)

/-! `getpos` of `device/console.cc`, on the characters that the terminal sends. -/

/-- What `getpos` returns, with its two reference parameters and what it has left
unread. -/
structure CursorPosition where
  result : Bool
  x : Int32
  y : Int32
  unread : Text
deriving DecidableEq

namespace Console

/-- `read` takes a `char`, which is signed. -/
def received (c : UInt8) : Int32 := c.toInt8.toInt32

/-- `while ((r = read()) != ';')`, with the last `r` in the result.  There is no
result as long as the character has not come. -/
def readRow : Text → Int32 → Option (Int32 × Int32 × Text)
  | [], _ => none
  | c :: unread, y =>
      let r := received c
      if r ≠ received ';'.toUInt8 then
        readRow unread (y * 10 + r - received '0'.toUInt8)
      else some (r, y, unread)

/-- `while (read() != 'R')`, whose body uses `r`. -/
def readColumn (r : Int32) : Text → Int32 → Option (Int32 × Text)
  | [], _ => none
  | c :: unread, x =>
      if received c ≠ received 'R'.toUInt8 then
        readColumn r unread (x * 10 + r - received '0'.toUInt8)
      else some (x, unread)

def escape : UInt8 := 27

def request (i : Nat) : UInt8 := [escape, 91, 54, 110].getD i 0

def readPosition : Text → Option CursorPosition
  | [] => none
  | first :: unread =>
      if received first ≠ received escape then some ⟨false, 0, 0, unread⟩
      else
        match unread with
        | [] => none
        | second :: unread =>
            if received second ≠ received '['.toUInt8 then
              some ⟨false, 0, 0, unread⟩
            else do
              let (r, y, unread) ← readRow unread 0
              let y := y - 1
              let (x, unread) ← readColumn r unread 0
              let x := x - 1
              return ⟨true, x, y, unread⟩

/-- `incoming` is what comes after the request. -/
def getpos (s : Console) (incoming : Text) : Option (Console × CursorPosition) := do
  let s := s.flush.print request 4
  let position ← readPosition incoming
  return (s, position)

def digit (d : Nat) : UInt8 := UInt8.ofNat (48 + d)

def report (row column : List Nat) : Text :=
  escape :: '['.toUInt8 :: row.map digit ++
    ';'.toUInt8 :: column.map digit ++ ['R'.toUInt8]

/-- Decimal digits of a positive number that fits in an `int`. -/
structure Coordinate (ds : List Nat) : Prop where
  decimal : ∀ d ∈ ds, d < 10
  positive : 1 ≤ horner 10 0 ds
  fits : horner 10 0 ds < 2 ^ 31

/-- What the second loop makes of a number of `count` digits: each of them counts
as the semicolon, which is eleven above the zero. -/
def misread (count : Nat) : Nat := horner 10 0 (List.replicate count 11)

theorem received_digit : ∀ d < 10, received (digit d) = Int32.ofNat (48 + d) := by
  decide

theorem digit_ne : ∀ d < 10, received (digit d) ≠ received ';'.toUInt8 ∧
    received (digit d) ≠ received 'R'.toUInt8 := by
  decide

theorem accumulate (n d : Nat) :
    Int32.ofNat n * 10 + Int32.ofNat (48 + d) - received '0'.toUInt8 =
      Int32.ofNat (10 * n + d) := by
  rw [Int32.ofNat_add, Int32.ofNat_add, Int32.ofNat_mul]
  change _ * 10 + (48 + _) - 48 = 10 * _ + _
  grind

theorem readRow_digits {ds : List Nat} (hdecimal : ∀ d ∈ ds, d < 10) (n : Nat)
    (unread : Text) :
    readRow (ds.map digit ++ ';'.toUInt8 :: unread) (Int32.ofNat n) =
      some (received ';'.toUInt8, Int32.ofNat (horner 10 n ds), unread) := by
  induction ds generalizing n with
  | nil =>
      rw [List.map_nil, List.nil_append, readRow, if_neg (not_not.mpr rfl)]
      rfl
  | cons d ds ih =>
      obtain ⟨hd, hds⟩ := List.forall_mem_cons.mp hdecimal
      rw [List.map_cons, List.cons_append, readRow]
      rw [if_pos (digit_ne d hd).1, received_digit d hd, accumulate, ih hds]
      rfl

theorem readColumn_digits {ds : List Nat} (hdecimal : ∀ d ∈ ds, d < 10) (n : Nat)
    (unread : Text) :
    readColumn (received ';'.toUInt8) (ds.map digit ++ 'R'.toUInt8 :: unread)
        (Int32.ofNat n) =
      some (Int32.ofNat (horner 10 n (List.replicate ds.length 11)), unread) := by
  induction ds generalizing n with
  | nil =>
      rw [List.map_nil, List.nil_append, readColumn, if_neg (not_not.mpr rfl)]
      rfl
  | cons d ds ih =>
      obtain ⟨hd, hds⟩ := List.forall_mem_cons.mp hdecimal
      rw [List.map_cons, List.cons_append, readColumn, if_pos (digit_ne d hd).2]
      have hsemicolon : received ';'.toUInt8 = Int32.ofNat (48 + 11) := rfl
      rw [hsemicolon, accumulate, ← hsemicolon, ih hds]
      rfl

theorem readPosition_report {row column : List Nat} (hrow : ∀ d ∈ row, d < 10)
    (hcolumn : ∀ d ∈ column, d < 10) (unread : Text) :
    readPosition (report row column ++ unread) =
      some ⟨true, Int32.ofNat (misread column.length) - 1,
        Int32.ofNat (horner 10 0 row) - 1, unread⟩ := by
  have hreport : report row column ++ unread =
      escape :: '['.toUInt8 :: (row.map digit ++
        ';'.toUInt8 :: (column.map digit ++ 'R'.toUInt8 :: unread)) := by
    simp [report]
  have hfirst := readRow_digits hrow 0
    (column.map digit ++ 'R'.toUInt8 :: unread)
  have hsecond := readColumn_digits hcolumn 0 unread
  rw [hreport, readPosition, if_neg (not_not.mpr rfl)]
  dsimp only
  rw [if_neg (not_not.mpr rfl)]
  change (readRow _ (Int32.ofNat 0)).bind _ = _
  rw [hfirst]
  change (readColumn _ _ (Int32.ofNat 0)).bind _ = _
  rw [hsecond]
  rfl

theorem less_one_iff {n c : Nat} (hpositive : 1 ≤ c) (hfits : c < 2 ^ 31) :
    (Int32.ofNat n - 1).toInt = c - 1 ↔ n % 2 ^ 32 = c := by
  have hone : (1 : Int32).toInt = 1 := rfl
  rw [Int32.toInt_sub, Int32.toInt_ofNat', hone]
  unfold Int32.size
  rw [Int.bmod_sub_bmod, Int.bmod_def]
  split <;> omega

theorem misread_ne {ds : List Nat} (hds : Coordinate ds)
    (hleading : ds.head? ≠ some 0) :
    misread ds.length % 2 ^ 32 ≠ horner 10 0 ds := by
  have hfits := hds.fits
  have hupper := horner_lt hds.decimal 0
  rw [Nat.zero_add, Nat.one_mul] at hupper
  have hlower : ds.length - 1 < 10 := by
    cases ds with
    | nil => decide
    | cons d rest =>
        have hd : d ≠ 0 := fun hzero => hleading (congrArg some hzero)
        rw [horner, Nat.mul_zero, Nat.zero_add, horner_add] at hfits
        have hpower : 10 ^ rest.length ≤ d * 10 ^ rest.length :=
          Nat.le_mul_of_pos_left _ (Nat.pos_of_ne_zero hd)
        apply (Nat.pow_lt_pow_iff_right (by decide : 1 < 10)).mp
        exact (hpower.trans (Nat.le_of_add_right_le hfits.le)).trans_lt (by decide)
  have hlength : ds.length ≠ 0 := by
    intro hzero
    rw [List.length_eq_zero_iff.mp hzero] at hds
    exact absurd hds.positive (by decide)
  have hlarge : ∀ k < 11, k ≠ 0 →
      10 ^ k ≤ misread k % 2 ^ 32 ∨ 2 ^ 31 ≤ misread k % 2 ^ 32 := by
    decide
  intro hsame
  rw [← hsame] at hfits hupper
  rcases hlarge ds.length (by omega) hlength with hle | hle
  · exact absurd hupper (Nat.not_lt.mpr hle)
  · exact absurd hfits (Nat.not_lt.mpr hle)

variable (s : Console)

def Decodes (row column : List Nat) (unread : Text) : Prop :=
  ∃ s' x y, getpos s (report row column ++ unread) = some (s', ⟨true, x, y, unread⟩) ∧
    x.toInt = horner 10 0 column - 1 ∧ y.toInt = horner 10 0 row - 1

variable {s}

theorem decodes_iff {row column : List Nat} (hrow : Coordinate row)
    (hcolumn : Coordinate column) (unread : Text) :
    s.Decodes row column unread ↔
      misread column.length % 2 ^ 32 = horner 10 0 column := by
  have hread := readPosition_report hrow.decimal hcolumn.decimal unread
  have hgetpos : getpos s (report row column ++ unread) =
      some (s.flush.print request 4, ⟨true, Int32.ofNat (misread column.length) - 1,
        Int32.ofNat (horner 10 0 row) - 1, unread⟩) := by
    unfold getpos
    rw [hread]
    rfl
  unfold Decodes
  rw [hgetpos]
  constructor
  · rintro ⟨s', x, y, hresult, hx, -⟩
    cases hresult
    exact (less_one_iff hcolumn.positive hcolumn.fits).mp hx
  · intro hmisread
    refine ⟨_, _, _, rfl, ?_, ?_⟩
    · exact (less_one_iff hcolumn.positive hcolumn.fits).mpr hmisread
    · exact (less_one_iff hrow.positive hrow.fits).mpr
        (Nat.mod_eq_of_lt (hrow.fits.trans (by decide)))

def OtherReply (incoming : Text) : Prop :=
  (∃ first unread, incoming = first :: unread ∧ first ≠ escape) ∨
    ∃ second unread, incoming = escape :: second :: unread ∧ second ≠ '['.toUInt8

theorem received_inj {c c' : UInt8} : received c = received c' ↔ c = c' := by
  have hback (c : UInt8) : (received c).toInt8.toUInt8 = c := by
    unfold received
    rw [Int8.toInt8_toInt32, UInt8.toUInt8_toInt8]
  refine ⟨fun hsame => ?_, congrArg received⟩
  rw [← hback c, hsame, hback c']

theorem readPosition_other {incoming : Text} (hother : OtherReply incoming) :
    ∃ unread, readPosition incoming = some ⟨false, 0, 0, unread⟩ := by
  rcases hother with ⟨first, unread, rfl, hne⟩ | ⟨second, unread, rfl, hne⟩
  · refine ⟨unread, ?_⟩
    exact if_pos (mt received_inj.mp hne)
  · refine ⟨unread, ?_⟩
    exact if_pos (mt received_inj.mp hne)

/-- `getpos` returns the reported row, but the reported column only where the digits,
counted as eleven each, happen to make it modulo `2 ^ 32`.  For that the column has
to begin with a zero.  Any other reply is refused. -/
theorem getpos_decodes_iff (s : Console) :
    (∀ row column unread, Coordinate row → Coordinate column →
      (s.Decodes row column unread ↔
        misread column.length % 2 ^ 32 = horner 10 0 column) ∧
      (column.head? ≠ some 0 → ¬s.Decodes row column unread)) ∧
    ∀ incoming, OtherReply incoming → ∃ s' position,
      getpos s incoming = some (s', position) ∧ position.result = false := by
  constructor
  · intro row column unread hrow hcolumn
    have hiff := decodes_iff (s := s) hrow hcolumn unread
    refine ⟨hiff, ?_⟩
    intro hleading hdecodes
    exact misread_ne hcolumn hleading (hiff.mp hdecodes)
  · intro incoming hother
    obtain ⟨unread, hread⟩ := readPosition_other hother
    refine ⟨s.flush.print request 4, ⟨false, 0, 0, unread⟩, ?_, rfl⟩
    unfold getpos
    rw [hread]
    rfl

/-- A column of eleven digits that comes out right, and a reply that is none. -/
theorem getpos_decodes_by_chance :
    Decodes ⟨⟨fun _ => 0, 0⟩, []⟩ [1] [0, 1, 9, 6, 3, 1, 3, 7, 9, 3, 3] [] ∧
      ∃ s' position, getpos ⟨⟨fun _ => 0, 0⟩, []⟩ [65] = some (s', position) ∧
        position.result = false :=
  ⟨((getpos_decodes_iff _).1 _ _ _ ⟨by decide, by decide, by decide⟩
      ⟨by decide, by decide, by decide⟩).1.mpr (by decide),
    (getpos_decodes_iff _).2 _ (.inl ⟨65, [], rfl, by decide⟩)⟩

/-- The reply for the first column of the first row. -/
theorem getpos_misreads :
    ¬∀ (s : Console) row column unread, Coordinate row → Coordinate column →
      s.Decodes row column unread := by
  intro hclaim
  have hone : Coordinate [1] := ⟨by decide, by decide, by decide⟩
  obtain ⟨s', x, y, hresult, hx, -⟩ :=
    hclaim ⟨⟨fun _ => 0, 0⟩, []⟩ [1] [1] [] hone hone
  cases hresult
  revert hx
  decide

end Console

end X86Os32
