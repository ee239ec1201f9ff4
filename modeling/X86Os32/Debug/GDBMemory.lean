import X86Os32.Debug.GDBSession

namespace X86Os32.GDB

open Library
open OStream (Text)

/-! `mem_read` and `mem_write`: memory that is read in one of the two codes and
written in it again. -/

/-- How the bytes are written in the code. -/
def coded (hex : Bool) (data : Text) : Text :=
  if hex then data.flatMap hexPair else binary data

/-- The bytes `addr`, ..., `addr + len - 1`, around the end of the memory where
there are that many. -/
def InRange (addr : UInt32) (len : Nat) (a : UInt32) : Prop :=
  (a - addr).toNat < len

instance (addr : UInt32) (len : Nat) : DecidablePred (InRange addr len) :=
  fun a => inferInstanceAs (Decidable ((a - addr).toNat < len))

def overlaid (memory source : Memory) (addr : UInt32) (len : Nat) : Memory :=
  fun a => if InRange addr len a then source a else memory a

variable {memory source : Memory} {addr : UInt32} {bufLen len : Nat} {hex : Bool}
  {data : Text}

theorem length_load (memory : Memory) (addr : UInt32) (len : Nat) :
    (load memory addr len).length = len := by
  rw [load_eq, List.length_map, List.length_range]

theorem unreserved_hexPair : ∀ n < 256,
    (hexPair (UInt8.ofNat n)).all fun c => !decide (Reserved c) := by
  decide +kernel

theorem escape_of_mem_coded {c : UInt8} (hmem : c ∈ coded hex data)
    (hreserved : Reserved c) : c = '}'.toUInt8 := by
  cases hex with
  | true =>
      obtain ⟨byte, -, hpair⟩ := List.mem_flatMap.mp hmem
      rw [← UInt8.ofNat_toNat (x := byte)] at hpair
      have hplain := List.all_eq_true.mp
        (unreserved_hexPair _ byte.toNat_lt) c hpair
      simp [hreserved] at hplain
  | false =>
      have hmask (a : UInt8) : Reserved a → ¬Reserved (mask a) := not_reserved_mask
      exact Escaping.eq_escape_of_mem_encode hmask hmem hreserved

theorem length_coded_le (hex : Bool) (data : Text) :
    (coded hex data).length ≤ 2 * data.length := by
  cases hex with
  | true =>
      have hlength := length_flatMap_hexPair data
      rw [coded, if_pos rfl]
      omega
  | false => exact Escaping.length_encode_le data

theorem memRead_eq : memRead source bufLen addr len hex =
    if len ≤ 64 then
      if (coded hex (load source addr len)).length ≤ bufLen then
        .ok (some (coded hex (load source addr len)))
      else if hex then .ok none
      else .error (.assertionFailed "0")
    else .ok none := by
  unfold memRead
  by_cases hsmall : len ≤ 64
  · rw [if_neg (Nat.not_lt.mpr hsmall), if_pos hsmall]
    cases hex with
    | true =>
        have hlength := length_flatMap_hexPair (load source addr len)
        simp only [coded, if_pos, encHex, hlength]
        split
        · next hfull => rw [if_neg (Nat.not_le.mpr hfull)]; rfl
        · next hfits => rw [if_pos (Nat.le_of_not_lt hfits)]; rfl
    | false =>
        simp only [coded, if_neg Bool.false_ne_true]
        split
        · next hfits => rw [encBin_of_fits (by omega)]; rfl
        · next hfull =>
            rw [encBin_of_full (Nat.zero_le _) (by omega)]
            rfl
  · rw [if_pos (Nat.lt_of_not_le hsmall), if_neg hsmall]
    rfl

theorem decoded_coded (hex : Bool) (data : Text) :
    (if hex then decHex (coded hex data) data.length
      else some <$> decBin data.length 0 (coded hex data)) = .ok (some data) := by
  cases hex with
  | true => exact decHex_eq_some_iff.mpr ⟨hexText_flatMap data, rfl⟩
  | false =>
      have hspells : BinText (binary data) data :=
        Escaping.spells_encode (by decide) (fun c _ => mask_mask c) data
      have hdecode := decBin_eq_ok_iff.mpr ⟨hspells, Nat.le_refl _⟩
      rw [if_neg Bool.false_ne_true, coded, if_neg Bool.false_ne_true, hdecode]
      rfl

theorem store_load (hlen : len < 2 ^ 32) :
    store memory addr (load source addr len) = overlaid memory source addr len := by
  funext a
  have hlength := length_load source addr len
  rw [store_apply (by omega), load_eq, overlaid]
  split
  · next hrange =>
      have hsame : addr + (a - addr) = a := by
        rw [UInt32.add_comm, UInt32.sub_add_cancel]
      rw [List.getElem?_map, List.getElem?_range hrange]
      simp [hsame]
  · next hrange =>
      have houtside : (List.range len)[(a - addr).toNat]? = none :=
        List.getElem?_eq_none (by rw [List.length_range]; exact Nat.le_of_not_lt hrange)
      rw [List.getElem?_map, houtside]
      rfl

/-- `mem_write` puts back what `mem_read` has read. -/
theorem memWrite_coded (hsmall : len ≤ 64) (stub : Stub) :
    memWrite (coded hex (load source addr len)) addr len hex stub =
      .ok (true, { stub with
        memory := overlaid stub.memory source addr len
        leftovers := fun n => stub.leftovers (n + 1) }) := by
  have hlength := length_load source addr len
  have hwritten : memWrite (coded hex (load source addr len)) addr
      (load source addr len).length hex stub = _ :=
    memWrite_eq addr (decoded_coded hex _) (by omega)
  rw [hlength, store_load (by omega)] at hwritten
  exact hwritten

/-- Memory that is read and then written, by this stub or by another one, is the
same in the range and leaves the rest alone; the text in between can be sent in
one packet.  Where nothing is read, there are too many bytes or there is no room
for the text. -/
theorem transferred_memory_arrives (source : Memory) (bufLen : Nat) (addr : UInt32)
    (len : Nat) (hex : Bool) :
    match memRead source bufLen addr len hex with
    | .ok (some text) => len ≤ 64 ∧ text.length ≤ bufLen ∧
        (∀ c ∈ text, Reserved c → c = '}'.toUInt8) ∧
        ∀ stub, memWrite text addr len hex stub = .ok (true, { stub with
          memory := overlaid stub.memory source addr len
          leftovers := fun n => stub.leftovers (n + 1) })
    | .ok none => 64 < len ∨ hex = true ∧ bufLen < 2 * len
    | .error stop => len ≤ 64 ∧ hex = false ∧ bufLen < 2 * len ∧
        stop = .assertionFailed "0" := by
  have hlength := length_load source addr len
  have hbound := length_coded_le hex (load source addr len)
  rw [memRead_eq]
  by_cases hsmall : len ≤ 64
  · rw [if_pos hsmall]
    by_cases hfits : (coded hex (load source addr len)).length ≤ bufLen
    · rw [if_pos hfits]
      exact ⟨hsmall, hfits, fun c => escape_of_mem_coded, memWrite_coded hsmall⟩
    · rw [if_neg hfits]
      cases hex with
      | true => exact .inr ⟨rfl, by omega⟩
      | false => exact ⟨hsmall, rfl, by omega, rfl⟩
  · rw [if_neg hsmall]
    exact .inl (Nat.lt_of_not_le hsmall)

end X86Os32.GDB
