namespace X86Os32.Library

/-! Fields of bits in a machine word, as the members of a packed structure. -/

namespace Bitfield

/-- The member of this many bits at the offset. -/
def get (v : BitVec w) (off len : Nat) : BitVec len := v.extractLsb' off len

def put (v : BitVec w) (off : Nat) (x : BitVec len) : BitVec w :=
  (v &&& ~~~((BitVec.allOnes len).setWidth w <<< off)) ||| (x.setWidth w <<< off)

theorem getLsbD_put (v : BitVec w) (off : Nat) (x : BitVec len) (i : Nat) :
    (put v off x).getLsbD i =
      (decide (i < w) && if off ≤ i ∧ i < off + len then x.getLsbD (i - off)
        else v.getLsbD i) := by
  by_cases hlow : i < off
  · simp [put, hlow, Nat.not_le.mpr hlow]
    grind
  · by_cases hhigh : i < off + len
    · have hlt : i - off < len := by omega
      simp [put, hlow, hhigh, hlt, Nat.le_of_not_lt hlow]
      grind
    · have hge : ¬i - off < len := by omega
      have hout : x.getLsbD (i - off) = false := BitVec.getLsbD_of_ge _ _ (by omega)
      simp [put, hlow, hhigh, hge, hout]
      grind

theorem getLsbD_get (v : BitVec w) (off len i : Nat) :
    (get v off len).getLsbD i = (decide (i < len) && v.getLsbD (off + i)) :=
  BitVec.getLsbD_extractLsb' ..

theorem get_put_self (v : BitVec w) {off : Nat} (x : BitVec len) (hfits : off + len ≤ w) :
    get (put v off x) off len = x := by
  apply BitVec.eq_of_getLsbD_eq
  intro i hi
  have hinside : off ≤ off + i ∧ off + i < off + len := by omega
  have hword : off + i < w := by omega
  rw [getLsbD_get, getLsbD_put, if_pos hinside]
  simp [hi, hword]

theorem get_put_of_apart (v : BitVec w) {off off' len' : Nat} (x : BitVec len)
    (hapart : off' + len' ≤ off ∨ off + len ≤ off') :
    get (put v off x) off' len' = get v off' len' := by
  apply BitVec.eq_of_getLsbD_eq
  intro i hi
  have houtside : ¬(off ≤ off' + i ∧ off' + i < off + len) := by omega
  rw [getLsbD_get, getLsbD_get, getLsbD_put, if_neg houtside]
  by_cases hword : off' + i < w
  · simp [hword]
  · rw [BitVec.getLsbD_of_ge v _ (Nat.le_of_not_lt hword), Bool.and_false]

end Bitfield

end X86Os32.Library
