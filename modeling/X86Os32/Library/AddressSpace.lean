import Mathlib.Algebra.Group.Nat.Defs

namespace X86Os32.Library

/-! The 32-bit address space: addresses wrap around, words are little-endian. -/

abbrev AddressSpace := UInt32 → UInt8

namespace AddressSpace

variable (m : AddressSpace)

def read16 (a : UInt32) : UInt16 := (m a).toUInt16 ||| (m (a + 1)).toUInt16 <<< 8

def read32 (a : UInt32) : UInt32 :=
  (m a).toUInt32 ||| (m (a + 1)).toUInt32 <<< 8 ||| (m (a + 2)).toUInt32 <<< 16 |||
    (m (a + 3)).toUInt32 <<< 24

def sum (a : UInt32) (length : Nat) : Nat :=
  (List.range length).foldl (fun sum i => sum + (m (a + UInt32.ofNat i)).toNat) 0

def put (base : UInt32) (bytes : List UInt8) : AddressSpace := fun a =>
  bytes[(a - base).toNat]?.getD (m a)

theorem shifted_toUInt8 (c : UInt8) {k : UInt32} (hk : k = 8 ∨ k = 16 ∨ k = 24) :
    (c.toUInt32 <<< k).toUInt8 = 0 := by
  apply UInt8.toNat_inj.mp
  rcases hk with rfl | rfl | rfl
  · simp [UInt32.toNat_shiftLeft, Nat.shiftLeft_eq]
  · simp [UInt32.toNat_shiftLeft, Nat.shiftLeft_eq]
    omega
  · simp [UInt32.toNat_shiftLeft, Nat.shiftLeft_eq]
    omega

theorem read32_toUInt8 (m : AddressSpace) (a : UInt32) : (m.read32 a).toUInt8 = m a := by
  simp only [read32, UInt32.toUInt8_or, shifted_toUInt8, true_or, or_true, UInt8.or_zero,
    UInt8.toUInt8_toUInt32]

/-! ### Stored words -/

def write32 (a w : UInt32) : AddressSpace := fun p =>
  if p = a then w.toUInt8
  else if p = a + 1 then (w >>> 8).toUInt8
  else if p = a + 2 then (w >>> 16).toUInt8
  else if p = a + 3 then (w >>> 24).toUInt8
  else m p

def Covers (a p : UInt32) : Prop := ∃ k ∈ [0, 1, 2, 3], p = a + k

theorem write32_of_not_covers {a p : UInt32} (w : UInt32) (hp : ¬Covers a p) :
    m.write32 a w p = m p := by
  have hne (k : UInt32) (hk : k ∈ [0, 1, 2, 3]) : p ≠ a + k :=
    fun heq => hp ⟨k, hk, heq⟩
  have h0 := hne 0 (by decide)
  rw [UInt32.add_zero] at h0
  simp [write32, h0, hne 1 (by decide), hne 2 (by decide), hne 3 (by decide)]

variable {m} in
theorem read32_congr {m' : AddressSpace} {a : UInt32}
    (hsame : ∀ p, Covers a p → m' p = m p) : m'.read32 a = m.read32 a := by
  have h0 := hsame a ⟨0, by decide, (UInt32.add_zero a).symm⟩
  simp only [read32]
  rw [h0, hsame (a + 1) ⟨1, by decide, rfl⟩, hsame (a + 2) ⟨2, by decide, rfl⟩,
    hsame (a + 3) ⟨3, by decide, rfl⟩]

theorem add_ne (a : UInt32) {j k : UInt32} (hne : j ≠ k) : a + j ≠ a + k :=
  fun heq => hne (UInt32.add_right_inj a |>.mp heq)

theorem join_toNat (b0 b1 b2 b3 : UInt8) :
    (b0.toUInt32 ||| b1.toUInt32 <<< 8 ||| b2.toUInt32 <<< 16 |||
      b3.toUInt32 <<< 24).toNat =
      b0.toNat + 2 ^ 8 * b1.toNat + 2 ^ 16 * b2.toNat + 2 ^ 24 * b3.toNat := by
  have h0 := b0.toNat_lt
  have h1 := b1.toNat_lt
  have h2 := b2.toNat_lt
  have h3 := b3.toNat_lt
  have hjoin {low high k : Nat} (hlow : low < 2 ^ k) :
      low ||| high <<< k = low + 2 ^ k * high := by
    rw [Nat.or_comm, ← Nat.shiftLeft_add_eq_or_of_lt hlow, Nat.shiftLeft_eq,
      Nat.add_comm, Nat.mul_comm]
  have hshift (b : UInt8) (k : UInt32) (hk : k.toNat < 32)
      (hfits : b.toNat * 2 ^ k.toNat < 2 ^ 32) :
      (b.toUInt32 <<< k).toNat = b.toNat <<< k.toNat := by
    rw [UInt32.toNat_shiftLeft, UInt8.toNat_toUInt32, Nat.mod_eq_of_lt hk,
      Nat.mod_eq_of_lt]
    rwa [Nat.shiftLeft_eq]
  have hs1 := hshift b1 8 (by decide) (by simp; omega)
  have hs2 := hshift b2 16 (by decide) (by simp; omega)
  have hs3 := hshift b3 24 (by decide) (by simp; omega)
  have hj1 : b0.toNat ||| b1.toNat <<< 8 = b0.toNat + 2 ^ 8 * b1.toNat :=
    hjoin (by omega)
  have hj2 : b0.toNat + 2 ^ 8 * b1.toNat ||| b2.toNat <<< 16 =
      b0.toNat + 2 ^ 8 * b1.toNat + 2 ^ 16 * b2.toNat := hjoin (by omega)
  have hj3 : b0.toNat + 2 ^ 8 * b1.toNat + 2 ^ 16 * b2.toNat ||| b3.toNat <<< 24 =
      b0.toNat + 2 ^ 8 * b1.toNat + 2 ^ 16 * b2.toNat + 2 ^ 24 * b3.toNat :=
    hjoin (by omega)
  simp only [UInt32.toNat_or, hs1, hs2, hs3, UInt8.toNat_toUInt32,
    UInt32.reduceToNat]
  rw [hj1, hj2, hj3]

theorem join_bytes (w : UInt32) :
    w.toUInt8.toUInt32 ||| (w >>> 8).toUInt8.toUInt32 <<< 8 |||
      (w >>> 16).toUInt8.toUInt32 <<< 16 ||| (w >>> 24).toUInt8.toUInt32 <<< 24 =
      w := by
  apply UInt32.toNat_inj.mp
  have hlt := w.toNat_lt
  have hbyte (k : UInt32) (hk : k.toNat < 32) :
      (w >>> k).toUInt8.toNat = w.toNat / 2 ^ k.toNat % 2 ^ 8 := by
    rw [UInt32.toNat_toUInt8, UInt32.toNat_shiftRight, Nat.mod_eq_of_lt hk,
      Nat.shiftRight_eq_div_pow]
  have h1 : (w >>> 8).toUInt8.toNat = w.toNat / 2 ^ 8 % 2 ^ 8 :=
    hbyte 8 (by decide)
  have h2 : (w >>> 16).toUInt8.toNat = w.toNat / 2 ^ 16 % 2 ^ 8 :=
    hbyte 16 (by decide)
  have h3 : (w >>> 24).toUInt8.toNat = w.toNat / 2 ^ 24 % 2 ^ 8 :=
    hbyte 24 (by decide)
  rw [join_toNat, h1, h2, h3, UInt32.toNat_toUInt8]
  omega

theorem read32_write32 (a w : UInt32) : (m.write32 a w).read32 a = w := by
  have h1 : a + 1 ≠ a := by simp
  have h2 : a + 2 ≠ a := by simp
  have h3 : a + 3 ≠ a := by simp
  have h21 : a + 2 ≠ a + 1 := add_ne a (by decide)
  have h31 : a + 3 ≠ a + 1 := add_ne a (by decide)
  have h32 : a + 3 ≠ a + 2 := add_ne a (by decide)
  have hbytes : (m.write32 a w).read32 a = w.toUInt8.toUInt32 |||
      (w >>> 8).toUInt8.toUInt32 <<< 8 ||| (w >>> 16).toUInt8.toUInt32 <<< 16 |||
        (w >>> 24).toUInt8.toUInt32 <<< 24 := by
    simp only [read32, write32, h1, h2, h3, h21, h31, h32, if_true, if_false]
  rw [hbytes, join_bytes]

/-- Words at two distances from one address have no byte in common. -/
def Apart (x y : UInt32) : Bool :=
  [0, 1, 2, 3].all fun j => [0, 1, 2, 3].all fun k => x + j != y + k

theorem not_covers_of_apart {x y : UInt32} (hapart : Apart x y) (base : UInt32)
    {p : UInt32} (hp : Covers (base + y) p) : ¬Covers (base + x) p := by
  rintro ⟨j, hj, heq⟩
  obtain ⟨k, hk, rfl⟩ := hp
  have hrow := List.all_eq_true.mp hapart j hj
  have hne : x + j ≠ y + k := by simpa using List.all_eq_true.mp hrow k hk
  rw [UInt32.add_assoc, UInt32.add_assoc] at heq
  exact hne (UInt32.add_right_inj base |>.mp heq).symm

theorem read32_write32_of_apart {x y : UInt32} (hapart : Apart x y)
    (base w : UInt32) :
    (m.write32 (base + x) w).read32 (base + y) = m.read32 (base + y) :=
  read32_congr fun _ hp =>
    m.write32_of_not_covers w (not_covers_of_apart hapart base hp)

/-! ### Several words around one address -/

/-- The bytes of the words at these distances from the address. -/
def Words (base : UInt32) (places : List UInt32) (p : UInt32) : Prop :=
  ∃ x ∈ places, Covers (base + x) p

def stores (base : UInt32) (words : List (UInt32 × UInt32)) : AddressSpace :=
  words.foldl (fun m word => m.write32 (base + word.1) word.2) m

theorem stores_of_not_words {base p : UInt32} {words : List (UInt32 × UInt32)}
    (hp : ¬Words base (words.map Prod.fst) p) : m.stores base words p = m p := by
  induction words generalizing m with
  | nil => rfl
  | cons word rest ih =>
      have hrest : ¬Words base (rest.map Prod.fst) p := by
        rintro ⟨x, hx, hcovers⟩
        exact hp ⟨x, List.mem_cons_of_mem _ hx, hcovers⟩
      have hword : ¬Covers (base + word.1) p := fun hcovers =>
        hp ⟨word.1, List.mem_cons_self, hcovers⟩
      calc (m.write32 (base + word.1) word.2).stores base rest p
          = m.write32 (base + word.1) word.2 p := ih _ hrest
        _ = m p := m.write32_of_not_covers word.2 hword

theorem read32_stores_of_apart {base y : UInt32} {words : List (UInt32 × UInt32)}
    (hapart : ∀ x ∈ words.map Prod.fst, Apart x y) :
    (m.stores base words).read32 (base + y) = m.read32 (base + y) := by
  refine read32_congr fun p hp => m.stores_of_not_words ?_
  rintro ⟨x, hx, hcovers⟩
  exact not_covers_of_apart (hapart x hx) base hp hcovers

theorem read32_stores {base x w : UInt32} {words : List (UInt32 × UInt32)}
    (hapart : (words.map Prod.fst).Pairwise fun x y => Apart y x)
    (hmem : (x, w) ∈ words) : (m.stores base words).read32 (base + x) = w := by
  induction words generalizing m with
  | nil => cases hmem
  | cons word rest ih =>
      obtain ⟨hword, hrest⟩ := List.pairwise_cons.mp hapart
      rcases List.mem_cons.mp hmem with rfl | hmem
      · calc ((m.write32 (base + x) w).stores base rest).read32 (base + x)
            = (m.write32 (base + x) w).read32 (base + x) :=
              read32_stores_of_apart _ hword
          _ = w := m.read32_write32 _ w
      · exact ih _ hrest hmem

theorem Words.of_places {base base' a : UInt32} {places places' : List UInt32}
    (hplaces : places.all fun x => places'.any fun y => base' + y == base + x)
    (ha : Words base places a) : Words base' places' a := by
  obtain ⟨x, hx, hcovers⟩ := ha
  obtain ⟨y, hy, heq⟩ := List.any_eq_true.mp (List.all_eq_true.mp hplaces x hx)
  exact ⟨y, hy, eq_of_beq heq ▸ hcovers⟩

theorem not_words_of_apart {base base' a : UInt32} {places places' : List UInt32}
    (hapart : places.all fun x => places'.all fun y => Apart (base' + y) (base + x))
    (ha : Words base places a) : ¬Words base' places' a := by
  rintro ⟨y, hy, hcovers'⟩
  obtain ⟨x, hx, hcovers⟩ := ha
  have hpair := List.all_eq_true.mp (List.all_eq_true.mp hapart x hx) y hy
  refine not_covers_of_apart hpair 0 ?_ ?_ (p := a)
  · rwa [UInt32.zero_add]
  · rwa [UInt32.zero_add]

end AddressSpace

end X86Os32.Library
