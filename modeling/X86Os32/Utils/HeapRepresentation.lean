import X86Os32.Library.Tiling
import X86Os32.Utils.Heap

namespace X86Os32.Heap

open Library Library.Tiling

/-! What a heap in memory stands for: a list of blocks in address order and the
free list.  The lemmas here read the accessors of `utils/heap.cc` off it. -/

theorem and_highMask {v k : Nat} (hv : v < 2 ^ 32) (hk : k ≤ 32) :
    v &&& (2 ^ (32 - k) - 1) <<< k = v / 2 ^ k * 2 ^ k := by
  rw [← Nat.shiftRight_eq_div_pow, ← Nat.shiftLeft_eq]
  apply Nat.eq_of_testBit_eq
  intro i
  simp only [Nat.testBit_and, Nat.testBit_shiftLeft, Nat.testBit_two_pow_sub_one,
    Nat.testBit_shiftRight]
  by_cases hi : k ≤ i
  · simp only [hi, decide_true, Bool.true_and, Nat.add_sub_cancel' hi]
    by_cases hlt : i - k < 32 - k
    · simp [hlt]
    · rw [Nat.testBit_lt_two_pow (Nat.lt_of_lt_of_le hv
        (Nat.pow_le_pow_right (by omega) (by omega : 32 ≤ i)))]
      simp
  · simp [hi]

theorem and_complement_flagBits {v : Nat} (hv : v < 2 ^ 32) :
    v &&& complement flagBits = v - v % 4 := by
  have hmask : complement flagBits = (2 ^ (32 - 2) - 1) <<< 2 := by decide
  rw [hmask, and_highMask hv (by omega)]
  omega

theorem and_complement_usedBit {v : Nat} (hv : v < 2 ^ 32) :
    v &&& complement usedBit = v - v % 2 := by
  have hmask : complement usedBit = (2 ^ (32 - 1) - 1) <<< 1 := by decide
  rw [hmask, and_highMask hv (by omega)]
  omega

theorem and_flagBits (v : Nat) : v &&& flagBits = v % 4 :=
  Nat.and_two_pow_sub_one_eq_mod v 2

theorem and_usedBit (v : Nat) : v &&& usedBit = v % 2 :=
  Nat.and_two_pow_sub_one_eq_mod v 1

theorem or_usedBit {v : Nat} (hv : v % 2 = 0) : v ||| usedBit = v + 1 := by
  have hdiv : (v ||| 1) / 2 = v / 2 := by
    rw [Nat.or_div_two]
    simp
  have hmod : (v ||| 1) % 2 = 1 := by
    rw [Nat.or_mod_two_eq_one]
    simp
  unfold usedBit
  omega

theorem isAligned_iff {val : Nat} : isAligned val ↔ val % 4 = 0 := by
  unfold isAligned alignment
  rw [Nat.and_two_pow_sub_one_eq_mod val 2]

theorem align_eq {val : Nat} (hval : val + 3 < 2 ^ 32) :
    align val = (val + 3) / 4 * 4 := by
  have hmask : complement (alignment - 1) = complement flagBits := by decide
  have hsum : add32 val (alignment - 1) = val + 3 := by
    unfold add32 alignment
    omega
  unfold align
  rw [hmask, hsum, and_complement_flagBits hval]
  omega

theorem blockSizeFor_eq {size : Nat} (hsize : size + 3 < 2 ^ 32) :
    blockSizeFor size = max ((size + 3) / 4 * 4) 8 := by
  rw [blockSizeFor, align_eq hsize]
  rfl

theorem memblockOverhead_eq : memblockOverhead = 8 := rfl

theorem minBlockSize_eq : minBlockSize = 8 := rfl

theorem HeapObject.bounds (heap : HeapObject) :
    0 < heap.freeListSentinel ∧ heap.freeListSentinel + 8 = heap.head ∧
      heap.head + heapSize < 2 ^ 32 ∧ heapSize = 1048576 :=
  ⟨heap.nonnull, rfl, heap.fits, rfl⟩

theorem getSize_of_tagged {block : Block} (htagged : Tagged m a block)
    (hmod : block.size % 4 = 0) : getSize m a = block.size := by
  have hlt := m.load32_lt a
  unfold getSize
  rw [and_complement_flagBits hlt, htagged.1]
  unfold Block.tag
  split <;> omega

theorem getFlags_of_tagged {block : Block} (htagged : Tagged m a block)
    (hmod : block.size % 4 = 0) :
    getFlags m a = if block.used then usedBit else 0 := by
  unfold getFlags
  rw [and_flagBits, htagged.1]
  unfold Block.tag usedBit
  split <;> omega

theorem isFree_of_tagged {block : Block} (htagged : Tagged m a block)
    (hmod : block.size % 4 = 0) : isFree m a ↔ block.used = false := by
  unfold isFree
  rw [and_usedBit, htagged.1]
  unfold Block.tag
  cases block.used with
  | true =>
      simp
      omega
  | false =>
      simp
      omega

structure Layout (heap : HeapObject) (m : Mem) (blocks : List Block) :
    Prop where
  span_eq : span blocks = heapSize
  size_ge : ∀ block ∈ blocks, 8 ≤ block.size
  size_mod : ∀ block ∈ blocks, block.size % 4 = 0
  tiled : Tiled m heap.head blocks

theorem forall_replace {before mid mid' after : List Block}
    {property : Block → Prop}
    (hall : ∀ block ∈ before ++ mid ++ after, property block)
    (hmid : ∀ block ∈ mid', property block) :
    ∀ block ∈ before ++ mid' ++ after, property block := by
  intro block hblock
  simp only [List.mem_append] at hblock
  rcases hblock with (hblock | hblock) | hblock
  · exact hall block (by simp [hblock])
  · exact hmid block hblock
  · exact hall block (by simp [hblock])

/-- The heap between two calls: the blocks, and the nodes of the free list. -/
structure Represents (heap : HeapObject) (m : Mem) (blocks : List Block)
    (nodes : List Nat) : Prop extends Layout heap m blocks where
  coalesced : Coalesced blocks
  ring : Ring.IsRing m heap.freeListSentinel nodes
  nodes_perm : nodes.Perm (freeNodes heap.head blocks)

variable {heap : HeapObject}

theorem getNext_of_tagged {m : Mem} {a : Nat}
    {block : Block} (htagged : Tagged m a block) (hmod : block.size % 4 = 0)
    (hroom : a + 8 + block.size ≤ heap.head + heapSize - 16) :
    getNext heap m a = a + 8 + block.size := by
  have hbounds := heap.bounds
  have hfooter := htagged.2
  have hblockSize : add32 (payload a) block.size = a + 4 + block.size := by
    unfold payload
    exact add32_of_lt (by omega)
  have hnext : add32 (a + 4 + block.size) 4 = a + 8 + block.size := by
    rw [add32_of_lt (by omega)]
    omega
  simp only [getNext, getSize_of_tagged htagged hmod, hblockSize, hfooter,
    hnext, ne_eq, not_true_eq_false, if_false]
  unfold HeapObject.maxMemblockPointer
  rw [memblockOverhead_eq, minBlockSize_eq, if_neg (by omega)]

namespace Layout

theorem entry_bounds (hlayout : Layout heap m blocks)
    {entry : Nat × Block} (hentry : entry ∈ locate heap.head blocks) :
    heap.head ≤ entry.1 ∧ entry.1 + 8 + entry.2.size ≤ heap.head + heapSize ∧
      8 ≤ entry.2.size ∧ entry.2.size % 4 = 0 := by
  have hrange := locate_range hentry
  have hmem := locate_size_mem hentry
  rw [hlayout.span_eq] at hrange
  unfold Block.length at hrange
  exact ⟨hrange.1, by omega, hlayout.size_ge _ hmem, hlayout.size_mod _ hmem⟩

theorem mid_bounds (hlayout : Layout heap m (before ++ block :: after)) :
    span before + 8 + block.size + span after = heapSize ∧
      8 ≤ block.size ∧ block.size % 4 = 0 := by
  have hspan := hlayout.span_eq
  simp only [span_append, span_cons] at hspan
  unfold Block.length at hspan
  exact ⟨by omega, hlayout.size_ge _ (by simp), hlayout.size_mod _ (by simp)⟩

theorem tagged (hlayout : Layout heap m (before ++ block :: after)) :
    Tagged m (heap.head + span before) block :=
  hlayout.tiled _ (mem_locate_split _ _ _ _)

theorem getSize_eq (hlayout : Layout heap m (before ++ block :: after)) :
    getSize m (heap.head + span before) = block.size :=
  getSize_of_tagged hlayout.tagged hlayout.mid_bounds.2.2

theorem getFlags_eq (hlayout : Layout heap m (before ++ block :: after)) :
    getFlags m (heap.head + span before) = if block.used then usedBit else 0 :=
  getFlags_of_tagged hlayout.tagged hlayout.mid_bounds.2.2

theorem isFree_iff (hlayout : Layout heap m (before ++ block :: after)) :
    isFree m (heap.head + span before) ↔ block.used = false :=
  isFree_of_tagged hlayout.tagged hlayout.mid_bounds.2.2

theorem entry_header (hlayout : Layout heap m blocks)
    {entry : Nat × Block} (hentry : entry ∈ locate heap.head blocks) :
    getSize m entry.1 = entry.2.size ∧
      (isFree m entry.1 ↔ entry.2.used = false) := by
  obtain ⟨before, after, rfl, haddress⟩ := locate_split hentry
  rw [haddress]
  exact ⟨hlayout.getSize_eq, hlayout.isFree_iff⟩

theorem getNext_eq
    (hlayout : Layout heap m (before ++ block :: next :: after)) :
    getNext heap m (heap.head + span before) =
      heap.head + span (before ++ [block]) := by
  have hmid := hlayout.mid_bounds
  have hsize := hlayout.size_ge next (by simp)
  simp only [span_cons] at hmid
  unfold Block.length at hmid
  rw [getNext_of_tagged hlayout.tagged hmid.2.2 (by omega)]
  simp only [span_append, span_cons, span_nil]
  unfold Block.length
  omega

theorem getNext_last (hlayout : Layout heap m (before ++ [block])) :
    getNext heap m (heap.head + span before) = 0 := by
  have hbounds := heap.bounds
  have hmid := hlayout.mid_bounds
  have hfooter := hlayout.tagged.2
  have hblockSize : add32 (payload (heap.head + span before)) block.size =
      heap.head + span before + 4 + block.size := by
    unfold payload
    exact add32_of_lt (by omega)
  simp only [getNext, hlayout.getSize_eq, hblockSize, hfooter, ne_eq,
    not_true_eq_false, if_false]
  rw [add32_of_lt (by omega)]
  unfold HeapObject.maxMemblockPointer
  rw [memblockOverhead_eq, minBlockSize_eq]
  simp only [span_nil] at hmid
  rw [if_pos (by omega)]

theorem getPrevious_eq
    (hlayout : Layout heap m (before ++ prev :: block :: after)) :
    getPrevious heap m (heap.head + span (before ++ [prev])) =
      heap.head + span before := by
  have hbounds := heap.bounds
  have hmid := hlayout.mid_bounds
  have hfooter := hlayout.tagged.2
  have hspan : span (before ++ [prev]) = span before + (prev.size + 8) := by
    simp [Block.length]
  have hprevSize : sub32 (heap.head + span (before ++ [prev])) 4 =
      heap.head + span before + 4 + prev.size := by
    rw [sub32_of_le (by omega) (by omega)]
    omega
  have hback : sub32 (sub32 (heap.head + span before + 4 + prev.size)
      prev.size) 4 = heap.head + span before := by
    rw [sub32_of_le (x := heap.head + span before + 4 + prev.size) (by omega)
      (by omega), sub32_of_le (by omega) (by omega)]
    omega
  simp only [getPrevious, hprevSize, hfooter, hback, hlayout.getSize_eq, ne_eq,
    not_true_eq_false, if_false]
  unfold HeapObject.minMemblockPointer
  rw [if_neg (by omega)]

/-- A change inside the sentinel and the nodes of free payloads keeps the
layout. -/
theorem sameOff (hlayout : Layout heap m blocks)
    (hsame : Ring.SameOff (heap.freeListSentinel :: nodes) m m')
    (hnodes : ∀ node ∈ nodes, node ∈ freeNodes heap.head blocks) :
    Layout heap m' blocks where
  span_eq := hlayout.span_eq
  size_ge := hlayout.size_ge
  size_mod := hlayout.size_mod
  tiled := by
    have hbounds := heap.bounds
    refine hlayout.tiled.frame hlayout.size_ge fun p hlow hhigh hoff => ?_
    apply hsame
    intro node hnode
    rcases List.mem_cons.mp hnode with rfl | hnode
    · omega
    · exact hoff node (hnodes node hnode)

end Layout

theorem sentinel_nodes_apart {blocks : List Block}
    {nodes : List Nat} (hsizes : ∀ block ∈ blocks, 8 ≤ block.size)
    (hperm : nodes.Perm (freeNodes heap.head blocks)) :
    List.Pairwise Ring.Apart (heap.freeListSentinel :: nodes) := by
  have hbounds := heap.bounds
  refine List.pairwise_cons.mpr ⟨?_, ?_⟩
  · intro node hnode
    have := freeNodes_range hsizes (hperm.mem_iff.mp hnode)
    unfold Ring.Apart
    omega
  · exact (hperm.pairwise_iff Ring.Apart.symm).mpr (freeNodes_apart hsizes)

theorem node_outside_used (before mid after : List Block) {nodes : List Nat}
    (hsizes : ∀ block ∈ before ++ mid ++ after,
      8 ≤ block.size)
    (hperm : nodes.Perm (freeNodes heap.head (before ++ mid ++ after)))
    (hused : ∀ block ∈ mid, block.used = true) :
    ∀ node ∈ heap.freeListSentinel :: nodes,
      node + 8 ≤ heap.head + span before ∨
        heap.head + span before + span mid ≤ node := by
  have hbounds := heap.bounds
  intro node hnode
  rcases List.mem_cons.mp hnode with rfl | hnode
  · omega
  · have hfree := hperm.mem_iff.mp hnode
    simp only [freeNodes_append, List.mem_append] at hfree
    rcases hfree with (hfree | hfree) | hfree
    · have := freeNodes_range (fun block hblock =>
        hsizes block (by simp [hblock])) hfree
      omega
    · obtain ⟨entry, hentry, hunused, -⟩ := mem_freeNodes.mp hfree
      have := hused _ (locate_size_mem hentry)
      simp [this] at hunused
    · have := freeNodes_range (fun block hblock =>
        hsizes block (by simp [hblock])) hfree
      simp only [span_append] at this
      omega

namespace Represents

theorem apart (hrep : Represents heap m blocks nodes) :
    List.Pairwise Ring.Apart (heap.freeListSentinel :: nodes) :=
  sentinel_nodes_apart hrep.size_ge hrep.nodes_perm

/-- Only the sentinel and the reserved bytes matter. -/
theorem congr (hrep : Represents heap m blocks nodes)
    (hsame : ∀ p, (heap.freeListSentinel ≤ p ∧ p < heap.head) ∨
      Reserved heap.head blocks p → m' p = m p) :
    Represents heap m' blocks nodes where
  span_eq := hrep.span_eq
  size_ge := hrep.size_ge
  size_mod := hrep.size_mod
  tiled := by
    intro entry hentry
    obtain ⟨hheader, hfooter⟩ := hrep.tiled entry hentry
    constructor
    · refine (Mem.load32_congr fun p hlow hhigh => ?_).trans hheader
      exact hsame p (Or.inr ⟨entry, hentry, Or.inl ⟨hlow, hhigh⟩⟩)
    · refine (Mem.load32_congr fun p hlow hhigh => ?_).trans hfooter
      exact hsame p (Or.inr ⟨entry, hentry, Or.inr (Or.inl (by omega))⟩)
  coalesced := hrep.coalesced
  ring := by
    have hbounds := heap.bounds
    refine hrep.ring.congr fun node hnode p hlow hhigh => hsame p ?_
    rcases List.mem_cons.mp hnode with rfl | hnode
    · exact Or.inl ⟨hlow, by omega⟩
    · have hfree := hrep.nodes_perm.mem_iff.mp hnode
      obtain ⟨entry, hentry, hunused, rfl⟩ := mem_freeNodes.mp hfree
      have hsize := hrep.size_ge _ (locate_size_mem hentry)
      refine Or.inr ⟨entry, hentry, Or.inr (Or.inr ⟨hunused, ?_⟩)⟩
      unfold Block.length
      omega
  nodes_perm := hrep.nodes_perm

theorem replace (hrep : Represents heap m (before ++ mid ++ after) nodes)
    (hspan : span mid' = span mid)
    (hge : ∀ block ∈ mid', 8 ≤ block.size)
    (hmod : ∀ block ∈ mid', block.size % 4 = 0)
    (hsame : ∀ p, (p < heap.head + span before ∨
        heap.head + span before + span mid ≤ p) →
      (∀ node ∈ heap.freeListSentinel :: nodes, p < node ∨ node + 8 ≤ p) →
        m' p = m p)
    (htiled : Tiled m' (heap.head + span before) mid')
    (hcoalesced : Coalesced (before ++ mid' ++ after))
    (hring : Ring.IsRing m' heap.freeListSentinel nodes')
    (hperm : nodes'.Perm (freeNodes heap.head (before ++ mid' ++ after))) :
    Represents heap m' (before ++ mid' ++ after) nodes' where
  span_eq := by
    have := hrep.span_eq
    simp only [span_append] at this ⊢
    omega
  size_ge := forall_replace hrep.size_ge hge
  size_mod := forall_replace hrep.size_mod hmod
  tiled := by
    have hbounds := heap.bounds
    have hall := hrep.tiled
    rw [tiled_append, tiled_append] at hall
    have hnodes : ∀ node ∈ heap.freeListSentinel :: nodes,
        node = heap.freeListSentinel ∨ node ∈ freeNodes heap.head before ∨
        node ∈ freeNodes (heap.head + span before) mid ∨
        node ∈ freeNodes (heap.head + span before + span mid) after := by
      intro node hnode
      rcases List.mem_cons.mp hnode with rfl | hnode
      · exact Or.inl rfl
      · have hfree := hrep.nodes_perm.mem_iff.mp hnode
        simp only [freeNodes_append, List.mem_append, span_append,
          ← Nat.add_assoc, or_assoc] at hfree
        exact Or.inr hfree
    have hgeBefore : ∀ block ∈ before, 8 ≤ block.size :=
      fun block hblock => hrep.size_ge block (by simp [hblock])
    have hgeMid : ∀ block ∈ mid, 8 ≤ block.size :=
      fun block hblock => hrep.size_ge block (by simp [hblock])
    have hgeAfter : ∀ block ∈ after, 8 ≤ block.size :=
      fun block hblock => hrep.size_ge block (by simp [hblock])
    rw [tiled_append, tiled_append]
    refine ⟨⟨?_, htiled⟩, ?_⟩
    · refine hall.1.1.frame hgeBefore fun p hlow hhigh hoff => ?_
      apply hsame p (by omega)
      intro node hnode
      rcases hnodes node hnode with rfl | hfree | hfree | hfree
      · omega
      · exact hoff node hfree
      · have := freeNodes_range hgeMid hfree
        omega
      · have := freeNodes_range hgeAfter hfree
        omega
    · rw [span_append, hspan, ← span_append]
      refine hall.2.frame hgeAfter fun p hlow hhigh hoff => ?_
      rw [span_append] at hlow
      apply hsame p (by omega)
      intro node hnode
      rcases hnodes node hnode with rfl | hfree | hfree | hfree
      · omega
      · have := freeNodes_range hgeBefore hfree
        omega
      · have := freeNodes_range hgeMid hfree
        omega
      · rw [span_append, ← Nat.add_assoc] at hoff
        exact hoff node hfree
  coalesced := hcoalesced
  ring := hring
  nodes_perm := hperm

end Represents

end X86Os32.Heap
