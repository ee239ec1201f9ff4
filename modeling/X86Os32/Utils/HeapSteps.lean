import X86Os32.Utils.HeapRepresentation

namespace X86Os32.Heap

open Library Library.Tiling

/-! The building blocks of the allocator.  Each of them takes a represented heap
to a represented heap: a merged block stays used until it is released, and a
claimed block is used before it is split. -/

variable {heap : HeapObject}

/-- Only the sentinel and bytes reserved by `blocks` may differ. -/
def Frame (heap : HeapObject) (blocks : List Block) (m m' : Mem) : Prop :=
  ∀ p, (p < heap.freeListSentinel ∨ heap.freeListSentinel + 8 ≤ p) →
    ¬ Reserved heap.head blocks p → m' p = m p

theorem Frame.refl (heap : HeapObject) (blocks : List Block) (m : Mem) :
    Frame heap blocks m m :=
  fun _ _ _ => rfl

theorem off_ring_of_not_reserved {blocks : List Block} {nodes : List Nat}
    {p : Nat} (hsizes : ∀ block ∈ blocks, 8 ≤ block.size)
    (hsubset : ∀ node ∈ nodes, node ∈ freeNodes heap.head blocks)
    (hsentinel : p < heap.freeListSentinel ∨ heap.freeListSentinel + 8 ≤ p)
    (hnot : ¬ Reserved heap.head blocks p) :
    ∀ node ∈ heap.freeListSentinel :: nodes, p < node ∨ node + 8 ≤ p := by
  intro node hnode
  rcases List.mem_cons.mp hnode with rfl | hnode
  · exact hsentinel
  · exact off_node_of_not_reserved hnot hsizes (hsubset node hnode)

/-- The memory after `write_size_fields`. -/
def withTags (m : Mem) (a : Nat) (block : Block) : Mem :=
  (m.store32 a block.tag).store32 (a + 4 + block.size) block.size

theorem writeSizeFields_eq (m : Mem) (a : Nat) (block : Block)
    (hmod : block.size % 4 = 0)
    (hflags : flags = if block.used then usedBit else 0) :
    writeSizeFields m a block.size flags = .ok (withTags m a block) := by
  have hsize : block.size &&& flagBits = 0 := by
    rw [and_flagBits]
    exact hmod
  have hclear : flags &&& complement flagBits = 0 := by
    rw [hflags]
    split <;> decide
  have htag : block.size ||| flags = block.tag := by
    rw [hflags]
    unfold Block.tag
    split
    · exact or_usedBit (by omega)
    · simp
  unfold writeSizeFields withTags
  rw [assert_of hsize, assert_of hclear, ok_bind, ok_bind, htag]
  rfl

theorem withTags_tagged (m : Mem) (a : Nat) (block : Block)
    (hlt : block.size + 1 < 2 ^ 32) : Tagged (withTags m a block) a block := by
  have htag : block.tag ≤ block.size + 1 := by
    unfold Block.tag
    split <;> omega
  unfold withTags
  constructor
  · rw [Mem.load32_store32_of_disjoint _ (by omega),
      Mem.load32_store32 _ _ (by omega)]
  · rw [Mem.load32_store32 _ _ (by omega)]

theorem withTags_outside {block : Block}
    (hheader : p < a ∨ a + 4 ≤ p)
    (hfooter : p < a + 4 + block.size ∨ a + 8 + block.size ≤ p) :
    withTags m a block p = m p := by
  unfold withTags
  rw [Mem.store32_outside _ (by omega), Mem.store32_outside _ hheader]

theorem tagged_withTags {block other : Block} {b : Nat}
    (htagged : Tagged m b other)
    (hheader : b + 8 + other.size ≤ a ∨ a + 4 ≤ b ∨
      (b + 4 ≤ a ∧ a + 4 ≤ b + 4 + other.size))
    (hfooter : b + 8 + other.size ≤ a + 4 + block.size ∨
      a + 8 + block.size ≤ b ∨
      (b + 4 ≤ a + 4 + block.size ∧
        a + 8 + block.size ≤ b + 4 + other.size)) :
    Tagged (withTags m a block) b other := by
  constructor
  · refine (Mem.load32_congr fun p hlow hhigh => ?_).trans htagged.1
    exact withTags_outside (by omega) (by omega)
  · refine (Mem.load32_congr fun p hlow hhigh => ?_).trans htagged.2
    exact withTags_outside (by omega) (by omega)

theorem freeListInsert_of_isFree (hfree : isFree m block) :
    freeListInsert heap m block =
      .ok (Ring.insertFirst m heap.freeListSentinel (block + 4)) := by
  unfold freeListInsert
  rw [assert_of hfree]
  rfl

theorem insertFirst_tagged {other : Block}
    (hring : Ring.IsRing m heap.freeListSentinel nodes)
    (hapart : Ring.Apart heap.freeListSentinel (block + 4))
    (hsize : 8 ≤ other.size)
    (houtside : ∀ node ∈ heap.freeListSentinel :: nodes,
      node + 8 ≤ block ∨ block + 8 + other.size ≤ node)
    (htagged : Tagged m block other) :
    Tagged (Ring.insertFirst m heap.freeListSentinel (block + 4)) block other := by
  have hfirst := hring.next_sentinel_mem
  refine htagged.sameOff (Ring.insertFirst_sameOff hapart) fun node hnode => ?_
  simp only [List.mem_cons, List.not_mem_nil, or_false] at hnode
  rcases hnode with rfl | rfl | rfl
  · have := houtside _ List.mem_cons_self
    omega
  · omega
  · have := houtside _ hfirst
    omega

/-- A used block between used neighbours is released by clearing its used bit
and putting it in front of the free list. -/
theorem release_spec
    (hrep : Represents heap m (before ++ ⟨size, true⟩ :: after) nodes)
    (hbefore : ∀ last ∈ before.getLast?, last.used = true)
    (hafter : ∀ first ∈ after.head?, first.used = true) :
    ∃ m', freeListInsert heap (markFree m (heap.head + span before))
        (heap.head + span before) = .ok m' ∧
      Represents heap m' (before ++ ⟨size, false⟩ :: after)
        ((heap.head + span before + 4) :: nodes) ∧
      Frame heap (before ++ ⟨size, false⟩ :: after) m m' := by
  have hbounds := heap.bounds
  have hmid := hrep.mid_bounds
  obtain ⟨hheader, hfooter⟩ := hrep.tagged
  have hcoalesced : Coalesced (before ++ ⟨size, false⟩ :: after) :=
    hrep.coalesced.set_free hbefore hafter
  have hentry := mem_locate_split heap.head before after ⟨size, false⟩
  have hperm : ((heap.head + span before + 4) :: nodes).Perm
      (freeNodes heap.head (before ++ ⟨size, false⟩ :: after)) := by
    refine (List.Perm.cons _ hrep.nodes_perm).trans ?_
    simp only [freeNodes_append, freeNodes_cons_free, freeNodes_cons_used]
    exact List.perm_middle.symm
  rw [List.append_cons] at hrep hcoalesced hentry hperm ⊢
  have houtside := node_outside_used before [⟨size, true⟩] after hrep.size_ge
    hrep.nodes_perm (by simp)
  simp only [Block.tag, if_true] at hmid hheader hfooter
  simp only [span_cons, span_nil, Block.length] at houtside
  generalize hblock : heap.head + span before = block at *
  have hclear : m.load32 block &&& complement usedBit = size := by
    rw [and_complement_usedBit (m.load32_lt block), hheader]
    omega
  have hmark : markFree m block = m.store32 block size := by
    unfold markFree
    rw [hclear]
  have hcleared : (m.store32 block size).load32 block = size :=
    Mem.load32_store32 _ _ (by omega)
  have hisFree : isFree (m.store32 block size) block := by
    unfold isFree
    rw [hcleared, and_usedBit]
    omega
  have hge : ∀ other ∈ before ++ [(⟨size, false⟩ : Block)] ++ after,
      8 ≤ other.size :=
    forall_replace hrep.size_ge (by simpa using hmid.2.1)
  have hapart := sentinel_nodes_apart hge hperm
  have hring : Ring.IsRing (m.store32 block size) heap.freeListSentinel
      nodes := by
    refine hrep.ring.congr fun node hnode p hlow hhigh => ?_
    have := houtside node hnode
    exact Mem.store32_outside _ (by omega)
  have hsentinel := (List.pairwise_cons.mp hapart).1 (block + 4) (by simp)
  have hpoint : ∀ p, (∀ node ∈ heap.freeListSentinel :: (block + 4) :: nodes,
      p < node ∨ node + 8 ≤ p) → (p < block ∨ block + 4 ≤ p) →
      Ring.insertFirst (m.store32 block size) heap.freeListSentinel
        (block + 4) p = m p := by
    intro p hoff hheaderOff
    rw [hring.insertFirst_off hsentinel hoff, Mem.store32_outside _ hheaderOff]
  refine ⟨Ring.insertFirst (m.store32 block size) heap.freeListSentinel
    (block + 4), ?_, ?_, ?_⟩
  · rw [hmark, freeListInsert_of_isFree hisFree]
  · refine hrep.replace (by simp [Block.length]) (by simpa using hmid.2.1)
      (by simpa using hmid.2.2) ?_ ?_ hcoalesced
      (hring.insertFirst hapart (by omega) (by omega)) hperm
    · intro p hp hoff
      simp only [hblock, span_cons, span_nil, Block.length] at hp
      exact hpoint p (Ring.off_insertFirst hoff (by omega)) (by omega)
    · rw [hblock]
      intro entry hmem
      obtain rfl : entry = (block, ⟨size, false⟩) := by
        simpa [locate] using hmem
      have htagged : Tagged (m.store32 block size) block ⟨size, false⟩ :=
        ⟨by simpa [Block.tag] using hcleared,
          (Mem.load32_store32_of_disjoint _ (by simp)).trans hfooter⟩
      refine insertFirst_tagged hring hsentinel hmid.2.1 (fun node hnode => ?_)
        htagged
      have := houtside node hnode
      dsimp only
      omega
  · intro p hsentinel hnot
    apply hpoint p
    · exact off_ring_of_not_reserved hge (fun node hnode =>
        hperm.mem_iff.mp hnode) hsentinel hnot
    · exact (off_tags_of_not_reserved hnot hentry).1

/-- A free block is claimed by setting its used bit and unlinking its node. -/
theorem claim_spec
    (hrep : Represents heap m (before ++ ⟨size, false⟩ :: after) nodes) :
    ∃ nodes', Represents heap
        (freeListRemove (markUsed m (heap.head + span before))
          (heap.head + span before)) (before ++ ⟨size, true⟩ :: after) nodes' ∧
      Frame heap (before ++ ⟨size, false⟩ :: after) m
        (freeListRemove (markUsed m (heap.head + span before))
          (heap.head + span before)) := by
  have hbounds := heap.bounds
  have hmid := hrep.mid_bounds
  obtain ⟨hheader, hfooter⟩ := hrep.tagged
  have hcoalesced : Coalesced (before ++ ⟨size, true⟩ :: after) :=
    hrep.coalesced.set_used rfl
  have hentry := mem_locate_split heap.head before after ⟨size, false⟩
  obtain ⟨left, right, hnodes⟩ : ∃ left right,
      nodes = left ++ (heap.head + span before + 4) :: right := by
    apply List.append_of_mem
    rw [hrep.nodes_perm.mem_iff]
    simp
  have hperm : (left ++ right).Perm
      (freeNodes heap.head (before ++ ⟨size, true⟩ :: after)) := by
    have hall := hrep.nodes_perm
    rw [hnodes] at hall
    simp only [freeNodes_append, freeNodes_cons_free, freeNodes_cons_used]
      at hall ⊢
    exact (List.perm_cons _).mp
      (List.perm_middle.symm.trans (hall.trans List.perm_middle))
  rw [List.append_cons] at hrep hcoalesced hentry hperm
  rw [List.append_cons before ⟨size, true⟩ after,
    List.append_cons before ⟨size, false⟩ after]
  have hge : ∀ other ∈ before ++ [(⟨size, true⟩ : Block)] ++ after,
      8 ≤ other.size :=
    forall_replace hrep.size_ge (by simpa using hmid.2.1)
  have houtside := node_outside_used before [⟨size, true⟩] after hge hperm
    (by simp)
  simp only [Block.tag, Bool.false_eq_true, if_false] at hmid hheader hfooter
  simp only [span_cons, span_nil, Block.length] at houtside
  have hapart := hrep.apart
  have hringOld := hrep.ring
  rw [hnodes] at hapart hringOld
  generalize hblock : heap.head + span before = block at *
  have hmark : markUsed m block = m.store32 block (size + 1) := by
    unfold markUsed
    rw [hheader, or_usedBit (by omega)]
  have hring : Ring.IsRing (m.store32 block (size + 1)) heap.freeListSentinel
      (left ++ (block + 4) :: right) := by
    refine hringOld.congr fun node hnode p hlow hhigh => ?_
    apply Mem.store32_outside
    by_cases heq : node = block + 4
    · omega
    · have := houtside node (Ring.mem_unlinked_of_ne hnode heq)
      omega
  obtain ⟨hprev, hnext⟩ := hring.neighbours
  have hsame := Ring.unlink_sameOff (m.store32 block (size + 1)) (block + 4)
  rw [hmark]
  unfold freeListRemove payload
  have hpoint : ∀ p, (∀ node ∈ heap.freeListSentinel :: (left ++ right),
      p < node ∨ node + 8 ≤ p) → (p < block ∨ block + 4 ≤ p) →
      Ring.unlink (m.store32 block (size + 1)) (block + 4) p = m p := by
    intro p hoff hheaderOff
    rw [hsame p ?_, Mem.store32_outside _ hheaderOff]
    intro node hnode
    simp only [List.mem_cons, List.not_mem_nil, or_false] at hnode
    rcases hnode with rfl | rfl
    · exact hoff _ hprev
    · exact hoff _ hnext
  refine ⟨left ++ right, ?_, ?_⟩
  · refine hrep.replace (by simp [Block.length]) (by simpa using hmid.2.1)
      (by simpa using hmid.2.2) ?_ ?_ hcoalesced (hring.unlink hapart) hperm
    · intro p hp hoff
      simp only [hblock, span_cons, span_nil, Block.length] at hp
      apply hpoint p _ (by omega)
      intro node hnode
      apply hoff
      rw [hnodes]
      exact Ring.mem_of_mem_unlinked hnode
    · rw [hblock]
      intro entry hmem
      obtain rfl : entry = (block, ⟨size, true⟩) := by
        simpa [locate] using hmem
      have htagged : Tagged (m.store32 block (size + 1)) block ⟨size, true⟩ :=
        ⟨Mem.load32_store32 _ _ (by omega),
          (Mem.load32_store32_of_disjoint _ (by simp)).trans hfooter⟩
      refine htagged.sameOff hsame fun node hnode => ?_
      simp only [List.mem_cons, List.not_mem_nil, or_false] at hnode
      rcases hnode with rfl | rfl
      · have := houtside _ hprev
        dsimp only
        omega
      · have := houtside _ hnext
        dsimp only
        omega
  · intro p hsentinel hnot
    apply hpoint p
    · have hoff := off_ring_of_not_reserved hrep.size_ge (fun node hnode =>
        hrep.nodes_perm.mem_iff.mp hnode) hsentinel hnot
      intro node hnode
      apply hoff
      rw [hnodes]
      exact Ring.mem_of_mem_unlinked hnode
    · exact (off_tags_of_not_reserved hnot hentry).1

/-- The bytes that a split of the block at `a` into a rest of `rest` bytes and
a part behind it does not write. -/
def SplitFrame (a rest size : Nat) (nodes : List Nat) (m m' : Mem) : Prop :=
  ∀ p, (∀ node ∈ nodes, p < node ∨ node + 8 ≤ p) →
    (p < a ∨ a + 12 ≤ p) → (p < a + 4 + rest ∨ a + 12 + rest ≤ p) →
    (p < a + 4 + size ∨ a + 8 + size ≤ p) → m' p = m p

theorem coalesced_split {before after : List Block} {size r z : Nat}
    (hcoalesced : Coalesced (before ++ ⟨size, true⟩ :: after))
    (hbefore : ∀ last ∈ before.getLast?, last.used = true) :
    Coalesced (before ++ [⟨r, false⟩, ⟨z, true⟩] ++ after) := by
  obtain ⟨hleft, hright, _⟩ := coalesced_append.mp hcoalesced
  have hafter := (coalesced_cons.mp hright).2
  rw [List.append_assoc]
  refine coalesced_append.mpr ⟨hleft, ?_, ?_⟩
  · exact coalesced_cons.mpr ⟨by simp, coalesced_cons.mpr
      ⟨fun _ _ => Or.inl rfl, hafter⟩⟩
  · exact fun last hlast _ _ => Or.inl (hbefore last hlast)

theorem freeNodes_split {before after : List Block} (a r z : Nat) :
    ((a + span before + 4) ::
        freeNodes a (before ++ ⟨r + 8 + z, true⟩ :: after)).Perm
      (freeNodes a (before ++ [⟨r, false⟩, ⟨z, true⟩] ++ after)) := by
  have haddress : a + span before + (r + 8 + z + 8) =
      a + span before + (r + 8) + (z + 8) := by omega
  simp only [freeNodes_append, freeNodes_cons_free, freeNodes_cons_used,
    List.append_assoc, List.cons_append, List.nil_append, haddress]
  exact List.perm_middle.symm

theorem maybeSplitBlock_eq (hz : blockSizeFor request = z) (hr : 8 ≤ r)
    (hlt : r + z + 16 < 2 ^ 32) (hgetSize : getSize m block = r + 8 + z)
    (hgetFlags : getFlags m block = usedBit)
    (hrest : writeSizeFields m block r 0 = .ok tagged)
    (hinsert : freeListInsert heap tagged block = .ok inserted)
    (hnext : getNext heap inserted block = block + (r + 8))
    (hpart : writeSizeFields inserted (block + (r + 8)) z usedBit = .ok cut) :
    maybeSplitBlock heap m block request = .ok (cut, block + (r + 8)) := by
  have hsum : add32 (add32 z memblockOverhead) minBlockSize = z + 16 := by
    rw [memblockOverhead_eq, minBlockSize_eq,
      add32_of_lt (x := z) (by omega), add32_of_lt (by omega)]
  have hnewSize : sub32 (sub32 (r + 8 + z) z) memblockOverhead = r := by
    rw [memblockOverhead_eq, sub32_of_le (x := r + 8 + z) (by omega)
      (by omega), sub32_of_le (by omega) (by omega)]
    omega
  unfold maybeSplitBlock
  simp only [hz, hgetSize, hgetFlags, hsum, hnewSize, hrest, hinsert, ok_bind]
  rw [if_pos (by omega), assert_of (by rw [minBlockSize_eq]; omega)]
  simp only [ok_bind, hnext]
  rw [assert_of (by omega), ok_bind, hpart]
  rfl

/-- A used block that is large enough is cut in two: the free rest at its low
end, the requested part at its high end. -/
theorem split_spec
    (hrep : Represents heap m (before ++ ⟨size, true⟩ :: after) nodes)
    (hbefore : ∀ last ∈ before.getLast?, last.used = true)
    (hrequest : request + 3 < 2 ^ 32)
    (hroom : blockSizeFor request + 16 ≤ size) :
    ∃ m', maybeSplitBlock heap m (heap.head + span before) request =
        .ok (m', heap.head + span before + (size - blockSizeFor request)) ∧
      Represents heap m' (before ++ ⟨size - blockSizeFor request - 8, false⟩ ::
        ⟨blockSizeFor request, true⟩ :: after)
        ((heap.head + span before + 4) :: nodes) ∧
      Frame heap (before ++ ⟨size - blockSizeFor request - 8, false⟩ ::
        ⟨blockSizeFor request, true⟩ :: after) m m' ∧
      SplitFrame (heap.head + span before) (size - blockSizeFor request - 8)
        size (heap.freeListSentinel :: nodes) m m' := by
  have hbounds := heap.bounds
  have hmid := hrep.mid_bounds
  have hgetSize := hrep.getSize_eq
  have hgetFlags := hrep.getFlags_eq
  have hcut := blockSizeFor_eq hrequest
  generalize hz : blockSizeFor request = z at *
  have hzmod : z % 4 = 0 := by omega
  have hzge : 8 ≤ z := by omega
  obtain ⟨r, rfl⟩ : ∃ r, size = r + 8 + z := ⟨size - z - 8, by omega⟩
  have hr : r + 8 + z - z - 8 = r := by omega
  have hback : r + 8 + z - z = r + 8 := by omega
  rw [hr, hback]
  simp only [if_true] at hmid hgetSize hgetFlags
  have hentries : ∀ entry ∈ locate (heap.head + span before)
      [(⟨r, false⟩ : Block), ⟨z, true⟩],
      entry = (heap.head + span before, ⟨r, false⟩) ∨
        entry = (heap.head + span before + (r + 8), ⟨z, true⟩) := by
    intro entry hentry
    simpa [locate, Block.length] using hentry
  have hcoalesced : Coalesced (before ++ [⟨r, false⟩, ⟨z, true⟩] ++ after) :=
    coalesced_split hrep.coalesced hbefore
  have hperm : ((heap.head + span before + 4) :: nodes).Perm
      (freeNodes heap.head (before ++ [⟨r, false⟩, ⟨z, true⟩] ++ after)) :=
    (List.Perm.cons _ hrep.nodes_perm).trans (freeNodes_split heap.head r z)
  have hlocated : ∀ entry ∈ locate (heap.head + span before)
      [(⟨r, false⟩ : Block), ⟨z, true⟩], entry ∈ locate heap.head
        (before ++ [⟨r, false⟩, ⟨z, true⟩] ++ after) := by
    intro entry hentry
    simp only [locate_append, List.mem_append]
    exact Or.inl (Or.inr hentry)
  rw [List.append_cons] at hrep
  have hparts : ∀ other ∈ [(⟨r, false⟩ : Block), ⟨z, true⟩],
      8 ≤ other.size := by
    simp only [List.mem_cons, List.not_mem_nil, or_false]
    rintro other (rfl | rfl)
    · dsimp only
      omega
    · exact hzge
  have hge := forall_replace hrep.size_ge hparts
  rw [show before ++ (⟨r, false⟩ : Block) :: ⟨z, true⟩ :: after =
    before ++ [⟨r, false⟩, ⟨z, true⟩] ++ after by simp]
  have houtside := node_outside_used before [⟨r + 8 + z, true⟩] after
    hrep.size_ge hrep.nodes_perm (by simp)
  simp only [span_cons, span_nil, Block.length] at houtside
  have hapart := sentinel_nodes_apart hge hperm
  generalize hblock : heap.head + span before = block at *
  -- The tags of the rest, its node, then the tags of the requested part.
  have hrest : writeSizeFields m block r 0 = _ :=
    writeSizeFields_eq m block ⟨r, false⟩ (by dsimp only; omega) rfl
  have htagRest := withTags_tagged m block ⟨r, false⟩ (by dsimp only; omega)
  have hring : Ring.IsRing (withTags m block ⟨r, false⟩) heap.freeListSentinel
      nodes := by
    refine hrep.ring.congr fun node hnode p hlow hhigh => ?_
    have := houtside node hnode
    exact withTags_outside (by omega) (by dsimp only; omega)
  have hinsert : freeListInsert heap (withTags m block ⟨r, false⟩) block =
      .ok (Ring.insertFirst (withTags m block ⟨r, false⟩)
        heap.freeListSentinel (block + 4)) :=
    freeListInsert_of_isFree
      ((isFree_of_tagged htagRest (by dsimp only; omega)).mpr rfl)
  have hsentinel := (List.pairwise_cons.mp hapart).1 (block + 4) (by simp)
  have hringRest := hring.insertFirst hapart (by omega) (by omega)
  have htagInserted := insertFirst_tagged hring hsentinel (by dsimp only; omega)
    (fun node hnode => by
      have := houtside node hnode
      dsimp only
      omega) htagRest
  have hpoint : ∀ p, (∀ node ∈ heap.freeListSentinel :: (block + 4) :: nodes,
      p < node ∨ node + 8 ≤ p) → (p < block ∨ block + 4 ≤ p) →
      (p < block + 4 + r ∨ block + 8 + r ≤ p) →
      Ring.insertFirst (withTags m block ⟨r, false⟩) heap.freeListSentinel
        (block + 4) p = m p := by
    intro p hoff hheaderOff hfooterOff
    rw [hring.insertFirst_off hsentinel hoff,
      withTags_outside hheaderOff hfooterOff]
  generalize Ring.insertFirst (withTags m block ⟨r, false⟩)
    heap.freeListSentinel (block + 4) = inserted at *
  have hnext : getNext heap inserted block = block + (r + 8) := by
    rw [getNext_of_tagged htagInserted (by dsimp only; omega)
      (by dsimp only; omega)]
    dsimp only
    omega
  have hpart : writeSizeFields inserted (block + (r + 8)) z usedBit = _ :=
    writeSizeFields_eq inserted (block + (r + 8)) ⟨z, true⟩ hzmod rfl
  have htagPart := withTags_tagged inserted (block + (r + 8)) ⟨z, true⟩
    (by dsimp only; omega)
  refine ⟨withTags inserted (block + (r + 8)) ⟨z, true⟩, ?_, ?_, ?_, ?_⟩
  · exact maybeSplitBlock_eq hz (by omega) (by omega) hgetSize hgetFlags hrest hinsert
      hnext hpart
  · refine hrep.replace ?_ ?_ ?_ ?_ ?_ hcoalesced ?_ hperm
    · simp [Block.length]
      omega
    · exact hparts
    · intro other hother
      simp only [List.mem_cons, List.not_mem_nil, or_false] at hother
      rcases hother with rfl | rfl
      · dsimp only
        omega
      · exact hzmod
    · intro p hp hoff
      simp only [hblock, span_cons, span_nil, Block.length] at hp
      rw [withTags_outside (by omega) (by dsimp only; omega)]
      exact hpoint p (Ring.off_insertFirst hoff (by omega)) (by omega)
        (by omega)
    · rw [hblock]
      intro entry hentry
      rcases hentries entry hentry with rfl | rfl
      · exact tagged_withTags htagInserted (by dsimp only; omega)
          (by dsimp only; omega)
      · exact htagPart
    · refine hringRest.congr fun node hnode p hlow hhigh => ?_
      simp only [List.mem_cons] at hnode houtside
      apply withTags_outside
      · rcases hnode with rfl | rfl | hnode
        · omega
        · omega
        · have := houtside node (Or.inr hnode)
          omega
      · dsimp only
        rcases hnode with rfl | rfl | hnode
        · omega
        · omega
        · have := houtside node (Or.inr hnode)
          omega
  · intro p hsentinel hnot
    have hoff := off_ring_of_not_reserved hge (fun node hnode =>
      hperm.mem_iff.mp hnode) hsentinel hnot
    have hrestOff := off_tags_of_not_reserved hnot
      (hlocated (block, ⟨r, false⟩) (by simp [locate]))
    have hpartOff := off_tags_of_not_reserved hnot
      (hlocated (block + (r + 8), ⟨z, true⟩) (by simp [locate, Block.length]))
    dsimp only at hrestOff hpartOff
    rw [withTags_outside hpartOff.1 (by dsimp only; omega)]
    exact hpoint p hoff hrestOff.1 (by omega)
  · intro p hoff hlow hmiddle hhigh
    rw [withTags_outside (by omega) (by dsimp only; omega)]
    exact hpoint p (Ring.off_insertFirst hoff (by omega)) (by omega) (by omega)

/-- The blocks that a merge takes in on one side: none, or one free block. -/
def Absorbed (blocks : List Block) : Prop :=
  blocks = [] ∨ ∃ size, blocks = [⟨size, false⟩]

theorem Absorbed.usedEntries (habsorbed : Absorbed blocks) (a : Nat) :
    usedEntries a blocks = [] := by
  rcases habsorbed with rfl | ⟨size, rfl⟩ <;> simp

theorem mergePrevious_spec
    (hrep : Represents heap m (before ++ ⟨size, true⟩ :: after) nodes)
    (hfirst : before = [] → getPrevious heap m heap.head = 0) :
    ∃ m' nodes' before' left, before = before' ++ left ∧ Absorbed left ∧
      (∀ last ∈ before'.getLast?, last.used = true) ∧
      mergePrevious heap m (heap.head + span before) size =
        (m', heap.head + span before', size + span left) ∧
      Ring.IsRing m' heap.freeListSentinel nodes' ∧
      nodes.Perm (freeNodes (heap.head + span before') left ++ nodes') ∧
      Ring.SameOff (heap.freeListSentinel :: nodes') m m' := by
  have hbounds := heap.bounds
  rcases List.eq_nil_or_concat before with rfl | ⟨front, prev, hsplit⟩
  · refine ⟨m, nodes, [], [], rfl, Or.inl rfl, by simp, ?_, hrep.ring,
      by simp, fun _ _ => rfl⟩
    simp [mergePrevious, hfirst rfl]
  · rw [List.concat_eq_append] at hsplit
    subst hsplit
    have hlayout : Layout heap m (front ++ prev :: ⟨size, true⟩ :: after) := by
      simpa using hrep.toLayout
    have hprevious := hlayout.getPrevious_eq
    have hisFree := hlayout.isFree_iff
    have hgetSize := hlayout.getSize_eq
    have hmid := hlayout.mid_bounds
    obtain ⟨prevSize, used⟩ := prev
    cases used with
    | true =>
        refine ⟨m, nodes, front ++ [⟨prevSize, true⟩], [], by simp, Or.inl rfl,
          by simp, ?_, hrep.ring, by simp, fun _ _ => rfl⟩
        simp only [mergePrevious, hprevious, hisFree]
        rw [if_neg (by simp)]
        simp
    | false =>
        have hmem : heap.head + span front + 4 ∈ nodes := by
          rw [hrep.nodes_perm.mem_iff]
          simp
        obtain ⟨rest, hring, hperm, hsame⟩ :=
          hrep.ring.unlink_mem hrep.apart hmem
        refine ⟨freeListRemove m (heap.head + span front), rest, front,
          [⟨prevSize, false⟩], by simp, Or.inr ⟨prevSize, rfl⟩, ?_, ?_, hring,
          by simpa using hperm, hsame⟩
        · have hcoalesced : Coalesced (front ++ ⟨prevSize, false⟩ ::
              ⟨size, true⟩ :: after) := by
            simpa using hrep.coalesced
          exact (hcoalesced.neighbours rfl).1
        · have hkept : Layout heap (freeListRemove m (heap.head + span front))
              (front ++ ⟨prevSize, false⟩ :: ⟨size, true⟩ :: after) := by
            refine hlayout.sameOff hsame fun node hnode => ?_
            have := hrep.nodes_perm.mem_iff.mp
              (hperm.mem_iff.mpr (List.mem_cons_of_mem _ hnode))
            simpa using this
          simp only [span_cons, Block.length] at hmid
          simp only [mergePrevious, hprevious, hisFree]
          rw [if_pos ⟨by omega, trivial⟩, hkept.getSize_eq, memblockOverhead_eq,
            add32_of_lt (y := 8) (by dsimp only; omega),
            add32_of_lt (by dsimp only; omega)]
          simp [Block.length]

theorem mergeNext_spec (newSize : Nat)
    (hlayout : Layout heap m (before ++ ⟨size, true⟩ :: after))
    (hcoalesced : Coalesced after)
    (hring : Ring.IsRing m heap.freeListSentinel nodes)
    (hapart : List.Pairwise Ring.Apart (heap.freeListSentinel :: nodes))
    (hnodes : ∀ node ∈ nodes, node ∈ freeNodes heap.head
      (before ++ ⟨size, true⟩ :: after))
    (hmem : ∀ node ∈ freeNodes (heap.head + span before + (size + 8)) after,
      node ∈ nodes) (hsmall : newSize ≤ span before + size) :
    ∃ m' nodes' right after', after = right ++ after' ∧ Absorbed right ∧
      (∀ first ∈ after'.head?, first.used = true) ∧
      mergeNext heap m (heap.head + span before) newSize =
        (m', newSize + span right) ∧
      Ring.IsRing m' heap.freeListSentinel nodes' ∧
      nodes.Perm (freeNodes (heap.head + span before + (size + 8)) right ++
        nodes') ∧
      Ring.SameOff (heap.freeListSentinel :: nodes') m m' := by
  have hbounds := heap.bounds
  cases after with
  | nil =>
      refine ⟨m, nodes, [], [], rfl, Or.inl rfl, by simp, ?_, hring, by simp,
        fun _ _ => rfl⟩
      simp [mergeNext, hlayout.getNext_last]
  | cons next rest =>
      have hgetNext := hlayout.getNext_eq
      have hnextLayout : Layout heap m
          ((before ++ [⟨size, true⟩]) ++ next :: rest) := by
        simpa using hlayout
      have hisFree := hnextLayout.isFree_iff
      have hmid := hnextLayout.mid_bounds
      have hspan : span (before ++ [(⟨size, true⟩ : Block)]) =
          span before + (size + 8) := by simp [Block.length]
      have haddress : heap.head + span (before ++ [(⟨size, true⟩ : Block)]) =
          heap.head + span before + (size + 8) := by omega
      obtain ⟨nextSize, used⟩ := next
      cases used with
      | true =>
          refine ⟨m, nodes, [], ⟨nextSize, true⟩ :: rest, by simp, Or.inl rfl,
            by simp, ?_, hring, by simp, fun _ _ => rfl⟩
          simp only [mergeNext, hgetNext, hisFree]
          rw [if_neg (by simp)]
          simp
      | false =>
          have hnode : heap.head + span (before ++ [(⟨size, true⟩ : Block)]) +
              4 ∈ nodes := by
            apply hmem
            rw [haddress, freeNodes_cons_free]
            exact List.mem_cons_self
          obtain ⟨others, hunlinked, hperm, hsame⟩ :=
            hring.unlink_mem hapart hnode
          refine ⟨_, others, [⟨nextSize, false⟩], rest, by simp,
            Or.inr ⟨nextSize, rfl⟩, ?_, ?_, hunlinked, ?_, hsame⟩
          · intro first hfirst
            have := (coalesced_cons.mp hcoalesced).1 first hfirst
            simpa using this
          · have hkept : Layout heap (freeListRemove m
                (heap.head + span (before ++ [⟨size, true⟩])))
                ((before ++ [⟨size, true⟩]) ++ ⟨nextSize, false⟩ :: rest) := by
              refine hnextLayout.sameOff hsame fun node hnode => ?_
              have := hnodes node
                (hperm.mem_iff.mpr (List.mem_cons_of_mem _ hnode))
              simpa using this
            rw [hspan] at hmid
            dsimp only at hmid
            simp only [mergeNext, hgetNext, hisFree]
            rw [if_pos ⟨by omega, trivial⟩, hkept.getSize_eq,
              memblockOverhead_eq, add32_of_lt (y := 8) (by dsimp only; omega),
              add32_of_lt (by dsimp only; omega)]
            simp [Block.length, freeListRemove, payload]
          · rw [haddress] at hperm
            simpa using hperm

theorem Absorbed.span_eq_zero (habsorbed : Absorbed blocks)
    (hzero : span blocks = 0) : blocks = [] := by
  rcases habsorbed with rfl | ⟨size, rfl⟩
  · rfl
  · simp [Block.length] at hzero

theorem Absorbed.span_mod (habsorbed : Absorbed blocks)
    (hmod : ∀ block ∈ blocks, block.size % 4 = 0) : span blocks % 4 = 0 := by
  rcases habsorbed with rfl | ⟨size, rfl⟩
  · rfl
  · have := hmod _ List.mem_cons_self
    simp only [span_cons, span_nil, Block.length]
    dsimp only at this
    omega

theorem Absorbed.off_merged {size : Nat} (hleft : Absorbed left)
    (hright : Absorbed right)
    (hnot : ¬ Reserved heap.head
      (before ++ (left ++ [⟨size, true⟩] ++ right) ++ after) p) :
    (p < heap.head + span before ∨ heap.head + span before + 4 ≤ p) ∧
      (p < heap.head + span before + 4 + (span left + size + span right) ∨
        heap.head + span before + 8 + (span left + size + span right) ≤ p) := by
  have hmem : ∀ entry ∈ locate (heap.head + span before)
      (left ++ [(⟨size, true⟩ : Block)] ++ right), entry ∈ locate heap.head
        (before ++ (left ++ [⟨size, true⟩] ++ right) ++ after) := by
    intro entry hentry
    rw [locate_append, locate_append heap.head before]
    exact List.mem_append_left _ (List.mem_append_right _ hentry)
  have hoff := fun entry hentry =>
    off_tags_of_not_reserved hnot (hmem entry hentry)
  rcases hleft with rfl | ⟨leftSize, rfl⟩ <;>
    rcases hright with rfl | ⟨rightSize, rfl⟩
  all_goals
    simp [locate, Block.length] at hoff ⊢
    omega

theorem tryMerge_eq
    (hrep : Represents heap m (before ++ ⟨size, true⟩ :: after) nodes)
    (hfirst : before = [] → getPrevious heap m heap.head = 0) :
    ∃ m1 nodes1 m2 nodes2 before' left right after',
      before = before' ++ left ∧ after = right ++ after' ∧
      Absorbed left ∧ Absorbed right ∧
      (∀ last ∈ before'.getLast?, last.used = true) ∧
      (∀ first ∈ after'.head?, first.used = true) ∧
      (tryMerge heap m (heap.head + span before) =
        if size + span left + span right = size then
          .ok (m2, heap.head + span before')
        else .ok (withTags m2 (heap.head + span before')
          ⟨span left + size + span right, true⟩, heap.head + span before')) ∧
      Layout heap m2 (before ++ ⟨size, true⟩ :: after) ∧
      Ring.IsRing m1 heap.freeListSentinel nodes1 ∧
      Ring.SameOff (heap.freeListSentinel :: nodes1) m m1 ∧
      Ring.IsRing m2 heap.freeListSentinel nodes2 ∧
      Ring.SameOff (heap.freeListSentinel :: nodes2) m1 m2 ∧
      nodes.Perm (freeNodes (heap.head + span before') left ++ nodes1) ∧
      nodes1.Perm (freeNodes (heap.head + span before + (size + 8)) right ++
        nodes2) := by
  have hbounds := heap.bounds
  have hgetSize := hrep.getSize_eq
  obtain ⟨m1, nodes1, before', left, rfl, hleft, hlast, hmergePrevious, hring1,
    hperm1, hsame1⟩ := mergePrevious_spec hrep hfirst
  have hsubset1 : ∀ node ∈ nodes1, node ∈ nodes := fun node hnode =>
    hperm1.mem_iff.mpr (List.mem_append_right _ hnode)
  have hlayout1 := hrep.toLayout.sameOff hsame1 fun node hnode =>
    hrep.nodes_perm.mem_iff.mp (hsubset1 node hnode)
  have hapart1 : List.Pairwise Ring.Apart (heap.freeListSentinel :: nodes1) := by
    have := ((hperm1.cons heap.freeListSentinel).pairwise_iff
      Ring.Apart.symm).mp hrep.apart
    exact this.sublist (by simp)
  have hcoalescedAfter : Coalesced after :=
    (coalesced_cons.mp (coalesced_append.mp hrep.coalesced).2.1).2
  have hsizesLeft : ∀ block ∈ left, 8 ≤ block.size :=
    fun block hblock => hrep.size_ge block (by simp [hblock])
  have hsizesAfter : ∀ block ∈ after, 8 ≤ block.size :=
    fun block hblock => hrep.size_ge block (by simp [hblock])
  obtain ⟨m2, nodes2, right, after', rfl, hright, hhead, hmergeNext, hring2,
      hperm2, hsame2⟩ :=
    mergeNext_spec (size + span left) hlayout1 hcoalescedAfter hring1
      hapart1
      (fun node hnode => hrep.nodes_perm.mem_iff.mp (hsubset1 node hnode))
      (by
        intro node hnode
        have hrange := freeNodes_range hsizesAfter hnode
        have hmem : node ∈ nodes := by
          rw [hrep.nodes_perm.mem_iff, freeNodes_append]
          simp only [freeNodes_cons_used, List.mem_append]
          exact Or.inr hnode
        rcases List.mem_append.mp (hperm1.mem_iff.mp hmem) with hmem | hmem
        · have := freeNodes_range hsizesLeft hmem
          rw [span_append] at hrange
          omega
        · exact hmem)
      (by rw [span_append]; omega)
  have hsubset2 : ∀ node ∈ nodes2, node ∈ nodes1 := fun node hnode =>
    hperm2.mem_iff.mpr (List.mem_append_right _ hnode)
  have hlayout2 := hlayout1.sameOff hsame2 fun node hnode =>
    hrep.nodes_perm.mem_iff.mp (hsubset1 node (hsubset2 node hnode))
  have hflags := hlayout2.getFlags_eq
  have hmod : span left % 4 = 0 ∧ span right % 4 = 0 :=
    ⟨hleft.span_mod fun block hblock => hrep.size_mod block (by simp [hblock]),
      hright.span_mod fun block hblock => hrep.size_mod block (by simp [hblock])⟩
  have hsize := hrep.mid_bounds
  simp only [span_append] at hsize
  refine ⟨m1, nodes1, m2, nodes2, before', left, right, after', rfl, rfl, hleft,
    hright, hlast, hhead, ?_, hlayout2, hring1, hsame1, hring2, hsame2, hperm1,
    hperm2⟩
  unfold tryMerge
  simp only [hgetSize, hmergePrevious, hmergeNext, hflags, if_true]
  by_cases hequal : size + span left + span right = size
  · simp [hequal]
    rfl
  · have htotal : size + span left + span right =
        (⟨span left + size + span right, true⟩ : Block).size := by
      dsimp only
      omega
    have hwrite : writeSizeFields m2 (heap.head + span before')
        (size + span left + span right) usedBit =
        .ok (withTags m2 (heap.head + span before')
          ⟨span left + size + span right, true⟩) := by
      rw [htotal]
      exact writeSizeFields_eq _ _ _ (by dsimp only; omega) rfl
    rw [if_neg hequal, if_pos hequal,
      assert_of (isAligned_iff.mpr (by omega)), ok_bind, hwrite]
    rfl

theorem coalesced_merged {before mid after : List Block} (total : Nat)
    (hcoalesced : Coalesced (before ++ mid ++ after))
    (hlast : ∀ last ∈ before.getLast?, last.used = true) :
    Coalesced (before ++ [⟨total, true⟩] ++ after) := by
  rw [List.append_assoc] at hcoalesced ⊢
  obtain ⟨hbefore, hrest, -⟩ := coalesced_append.mp hcoalesced
  have hafter := (coalesced_append.mp hrest).2.1
  refine coalesced_append.mpr ⟨hbefore, ?_, ?_⟩
  · exact coalesced_cons.mpr ⟨fun _ _ => Or.inl rfl, hafter⟩
  · exact fun last hmem _ _ => Or.inl (hlast last hmem)

theorem freeNodes_merged {before left right after : List Block} {a size : Nat}
    {nodes nodes1 nodes2 : List Nat}
    (hall : nodes.Perm
      (freeNodes a (before ++ (left ++ [⟨size, true⟩] ++ right) ++ after)))
    (hleft : nodes.Perm (freeNodes (a + span before) left ++ nodes1))
    (hright : nodes1.Perm
      (freeNodes (a + span (before ++ left) + (size + 8)) right ++ nodes2)) :
    nodes2.Perm
      (freeNodes a (before ++ [⟨span left + size + span right, true⟩] ++ after)) := by
  have haddress : a + (span before + (span left + (size + 8) + span right)) =
      a + (span before + (span left + size + span right + 8)) := by omega
  simp only [freeNodes_append, freeNodes_cons_used, freeNodes_nil,
    List.append_nil, span_append, span_cons, span_nil, Block.length,
    Nat.add_zero, Nat.add_assoc] at hall hleft hright haddress ⊢
  rw [← haddress]
  rw [List.perm_iff_count] at hall hleft hright ⊢
  intro node
  have hcount := hall node
  have hcountLeft := hleft node
  have hcountRight := hright node
  simp only [List.count_append] at hcount hcountLeft hcountRight ⊢
  omega

/-- `try_merge` on a used block takes in its free neighbours; the merged block
is still used. -/
theorem tryMerge_spec
    (hrep : Represents heap m (before ++ ⟨size, true⟩ :: after) nodes)
    (hfirst : before = [] → getPrevious heap m heap.head = 0) :
    ∃ m' nodes' before' left right after',
      before = before' ++ left ∧ after = right ++ after' ∧
      Absorbed left ∧ Absorbed right ∧
      (∀ last ∈ before'.getLast?, last.used = true) ∧
      (∀ first ∈ after'.head?, first.used = true) ∧
      tryMerge heap m (heap.head + span before) =
        .ok (m', heap.head + span before') ∧
      Represents heap m' (before' ++
        ⟨span left + size + span right, true⟩ :: after') nodes' ∧
      Frame heap (before ++ ⟨size, true⟩ :: after) m m' := by
  have hbounds := heap.bounds
  obtain ⟨m1, nodes1, m2, nodes2, before', left, right, after', rfl, rfl, hleft,
    hright, hlast, hhead, hmerge, hlayout2, -, hsame1, hring2, hsame2, hperm1,
    hperm2⟩ := tryMerge_eq hrep hfirst
  have hsubset1 : ∀ node ∈ nodes1, node ∈ nodes := fun node hnode =>
    hperm1.mem_iff.mpr (List.mem_append_right _ hnode)
  have hsubset2 : ∀ node ∈ nodes2, node ∈ nodes1 := fun node hnode =>
    hperm2.mem_iff.mpr (List.mem_append_right _ hnode)
  have hsame : Ring.SameOff (heap.freeListSentinel :: nodes) m m2 := by
    refine (hsame1.mono ?_).trans (hsame2.mono ?_)
    · exact List.cons_subset_cons _ hsubset1
    · exact List.cons_subset_cons _ fun node hnode =>
        hsubset1 node (hsubset2 node hnode)
  have hmidTagged := hlayout2.tagged
  have hsplit : (before' ++ left) ++ (⟨size, true⟩ : Block) :: (right ++ after') =
      before' ++ (left ++ [⟨size, true⟩] ++ right) ++ after' := by simp
  have htarget : ∀ total, before' ++ (⟨total, true⟩ : Block) :: after' =
      before' ++ [⟨total, true⟩] ++ after' := by simp
  have hmod : span left % 4 = 0 ∧ span right % 4 = 0 :=
    ⟨hleft.span_mod fun block hblock => hrep.size_mod block (by simp [hblock]),
      hright.span_mod fun block hblock => hrep.size_mod block (by simp [hblock])⟩
  have hsize := hrep.mid_bounds
  simp only [span_append] at hsize
  rw [hsplit] at hrep hlayout2 ⊢
  have hcoalesced := coalesced_merged (span left + size + span right)
    hrep.coalesced hlast
  have hperm := freeNodes_merged hrep.nodes_perm hperm1 hperm2
  have hspanMid : span (left ++ [(⟨size, true⟩ : Block)] ++ right) =
      span left + size + span right + 8 := by
    simp [Block.length]
    omega
  have hframe : Frame heap (before' ++ (left ++ [⟨size, true⟩] ++ right) ++
      after') m m2 := by
    intro p hsentinel hnot
    exact hsame p (off_ring_of_not_reserved hrep.size_ge
      (fun node hnode => hrep.nodes_perm.mem_iff.mp hnode) hsentinel hnot)
  by_cases hequal : size + span left + span right = size
  · have hnoLeft := hleft.span_eq_zero (by omega)
    have hnoRight := hright.span_eq_zero (by omega)
    subst hnoLeft hnoRight
    refine ⟨m2, nodes2, before', [], [], after', rfl, rfl, hleft, hright, hlast,
      hhead, by rw [hmerge, if_pos hequal], ?_, hframe⟩
    rw [htarget]
    refine hrep.replace (by simp) (by simp; omega) (by simp; omega)
      (fun p _ hoff => hsame p hoff) ?_ hcoalesced hring2 hperm
    intro entry hentry
    obtain rfl : entry = (heap.head + span before', ⟨size, true⟩) := by
      simpa [locate] using hentry
    simpa using hmidTagged
  · refine ⟨_, nodes2, before', left, right, after', rfl, rfl, hleft, hright,
      hlast, hhead, by rw [hmerge, if_neg hequal], ?_, ?_⟩
    · rw [htarget]
      refine hrep.replace ?_ (by simp; omega) (by simp; omega) ?_ ?_ hcoalesced
        ?_ hperm
      · rw [hspanMid]
        simp [Block.length]
      · intro p hp hoff
        rw [hspanMid] at hp
        rw [withTags_outside (by omega) (by dsimp only; omega)]
        exact hsame p hoff
      · intro entry hentry
        obtain rfl : entry = (heap.head + span before',
            ⟨span left + size + span right, true⟩) := by
          simpa [locate] using hentry
        exact withTags_tagged _ _ _ (by dsimp only; omega)
      · refine hring2.congr fun node hnode p hlow hhigh => ?_
        have hge : ∀ block ∈ before' ++
            [(⟨span left + size + span right, true⟩ : Block)] ++ after',
            8 ≤ block.size :=
          forall_replace hrep.size_ge (by simp; omega)
        have := node_outside_used before' _ after' hge hperm (by simp) node hnode
        simp only [span_cons, span_nil, Block.length] at this
        exact withTags_outside (by omega) (by dsimp only; omega)
    · intro p hsentinel hnot
      have hoff := hleft.off_merged hright hnot
      rw [withTags_outside hoff.1 (by dsimp only; exact hoff.2)]
      exact hframe p hsentinel hnot

end X86Os32.Heap
