import X86Os32.Utils.HeapSteps

namespace X86Os32.Heap

open Library Library.Tiling

/-! The calls of the allocator.  A caller sees a heap as its used blocks: a call
adds one, removes one or replaces one, and keeps the payloads of the others. -/

set_option linter.style.nameCheck false

variable {heap : HeapObject}

/-- The payload of a used block is the same in both memories. -/
def PayloadKept (m m' : Mem) (entry : Nat × Block) : Prop :=
  ∀ p, entry.1 + 4 ≤ p → p < entry.1 + 4 + entry.2.size → m' p = m p

/-- The memory represents a heap whose used blocks are `entries`. -/
def Holds (heap : HeapObject) (m : Mem) (entries : List (Nat × Block)) : Prop :=
  ∃ blocks nodes, Represents heap m blocks nodes ∧
    (usedEntries heap.head blocks).Perm entries

theorem PayloadKept.trans (hfirst : PayloadKept m m' entry)
    (hsecond : PayloadKept m' m'' entry) : PayloadKept m m'' entry :=
  fun p hlow hhigh => (hsecond p hlow hhigh).trans (hfirst p hlow hhigh)

theorem Frame.payloadKept (hframe : Frame heap blocks m m')
    (hentry : entry ∈ usedEntries heap.head blocks) : PayloadKept m m' entry := by
  have hbounds := heap.bounds
  obtain ⟨hlocated, hused⟩ := mem_usedEntries.mp hentry
  have hrange := locate_range hlocated
  intro p hlow hhigh
  exact hframe p (by omega) (not_reserved_of_used hlocated hused hlow hhigh)

/-- Writes into the payloads of used blocks, and outside the heap object, do not
change what the memory represents. -/
theorem Holds.congr (hholds : Holds heap m entries)
    (hsame : ∀ p, heap.address ≤ p → p < heap.head + heapSize →
      (∀ entry ∈ entries, p < entry.1 + 4 ∨
        entry.1 + 4 + entry.2.size ≤ p) → m' p = m p) :
    Holds heap m' entries := by
  have hbounds := heap.bounds
  obtain ⟨blocks, nodes, hrep, hperm⟩ := hholds
  refine ⟨blocks, nodes, hrep.congr fun p hp => hsame p ?_ ?_ ?_, hperm⟩
  · rcases hp with hp | ⟨entry, hentry, hp⟩
    · exact hp.1
    · have hrange := locate_range hentry
      have : heap.address ≤ heap.head := Nat.le_add_right _ _
      omega
  · rcases hp with hp | ⟨entry, hentry, hp⟩
    · omega
    · have hentryBounds := hrep.entry_bounds hentry
      unfold Block.length at hp
      omega
  · intro entry hentry
    obtain ⟨hlocated, hused⟩ := mem_usedEntries.mp (hperm.mem_iff.mpr hentry)
    have hrange := locate_range hlocated
    rcases hp with hp | hp
    · omega
    · by_contra hinside
      exact not_reserved_of_used hlocated hused (by omega) (by omega) hp

theorem Holds.perm (hholds : Holds heap m entries)
    (hperm : entries.Perm entries') : Holds heap m entries' := by
  obtain ⟨blocks, nodes, hrep, hentries⟩ := hholds
  exact ⟨blocks, nodes, hrep, hentries.trans hperm⟩

theorem Holds.apart (hholds : Holds heap m (entry :: rest))
    (hother : other ∈ rest) :
    entry.1 + 8 + entry.2.size ≤ other.1 ∨
      other.1 + 8 + other.2.size ≤ entry.1 := by
  obtain ⟨blocks, nodes, hrep, hperm⟩ := hholds
  have hdistinct : List.Pairwise (fun entry other : Nat × Block =>
      entry.1 + 8 + entry.2.size ≤ other.1 ∨
        other.1 + 8 + other.2.size ≤ entry.1) (entry :: rest) := by
    refine (hperm.pairwise_iff fun h => h.symm).mp ?_
    refine (usedEntries_pairwise heap.head blocks).imp fun h => Or.inl ?_
    unfold Block.length at h
    omega
  exact (List.pairwise_cons.mp hdistinct).1 other hother

theorem Holds.split (hholds : Holds heap m ((a, ⟨size, true⟩) :: rest)) :
    ∃ before after nodes, a = heap.head + span before ∧
      Represents heap m (before ++ ⟨size, true⟩ :: after) nodes ∧
      (usedEntries heap.head before ++
        usedEntries (a + (size + 8)) after).Perm rest := by
  obtain ⟨blocks, nodes, hrep, hperm⟩ := hholds
  have hentry := hperm.mem_iff.mpr (List.mem_cons_self)
  obtain ⟨before, after, rfl, haddress⟩ :=
    locate_split (mem_usedEntries.mp hentry).1
  refine ⟨before, after, nodes, haddress, hrep, ?_⟩
  dsimp only at haddress
  rw [usedEntries_append, usedEntries_cons_used, ← haddress] at hperm
  exact (List.perm_cons _).mp (List.perm_middle.symm.trans hperm)

theorem Represents.nodes_lt (hrep : Represents heap m blocks nodes) :
    nodes.length < 2 ^ 32 := by
  have hbounds := heap.bounds
  have hspan := hrep.span_eq
  have hcount := length_le_span blocks
  have hfree : nodes.length ≤ blocks.length := by
    rw [hrep.nodes_perm.length_eq, ← length_locate heap.head blocks]
    unfold freeNodes
    rw [List.length_map]
    exact List.length_filter_le _ _
  omega

private theorem findFreeBlockFrom_spec (size : Nat)
    (hrep : Represents heap m blocks nodes)
    (hchain : List.IsChain (Ring.Linked m) (walked ++ [heap.freeListSentinel]))
    (hmem : ∀ node ∈ walked, node ∈ nodes)
    (hfuel : walked.length < fuel) (start : Nat)
    (hstart : (walked ++ [heap.freeListSentinel]).head? = some start) :
    (findFreeBlockFrom heap m size fuel start = .ok 0 ∧
      ∀ node ∈ walked, getSize m (getBlock node) < size) ∨
      ∃ node ∈ walked, size ≤ getSize m (getBlock node) ∧
        findFreeBlockFrom heap m size fuel start = .ok (getBlock node) := by
  induction walked generalizing fuel start with
  | nil =>
      obtain rfl : heap.freeListSentinel = start := by simpa using hstart
      cases fuel with
      | zero => simp at hfuel
      | succ fuel =>
          left
          simp [findFreeBlockFrom]
  | cons node rest ih =>
      obtain rfl : node = start := by simpa using hstart
      cases fuel with
      | zero => simp at hfuel
      | succ fuel =>
          have hne : node ≠ heap.freeListSentinel := by
            rintro rfl
            have := (List.pairwise_cons.mp hrep.apart).1 heap.freeListSentinel
              (hmem _ List.mem_cons_self)
            exact this.ne rfl
          by_cases hlarge : size ≤ getSize m (getBlock node)
          · right
            refine ⟨node, List.mem_cons_self, hlarge, ?_⟩
            simp [findFreeBlockFrom, hne, hlarge]
          · have hlink := (List.isChain_cons.mp hchain).1
            obtain ⟨first, hfirst⟩ : ∃ first,
                (rest ++ [heap.freeListSentinel]).head? = some first := by
              cases rest <;> simp
            have hnext : Ring.next m node = first := (hlink first hfirst).1
            have htail := ih (List.isChain_cons.mp hchain).2
              (fun other hother => hmem other (List.mem_cons_of_mem _ hother))
              (by simpa using hfuel) first hfirst
            have hstep : findFreeBlockFrom heap m size (fuel + 1) node =
                findFreeBlockFrom heap m size fuel first := by
              simp [findFreeBlockFrom, hne, hlarge, hnext]
            rw [hstep]
            rcases htail with ⟨hnone, hsmall⟩ | ⟨other, hother, hfits, hfound⟩
            · left
              refine ⟨hnone, ?_⟩
              intro other hother
              rcases List.mem_cons.mp hother with rfl | hother
              · omega
              · exact hsmall other hother
            · exact Or.inr
                ⟨other, List.mem_cons_of_mem _ hother, hfits, hfound⟩

/-- The search ends: with no block when every free one is too small, otherwise
with a free block of at least the wanted size. -/
theorem findFreeBlock_spec (hrep : Represents heap m blocks nodes)
    (size : Nat) :
    (findFreeBlock heap m size = .ok 0 ∧
      ∀ block ∈ blocks, block.used = false → block.size < size) ∨
      ∃ before free after, blocks = before ++ ⟨free, false⟩ :: after ∧
        size ≤ free ∧
        findFreeBlock heap m size = .ok (heap.head + span before) := by
  have hchain := List.isChain_cons.mp hrep.ring
  obtain ⟨first, hfirst⟩ : ∃ first,
      (nodes ++ [heap.freeListSentinel]).head? = some first := by
    cases nodes <;> simp
  have hnext : Ring.next m heap.freeListSentinel = first :=
    (hchain.1 first hfirst).1
  have hlocated : ∀ before free after,
      blocks = before ++ ⟨free, false⟩ :: after →
        getSize m (getBlock (heap.head + span before + 4)) = free := by
    rintro before free after rfl
    have hsize := hrep.toLayout.getSize_eq
    simpa [getBlock] using hsize
  have hwalk := findFreeBlockFrom_spec size hrep hchain.2
    (fun node hnode => hnode) hrep.nodes_lt first hfirst
  unfold findFreeBlock
  rw [hnext]
  rcases hwalk with ⟨hnone, hsmall⟩ | ⟨node, hnode, hfits, hfound⟩
  · left
    refine ⟨hnone, ?_⟩
    intro block hblock hfree
    obtain ⟨before, after, hsplit⟩ := List.append_of_mem hblock
    obtain ⟨free, used⟩ := block
    obtain rfl : used = false := hfree
    have hnode : heap.head + span before + 4 ∈ nodes := by
      rw [hrep.nodes_perm.mem_iff, hsplit]
      simp
    have := hsmall _ hnode
    rwa [hlocated before free after hsplit] at this
  · right
    have hfree := hrep.nodes_perm.mem_iff.mp hnode
    obtain ⟨⟨a, free, used⟩, hentry, hunused, rfl⟩ := mem_freeNodes.mp hfree
    obtain rfl : used = false := hunused
    obtain ⟨before, after, hsplit, haddress⟩ := locate_split hentry
    dsimp only at haddress hfits hfound
    subst haddress
    refine ⟨before, free, after, hsplit, ?_, ?_⟩
    · rwa [hlocated before free after hsplit] at hfits
    · simpa [getBlock] using hfound

theorem maybeSplitBlock_keep
    (hlayout : Layout heap m (before ++ block :: after))
    (hfits : request ≤ block.size)
    (hroom : block.size < blockSizeFor request + 16) :
    maybeSplitBlock heap m (heap.head + span before) request =
      .ok (m, heap.head + span before) := by
  have hbounds := heap.bounds
  have hmid := hlayout.mid_bounds
  have hcut : blockSizeFor request = _ := blockSizeFor_eq (by omega)
  have hsum : add32 (add32 (blockSizeFor request) memblockOverhead)
      minBlockSize = blockSizeFor request + 16 := by
    rw [memblockOverhead_eq, minBlockSize_eq,
      add32_of_lt (x := blockSizeFor request) (by omega),
      add32_of_lt (by omega)]
  unfold maybeSplitBlock
  simp only [hlayout.getSize_eq, hsum]
  rw [if_neg (by omega)]
  rfl

/-- Splitting leaves one used block of at least the requested size where the
large block was. -/
theorem maybeSplitBlock_spec
    (hrep : Represents heap m (before ++ ⟨size, true⟩ :: after) nodes)
    (hbefore : ∀ last ∈ before.getLast?, last.used = true)
    (hfits : request ≤ size) :
    ∃ m' nodes' mid block part,
      maybeSplitBlock heap m (heap.head + span before) request =
        .ok (m', block) ∧
      Represents heap m' (before ++ mid ++ after) nodes' ∧
      span mid = size + 8 ∧ request ≤ part ∧
      usedEntries (heap.head + span before) mid = [(block, ⟨part, true⟩)] ∧
      Frame heap (before ++ mid ++ after) m m' := by
  have hbounds := heap.bounds
  have hmid := hrep.mid_bounds
  dsimp only at hmid
  have hcut : blockSizeFor request = _ := blockSizeFor_eq (by omega)
  by_cases hroom : blockSizeFor request + 16 ≤ size
  · obtain ⟨m', hsplit, hrep', hframe, -⟩ :=
      split_spec hrep hbefore (by omega) hroom
    refine ⟨m', _, [⟨size - blockSizeFor request - 8, false⟩,
      ⟨blockSizeFor request, true⟩], _, blockSizeFor request, hsplit,
      by simpa using hrep', ?_, by omega, ?_, by simpa using hframe⟩
    · simp [Block.length]
      omega
    · have haddress : size - blockSizeFor request - 8 + 8 =
          size - blockSizeFor request := by omega
      simp [haddress]
  · refine ⟨m, nodes, [⟨size, true⟩], _, size,
      maybeSplitBlock_keep hrep.toLayout hfits (by dsimp only; omega),
      by simpa using hrep, by simp [Block.length], hfits, by simp, ?_⟩
    exact Frame.refl _ _ _

theorem __malloc_eq (hrep : Represents heap m blocks nodes) (size : Nat) :
    (__malloc heap m size = .ok (m, 0) ∧
      ∀ block ∈ blocks, block.used = false → block.size < size) ∨
      ∃ before free after nodes', blocks = before ++ ⟨free, false⟩ :: after ∧
        size ≤ free ∧ (∀ last ∈ before.getLast?, last.used = true) ∧
        __malloc heap m size = maybeSplitBlock heap
          (freeListRemove (markUsed m (heap.head + span before))
            (heap.head + span before)) (heap.head + span before) size ∧
        Represents heap (freeListRemove (markUsed m (heap.head + span before))
          (heap.head + span before)) (before ++ ⟨free, true⟩ :: after) nodes' ∧
        Frame heap (before ++ ⟨free, false⟩ :: after) m
          (freeListRemove (markUsed m (heap.head + span before))
            (heap.head + span before)) := by
  have hbounds := heap.bounds
  rcases findFreeBlock_spec hrep size with
    ⟨hnone, hsmall⟩ | ⟨before, free, after, rfl, hfits, hfound⟩
  · left
    refine ⟨?_, hsmall⟩
    simp [__malloc, hnone]
    rfl
  · right
    obtain ⟨nodes', hclaimed, hframe⟩ := claim_spec hrep
    refine ⟨before, free, after, nodes', rfl, hfits,
      (hrep.coalesced.neighbours rfl).1, ?_, hclaimed, hframe⟩
    unfold __malloc
    rw [hfound, ok_bind, if_neg (by omega),
      assert_of (hrep.toLayout.isFree_iff.mpr rfl)]
    rfl

theorem __malloc_spec (hrep : Represents heap m blocks nodes) (size : Nat) :
    (__malloc heap m size = .ok (m, 0) ∧
      ∀ block ∈ blocks, block.used = false → block.size < size) ∨
      ∃ m' nodes' before free after mid block part,
        blocks = before ++ ⟨free, false⟩ :: after ∧
        __malloc heap m size = .ok (m', block) ∧
        Represents heap m' (before ++ mid ++ after) nodes' ∧
        span mid = free + 8 ∧ size ≤ part ∧
        usedEntries (heap.head + span before) mid = [(block, ⟨part, true⟩)] ∧
        ∀ entry ∈ usedEntries heap.head blocks, PayloadKept m m' entry := by
  rcases __malloc_eq hrep size with
    hnone | ⟨before, free, after, nodes1, rfl, hfits, hbefore, hmalloc, hclaimed,
      hframe1⟩
  · exact Or.inl hnone
  · right
    obtain ⟨m', nodes', mid, block, part, hsplit, hrep', hspan, hpart, hmid,
      hframe2⟩ := maybeSplitBlock_spec hclaimed hbefore hfits
    refine ⟨m', nodes', before, free, after, mid, block, part, rfl,
      hmalloc.trans hsplit, hrep', hspan, hpart, hmid, ?_⟩
    · intro entry hentry
      refine (hframe1.payloadKept hentry).trans (hframe2.payloadKept ?_)
      simp only [usedEntries_append, usedEntries_cons_free, List.mem_append,
        span_append, hspan, hmid, ← Nat.add_assoc] at hentry ⊢
      tauto

theorem payload_of_block {heap : HeapObject} {entry : Nat × Block}
    (hlayout : Layout heap m blocks)
    (hentry : entry ∈ usedEntries heap.head blocks) :
    isHeapPointer heap (payload entry.1) ∧ memblockValid heap entry.1 ∧
      sub32 (payload entry.1) 4 = entry.1 := by
  have hbounds := heap.bounds
  have hentryBounds := hlayout.entry_bounds (mem_usedEntries.mp hentry).1
  unfold isHeapPointer memblockValid HeapObject.maxHeapPtr
    HeapObject.minHeapPtr HeapObject.minMemblockPointer
    HeapObject.maxMemblockPointer payload
  rw [memblockOverhead_eq, minBlockSize_eq, sub32_of_le (by omega) (by omega)]
  omega

/-- The assertion by which a call notices that the heap is exhausted. -/
def outOfMemory : Stop := .assertionFailed "is_heap_pointer(block->mem)"

/-- `malloc` returns, with a new used block of at least the wanted size, unless
every free block is too small. -/
theorem malloc_spec (hholds : Holds heap m entries) (hsize : size ≠ 0) :
    malloc heap m size = .error outOfMemory ∨
      ∃ m' block part, malloc heap m size = .ok (m', payload block) ∧
        Holds heap m' ((block, ⟨part, true⟩) :: entries) ∧ size ≤ part ∧
        ∀ entry ∈ entries, PayloadKept m m' entry := by
  have hbounds := heap.bounds
  obtain ⟨blocks, nodes, hrep, hperm⟩ := hholds
  rcases __malloc_spec hrep size with ⟨hnone, -⟩ |
    ⟨m', nodes', before, free, after, mid, block, part, rfl, hmalloc, hrep',
      hspan, hpart, hmid, hkept⟩
  · left
    have hnull : ¬ isHeapPointer heap (payload 0) := by
      unfold isHeapPointer HeapObject.minHeapPtr payload
      omega
    unfold malloc
    rw [assert_of hsize, ok_bind, hnone, ok_bind]
    simp [assert, hnull, outOfMemory]
  · right
    have hentries : (usedEntries heap.head (before ++ mid ++ after)).Perm
        ((block, ⟨part, true⟩) ::
          usedEntries heap.head (before ++ ⟨free, false⟩ :: after)) := by
      simp only [usedEntries_append, usedEntries_cons_free, hspan, hmid,
        ← Nat.add_assoc, List.append_assoc, List.cons_append,
        List.nil_append]
      exact List.perm_middle
    have hpointer := payload_of_block hrep'.toLayout
      (hentries.mem_iff.mpr List.mem_cons_self)
    dsimp only at hpointer
    refine ⟨m', block, part, ?_, ⟨_, _, hrep', hentries.trans (hperm.cons _)⟩,
      hpart, fun entry hentry => hkept entry (hperm.mem_iff.mpr hentry)⟩
    unfold malloc
    rw [assert_of hsize, ok_bind, hmalloc, ok_bind]
    dsimp only
    rw [assert_of hpointer.1]
    rfl

/-- `calloc` returns NULL for no elements and for a product that overflows.
Otherwise it does what `malloc` does, and the new payload is zero. -/
theorem calloc_spec (hholds : Holds heap m entries)
    (hnonzero : nmemb * size ≠ 0 ∨ nmemb = 0 ∨ (2 ^ 32 - 1) / nmemb < size) :
    calloc heap m nmemb size = .error outOfMemory ∨
      ((nmemb = 0 ∨ (2 ^ 32 - 1) / nmemb < size) ∧
        calloc heap m nmemb size = .ok (m, 0)) ∨
      ∃ m' block part, calloc heap m nmemb size = .ok (m', payload block) ∧
        Holds heap m' ((block, ⟨part, true⟩) :: entries) ∧
        nmemb * size ≤ part ∧
        (∀ i < nmemb * size, m' (payload block + i) = 0) ∧
        ∀ entry ∈ entries, PayloadKept m m' entry := by
  by_cases hgranted : nmemb > 0 ∧ size ≤ (2 ^ 32 - 1) / nmemb
  · have hsize : nmemb * size ≠ 0 := by omega
    rcases malloc_spec hholds hsize with
      hfailed | ⟨m', block, part, hmalloc, hholds', hpart, hkept⟩
    · left
      unfold calloc
      rw [if_pos hgranted]
      dsimp only
      rw [hfailed]
      rfl
    · right
      right
      have hset : ∀ p, (p < block + 4 ∨ block + 4 + nmemb * size ≤ p) →
          MemUtil.memset m' (payload block) 0 (nmemb * size) p = m' p :=
        fun p hp => MemUtil.memset_outside hp
      refine ⟨MemUtil.memset m' (payload block) 0 (nmemb * size), block, part,
        ?_, ?_, hpart, fun i hi => MemUtil.memset_inside hi, ?_⟩
      · have hne : payload block ≠ 0 := by
          unfold payload
          omega
        unfold calloc
        rw [if_pos hgranted]
        dsimp only
        rw [hmalloc, ok_bind]
        simp only [hne, ne_eq, not_false_eq_true, if_true]
        rfl
      · refine hholds'.congr fun p hlow hhigh hoff => hset p ?_
        have := hoff _ List.mem_cons_self
        dsimp only at this
        omega
      · intro entry hentry
        refine (hkept entry hentry).trans fun p hlow hhigh => hset p ?_
        have hapart := hholds'.apart hentry
        dsimp only at hapart
        omega
  · right
    left
    refine ⟨by omega, ?_⟩
    unfold calloc
    rw [if_neg hgranted]
    rfl

private theorem __free_spec
    (hrep : Represents heap m (before ++ ⟨size, true⟩ :: after) nodes)
    (hfirst : before = [] → getPrevious heap m heap.head = 0) :
    ∃ m', __free heap m (heap.head + span before) = .ok m' ∧
      Holds heap m' (usedEntries heap.head before ++
        usedEntries (heap.head + span before + (size + 8)) after) ∧
      ∀ entry ∈ usedEntries heap.head before ++
        usedEntries (heap.head + span before + (size + 8)) after,
        PayloadKept m m' entry := by
  obtain ⟨m1, nodes1, before', left, right, after', rfl, rfl, hleft, hright,
    hlast, hhead, hmerge, hrep1, hframe1⟩ := tryMerge_spec hrep hfirst
  obtain ⟨m', hinsert, hrep', hframe2⟩ := release_spec hrep1 hlast hhead
  have haddress : heap.head + (span before' + span left) + (size + 8) +
      span right = heap.head + span before' +
        (span left + size + span right + 8) := by omega
  have hentries : usedEntries heap.head (before' ++ left) ++
        usedEntries (heap.head + span (before' ++ left) + (size + 8))
          (right ++ after') =
      usedEntries heap.head (before' ++
        ⟨span left + size + span right, false⟩ :: after') := by
    simp only [usedEntries_append, usedEntries_cons_free, span_append,
      hleft.usedEntries, hright.usedEntries, List.append_nil, List.nil_append,
      haddress]
  rw [hentries]
  refine ⟨m', ?_, ⟨_, _, hrep', List.Perm.refl _⟩, ?_⟩
  · unfold __free
    rw [hmerge, ok_bind]
    exact hinsert
  · intro entry hentry
    refine (hframe1.payloadKept ?_).trans (hframe2.payloadKept hentry)
    rw [← hentries] at hentry
    simp only [usedEntries_append, usedEntries_cons_used, List.mem_append,
      List.mem_cons] at hentry ⊢
    tauto

/-- `free` on a used block removes it and touches no other payload. -/
theorem free_spec (hholds : Holds heap m ((block, ⟨size, true⟩) :: rest))
    (hfirst : block = heap.head → getPrevious heap m heap.head = 0) :
    ∃ m', free heap m (payload block) = .ok m' ∧ Holds heap m' rest ∧
      ∀ entry ∈ rest, PayloadKept m m' entry := by
  obtain ⟨before, after, nodes, rfl, hrep, hperm⟩ := hholds.split
  have hpointer := payload_of_block hrep.toLayout
    (mem_usedEntries.mpr ⟨mem_locate_split _ before after ⟨size, true⟩, rfl⟩)
  dsimp only at hpointer
  have hused : ¬ isFree m (heap.head + span before) := by
    simp [hrep.toLayout.isFree_iff]
  obtain ⟨m', hfree, hholds', hkept⟩ := __free_spec hrep
    (by rintro rfl; exact hfirst rfl)
  refine ⟨m', ?_, hholds'.perm hperm,
    fun entry hentry => hkept entry (hperm.mem_iff.mpr hentry)⟩
  unfold free
  dsimp only
  rw [hpointer.2.2, assert_of ⟨hpointer.2.1, hused⟩]
  exact hfree

theorem isFree_markFree (m : Mem) (block : Nat) :
    isFree (markFree m block) block := by
  have hlt := m.load32_lt block
  unfold isFree markFree
  rw [and_complement_usedBit hlt, Mem.load32_store32 _ _ (by omega),
    and_usedBit]
  omega

/-- What `__realloc` does with a merged block `newBlock` that is too small. -/
def relocate (heap : HeapObject) (m : Mem) (newBlock block size : Nat) :
    Except Stop (Mem × Nat) := do
  let (m, resBlock) ← __malloc heap m size
  let m := MemUtil.memcpy m (payload resBlock) (payload block) size
  let m := markFree m newBlock
  let m ← freeListInsert heap m newBlock
  return (m, resBlock)

theorem relocate_eq
    (hrep : Represents heap m (before ++ ⟨merged, true⟩ :: after) nodes)
    (hlast : ∀ last ∈ before.getLast?, last.used = true)
    (hhead : ∀ first ∈ after.head?, first.used = true) (block size : Nat) :
    __malloc heap m size = .ok (m, 0) ∨
      ∃ m1 nodes1 before' after' res part, __malloc heap m size = .ok (m1, res) ∧
        span before' = span before ∧ size ≤ part ∧
        (∀ last ∈ before'.getLast?, last.used = true) ∧
        (∀ first ∈ after'.head?, first.used = true) ∧
        Represents heap (MemUtil.memcpy m1 (payload res) (payload block) size)
          (before' ++ ⟨merged, true⟩ :: after') nodes1 ∧
        (usedEntries heap.head (before' ++ ⟨merged, false⟩ :: after')).Perm
          ((res, ⟨part, true⟩) :: (usedEntries heap.head before ++
            usedEntries (heap.head + span before + (merged + 8)) after)) ∧
        Holds heap m1 ((heap.head + span before, ⟨merged, true⟩) ::
          (res, ⟨part, true⟩) :: (usedEntries heap.head before ++
            usedEntries (heap.head + span before + (merged + 8)) after)) ∧
        ∀ entry ∈ usedEntries heap.head (before ++ ⟨merged, true⟩ :: after),
          PayloadKept m m1 entry := by
  have hbounds := heap.bounds
  rcases __malloc_spec hrep size with ⟨hnone, -⟩ |
    ⟨m1, nodes1, front, avail, back, mid, res, part, hsplit, hmalloc, hrep1,
      hspan, hpart, hmid, hkept1⟩
  · exact Or.inl hnone
  · right
    obtain ⟨before', after', hsplit', hspan', hlast', hhead', hperm⟩ :=
      replace_elsewhere hsplit hlast hhead hspan hmid
    rw [hsplit'] at hrep1
    rw [← hspan'] at hperm ⊢
    have hentries : (usedEntries heap.head
        (before' ++ ⟨merged, true⟩ :: after')).Perm
        ((heap.head + span before', ⟨merged, true⟩) :: (res, ⟨part, true⟩) ::
          (usedEntries heap.head before ++
            usedEntries (heap.head + span before' + (merged + 8)) after)) := by
      rw [usedEntries_append, usedEntries_cons_used]
      exact List.perm_middle.trans (hperm.cons _)
    obtain ⟨hlocated, hused⟩ := mem_usedEntries.mp (hentries.mem_iff.mpr
      (List.mem_cons_of_mem _ List.mem_cons_self))
    -- The copy only writes the payload of the new block.
    have hrep2 : Represents heap (MemUtil.memcpy m1 (payload res)
        (payload block) size) _ _ :=
      hrep1.congr fun p hp => MemUtil.memcpy_outside (by
        unfold payload
        by_contra hinside
        rcases hp with hp | hp
        · have hresBounds := hrep1.entry_bounds hlocated
          dsimp only at hresBounds
          omega
        · exact not_reserved_of_used hlocated hused (by dsimp only; omega)
            (by dsimp only; omega) hp)
    refine ⟨m1, nodes1, before', after', res, part, hmalloc, rfl, hpart, hlast',
      hhead', hrep2, ?_, ⟨_, _, hrep1, hentries⟩, hkept1⟩
    rw [usedEntries_append, usedEntries_cons_free]
    exact hperm

/-- Relocation finds no block, or copies the old payload as far as it goes into
a new block and then releases the merged one. -/
theorem relocate_spec
    (hrep : Represents heap m (before ++ ⟨merged, true⟩ :: after) nodes)
    (hlast : ∀ last ∈ before.getLast?, last.used = true)
    (hhead : ∀ first ∈ after.head?, first.used = true)
    (hlow : heap.head + span before ≤ block)
    (hhigh : block + old ≤ heap.head + span before + merged) :
    (∃ m', relocate heap m (heap.head + span before) block size =
      .ok (m', 0)) ∨
      ∃ m' res part, relocate heap m (heap.head + span before) block size =
          .ok (m', res) ∧
        Holds heap m' ((res, ⟨part, true⟩) :: (usedEntries heap.head before ++
          usedEntries (heap.head + span before + (merged + 8)) after)) ∧
        size ≤ part ∧
        (∀ entry ∈ usedEntries heap.head before ++
          usedEntries (heap.head + span before + (merged + 8)) after,
          PayloadKept m m' entry) ∧
        ∀ i < size, i < old → m' (payload res + i) = m (payload block + i) := by
  have hbounds := heap.bounds
  unfold relocate
  rcases relocate_eq hrep hlast hhead block size with hnone |
    ⟨m1, nodes1, before', after', res, part, hmalloc, hspan', hpart, hlast',
      hhead', hrep2, hreleased, hheld, hkept1⟩
  · left
    simp only [hnone, ok_bind, freeListInsert]
    rw [assert_of (isFree_markFree _ _)]
    exact ⟨_, rfl⟩
  · right
    have hapart := hheld.apart List.mem_cons_self
    have hresApart := fun (entry : Nat × Block) (hentry : entry ∈ _) =>
      (hheld.perm (List.Perm.swap _ _ _)).apart (List.mem_cons_of_mem _ hentry)
    dsimp only at hapart hresApart
    have hcopied : ∀ p, (p < res + 4 ∨ res + 4 + size ≤ p) →
        MemUtil.memcpy m1 (payload res) (payload block) size p = m1 p :=
      fun p hp => MemUtil.memcpy_outside hp
    obtain ⟨m', hinsert, hrep', hframe⟩ := release_spec hrep2 hlast' hhead'
    refine ⟨m', res, part, ?_, ⟨_, _, hrep', hreleased⟩, hpart, ?_, ?_⟩
    · simp only [hspan', hmalloc, ok_bind] at hinsert ⊢
      rw [hinsert]
      rfl
    · intro entry hentry
      have hold : entry ∈ usedEntries heap.head
          (before ++ ⟨merged, true⟩ :: after) := by
        rw [usedEntries_append, usedEntries_cons_used]
        simp only [List.mem_append, List.mem_cons] at hentry ⊢
        tauto
      have := hresApart entry hentry
      refine ((hkept1 entry hold).trans fun p hlow hhigh =>
        hcopied p (by omega)).trans (hframe.payloadKept ?_)
      exact hreleased.mem_iff.mpr (List.mem_cons_of_mem _ hentry)
    · intro i hi hiold
      have hmergedOld : (heap.head + span before, (⟨merged, true⟩ : Block)) ∈
          usedEntries heap.head (before ++ ⟨merged, true⟩ :: after) := by
        rw [usedEntries_append, usedEntries_cons_used]
        simp
      have hnew := hframe.payloadKept
        (hreleased.mem_iff.mpr List.mem_cons_self)
      unfold payload
      rw [hnew (res + 4 + i) (by dsimp only; omega) (by dsimp only; omega)]
      refine (MemUtil.copyUp_inside hi ?_).trans ?_
      · unfold payload
        omega
      · exact hkept1 _ hmergedOld _ (by dsimp only [payload]; omega)
          (by dsimp only [payload]; omega)

/-- What `__realloc` does with a merged block `newBlock` that is large enough. -/
def settle (heap : HeapObject) (m : Mem) (newBlock block size : Nat) :
    Except Stop (Mem × Nat) := do
  let (m, newBlock) ← maybeSplitBlock heap m newBlock size
  if newBlock ≠ block then
    return (MemUtil.memmove m (payload newBlock) (payload block) size, newBlock)
  else return (m, newBlock)

theorem __realloc_eq (heap : HeapObject) (m : Mem) (block size : Nat) :
    __realloc heap m block size = (do
      let (m, newBlock) ← tryMerge heap m block
      if getSize m newBlock < size then relocate heap m newBlock block size
      else settle heap m newBlock block size) := rfl

theorem settle_spec
    (hrep : Represents heap m (before ++ ⟨merged, true⟩ :: after) nodes)
    (hlast : ∀ last ∈ before.getLast?, last.used = true)
    (hfits : size ≤ merged) (block : Nat) :
    ∃ m' res part, settle heap m (heap.head + span before) block size =
        .ok (m', res) ∧
      Holds heap m' ((res, ⟨part, true⟩) :: (usedEntries heap.head before ++
        usedEntries (heap.head + span before + (merged + 8)) after)) ∧
      size ≤ part ∧
      ∀ entry ∈ usedEntries heap.head before ++
        usedEntries (heap.head + span before + (merged + 8)) after,
        PayloadKept m m' entry := by
  obtain ⟨m', nodes', mid, res, part, hsplit, hrep', hspan, hpart, hmid,
    hframe⟩ := maybeSplitBlock_spec hrep hlast hfits
  have hentries : (usedEntries heap.head (before ++ mid ++ after)).Perm
      ((res, ⟨part, true⟩) :: (usedEntries heap.head before ++
        usedEntries (heap.head + span before + (merged + 8)) after)) := by
    simp only [usedEntries_append, hspan, hmid, ← Nat.add_assoc,
      List.append_assoc, List.cons_append, List.nil_append]
    exact List.perm_middle
  have hholds : Holds heap m' _ := ⟨_, _, hrep', hentries⟩
  have hkept : ∀ entry ∈ usedEntries heap.head before ++
      usedEntries (heap.head + span before + (merged + 8)) after,
      PayloadKept m m' entry := fun entry hentry =>
    hframe.payloadKept (hentries.mem_iff.mpr (List.mem_cons_of_mem _ hentry))
  unfold settle
  rw [hsplit, ok_bind]
  by_cases hmoved : res = block
  · refine ⟨m', res, part, ?_, hholds, hpart, hkept⟩
    simp [hmoved]
    rfl
  · have hmove : ∀ p, (p < res + 4 ∨ res + 4 + size ≤ p) →
        MemUtil.memmove m' (payload res) (payload block) size p = m' p :=
      fun p hp => MemUtil.memmove_outside hp
    refine ⟨MemUtil.memmove m' (payload res) (payload block) size, res, part,
      ?_, ?_, hpart, ?_⟩
    · simp [hmoved]
      rfl
    · refine hholds.congr fun p hlow hhigh hoff => hmove p ?_
      have := hoff _ List.mem_cons_self
      dsimp only at this
      omega
    · intro entry hentry
      refine (hkept entry hentry).trans fun p hlow hhigh => hmove p ?_
      have hapart := hholds.apart hentry
      dsimp only at hapart
      omega

theorem realloc_eq
    (hrep : Represents heap m (before ++ ⟨old, true⟩ :: after) nodes)
    (hsize : size ≠ 0) :
    realloc heap m (payload (heap.head + span before)) size = (do
      let (m', res) ← __realloc heap m (heap.head + span before) size
      assert (isHeapPointer heap (payload res)) "is_heap_pointer(block->mem)"
      return (m', payload res)) := by
  have hpointer := payload_of_block hrep.toLayout
    (mem_usedEntries.mpr ⟨mem_locate_split _ before after ⟨old, true⟩, rfl⟩)
  dsimp only at hpointer
  have hused : ¬ isFree m (heap.head + span before) := by
    simp [hrep.toLayout.isFree_iff]
  have hne : payload (heap.head + span before) ≠ 0 := by
    unfold payload
    omega
  unfold realloc
  dsimp only
  rw [assert_of hsize, assert_of hne, hpointer.2.2,
    assert_of ⟨hpointer.2.1, hused⟩]
  rfl

/-- `realloc` on a used block replaces it by one of at least the wanted size,
unless the heap is exhausted, and touches no other payload. -/
theorem realloc_spec (hholds : Holds heap m ((block, ⟨old, true⟩) :: rest))
    (hfirst : block = heap.head → getPrevious heap m heap.head = 0)
    (hsize : size ≠ 0) :
    realloc heap m (payload block) size = .error outOfMemory ∨
      ∃ m' res part, realloc heap m (payload block) size =
          .ok (m', payload res) ∧
        Holds heap m' ((res, ⟨part, true⟩) :: rest) ∧ size ≤ part ∧
        ∀ entry ∈ rest, PayloadKept m m' entry := by
  have hbounds := heap.bounds
  obtain ⟨before, after, nodes, rfl, hrep, hperm⟩ := hholds.split
  have hcall := realloc_eq hrep hsize
  obtain ⟨m1, nodes1, before', left, right, after', rfl, rfl, hleft, hright,
    hlast, hhead, hmerge, hrep1, hframe1⟩ :=
    tryMerge_spec hrep (by rintro rfl; exact hfirst rfl)
  have haddress : heap.head + (span before' + span left) + (old + 8) +
      span right = heap.head + span before' +
        (span left + old + span right + 8) := by omega
  simp only [usedEntries_append, span_append, hleft.usedEntries,
    hright.usedEntries, List.append_nil, List.nil_append, haddress] at hperm
  have hkept1 : ∀ entry ∈ usedEntries heap.head before' ++
      usedEntries (heap.head + span before' +
        (span left + old + span right + 8)) after',
      PayloadKept m m1 entry := by
    intro entry hentry
    refine hframe1.payloadKept ?_
    simp only [usedEntries_append, usedEntries_cons_used, span_append,
      hleft.usedEntries, hright.usedEntries, haddress, List.append_nil,
      List.nil_append, List.mem_append, List.mem_cons] at hentry ⊢
    exact hentry.imp_right Or.inr
  have hcases : (∃ m', __realloc heap m (heap.head + span (before' ++ left))
        size = .ok (m', 0)) ∨
      ∃ m' res part, __realloc heap m (heap.head + span (before' ++ left))
          size = .ok (m', res) ∧
        Holds heap m' ((res, ⟨part, true⟩) :: rest) ∧ size ≤ part ∧
        ∀ entry ∈ rest, PayloadKept m m' entry := by
    rw [__realloc_eq, hmerge, ok_bind]
    dsimp only
    rw [hrep1.toLayout.getSize_eq]
    by_cases hsmall : span left + old + span right < size
    · rw [if_pos hsmall]
      have hlow : heap.head + span before' ≤
          heap.head + span (before' ++ left) := by simp
      have hhigh : heap.head + span (before' ++ left) + old ≤
          heap.head + span before' + (span left + old + span right) := by
        rw [span_append]
        omega
      rcases relocate_spec hrep1 hlast hhead hlow hhigh with
        hfailed | ⟨m', res, part, hdone, hholds', hpart, hkept, -⟩
      · exact Or.inl hfailed
      · exact Or.inr ⟨m', res, part, hdone, hholds'.perm (hperm.cons _), hpart,
          fun entry hentry =>
            (hkept1 entry (hperm.mem_iff.mpr hentry)).trans
              (hkept entry (hperm.mem_iff.mpr hentry))⟩
    · rw [if_neg hsmall]
      obtain ⟨m', res, part, hdone, hholds', hpart, hkept⟩ :=
        settle_spec hrep1 hlast (Nat.le_of_not_lt hsmall)
          (heap.head + span (before' ++ left))
      exact Or.inr ⟨m', res, part, hdone, hholds'.perm (hperm.cons _), hpart,
        fun entry hentry =>
          (hkept1 entry (hperm.mem_iff.mpr hentry)).trans
            (hkept entry (hperm.mem_iff.mpr hentry))⟩
  rw [hcall]
  rcases hcases with ⟨m', hnull⟩ | ⟨m', res, part, hdone, hholds', hrest⟩
  · left
    have hinvalid : ¬ isHeapPointer heap (payload 0) := by
      unfold isHeapPointer HeapObject.minHeapPtr payload
      omega
    rw [hnull, ok_bind]
    simp [assert, hinvalid, outOfMemory]
  · right
    refine ⟨m', res, part, ?_, hholds', hrest⟩
    obtain ⟨blocks, nodes', hrep', hentries⟩ := hholds'
    have hvalid := payload_of_block hrep'.toLayout
      (hentries.mem_iff.mpr List.mem_cons_self)
    dsimp only at hvalid
    rw [hdone, ok_bind]
    dsimp only
    rw [assert_of hvalid.1]
    rfl

end X86Os32.Heap
