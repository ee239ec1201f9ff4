import X86Os32.Utils.HeapStats

namespace X86Os32.Heap

set_option linter.style.nameCheck false

open Library Library.Tiling

/-! What the calls do when no free block is large enough.  `utils/heap.h`
announces a null pointer; the calls stop at their assertion instead. -/

/-- Some free block has at least `size` payload bytes. -/
def HasRoom (heap : HeapObject) (m : Mem) (size : Nat) : Prop :=
  ∃ reached, reachedBlocks heap m = .ok reached ∧
    ∃ block ∈ reached, isFree m block ∧ size ≤ getSize m block

/-- Merged with its free neighbours, the block of `ptr` is still too small. -/
def NeedsNewBlock (heap : HeapObject) (m : Mem) (ptr size : Nat) : Prop :=
  ∃ m' newBlock, tryMerge heap m (sub32 ptr 4) = .ok (m', newBlock) ∧
    getSize m' newBlock < size

/-- The memories agree outside the heap, and on everything a client or a later
call can see of the heap. -/
structure Unharmed (heap : HeapObject) (live : List Allocation) (m m' : Mem) :
    Prop where
  outside : ∀ p, p < heap.address ∨ heap.head + heapSize ≤ p → m' p = m p
  blocks : reachedBlocks heap m' = reachedBlocks heap m
  headers : ∀ reached, reachedBlocks heap m = .ok reached →
    ∀ block ∈ reached, m'.load32 block = m.load32 block
  freeList : ∀ nodes, Ring.IsRing m heap.freeListSentinel nodes →
    Ring.IsRing m' heap.freeListSentinel nodes
  payloads : ∀ allocation ∈ live, ContentKept m m' allocation

/-- A call returns the null pointer and has done nothing. -/
def ReturnsNull (heap : HeapObject) (s : State)
    (call : Except Stop (Mem × Nat)) : Prop :=
  ∃ m', call = .ok (m', 0) ∧ Unharmed heap s.live s.mem m'

/-- What the documentation says about a request for `size` bytes. -/
structure ReportsExhaustion (heap : HeapObject) (s : State) (size : Nat) :
    Prop where
  malloc_iff : (∃ m' ptr, malloc heap s.mem size = .ok (m', ptr) ∧ ptr ≠ 0) ↔
    HasRoom heap s.mem size
  malloc_null : ¬ HasRoom heap s.mem size →
    ReturnsNull heap s (malloc heap s.mem size)
  calloc_null : ¬ HasRoom heap s.mem size → ∀ nmemb elementSize,
    nmemb * elementSize = size →
      ReturnsNull heap s (calloc heap s.mem nmemb elementSize)
  realloc_null : ¬ HasRoom heap s.mem size → ∀ allocation ∈ s.live,
    predecessorNull heap s.mem allocation.ptr →
    NeedsNewBlock heap s.mem allocation.ptr size →
      ReturnsNull heap s (realloc heap s.mem allocation.ptr size)

variable {heap : HeapObject}

def Exhausted (blocks : List Block) (size : Nat) : Prop :=
  ∀ block ∈ blocks, block.used = false → block.size < size

theorem Represents.hasRoom_iff (hrep : Represents heap m blocks nodes) :
    HasRoom heap m size ↔ ¬ Exhausted blocks size := by
  have hreached := hrep.wellFormed.reached_eq
  constructor
  · rintro ⟨reached, hok, block, hblock, hfree, hfits⟩ hexhausted
    rw [hreached] at hok
    obtain rfl := Except.ok.inj hok
    obtain ⟨entry, hentry, rfl⟩ := List.mem_map.mp hblock
    obtain ⟨hsize, hunused⟩ := hrep.entry_header hentry
    have := hexhausted entry.2 (locate_size_mem hentry) (hunused.mp hfree)
    omega
  · intro hroom
    obtain ⟨block, hblock, hunused, hfits⟩ :
        ∃ block ∈ blocks, block.used = false ∧ size ≤ block.size := by
      by_contra hnone
      refine hroom fun block hblock hunused => ?_
      by_contra hfits
      exact hnone ⟨block, hblock, hunused, Nat.le_of_not_lt hfits⟩
    obtain ⟨before, after, rfl⟩ := List.append_of_mem hblock
    refine ⟨_, hreached, heap.head + span before,
      List.mem_map_of_mem (mem_locate_split heap.head before after block),
      hrep.isFree_iff.mpr hunused, ?_⟩
    rw [hrep.getSize_eq]
    exact hfits

theorem __malloc_of_exhausted (hrep : Represents heap m blocks nodes)
    (hexhausted : Exhausted blocks size) :
    __malloc heap m size = .ok (m, 0) := by
  rcases findFreeBlock_spec hrep size with
    ⟨hnone, -⟩ | ⟨before, free, after, rfl, hfits, -⟩
  · simp [__malloc, hnone]
    rfl
  · have := hexhausted ⟨free, false⟩ (by simp) rfl
    dsimp only at this
    omega

theorem not_isHeapPointer_null : ¬ isHeapPointer heap (payload 0) := by
  have hbounds := heap.bounds
  unfold isHeapPointer HeapObject.minHeapPtr payload
  omega

theorem malloc_of_exhausted (hrep : Represents heap m blocks nodes)
    (hexhausted : Exhausted blocks size) (hsize : size ≠ 0) :
    malloc heap m size = .error outOfMemory := by
  unfold malloc
  rw [assert_of hsize, ok_bind, __malloc_of_exhausted hrep hexhausted, ok_bind]
  simp [assert, not_isHeapPointer_null, outOfMemory]

theorem malloc_of_room (hrep : Represents heap m blocks nodes)
    (hroom : ¬ Exhausted blocks size) (hsize : size ≠ 0) :
    ∃ m' ptr, malloc heap m size = .ok (m', ptr) ∧ ptr ≠ 0 := by
  rcases __malloc_spec hrep size with ⟨-, hexhausted⟩ |
    ⟨m', nodes', before, free, after, mid, block, part, -, hmalloc, hrep', -, -,
      hmid, -⟩
  · exact absurd hexhausted hroom
  · have hentry : (block, (⟨part, true⟩ : Block)) ∈
        usedEntries heap.head (before ++ mid ++ after) := by
      simp [usedEntries_append, hmid]
    have hpointer := payload_of_block hrep'.toLayout hentry
    refine ⟨m', payload block, ?_, Nat.succ_ne_zero _⟩
    unfold malloc
    rw [assert_of hsize, ok_bind, hmalloc, ok_bind]
    dsimp only
    rw [assert_of hpointer.1]
    rfl

theorem calloc_of_exhausted (hrep : Represents heap m blocks nodes)
    (hexhausted : Exhausted blocks (nmemb * size))
    (hsize : nmemb * size ≠ 0) (hfits : nmemb * size < 2 ^ 32) :
    calloc heap m nmemb size = .error outOfMemory := by
  have hnmemb : 0 < nmemb := Nat.pos_of_mul_pos_right (Nat.pos_of_ne_zero hsize)
  have hle : size ≤ (2 ^ 32 - 1) / nmemb := by
    rw [Nat.le_div_iff_mul_le hnmemb, Nat.mul_comm]
    omega
  unfold calloc
  rw [if_pos ⟨hnmemb, hle⟩]
  dsimp only
  rw [malloc_of_exhausted hrep hexhausted hsize]
  rfl

/-- `realloc` merges the block, copies the payload to `NULL->mem` and only then
meets its assertion. -/
theorem realloc_of_exhausted (hrep : Represents heap m
      (before ++ ⟨old, true⟩ :: after) nodes)
    (hfirst : before = [] → getPrevious heap m heap.head = 0)
    (hexhausted : Exhausted (before ++ ⟨old, true⟩ :: after) size)
    (hsize : size ≠ 0)
    (hneeds : NeedsNewBlock heap m (payload (heap.head + span before)) size) :
    realloc heap m (payload (heap.head + span before)) size =
      .error outOfMemory := by
  have hcall := realloc_eq hrep hsize
  obtain ⟨-, -, hblock⟩ := payload_of_block hrep.toLayout
    (mem_usedEntries.mpr ⟨mem_locate_split _ before after ⟨old, true⟩, rfl⟩)
  obtain ⟨m1, nodes1, before', left, right, after', rfl, rfl, hleft, hright,
    -, -, hmerge, hrep1, -⟩ := tryMerge_spec hrep hfirst
  obtain ⟨m2, newBlock, hmerge', hsmall⟩ := hneeds
  dsimp only at hblock
  rw [hblock, hmerge] at hmerge'
  obtain ⟨rfl, rfl⟩ : m1 = m2 ∧ heap.head + span before' = newBlock := by
    simpa using hmerge'
  have hexhausted1 : Exhausted (before' ++
      ⟨span left + old + span right, true⟩ :: after') size := by
    intro block hmem hunused
    refine hexhausted block ?_ hunused
    simp only [List.mem_append, List.mem_cons] at hmem ⊢
    rcases hmem with hmem | rfl | hmem
    · exact Or.inl (Or.inl hmem)
    · simp at hunused
    · exact Or.inr (Or.inr (Or.inr hmem))
  rw [hcall, __realloc_eq, hmerge, ok_bind]
  dsimp only
  rw [if_pos hsmall]
  unfold relocate
  simp only [__malloc_of_exhausted hrep1 hexhausted1, ok_bind, freeListInsert,
    assert_of (isFree_markFree _ _)]
  simp [assert, not_isHeapPointer_null, outOfMemory]

/-- Requests are answered as documented exactly when there is room for them.
Otherwise `malloc` and `calloc` stop the CPU, and so does a `realloc` that needs
a new block. -/
theorem exhaustion_reported_iff (hreach : Reachable heap s) (hpos : 0 < size)
    (hword : size < 2 ^ 32) :
    (ReportsExhaustion heap s size ↔ HasRoom heap s.mem size) ∧
    (¬ HasRoom heap s.mem size →
      malloc heap s.mem size = .error outOfMemory ∧
      (∀ nmemb elementSize, nmemb * elementSize = size →
        calloc heap s.mem nmemb elementSize = .error outOfMemory) ∧
      ∀ allocation ∈ s.live, predecessorNull heap s.mem allocation.ptr →
        NeedsNewBlock heap s.mem allocation.ptr size →
          realloc heap s.mem allocation.ptr size = .error outOfMemory) := by
  have hvalid := Valid.of_reachable hreach
  obtain ⟨pairs, -, ⟨blocks, nodes, hrep, -⟩, -⟩ := id hvalid
  have hstops : ¬ HasRoom heap s.mem size →
      malloc heap s.mem size = .error outOfMemory := by
    intro hnone
    rw [hrep.hasRoom_iff, not_not] at hnone
    exact malloc_of_exhausted hrep hnone hpos.ne'
  refine ⟨⟨fun hreports => ?_, fun hroom => ?_⟩, fun hnone => ⟨hstops hnone,
    ?_, ?_⟩⟩
  · by_contra hnone
    obtain ⟨m', hcall, -⟩ := hreports.malloc_null hnone
    rw [hstops hnone] at hcall
    cases hcall
  · exact
      { malloc_iff := iff_of_true (malloc_of_room hrep
          (hrep.hasRoom_iff.mp hroom) hpos.ne') hroom
        malloc_null := fun hnone => absurd hroom hnone
        calloc_null := fun hnone => absurd hroom hnone
        realloc_null := fun hnone => absurd hroom hnone }
  · rintro nmemb elementSize rfl
    rw [hrep.hasRoom_iff, not_not] at hnone
    exact calloc_of_exhausted hrep hnone hpos.ne' hword
  · intro allocation hmem hnull hneeds
    obtain ⟨block, old, rest, -, hholds, ⟨hptr, -⟩, -⟩ := hvalid.take hmem
    dsimp only at hptr
    obtain ⟨before, after, nodes, rfl, hrep, -⟩ := hholds.split
    rw [hrep.hasRoom_iff, not_not] at hnone
    rw [hptr] at hneeds ⊢
    exact realloc_of_exhausted hrep (by rintro rfl; exact hnull hptr) hnone
      hpos.ne' hneeds

/-- A request for a small block on the fresh heap has room, one for twice the
heap does not. -/
theorem exhaustion_reported_iff_fresh :
    ReportsExhaustion sampleHeap (initialState sampleHeap) 24 ∧
    ¬ ReportsExhaustion sampleHeap (initialState sampleHeap) 0x200000 := by
  have hstart : Reachable sampleHeap (initialState sampleHeap) :=
    Runs.Reachable.start (initialState_initial sampleHeap)
  have hreached : reachedBlocks sampleHeap (initialState sampleHeap).mem =
      .ok [sampleHeap.head] := by decide +kernel
  have hsize : getSize (initialState sampleHeap).mem sampleHeap.head =
      1048568 := by decide +kernel
  constructor
  · refine (exhaustion_reported_iff hstart (by decide) (by decide)).1.mpr ?_
    exact ⟨_, hreached, _, List.mem_singleton_self _, by decide +kernel,
      by omega⟩
  · rw [(exhaustion_reported_iff hstart (by decide) (by decide)).1]
    rintro ⟨reached, hok, block, hblock, -, hfits⟩
    rw [hreached] at hok
    obtain rfl := Except.ok.inj hok
    obtain rfl : block = sampleHeap.head := List.mem_singleton.mp hblock
    omega

/-- `malloc` of two megabytes on the fresh heap stops. -/
theorem malloc_stops_when_exhausted :
    ¬ ∀ s size, Reachable sampleHeap s → 0 < size →
      ReportsExhaustion sampleHeap s size := by
  intro hall
  have hreports := hall (initialState sampleHeap) 0x200000
    (Runs.Reachable.start (initialState_initial sampleHeap)) (by decide)
  have hstops : returned (malloc sampleHeap (initialState sampleHeap).mem
      0x200000) = none := by decide +kernel
  by_cases hroom : HasRoom sampleHeap (initialState sampleHeap).mem 0x200000
  · obtain ⟨m', ptr, hcall, -⟩ := hreports.malloc_iff.mpr hroom
    simp [hcall, returned] at hstops
  · obtain ⟨m', hcall, -⟩ := hreports.malloc_null hroom
    simp [hcall, returned] at hstops

end X86Os32.Heap
