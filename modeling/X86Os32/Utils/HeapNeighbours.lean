import X86Os32.Utils.HeapRuns

namespace X86Os32.Heap

open Library Library.Tiling

/-! `get_next` and `get_previous` against the blocks as they lie in the heap. -/

/-- The blocks follow one another from `heap.head` to the end of the heap. -/
inductive Placed (heap : HeapObject) (m : Mem) : Nat → Prop
  | first : Placed heap m heap.head
  | following {block : Nat} (hplaced : Placed heap m block)
      (hroom : block + 8 + getSize m block < heap.head + heapSize) :
      Placed heap m (block + 8 + getSize m block)

/-- The neighbours found are the physical ones, and NULL at either end. -/
structure NeighboursExact (heap : HeapObject) (m : Mem) : Prop where
  next_eq : ∀ block, Placed heap m block →
    getNext heap m block =
      if block + 8 + getSize m block < heap.head + heapSize then
        block + 8 + getSize m block
      else 0
  first_eq : getPrevious heap m heap.head = 0
  previous_eq : ∀ block, Placed heap m block →
    block + 8 + getSize m block < heap.head + heapSize →
      getPrevious heap m (block + 8 + getSize m block) = block

/-- The first node of the free list, or the sentinel when there is none. -/
def firstFree (heap : HeapObject) (m : Mem) : Nat :=
  Ring.next m heap.freeListSentinel

/-- Where `get_previous` looks for the header of a block in front of the first one:
it takes `free_list_sentinel.next` for the footer of that block. -/
def sentinelHeader (heap : HeapObject) (m : Mem) : Nat :=
  2 ^ 32 + heap.freeListSentinel - firstFree heap m

variable {heap : HeapObject} {m : Mem} {blocks : List Block}

namespace Layout

theorem of_placed (hlayout : Layout heap m blocks) (hplaced : Placed heap m a) :
    ∃ before block after, blocks = before ++ block :: after ∧
      a = heap.head + span before := by
  induction hplaced with
  | first =>
      cases blocks with
      | nil =>
          have hspan := hlayout.span_eq
          simp [heapSize] at hspan
      | cons block after => exact ⟨[], block, after, rfl, rfl⟩
  | following _ hroom ih =>
      obtain ⟨before, block, after, rfl, rfl⟩ := ih
      have hmid := hlayout.mid_bounds
      rw [hlayout.getSize_eq] at hroom ⊢
      cases after with
      | nil =>
          simp only [span_nil] at hmid
          omega
      | cons next after =>
          refine ⟨before ++ [block], next, after, by simp, ?_⟩
          simp only [span_append, span_cons, span_nil]
          unfold Block.length
          omega

theorem room_iff (hlayout : Layout heap m (before ++ block :: after)) :
    heap.head + span before + 8 + block.size < heap.head + heapSize ↔
      after ≠ [] := by
  have hmid := hlayout.mid_bounds
  cases after with
  | nil =>
      simp only [span_nil] at hmid
      simp only [ne_eq, not_true_eq_false, iff_false]
      omega
  | cons next after =>
      simp only [span_cons] at hmid
      unfold Block.length at hmid
      simp only [ne_eq, reduceCtorEq, not_false_eq_true, iff_true]
      omega

theorem span_behind (before : List Block) (block : Block) :
    span (before ++ [block]) = span before + 8 + block.size := by
  simp only [span_append, span_cons, span_nil]
  unfold Block.length
  omega

theorem getNext_placed (hlayout : Layout heap m blocks)
    (hplaced : Placed heap m a) :
    getNext heap m a =
      if a + 8 + getSize m a < heap.head + heapSize then a + 8 + getSize m a
      else 0 := by
  obtain ⟨before, block, after, rfl, rfl⟩ := hlayout.of_placed hplaced
  rw [hlayout.getSize_eq]
  cases after with
  | nil =>
      rw [if_neg fun hroom => hlayout.room_iff.mp hroom rfl]
      exact hlayout.getNext_last
  | cons next after =>
      rw [if_pos (hlayout.room_iff.mpr (List.cons_ne_nil _ _)), hlayout.getNext_eq,
        span_behind]
      omega

theorem getPrevious_placed (hlayout : Layout heap m blocks)
    (hplaced : Placed heap m a)
    (hroom : a + 8 + getSize m a < heap.head + heapSize) :
    getPrevious heap m (a + 8 + getSize m a) = a := by
  obtain ⟨before, block, after, rfl, rfl⟩ := hlayout.of_placed hplaced
  rw [hlayout.getSize_eq] at hroom ⊢
  cases after with
  | nil => exact absurd rfl (hlayout.room_iff.mp hroom)
  | cons next after =>
      have hprevious := hlayout.getPrevious_eq
      rw [span_behind] at hprevious
      rw [← hprevious]
      congr 1
      omega

end Layout

theorem Represents.firstFree_bounds (hrep : Represents heap m blocks nodes)
    (hfree : firstFree heap m ≠ heap.freeListSentinel) :
    heap.head + 4 ≤ firstFree heap m ∧
      firstFree heap m + 12 ≤ heap.head + heapSize := by
  have hmem := hrep.ring.next_sentinel_mem
  rcases List.mem_cons.mp hmem with hsentinel | hnode
  · exact absurd hsentinel hfree
  · have hrange := freeNodes_range hrep.size_ge (hrep.nodes_perm.mem_iff.mp hnode)
    rw [hrep.span_eq] at hrange
    exact hrange

theorem footer_of_first (heap : HeapObject) (m : Mem) :
    m.load32 (sub32 heap.head 4) = firstFree heap m := by
  have hbounds := heap.bounds
  rw [sub32_of_le (by omega) (by omega)]
  unfold firstFree Ring.next
  congr 1

theorem getPrevious_head_of_empty
    (hempty : firstFree heap m = heap.freeListSentinel) :
    getPrevious heap m heap.head = 0 := by
  have hbounds := heap.bounds
  have hprev : sub32 (sub32 (sub32 heap.head 4) heap.freeListSentinel) 4 = 0 := by
    unfold sub32
    omega
  simp only [getPrevious, footer_of_first, hempty, hprev]
  split
  · rfl
  · unfold HeapObject.minMemblockPointer
    exact if_pos (by omega)

theorem Represents.getPrevious_head (hrep : Represents heap m blocks nodes)
    (hfree : firstFree heap m ≠ heap.freeListSentinel) :
    getPrevious heap m heap.head =
      if getSize m (sentinelHeader heap m) = firstFree heap m then
        sentinelHeader heap m
      else 0 := by
  have hbounds := heap.bounds
  have hfirst := hrep.firstFree_bounds hfree
  have hprev : sub32 (sub32 (sub32 heap.head 4) (firstFree heap m)) 4 =
      sentinelHeader heap m := by
    unfold sentinelHeader sub32
    omega
  simp only [getPrevious, footer_of_first, hprev, ne_eq, ite_not]
  split
  · unfold HeapObject.minMemblockPointer sentinelHeader
    exact if_neg (by omega)
  · rfl

theorem Represents.sentinelHeader_ne (hrep : Represents heap m blocks nodes)
    (hfree : firstFree heap m ≠ heap.freeListSentinel) :
    sentinelHeader heap m ≠ 0 := by
  have hbounds := heap.bounds
  have hfirst := hrep.firstFree_bounds hfree
  unfold sentinelHeader
  omega

/-- The neighbours are exact as long as the memory above the heap does not repeat
the address of the first free node where its "footer" points. -/
theorem neighbours_exact_iff (hreach : Reachable heap s) :
    NeighboursExact heap s.mem ↔
      firstFree heap s.mem = heap.freeListSentinel ∨
        getSize s.mem (sentinelHeader heap s.mem) ≠ firstFree heap s.mem := by
  obtain ⟨_, -, ⟨blocks, nodes, hrep, -⟩, -⟩ := Valid.of_reachable hreach
  constructor
  · intro hexact
    by_contra hcondition
    simp only [not_or, ne_eq, not_not] at hcondition
    obtain ⟨hfree, hrepeated⟩ := hcondition
    have hfirst := hexact.first_eq
    rw [hrep.getPrevious_head hfree, if_pos hrepeated] at hfirst
    exact hrep.sentinelHeader_ne hfree hfirst
  · intro hcondition
    refine ⟨fun block hplaced => hrep.getNext_placed hplaced, ?_,
      fun block hplaced hroom => hrep.getPrevious_placed hplaced hroom⟩
    by_cases hfree : firstFree heap s.mem = heap.freeListSentinel
    · exact getPrevious_head_of_empty hfree
    · rw [hrep.getPrevious_head hfree]
      exact if_neg (hcondition.resolve_left hfree)

theorem neighbours_exact_initially :
    NeighboursExact sampleHeap (initialState sampleHeap).mem :=
  (neighbours_exact_iff (.start (initialState_initial sampleHeap))).mpr
    (by decide +kernel)

def repeated : Event := .elsewhere (Mem.store32 (fun _ => 0) 0xFFFFFFF4 0x20000C)

/-- In the new heap that word decides. -/
theorem neighbours_exact_lost :
    ¬∀ s : State, Reachable sampleHeap s → NeighboursExact sampleHeap s.mem := by
  intro hclaim
  have hstep : step sampleHeap (initialState sampleHeap) repeated = some _ := rfl
  have hreach : Reachable sampleHeap _ :=
    .next (.start (initialState_initial sampleHeap)) hstep
  have hfirst := (hclaim _ hreach).first_eq
  revert hfirst
  decide +kernel

end X86Os32.Heap
