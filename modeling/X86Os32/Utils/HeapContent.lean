import X86Os32.Library.Results
import X86Os32.Utils.HeapRuns

namespace X86Os32.Heap

open Library Library.Results Library.Tiling

/-! What `realloc` does to the content of the block it is called on.  A merged
block is split before the content is moved, and the tags and the list node of
the rest may land in the content. -/

/-- The bytes that merging gains on the low side of a block. -/
def freeBefore (heap : HeapObject) (m : Mem) (block : Nat) : Nat :=
  let prev := getPrevious heap m block
  if prev ≠ 0 ∧ isFree m prev then getSize m prev + memblockOverhead else 0

def freeAfter (heap : HeapObject) (m : Mem) (block : Nat) : Nat :=
  let next := getNext heap m block
  if next ≠ 0 ∧ isFree m next then getSize m next + memblockOverhead else 0

/-- The merged block is too small for `size`, or not split, or the tags between
the rest and the new block miss the first `count` bytes of the content. -/
def ContentSafe (heap : HeapObject) (m : Mem) (block size count : Nat) : Prop :=
  let gained := freeBefore heap m block
  let reach := getSize m block + freeAfter heap m block
  let cut := blockSizeFor size
  gained + reach < size ∨
    gained + reach < cut + memblockOverhead + minBlockSize ∨
    (gained ≠ 0 ∧ (reach ≤ cut ∨ cut + memblockOverhead + count ≤ reach))

instance : Decidable (ContentSafe heap m block size count) :=
  inferInstanceAs (Decidable (_ ∨ _))

def fill (m : Mem) (allocation : Allocation) (data : Nat → UInt8) : Mem :=
  fun p =>
    if allocation.ptr ≤ p ∧ p < allocation.ptr + allocation.size then
      data (p - allocation.ptr)
    else m p

/-- Whatever an allocation holds, `realloc` hands its first bytes over. -/
def KeepsContent (heap : HeapObject) (m : Mem) (allocation : Allocation)
    (size : Nat) : Prop :=
  ∀ data m' ptr,
    realloc heap (fill m allocation data) allocation.ptr size = .ok (m', ptr) →
      ∀ i < min allocation.size size, m' (ptr + i) = data i

variable {heap : HeapObject}

theorem freeBefore_eq
    (hlayout : Layout heap m (before ++ left ++ ⟨old, true⟩ :: after))
    (hleft : Absorbed left) (hlast : ∀ last ∈ before.getLast?, last.used = true)
    (hfirst : before ++ left = [] → getPrevious heap m heap.head = 0) :
    freeBefore heap m (heap.head + span (before ++ left)) = span left := by
  have hbounds := heap.bounds
  rcases hleft with rfl | ⟨size, rfl⟩
  · rcases List.eq_nil_or_concat before with rfl | ⟨front, prev, rfl⟩
    · simp [freeBefore, hfirst]
    · have hused : prev.used = true := hlast prev (by simp)
      have hsplit : Layout heap m (front ++ prev :: ⟨old, true⟩ :: after) := by
        simpa using hlayout
      have hprevious := hsplit.getPrevious_eq
      rw [List.concat_eq_append, List.append_nil]
      simp only [freeBefore, hprevious, hsplit.isFree_iff, hused]
      rw [if_neg (by simp), span_nil]
  · have hsplit : Layout heap m
        (before ++ ⟨size, false⟩ :: ⟨old, true⟩ :: after) := by
      simpa using hlayout
    have hprevious := hsplit.getPrevious_eq
    have hne : heap.head + span before ≠ 0 := by omega
    simp only [freeBefore, hprevious, hsplit.isFree_iff, hsplit.getSize_eq]
    rw [if_pos ⟨hne, trivial⟩]
    simp [Block.length, memblockOverhead_eq]

theorem freeAfter_eq
    (hlayout : Layout heap m (before ++ ⟨old, true⟩ :: (right ++ after)))
    (hright : Absorbed right)
    (hhead : ∀ first ∈ after.head?, first.used = true) :
    freeAfter heap m (heap.head + span before) = span right := by
  have hbounds := heap.bounds
  rcases hright with rfl | ⟨size, rfl⟩
  · cases after with
    | nil => simp [freeAfter, hlayout.getNext_last]
    | cons next after =>
        have hused : next.used = true := hhead next (by simp)
        have hnext := hlayout.getNext_eq
        have hsplit : Layout heap m
            ((before ++ [⟨old, true⟩]) ++ next :: after) := by
          simpa using hlayout
        simp only [freeAfter, hnext, hsplit.isFree_iff, hused]
        rw [if_neg (by simp), span_nil]
  · have hnext : getNext heap m (heap.head + span before) = _ :=
      hlayout.getNext_eq
    have hsplit : Layout heap m
        ((before ++ [⟨old, true⟩]) ++ ⟨size, false⟩ :: after) := by
      simpa using hlayout
    have hne : heap.head + span (before ++ [⟨old, true⟩]) ≠ 0 := by omega
    simp only [freeAfter, hnext, hsplit.isFree_iff, hsplit.getSize_eq]
    rw [if_pos ⟨hne, trivial⟩]
    simp [Block.length, memblockOverhead_eq]

theorem realloc_merged
    (hrep : Represents heap m (before ++ ⟨old, true⟩ :: after) nodes)
    (hfirst : before = [] → getPrevious heap m heap.head = 0)
    (hsize : size ≠ 0) :
    ∃ m1 nodes1 before' left right after', before = before' ++ left ∧
      after = right ++ after' ∧ Absorbed left ∧ Absorbed right ∧
      (∀ last ∈ before'.getLast?, last.used = true) ∧
      (∀ first ∈ after'.head?, first.used = true) ∧
      Represents heap m1 (before' ++
        ⟨span left + old + span right, true⟩ :: after') nodes1 ∧
      (∀ i < old, m1 (heap.head + span before + 4 + i) =
        m (heap.head + span before + 4 + i)) ∧
      realloc heap m (payload (heap.head + span before)) size = (do
        let (m', res) ← (if span left + old + span right < size then
            relocate heap m1 (heap.head + span before')
              (heap.head + span before) size
          else
            settle heap m1 (heap.head + span before')
              (heap.head + span before) size)
        assert (isHeapPointer heap (payload res)) "is_heap_pointer(block->mem)"
        return (m', payload res)) := by
  have hcall := realloc_eq hrep hsize
  obtain ⟨m1, nodes1, before', left, right, after', rfl, rfl, hleft, hright,
    hlast, hhead, hmerge, hrep1, hframe1⟩ := tryMerge_spec hrep hfirst
  refine ⟨m1, nodes1, before', left, right, after', rfl, rfl, hleft, hright,
    hlast, hhead, hrep1, ?_, ?_⟩
  · intro i hi
    refine hframe1.payloadKept (mem_usedEntries.mpr
      ⟨mem_locate_split _ _ _ _, rfl⟩) _ ?_ ?_
    · dsimp only
      omega
    · dsimp only
      omega
  · rw [hcall, __realloc_eq, hmerge, ok_bind]
    dsimp only
    rw [hrep1.toLayout.getSize_eq]

/-- A split that happens before the move: what is moved is read from the memory
after the split. -/
theorem settle_moves
    (hrep : Represents heap m (before ++ ⟨merged, true⟩ :: after) nodes)
    (hlast : ∀ last ∈ before.getLast?, last.used = true)
    (hfits : size ≤ merged) (hroom : blockSizeFor size + 16 ≤ merged)
    (block : Nat) :
    ∃ m1 m', settle heap m (heap.head + span before) block size =
        .ok (m', heap.head + span before + (merged - blockSizeFor size)) ∧
      (∀ i < size, m' (heap.head + span before +
        (merged - blockSizeFor size) + 4 + i) = m1 (block + 4 + i)) ∧
      SplitFrame (heap.head + span before) (merged - blockSizeFor size - 8)
        merged (heap.freeListSentinel :: nodes) m m1 ∧
      m1.load32 (heap.head + span before + 4) = heap.freeListSentinel ∧
      m1.load32 (heap.head + span before + (merged - blockSizeFor size - 4)) =
        merged - blockSizeFor size - 8 ∧
      m1.load32 (heap.head + span before + (merged - blockSizeFor size)) =
        blockSizeFor size + 1 := by
  have hbounds := heap.bounds
  have hmid := hrep.mid_bounds
  dsimp only at hmid
  have hrequest : size + 3 < 2 ^ 32 := by omega
  obtain ⟨m1, hsplit, hrep1, -, hframe⟩ :=
    split_spec hrep hlast hrequest hroom
  have hnode := (List.isChain_cons_cons.mp hrep1.ring).1.2
  have hrest := hrep1.tagged.2
  have hpart := hrep1.tiled (heap.head + span before +
    (merged - blockSizeFor size), ⟨blockSizeFor size, true⟩) (by
      have hlength : merged - blockSizeFor size - 8 + 8 =
          merged - blockSizeFor size := by omega
      simp [locate, Block.length, hlength])
  have haddress : heap.head + span before + 4 +
      (merged - blockSizeFor size - 8) =
        heap.head + span before + (merged - blockSizeFor size - 4) := by omega
  dsimp only at hrest
  rw [haddress] at hrest
  unfold settle
  rw [hsplit, ok_bind]
  by_cases hmoved : heap.head + span before + (merged - blockSizeFor size) =
      block
  · refine ⟨m1, m1, ?_, ?_, hframe, hnode, hrest, hpart.1⟩
    · simp [hmoved]
      rfl
    · intro i _
      rw [hmoved]
  · refine ⟨m1, MemUtil.memmove m1 (payload (heap.head + span before +
      (merged - blockSizeFor size))) (payload block) size, ?_, ?_, hframe,
      hnode, hrest, hpart.1⟩
    · simp [hmoved]
      rfl
    · exact fun i hi => MemUtil.memmove_inside hi

/-- A byte of the content that the split overwrites, and what it becomes. -/
def lostIndex (gained reach cut : Nat) : Nat :=
  if gained = 0 then 0 else reach - (cut + 8)

def lostByte (heap : HeapObject) (gained reach cut : Nat) : UInt8 :=
  if gained = 0 then UInt8.ofNat heap.freeListSentinel
  else if cut + 8 ≤ reach then UInt8.ofNat (gained + reach - cut - 8)
  else UInt8.ofNat (cut + 1)

theorem contentSafe_iff
    (hlayout : Layout heap m
      (before ++ left ++ ⟨old, true⟩ :: (right ++ after)))
    (hleft : Absorbed left) (hright : Absorbed right)
    (hlast : ∀ last ∈ before.getLast?, last.used = true)
    (hhead : ∀ first ∈ after.head?, first.used = true)
    (hfirst : before ++ left = [] → getPrevious heap m heap.head = 0) :
    ContentSafe heap m (heap.head + span (before ++ left)) size count ↔
      (span left + old + span right < size ∨
        span left + old + span right < blockSizeFor size + 16 ∨
        (span left ≠ 0 ∧ (old + span right ≤ blockSizeFor size ∨
          blockSizeFor size + 8 + count ≤ old + span right))) := by
  unfold ContentSafe
  rw [freeBefore_eq hlayout hleft hlast hfirst,
    freeAfter_eq hlayout hright hhead, hlayout.getSize_eq, memblockOverhead_eq,
    minBlockSize_eq]
  simp only [Nat.add_assoc]

/-- On the safe side of the condition the content arrives. -/
theorem realloc_keeps
    (hrep : Represents heap m (before ++ ⟨old, true⟩ :: after) nodes)
    (hfirst : before = [] → getPrevious heap m heap.head = 0)
    (hlayout : Layout heap m0 (before ++ ⟨old, true⟩ :: after))
    (hfirst0 : before = [] → getPrevious heap m0 heap.head = 0)
    (hold : count ≤ old) (hcount : count ≤ size) (hsize : size ≠ 0)
    (hsafe : ContentSafe heap m0 (heap.head + span before) size count)
    (hcall : realloc heap m (payload (heap.head + span before)) size =
      .ok (m', ptr)) :
    ∀ i < count, m' (ptr + i) = m (payload (heap.head + span before) + i) := by
  have hbounds := heap.bounds
  obtain ⟨m1, nodes1, before', left, right, after', rfl, rfl, hleft, hright,
    hlast, hhead, hrep1, hmerged, hrealloc⟩ := realloc_merged hrep hfirst hsize
  rw [contentSafe_iff hlayout hleft hright hlast hhead hfirst0] at hsafe
  have hmid := hrep1.mid_bounds
  dsimp only at hmid
  rw [hrealloc] at hcall
  obtain ⟨⟨m2, res⟩, hdone, hcheck⟩ := bind_eq_ok.mp hcall
  obtain ⟨-, -, hresult⟩ := bind_eq_ok.mp hcheck
  obtain ⟨rfl, rfl⟩ : m2 = m' ∧ payload res = ptr := by
    simpa using Except.ok.inj hresult
  intro i hi
  have harrived : m2 (payload res + i) =
      m1 (payload (heap.head + span (before' ++ left)) + i) := by
    by_cases hsmall : span left + old + span right < size
    · rw [if_pos hsmall] at hdone
      have hlow : heap.head + span before' ≤
          heap.head + span (before' ++ left) := by simp
      have hhigh : heap.head + span (before' ++ left) + old ≤
          heap.head + span before' + (span left + old + span right) := by
        rw [span_append]
        omega
      rcases relocate_spec hrep1 hlast hhead hlow hhigh with
        ⟨m3, hfailed⟩ | ⟨m3, res', part, hok, -, -, -, hcopied⟩
      · rw [hfailed] at hdone
        obtain ⟨rfl, rfl⟩ : m3 = m2 ∧ 0 = res := by simpa using hdone
        have hinvalid : ¬ isHeapPointer heap (payload 0) := by
          unfold isHeapPointer HeapObject.minHeapPtr payload
          omega
        simp [assert, hinvalid] at hcheck
      · rw [hok] at hdone
        obtain ⟨rfl, rfl⟩ : m3 = m2 ∧ res' = res := by simpa using hdone
        exact hcopied i (by omega) (by omega)
    · rw [if_neg hsmall] at hdone
      by_cases hroom : blockSizeFor size + 16 ≤ span left + old + span right
      · obtain ⟨m3, m4, hok, hmoved, hframe, -⟩ := settle_moves hrep1 hlast
          (Nat.le_of_not_lt hsmall) hroom
          (heap.head + span (before' ++ left))
        rw [hok] at hdone
        obtain ⟨rfl, rfl⟩ : m4 = m2 ∧ heap.head + span before' +
            (span left + old + span right - blockSizeFor size) = res := by
          simpa using hdone
        have hnodes := node_outside_used before' [_] after'
          (by simpa using hrep1.size_ge) (by simpa using hrep1.nodes_perm)
          (by simp)
        have hgained : span left = 0 ∨ 16 ≤ span left := by
          rcases hleft with rfl | ⟨size', rfl⟩
          · exact Or.inl rfl
          · have := hrep.size_ge ⟨size', false⟩ (by simp)
            simp only [span_cons, span_nil, Block.length] at this ⊢
            omega
        simp only [span_cons, span_nil, Block.length] at hnodes
        unfold payload
        rw [hmoved i (by omega)]
        apply hframe
        · intro node hnode
          have := hnodes node hnode
          simp only [span_append]
          omega
        · simp only [span_append]
          omega
        · simp only [span_append]
          omega
        · simp only [span_append]
          omega
      · have hkeep : maybeSplitBlock heap m1 (heap.head + span before') size =
            _ := maybeSplitBlock_keep hrep1.toLayout (by dsimp only; omega)
          (by dsimp only; omega)
        unfold settle at hdone
        rw [hkeep, ok_bind] at hdone
        by_cases hmoved : heap.head + span before' =
            heap.head + span (before' ++ left)
        · simp only [hmoved, ne_eq, not_true_eq_false, if_false] at hdone
          obtain ⟨rfl, rfl⟩ : m1 = m2 ∧
              heap.head + span (before' ++ left) = res := by
            simpa using Except.ok.inj hdone
          rfl
        · simp only [ne_eq, hmoved, not_false_eq_true, if_true] at hdone
          obtain ⟨rfl, rfl⟩ : MemUtil.memmove m1
                (payload (heap.head + span before'))
                (payload (heap.head + span (before' ++ left))) size = m2 ∧
              heap.head + span before' = res := by
            simpa using Except.ok.inj hdone
          exact MemUtil.memmove_inside (by omega)
  rw [harrived]
  exact hmerged i (by omega)

/-- On the other side one byte of the content does not depend on what was
stored. -/
theorem realloc_loses
    (hrep : Represents heap m (before ++ ⟨old, true⟩ :: after) nodes)
    (hfirst : before = [] → getPrevious heap m heap.head = 0)
    (hlayout : Layout heap m0 (before ++ ⟨old, true⟩ :: after))
    (hfirst0 : before = [] → getPrevious heap m0 heap.head = 0)
    (hpos : 0 < count) (hcount : count ≤ size) (hsize : size ≠ 0)
    (hlossy : ¬ ContentSafe heap m0 (heap.head + span before) size count)
    (hgained : freeBefore heap m0 (heap.head + span before) = gained)
    (hreach : getSize m0 (heap.head + span before) +
      freeAfter heap m0 (heap.head + span before) = reach) :
    lostIndex gained reach (blockSizeFor size) < count ∧
      ∃ m' ptr, realloc heap m (payload (heap.head + span before)) size =
          .ok (m', ptr) ∧
        m' (ptr + lostIndex gained reach (blockSizeFor size)) =
          lostByte heap gained reach (blockSizeFor size) := by
  have hbounds := heap.bounds
  obtain ⟨m1, nodes1, before', left, right, after', rfl, rfl, hleft, hright,
    hlast, hhead, hrep1, -, hrealloc⟩ := realloc_merged hrep hfirst hsize
  rw [contentSafe_iff hlayout hleft hright hlast hhead hfirst0] at hlossy
  rw [freeBefore_eq hlayout hleft hlast hfirst0] at hgained
  rw [freeAfter_eq hlayout hright hhead, hlayout.getSize_eq] at hreach
  dsimp only at hreach
  subst hgained hreach
  have hmid := hrep1.mid_bounds
  dsimp only at hmid
  have hfits : size ≤ span left + old + span right := by omega
  have hcut : blockSizeFor size = _ := blockSizeFor_eq (by omega)
  have hmod : span right % 4 = 0 ∧ old % 4 = 0 :=
    ⟨hright.span_mod fun block hblock => hrep.size_mod block (by simp [hblock]),
      hrep.size_mod ⟨old, true⟩ (by simp)⟩
  generalize hz : blockSizeFor size = cut at *
  obtain ⟨m2, m', hok, hmoved, -, hnode, hrest, hpart⟩ := settle_moves hrep1
    hlast hfits (by omega)
    (heap.head + span (before' ++ left))
  rw [hz] at hok hmoved hrest hpart
  have hindex : lostIndex (span left) (old + span right) cut < count := by
    unfold lostIndex
    split <;> omega
  refine ⟨hindex, m', payload (heap.head + span before' +
    (span left + old + span right - cut)), ?_, ?_⟩
  · have hvalid : isHeapPointer heap (payload (heap.head + span before' +
        (span left + old + span right - cut))) := by
      unfold isHeapPointer HeapObject.maxHeapPtr HeapObject.minHeapPtr payload
      omega
    rw [hrealloc, if_neg (by omega), hok, ok_bind]
    dsimp only
    rw [assert_of hvalid]
    rfl
  · unfold payload
    rw [hmoved _ (by omega), Mem.byte_of_load32 m2]
    unfold lostIndex lostByte
    by_cases hnone : span left = 0
    · simp only [hnone, if_true, span_append, Nat.add_zero, hnode]
    · by_cases hfooter : cut + 8 ≤ old + span right
      · have haddress : heap.head + span (before' ++ left) + 4 +
            (old + span right - (cut + 8)) = heap.head + span before' +
              (span left + old + span right - cut - 4) := by
          rw [span_append]
          omega
        have hvalue : span left + old + span right - cut - 8 =
            span left + (old + span right) - cut - 8 := by omega
        simp only [if_neg hnone, if_pos hfooter, haddress, hrest, hvalue]
      · have haddress : heap.head + span (before' ++ left) + 4 +
            (old + span right - (cut + 8)) = heap.head + span before' +
              (span left + old + span right - cut) := by
          rw [span_append]
          omega
        simp only [if_neg hnone, if_neg hfooter, haddress, hpart]

theorem fill_content (m : Mem) (allocation : Allocation) :
    fill m allocation (fun i => m (allocation.ptr + i)) = m := by
  funext p
  unfold fill
  split
  · exact congrArg m (by omega)
  · rfl

theorem Represents.fill (hrep : Represents heap m
      (before ++ ⟨old, true⟩ :: after) nodes)
    (hptr : allocation.ptr = payload (heap.head + span before))
    (hsize : allocation.size ≤ old) (data : Nat → UInt8) :
    Represents heap (Heap.fill m allocation data)
      (before ++ ⟨old, true⟩ :: after) nodes := by
  have hbounds := heap.bounds
  refine hrep.congr fun p hp => ?_
  unfold Heap.fill
  rw [if_neg ?_]
  rintro ⟨hlow, hhigh⟩
  unfold payload at hptr
  rcases hp with hp | hp
  · omega
  · refine not_reserved_of_used (mem_locate_split _ _ _ _) rfl ?_ ?_ hp
    · dsimp only
      omega
    · dsimp only
      omega

def shrinkRun : List Event :=
  [.malloc 24, .malloc 8, .write ⟨3145708, 24⟩ 0 0xAA]

private theorem shrinkRun_reaches :
    ∃ s, Reachable sampleHeap s ∧
      s.live = [⟨3145692, 8⟩, ⟨3145708, 24⟩] ∧ s.mem 3145708 = 0xAA ∧
      ∃ s', step sampleHeap s (.realloc ⟨3145708, 24⟩ 1) = some s' ∧
        s'.live = [⟨3145724, 1⟩, ⟨3145692, 8⟩] ∧ s'.mem 3145724 = 0 := by
  have hrun : (Runs.run (step sampleHeap) (initialState sampleHeap)
      shrinkRun).map (fun s => (s.live, s.mem 3145708,
        (step sampleHeap s (.realloc ⟨3145708, 24⟩ 1)).map fun s' =>
          (s'.live, s'.mem 3145724))) =
      some ([⟨3145692, 8⟩, ⟨3145708, 24⟩], 0xAA,
        some ([⟨3145724, 1⟩, ⟨3145692, 8⟩], 0)) := by
    decide +kernel
  obtain ⟨s, hs, hvalues⟩ := Option.map_eq_some_iff.mp hrun
  simp only [Prod.mk.injEq, Option.map_eq_some_iff] at hvalues
  obtain ⟨hlive, hbyte, s', hstep, hlive', hbyte'⟩ := hvalues
  exact ⟨s, (Runs.Reachable.start (initialState_initial sampleHeap)).run hs,
    hlive, hbyte, s', hstep, hlive', hbyte'⟩

/-- `realloc` hands the content of an allocation over, whatever it is, exactly
when the memory before the call is on the safe side. -/
theorem realloc_content_iff (hreach : Reachable heap s)
    (hmem : allocation ∈ s.live)
    (hnull : ∀ data,
      predecessorNull heap (fill s.mem allocation data) allocation.ptr)
    (hsize : size ≠ 0) :
    KeepsContent heap s.mem allocation size ↔
      ContentSafe heap s.mem (allocation.ptr - 4) size
        (min allocation.size size) := by
  obtain ⟨block, old, rest, -, hholds, ⟨hptr, hold, hpos⟩, -⟩ :=
    (Valid.of_reachable hreach).take hmem
  obtain ⟨before, after, nodes, rfl, hrep, -⟩ := hholds.split
  dsimp only at hptr hold hpos
  have hblock : allocation.ptr - 4 = heap.head + span before := by
    unfold payload at hptr
    omega
  have hfirst : ∀ data, before = [] →
      getPrevious heap (fill s.mem allocation data) heap.head = 0 := by
    rintro data rfl
    exact hnull data hptr
  have hfirst0 : before = [] → getPrevious heap s.mem heap.head = 0 := by
    have := hfirst fun i => s.mem (allocation.ptr + i)
    rwa [fill_content] at this
  have hfill := fun data => hrep.fill hptr hold data
  rw [hblock]
  constructor
  · intro hkeeps
    by_contra hlossy
    -- The byte that the split leaves there is refuted by data that differ.
    let lost := lostByte heap (freeBefore heap s.mem (heap.head + span before))
      (getSize s.mem (heap.head + span before) +
        freeAfter heap s.mem (heap.head + span before)) (blockSizeFor size)
    obtain ⟨hindex, m', ptr, hcall, hbyte⟩ := realloc_loses
      (hfill fun _ => lost + 1) (hfirst fun _ => lost + 1) hrep.toLayout hfirst0
      (by omega) (Nat.min_le_right _ _) hsize hlossy rfl rfl
    rw [← hptr] at hcall
    have hkept := hkeeps _ m' ptr hcall _ hindex
    rw [hbyte] at hkept
    simp [lost] at hkept
  · intro hsafe data m' ptr hcall i hi
    rw [hptr] at hcall
    rw [realloc_keeps (hfill data) (hfirst data) hrep.toLayout hfirst0
      (by omega) (Nat.min_le_right _ _) hsize hsafe hcall i hi, ← hptr]
    unfold fill
    rw [if_pos (by omega)]
    exact congrArg data (by omega)

theorem realloc_content_iff_shrink :
    ∃ s, Reachable sampleHeap s ∧ (KeepsContent sampleHeap s.mem
        ⟨3145708, 24⟩ 1 ↔
      ContentSafe sampleHeap s.mem 3145704 1 1) := by
  obtain ⟨s, hreach, hlive, -⟩ := shrinkRun_reaches
  exact ⟨s, hreach, realloc_content_iff hreach (by simp [hlive])
    (fun _ hfirst => absurd hfirst (by decide)) (by decide)⟩

/-- Shrinking the first allocation of that run to one byte loses the byte. -/
theorem realloc_content_lost :
    ¬ ∀ s : State, Reachable sampleHeap s → ∀ allocation ∈ s.live,
      ∀ size s', step sampleHeap s (.realloc allocation size) = some s' →
        ∃ ptr, s'.live.head? = some ⟨ptr, size⟩ ∧
          ∀ i < min allocation.size size,
            s'.mem (ptr + i) = s.mem (allocation.ptr + i) := by
  intro hclaim
  obtain ⟨s, hreach, hlive, hbyte, s', hstep, hlive', hbyte'⟩ :=
    shrinkRun_reaches
  obtain ⟨ptr, hptr, hkept⟩ :=
    hclaim s hreach ⟨3145708, 24⟩ (by simp [hlive]) 1 s' hstep
  obtain rfl : 3145724 = ptr := by simpa [hlive'] using hptr
  have hzero := hkept 0 (by decide)
  simp [hbyte, hbyte'] at hzero

end X86Os32.Heap
