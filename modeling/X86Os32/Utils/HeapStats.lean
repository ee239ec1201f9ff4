import X86Os32.Utils.HeapContract

namespace X86Os32.Heap

open Library Library.Tiling

/-! The accounts of `get_heap_stats`, and that nothing is lost in them: the
allocator gives back what it took, and merges it. -/

structure HeapStats where
  free : Nat
  freeBlocks : Nat
  used : Nat
  usedBlocks : Nat
  total : Nat
deriving DecidableEq, Repr

/-- The body of the loop of `get_heap_stats`. -/
def tally (m : Mem) (stats : HeapStats) (cur : Nat) : HeapStats :=
  if isFree m cur then
    { stats with
      free := add32 stats.free (getSize m cur)
      freeBlocks := add32 stats.freeBlocks 1 }
  else
    { stats with
      used := add32 stats.used (getSize m cur)
      usedBlocks := add32 stats.usedBlocks 1 }

variable (heap : HeapObject)

def getHeapStatsFrom (m : Mem) : Nat → Nat → HeapStats → Except Stop HeapStats
  | 0, _, _ => .error .endlessLoop
  | fuel + 1, cur, stats =>
      if cur = 0 then .ok stats
      else getHeapStatsFrom m fuel (getNext heap m cur) (tally m stats cur)

def getHeapStats (m : Mem) : Except Stop HeapStats :=
  getHeapStatsFrom heap m (2 ^ 32) heap.head ⟨0, 0, 0, 0, heapSize⟩

variable {heap}

theorem getHeapStatsFrom_eq (hwalk : walk heap m fuel cur = .ok blocks)
    (stats : HeapStats) :
    getHeapStatsFrom heap m fuel cur stats =
      .ok (blocks.foldl (tally m) stats) := by
  induction fuel generalizing cur stats blocks with
  | zero => cases hwalk
  | succ fuel ih =>
      by_cases hend : cur = 0
      · obtain rfl : [] = blocks := by simpa [walk, hend] using hwalk
        simp [getHeapStatsFrom, hend]
      · cases hrest : walk heap m fuel (getNext heap m cur) with
        | error stop => simp [walk, hend, hrest] at hwalk
        | ok rest =>
            obtain rfl : cur :: rest = blocks := by
              simpa [walk, hend, hrest, ok_bind] using hwalk
            simp only [getHeapStatsFrom, hend, if_false]
            exact ih hrest _

theorem foldl_tally {a : Nat} {blocks : List Block}
    (hread : ∀ entry ∈ locate a blocks, getSize m entry.1 = entry.2.size ∧
      (isFree m entry.1 ↔ entry.2.used = false))
    (stats : HeapStats)
    (hfits : stats.free + stats.freeBlocks + stats.used + stats.usedBlocks +
      span blocks < 2 ^ 32) :
    ((locate a blocks).map Prod.fst).foldl (tally m) stats =
      { free := stats.free + payloadBytes false blocks
        freeBlocks := stats.freeBlocks + blockCount false blocks
        used := stats.used + payloadBytes true blocks
        usedBlocks := stats.usedBlocks + blockCount true blocks
        total := stats.total } := by
  induction blocks generalizing a stats with
  | nil => rfl
  | cons block rest ih =>
      obtain ⟨hsize, hfree⟩ := hread (a, block) List.mem_cons_self
      have hrest := fun entry hentry =>
        hread entry (List.mem_cons_of_mem _ hentry)
      dsimp only at hsize hfree
      rw [span_cons] at hfits
      unfold Block.length at hfits
      simp only [locate, List.map_cons, List.foldl_cons, payloadBytes_cons,
        blockCount_cons]
      cases hused : block.used with
      | true =>
          have hstep : tally m stats a = { stats with
              used := stats.used + block.size
              usedBlocks := stats.usedBlocks + 1 } := by
            unfold tally
            rw [if_neg (by simp [hfree, hused]), hsize,
              add32_of_lt (by omega), add32_of_lt (by omega)]
          rw [hstep, ih hrest _ (by dsimp only; omega)]
          simp [Nat.add_assoc]
      | false =>
          have hstep : tally m stats a = { stats with
              free := stats.free + block.size
              freeBlocks := stats.freeBlocks + 1 } := by
            unfold tally
            rw [if_pos (hfree.mpr hused), hsize,
              add32_of_lt (by omega), add32_of_lt (by omega)]
          rw [hstep, ih hrest _ (by dsimp only; omega)]
          simp [Nat.add_assoc]

/-- `get_heap_stats` comes back with the counts of the represented blocks. -/
theorem getHeapStats_spec (hrep : Represents heap m blocks nodes) :
    getHeapStats heap m = .ok
      { free := payloadBytes false blocks
        freeBlocks := blockCount false blocks
        used := payloadBytes true blocks
        usedBlocks := blockCount true blocks
        total := heapSize } := by
  have hbounds := heap.bounds
  have hread := fun entry (hentry : entry ∈ locate heap.head blocks) =>
    hrep.entry_header hentry
  have hwalk : walk heap m (2 ^ 32) heap.head = _ := hrep.wellFormed.reached_eq
  have hspan := hrep.span_eq
  unfold getHeapStats
  rw [getHeapStatsFrom_eq hwalk, foldl_tally hread _ (by dsimp only; omega)]
  simp

/-- The heap is one free block, and that block is the free list. -/
def Whole (heap : HeapObject) (m : Mem) : Prop :=
  reachedBlocks heap m = .ok [heap.head] ∧ isFree m heap.head ∧
    getSize m heap.head = heapSize - 8 ∧
    Ring.IsRing m heap.freeListSentinel [payload heap.head]

theorem Represents.whole (hrep : Represents heap m blocks nodes)
    (hunused : usedEntries heap.head blocks = []) : Whole heap m := by
  have hbounds := heap.bounds
  have hspan := hrep.span_eq
  cases blocks with
  | nil =>
      simp only [span_nil] at hspan
      omega
  | cons first rest =>
      obtain ⟨hfree, rfl⟩ := hrep.coalesced.single_of_unused hunused
      have hlayout : Layout heap m ([] ++ first :: []) := hrep.toLayout
      have hnodes : nodes = [payload heap.head] := by
        obtain ⟨size, used⟩ := first
        obtain rfl : used = false := hfree
        have hperm := hrep.nodes_perm
        rw [freeNodes_cons_free, freeNodes_nil] at hperm
        exact List.perm_singleton.mp hperm
      refine ⟨hrep.wellFormed.reached_eq, hlayout.isFree_iff.mpr hfree, ?_, ?_⟩
      · have hsize : getSize m heap.head = first.size := hlayout.getSize_eq
        simp only [span_cons, span_nil] at hspan
        unfold Block.length at hspan
        omega
      · rw [← hnodes]
        exact hrep.ring

/-- In every reachable state the statistics come back, count the live
allocations and account for every byte.  Without live allocations the heap is
whole again. -/
theorem no_leak (hreach : Reachable heap s) :
    ∃ stats, getHeapStats heap s.mem = .ok stats ∧
      stats.usedBlocks = s.live.length ∧
      stats.used + stats.free + 8 * (stats.usedBlocks + stats.freeBlocks) =
        heapSize ∧
      (s.live = [] → Whole heap s.mem) := by
  obtain ⟨pairs, hlive, ⟨blocks, nodes, hrep, hentries⟩, -⟩ :=
    Valid.of_reachable hreach
  refine ⟨_, getHeapStats_spec hrep, ?_, ?_, ?_⟩
  · dsimp only
    rw [← length_usedEntries heap.head, hentries.length_eq, List.length_map,
      hlive.length_eq, List.length_map]
  · dsimp only
    rw [payloadBytes_add_tags, hrep.span_eq]
  · intro hnone
    refine hrep.whole ?_
    rw [hnone] at hlive
    have hpairs : pairs = [] := List.map_eq_nil_iff.mp hlive.nil_eq.symm
    rw [hpairs] at hentries
    exact hentries.eq_nil

/-- One block is taken and given back. -/
theorem no_leak_of_free :
    ∃ s s', step sampleHeap (initialState sampleHeap) (.malloc 24) = some s ∧
      step sampleHeap s (.free ⟨0x2FFFEC, 24⟩) = some s' ∧
      (∃ stats, getHeapStats sampleHeap s.mem = .ok stats ∧
        stats.usedBlocks = s.live.length) ∧
      Whole sampleHeap s'.mem := by
  have htaken : ((step sampleHeap (initialState sampleHeap)
      (.malloc 24)).bind fun s =>
        step sampleHeap s (.free ⟨0x2FFFEC, 24⟩)).map State.live = some [] := by
    decide +kernel
  obtain ⟨s', hrun, hlive⟩ := Option.map_eq_some_iff.mp htaken
  obtain ⟨s, hmalloc, hfree⟩ := Option.bind_eq_some_iff.mp hrun
  have hreach : Reachable sampleHeap s :=
    (Runs.Reachable.start (initialState_initial sampleHeap)).next hmalloc
  obtain ⟨stats, hstats, hcount, -⟩ := no_leak hreach
  obtain ⟨-, -, -, -, hwhole⟩ := no_leak (hreach.next hfree)
  exact ⟨s, s', hmalloc, hfree, ⟨stats, hstats, hcount⟩, hwhole hlive⟩

end X86Os32.Heap
