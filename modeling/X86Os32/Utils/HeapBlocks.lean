import X86Os32.Library.Blocks
import X86Os32.Utils.HeapContent
import X86Os32.Utils.HeapContract

namespace X86Os32.Heap

open Library

/-! The heap as its clients see it: blocks of bytes.  The calls do to them what
an allocator is documented to do, except that `realloc` hands the content over
only under the condition of `ContentSafe`. -/

def bytesOf (m : Mem) (allocation : Allocation) : List UInt8 :=
  (List.range allocation.size).map fun i => m (allocation.ptr + i)

def blocksOf (m : Mem) : List Allocation → Blocks Nat UInt8
  | [] => ∅
  | allocation :: live =>
      (blocksOf m live).insert allocation.ptr (bytesOf m allocation)

def State.blocks (s : State) : Blocks Nat UInt8 := blocksOf s.mem s.live

@[simp] theorem length_bytesOf (m : Mem) (allocation : Allocation) :
    (bytesOf m allocation).length = allocation.size := by
  simp [bytesOf]

theorem take_bytesOf (m : Mem) {ptr size count : Nat} (hle : count ≤ size) :
    (bytesOf m ⟨ptr, size⟩).take count = bytesOf m ⟨ptr, count⟩ := by
  unfold bytesOf
  rw [← List.map_take, List.take_range, Nat.min_eq_left hle]

theorem bytesOf_congr {m m' : Mem} {allocation : Allocation}
    (hkept : ContentKept m m' allocation) :
    bytesOf m' allocation = bytesOf m allocation := by
  apply List.map_congr_left
  intro i hi
  exact hkept i (List.mem_range.mp hi)

theorem mem_blocksOf {m : Mem} {live : List Allocation} {ptr : Nat} :
    ptr ∈ blocksOf m live ↔ ∃ allocation ∈ live, allocation.ptr = ptr := by
  induction live with
  | nil => simp [blocksOf, Finmap.notMem_empty]
  | cons allocation live ih =>
      simp [blocksOf, Finmap.mem_insert, ih, eq_comm]

theorem blocksOf_congr {m m' : Mem} {live : List Allocation}
    (hkept : ∀ allocation ∈ live, ContentKept m m' allocation) :
    blocksOf m' live = blocksOf m live := by
  induction live with
  | nil => rfl
  | cons allocation live ih =>
      unfold blocksOf
      rw [ih fun other hmem => hkept other (List.mem_cons_of_mem _ hmem),
        bytesOf_congr (hkept allocation List.mem_cons_self)]

theorem lookup_blocksOf {m : Mem} {live : List Allocation}
    (hapart : live.Pairwise fun left right => left.ptr ≠ right.ptr)
    {allocation : Allocation} (hmem : allocation ∈ live) :
    (blocksOf m live).lookup allocation.ptr = some (bytesOf m allocation) := by
  induction live with
  | nil => cases hmem
  | cons first live ih =>
      obtain ⟨hfirst, hrest⟩ := List.pairwise_cons.mp hapart
      rcases List.mem_cons.mp hmem with rfl | hmem
      · exact Finmap.lookup_insert _
      · unfold blocksOf
        rw [Finmap.lookup_insert_of_ne _ (hfirst allocation hmem).symm]
        exact ih hrest hmem

theorem blocksOf_erase {m : Mem} {live : List Allocation}
    (hapart : live.Pairwise fun left right => left.ptr ≠ right.ptr)
    {allocation : Allocation} (hmem : allocation ∈ live) :
    blocksOf m (live.erase allocation) =
      (blocksOf m live).erase allocation.ptr := by
  induction live with
  | nil => cases hmem
  | cons first live ih =>
      obtain ⟨hfirst, hrest⟩ := List.pairwise_cons.mp hapart
      by_cases hsame : first = allocation
      · subst hsame
        rw [List.erase_cons_head, blocksOf, Blocks.erase_insert_of_notMem]
        rw [mem_blocksOf]
        rintro ⟨other, hother, hptr⟩
        exact hfirst other hother hptr.symm
      · have hmem' : allocation ∈ live :=
          (List.mem_cons.mp hmem).resolve_left (Ne.symm hsame)
        rw [List.erase_cons_tail (by simpa using hsame), blocksOf,
          ih hrest hmem', blocksOf]
        exact Blocks.insert_erase (hfirst allocation hmem') _

variable {heap : HeapObject}

theorem Valid.pointers (hvalid : Valid heap s) :
    s.live.Pairwise fun left right => left.ptr ≠ right.ptr := by
  refine hvalid.disjoint.imp_of_mem fun {left right} hleft hright hdisjoint => ?_
  obtain ⟨pairs, hlive, -, hfits⟩ := hvalid
  have hpos : ∀ allocation ∈ s.live, 0 < allocation.size := by
    intro allocation hmem
    obtain ⟨pair, hpair, rfl⟩ := List.mem_map.mp (hlive.mem_iff.mp hmem)
    exact (hfits pair hpair).2.2
  have hleftPos := hpos left hleft
  have hrightPos := hpos right hright
  unfold Disjoint at hdisjoint
  omega

theorem Valid.others (hvalid : Valid heap s) (hmem : allocation ∈ s.live)
    (hother : other ∈ s.live.erase allocation) :
    other ∈ s.live ∧ other.ptr ≠ allocation.ptr := by
  have hpointers := hvalid.pointers
  have hnodup : s.live.Nodup :=
    hpointers.imp fun hne heq => hne (congrArg Allocation.ptr heq)
  obtain ⟨hne, hother⟩ := hnodup.mem_erase_iff.mp hother
  have hsymm : Std.Symm fun left right : Allocation => left.ptr ≠ right.ptr :=
    ⟨fun _ _ => Ne.symm⟩
  exact ⟨hother, hpointers.forall hother hmem hne⟩

theorem Valid.blocks_cons (hvalid : Valid heap s) {ptr size : Nat}
    {live : List Allocation} {m : Mem} (hlive : s.live = ⟨ptr, size⟩ :: live)
    (hkept : ∀ allocation ∈ live, ContentKept m s.mem allocation) :
    s.blocks = (blocksOf m live).insert ptr (bytesOf s.mem ⟨ptr, size⟩) ∧
      ptr ∉ blocksOf m live := by
  constructor
  · unfold State.blocks
    rw [hlive, blocksOf, blocksOf_congr hkept]
  · have hpointers := hvalid.pointers
    rw [hlive] at hpointers
    rw [mem_blocksOf]
    rintro ⟨other, hother, hptr⟩
    exact (List.pairwise_cons.mp hpointers).1 other hother hptr.symm

theorem malloc_blocks (hreach : Reachable heap s)
    (hstep : step heap s (.malloc size) = some s') :
    ∃ ptr block, s'.blocks = s.blocks.insert ptr block ∧ ptr ∉ s.blocks ∧
      block.length = size := by
  obtain ⟨hvalid', hkept⟩ := malloc_step (Valid.of_reachable hreach) hstep
  obtain ⟨⟨m, ptr⟩, -, hdone⟩ := Option.bind_eq_some_iff.mp hstep
  have hlive : s'.live = ⟨ptr, size⟩ :: s.live := by
    rw [← Option.some.inj hdone]
  obtain ⟨hblocks, hnew⟩ := hvalid'.blocks_cons hlive hkept
  exact ⟨ptr, _, hblocks, hnew, length_bytesOf _ _⟩

theorem free_blocks (hreach : Reachable heap s)
    (hstep : step heap s (.free allocation) = some s') :
    s'.blocks = s.blocks.erase allocation.ptr := by
  have hvalid := Valid.of_reachable hreach
  obtain ⟨-, hkept⟩ := free_step hvalid hstep
  obtain ⟨_, hguard, hrest⟩ := Option.bind_eq_some_iff.mp hstep
  obtain ⟨m, -, hdone⟩ := Option.bind_eq_some_iff.mp hrest
  obtain ⟨hmem, -⟩ := (Option.guard_eq_some' _).mp hguard
  have hlive : s'.live = s.live.erase allocation := by
    rw [← Option.some.inj hdone]
  have herased : ∀ other ∈ s.live.erase allocation,
      ContentKept s.mem s'.mem other := by
    intro other hother
    obtain ⟨hlive, hne⟩ := hvalid.others hmem hother
    exact hkept other hlive hne
  unfold State.blocks
  rw [hlive, blocksOf_congr herased, blocksOf_erase hvalid.pointers hmem]

/-- On the safe side of the condition `realloc` hands the content over. -/
theorem Valid.handed_over (hvalid : Valid heap s) (hmem : allocation ∈ s.live)
    (hnull : predecessorNull heap s.mem allocation.ptr) (hsize : size ≠ 0)
    (hcall : realloc heap s.mem allocation.ptr size = .ok (m, ptr))
    (hsafe : ContentSafe heap s.mem (allocation.ptr - 4) size
      (min allocation.size size)) :
    bytesOf m ⟨ptr, min allocation.size size⟩ =
      bytesOf s.mem ⟨allocation.ptr, min allocation.size size⟩ := by
  obtain ⟨block, old, rest, -, hholds, ⟨hptr, hold, -⟩, -⟩ := hvalid.take hmem
  obtain ⟨before, after, nodes, rfl, hrep, -⟩ := hholds.split
  dsimp only at hptr hold
  have hblock : allocation.ptr - 4 = heap.head + Tiling.span before := by
    unfold payload at hptr
    omega
  have hfirst : before = [] → getPrevious heap s.mem heap.head = 0 := by
    rintro rfl
    exact hnull hptr
  rw [hblock] at hsafe
  rw [hptr] at hcall
  have hkept := realloc_keeps hrep hfirst hrep.toLayout hfirst (by omega)
    (Nat.min_le_right _ _) hsize hsafe hcall
  apply List.map_congr_left
  intro i hi
  rw [hptr]
  exact hkept i (List.mem_range.mp hi)

theorem realloc_blocks (hreach : Reachable heap s)
    (hstep : step heap s (.realloc allocation size) = some s') :
    ∃ ptr, s.blocks.Resized allocation.ptr size
      (ContentSafe heap s.mem (allocation.ptr - 4) size
        (min allocation.size size)) ptr s'.blocks := by
  have hvalid := Valid.of_reachable hreach
  obtain ⟨hvalid', hkept⟩ := realloc_step hvalid hstep
  obtain ⟨_, hguard, hrest⟩ := Option.bind_eq_some_iff.mp hstep
  obtain ⟨⟨m, ptr⟩, hcall, hdone⟩ := Option.bind_eq_some_iff.mp hrest
  obtain ⟨hmem, hnull⟩ := (Option.guard_eq_some' _).mp hguard
  rw [returned_eq_some] at hcall
  obtain rfl := Option.some.inj hdone
  have hothers : ∀ other ∈ s.live.erase allocation, ContentKept s.mem m other := by
    intro other hother
    obtain ⟨hlive, hne⟩ := hvalid.others hmem hother
    exact hkept other hlive hne
  obtain ⟨hblocks, hnew⟩ := hvalid'.blocks_cons rfl hothers
  rw [blocksOf_erase hvalid.pointers hmem] at hblocks hnew
  refine ⟨ptr, _, hblocks, hnew, length_bytesOf _ _, fun hsafe old hold => ?_⟩
  have hsize : size ≠ 0 := by
    rintro rfl
    simp [Heap.realloc, assert] at hcall
  obtain rfl : bytesOf s.mem allocation = old :=
    Option.some.inj ((lookup_blocksOf hvalid.pointers hmem).symm.trans hold)
  rw [length_bytesOf, take_bytesOf m (Nat.min_le_right _ _),
    take_bytesOf s.mem (Nat.min_le_left _ _)]
  exact hvalid.handed_over hmem hnull hsize hcall hsafe

end X86Os32.Heap
