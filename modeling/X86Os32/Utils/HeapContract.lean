import X86Os32.Utils.HeapRuns

namespace X86Os32.Heap

open Library Library.Tiling

/-! What holds in every run of the heap: the representation invariant, and the
contract of the allocator with its clients. -/

/-- The blocks reached from `heap.head` tile the heap, and the free list holds
exactly the free ones among them. -/
structure WellFormed (heap : HeapObject) (m : Mem) (reached nodes : List Nat) :
    Prop where
  reached_eq : reachedBlocks heap m = .ok reached
  starts : reached.head? = some heap.head
  tiles : List.IsChain (fun block next => block + 8 + getSize m block = next)
    (reached ++ [heap.head + heapSize])
  footer_eq : ∀ block ∈ reached,
    m.load32 (payload block + getSize m block) = getSize m block
  size_mod : ∀ block ∈ reached, getSize m block % 4 = 0
  size_ge : ∀ block ∈ reached, 8 ≤ getSize m block
  coalesced : List.IsChain (fun block next => ¬ (isFree m block ∧ isFree m next))
    reached
  ring : Ring.IsRing m heap.freeListSentinel nodes
  nodup : nodes.Nodup
  mem_nodes : ∀ node, node ∈ nodes ↔
    ∃ block ∈ reached, isFree m block ∧ node = payload block

variable {heap : HeapObject}

private theorem walk_spec {before after : List Block}
    (hlayout : Layout heap m (before ++ block :: after))
    (hfuel : after.length + 1 < fuel) :
    walk heap m fuel (heap.head + span before) =
      .ok ((locate (heap.head + span before) (block :: after)).map Prod.fst) := by
  have hbounds := heap.bounds
  induction after generalizing before block fuel with
  | nil =>
      obtain ⟨fuel, rfl⟩ : ∃ rest, fuel = rest + 2 := ⟨fuel - 2, by
        simp only [List.length_nil] at hfuel
        omega⟩
      have hne : heap.head + span before ≠ 0 := by omega
      simp only [walk, hne, if_false, hlayout.getNext_last, if_true, ok_bind]
      rfl
  | cons next after ih =>
      obtain ⟨fuel, rfl⟩ : ∃ rest, fuel = rest + 1 := ⟨fuel - 1, by omega⟩
      have hne : heap.head + span before ≠ 0 := by omega
      have hnext : walk heap m fuel (heap.head + span (before ++ [block])) = _ :=
        ih (by simpa using hlayout) (by simpa using hfuel)
      have haddress : heap.head + span (before ++ [block]) =
          heap.head + span before + block.length := by
        simp [Nat.add_assoc]
      simp only [walk, hne, if_false, hlayout.getNext_eq, hnext, ok_bind]
      rw [haddress]
      rfl

private theorem tiles_of_sizes {a : Nat} {blocks : List Block}
    (hsizes : ∀ entry ∈ locate a blocks, getSize m entry.1 = entry.2.size) :
    List.IsChain (fun block next => block + 8 + getSize m block = next)
      ((locate a blocks).map Prod.fst ++ [a + span blocks]) := by
  induction blocks generalizing a with
  | nil => exact List.isChain_singleton _
  | cons block rest ih =>
      have htail := ih fun entry hentry =>
        hsizes entry (List.mem_cons_of_mem _ hentry)
      have hsize := hsizes (a, block) List.mem_cons_self
      refine List.isChain_cons.mpr ⟨?_, ?_⟩
      · intro next hnext
        dsimp only at hsize ⊢
        rw [hsize]
        cases rest with
        | nil =>
            obtain rfl : a + span [block] = next := by
              simpa [locate] using hnext
            simp only [span_cons, span_nil, Block.length]
            omega
        | cons second rest =>
            obtain rfl : a + block.length = next := by
              simpa [locate] using hnext
            unfold Block.length
            omega
      · rw [span_cons, ← Nat.add_assoc]
        exact htail

private theorem chain_of_coalesced {a : Nat} {blocks : List Block}
    (hcoalesced : Coalesced blocks)
    (hfree : ∀ entry ∈ locate a blocks,
      (isFree m entry.1 ↔ entry.2.used = false)) :
    List.IsChain (fun block next => ¬ (isFree m block ∧ isFree m next))
      ((locate a blocks).map Prod.fst) := by
  induction blocks generalizing a with
  | nil => exact List.isChain_nil
  | cons block rest ih =>
      obtain ⟨hfirst, hrest⟩ := coalesced_cons.mp hcoalesced
      refine List.isChain_cons.mpr ⟨?_, ih hrest fun entry hentry =>
        hfree entry (List.mem_cons_of_mem _ hentry)⟩
      intro next hnext
      cases rest with
      | nil => simp [locate] at hnext
      | cons second rest =>
          obtain rfl : a + block.length = next := by
            simpa [locate] using hnext
          have hblock := hfree (a, block) List.mem_cons_self
          have hsecond := hfree (a + block.length, second)
            (List.mem_cons_of_mem _ List.mem_cons_self)
          have := hfirst second (by simp)
          dsimp only at hblock hsecond ⊢
          rw [hblock, hsecond]
          rintro ⟨hunused, hunused'⟩
          simp [hunused, hunused'] at this

theorem Represents.wellFormed (hrep : Represents heap m blocks nodes) :
    WellFormed heap m ((locate heap.head blocks).map Prod.fst) nodes := by
  have hbounds := heap.bounds
  have hentry : ∀ entry ∈ locate heap.head blocks,
      getSize m entry.1 = entry.2.size ∧
        (isFree m entry.1 ↔ entry.2.used = false) ∧
        m.load32 (payload entry.1 + entry.2.size) = entry.2.size ∧
        entry.2.size % 4 = 0 ∧ 8 ≤ entry.2.size := by
    intro entry hentry
    obtain ⟨before, after, rfl, haddress⟩ := locate_split hentry
    have hmid := hrep.mid_bounds
    rw [haddress]
    exact ⟨hrep.getSize_eq, hrep.isFree_iff, hrep.tagged.2, hmid.2.2, hmid.2.1⟩
  obtain ⟨first, rest, rfl⟩ : ∃ first rest, blocks = first :: rest := by
    cases blocks with
    | nil =>
        have := hrep.span_eq
        simp only [span_nil] at this
        omega
    | cons first rest => exact ⟨first, rest, rfl⟩
  refine ⟨?_, rfl, ?_, ?_, ?_, ?_, ?_, hrep.ring, ?_, ?_⟩
  · have hfuel : rest.length + 1 < 2 ^ 32 := by
      have hcount := length_le_span (first :: rest)
      have hspan := hrep.span_eq
      simp only [List.length_cons] at hcount
      omega
    have hwalk : walk heap m (2 ^ 32) (heap.head + span []) = _ :=
      walk_spec hrep.toLayout hfuel
    exact hwalk
  · rw [← hrep.span_eq]
    exact tiles_of_sizes fun entry hmem => (hentry entry hmem).1
  · intro block hblock
    obtain ⟨entry, hmem, rfl⟩ := List.mem_map.mp hblock
    rw [(hentry entry hmem).1]
    exact (hentry entry hmem).2.2.1
  · intro block hblock
    obtain ⟨entry, hmem, rfl⟩ := List.mem_map.mp hblock
    rw [(hentry entry hmem).1]
    exact (hentry entry hmem).2.2.2.1
  · intro block hblock
    obtain ⟨entry, hmem, rfl⟩ := List.mem_map.mp hblock
    rw [(hentry entry hmem).1]
    exact (hentry entry hmem).2.2.2.2
  · exact chain_of_coalesced hrep.coalesced fun entry hmem =>
      (hentry entry hmem).2.1
  · exact Ring.nodup_of_apart (List.pairwise_cons.mp hrep.apart).2
  · intro node
    rw [hrep.nodes_perm.mem_iff, mem_freeNodes]
    constructor
    · rintro ⟨entry, hmem, hunused, rfl⟩
      exact ⟨entry.1, List.mem_map_of_mem hmem,
        (hentry entry hmem).2.1.mpr hunused, rfl⟩
    · rintro ⟨block, hblock, hfree, rfl⟩
      obtain ⟨entry, hmem, rfl⟩ := List.mem_map.mp hblock
      exact ⟨entry, hmem, (hentry entry hmem).2.1.mp hfree, rfl⟩

/-- A call that comes back, or that the assertion for an exhausted heap stops. -/
def ReturnsUnlessExhausted (call : Except Stop α) : Prop :=
  (∃ value, call = .ok value) ∨ call = .error outOfMemory

/-- In every reachable state the heap is well formed, and every permitted call
with a nonzero size returns unless the heap is exhausted. -/
theorem heap_invariant (hreach : Reachable heap s) :
    (∃ reached nodes, WellFormed heap s.mem reached nodes) ∧
    (∀ size ≠ 0, ReturnsUnlessExhausted (malloc heap s.mem size)) ∧
    (∀ nmemb size, size ≠ 0 →
      ReturnsUnlessExhausted (calloc heap s.mem nmemb size)) ∧
    (∀ allocation ∈ s.live, predecessorNull heap s.mem allocation.ptr →
      (∃ m, free heap s.mem allocation.ptr = .ok m) ∧
      ∀ size ≠ 0,
        ReturnsUnlessExhausted (realloc heap s.mem allocation.ptr size)) := by
  have hvalid := Valid.of_reachable hreach
  obtain ⟨pairs, -, hholds, -⟩ := id hvalid
  refine ⟨?_, ?_, ?_, ?_⟩
  · obtain ⟨blocks, nodes, hrep, -⟩ := hholds
    exact ⟨_, _, hrep.wellFormed⟩
  · intro size hsize
    rcases malloc_spec hholds hsize with hfailed | ⟨m', block, part, hok, -⟩
    · exact Or.inr hfailed
    · exact Or.inl ⟨_, hok⟩
  · intro nmemb size hsize
    have hnonzero : nmemb * size ≠ 0 ∨ nmemb = 0 ∨
        (2 ^ 32 - 1) / nmemb < size := by
      by_cases hnone : nmemb = 0
      · exact Or.inr (Or.inl hnone)
      · exact Or.inl (Nat.mul_ne_zero hnone hsize)
    rcases calloc_spec hholds hnonzero with
      hfailed | ⟨-, hnull⟩ | ⟨m', block, part, hok, -⟩
    · exact Or.inr hfailed
    · exact Or.inl ⟨_, hnull⟩
    · exact Or.inl ⟨_, hok⟩
  · intro allocation hmem hnull
    obtain ⟨block, old, rest, -, hheld, ⟨hptr, -⟩, -⟩ := hvalid.take hmem
    dsimp only at hptr
    have hfirst : block = heap.head → getPrevious heap s.mem heap.head = 0 := by
      rintro rfl
      exact hnull hptr
    rw [hptr]
    constructor
    · obtain ⟨m', hok, -⟩ := free_spec hheld hfirst
      exact ⟨m', hok⟩
    · intro size hsize
      rcases realloc_spec hheld hfirst hsize with
        hfailed | ⟨m', res, part, hok, -⟩
      · exact Or.inr hfailed
      · exact Or.inl ⟨_, hok⟩

theorem heap_invariant_after_malloc :
    ∃ s, step sampleHeap (initialState sampleHeap) (.malloc 24) = some s ∧
      s.live.length = 1 ∧
      (∃ reached nodes, WellFormed sampleHeap s.mem reached nodes) := by
  have hsome : (step sampleHeap (initialState sampleHeap)
      (.malloc 24)).isSome = true := by decide +kernel
  obtain ⟨s, hs⟩ := Option.isSome_iff_exists.mp hsome
  have hlive : (step sampleHeap (initialState sampleHeap) (.malloc 24)).map
      (fun s => s.live.length) = some 1 := by decide +kernel
  rw [hs] at hlive
  exact ⟨s, hs, by simpa using hlive, (heap_invariant
    ((Runs.Reachable.start (initialState_initial sampleHeap)).next hs)).1⟩

def Event.IsCall : Event → Prop
  | .malloc _ | .calloc _ _ | .free _ | .realloc _ _ => True
  | .write _ _ _ | .elsewhere _ => False

/-- The pointer a call is made on. -/
def Event.argument : Event → Option Nat
  | .free allocation | .realloc allocation _ => some allocation.ptr
  | .malloc _ | .calloc _ _ | .write _ _ _ | .elsewhere _ => none

def Disjoint (left right : Allocation) : Prop :=
  left.ptr + left.size ≤ right.ptr ∨ right.ptr + right.size ≤ left.ptr

theorem Disjoint.symm (hdisjoint : Disjoint left right) : Disjoint right left :=
  Or.symm hdisjoint

theorem span_mod {blocks : List Block}
    (hmod : ∀ block ∈ blocks, block.size % 4 = 0) : span blocks % 4 = 0 := by
  induction blocks with
  | nil => rfl
  | cons block rest ih =>
      have hblock := hmod block List.mem_cons_self
      have hrest := ih fun other hother =>
        hmod other (List.mem_cons_of_mem _ hother)
      rw [span_cons]
      unfold Block.length
      omega

theorem Holds.entry_bounds (hholds : Holds heap m entries)
    (hentry : entry ∈ entries) : (entry.1 - heap.head) % 4 = 0 ∧
      heap.head ≤ entry.1 ∧
      entry.1 + 8 + entry.2.size ≤ heap.head + heapSize := by
  obtain ⟨blocks, nodes, hrep, hperm⟩ := hholds
  obtain ⟨hlocated, -⟩ := mem_usedEntries.mp (hperm.mem_iff.mpr hentry)
  have hbounds := hrep.entry_bounds hlocated
  obtain ⟨before, after, rfl, haddress⟩ := locate_split hlocated
  have hmod := span_mod fun block hblock =>
    hrep.size_mod block (List.mem_append_left _ hblock)
  exact ⟨by omega, hbounds.1, hbounds.2.1⟩

theorem Valid.disjoint (hvalid : Valid heap s) :
    s.live.Pairwise Disjoint := by
  obtain ⟨pairs, hlive, hholds, hfits⟩ := hvalid
  rw [hlive.pairwise_iff Disjoint.symm, List.pairwise_map]
  obtain ⟨blocks, nodes, -, hperm⟩ := hholds
  have hpairs := (hperm.pairwise_iff (R := fun entry other : Nat × Block =>
    entry.1 + entry.2.length ≤ other.1 ∨ other.1 + other.2.length ≤ entry.1)
    fun h => h.symm).mp ((usedEntries_pairwise _ _).imp Or.inl)
  rw [List.pairwise_map] at hpairs
  refine hpairs.imp_of_mem fun hleft hright hapart => ?_
  obtain ⟨hleftPtr, hleftSize, -⟩ := hfits _ hleft
  obtain ⟨hrightPtr, hrightSize, -⟩ := hfits _ hright
  unfold payload at hleftPtr hrightPtr
  unfold Block.length at hapart
  unfold Disjoint
  omega

/-- What clients rely on: allocations are aligned, inside the heap and pairwise
disjoint, `calloc` clears its payload, and a call on one allocation leaves the
content of every other one alone. -/
theorem client_contract (haligned : heap.address % 4 = 0)
    (hreach : Reachable heap s) (hstep : step heap s event = some s') :
    (∀ allocation ∈ s'.live, allocation.ptr % 4 = 0 ∧
      heap.head ≤ allocation.ptr ∧
      allocation.ptr + allocation.size ≤ heap.head + heapSize) ∧
    s'.live.Pairwise Disjoint ∧
    (∀ nmemb size, event = .calloc nmemb size →
      (nmemb = 0 ∨ (2 ^ 32 - 1) / nmemb < size) ∧ s' = s ∨
      ∃ ptr, s'.live = ⟨ptr, nmemb * size⟩ :: s.live ∧
        ∀ i < nmemb * size, s'.mem (ptr + i) = 0) ∧
    (event.IsCall → ∀ allocation ∈ s.live,
      event.argument ≠ some allocation.ptr →
        ContentKept s.mem s'.mem allocation) := by
  have hvalid := Valid.of_reachable hreach
  have hvalid' := hvalid.step hstep
  refine ⟨?_, hvalid'.disjoint, ?_, ?_⟩
  · obtain ⟨pairs, hlive, hholds, hfits⟩ := hvalid'
    intro allocation hmem
    obtain ⟨pair, hpair, rfl⟩ := List.mem_map.mp (hlive.mem_iff.mp hmem)
    obtain ⟨hptr, hsize, -⟩ := hfits pair hpair
    have hbounds := hholds.entry_bounds (List.mem_map_of_mem hpair)
    have hhead : heap.head = heap.address + 8 := rfl
    unfold payload at hptr
    omega
  · rintro nmemb size rfl
    exact (calloc_step hvalid hstep).2.2
  · intro hcall allocation hmem hother
    cases event with
    | malloc size => exact (malloc_step hvalid hstep).2 allocation hmem
    | calloc nmemb size => exact (calloc_step hvalid hstep).2.1 allocation hmem
    | free freed =>
        refine (free_step hvalid hstep).2 allocation hmem fun heq => ?_
        exact hother (by simp [Event.argument, heq])
    | realloc resized size =>
        refine (realloc_step hvalid hstep).2 allocation hmem fun heq => ?_
        exact hother (by simp [Event.argument, heq])
    | write _ _ _ => exact hcall.elim
    | elsewhere _ => exact hcall.elim

theorem client_contract_of_calloc :
    ∃ s, step sampleHeap (initialState sampleHeap) (.calloc 3 5) = some s ∧
      s.live.Pairwise Disjoint ∧
      ∃ ptr, s.live = [⟨ptr, 15⟩] ∧ ∀ i < 15, s.mem (ptr + i) = 0 := by
  have hsome : (step sampleHeap (initialState sampleHeap)
      (.calloc 3 5)).isSome = true := by decide +kernel
  obtain ⟨s, hs⟩ := Option.isSome_iff_exists.mp hsome
  have hcontract := client_contract (by decide)
    (Runs.Reachable.start (initialState_initial sampleHeap)) hs
  refine ⟨s, hs, hcontract.2.1, ?_⟩
  rcases hcontract.2.2.1 3 5 rfl with ⟨hrefused, -⟩ | hzero
  · simp at hrefused
  · exact hzero

end X86Os32.Heap
