import Mathlib.Data.Option.Basic
import X86Os32.Library.Runs
import X86Os32.Utils.HeapCalls

namespace X86Os32.Heap

open Library Library.Tiling

/-! Runs of the heap: any sequence of calls, of writes of clients into their own
allocations, and of changes of the memory around the heap. -/

/-- What a client holds: the pointer and the number of bytes it asked for. -/
structure Allocation where
  ptr : Nat
  size : Nat
deriving DecidableEq, Repr

structure State where
  mem : Mem
  live : List Allocation

inductive Event
  | malloc (size : Nat)
  | calloc (nmemb size : Nat)
  | free (allocation : Allocation)
  | realloc (allocation : Allocation) (size : Nat)
  | write (allocation : Allocation) (i : Nat) (byte : UInt8)
  | elsewhere (outside : Mem)

/-- The predecessor lookup on the first block, when the call makes it, yields
NULL. -/
def predecessorNull (heap : HeapObject) (m : Mem) (ptr : Nat) : Prop :=
  ptr = payload heap.head → getPrevious heap m heap.head = 0

instance : Decidable (predecessorNull heap m ptr) :=
  inferInstanceAs (Decidable (_ → _))

def returned : Except Stop α → Option α
  | .ok value => some value
  | .error _ => none

/-- `none` when the event is not permitted or the call does not return. -/
def step (heap : HeapObject) (s : State) : Event → Option State
  | .malloc size => do
      let (m, ptr) ← returned (Heap.malloc heap s.mem size)
      return ⟨m, ⟨ptr, size⟩ :: s.live⟩
  | .calloc nmemb size => do
      let (m, ptr) ← returned (Heap.calloc heap s.mem nmemb size)
      return ⟨m, if ptr = 0 then s.live else ⟨ptr, nmemb * size⟩ :: s.live⟩
  | .free allocation => do
      guard (allocation ∈ s.live ∧ predecessorNull heap s.mem allocation.ptr)
      let m ← returned (Heap.free heap s.mem allocation.ptr)
      return ⟨m, s.live.erase allocation⟩
  | .realloc allocation size => do
      guard (allocation ∈ s.live ∧ predecessorNull heap s.mem allocation.ptr)
      let (m, ptr) ← returned (Heap.realloc heap s.mem allocation.ptr size)
      return ⟨m, ⟨ptr, size⟩ :: s.live.erase allocation⟩
  | .write allocation i byte => do
      guard (allocation ∈ s.live ∧ i < allocation.size)
      return ⟨s.mem.store8 (allocation.ptr + i) byte, s.live⟩
  | .elsewhere outside =>
      some ⟨fun p => if heap.address ≤ p ∧ p < heap.head + heapSize then s.mem p
        else outside p, s.live⟩

/-- The heap object after its constructor, with nothing allocated. -/
def Initial (heap : HeapObject) (s : State) : Prop :=
  ∃ m, construct heap m = .ok s.mem ∧ s.live = []

abbrev Reachable (heap : HeapObject) : State → Prop :=
  Runs.Reachable (Initial heap) fun s event s' => step heap s event = some s'

/-- An allocation lives in a used block that is large enough. -/
def Fits (pair : Allocation × (Nat × Block)) : Prop :=
  pair.1.ptr = payload pair.2.1 ∧ pair.1.size ≤ pair.2.2.size ∧
    0 < pair.1.size

/-- The used blocks are exactly the blocks of the live allocations. -/
def Valid (heap : HeapObject) (s : State) : Prop :=
  ∃ pairs : List (Allocation × (Nat × Block)),
    s.live.Perm (pairs.map Prod.fst) ∧
    Holds heap s.mem (pairs.map Prod.snd) ∧
    ∀ pair ∈ pairs, Fits pair

variable {heap : HeapObject}

theorem construct_spec (heap : HeapObject) (m : Mem) :
    ∃ m', construct heap m = .ok m' ∧ Holds heap m' [] := by
  have hbounds := heap.bounds
  let first : Block := ⟨heapSize - memblockOverhead, false⟩
  have hoverhead : heapSize - memblockOverhead = 1048568 := rfl
  let empty := (m.store32 heap.freeListSentinel
    heap.freeListSentinel).store32 (heap.freeListSentinel + 4)
      heap.freeListSentinel
  have hring : Ring.IsRing empty heap.freeListSentinel [] := by
    refine List.isChain_cons_cons.mpr ⟨⟨?_, ?_⟩, List.isChain_singleton _⟩
    · exact Mem.load32_store32 _ _ (by omega)
    · exact (Mem.load32_store32_of_disjoint _ (by omega)).trans
        (Mem.load32_store32 _ _ (by omega))
  have hwrite : writeSizeFields empty heap.head first.size 0 =
      .ok (withTags empty heap.head first) :=
    writeSizeFields_eq empty heap.head first (by simp [first, hoverhead]) rfl
  have htagged := withTags_tagged empty heap.head first
    (by simp [first, hoverhead])
  have hringTagged : Ring.IsRing (withTags empty heap.head first)
      heap.freeListSentinel [] := by
    refine hring.congr fun node hnode p hlow hhigh => ?_
    obtain rfl : node = heap.freeListSentinel := by simpa using hnode
    exact withTags_outside (by omega) (by omega)
  have hapart : List.Pairwise Ring.Apart
      [heap.freeListSentinel, heap.head + 4] := by
    simp [Ring.Apart]
    omega
  have hsentinel := (List.pairwise_cons.mp hapart).1 (heap.head + 4) (by simp)
  refine ⟨Ring.insertFirst (withTags empty heap.head first)
    heap.freeListSentinel (heap.head + 4), ?_, [first], [heap.head + 4],
    ⟨⟨?_, ?_, ?_, ?_⟩, ?_, ?_, ?_⟩, ?_⟩
  · unfold construct
    dsimp only
    rw [hwrite, ok_bind]
    exact freeListInsert_of_isFree
      ((isFree_of_tagged htagged (by simp [first, hoverhead])).mpr rfl)
  · simp only [first, span_cons, span_nil, Block.length, hoverhead]
    omega
  · simp [first, hoverhead]
  · simp [first, hoverhead]
  · intro entry hentry
    obtain rfl : entry = (heap.head, first) := by simpa [locate] using hentry
    refine insertFirst_tagged hringTagged hsentinel (by simp [first, hoverhead])
      (fun node hnode => ?_) htagged
    obtain rfl : node = heap.freeListSentinel := by simpa using hnode
    omega
  · exact List.isChain_singleton _
  · exact hringTagged.insertFirst hapart (by omega) (by omega)
  · simp [first]
  · simp [first]

def sampleHeap : HeapObject := ⟨0x200000, by decide, by decide⟩

def constructed (heap : HeapObject) : Mem :=
  (returned (construct heap fun _ => 0)).getD fun _ => 0

def initialState (heap : HeapObject) : State := ⟨constructed heap, []⟩

theorem construct_constructed (heap : HeapObject) :
    construct heap (fun _ => 0) = .ok (constructed heap) := by
  obtain ⟨m, hconstruct, -⟩ := construct_spec heap fun _ => 0
  unfold constructed
  rw [hconstruct]
  rfl

theorem initialState_initial (heap : HeapObject) :
    Initial heap (initialState heap) :=
  ⟨_, construct_constructed heap, rfl⟩

theorem Valid.initial (hinit : Initial heap s) : Valid heap s := by
  obtain ⟨m, hconstruct, hlive⟩ := hinit
  obtain ⟨m', hconstruct', hholds⟩ := construct_spec heap m
  obtain rfl : m' = s.mem := by
    rw [hconstruct'] at hconstruct
    exact Except.ok.inj hconstruct
  exact ⟨[], by simp [hlive], hholds, by simp⟩

theorem Valid.take (hvalid : Valid heap s) (hmem : allocation ∈ s.live) :
    ∃ block size, ∃ rest : List (Allocation × (Nat × Block)),
      (s.live.erase allocation).Perm (rest.map Prod.fst) ∧
      Holds heap s.mem ((block, ⟨size, true⟩) :: rest.map Prod.snd) ∧
      Fits (allocation, (block, ⟨size, true⟩)) ∧ ∀ pair ∈ rest, Fits pair := by
  obtain ⟨pairs, hlive, hholds, hfits⟩ := hvalid
  obtain ⟨⟨held, block, size, used⟩, hpair, hheld⟩ :=
    List.mem_map.mp (hlive.mem_iff.mp hmem)
  obtain rfl : held = allocation := hheld
  obtain ⟨before, after, rfl⟩ := List.append_of_mem hpair
  obtain rfl : used = true := by
    obtain ⟨blocks, nodes, -, hentries⟩ := hholds
    exact (mem_usedEntries.mp (hentries.mem_iff.mpr
      (List.mem_map_of_mem hpair))).2
  have hsplit : (before ++ (held, block, ⟨size, true⟩) :: after).Perm
      ((held, block, ⟨size, true⟩) :: (before ++ after)) := List.perm_middle
  refine ⟨block, size, before ++ after, ?_, hholds.perm (hsplit.map Prod.snd),
    hfits _ hpair, fun pair hmem => hfits pair ?_⟩
  · have herased := (hlive.trans (hsplit.map Prod.fst)).erase held
    simpa using herased
  · exact hsplit.mem_iff.mpr (List.mem_cons_of_mem _ hmem)

theorem Valid.give {rest : List (Allocation × (Nat × Block))}
    (hlive : live.Perm (rest.map Prod.fst))
    (hholds : Holds heap m ((block, ⟨part, true⟩) :: rest.map Prod.snd))
    (hrest : ∀ pair ∈ rest, Fits pair) (hpart : size ≤ part)
    (hsize : 0 < size) : Valid heap ⟨m, ⟨payload block, size⟩ :: live⟩ := by
  refine ⟨(⟨payload block, size⟩, (block, ⟨part, true⟩)) :: rest,
    hlive.cons _, hholds, ?_⟩
  intro pair hpair
  rcases List.mem_cons.mp hpair with rfl | hpair
  · exact ⟨rfl, hpart, hsize⟩
  · exact hrest pair hpair

def ContentKept (m m' : Mem) (allocation : Allocation) : Prop :=
  ∀ i < allocation.size,
    m' (allocation.ptr + i) = m (allocation.ptr + i)

theorem ContentKept.of_payload {rest : List (Allocation × (Nat × Block))}
    (hrest : ∀ pair ∈ rest, Fits pair)
    (hkept : ∀ entry ∈ rest.map Prod.snd, PayloadKept m m' entry)
    (hmem : allocation ∈ rest.map Prod.fst) : ContentKept m m' allocation := by
  obtain ⟨pair, hpair, rfl⟩ := List.mem_map.mp hmem
  obtain ⟨hptr, hsize, -⟩ := hrest pair hpair
  intro i hi
  unfold payload at hptr
  exact hkept _ (List.mem_map_of_mem hpair) _ (by omega) (by omega)

theorem returned_eq_some {call : Except Stop α} :
    returned call = some value ↔ call = .ok value := by
  cases call <;> simp [returned]

theorem malloc_step (hvalid : Valid heap s)
    (hstep : step heap s (.malloc size) = some s') :
    Valid heap s' ∧ ∀ allocation ∈ s.live,
      ContentKept s.mem s'.mem allocation := by
  obtain ⟨⟨m, ptr⟩, hcall, hdone⟩ := Option.bind_eq_some_iff.mp hstep
  rw [returned_eq_some] at hcall
  obtain rfl := Option.some.inj hdone
  obtain ⟨pairs, hlive, hholds, hfits⟩ := hvalid
  have hsize : size ≠ 0 := by
    rintro rfl
    simp [Heap.malloc, assert] at hcall
  rcases malloc_spec hholds hsize with
    hfailed | ⟨m', block, part, hok, hholds', hpart, hkept⟩
  · simp [hfailed] at hcall
  · obtain ⟨rfl, rfl⟩ : m' = m ∧ payload block = ptr := by
      simpa [hok] using hcall
    refine ⟨Valid.give hlive hholds' hfits hpart (by omega), ?_⟩
    exact fun allocation hmem =>
      ContentKept.of_payload hfits hkept (hlive.mem_iff.mp hmem)

theorem calloc_step (hvalid : Valid heap s)
    (hstep : step heap s (.calloc nmemb size) = some s') :
    Valid heap s' ∧ (∀ allocation ∈ s.live,
      ContentKept s.mem s'.mem allocation) ∧
      ((nmemb = 0 ∨ (2 ^ 32 - 1) / nmemb < size) ∧ s' = s ∨
        ∃ ptr, s'.live = ⟨ptr, nmemb * size⟩ :: s.live ∧
          ∀ i < nmemb * size, s'.mem (ptr + i) = 0) := by
  obtain ⟨⟨m, ptr⟩, hcall, hdone⟩ := Option.bind_eq_some_iff.mp hstep
  rw [returned_eq_some] at hcall
  obtain rfl := Option.some.inj hdone
  have hnonzero : nmemb * size ≠ 0 ∨ nmemb = 0 ∨
      (2 ^ 32 - 1) / nmemb < size := by
    by_contra hzero
    simp only [not_or, not_not, not_lt] at hzero
    unfold Heap.calloc at hcall
    rw [if_pos ⟨Nat.pos_of_ne_zero hzero.2.1, hzero.2.2⟩] at hcall
    simp [hzero.1, Heap.malloc, assert] at hcall
  obtain ⟨pairs, hlive, hholds, hfits⟩ := hvalid
  rcases calloc_spec hholds hnonzero with
    hfailed | ⟨hrefused, hnull⟩ | ⟨m', block, part, hok, hholds', hpart, hzero,
      hkept⟩
  · simp [hfailed] at hcall
  · obtain ⟨rfl, rfl⟩ : s.mem = m ∧ 0 = ptr := by
      simpa [hnull] using hcall
    exact ⟨⟨pairs, hlive, hholds, hfits⟩, fun _ _ _ _ => rfl,
      Or.inl ⟨hrefused, rfl⟩⟩
  · obtain ⟨rfl, rfl⟩ : m' = m ∧ payload block = ptr := by
      simpa [hok] using hcall
    have hne : payload block ≠ 0 := by
      unfold payload
      omega
    have hsize : 0 < nmemb * size := by
      rcases hnonzero with hnonzero | hrefused
      · omega
      · have hempty : ¬ (nmemb > 0 ∧ size ≤ (2 ^ 32 - 1) / nmemb) := by omega
        have hreturned : Heap.calloc heap s.mem nmemb size = .ok (s.mem, 0) := by
          unfold Heap.calloc
          rw [if_neg hempty]
          rfl
        rw [hreturned] at hok
        simp only [Except.ok.injEq, Prod.mk.injEq] at hok
        exact absurd hok.2.symm hne
    simp only [if_neg hne]
    exact ⟨Valid.give hlive hholds' hfits hpart hsize,
      fun allocation hmem =>
        ContentKept.of_payload hfits hkept (hlive.mem_iff.mp hmem),
      Or.inr ⟨_, rfl, hzero⟩⟩

theorem free_step (hvalid : Valid heap s)
    (hstep : step heap s (.free allocation) = some s') :
    Valid heap s' ∧ ∀ other ∈ s.live, other.ptr ≠ allocation.ptr →
      ContentKept s.mem s'.mem other := by
  obtain ⟨_, hguard, hrest⟩ := Option.bind_eq_some_iff.mp hstep
  obtain ⟨m, hcall, hdone⟩ := Option.bind_eq_some_iff.mp hrest
  obtain ⟨hmem, hnull⟩ := (Option.guard_eq_some' _).mp hguard
  rw [returned_eq_some] at hcall
  obtain rfl := Option.some.inj hdone
  obtain ⟨block, size, rest, hlive, hholds, ⟨hptr, -⟩, hfits⟩ :=
    hvalid.take hmem
  dsimp only at hptr
  obtain ⟨m', hok, hholds', hkept⟩ := free_spec hholds (by
    rintro rfl
    exact hnull hptr)
  obtain rfl : m' = m := by simpa [hptr, hok] using hcall
  refine ⟨⟨rest, hlive, hholds', hfits⟩, fun other hother hne => ?_⟩
  refine ContentKept.of_payload hfits hkept (hlive.mem_iff.mp ?_)
  exact (List.mem_erase_of_ne (by rintro rfl; exact hne rfl)).mpr hother

theorem realloc_step (hvalid : Valid heap s)
    (hstep : step heap s (.realloc allocation size) = some s') :
    Valid heap s' ∧ ∀ other ∈ s.live, other.ptr ≠ allocation.ptr →
      ContentKept s.mem s'.mem other := by
  obtain ⟨_, hguard, hrest⟩ := Option.bind_eq_some_iff.mp hstep
  obtain ⟨⟨m, ptr⟩, hcall, hdone⟩ := Option.bind_eq_some_iff.mp hrest
  obtain ⟨hmem, hnull⟩ := (Option.guard_eq_some' _).mp hguard
  rw [returned_eq_some] at hcall
  obtain rfl := Option.some.inj hdone
  have hsize : size ≠ 0 := by
    rintro rfl
    simp [Heap.realloc, assert] at hcall
  obtain ⟨block, old, rest, hlive, hholds, ⟨hptr, -⟩, hfits⟩ :=
    hvalid.take hmem
  dsimp only at hptr
  rw [hptr] at hcall
  rcases realloc_spec hholds (by rintro rfl; exact hnull hptr) hsize with
    hfailed | ⟨m', res, part, hok, hholds', hpart, hkept⟩
  · simp [hfailed] at hcall
  · obtain ⟨rfl, rfl⟩ : m' = m ∧ payload res = ptr := by
      simpa [hok] using hcall
    refine ⟨Valid.give hlive hholds' hfits hpart (by omega),
      fun other hother hne => ?_⟩
    refine ContentKept.of_payload hfits hkept (hlive.mem_iff.mp ?_)
    exact (List.mem_erase_of_ne (by rintro rfl; exact hne rfl)).mpr hother

theorem write_step (hvalid : Valid heap s)
    (hstep : step heap s (.write allocation i byte) = some s') :
    Valid heap s' := by
  obtain ⟨_, hguard, hdone⟩ := Option.bind_eq_some_iff.mp hstep
  obtain ⟨hmem, hi⟩ := (Option.guard_eq_some' _).mp hguard
  obtain rfl := Option.some.inj hdone
  obtain ⟨pairs, hlive, hholds, hfits⟩ := hvalid
  refine ⟨pairs, hlive, hholds.congr fun p hlow hhigh hoff => ?_, hfits⟩
  obtain ⟨pair, hpair, rfl⟩ := List.mem_map.mp (hlive.mem_iff.mp hmem)
  obtain ⟨hptr, hsize, -⟩ := hfits pair hpair
  have := hoff _ (List.mem_map_of_mem hpair)
  unfold payload at hptr
  exact Mem.store8_of_ne _ (by omega)

theorem elsewhere_step (hvalid : Valid heap s)
    (hstep : step heap s (.elsewhere outside) = some s') : Valid heap s' := by
  obtain rfl := Option.some.inj hstep
  obtain ⟨pairs, hlive, hholds, hfits⟩ := hvalid
  refine ⟨pairs, hlive, hholds.congr fun p hlow hhigh _ => ?_, hfits⟩
  simp [hlow, hhigh]

theorem Valid.step (hvalid : Valid heap s)
    (hstep : step heap s event = some s') : Valid heap s' := by
  cases event with
  | malloc size => exact (malloc_step hvalid hstep).1
  | calloc nmemb size => exact (calloc_step hvalid hstep).1
  | free allocation => exact (free_step hvalid hstep).1
  | realloc allocation size => exact (realloc_step hvalid hstep).1
  | write allocation i byte => exact write_step hvalid hstep
  | elsewhere outside => exact elsewhere_step hvalid hstep

theorem Valid.of_reachable (hreach : Reachable heap s) : Valid heap s :=
  hreach.invariant (fun _ hinit => Valid.initial hinit)
    fun _ _ _ hvalid hstep => hvalid.step hstep

end X86Os32.Heap
