import X86Os32.Library.Results
import X86Os32.Utils.HeapStaleHeaders

namespace X86Os32.Heap

set_option linter.style.nameCheck false

open Library Library.Results Library.Tiling

/-! Pointers that are freed once more.  A history remembers them as long as none of
their bytes is handed out again. -/

instance : Decidable (Disjoint left right) := inferInstanceAs (Decidable (_ ∨ _))

def Allocation.Contains (allocation : Allocation) (q : Nat) : Prop :=
  allocation.ptr ≤ q ∧ q < allocation.ptr + allocation.size

instance : Decidable (Allocation.Contains allocation q) :=
  inferInstanceAs (Decidable (_ ∧ _))

structure Freed where
  allocation : Allocation
  /-- The block in front was in use when this one was freed. -/
  alone : Bool
  /-- The header has been handed out since then, as a part of an allocation. -/
  covered : Bool

def Freed.block (freed : Freed) : Nat := freed.allocation.ptr - 4

/-- A pointer of which no byte is handed out again. -/
def Freed.age (live : List Allocation) (freed : Freed) : Option Freed :=
  if ∀ allocation ∈ live, Disjoint freed.allocation allocation then
    some { freed with
      covered := freed.covered ||
        decide (∃ allocation ∈ live, allocation.Contains freed.block) }
  else none

structure History where
  state : State
  freed : List Freed

namespace History

variable (heap : HeapObject)

def record (h : History) : Event → List Freed
  | .free allocation =>
      ⟨allocation, decide (¬followsFree heap h.state.mem (allocation.ptr - 4)),
        false⟩ :: h.freed
  | .malloc _ | .calloc _ _ | .realloc _ _ | .write _ _ _ | .elsewhere _ => h.freed

def step (h : History) (event : Event) : Option History := do
  let s ← Heap.step heap h.state event
  return ⟨s, (h.record heap event).filterMap (Freed.age s.live)⟩

abbrev Reachable : History → Prop :=
  Runs.Reachable (fun h => Initial heap h.state ∧ h.freed = [])
    fun h event h' => step heap h event = some h'

end History

variable {heap : HeapObject}

/-- The header of a pointer that was freed alone looks free. -/
structure Freed.Marked (heap : HeapObject) (m : Mem) (freed : Freed) : Prop where
  size_pos : 0 < freed.allocation.size
  aligned : freed.allocation.ptr % 4 = 0
  low : heap.head + 4 ≤ freed.allocation.ptr
  high : freed.allocation.ptr ≤ heap.head + heapSize
  header : freed.alone = true → freed.covered = false → isFree m freed.block

theorem Freed.age_eq_some {freed aged : Freed} :
    freed.age live = some aged ↔
      (∀ other ∈ live, Disjoint freed.allocation other) ∧
        aged = { freed with
          covered := freed.covered ||
            decide (∃ other ∈ live, other.Contains freed.block) } := by
  unfold Freed.age
  split
  · rename_i hdisjoint
    rw [Option.some.injEq, eq_comm]
    exact (and_iff_right hdisjoint).symm
  · rename_i hoverlap
    constructor
    · intro hnone
      cases hnone
    · intro hsome
      exact absurd hsome.1 hoverlap

theorem Freed.not_handedOut {freed aged : Freed} {other : Allocation}
    (haged : freed.age live = some aged) (huncovered : aged.covered = false)
    (hlow : 4 ≤ freed.allocation.ptr) (hpos : 0 < freed.allocation.size)
    (hmem : other ∈ live) (hother : 0 < other.size) :
    ¬HandedOut other.ptr other.size freed.block := by
  obtain ⟨hdisjoint, rfl⟩ := Freed.age_eq_some.mp haged
  have hapart := hdisjoint other hmem
  simp only [Bool.or_eq_false_iff, decide_eq_false_iff_not, not_exists,
    not_and] at huncovered
  have hnot := huncovered.2 other hmem
  unfold Disjoint at hapart
  unfold Allocation.Contains at hnot
  unfold HandedOut
  unfold Freed.block at *
  omega

theorem Valid.size_pos (hvalid : Valid heap s) (hmem : allocation ∈ s.live) :
    0 < allocation.size := by
  obtain ⟨block, size, rest, -, -, hfits, -⟩ := hvalid.take hmem
  exact hfits.2.2

theorem Freed.Marked.age {freed aged : Freed} (hmarked : freed.Marked heap s.mem)
    (hvalid : Valid heap s) (haligned : heap.address % 4 = 0)
    (hstep : Heap.step heap s event = some s')
    (haged : freed.age s'.live = some aged) : aged.Marked heap s'.mem := by
  have hparts := Freed.age_eq_some.mp haged
  have hhead : heap.head = heap.address + 8 := rfl
  have hlow := hmarked.low
  have hhigh := hmarked.high
  have hword := hmarked.aligned
  obtain ⟨hdisjoint, heq⟩ := hparts
  have hallocation : aged.allocation = freed.allocation := by rw [heq]
  have hblock : aged.block = freed.block := by
    unfold Freed.block
    rw [hallocation]
  refine ⟨?_, ?_, ?_, ?_, ?_⟩
  · rw [hallocation]
    exact hmarked.size_pos
  · rw [hallocation]
    exact hword
  · rw [hallocation]
    exact hlow
  · rw [hallocation]
    exact hhigh
  · intro halone huncovered
    have hbefore : isFree s.mem freed.block := by
      apply hmarked.header
      · rw [heq] at halone
        exact halone
      · rw [heq] at huncovered
        exact (Bool.or_eq_false_iff.mp huncovered).1
    have hnot : ∀ other ∈ s'.live,
        ¬HandedOut other.ptr other.size freed.block := fun other hother =>
      Freed.not_handedOut haged huncovered (by omega) hmarked.size_pos hother
        ((hvalid.step hstep).size_pos hother)
    rw [hblock]
    have hplace : freed.block + 4 = freed.allocation.ptr := by
      unfold Freed.block
      omega
    exact step_keepsFree hvalid haligned hstep (by omega) (by omega) (by omega)
      hnot hbefore

theorem marked_of_free {freed aged : Freed} (hvalid : Valid heap s)
    (haligned : heap.address % 4 = 0)
    (hstep : Heap.step heap s (.free allocation) = some s')
    (hfreed : freed = ⟨allocation,
      decide (¬followsFree heap s.mem (allocation.ptr - 4)), false⟩)
    (haged : freed.age s'.live = some aged) : aged.Marked heap s'.mem := by
  have hbounds := heap.bounds
  obtain ⟨_, hguard, hrest⟩ := Option.bind_eq_some_iff.mp hstep
  obtain ⟨m, hcall, hdone⟩ := Option.bind_eq_some_iff.mp hrest
  obtain ⟨hmem, hnull⟩ := (Option.guard_eq_some' _).mp hguard
  obtain rfl := Option.some.inj hdone
  obtain ⟨block, size, rest, -, hholds, ⟨hptr, -, hpos⟩, -⟩ := hvalid.take hmem
  have hentry := hholds.entry_bounds List.mem_cons_self
  have hhead : heap.head = heap.address + 8 := rfl
  have hblock : allocation.ptr - 4 = block := by
    rw [hptr]
    exact Nat.add_sub_cancel block 4
  dsimp only at hptr hpos hentry
  unfold payload at hptr
  obtain ⟨-, rfl⟩ := Freed.age_eq_some.mp haged
  subst hfreed
  refine ⟨hpos, ?_, ?_, ?_, ?_⟩
  · dsimp only
    omega
  · dsimp only
    omega
  · dsimp only
    omega
  · intro halone _
    rw [returned_eq_some, show allocation.ptr = payload block from hptr] at hcall
    have halone : ¬followsFree heap s.mem block := by
      rw [← hblock]
      exact of_decide_eq_true halone
    unfold Freed.block
    rw [hblock]
    refine (free_keepsFree hholds haligned ?_ hcall).2 halone
    rintro rfl
    exact hnull hptr

/-- The allocations are sound, and every freed pointer is marked. -/
def History.Marked (heap : HeapObject) (h : History) : Prop :=
  Valid heap h.state ∧ ∀ freed ∈ h.freed, freed.Marked heap h.state.mem

theorem History.Marked.step {h h' : History} (hmarked : h.Marked heap)
    (haligned : heap.address % 4 = 0) (hstep : History.step heap h event = some h') :
    h'.Marked heap := by
  obtain ⟨hvalid, hall⟩ := hmarked
  obtain ⟨s', hs', hdone⟩ := Option.bind_eq_some_iff.mp hstep
  obtain rfl := Option.some.inj hdone
  refine ⟨hvalid.step hs', ?_⟩
  intro aged hmem
  obtain ⟨freed, hfreed, haged⟩ := List.mem_filterMap.mp hmem
  have hold : freed ∈ h.freed → aged.Marked heap s'.mem := fun hin =>
    (hall freed hin).age hvalid haligned hs' haged
  cases event with
  | free allocation =>
      rcases List.mem_cons.mp hfreed with heq | hin
      · exact marked_of_free hvalid haligned hs' heq haged
      · exact hold hin
  | malloc _ => exact hold hfreed
  | calloc _ _ => exact hold hfreed
  | realloc _ _ => exact hold hfreed
  | write _ _ _ => exact hold hfreed
  | elsewhere _ => exact hold hfreed

theorem History.Reachable.marked {h : History} (hreach : History.Reachable heap h)
    (haligned : heap.address % 4 = 0) : h.Marked heap := by
  apply hreach.invariant
  · intro h hinit
    refine ⟨Valid.initial hinit.1, ?_⟩
    rw [hinit.2]
    intro freed hfreed
    cases hfreed
  · intro h event h' hmarked hstep
    exact hmarked.step haligned hstep

def zeroSize : Stop := .assertionFailed "!\"size == 0\""

def invalidPointer : Stop := .assertionFailed "!\"Invalid pointer\""

/-- The calls stop before they change anything. -/
def Rejected (heap : HeapObject) (m : Mem) (ptr : Nat) : Prop :=
  free heap m ptr = .error invalidPointer ∧
    ∀ size, realloc heap m ptr size =
      .error (if size = 0 then zeroSize else invalidPointer)

theorem rejected_of_isFree (hlow : 4 ≤ ptr) (hword : ptr < 2 ^ 32)
    (hfree : isFree m (ptr - 4)) : Rejected heap m ptr := by
  have hsub : sub32 ptr 4 = ptr - 4 := sub32_of_le hlow hword
  have hinvalid : ¬(memblockValid heap (ptr - 4) ∧ ¬isFree m (ptr - 4)) :=
    fun hpasses => hpasses.2 hfree
  have hassert : assert (memblockValid heap (ptr - 4) ∧ ¬isFree m (ptr - 4))
      "!\"Invalid pointer\"" = .error invalidPointer := if_neg hinvalid
  constructor
  · unfold free
    dsimp only
    rw [hsub, hassert, error_bind]
  · intro size
    unfold realloc
    dsimp only
    by_cases hzero : size = 0
    · rw [if_pos hzero, show assert (size ≠ 0) _ = .error zeroSize from
        if_neg (not_not.mpr hzero), error_bind]
    · rw [if_neg hzero, assert_of hzero, ok_bind, assert_of (by omega), ok_bind,
        hsub, hassert, error_bind]

theorem __free_ne_invalidPointer (heap : HeapObject) (m : Mem) (block : Nat) :
    __free heap m block ≠ .error invalidPointer := by
  have hother : ∀ {condition : Prop} [Decidable condition] {exp : String},
      exp ≠ "!\"Invalid pointer\"" →
      assert condition exp ≠ .error invalidPointer := by
    intro condition _ exp hne herror
    exact hne (Stop.assertionFailed.inj (assert_eq_error.mp herror).2)
  intro herror
  unfold __free at herror
  rcases bind_eq_error.mp herror with herror | ⟨_, -, herror⟩
  · unfold tryMerge at herror
    dsimp only at herror
    split at herror
    · rcases bind_eq_error.mp herror with herror | ⟨_, -, herror⟩
      · exact hother (by decide) herror
      rcases bind_eq_error.mp herror with herror | ⟨_, -, herror⟩
      · unfold writeSizeFields at herror
        rcases bind_eq_error.mp herror with herror | ⟨_, -, herror⟩
        · exact hother (by decide) herror
        rcases bind_eq_error.mp herror with herror | ⟨_, -, herror⟩
        · exact hother (by decide) herror
        · cases herror
      · cases herror
    · cases herror
  · unfold freeListInsert at herror
    rcases bind_eq_error.mp herror with herror | ⟨_, -, herror⟩
    · exact hother (by decide) herror
    · cases herror

theorem Rejected.isFree (hrejected : Rejected heap m (payload block))
    (hvalid : memblockValid heap block) (hword : payload block < 2 ^ 32) :
    isFree m block := by
  by_contra hused
  have hsub : sub32 (payload block) 4 = block :=
    (sub32_of_le (Nat.le_add_left 4 block) hword).trans (Nat.add_sub_cancel _ _)
  have hfree := hrejected.1
  unfold free at hfree
  dsimp only at hfree
  rw [hsub, assert_of ⟨hvalid, hused⟩, ok_bind] at hfree
  exact __free_ne_invalidPointer heap m block hfree

/-- Right after a `free`, the pointer is rejected unless the block in front was free
and took in the one of the pointer. -/
theorem rejected_after_free (hvalid : Valid heap s)
    (haligned : heap.address % 4 = 0)
    (hstep : Heap.step heap s (.free allocation) = some s') :
    Rejected heap s'.mem allocation.ptr ↔
      ¬followsFree heap s.mem (allocation.ptr - 4) := by
  have hbounds := heap.bounds
  obtain ⟨_, hguard, hrest⟩ := Option.bind_eq_some_iff.mp hstep
  obtain ⟨m, hcall, hdone⟩ := Option.bind_eq_some_iff.mp hrest
  obtain ⟨hmem, hnull⟩ := (Option.guard_eq_some' _).mp hguard
  obtain rfl := Option.some.inj hdone
  obtain ⟨block, size, rest, -, hholds, ⟨hptr, -⟩, -⟩ := hvalid.take hmem
  have hentry := hholds.entry_bounds List.mem_cons_self
  have hblock : allocation.ptr - 4 = block := by
    rw [hptr]
    exact Nat.add_sub_cancel block 4
  have hfirst : block = heap.head → getPrevious heap s.mem heap.head = 0 := by
    rintro rfl
    exact hnull hptr
  dsimp only at hptr hentry ⊢
  rw [returned_eq_some, hptr] at hcall
  rw [hblock]
  obtain ⟨blocks, nodes, hrep, hperm⟩ := hholds
  have hpointer := payload_of_block hrep.toLayout
    (hperm.mem_iff.mpr List.mem_cons_self)
  have hword : payload block < 2 ^ 32 := by
    unfold payload
    omega
  constructor
  · intro hrejected hfollows
    rw [hptr] at hrejected
    exact free_header_kept ⟨blocks, nodes, hrep, hperm⟩ hfirst hfollows hcall
      (hrejected.isFree hpointer.2.1 hword)
  · intro hfollows
    have hfree := (free_keepsFree ⟨blocks, nodes, hrep, hperm⟩ haligned hfirst
      hcall).2 hfollows
    rw [hptr]
    exact rejected_of_isFree (Nat.le_add_left 4 block) hword
      ((Nat.add_sub_cancel block 4).symm ▸ hfree)

/-- A freed pointer is rejected, as long as nothing of it is handed out, if the block
in front of it was in use when it was freed.  If that block was free, the pointer is
accepted right away. -/
theorem double_free_rejected {h : History} (haligned : heap.address % 4 = 0)
    (hreach : History.Reachable heap h) :
    (∀ freed ∈ h.freed, freed.alone = true → freed.covered = false →
      Rejected heap h.state.mem freed.allocation.ptr) ∧
    ∀ allocation h', History.step heap h (.free allocation) = some h' →
      (Rejected heap h'.state.mem allocation.ptr ↔
        ¬followsFree heap h.state.mem (allocation.ptr - 4)) := by
  have hbounds := heap.bounds
  have hmarked := hreach.marked haligned
  constructor
  · intro freed hmem halone huncovered
    have hfreed := hmarked.2 freed hmem
    have hlow := hfreed.low
    have hhigh := hfreed.high
    exact rejected_of_isFree (by omega) (by omega)
      (hfreed.header halone huncovered)
  · intro allocation h' hstep
    obtain ⟨s', hs', hdone⟩ := Option.bind_eq_some_iff.mp hstep
    obtain rfl := Option.some.inj hdone
    exact rejected_after_free hmarked.1 haligned hs'

def History.sample : History := ⟨initialState sampleHeap, []⟩

def upperFirst : List Event :=
  [.malloc 8, .malloc 8, .free ⟨3145724, 8⟩, .free ⟨3145708, 8⟩]

theorem double_free_rejected_upper :
    ∃ h, History.Reachable sampleHeap h ∧
      Rejected sampleHeap h.state.mem 3145724 := by
  have hrun : (Runs.run (History.step sampleHeap) History.sample upperFirst).map
      (fun h => h.freed.map fun freed =>
        (freed.allocation, freed.alone, freed.covered)) =
      some [(⟨3145708, 8⟩, false, false), (⟨3145724, 8⟩, true, false)] := by
    decide +kernel
  obtain ⟨h, hh, hvalues⟩ := Option.map_eq_some_iff.mp hrun
  have hreach : History.Reachable sampleHeap h :=
    (Runs.Reachable.start ⟨initialState_initial sampleHeap, rfl⟩).run hh
  have hin : ((⟨3145724, 8⟩ : Allocation), true, false) ∈ h.freed.map
      fun freed => (freed.allocation, freed.alone, freed.covered) := by
    rw [hvalues]
    simp
  obtain ⟨freed, hmem, heq⟩ := List.mem_map.mp hin
  obtain ⟨hallocation, halone, huncovered⟩ :
      freed.allocation = ⟨3145724, 8⟩ ∧ freed.alone = true ∧
        freed.covered = false := by simpa using heq
  have hrejected := (double_free_rejected (by decide) hreach).1 freed hmem halone
    huncovered
  rw [hallocation] at hrejected
  exact ⟨h, hreach, hrejected⟩

/-- The only allocation of a heap is freed, and then once more. -/
theorem double_free_accepted :
    ¬∀ h, History.Reachable sampleHeap h → ∀ freed ∈ h.freed,
      Rejected sampleHeap h.state.mem freed.allocation.ptr := by
  intro hclaim
  have hrun : (Runs.run (History.step sampleHeap) History.sample
      [.malloc 8, .free ⟨3145724, 8⟩]).any fun h => h.freed.any fun freed =>
        (returned (free sampleHeap h.state.mem freed.allocation.ptr)).isSome := by
    decide +kernel
  obtain ⟨h, hh, hany⟩ := (Option.any_eq_true _ _).mp hrun
  obtain ⟨freed, hmem, hsome⟩ := List.any_eq_true.mp hany
  have hreach : History.Reachable sampleHeap h :=
    (Runs.Reachable.start ⟨initialState_initial sampleHeap, rfl⟩).run hh
  rw [(hclaim h hreach freed hmem).1] at hsome
  cases hsome

end X86Os32.Heap
