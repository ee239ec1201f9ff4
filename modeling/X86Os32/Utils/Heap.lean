import X86Os32.Debug.Assert
import X86Os32.Library.Ring
import X86Os32.Library.Word32
import X86Os32.Utils.MemUtil

namespace X86Os32.Heap

set_option linter.style.nameCheck false

open Library

/-! The boundary-tag allocator of `utils/heap.cc`.  Pointers and `size_t`
values are numbers below `2 ^ 32`; `0` is the null pointer. -/

def heapSize : Nat := 1024 * 1024 * 1

def alignment : Nat := 4

def align (val : Nat) : Nat :=
  add32 val (alignment - 1) &&& complement (alignment - 1)

def isAligned (val : Nat) : Prop := val &&& (alignment - 1) = 0

instance : Decidable (isAligned val) :=
  inferInstanceAs (Decidable (val &&& (alignment - 1) = 0))

def usedBit : Nat := 0x1

def reservedBit : Nat := 0x2

def flagBits : Nat := usedBit ||| reservedBit

/-- Header and footer of a block. -/
def memblockOverhead : Nat := 4 + 4

/-- A payload must hold a `FreelistNode`, which is two pointers. -/
def minBlockSize : Nat := max alignment 8

/-- The static object `heap`: the sentinel of the free list and behind it the
bytes of the heap, whose first block is `head`. -/
structure HeapObject where
  address : Nat
  nonnull : 0 < address
  fits : address + 8 + heapSize < 2 ^ 32

namespace HeapObject

def freeListSentinel (heap : HeapObject) : Nat := heap.address

def head (heap : HeapObject) : Nat := heap.address + 8

def minHeapPtr (heap : HeapObject) : Nat := heap.head + 4

def maxHeapPtr (heap : HeapObject) : Nat := heap.head + heapSize - 4

def minMemblockPointer (heap : HeapObject) : Nat := heap.head

def maxMemblockPointer (heap : HeapObject) : Nat :=
  heap.head + heapSize - memblockOverhead - minBlockSize

end HeapObject

variable (heap : HeapObject)

def isHeapPointer (ptr : Nat) : Prop :=
  ptr ≤ heap.maxHeapPtr ∧ ptr ≥ heap.minHeapPtr

instance : Decidable (isHeapPointer heap ptr) :=
  inferInstanceAs (Decidable (_ ∧ _))

/-- `block->mem` -/
def payload (block : Nat) : Nat := block + 4

def getSize (m : Mem) (block : Nat) : Nat :=
  m.load32 block &&& complement flagBits

def getFlags (m : Mem) (block : Nat) : Nat := m.load32 block &&& flagBits

def memblockValid (block : Nat) : Prop :=
  block ≥ heap.minMemblockPointer ∧ block ≤ heap.maxMemblockPointer

instance : Decidable (memblockValid heap block) :=
  inferInstanceAs (Decidable (_ ∧ _))

def isFree (m : Mem) (block : Nat) : Prop := m.load32 block &&& usedBit = 0

instance : Decidable (isFree m block) :=
  inferInstanceAs (Decidable (_ = _))

def markUsed (m : Mem) (block : Nat) : Mem :=
  m.store32 block (m.load32 block ||| usedBit)

def markFree (m : Mem) (block : Nat) : Mem :=
  m.store32 block (m.load32 block &&& complement usedBit)

def freeListInsert (m : Mem) (block : Nat) : Except Stop Mem := do
  assert (isFree m block) "is_free(block)"
  return Ring.insertFirst m heap.freeListSentinel (payload block)

def freeListRemove (m : Mem) (block : Nat) : Mem := Ring.unlink m (payload block)

def getBlock (freeBlock : Nat) : Nat := freeBlock - 4

def writeSizeFields (m : Mem) (block size flags : Nat) : Except Stop Mem := do
  assert (size &&& flagBits = 0) "(size & FLAG_BITS) == 0"
  assert (flags &&& complement flagBits = 0) "(flags & ~FLAG_BITS) == 0"
  let m := m.store32 block (size ||| flags)
  return m.store32 (payload block + size) size

def getNext (m : Mem) (block : Nat) : Nat :=
  let blockSize := add32 (payload block) (getSize m block)
  if getSize m block ≠ m.load32 blockSize then 0
  else
    let next := add32 blockSize 4
    if next > heap.maxMemblockPointer then 0 else next

def getPrevious (m : Mem) (block : Nat) : Nat :=
  let prevSize := sub32 block 4
  let prev := sub32 (sub32 prevSize (m.load32 prevSize)) 4
  if getSize m prev ≠ m.load32 prevSize then 0
  else if prev < heap.minMemblockPointer then 0
  else prev

/-- The first half of `try_merge`: take a free predecessor out of the free list
and start the merged block there. -/
def mergePrevious (m : Mem) (block newSize : Nat) : Mem × Nat × Nat :=
  let prev := getPrevious heap m block
  if prev ≠ 0 ∧ isFree m prev then
    let m := freeListRemove m prev
    (m, prev, add32 newSize (add32 (getSize m prev) memblockOverhead))
  else (m, block, newSize)

/-- The second half of `try_merge`: take a free successor out of the free
list. -/
def mergeNext (m : Mem) (block newSize : Nat) : Mem × Nat :=
  let next := getNext heap m block
  if next ≠ 0 ∧ isFree m next then
    let m := freeListRemove m next
    (m, add32 newSize (add32 (getSize m next) memblockOverhead))
  else (m, newSize)

def tryMerge (m : Mem) (block : Nat) : Except Stop (Mem × Nat) := do
  let origSize := getSize m block
  let (m, result, newSize) := mergePrevious heap m block origSize
  let (m, newSize) := mergeNext heap m block newSize
  if newSize ≠ origSize then
    assert (isAligned newSize) "(((size_t)new_size & (ALIGNMENT - 1)) == 0)"
    let m ← writeSizeFields m result newSize (getFlags m block)
    return (m, result)
  else return (m, result)

/-- The payload size that `maybe_split_block` cuts a request to. -/
def blockSizeFor (size : Nat) : Nat := max (align size) minBlockSize

def maybeSplitBlock (m : Mem) (block size : Nat) :
    Except Stop (Mem × Nat) := do
  let size := blockSizeFor size
  if getSize m block ≥ add32 (add32 size memblockOverhead) minBlockSize then
    let flags := getFlags m block
    let newSize := sub32 (sub32 (getSize m block) size) memblockOverhead
    assert (newSize ≥ minBlockSize) "new_size >= MIN_BLOCK_SIZE"
    let m ← writeSizeFields m block newSize 0
    let m ← freeListInsert heap m block
    let block := getNext heap m block
    assert (block ≠ 0) "block"
    let m ← writeSizeFields m block size flags
    return (m, block)
  else return (m, block)

/-- The loop of `find_free_block`.  A walk that has not met the sentinel after
as many nodes as there are addresses never meets it. -/
def findFreeBlockFrom (m : Mem) (size : Nat) : Nat → Nat → Except Stop Nat
  | 0, _ => .error .endlessLoop
  | fuel + 1, freeBlock =>
      if freeBlock = heap.freeListSentinel then .ok 0
      else if getSize m (getBlock freeBlock) ≥ size then
        .ok (getBlock freeBlock)
      else findFreeBlockFrom m size fuel (Ring.next m freeBlock)

def findFreeBlock (m : Mem) (size : Nat) : Except Stop Nat :=
  findFreeBlockFrom heap m size (2 ^ 32) (Ring.next m heap.freeListSentinel)

def __malloc (m : Mem) (size : Nat) : Except Stop (Mem × Nat) := do
  let block ← findFreeBlock heap m size
  if block = 0 then return (m, 0)
  else
    assert (isFree m block) "is_free(block)"
    let m := markUsed m block
    let m := freeListRemove m block
    maybeSplitBlock heap m block size

def malloc (m : Mem) (size : Nat) : Except Stop (Mem × Nat) := do
  assert (size ≠ 0) "!\"size == 0\""
  let (m, block) ← __malloc heap m size
  assert (isHeapPointer heap (payload block)) "is_heap_pointer(block->mem)"
  return (m, payload block)

def calloc (m : Mem) (nmemb size : Nat) : Except Stop (Mem × Nat) := do
  if nmemb > 0 ∧ size ≤ (2 ^ 32 - 1) / nmemb then
    let total := nmemb * size
    let (m, p) ← malloc heap m total
    if p ≠ 0 then return (MemUtil.memset m p 0 total, p)
    else return (m, 0)
  else return (m, 0)

def __free (m : Mem) (block : Nat) : Except Stop Mem := do
  let (m, block) ← tryMerge heap m block
  let m := markFree m block
  freeListInsert heap m block

def free (m : Mem) (ptr : Nat) : Except Stop Mem := do
  let block := sub32 ptr 4
  assert (memblockValid heap block ∧ ¬ isFree m block) "!\"Invalid pointer\""
  __free heap m block

def __realloc (m : Mem) (block size : Nat) : Except Stop (Mem × Nat) := do
  let (m, newBlock) ← tryMerge heap m block
  if getSize m newBlock < size then
    let (m, resBlock) ← __malloc heap m size
    let m := MemUtil.memcpy m (payload resBlock) (payload block) size
    let m := markFree m newBlock
    let m ← freeListInsert heap m newBlock
    return (m, resBlock)
  else
    let (m, newBlock) ← maybeSplitBlock heap m newBlock size
    if newBlock ≠ block then
      return (MemUtil.memmove m (payload newBlock) (payload block) size, newBlock)
    else return (m, newBlock)

def realloc (m : Mem) (ptr size : Nat) : Except Stop (Mem × Nat) := do
  assert (size ≠ 0) "!\"size == 0\""
  assert (ptr ≠ 0) "!\"Nullpointer\""
  let block := sub32 ptr 4
  assert (memblockValid heap block ∧ ¬ isFree m block) "!\"Invalid pointer\""
  let (m, block) ← __realloc heap m block size
  assert (isHeapPointer heap (payload block)) "is_heap_pointer(block->mem)"
  return (m, payload block)

/-- The constructor of `Heap`, run on the memory the object lies in. -/
def construct (m : Mem) : Except Stop Mem := do
  let m := m.store32 heap.freeListSentinel heap.freeListSentinel
  let m := m.store32 (heap.freeListSentinel + 4) heap.freeListSentinel
  let m ← writeSizeFields m heap.head (heapSize - memblockOverhead) 0
  freeListInsert heap m heap.head

/-- The blocks that `for (cur = block; cur; cur = get_next(cur))` visits. -/
def walk (m : Mem) : Nat → Nat → Except Stop (List Nat)
  | 0, _ => .error .endlessLoop
  | fuel + 1, block =>
      if block = 0 then .ok []
      else do
        let rest ← walk m fuel (getNext heap m block)
        return block :: rest

/-- The blocks reached from `heap.head` by `get_next`. -/
def reachedBlocks (m : Mem) : Except Stop (List Nat) := walk heap m (2 ^ 32) heap.head

end X86Os32.Heap
