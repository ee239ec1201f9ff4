import Mathlib.Data.Finmap
import Mathlib.Order.Lattice.Nat

namespace X86Os32.Library

/-! Memory as finitely many blocks, each a list of cells that is reached
through the pointer to the block, and what an allocator of such blocks is
documented to do. -/

abbrev Blocks (Pointer Cell : Type) : Type :=
  Finmap fun _ : Pointer => List Cell

namespace Blocks

variable {Pointer Cell : Type} [DecidableEq Pointer]

/-- What remains when the block of an owner, if it has one, is taken away. -/
def without (blocks : Blocks Pointer Cell) :
    Option Pointer → Blocks Pointer Cell
  | none => blocks
  | some pointer => blocks.erase pointer

@[simp] theorem without_none (blocks : Blocks Pointer Cell) :
    blocks.without none = blocks := rfl

@[simp] theorem without_some (blocks : Blocks Pointer Cell)
    (pointer : Pointer) :
    blocks.without (some pointer) = blocks.erase pointer := rfl

theorem without_comm (blocks : Blocks Pointer Cell)
    (owner owner' : Option Pointer) :
    (blocks.without owner).without owner' =
      (blocks.without owner').without owner := by
  cases owner with
  | none => rfl
  | some pointer =>
      cases owner' with
      | none => rfl
      | some pointer' => exact Finmap.erase_erase

theorem lookup_without_eq_some {blocks : Blocks Pointer Cell}
    {owner : Option Pointer} {pointer : Pointer} {block : List Cell} :
    (blocks.without owner).lookup pointer = some block ↔
      owner ≠ some pointer ∧ blocks.lookup pointer = some block := by
  cases owner with
  | none => simp
  | some pointer' =>
      by_cases hsame : pointer' = pointer
      · subst hsame
        simp
      · simp [hsame, Finmap.lookup_erase_ne (Ne.symm hsame)]

theorem erase_insert_of_notMem {blocks : Blocks Pointer Cell}
    {pointer : Pointer} (block : List Cell) (hnew : pointer ∉ blocks) :
    (blocks.insert pointer block).erase pointer = blocks := by
  apply Finmap.ext_lookup
  intro pointer'
  by_cases hsame : pointer' = pointer
  · subst hsame
    rw [Finmap.lookup_erase, Finmap.lookup_eq_none.mpr hnew]
  · rw [Finmap.lookup_erase_ne hsame, Finmap.lookup_insert_of_ne _ hsame]

@[simp] theorem erase_insert (blocks : Blocks Pointer Cell)
    (pointer : Pointer) (block : List Cell) :
    (blocks.insert pointer block).erase pointer = blocks.erase pointer := by
  apply Finmap.ext_lookup
  intro pointer'
  by_cases hsame : pointer' = pointer
  · subst hsame
    rw [Finmap.lookup_erase, Finmap.lookup_erase]
  · rw [Finmap.lookup_erase_ne hsame, Finmap.lookup_erase_ne hsame,
      Finmap.lookup_insert_of_ne _ hsame]

theorem insert_erase {blocks : Blocks Pointer Cell} {pointer pointer' : Pointer}
    (hne : pointer ≠ pointer') (block : List Cell) :
    (blocks.erase pointer').insert pointer block =
      (blocks.insert pointer block).erase pointer' := by
  apply Finmap.ext_lookup
  intro other
  by_cases hsame : other = pointer'
  · subst hsame
    rw [Finmap.lookup_erase, Finmap.lookup_insert_of_ne _ hne.symm,
      Finmap.lookup_erase]
  · rw [Finmap.lookup_erase_ne hsame]
    by_cases hnew : other = pointer
    · subst hnew
      rw [Finmap.lookup_insert, Finmap.lookup_insert]
    · rw [Finmap.lookup_insert_of_ne _ hnew, Finmap.lookup_insert_of_ne _ hnew,
        Finmap.lookup_erase_ne hsame]

end Blocks

/-- `malloc`, `realloc` and `free`, where the null pointer is `none`. -/
structure Allocator (Pointer Cell : Type) where
  malloc : Blocks Pointer Cell → Nat → Option Pointer × Blocks Pointer Cell
  realloc : Blocks Pointer Cell → Pointer → Nat →
    Option Pointer × Blocks Pointer Cell
  free : Blocks Pointer Cell → Pointer → Blocks Pointer Cell

/-- The allocator always has memory to give.  A new block has any content, a
resized one keeps its content up to the smaller of the two sizes, and no other
block is touched. -/
structure Allocator.Serves {Pointer Cell : Type} [DecidableEq Pointer]
    (allocator : Allocator Pointer Cell) : Prop where
  malloc (blocks : Blocks Pointer Cell) (size : Nat) (hpos : 0 < size)
    (hsize : size < 2 ^ 32) :
    ∃ pointer block,
      allocator.malloc blocks size =
        (some pointer, blocks.insert pointer block) ∧
      pointer ∉ blocks ∧ block.length = size
  realloc (blocks : Blocks Pointer Cell) (pointer : Pointer)
    (block : List Cell) (size : Nat)
    (hblock : blocks.lookup pointer = some block) (hpos : 0 < size)
    (hsize : size < 2 ^ 32) :
    ∃ pointer' block',
      allocator.realloc blocks pointer size =
        (some pointer', (blocks.erase pointer).insert pointer' block') ∧
      pointer' ∉ blocks.erase pointer ∧ block'.length = size ∧
      block'.take (min block.length size) = block.take (min block.length size)
  free (blocks : Blocks Pointer Cell) (pointer : Pointer)
    (hlive : pointer ∈ blocks) :
    allocator.free blocks pointer = blocks.erase pointer

/-- What resizing a block comes to.  The content up to the smaller of the two
sizes is handed over where `kept` holds, and no other block is touched. -/
def Blocks.Resized {Pointer Cell : Type} [DecidableEq Pointer]
    (blocks : Blocks Pointer Cell) (pointer : Pointer) (size : Nat)
    (kept : Prop) (pointer' : Pointer) (blocks' : Blocks Pointer Cell) : Prop :=
  ∃ block, blocks' = (blocks.erase pointer).insert pointer' block ∧
    pointer' ∉ blocks.erase pointer ∧ block.length = size ∧
    (kept → ∀ old, blocks.lookup pointer = some old →
      block.take (min old.length size) = old.take (min old.length size))

/-- As `Serves`, but a resized block keeps its content only where `keeps` says
so. -/
structure Allocator.ServesWhere {Pointer Cell : Type} [DecidableEq Pointer]
    (allocator : Allocator Pointer Cell)
    (keeps : Blocks Pointer Cell → Pointer → Nat → Bool) : Prop where
  malloc (blocks : Blocks Pointer Cell) (size : Nat) (hpos : 0 < size)
    (hsize : size < 2 ^ 32) :
    ∃ pointer block,
      allocator.malloc blocks size =
        (some pointer, blocks.insert pointer block) ∧
      pointer ∉ blocks ∧ block.length = size
  realloc (blocks : Blocks Pointer Cell) (pointer : Pointer) (size : Nat)
    (hlive : pointer ∈ blocks) (hpos : 0 < size) (hsize : size < 2 ^ 32) :
    ∃ pointer' blocks',
      allocator.realloc blocks pointer size = (some pointer', blocks') ∧
      blocks.Resized pointer size (keeps blocks pointer size) pointer' blocks'
  free (blocks : Blocks Pointer Cell) (pointer : Pointer)
    (hlive : pointer ∈ blocks) :
    allocator.free blocks pointer = blocks.erase pointer

namespace Allocator

def moving {Cell : Type} (unset : Cell) : Allocator Nat Cell where
  malloc blocks size :=
    let pointer := blocks.keys.sup id + 1
    (some pointer, blocks.insert pointer (List.replicate size unset))
  realloc blocks pointer size :=
    let pointer' := blocks.keys.sup id + 1
    let block := (blocks.lookup pointer).getD []
    (some pointer', (blocks.erase pointer).insert pointer'
      (block.take size ++ List.replicate (size - block.length) unset))
  free blocks pointer := blocks.erase pointer

/-- An allocator that moves each block it resizes, and loses what was in it
unless `keeps` holds. -/
def losing {Cell : Type} (unset : Cell)
    (keeps : Blocks Nat Cell → Nat → Nat → Bool) : Allocator Nat Cell :=
  { moving unset with
    realloc := fun blocks pointer size =>
      if keeps blocks pointer size then
        (moving unset).realloc blocks pointer size
      else
        let pointer' := blocks.keys.sup id + 1
        (some pointer', (blocks.erase pointer).insert pointer'
          (List.replicate size unset)) }

section Moving

variable {Cell : Type}

theorem fresh (blocks : Blocks Nat Cell) : blocks.keys.sup id + 1 ∉ blocks := by
  intro hmem
  have hle : blocks.keys.sup id + 1 ≤ blocks.keys.sup id :=
    Finset.le_sup (f := id) (Finmap.mem_keys.mpr hmem)
  omega

theorem fresh_erase (blocks : Blocks Nat Cell) (pointer : Nat) :
    blocks.keys.sup id + 1 ∉ blocks.erase pointer := by
  rw [Finmap.mem_erase]
  exact fun hmem => fresh blocks hmem.2

theorem moving_serves (unset : Cell) : (moving unset).Serves := by
  constructor
  · intro blocks size _ _
    exact ⟨_, _, rfl, fresh blocks, List.length_replicate⟩
  · intro blocks pointer block size hblock _ _
    refine ⟨_, _, rfl, fresh_erase blocks pointer, ?_, ?_⟩
    · rw [hblock, Option.getD_some, List.length_append, List.length_take,
        List.length_replicate]
      omega
    · rw [hblock, Option.getD_some, List.take_append_of_le_length]
      · rw [List.take_take]
        simp
      · simp
  · intro blocks pointer _
    rfl

end Moving

section ServesWhere

variable {Pointer Cell : Type} [DecidableEq Pointer]
  {keeps : Blocks Pointer Cell → Pointer → Nat → Bool}

theorem Serves.resized {allocator : Allocator Pointer Cell}
    (hserves : allocator.Serves) {blocks : Blocks Pointer Cell}
    {pointer : Pointer} {size : Nat} (hlive : pointer ∈ blocks)
    (hpos : 0 < size) (hsize : size < 2 ^ 32) (kept : Prop) :
    ∃ pointer' blocks',
      allocator.realloc blocks pointer size = (some pointer', blocks') ∧
      blocks.Resized pointer size kept pointer' blocks' := by
  obtain ⟨block, hblock⟩ := Finmap.mem_iff.mp hlive
  obtain ⟨pointer', block', hrealloc, hnew, hlength, hkept⟩ :=
    hserves.realloc blocks pointer block size hblock hpos hsize
  refine ⟨pointer', _, hrealloc, block', rfl, hnew, hlength, fun _ old hold => ?_⟩
  rw [hblock] at hold
  cases hold
  exact hkept

theorem losing_serves_where (unset : Cell)
    (keeps : Blocks Nat Cell → Nat → Nat → Bool) :
    (losing unset keeps).ServesWhere keeps := by
  have hserves := moving_serves unset
  refine ⟨hserves.malloc, ?_, hserves.free⟩
  intro blocks pointer size hlive hpos hsize
  cases hkeeps : keeps blocks pointer size with
  | true =>
      obtain ⟨pointer', blocks', hrealloc, hresized⟩ :=
        hserves.resized hlive hpos hsize (true = true)
      refine ⟨pointer', blocks', ?_, hresized⟩
      rw [← hrealloc]
      exact if_pos hkeeps
  | false =>
      refine ⟨_, _, ?_, _, rfl, fresh_erase blocks pointer,
        List.length_replicate (a := unset), nofun⟩
      simp [losing, hkeeps]

/-- The allocator that refuses to resize a block where its content would be
lost. -/
def strict (allocator : Allocator Pointer Cell)
    (keeps : Blocks Pointer Cell → Pointer → Nat → Bool) :
    Allocator Pointer Cell :=
  { allocator with
    realloc := fun blocks pointer size =>
      if keeps blocks pointer size then allocator.realloc blocks pointer size
      else (none, blocks) }

/-- The allocator whose resized blocks get back what they lost. -/
def restoring (allocator : Allocator Pointer Cell)
    (keeps : Blocks Pointer Cell → Pointer → Nat → Bool) :
    Allocator Pointer Cell :=
  { allocator with
    realloc := fun blocks pointer size =>
      if keeps blocks pointer size then allocator.realloc blocks pointer size
      else
        match allocator.realloc blocks pointer size with
        | (none, blocks') => (none, blocks')
        | (some pointer', blocks') =>
            let old := (blocks.lookup pointer).getD []
            let block := (blocks'.lookup pointer').getD []
            (some pointer', (blocks.erase pointer).insert pointer'
              (old.take block.length ++ block.drop old.length)) }

theorem ServesWhere.restoring_serves {allocator : Allocator Pointer Cell}
    (hserves : allocator.ServesWhere keeps) :
    (allocator.restoring keeps).Serves := by
  refine ⟨hserves.malloc, ?_, hserves.free⟩
  intro blocks pointer old size hold hpos hsize
  obtain ⟨pointer', _, hrealloc, block, rfl, hnew, hlength, hkept⟩ :=
    hserves.realloc blocks pointer size (Finmap.mem_of_lookup_eq_some hold) hpos
      hsize
  unfold restoring
  dsimp only
  split
  · next hkeeps =>
    exact ⟨pointer', block, hrealloc, hnew, hlength, hkept hkeeps old hold⟩
  · rw [hrealloc]
    simp only [hold, Option.getD_some, Finmap.lookup_insert]
    refine ⟨pointer', _, rfl, hnew, ?_, ?_⟩
    · rw [List.length_append, List.length_take, List.length_drop]
      omega
    · rw [hlength, List.take_append_of_le_length (by simp),
        List.take_take]
      congr 1
      omega

end ServesWhere

end Allocator

end X86Os32.Library
