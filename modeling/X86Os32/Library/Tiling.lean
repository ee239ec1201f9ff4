import Mathlib.Algebra.GroupWithZero.Nat
import X86Os32.Library.Ring

namespace X86Os32.Library

/-! Blocks with boundary tags that tile an interval of byte memory.  A block is
a four-byte header, its payload and a four-byte footer; the header holds the
payload size with the used bit, the footer holds the size alone. -/

namespace Tiling

structure Block where
  size : Nat
  used : Bool
deriving DecidableEq, Repr

def Block.length (block : Block) : Nat := block.size + 8

def Block.tag (block : Block) : Nat :=
  block.size + if block.used then 1 else 0

def span (blocks : List Block) : Nat := (blocks.map Block.length).sum

/-- Every block with the address of its header, the first one at `a`. -/
def locate (a : Nat) : List Block → List (Nat × Block)
  | [] => []
  | block :: rest => (a, block) :: locate (a + block.length) rest

def Tagged (m : Mem) (a : Nat) (block : Block) : Prop :=
  m.load32 a = block.tag ∧ m.load32 (a + 4 + block.size) = block.size

def Tiled (m : Mem) (a : Nat) (blocks : List Block) : Prop :=
  ∀ entry ∈ locate a blocks, Tagged m entry.1 entry.2

/-- The payload addresses of the free blocks, in address order. -/
def freeNodes (a : Nat) (blocks : List Block) : List Nat :=
  ((locate a blocks).filter fun entry => !entry.2.used).map
    fun entry => entry.1 + 4

def usedEntries (a : Nat) (blocks : List Block) : List (Nat × Block) :=
  (locate a blocks).filter fun entry => entry.2.used

def Coalesced (blocks : List Block) : Prop :=
  List.IsChain (fun left right => left.used = true ∨ right.used = true) blocks

/-- The bytes that belong to the allocator: tags and payloads of free blocks. -/
def Reserved (a : Nat) (blocks : List Block) (p : Nat) : Prop :=
  ∃ entry ∈ locate a blocks,
    (entry.1 ≤ p ∧ p < entry.1 + 4) ∨
    (entry.1 + 4 + entry.2.size ≤ p ∧ p < entry.1 + 8 + entry.2.size) ∨
    (entry.2.used = false ∧ entry.1 ≤ p ∧ p < entry.1 + entry.2.length)

def blockCount (used : Bool) (blocks : List Block) : Nat :=
  (blocks.filter fun block => block.used == used).length

def payloadBytes (used : Bool) (blocks : List Block) : Nat :=
  ((blocks.filter fun block => block.used == used).map Block.size).sum

@[simp] theorem span_nil : span [] = 0 := rfl

@[simp] theorem span_cons (block : Block) (rest : List Block) :
    span (block :: rest) = block.length + span rest := by
  simp [span]

@[simp] theorem span_append (left right : List Block) :
    span (left ++ right) = span left + span right := by
  simp [span]

@[simp] theorem locate_append (a : Nat) (left right : List Block) :
    locate a (left ++ right) =
      locate a left ++ locate (a + span left) right := by
  induction left generalizing a with
  | nil => simp [locate]
  | cons block rest ih => simp [locate, ih, Nat.add_assoc]

theorem length_le_span (blocks : List Block) : blocks.length ≤ span blocks := by
  induction blocks with
  | nil => simp
  | cons block rest ih =>
      simp only [List.length_cons, span_cons]
      unfold Block.length
      omega

theorem length_locate (a : Nat) (blocks : List Block) :
    (locate a blocks).length = blocks.length := by
  induction blocks generalizing a with
  | nil => rfl
  | cons block rest ih => simp [locate, ih]

theorem locate_range {entry : Nat × Block} (hentry : entry ∈ locate a blocks) :
    a ≤ entry.1 ∧ entry.1 + entry.2.length ≤ a + span blocks := by
  induction blocks generalizing a with
  | nil => simp [locate] at hentry
  | cons block rest ih =>
      simp only [locate, List.mem_cons] at hentry
      rw [span_cons]
      rcases hentry with rfl | hrest
      · exact ⟨Nat.le_refl _, by simp⟩
      · have := ih hrest
        omega

theorem locate_split {entry : Nat × Block} (hentry : entry ∈ locate a blocks) :
    ∃ before after, blocks = before ++ entry.2 :: after ∧
      entry.1 = a + span before := by
  induction blocks generalizing a with
  | nil => simp [locate] at hentry
  | cons block rest ih =>
      simp only [locate, List.mem_cons] at hentry
      rcases hentry with rfl | hrest
      · exact ⟨[], rest, rfl, rfl⟩
      · obtain ⟨before, after, hblocks, haddress⟩ := ih hrest
        refine ⟨block :: before, after, by simp [hblocks], ?_⟩
        rw [haddress, span_cons, Nat.add_assoc]

theorem mem_locate_split (a : Nat) (before after : List Block) (block : Block) :
    (a + span before, block) ∈ locate a (before ++ block :: after) := by
  simp [locate]

theorem locate_apart {entry other : Nat × Block}
    (hentry : entry ∈ locate a blocks) (hother : other ∈ locate a blocks) :
    entry = other ∨ entry.1 + entry.2.length ≤ other.1 ∨
      other.1 + other.2.length ≤ entry.1 := by
  induction blocks generalizing a with
  | nil => simp [locate] at hentry
  | cons block rest ih =>
      simp only [locate, List.mem_cons] at hentry hother
      rcases hentry with rfl | hentry <;> rcases hother with rfl | hother
      · exact Or.inl rfl
      · exact Or.inr (Or.inl (locate_range hother).1)
      · exact Or.inr (Or.inr (locate_range hentry).1)
      · exact ih hentry hother

theorem locate_size_mem {entry : Nat × Block}
    (hentry : entry ∈ locate a blocks) : entry.2 ∈ blocks := by
  obtain ⟨before, after, rfl, -⟩ := locate_split hentry
  simp

theorem mem_freeNodes {node : Nat} :
    node ∈ freeNodes a blocks ↔
      ∃ entry ∈ locate a blocks, entry.2.used = false ∧ node = entry.1 + 4 := by
  simp only [freeNodes, List.mem_map, List.mem_filter, Bool.not_eq_true']
  constructor
  · rintro ⟨entry, ⟨hentry, hfree⟩, rfl⟩
    exact ⟨entry, hentry, hfree, rfl⟩
  · rintro ⟨entry, hentry, hfree, rfl⟩
    exact ⟨entry, ⟨hentry, hfree⟩, rfl⟩

@[simp] theorem freeNodes_nil (a : Nat) : freeNodes a [] = [] := rfl

@[simp] theorem freeNodes_append (a : Nat) (left right : List Block) :
    freeNodes a (left ++ right) =
      freeNodes a left ++ freeNodes (a + span left) right := by
  simp [freeNodes]

@[simp] theorem freeNodes_cons_free (a size : Nat) (rest : List Block) :
    freeNodes a (⟨size, false⟩ :: rest) =
      (a + 4) :: freeNodes (a + (size + 8)) rest := by
  simp [freeNodes, locate, Block.length]

@[simp] theorem freeNodes_cons_used (a size : Nat) (rest : List Block) :
    freeNodes a (⟨size, true⟩ :: rest) = freeNodes (a + (size + 8)) rest := by
  simp [freeNodes, locate, Block.length]

theorem mem_usedEntries {entry : Nat × Block} :
    entry ∈ usedEntries a blocks ↔
      entry ∈ locate a blocks ∧ entry.2.used = true := by
  simp [usedEntries]

@[simp] theorem usedEntries_nil (a : Nat) : usedEntries a [] = [] := rfl

@[simp] theorem usedEntries_append (a : Nat) (left right : List Block) :
    usedEntries a (left ++ right) =
      usedEntries a left ++ usedEntries (a + span left) right := by
  simp [usedEntries]

@[simp] theorem usedEntries_cons_free (a size : Nat) (rest : List Block) :
    usedEntries a (⟨size, false⟩ :: rest) =
      usedEntries (a + (size + 8)) rest := by
  simp [usedEntries, locate, Block.length]

@[simp] theorem usedEntries_cons_used (a size : Nat) (rest : List Block) :
    usedEntries a (⟨size, true⟩ :: rest) =
      (a, ⟨size, true⟩) :: usedEntries (a + (size + 8)) rest := by
  simp [usedEntries, locate, Block.length]

theorem locate_pairwise (a : Nat) (blocks : List Block) :
    List.Pairwise (fun entry other : Nat × Block =>
      entry.1 + entry.2.length ≤ other.1) (locate a blocks) := by
  induction blocks generalizing a with
  | nil => exact List.Pairwise.nil
  | cons block rest ih =>
      exact List.pairwise_cons.mpr
        ⟨fun other hother => (locate_range hother).1, ih _⟩

theorem usedEntries_pairwise (a : Nat) (blocks : List Block) :
    List.Pairwise (fun entry other : Nat × Block =>
      entry.1 + entry.2.length ≤ other.1) (usedEntries a blocks) :=
  (locate_pairwise a blocks).filter _

theorem freeNodes_range (hsizes : ∀ block ∈ blocks, 8 ≤ block.size)
    {node : Nat} (hnode : node ∈ freeNodes a blocks) :
    a + 4 ≤ node ∧ node + 12 ≤ a + span blocks := by
  obtain ⟨entry, hentry, -, rfl⟩ := mem_freeNodes.mp hnode
  have hrange := locate_range hentry
  have hsize := hsizes _ (locate_size_mem hentry)
  unfold Block.length at hrange
  omega

theorem freeNodes_apart (hsizes : ∀ block ∈ blocks, 8 ≤ block.size) :
    List.Pairwise Ring.Apart (freeNodes a blocks) := by
  induction blocks generalizing a with
  | nil => simp
  | cons block rest ih =>
      have hrest : ∀ other ∈ rest, 8 ≤ other.size :=
        fun other hother => hsizes other (by simp [hother])
      have hsize := hsizes block (by simp)
      obtain ⟨size, used⟩ := block
      cases used with
      | true =>
          rw [freeNodes_cons_used]
          exact ih hrest
      | false =>
          rw [freeNodes_cons_free, List.pairwise_cons]
          refine ⟨?_, ih hrest⟩
          intro node hnode
          have := freeNodes_range hrest hnode
          unfold Ring.Apart
          omega

theorem freeNodes_off_tags (hsizes : ∀ block ∈ blocks, 8 ≤ block.size)
    {node : Nat} (hnode : node ∈ freeNodes a blocks)
    {entry : Nat × Block} (hentry : entry ∈ locate a blocks) :
    (entry.1 + 4 ≤ node ∨ node + 8 ≤ entry.1) ∧
      (entry.1 + 8 + entry.2.size ≤ node ∨
        node + 8 ≤ entry.1 + 4 + entry.2.size) := by
  obtain ⟨home, hhome, -, rfl⟩ := mem_freeNodes.mp hnode
  have hsize := hsizes _ (locate_size_mem hhome)
  have hsplit := locate_apart hentry hhome
  unfold Block.length at hsplit
  rcases hsplit with rfl | hsplit
  · omega
  · omega

theorem Tagged.sameOff (htagged : Tagged m a block)
    (hsame : Ring.SameOff nodes m m')
    (hoff : ∀ node ∈ nodes, node + 8 ≤ a ∨ a + 8 + block.size ≤ node ∨
      (a + 4 ≤ node ∧ node + 8 ≤ a + 4 + block.size)) :
    Tagged m' a block := by
  constructor
  · refine (hsame.load32 fun node hnode => ?_).trans htagged.1
    have := hoff node hnode
    omega
  · refine (hsame.load32 fun node hnode => ?_).trans htagged.2
    have := hoff node hnode
    omega

/-- A change of the tiled interval that stays inside nodes of free payloads
keeps every tag. -/
theorem Tiled.frame (htiled : Tiled m a blocks)
    (hsizes : ∀ block ∈ blocks, 8 ≤ block.size)
    (hsame : ∀ p, a ≤ p → p < a + span blocks →
      (∀ node ∈ freeNodes a blocks, p < node ∨ node + 8 ≤ p) → m' p = m p) :
    Tiled m' a blocks := by
  intro entry hentry
  obtain ⟨hheader, hfooter⟩ := htiled entry hentry
  have hrange := locate_range hentry
  unfold Block.length at hrange
  constructor
  · refine Eq.trans (Mem.load32_congr fun p hlow hhigh => ?_) hheader
    apply hsame p (by omega) (by omega)
    intro node hnode
    have := (freeNodes_off_tags hsizes hnode hentry).1
    omega
  · refine Eq.trans (Mem.load32_congr fun p hlow hhigh => ?_) hfooter
    apply hsame p (by omega) (by omega)
    intro node hnode
    have := (freeNodes_off_tags hsizes hnode hentry).2
    omega

theorem tiled_append :
    Tiled m a (left ++ right) ↔
      Tiled m a left ∧ Tiled m (a + span left) right := by
  simp only [Tiled, locate_append, List.mem_append, or_imp, forall_and]

theorem not_reserved_of_used {entry : Nat × Block}
    (hentry : entry ∈ locate a blocks) (hused : entry.2.used = true)
    {p : Nat} (hlow : entry.1 + 4 ≤ p)
    (hhigh : p < entry.1 + 4 + entry.2.size) : ¬ Reserved a blocks p := by
  rintro ⟨other, hother, hreserved⟩
  have hsplit := locate_apart hentry hother
  unfold Block.length at hsplit
  rcases hsplit with rfl | hsplit
  · rcases hreserved with h | h | ⟨hfree, -⟩
    · omega
    · omega
    · simp [hused] at hfree
  · unfold Block.length at hreserved
    omega

theorem off_node_of_not_reserved (hnot : ¬ Reserved a blocks p)
    {node : Nat} (hsizes : ∀ block ∈ blocks, 8 ≤ block.size)
    (hnode : node ∈ freeNodes a blocks) : p < node ∨ node + 8 ≤ p := by
  obtain ⟨entry, hentry, hfree, rfl⟩ := mem_freeNodes.mp hnode
  have hsize := hsizes _ (locate_size_mem hentry)
  by_contra hinside
  apply hnot
  refine ⟨entry, hentry, Or.inr (Or.inr ⟨hfree, ?_⟩)⟩
  unfold Block.length
  omega

theorem off_tags_of_not_reserved (hnot : ¬ Reserved a blocks p)
    {entry : Nat × Block} (hentry : entry ∈ locate a blocks) :
    (p < entry.1 ∨ entry.1 + 4 ≤ p) ∧
      (p < entry.1 + 4 + entry.2.size ∨ entry.1 + 8 + entry.2.size ≤ p) := by
  constructor
  · by_contra hinside
    exact hnot ⟨entry, hentry, Or.inl (by omega)⟩
  · by_contra hinside
    exact hnot ⟨entry, hentry, Or.inr (Or.inl (by omega))⟩

theorem coalesced_append :
    Coalesced (left ++ right) ↔ Coalesced left ∧ Coalesced right ∧
      ∀ last ∈ left.getLast?, ∀ first ∈ right.head?,
        last.used = true ∨ first.used = true :=
  List.isChain_append

theorem coalesced_cons :
    Coalesced (block :: rest) ↔
      (∀ first ∈ rest.head?, block.used = true ∨ first.used = true) ∧
        Coalesced rest :=
  List.isChain_cons

theorem Coalesced.neighbours (hcoalesced : Coalesced (before ++ block :: after))
    (hfree : block.used = false) :
    (∀ last ∈ before.getLast?, last.used = true) ∧
      (∀ first ∈ after.head?, first.used = true) := by
  obtain ⟨_, hright, hlinks⟩ := coalesced_append.mp hcoalesced
  constructor
  · intro last hlast
    have := hlinks last hlast block (by simp)
    simpa [hfree] using this
  · intro first hfirst
    have := (coalesced_cons.mp hright).1 first hfirst
    simpa [hfree] using this

theorem Coalesced.set_used (hcoalesced : Coalesced (before ++ block :: after))
    (hused : block'.used = true) : Coalesced (before ++ block' :: after) := by
  obtain ⟨hleft, hright, _⟩ := coalesced_append.mp hcoalesced
  refine coalesced_append.mpr ⟨hleft, coalesced_cons.mpr
    ⟨fun _ _ => Or.inl hused, (coalesced_cons.mp hright).2⟩, ?_⟩
  intro last _ first hfirst
  obtain rfl : block' = first := by simpa using hfirst
  exact Or.inr hused

theorem Coalesced.set_free (hcoalesced : Coalesced (before ++ block :: after))
    (hbefore : ∀ last ∈ before.getLast?, last.used = true)
    (hafter : ∀ first ∈ after.head?, first.used = true) :
    Coalesced (before ++ block' :: after) := by
  obtain ⟨hleft, hright, _⟩ := coalesced_append.mp hcoalesced
  refine coalesced_append.mpr ⟨hleft, coalesced_cons.mpr
    ⟨fun first hfirst => Or.inr (hafter first hfirst),
      (coalesced_cons.mp hright).2⟩, ?_⟩
  exact fun last hlast _ _ => Or.inl (hbefore last hlast)

@[simp] theorem blockCount_nil (used : Bool) : blockCount used [] = 0 := rfl

@[simp] theorem payloadBytes_nil (used : Bool) : payloadBytes used [] = 0 := rfl

theorem blockCount_cons (used : Bool) (block : Block) (rest : List Block) :
    blockCount used (block :: rest) =
      (if block.used = used then 1 else 0) + blockCount used rest := by
  unfold blockCount
  by_cases h : block.used = used
  · simp [h, Nat.add_comm]
  · simp [h]

theorem payloadBytes_cons (used : Bool) (block : Block) (rest : List Block) :
    payloadBytes used (block :: rest) =
      (if block.used = used then block.size else 0) +
        payloadBytes used rest := by
  unfold payloadBytes
  by_cases h : block.used = used
  · simp [h]
  · simp [h]

theorem payloadBytes_add_tags (blocks : List Block) :
    payloadBytes true blocks + payloadBytes false blocks +
      8 * (blockCount true blocks + blockCount false blocks) = span blocks := by
  induction blocks with
  | nil => rfl
  | cons block rest ih =>
      simp only [payloadBytes_cons, blockCount_cons, span_cons]
      unfold Block.length
      cases block.used with
      | true =>
          simp only [if_true, Bool.true_eq_false, if_false]
          omega
      | false =>
          simp only [if_true, Bool.false_eq_true, if_false]
          omega

theorem length_usedEntries (a : Nat) (blocks : List Block) :
    (usedEntries a blocks).length = blockCount true blocks := by
  induction blocks generalizing a with
  | nil => rfl
  | cons block rest ih =>
      obtain ⟨size, used⟩ := block
      cases used with
      | true => simp [blockCount_cons, ih, Nat.add_comm]
      | false => simp [blockCount_cons, ih]

theorem Coalesced.single_of_unused (hcoalesced : Coalesced (first :: rest))
    (hunused : usedEntries a (first :: rest) = []) :
    first.used = false ∧ rest = [] := by
  have hfree : ∀ block ∈ first :: rest, block.used = false := by
    have hnone : blockCount true (first :: rest) = 0 := by
      rw [← length_usedEntries a, hunused]
      rfl
    intro block hblock
    have hfiltered := List.eq_nil_of_length_eq_zero hnone
    simpa using List.filter_eq_nil_iff.mp hfiltered block hblock
  refine ⟨hfree first List.mem_cons_self, ?_⟩
  cases rest with
  | nil => rfl
  | cons second rest =>
      have hpair := (coalesced_cons.mp hcoalesced).1 second (by simp)
      simp [hfree first, hfree second] at hpair

/-- A free block that is replaced lies before or behind a used block between
used neighbours, and leaves that block where it is. -/
theorem replace_elsewhere {before after front back mid : List Block}
    (hsplit : before ++ ⟨size, true⟩ :: after =
      front ++ ⟨avail, false⟩ :: back)
    (hlast : ∀ last ∈ before.getLast?, last.used = true)
    (hhead : ∀ first ∈ after.head?, first.used = true)
    (hspan : span mid = avail + 8)
    (hmid : usedEntries (a + span front) mid = [entry]) :
    ∃ before' after', front ++ mid ++ back = before' ++ ⟨size, true⟩ :: after' ∧
      span before' = span before ∧
      (∀ last ∈ before'.getLast?, last.used = true) ∧
      (∀ first ∈ after'.head?, first.used = true) ∧
      (usedEntries a before' ++
        usedEntries (a + span before + (size + 8)) after').Perm
        ([entry] ++ (usedEntries a before ++
          usedEntries (a + span before + (size + 8)) after)) := by
  rcases List.append_eq_append_iff.mp hsplit with
    ⟨behind, rfl, hrest⟩ | ⟨behind, rfl, hrest⟩
  · cases behind with
    | nil => simp at hrest
    | cons first behind =>
        obtain ⟨rfl, rfl⟩ : first = ⟨size, true⟩ ∧
            after = behind ++ ⟨avail, false⟩ :: back := by
          simpa [eq_comm] using hrest
        refine ⟨before, behind ++ mid ++ back, by simp, rfl, hlast, ?_, ?_⟩
        · cases behind with
          | nil => simpa using hhead ⟨avail, false⟩ (by simp)
          | cons second behind => simpa using hhead
        · simp only [span_append, span_cons, Block.length, ← Nat.add_assoc]
            at hmid
          simp only [usedEntries_append, usedEntries_cons_free, span_append,
            hspan, hmid, ← Nat.add_assoc]
          rw [List.perm_iff_count]
          intro other
          simp only [List.count_append]
          omega
  · cases behind with
    | nil => simp at hrest
    | cons first behind =>
        obtain ⟨rfl, rfl⟩ : first = ⟨avail, false⟩ ∧
            back = behind ++ ⟨size, true⟩ :: after := by
          simpa [eq_comm] using hrest
        refine ⟨front ++ mid ++ behind, after, by simp, ?_, ?_, hhead, ?_⟩
        · simp [hspan, Block.length]
        · rcases List.eq_nil_or_concat behind with rfl | ⟨init, last, rfl⟩
          · simpa using hlast ⟨avail, false⟩ (by simp)
          · have hused := hlast last (by
              rw [List.concat_eq_append, ← List.cons_append,
                ← List.append_assoc]
              exact List.getLast?_concat)
            simpa using hused
        · simp only [usedEntries_append, usedEntries_cons_free, span_append,
            hspan, hmid, ← Nat.add_assoc]
          rw [List.perm_iff_count]
          intro other
          simp only [List.count_append]
          omega

end Tiling

end X86Os32.Library
