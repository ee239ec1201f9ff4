import X86Os32.Library.Results
import X86Os32.Utils.HeapContract

namespace X86Os32.Heap

open Library Library.Results Library.Tiling

/-! Words that the allocator has given up: what was the header of a block and lies
inside of a merged one now.  The calls never set the used bit of such a word. -/

set_option linter.style.nameCheck false

/-- Wherever a word looks like the header of a free block it still does, except at
the excluded places. -/
def KeepsFree (excluded : Nat → Prop) (m m' : Mem) : Prop :=
  ∀ q, q % 4 = 0 → ¬excluded q → isFree m q → isFree m' q

abbrev Nowhere (_ : Nat) : Prop := False

theorem isFree_iff_even : isFree m q ↔ (m q).toNat % 2 = 0 := by
  unfold isFree
  rw [and_usedBit]
  unfold Mem.load32
  omega

theorem isFree_congr (hsame : m' q = m q) : isFree m' q ↔ isFree m q := by
  rw [isFree_iff_even, isFree_iff_even, hsame]

theorem isFree_of_even (heven : m.load32 q % 2 = 0) : isFree m q := by
  unfold isFree
  rw [and_usedBit]
  exact heven

theorem KeepsFree.refl (excluded : Nat → Prop) (m : Mem) :
    KeepsFree excluded m m := fun _ _ _ hfree => hfree

theorem KeepsFree.trans (hfirst : KeepsFree excluded m m')
    (hsecond : KeepsFree excluded m' m'') : KeepsFree excluded m m'' :=
  fun q hq hnot hfree => hsecond q hq hnot (hfirst q hq hnot hfree)

theorem KeepsFree.mono (hkeeps : KeepsFree excluded m m')
    (himp : ∀ q, excluded q → excluded' q) : KeepsFree excluded' m m' :=
  fun q hq hnot => hkeeps q hq fun hexcluded => hnot (himp q hexcluded)

theorem keepsFree_of_same (hsame : ∀ q, ¬excluded q → m' q = m q) :
    KeepsFree excluded m m' :=
  fun q _ hnot hfree => (isFree_congr (hsame q hnot)).mpr hfree

theorem store32_keepsFree (m : Mem) (v : Nat) (ha : a % 4 = 0) :
    KeepsFree (fun q => q = a) m (m.store32 a v) := by
  intro q hq hne hfree
  exact (isFree_congr (Mem.store32_outside v (by omega))).mpr hfree

theorem isFree_store32 (m : Mem) (a : Nat) (hv : v % 2 = 0) :
    isFree (m.store32 a v) a := by
  rw [isFree_iff_even]
  simp only [Mem.store32, if_true, UInt8.toNat_ofNat']
  omega

theorem store32_even_keepsFree (m : Mem) (ha : a % 4 = 0) (hv : v % 2 = 0) :
    KeepsFree Nowhere m (m.store32 a v) := by
  intro q hq _ hfree
  by_cases heq : q = a
  · rw [heq]
    exact isFree_store32 m a hv
  · exact store32_keepsFree m v ha q hq heq hfree

theorem withTags_keepsFree {block : Block} (m : Mem) (ha : a % 4 = 0)
    (hsize : block.size % 4 = 0) :
    KeepsFree (fun q => q = a) m (withTags m a block) := by
  apply (store32_keepsFree m block.tag ha).trans
  exact (store32_even_keepsFree _ (by omega) (by omega)).mono
    fun _ hnowhere => hnowhere.elim

theorem markFree_keepsFree (m : Mem) (ha : a % 4 = 0) :
    KeepsFree Nowhere m (markFree m a) := by
  unfold markFree
  apply store32_even_keepsFree m ha
  rw [and_complement_usedBit (m.load32_lt a)]
  omega

theorem isFree_of_ring (hring : Ring.IsRing m sentinel nodes)
    (haligned : ∀ node ∈ sentinel :: nodes, node % 4 = 0)
    (hnode : node ∈ sentinel :: nodes) (hq : q % 4 = 0)
    (hin : node ≤ q ∧ q < node + 8) : isFree m q := by
  obtain ⟨hprev, hnext⟩ := hring.pointers hnode
  have hmod := haligned node hnode
  have hmodPrev := haligned _ hprev
  have hmodNext := haligned _ hnext
  apply isFree_of_even
  by_cases hfirst : q = node
  · rw [hfirst]
    unfold Ring.prev at hmodPrev
    omega
  · obtain rfl : q = node + 4 := by omega
    unfold Ring.next at hmodNext
    omega

theorem keepsFree_of_ring (hring : Ring.IsRing m' sentinel nodes)
    (haligned : ∀ node ∈ sentinel :: nodes, node % 4 = 0)
    (hsame : Ring.SameOff (sentinel :: nodes) m m') : KeepsFree Nowhere m m' := by
  intro q hq _ hfree
  by_cases hin : ∃ node ∈ sentinel :: nodes, node ≤ q ∧ q < node + 8
  · obtain ⟨node, hnode, hin⟩ := hin
    exact isFree_of_ring hring haligned hnode hq hin
  · refine (isFree_congr (hsame q ?_)).mpr hfree
    intro node hnode
    by_contra hoff
    exact hin ⟨node, hnode, by omega⟩

/-! ### The building blocks -/

section

variable {heap : HeapObject}

theorem Layout.aligned (hlayout : Layout heap m (before ++ block :: after))
    (haligned : heap.address % 4 = 0) : (heap.head + span before) % 4 = 0 := by
  have hmod := span_mod fun block hblock =>
    hlayout.size_mod block (List.mem_append_left _ hblock)
  unfold HeapObject.head
  omega

theorem Represents.nodes_aligned (hrep : Represents heap m blocks nodes)
    (haligned : heap.address % 4 = 0) :
    ∀ node ∈ heap.freeListSentinel :: nodes, node % 4 = 0 := by
  intro node hnode
  rcases List.mem_cons.mp hnode with rfl | hnode
  · exact haligned
  · obtain ⟨entry, hentry, -, rfl⟩ :=
      mem_freeNodes.mp (hrep.nodes_perm.mem_iff.mp hnode)
    obtain ⟨before, after, rfl, haddress⟩ := locate_split hentry
    have hmod := hrep.toLayout.aligned haligned
    omega

theorem tryMerge_keepsFree
    (hrep : Represents heap m (before ++ ⟨size, true⟩ :: after) nodes)
    (haligned : heap.address % 4 = 0)
    (hfirst : before = [] → getPrevious heap m heap.head = 0)
    (hmerge : tryMerge heap m (heap.head + span before) = .ok (m', res)) :
    KeepsFree (fun q => q = res) m m' := by
  obtain ⟨m1, nodes1, m2, nodes2, before', left, right, after', rfl, rfl, hleft,
    hright, -, -, hcall, hlayout, hring1, hsame1, hring2, hsame2, hperm1,
    hperm2⟩ := tryMerge_eq hrep hfirst
  have hall := hrep.nodes_aligned haligned
  have hall1 : ∀ node ∈ heap.freeListSentinel :: nodes1, node % 4 = 0 := by
    intro node hnode
    apply hall
    exact (List.mem_cons.mp hnode).elim (fun heq => heq ▸ List.mem_cons_self)
      fun hmem => List.mem_cons_of_mem _
        (hperm1.mem_iff.mpr (List.mem_append_right _ hmem))
  have hall2 : ∀ node ∈ heap.freeListSentinel :: nodes2, node % 4 = 0 := by
    intro node hnode
    apply hall1
    exact (List.mem_cons.mp hnode).elim (fun heq => heq ▸ List.mem_cons_self)
      fun hmem => List.mem_cons_of_mem _
        (hperm2.mem_iff.mpr (List.mem_append_right _ hmem))
  have hunlinked : KeepsFree Nowhere m m2 :=
    (keepsFree_of_ring hring1 hall1 hsame1).trans
      (keepsFree_of_ring hring2 hall2 hsame2)
  have hresult : KeepsFree (fun q => q = res) m m2 :=
    hunlinked.mono fun _ hnowhere => hnowhere.elim
  rw [hcall] at hmerge
  split at hmerge
  · obtain ⟨rfl, rfl⟩ := Prod.mk.inj (Except.ok.inj hmerge)
    exact hresult
  · obtain ⟨rfl, rfl⟩ := Prod.mk.inj (Except.ok.inj hmerge)
    apply hresult.trans
    have hmodLeft := hleft.span_mod fun block hblock =>
      hrep.size_mod block (by simp [hblock])
    have hmodRight := hright.span_mod fun block hblock =>
      hrep.size_mod block (by simp [hblock])
    have hmid := hrep.mid_bounds
    have hstart : (heap.head + span before') % 4 = 0 := by
      have hhere := hlayout.aligned haligned
      rw [span_append] at hhere
      omega
    exact withTags_keepsFree m2 hstart (by dsimp only at hmid ⊢; omega)

theorem Represents.ring_store_header
    (hrep : Represents heap m (before ++ block :: after) nodes) (v : Nat) :
    Ring.IsRing (m.store32 (heap.head + span before) v) heap.freeListSentinel
      nodes := by
  have hbounds := heap.bounds
  refine hrep.ring.congr fun node hnode p hlow hhigh => Mem.store32_outside v ?_
  rcases List.mem_cons.mp hnode with rfl | hmem
  · omega
  · have hoff := freeNodes_off_tags hrep.size_ge
      (hrep.nodes_perm.mem_iff.mp hmem)
      (mem_locate_split heap.head before after block)
    dsimp only at hoff
    omega

theorem release_keepsFree
    (hrep : Represents heap m (before ++ ⟨size, true⟩ :: after) nodes)
    (haligned : heap.address % 4 = 0)
    (hbefore : ∀ last ∈ before.getLast?, last.used = true)
    (hafter : ∀ first ∈ after.head?, first.used = true)
    (hinsert : freeListInsert heap (markFree m (heap.head + span before))
      (heap.head + span before) = .ok m') :
    KeepsFree Nowhere m m' ∧ isFree m' (heap.head + span before) := by
  have hbounds := heap.bounds
  obtain ⟨m1, hinsert1, hrep', -⟩ := release_spec hrep hbefore hafter
  obtain rfl : m1 = m' := Except.ok.inj (hinsert1.symm.trans hinsert)
  refine ⟨?_, hrep'.toLayout.isFree_iff.mpr rfl⟩
  have hring : Ring.IsRing (markFree m (heap.head + span before))
      heap.freeListSentinel nodes := hrep.ring_store_header _
  have hm1 : m1 = Ring.insertFirst (markFree m (heap.head + span before))
      heap.freeListSentinel (payload (heap.head + span before)) := by
    unfold freeListInsert at hinsert1
    rw [assert_of (isFree_markFree _ _)] at hinsert1
    exact (Except.ok.inj hinsert1).symm
  apply (markFree_keepsFree m (hrep.toLayout.aligned haligned)).trans
  apply keepsFree_of_ring hrep'.ring (hrep'.nodes_aligned haligned)
  intro p hoff
  rw [hm1]
  apply hring.insertFirst_off _ hoff
  unfold Ring.Apart
  omega

theorem claim_keepsFree
    (hrep : Represents heap m (before ++ ⟨size, false⟩ :: after) nodes)
    (haligned : heap.address % 4 = 0) :
    KeepsFree (fun q => q = heap.head + span before) m
      (freeListRemove (markUsed m (heap.head + span before))
        (heap.head + span before)) := by
  have hring : Ring.IsRing (markUsed m (heap.head + span before))
      heap.freeListSentinel nodes := hrep.ring_store_header _
  have hmem : payload (heap.head + span before) ∈ nodes := by
    rw [hrep.nodes_perm.mem_iff]
    simp [payload]
  obtain ⟨rest, hunlinked, hperm, hsame⟩ := hring.unlink_mem hrep.apart hmem
  apply (store32_keepsFree m _ (hrep.toLayout.aligned haligned)).trans
  refine (keepsFree_of_ring hunlinked ?_ hsame).mono
    fun _ hnowhere => hnowhere.elim
  intro node hnode
  apply hrep.nodes_aligned haligned
  exact (List.mem_cons.mp hnode).elim (fun heq => heq ▸ List.mem_cons_self)
    fun hmem => List.mem_cons_of_mem _
      (hperm.mem_iff.mpr (List.mem_cons_of_mem _ hmem))

theorem split_keepsFree
    (hrep : Represents heap m (before ++ ⟨size, true⟩ :: after) nodes)
    (haligned : heap.address % 4 = 0)
    (hbefore : ∀ last ∈ before.getLast?, last.used = true)
    (hfits : request ≤ size)
    (hsplit : maybeSplitBlock heap m (heap.head + span before) request =
      .ok (m', res)) :
    KeepsFree (fun q => q = res) m m' ∧
      (res = heap.head + span before ∨ isFree m' (heap.head + span before)) := by
  have hbounds := heap.bounds
  have hmid := hrep.mid_bounds
  dsimp only at hmid
  have hcut : blockSizeFor request = _ := blockSizeFor_eq (by omega)
  by_cases hroom : blockSizeFor request + 16 ≤ size
  · obtain ⟨m1, hsplit1, hrep', -, hframe⟩ :=
      split_spec hrep hbefore (by omega) hroom
    obtain ⟨rfl, rfl⟩ := Prod.mk.inj (Except.ok.inj (hsplit1.symm.trans hsplit))
    have hstart := hrep.toLayout.aligned haligned
    have hnodes := hrep'.nodes_aligned haligned
    have hrest := hrep'.toLayout.isFree_iff.mpr rfl
    have hfooter := hrep'.toLayout.tagged.2
    have hmod := hrep'.mid_bounds.2.2
    have hpart : Tagged m1 (heap.head + span before + (size -
        blockSizeFor request)) ⟨blockSizeFor request, true⟩ := by
      have hlayout : Layout heap m1 ((before ++
          [⟨size - blockSizeFor request - 8, false⟩]) ++
            ⟨blockSizeFor request, true⟩ :: after) := by
        simpa using hrep'.toLayout
      have hplace : heap.head + span (before ++
          [(⟨size - blockSizeFor request - 8, false⟩ : Block)]) =
          heap.head + span before + (size - blockSizeFor request) := by
        simp only [span_append, span_cons, span_nil]
        unfold Block.length
        dsimp only
        omega
      rw [← hplace]
      exact hlayout.tagged
    refine ⟨?_, Or.inr hrest⟩
    intro q hq hne hfree
    by_cases hnode : ∃ node ∈ heap.freeListSentinel ::
        (heap.head + span before + 4) :: nodes, node ≤ q ∧ q < node + 8
    · obtain ⟨node, hnode, hin⟩ := hnode
      exact isFree_of_ring hrep'.ring hnodes hnode hq hin
    have hoff : ∀ node ∈ heap.freeListSentinel ::
        (heap.head + span before + 4) :: nodes, q < node ∨ node + 8 ≤ q := by
      intro node hmem
      by_contra hin
      exact hnode ⟨node, hmem, by omega⟩
    by_cases hheader : q = heap.head + span before
    · rw [hheader]
      exact hrest
    by_cases hrestFooter : q = heap.head + span before + 4 +
        (size - blockSizeFor request - 8)
    · apply isFree_of_even
      rw [hrestFooter, hfooter]
      dsimp only at hmod ⊢
      omega
    by_cases hpartFooter : q = heap.head + span before + 4 + size
    · apply isFree_of_even
      have hplace : q = heap.head + span before + (size - blockSizeFor request) +
          4 + blockSizeFor request := by omega
      rw [hplace, hpart.2]
      dsimp only
      omega
    have hnew := hoff (heap.head + span before + 4) (by simp)
    refine (isFree_congr (hframe q (fun node hmem => hoff node ?_) ?_ ?_ ?_)).mpr
      hfree
    · rcases List.mem_cons.mp hmem with rfl | hmem
      · exact List.mem_cons_self
      · exact List.mem_cons_of_mem _ (List.mem_cons_of_mem _ hmem)
    · omega
    · omega
    · omega
  · have hkeep := maybeSplitBlock_keep hrep.toLayout hfits
      (by dsimp only; omega)
    obtain ⟨rfl, rfl⟩ := Prod.mk.inj (Except.ok.inj (hkeep.symm.trans hsplit))
    exact ⟨KeepsFree.refl _ _, Or.inl rfl⟩

/-! ### The calls -/

def HandedOut (ptr size q : Nat) : Prop :=
  q + 4 = ptr ∨ (ptr ≤ q ∧ q < ptr + size)

/-- The block in front is free, so that `try_merge` takes it in. -/
def followsFree (heap : HeapObject) (m : Mem) (block : Nat) : Prop :=
  getPrevious heap m block ≠ 0 ∧ isFree m (getPrevious heap m block)

instance : Decidable (followsFree heap m block) :=
  inferInstanceAs (Decidable (_ ∧ _))

theorem __malloc_keepsFree (hrep : Represents heap m blocks nodes)
    (haligned : heap.address % 4 = 0)
    (hcall : __malloc heap m size = .ok (m', res)) (hres : res ≠ 0) :
    KeepsFree (fun q => q = res) m m' := by
  rcases __malloc_eq hrep size with ⟨hnone, -⟩ |
    ⟨before, free, after, nodes', rfl, hfits, hbefore, hmalloc, hclaimed, -⟩
  · rw [hnone] at hcall
    exact absurd (Prod.mk.inj (Except.ok.inj hcall)).2.symm hres
  · obtain ⟨hkeeps, hstart⟩ := split_keepsFree hclaimed haligned hbefore hfits
      (hmalloc.symm.trans hcall)
    intro q hq hne hfree
    by_cases hclaim : q = heap.head + span before
    · subst hclaim
      exact hstart.resolve_left (Ne.symm hne)
    · exact hkeeps q hq hne (claim_keepsFree hrep haligned q hq hclaim hfree)

theorem block_ne_zero (hpointer : isHeapPointer heap (payload block)) :
    block ≠ 0 := by
  have hbounds := heap.bounds
  have hlow := hpointer.2
  unfold HeapObject.minHeapPtr payload at hlow
  omega

theorem malloc_ne_zero (hcall : malloc heap m size = .ok (m', ptr)) :
    ptr ≠ 0 := by
  unfold malloc at hcall
  obtain ⟨_, -, hcall⟩ := bind_eq_ok.mp hcall
  obtain ⟨⟨m1, block⟩, -, hcall⟩ := bind_eq_ok.mp hcall
  obtain ⟨_, -, hcall⟩ := bind_eq_ok.mp hcall
  obtain ⟨rfl, rfl⟩ := Prod.mk.inj (Except.ok.inj hcall)
  exact Nat.succ_ne_zero _

theorem malloc_keepsFree (hholds : Holds heap m entries)
    (haligned : heap.address % 4 = 0)
    (hcall : malloc heap m size = .ok (m', ptr)) :
    KeepsFree (HandedOut ptr size) m m' := by
  obtain ⟨blocks, nodes, hrep, -⟩ := hholds
  unfold malloc at hcall
  obtain ⟨_, -, hcall⟩ := bind_eq_ok.mp hcall
  obtain ⟨⟨m1, block⟩, hmalloc, hcall⟩ := bind_eq_ok.mp hcall
  obtain ⟨_, hpointer, hcall⟩ := bind_eq_ok.mp hcall
  obtain ⟨rfl, rfl⟩ := Prod.mk.inj (Except.ok.inj hcall)
  have hne := block_ne_zero (assert_eq_ok.mp hpointer)
  refine (__malloc_keepsFree hrep haligned hmalloc hne).mono ?_
  rintro q rfl
  exact Or.inl rfl

theorem calloc_keepsFree (hholds : Holds heap m entries)
    (haligned : heap.address % 4 = 0)
    (hcall : calloc heap m nmemb size = .ok (m', ptr)) :
    KeepsFree (fun q => ptr ≠ 0 ∧ HandedOut ptr (nmemb * size) q) m m' := by
  unfold calloc at hcall
  split at hcall
  · obtain ⟨⟨m1, p⟩, hmalloc, hcall⟩ := bind_eq_ok.mp hcall
    have hkeeps := malloc_keepsFree hholds haligned hmalloc
    have hne := malloc_ne_zero hmalloc
    dsimp only at hcall
    rw [if_pos hne] at hcall
    obtain ⟨rfl, rfl⟩ := Prod.mk.inj (Except.ok.inj hcall)
    apply (hkeeps.mono fun q hin => ⟨hne, hin⟩).trans
    apply keepsFree_of_same
    intro q hnot
    apply MemUtil.memset_outside
    by_contra hin
    exact hnot ⟨hne, Or.inr (by omega)⟩
  · obtain ⟨rfl, rfl⟩ := Prod.mk.inj (Except.ok.inj hcall)
    exact KeepsFree.refl _ _

theorem tryMerge_stays (hfollows : ¬followsFree heap m block)
    (hmerge : tryMerge heap m block = .ok (m', res)) : res = block := by
  have hprevious : ∀ size, mergePrevious heap m block size = (m, block, size) :=
    fun size => if_neg hfollows
  unfold tryMerge at hmerge
  simp only [hprevious] at hmerge
  split at hmerge
  · obtain ⟨_, -, hmerge⟩ := bind_eq_ok.mp hmerge
    obtain ⟨m1, -, hmerge⟩ := bind_eq_ok.mp hmerge
    exact (Prod.mk.inj (Except.ok.inj hmerge)).2.symm
  · exact (Prod.mk.inj (Except.ok.inj hmerge)).2.symm

theorem free_steps
    (hholds : Holds heap m ((block, ⟨size, true⟩) :: rest))
    (hfirst : block = heap.head → getPrevious heap m heap.head = 0)
    (hcall : free heap m (payload block) = .ok m') :
    ∃ before after nodes m1 res, block = heap.head + span before ∧
      Represents heap m (before ++ ⟨size, true⟩ :: after) nodes ∧
      (before = [] → getPrevious heap m heap.head = 0) ∧
      tryMerge heap m (heap.head + span before) = .ok (m1, res) ∧
      freeListInsert heap (markFree m1 res) res = .ok m' := by
  obtain ⟨before, after, nodes, rfl, hrep, -⟩ := hholds.split
  have hpointer := payload_of_block hrep.toLayout
    (mem_usedEntries.mpr ⟨mem_locate_split _ before after ⟨size, true⟩, rfl⟩)
  have hnull : before = [] → getPrevious heap m heap.head = 0 := by
    rintro rfl
    exact hfirst rfl
  unfold free at hcall
  dsimp only at hcall hpointer
  rw [hpointer.2.2] at hcall
  obtain ⟨_, -, hcall⟩ := bind_eq_ok.mp hcall
  unfold __free at hcall
  obtain ⟨⟨m1, res⟩, hmerge, hinsert⟩ := bind_eq_ok.mp hcall
  exact ⟨before, after, nodes, m1, res, rfl, hrep, hnull, hmerge, hinsert⟩

/-- `free` makes no word look used, and the header of the block looks free when the
block in front is not. -/
theorem free_keepsFree
    (hholds : Holds heap m ((block, ⟨size, true⟩) :: rest))
    (haligned : heap.address % 4 = 0)
    (hfirst : block = heap.head → getPrevious heap m heap.head = 0)
    (hcall : free heap m (payload block) = .ok m') :
    KeepsFree Nowhere m m' ∧ (¬followsFree heap m block → isFree m' block) := by
  obtain ⟨before, after, nodes, m1, res, rfl, hrep, hnull, hmerge, hinsert⟩ :=
    free_steps hholds hfirst hcall
  have hmerged := tryMerge_keepsFree hrep haligned hnull hmerge
  obtain ⟨m2, nodes1, before', left, right, after', -, -, -, -, hlast, hhead,
    hmerge', hrep1, -⟩ := tryMerge_spec hrep hnull
  obtain ⟨rfl, rfl⟩ := Prod.mk.inj (Except.ok.inj (hmerge'.symm.trans hmerge))
  obtain ⟨hkeeps, hfree⟩ := release_keepsFree hrep1 haligned hlast hhead hinsert
  constructor
  · intro q hq _ hold
    by_cases hresult : q = heap.head + span before'
    · rw [hresult]
      exact hfree
    · exact hkeeps q hq id (hmerged q hq hresult hold)
  · intro hfollows
    rw [← tryMerge_stays hfollows hmerge]
    exact hfree

/-- A merge with the block in front leaves the old header as it is. -/
theorem tryMerge_header_kept
    (hrep : Represents heap m (before ++ ⟨size, true⟩ :: after) nodes)
    (hfirst : before = [] → getPrevious heap m heap.head = 0)
    (hfollows : followsFree heap m (heap.head + span before))
    (hmerge : tryMerge heap m (heap.head + span before) = .ok (m', res)) :
    ¬isFree m' (heap.head + span before) ∧ res < heap.head + span before := by
  obtain ⟨m1, nodes1, m2, nodes2, before', left, right, after', rfl, rfl, hleft,
    -, hlast, -, hcall, hlayout, -⟩ := tryMerge_eq hrep hfirst
  rcases hleft with rfl | ⟨leftSize, rfl⟩
  · exfalso
    rw [List.append_nil] at hrep hfirst hfollows
    rcases List.eq_nil_or_concat before' with rfl | ⟨front, prev, hsplit⟩
    · exact hfollows.1 (hfirst rfl)
    · rw [List.concat_eq_append] at hsplit
      subst hsplit
      have hfront : Layout heap m (front ++ prev :: ⟨size, true⟩ :: (right ++
          after')) := by
        simpa using hrep.toLayout
      have hfree := hfollows.2
      rw [hfront.getPrevious_eq, hfront.isFree_iff] at hfree
      have hused := hlast prev (by simp)
      rw [hfree] at hused
      cases hused
  · have hused : ¬isFree m2 (heap.head + span (before' ++ [⟨leftSize, false⟩])) :=
      fun hfree => by cases hlayout.isFree_iff.mp hfree
    have hspan : span (before' ++ [(⟨leftSize, false⟩ : Block)]) =
        span before' + (leftSize + 8) := by simp [Block.length]
    have hlong : span [(⟨leftSize, false⟩ : Block)] = leftSize + 8 := by
      simp [Block.length]
    rw [hcall, if_neg (by omega)] at hmerge
    obtain ⟨rfl, rfl⟩ := Prod.mk.inj (Except.ok.inj hmerge)
    rw [isFree_congr (withTags_outside (by omega) (by dsimp only; omega))]
    exact ⟨hused, by omega⟩

theorem release_inside
    (hrep : Represents heap m (before ++ ⟨size, true⟩ :: after) nodes)
    (hinsert : freeListInsert heap (markFree m (heap.head + span before))
      (heap.head + span before) = .ok m')
    (hlow : heap.head + span before + 12 ≤ p)
    (hhigh : p < heap.head + span before + 4 + size) : m' p = m p := by
  have hbounds := heap.bounds
  have hring : Ring.IsRing (markFree m (heap.head + span before))
      heap.freeListSentinel nodes := hrep.ring_store_header _
  have hm' : m' = Ring.insertFirst (markFree m (heap.head + span before))
      heap.freeListSentinel (heap.head + span before + 4) := by
    unfold freeListInsert at hinsert
    rw [assert_of (isFree_markFree _ _)] at hinsert
    exact (Except.ok.inj hinsert).symm
  have hoff : ∀ node ∈ heap.freeListSentinel :: nodes,
      p < node ∨ node + 8 ≤ p := by
    intro node hnode
    rw [List.append_cons] at hrep
    have houtside := node_outside_used before [⟨size, true⟩] after hrep.size_ge
      hrep.nodes_perm (by simp) node hnode
    simp only [span_cons, span_nil, Block.length] at houtside
    omega
  rw [hm', hring.insertFirst_off (by unfold Ring.Apart; omega)
    (Ring.off_insertFirst hoff (by omega))]
  exact Mem.store32_outside _ (by omega)

theorem free_header_kept
    (hholds : Holds heap m ((block, ⟨size, true⟩) :: rest))
    (hfirst : block = heap.head → getPrevious heap m heap.head = 0)
    (hfollows : followsFree heap m block)
    (hcall : free heap m (payload block) = .ok m') : ¬isFree m' block := by
  obtain ⟨before, after, nodes, m1, res, rfl, hrep, hnull, hmerge, hinsert⟩ :=
    free_steps hholds hfirst hcall
  obtain ⟨hkept, hbehind⟩ := tryMerge_header_kept hrep hnull hfollows hmerge
  obtain ⟨m2, nodes1, before', left, right, after', rfl, -, hleft, -, -, -,
    hmerge', hrep1, -⟩ := tryMerge_spec hrep hnull
  obtain ⟨rfl, rfl⟩ := Prod.mk.inj (Except.ok.inj (hmerge'.symm.trans hmerge))
  have hspan : span (before' ++ left) = span before' + span left := span_append _ _
  have hlong : 16 ≤ span left := by
    rcases hleft with rfl | ⟨leftSize, rfl⟩
    · simp at hbehind
    · have hsize := hrep.size_ge ⟨leftSize, false⟩ (by simp)
      dsimp only at hsize
      simp only [span_cons, span_nil, Block.length]
      omega
  rw [isFree_congr (release_inside hrep1 hinsert (by omega) (by omega))]
  exact hkept

theorem relocate_keepsFree
    (hrep : Represents heap m (before ++ ⟨merged, true⟩ :: after) nodes)
    (haligned : heap.address % 4 = 0)
    (hlast : ∀ last ∈ before.getLast?, last.used = true)
    (hhead : ∀ first ∈ after.head?, first.used = true)
    (hcall : relocate heap m (heap.head + span before) block size =
      .ok (m', res)) (hres : res ≠ 0) :
    KeepsFree (HandedOut (payload res) size) m m' ∧
      isFree m' (heap.head + span before) := by
  unfold relocate at hcall
  obtain ⟨⟨m1, found⟩, hmalloc, hcall⟩ := bind_eq_ok.mp hcall
  obtain ⟨m3, hinsert, hcall⟩ := bind_eq_ok.mp hcall
  obtain ⟨rfl, rfl⟩ := Prod.mk.inj (Except.ok.inj hcall)
  rcases relocate_eq hrep hlast hhead block size with hnone |
    ⟨m2, nodes1, before', after', res, part, hmalloc', hspan, -, hlast', hhead',
      hrep2, -⟩
  · rw [hmalloc] at hnone
    exact absurd (Prod.mk.inj (Except.ok.inj hnone)).2 hres
  · obtain ⟨rfl, rfl⟩ := Prod.mk.inj (Except.ok.inj (hmalloc'.symm.trans hmalloc))
    rw [← hspan] at hinsert ⊢
    obtain ⟨hkeeps, hfree⟩ :=
      release_keepsFree hrep2 haligned hlast' hhead' hinsert
    refine ⟨?_, hfree⟩
    have hallocated : KeepsFree (HandedOut (payload res) size) m m2 := by
      refine (__malloc_keepsFree hrep haligned hmalloc hres).mono ?_
      rintro q rfl
      exact Or.inl rfl
    have hcopied : KeepsFree (HandedOut (payload res) size) m2
        (MemUtil.memcpy m2 (payload res) (payload block) size) := by
      apply keepsFree_of_same
      intro q hnot
      apply MemUtil.memcpy_outside
      by_contra hin
      exact hnot (Or.inr (by omega))
    exact (hallocated.trans hcopied).trans
      (hkeeps.mono fun _ hnowhere => hnowhere.elim)

theorem settle_keepsFree
    (hrep : Represents heap m (before ++ ⟨merged, true⟩ :: after) nodes)
    (haligned : heap.address % 4 = 0)
    (hlast : ∀ last ∈ before.getLast?, last.used = true)
    (hfits : size ≤ merged)
    (hcall : settle heap m (heap.head + span before) block size =
      .ok (m', res)) :
    KeepsFree (HandedOut (payload res) size) m m' ∧
      (¬HandedOut (payload res) size (heap.head + span before) →
        isFree m' (heap.head + span before)) := by
  unfold settle at hcall
  obtain ⟨⟨m1, newBlock⟩, hsplit, hcall⟩ := bind_eq_ok.mp hcall
  obtain ⟨hkeeps, hstart⟩ :=
    split_keepsFree hrep haligned hlast hfits hsplit
  have hmoved : KeepsFree (HandedOut (payload newBlock) size) m m1 := by
    refine hkeeps.mono ?_
    rintro q rfl
    exact Or.inl rfl
  have hfree : ¬HandedOut (payload newBlock) size (heap.head + span before) →
      isFree m1 (heap.head + span before) := fun hnot =>
    hstart.resolve_left fun heq => hnot (Or.inl (heq ▸ rfl))
  dsimp only at hcall
  split at hcall
  · obtain ⟨rfl, rfl⟩ := Prod.mk.inj (Except.ok.inj hcall)
    have hmove : KeepsFree (HandedOut (payload newBlock) size) m1
        (MemUtil.memmove m1 (payload newBlock) (payload block) size) := by
      apply keepsFree_of_same
      intro q hnot
      apply MemUtil.memmove_outside
      by_contra hin
      exact hnot (Or.inr (by omega))
    refine ⟨hmoved.trans hmove, fun hnot => ?_⟩
    exact hmove _ (hrep.toLayout.aligned haligned) hnot (hfree hnot)
  · obtain ⟨rfl, rfl⟩ := Prod.mk.inj (Except.ok.inj hcall)
    exact ⟨hmoved, hfree⟩

theorem realloc_keepsFree
    (hholds : Holds heap m ((block, ⟨old, true⟩) :: rest))
    (haligned : heap.address % 4 = 0)
    (hfirst : block = heap.head → getPrevious heap m heap.head = 0)
    (hcall : realloc heap m (payload block) size = .ok (m', ptr)) :
    KeepsFree (HandedOut ptr size) m m' := by
  obtain ⟨before, after, nodes, rfl, hrep, -⟩ := hholds.split
  have hnull : before = [] → getPrevious heap m heap.head = 0 := by
    rintro rfl
    exact hfirst rfl
  have hsize : size ≠ 0 := by
    unfold realloc at hcall
    obtain ⟨_, hassert, -⟩ := bind_eq_ok.mp hcall
    exact assert_eq_ok.mp hassert
  rw [realloc_eq hrep hsize] at hcall
  obtain ⟨⟨m2, res⟩, hrealloc, hcall⟩ := bind_eq_ok.mp hcall
  obtain ⟨_, hpointer, hcall⟩ := bind_eq_ok.mp hcall
  obtain ⟨rfl, rfl⟩ := Prod.mk.inj (Except.ok.inj hcall)
  rw [__realloc_eq] at hrealloc
  obtain ⟨⟨m1, start⟩, hmerge, hrest⟩ := bind_eq_ok.mp hrealloc
  have hmerged := tryMerge_keepsFree hrep haligned hnull hmerge
  obtain ⟨m3, nodes1, before', left, right, after', -, -, -, -, hlast, hhead,
    hmerge', hrep1, -⟩ := tryMerge_spec hrep hnull
  obtain ⟨rfl, rfl⟩ := Prod.mk.inj (Except.ok.inj (hmerge'.symm.trans hmerge))
  have hparts : KeepsFree (HandedOut (payload res) size) m3 m2 ∧
      (¬HandedOut (payload res) size (heap.head + span before') →
        isFree m2 (heap.head + span before')) := by
    dsimp only at hrest
    split at hrest
    · obtain ⟨hkeeps, hfree⟩ := relocate_keepsFree hrep1 haligned hlast hhead hrest
        (block_ne_zero (assert_eq_ok.mp hpointer))
      exact ⟨hkeeps, fun _ => hfree⟩
    · rename_i hlarge
      rw [hrep1.toLayout.getSize_eq] at hlarge
      exact settle_keepsFree hrep1 haligned hlast (Nat.le_of_not_lt hlarge) hrest
  intro q hq hnot hfree
  by_cases hstart : q = heap.head + span before'
  · subst hstart
    exact hparts.2 hnot
  · exact hparts.1 q hq hnot (hmerged q hq hstart hfree)

/-- A word inside the heap that looks free still does after a step, unless the step
leaves it handed out. -/
theorem step_keepsFree (hvalid : Valid heap s) (haligned : heap.address % 4 = 0)
    (hstep : step heap s event = some s') (hq : q % 4 = 0)
    (hlow : heap.address ≤ q) (hhigh : q < heap.head + heapSize)
    (hnot : ∀ allocation ∈ s'.live,
      ¬HandedOut allocation.ptr allocation.size q)
    (hfree : isFree s.mem q) : isFree s'.mem q := by
  cases event with
  | malloc size =>
      obtain ⟨⟨m, ptr⟩, hcall, hdone⟩ := Option.bind_eq_some_iff.mp hstep
      obtain rfl := Option.some.inj hdone
      obtain ⟨pairs, -, hholds, -⟩ := hvalid
      exact malloc_keepsFree hholds haligned (returned_eq_some.mp hcall) q hq
        (hnot _ List.mem_cons_self) hfree
  | calloc nmemb size =>
      obtain ⟨⟨m, ptr⟩, hcall, hdone⟩ := Option.bind_eq_some_iff.mp hstep
      obtain rfl := Option.some.inj hdone
      obtain ⟨pairs, -, hholds, -⟩ := hvalid
      refine calloc_keepsFree hholds haligned (returned_eq_some.mp hcall) q hq ?_
        hfree
      intro hin
      refine hnot ⟨ptr, nmemb * size⟩ ?_ hin.2
      dsimp only
      rw [if_neg hin.1]
      exact List.mem_cons_self
  | free allocation =>
      obtain ⟨_, hguard, hrest⟩ := Option.bind_eq_some_iff.mp hstep
      obtain ⟨m, hcall, hdone⟩ := Option.bind_eq_some_iff.mp hrest
      obtain ⟨hmem, hnull⟩ := (Option.guard_eq_some' _).mp hguard
      obtain rfl := Option.some.inj hdone
      obtain ⟨block, size, rest, -, hholds, ⟨hptr, -⟩, -⟩ := hvalid.take hmem
      rw [returned_eq_some, hptr] at hcall
      refine (free_keepsFree hholds haligned ?_ hcall).1 q hq id hfree
      rintro rfl
      exact hnull hptr
  | realloc allocation size =>
      obtain ⟨_, hguard, hrest⟩ := Option.bind_eq_some_iff.mp hstep
      obtain ⟨⟨m, ptr⟩, hcall, hdone⟩ := Option.bind_eq_some_iff.mp hrest
      obtain ⟨hmem, hnull⟩ := (Option.guard_eq_some' _).mp hguard
      obtain rfl := Option.some.inj hdone
      obtain ⟨block, old, rest, -, hholds, ⟨hptr, -⟩, -⟩ := hvalid.take hmem
      rw [returned_eq_some, hptr] at hcall
      refine realloc_keepsFree hholds haligned ?_ hcall q hq
        (hnot _ List.mem_cons_self) hfree
      rintro rfl
      exact hnull hptr
  | write allocation i byte =>
      obtain ⟨_, hguard, hdone⟩ := Option.bind_eq_some_iff.mp hstep
      obtain ⟨hmem, hi⟩ := (Option.guard_eq_some' _).mp hguard
      obtain rfl := Option.some.inj hdone
      refine (isFree_congr (Mem.store8_of_ne byte ?_)).mpr hfree
      rintro rfl
      exact hnot allocation hmem (Or.inr (by omega))
  | elsewhere outside =>
      obtain rfl := Option.some.inj hstep
      exact (isFree_congr (if_pos ⟨hlow, hhigh⟩)).mpr hfree

end

end X86Os32.Heap
