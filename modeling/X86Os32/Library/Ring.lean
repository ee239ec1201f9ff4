import X86Os32.Library.ByteMemory
import Mathlib.Data.List.Chain

namespace X86Os32.Library

/-! Circular doubly linked lists in byte memory.  A node is two words: the
address of the previous node, then the address of the next one. -/

namespace Ring

def prev (m : Mem) (node : Nat) : Nat := m.load32 node

def next (m : Mem) (node : Nat) : Nat := m.load32 (node + 4)

def Apart (left right : Nat) : Prop := left + 8 ≤ right ∨ right + 8 ≤ left

def Linked (m : Mem) (left right : Nat) : Prop :=
  next m left = right ∧ prev m right = left

/-- `nodes`, in list order, form the ring through `sentinel`. -/
def IsRing (m : Mem) (sentinel : Nat) (nodes : List Nat) : Prop :=
  List.IsChain (Linked m) (sentinel :: (nodes ++ [sentinel]))

/-- The two memories differ at most inside the given nodes. -/
def SameOff (nodes : List Nat) (m m' : Mem) : Prop :=
  ∀ p, (∀ node ∈ nodes, p < node ∨ node + 8 ≤ p) → m' p = m p

def insertFirst (m : Mem) (sentinel node : Nat) : Mem :=
  let m := m.store32 (node + 4) (next m sentinel)
  let m := m.store32 node sentinel
  let m := m.store32 (sentinel + 4) node
  m.store32 (next m node) node

def unlink (m : Mem) (node : Nat) : Mem :=
  let before := prev m node
  let after := next m node
  let m := m.store32 (before + 4) after
  m.store32 after before

theorem Apart.symm (hapart : Apart left right) : Apart right left :=
  Or.symm hapart

instance : Std.Symm Apart := ⟨fun _ _ => Apart.symm⟩

theorem Apart.ne (hapart : Apart left right) : left ≠ right := by
  unfold Apart at hapart
  omega

theorem nodup_of_apart (hapart : List.Pairwise Apart nodes) : nodes.Nodup :=
  hapart.imp Apart.ne

theorem apart_of_mem (hapart : List.Pairwise Apart nodes)
    (hleft : left ∈ nodes) (hright : right ∈ nodes) (hne : left ≠ right) :
    Apart left right :=
  hapart.forall hleft hright hne

theorem SameOff.trans (hfirst : SameOff nodes m m')
    (hsecond : SameOff nodes m' m'') : SameOff nodes m m'' :=
  fun p hp => (hsecond p hp).trans (hfirst p hp)

theorem SameOff.mono (hsame : SameOff nodes m m')
    (hsubset : ∀ node ∈ nodes, node ∈ nodes') : SameOff nodes' m m' :=
  fun p hp => hsame p fun node hnode => hp node (hsubset node hnode)

theorem SameOff.load32 (hsame : SameOff nodes m m') {a : Nat}
    (hoff : ∀ node ∈ nodes, a + 4 ≤ node ∨ node + 8 ≤ a) :
    m'.load32 a = m.load32 a := by
  apply Mem.load32_congr
  intro p hlow hhigh
  apply hsame
  intro node hnode
  have := hoff node hnode
  omega

/-- A chain of nodes survives a change that keeps the `next` word of all but
the last node and the `prev` word of all but the first. -/
theorem isChain_frame (hchain : List.IsChain (Linked m) nodes)
    (hnext : ∀ left ∈ nodes.dropLast, next m' left = next m left)
    (hprev : ∀ right ∈ nodes.tail, prev m' right = prev m right) :
    List.IsChain (Linked m') nodes := by
  induction nodes with
  | nil => exact List.isChain_nil
  | cons node rest ih =>
      cases rest with
      | nil => exact List.isChain_singleton node
      | cons second rest =>
          obtain ⟨hlink, htail⟩ := List.isChain_cons_cons.mp hchain
          refine List.isChain_cons_cons.mpr ⟨⟨?_, ?_⟩, ih htail ?_ ?_⟩
          · rw [hnext node (by simp)]
            exact hlink.1
          · rw [hprev second (by simp)]
            exact hlink.2
          · intro left hleft
            exact hnext left (by simp [hleft])
          · intro right hright
            exact hprev right (by
              simp only [List.tail_cons] at hright ⊢
              exact List.mem_cons_of_mem _ hright)

theorem IsRing.congr (hring : IsRing m sentinel nodes)
    (hsame : ∀ node ∈ sentinel :: nodes, ∀ p, node ≤ p → p < node + 8 →
      m' p = m p) : IsRing m' sentinel nodes := by
  have hnext : ∀ node ∈ sentinel :: nodes, next m' node = next m node := by
    intro node hnode
    exact Mem.load32_congr fun p hlow hhigh =>
      hsame node hnode p (by omega) (by omega)
  have hprev : ∀ node ∈ sentinel :: nodes, prev m' node = prev m node := by
    intro node hnode
    exact Mem.load32_congr fun p hlow hhigh =>
      hsame node hnode p (by omega) (by omega)
  apply isChain_frame hring
  · intro left hleft
    rw [← List.cons_append, List.dropLast_concat] at hleft
    exact hnext left hleft
  · intro right hright
    apply hprev
    simpa [or_comm] using hright

private theorem isChain_around {m : Mem} {before after : List Nat} {node : Nat}
    (hchain : List.IsChain (Linked m) (before ++ node :: after)) :
    (∀ left ∈ before.getLast?, Linked m left node) ∧
      (∀ right ∈ after.head?, Linked m node right) := by
  obtain ⟨_, hnode, hlinks⟩ := List.isChain_append.mp hchain
  refine ⟨fun left hleft => hlinks left hleft node (by simp), ?_⟩
  exact (List.isChain_cons.mp hnode).1

theorem unlink_sameOff (m : Mem) (node : Nat) :
    SameOff [prev m node, next m node] m (unlink m node) := by
  intro p hp
  have hbefore := hp (prev m node) (by simp)
  have hafter := hp (next m node) (by simp)
  simp only [unlink]
  rw [Mem.store32_outside _ (by omega), Mem.store32_outside _ (by omega)]

theorem mem_of_mem_unlinked {other : Nat}
    (hmem : other ∈ sentinel :: (before ++ after)) :
    other ∈ sentinel :: (before ++ node :: after) :=
  (((List.sublist_cons_self node after).append_left before).cons_cons
    sentinel).subset hmem

theorem mem_unlinked_of_ne {other : Nat}
    (hmem : other ∈ sentinel :: (before ++ node :: after)) (hne : other ≠ node) :
    other ∈ sentinel :: (before ++ after) := by
  rw [List.mem_cons, List.mem_append, List.mem_cons] at hmem
  rw [List.mem_cons, List.mem_append]
  rcases hmem with hsentinel | hbefore | hsame | hafter
  · exact .inl hsentinel
  · exact .inr (.inl hbefore)
  · exact absurd hsame hne
  · exact .inr (.inr hafter)

theorem IsRing.neighbours
    (hring : IsRing m sentinel (before ++ node :: after)) :
    prev m node ∈ sentinel :: (before ++ after) ∧
      next m node ∈ sentinel :: (before ++ after) := by
  have hchain : List.IsChain (Linked m)
      ((sentinel :: before) ++ node :: (after ++ [sentinel])) := by
    simpa [IsRing] using hring
  obtain ⟨hbefore, hafter⟩ := isChain_around hchain
  constructor
  · have hlink := hbefore ((sentinel :: before).getLast (by simp)) (by
      rw [List.getLast?_eq_getLast_of_ne_nil (by simp)]
      rfl)
    rw [hlink.2]
    have := List.getLast_mem (l := sentinel :: before) (by simp)
    simp only [List.mem_cons, List.mem_append] at this ⊢
    tauto
  · have hlink := hafter ((after ++ [sentinel]).head (by simp)) (by
      rw [List.head?_eq_some_head (by simp)]
      rfl)
    rw [hlink.1]
    have := List.head_mem (l := after ++ [sentinel]) (by simp)
    simp only [List.mem_cons, List.mem_append, List.mem_nil_iff, or_false]
      at this ⊢
    tauto

private theorem isChain_links (hchain : List.IsChain (Linked m) nodes) :
    (∀ left ∈ nodes.dropLast, next m left ∈ nodes) ∧
      ∀ right ∈ nodes.tail, prev m right ∈ nodes := by
  induction nodes with
  | nil => simp
  | cons node rest ih =>
      cases rest with
      | nil => simp
      | cons second rest =>
          obtain ⟨hlink, htail⟩ := List.isChain_cons_cons.mp hchain
          obtain ⟨hnext, hprev⟩ := ih htail
          constructor
          · intro left hleft
            rcases List.mem_cons.mp hleft with rfl | hleft
            · rw [hlink.1]
              exact List.mem_cons_of_mem _ List.mem_cons_self
            · exact List.mem_cons_of_mem _ (hnext left hleft)
          · intro right hright
            rcases List.mem_cons.mp hright with rfl | hright
            · rw [hlink.2]
              exact List.mem_cons_self
            · exact List.mem_cons_of_mem _ (hprev right hright)

theorem IsRing.pointers (hring : IsRing m sentinel nodes)
    (hnode : node ∈ sentinel :: nodes) :
    prev m node ∈ sentinel :: nodes ∧ next m node ∈ sentinel :: nodes := by
  obtain ⟨hnext, hprev⟩ := isChain_links hring
  have hmem : ∀ other, other ∈ sentinel :: (nodes ++ [sentinel]) →
      other ∈ sentinel :: nodes := by
    intro other hother
    simp only [List.mem_cons, List.mem_append, List.not_mem_nil, or_false]
      at hother ⊢
    tauto
  constructor
  · apply hmem
    apply hprev
    rw [List.tail_cons]
    simpa [or_comm] using hnode
  · apply hmem
    apply hnext
    rw [← List.cons_append, List.dropLast_concat]
    exact hnode

/-- What `insertFirst` writes, word by word: the store through the re-read
`next` pointer of the new node hits the old first node. -/
private theorem insertFirst_eq {m : Mem} {sentinel node : Nat}
    (hapart : Apart sentinel node) :
    insertFirst m sentinel node =
      (((m.store32 (node + 4) (next m sentinel)).store32 node
        sentinel).store32 (sentinel + 4) node).store32 (next m sentinel)
          node := by
  unfold Apart at hapart
  have hreread : next (((m.store32 (node + 4) (next m sentinel)).store32 node
      sentinel).store32 (sentinel + 4) node) node = next m sentinel := by
    unfold next
    rw [Mem.load32_store32_of_disjoint _ (by omega),
      Mem.load32_store32_of_disjoint _ (by omega),
      Mem.load32_store32 _ _ (Mem.load32_lt _ _)]
  simp only [insertFirst, hreread]

theorem load32_insertFirst {m : Mem} {sentinel node a : Nat}
    (hapart : Apart sentinel node) (hnode : a + 4 ≤ node ∨ node + 8 ≤ a)
    (hsentinel : a + 4 ≤ sentinel + 4 ∨ sentinel + 8 ≤ a)
    (hfirst : a + 4 ≤ next m sentinel ∨ next m sentinel + 4 ≤ a) :
    (insertFirst m sentinel node).load32 a = m.load32 a := by
  rw [insertFirst_eq hapart, Mem.load32_store32_of_disjoint _ (by omega),
    Mem.load32_store32_of_disjoint _ (by omega),
    Mem.load32_store32_of_disjoint _ (by omega),
    Mem.load32_store32_of_disjoint _ (by omega)]

theorem insertFirst_sameOff {m : Mem} {sentinel node : Nat}
    (hapart : Apart sentinel node) :
    SameOff [sentinel, node, next m sentinel] m
      (insertFirst m sentinel node) := by
  intro p hp
  have hsentinel := hp sentinel (by simp)
  have hnode := hp node (by simp)
  have hfirst := hp (next m sentinel) (by simp)
  rw [insertFirst_eq hapart, Mem.store32_outside _ (by omega),
    Mem.store32_outside _ (by omega), Mem.store32_outside _ (by omega),
    Mem.store32_outside _ (by omega)]

theorem IsRing.next_sentinel_mem (hring : IsRing m sentinel nodes) :
    next m sentinel ∈ sentinel :: nodes := by
  cases nodes with
  | nil =>
      have hlink := (List.isChain_cons_cons.mp hring).1
      simp [hlink.1]
  | cons node rest =>
      have hlink := (List.isChain_cons_cons.mp hring).1
      simp [hlink.1]

theorem IsRing.insertFirst_off (hring : IsRing m sentinel nodes)
    (hapart : Apart sentinel node)
    (hoff : ∀ other ∈ sentinel :: node :: nodes, p < other ∨ other + 8 ≤ p) :
    Ring.insertFirst m sentinel node p = m p := by
  refine insertFirst_sameOff hapart p fun other hother => hoff other ?_
  have hfirst := hring.next_sentinel_mem
  simp only [List.mem_cons, List.not_mem_nil, or_false] at hother hfirst ⊢
  rcases hother with rfl | rfl | rfl
  · exact Or.inl rfl
  · exact Or.inr (Or.inl rfl)
  · exact hfirst.imp_right Or.inr

theorem off_insertFirst
    (hoff : ∀ other ∈ sentinel :: nodes, p < other ∨ other + 8 ≤ p)
    (hnode : p < node ∨ node + 8 ≤ p) :
    ∀ other ∈ sentinel :: node :: nodes, p < other ∨ other + 8 ≤ p := by
  intro other hother
  simp only [List.mem_cons] at hother hoff
  rcases hother with rfl | rfl | hother
  · exact hoff _ (Or.inl rfl)
  · exact hnode
  · exact hoff _ (Or.inr hother)

theorem IsRing.insertFirst (hring : IsRing m sentinel nodes)
    (hapart : List.Pairwise Apart (sentinel :: node :: nodes))
    (hsentinel : sentinel < 2 ^ 32) (hnode : node < 2 ^ 32) :
    IsRing (insertFirst m sentinel node) sentinel (node :: nodes) := by
  obtain ⟨first, rest, hsplit⟩ :
      ∃ first rest, nodes ++ [sentinel] = first :: rest := by
    cases nodes with
    | nil => exact ⟨sentinel, [], rfl⟩
    | cons head tail => exact ⟨head, tail ++ [sentinel], rfl⟩
  unfold IsRing at hring
  rw [hsplit] at hring
  obtain ⟨⟨hfirst, -⟩, hchain⟩ := List.isChain_cons_cons.mp hring
  have hmem : ∀ other ∈ first :: rest, other ∈ sentinel :: nodes := by
    intro other hother
    rw [← hsplit] at hother
    simpa [or_comm] using hother
  have hall := nodup_of_apart hapart
  simp only [List.nodup_cons, List.mem_cons, not_or] at hall
  have hnodup : (first :: rest).Nodup := by
    rw [← hsplit, List.perm_append_comm.nodup_iff]
    exact List.nodup_cons.mpr ⟨hall.1.2, hall.2.2⟩
  -- The new node is apart from every old one, and old ones from each other.
  have hfromNode : ∀ other ∈ sentinel :: nodes, Apart node other := by
    intro other hother
    apply apart_of_mem hapart (by simp)
    · simp only [List.mem_cons] at hother ⊢
      tauto
    · rintro rfl
      simp only [List.mem_cons] at hother
      tauto
  have hold : ∀ left ∈ sentinel :: nodes, ∀ right ∈ sentinel :: nodes,
      left = right ∨ Apart left right := by
    intro left hleft right hright
    by_cases heq : left = right
    · exact Or.inl heq
    · simp only [List.mem_cons] at hleft hright
      exact Or.inr (apart_of_mem hapart
        (by simp only [List.mem_cons]; tauto)
        (by simp only [List.mem_cons]; tauto) heq)
  have hnodeSentinel := hfromNode sentinel (by simp)
  have hnodeFirst := hfromNode first (hmem first (by simp))
  have hsentinelFirst :=
    hold sentinel (by simp) first (hmem first (by simp))
  have hfirstLt : first < 2 ^ 32 := hfirst ▸ Mem.load32_lt _ _
  have hframe : ∀ a, (a + 4 ≤ node ∨ node + 8 ≤ a) →
      (a + 4 ≤ sentinel + 4 ∨ sentinel + 8 ≤ a) →
      (a + 4 ≤ first ∨ first + 4 ≤ a) →
      (Ring.insertFirst m sentinel node).load32 a = m.load32 a := by
    intro a ha hb hc
    exact load32_insertFirst hnodeSentinel.symm ha hb (by rw [hfirst]; exact hc)
  unfold Apart at hnodeFirst hnodeSentinel hsentinelFirst
  unfold IsRing
  rw [List.cons_append, hsplit]
  refine List.isChain_cons_cons.mpr ⟨?_, List.isChain_cons_cons.mpr ⟨?_, ?_⟩⟩
  · rw [insertFirst_eq hnodeSentinel.symm, hfirst]
    constructor
    · unfold next
      rw [Mem.load32_store32_of_disjoint _ (by omega),
        Mem.load32_store32 _ _ hnode]
    · unfold prev
      rw [Mem.load32_store32_of_disjoint _ (by omega),
        Mem.load32_store32_of_disjoint _ (by omega),
        Mem.load32_store32 _ _ hsentinel]
  · rw [insertFirst_eq hnodeSentinel.symm, hfirst]
    constructor
    · unfold next
      rw [Mem.load32_store32_of_disjoint _ (by omega),
        Mem.load32_store32_of_disjoint _ (by omega),
        Mem.load32_store32_of_disjoint _ (by omega),
        Mem.load32_store32 _ _ hfirstLt]
    · unfold prev
      rw [Mem.load32_store32 _ _ hnode]
  · apply isChain_frame hchain
    · intro left hleft
      rw [← hsplit, List.dropLast_concat] at hleft
      have hleftNode := hfromNode left (by simp [hleft])
      have hleftFirst := hold left (by simp [hleft]) first (hmem first (by simp))
      have hleftSentinel : Apart left sentinel :=
        (hold left (by simp [hleft]) sentinel (by simp)).resolve_left (by
          rintro rfl
          exact hall.1.2 hleft)
      unfold Apart at hleftNode hleftSentinel hleftFirst
      exact hframe _ (by omega) (by omega) (by omega)
    · intro right hright
      have hrightMem := hmem right (List.mem_cons_of_mem _ hright)
      have hrightNode := hfromNode right hrightMem
      have hrightSentinel := hold right hrightMem sentinel (by simp)
      have hrightFirst : Apart right first :=
        (hold right hrightMem first (hmem first (by simp))).resolve_left (by
          rintro rfl
          exact (List.nodup_cons.mp hnodup).1 hright)
      unfold Apart at hrightNode hrightFirst hrightSentinel
      exact hframe _ (by omega) (by omega) (by omega)

theorem load32_unlink {m : Mem} {node a : Nat}
    (hbefore : a + 4 ≤ prev m node + 4 ∨ prev m node + 8 ≤ a)
    (hafter : a + 4 ≤ next m node ∨ next m node + 4 ≤ a) :
    (unlink m node).load32 a = m.load32 a := by
  simp only [unlink]
  rw [Mem.load32_store32_of_disjoint _ (by omega),
    Mem.load32_store32_of_disjoint _ (by omega)]

theorem IsRing.unlink (hring : IsRing m sentinel (before ++ node :: after))
    (hapart : List.Pairwise Apart (sentinel :: (before ++ node :: after))) :
    IsRing (unlink m node) sentinel (before ++ after) := by
  have hchain : List.IsChain (Linked m)
      ((sentinel :: before) ++ node :: (after ++ [sentinel])) := by
    simpa [IsRing] using hring
  have hmemBefore : ∀ other ∈ sentinel :: before,
      other ∈ sentinel :: (before ++ node :: after) := by
    intro other hother
    simp only [List.mem_cons, List.mem_append] at hother ⊢
    tauto
  have hmemAfter : ∀ other ∈ after ++ [sentinel],
      other ∈ sentinel :: (before ++ node :: after) := by
    intro other hother
    simp only [List.mem_cons, List.mem_append, List.not_mem_nil, or_false]
      at hother ⊢
    tauto
  have hall := nodup_of_apart hapart
  have hnodupBefore : (sentinel :: before).Nodup :=
    hall.sublist (by simp)
  have hnodupAfter : (after ++ [sentinel]).Nodup := by
    rw [List.perm_append_comm.nodup_iff]
    exact hall.sublist (by simp)
  have hold : ∀ left ∈ sentinel :: (before ++ node :: after),
      ∀ right ∈ sentinel :: (before ++ node :: after),
      left = right ∨ Apart left right := by
    intro left hleft right hright
    by_cases heq : left = right
    · exact Or.inl heq
    · exact Or.inr (apart_of_mem hapart hleft hright heq)
  simp only [List.nodup_cons, List.nodup_append, List.mem_append,
    List.mem_cons, not_or] at hall
  -- The neighbours of `node`: the last node before it, the first behind it.
  obtain ⟨front, left, hleft⟩ : ∃ front left,
      sentinel :: before = front ++ [left] :=
    ⟨_, _, (List.dropLast_append_getLast (by simp)).symm⟩
  obtain ⟨right, back, hright⟩ : ∃ right back,
      after ++ [sentinel] = right :: back := by
    cases after with
    | nil => exact ⟨sentinel, [], rfl⟩
    | cons head tail => exact ⟨head, tail ++ [sentinel], rfl⟩
  have hleftMem : left ∈ sentinel :: before := by simp [hleft]
  have hrightMem : right ∈ after ++ [sentinel] := by simp [hright]
  obtain ⟨hbefore, hafter⟩ := isChain_around hchain
  have hprev : prev m node = left := (hbefore left (by simp [hleft])).2
  have hnext : next m node = right := (hafter right (by simp [hright])).1
  have hleftRight := hold left (hmemBefore left hleftMem) right
    (hmemAfter right hrightMem)
  have hframe : ∀ a, (a + 4 ≤ left + 4 ∨ left + 8 ≤ a) →
      (a + 4 ≤ right ∨ right + 4 ≤ a) →
      (Ring.unlink m node).load32 a = m.load32 a := by
    intro a ha hb
    exact load32_unlink (by rw [hprev]; exact ha) (by rw [hnext]; exact hb)
  obtain ⟨hchainBefore, hchainNode, -⟩ := List.isChain_append.mp hchain
  have hchainAfter := (List.isChain_cons.mp hchainNode).2
  unfold IsRing
  rw [List.append_assoc, ← List.cons_append]
  refine List.isChain_append.mpr ⟨?_, ?_, ?_⟩
  · apply isChain_frame hchainBefore
    · intro other hother
      rw [hleft, List.dropLast_concat] at hother
      have hotherMem : other ∈ sentinel :: before := by simp [hleft, hother]
      have hotherRight := hold other (hmemBefore other hotherMem) right
        (hmemAfter right hrightMem)
      have hotherLeft : Apart other left :=
        (hold other (hmemBefore other hotherMem) left
          (hmemBefore left hleftMem)).resolve_left (by
            rintro rfl
            rw [hleft, List.nodup_append] at hnodupBefore
            exact hnodupBefore.2.2 _ hother _ (by simp) rfl)
      unfold Apart at hotherLeft hotherRight
      exact hframe _ (by omega) (by omega)
    · intro other hother
      rw [List.tail_cons] at hother
      have hotherMem : other ∈ sentinel :: before := by simp [hother]
      have hotherLeft := hold other (hmemBefore other hotherMem) left
        (hmemBefore left hleftMem)
      have hotherRight : Apart other right :=
        (hold other (hmemBefore other hotherMem) right
          (hmemAfter right hrightMem)).resolve_left (by
            rintro rfl
            simp only [List.mem_append, List.mem_cons, List.not_mem_nil,
              or_false] at hrightMem
            rcases hrightMem with hmem | rfl
            · exact hall.2.2.2 _ hother _ (Or.inr hmem) rfl
            · exact hall.1.1 hother)
      unfold Apart at hotherLeft hotherRight
      exact hframe _ (by omega) (by omega)
  · apply isChain_frame hchainAfter
    · intro other hother
      rw [List.dropLast_concat] at hother
      have hotherMem : other ∈ after ++ [sentinel] := by simp [hother]
      have hotherRight := hold other (hmemAfter other hotherMem) right
        (hmemAfter right hrightMem)
      have hotherLeft : Apart other left :=
        (hold other (hmemAfter other hotherMem) left
          (hmemBefore left hleftMem)).resolve_left (by
            rintro rfl
            simp only [List.mem_cons] at hleftMem
            rcases hleftMem with rfl | hmem
            · exact hall.1.2.2 hother
            · exact hall.2.2.2 _ hmem _ (Or.inr hother) rfl)
      unfold Apart at hotherLeft hotherRight
      exact hframe _ (by omega) (by omega)
    · intro other hother
      rw [hright, List.tail_cons] at hother
      have hotherMem : other ∈ after ++ [sentinel] := by simp [hright, hother]
      have hotherLeft := hold other (hmemAfter other hotherMem) left
        (hmemBefore left hleftMem)
      have hotherRight : Apart other right :=
        (hold other (hmemAfter other hotherMem) right
          (hmemAfter right hrightMem)).resolve_left (by
            rintro rfl
            rw [hright, List.nodup_cons] at hnodupAfter
            exact hnodupAfter.1 hother)
      unfold Apart at hotherLeft hotherRight
      exact hframe _ (by omega) (by omega)
  · intro other hother last hlast
    obtain rfl : left = other := by simpa [hleft] using hother
    obtain rfl : right = last := by simpa [hright] using hlast
    unfold Apart at hleftRight
    simp only [Ring.unlink, hprev, hnext]
    constructor
    · unfold next
      rw [Mem.load32_store32_of_disjoint _ (by omega),
        Mem.load32_store32 _ _ (hnext ▸ Mem.load32_lt _ _)]
    · unfold prev
      rw [Mem.load32_store32 _ _ (hprev ▸ Mem.load32_lt _ _)]

theorem IsRing.unlink_mem (hring : IsRing m sentinel nodes)
    (hapart : List.Pairwise Apart (sentinel :: nodes)) (hnode : node ∈ nodes) :
    ∃ rest, IsRing (Ring.unlink m node) sentinel rest ∧
      nodes.Perm (node :: rest) ∧ SameOff (sentinel :: rest) m
        (Ring.unlink m node) := by
  obtain ⟨before, after, rfl⟩ := List.append_of_mem hnode
  refine ⟨before ++ after, hring.unlink hapart, List.perm_middle, ?_⟩
  obtain ⟨hprev, hnext⟩ := hring.neighbours
  refine (unlink_sameOff m node).mono fun other hother => ?_
  simp only [List.mem_cons, List.not_mem_nil, or_false] at hother
  rcases hother with rfl | rfl
  · exact hprev
  · exact hnext

end Ring

end X86Os32.Library
