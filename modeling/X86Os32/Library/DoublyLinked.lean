import Mathlib.Data.Finmap
import Mathlib.Data.List.Nodup

namespace X86Os32.Library

/-! Doubly linked lists of nodes that hold a value each. -/

namespace DoublyLinked

variable {Pointer Value : Type} [DecidableEq Pointer]

structure Node (Pointer Value : Type) where
  value : Value
  prev : Option Pointer
  next : Option Pointer
deriving DecidableEq

abbrev Nodes (Pointer Value : Type) : Type :=
  Finmap fun _ : Pointer => Node Pointer Value

def before (nodes : List Pointer) : Nat → Option Pointer
  | 0 => none
  | i + 1 => nodes[i]?

/-- The nodes hold the values in this order, and each leads to both its
neighbours. -/
structure Linked (memory : Nodes Pointer Value) (nodes : List Pointer)
    (values : List Value) : Prop where
  length : nodes.length = values.length
  nodup : nodes.Nodup
  node : ∀ i p v, nodes[i]? = some p → values[i]? = some v →
    memory.lookup p = some ⟨v, before nodes i, nodes[i + 1]?⟩

/-- The values from a node back to the first one, or none if the walk does not come
to an end within so many steps. -/
def walk (memory : Nodes Pointer Value) : Nat → Option Pointer → Option (List Value)
  | _, none => some []
  | 0, some _ => none
  | steps + 1, some p =>
      (memory.lookup p).bind fun node =>
        (walk memory steps node.prev).map (node.value :: ·)

variable {memory : Nodes Pointer Value} {nodes : List Pointer}
  {values : List Value}

theorem linked_nil (memory : Nodes Pointer Value) : Linked memory [] [] :=
  ⟨rfl, List.nodup_nil, fun _ _ _ hnode => nomatch hnode⟩

theorem Linked.value (hlinked : Linked memory nodes values) {i : Nat} {p : Pointer}
    (hnode : nodes[i]? = some p) : ∃ v, values[i]? = some v := by
  obtain ⟨hi, -⟩ := List.getElem?_eq_some_iff.mp hnode
  rw [hlinked.length] at hi
  exact ⟨values[i], List.getElem?_eq_getElem hi⟩

theorem Linked.mem (hlinked : Linked memory nodes values) {p : Pointer}
    (hmem : p ∈ nodes) : p ∈ memory := by
  obtain ⟨i, hnode⟩ := List.mem_iff_getElem?.mp hmem
  obtain ⟨v, hvalue⟩ := hlinked.value hnode
  exact Finmap.mem_of_lookup_eq_some (hlinked.node i p v hnode hvalue)

theorem Linked.insert (hlinked : Linked memory nodes values) {p : Pointer}
    (hother : p ∉ nodes) (node : Node Pointer Value) :
    Linked (memory.insert p node) nodes values := by
  refine ⟨hlinked.length, hlinked.nodup, ?_⟩
  intro i q v hnode hvalue
  have hne : q ≠ p := by
    rintro rfl
    exact hother (List.mem_of_getElem? hnode)
  rw [Finmap.lookup_insert_of_ne _ hne]
  exact hlinked.node i q v hnode hvalue

theorem linked_singleton (memory : Nodes Pointer Value) (p : Pointer) (v : Value) :
    Linked (memory.insert p ⟨v, none, none⟩) [p] [v] := by
  refine ⟨rfl, List.nodup_singleton p, ?_⟩
  intro i q v' hnode hvalue
  cases i with
  | zero =>
      cases hnode
      cases hvalue
      exact Finmap.lookup_insert memory
  | succ i => cases hnode

theorem Linked.snoc {memory' : Nodes Pointer Value} {front : List Pointer}
    {last new : Pointer} {node : Node Pointer Value} {v : Value}
    (hlinked : Linked memory (front ++ [last]) values) (hnew : new ∉ memory)
    (hlast : memory.lookup last = some node)
    (hlast' : memory'.lookup last = some { node with next := some new })
    (hnew' : memory'.lookup new = some ⟨v, some last, none⟩)
    (hothers : ∀ p, p ≠ last → p ≠ new → memory'.lookup p = memory.lookup p) :
    Linked memory' (front ++ [last, new]) (values ++ [v]) := by
  have hfresh : new ∉ front ++ [last] := fun hmem => hnew (hlinked.mem hmem)
  have hnodup := hlinked.nodup
  have hlength : front.length + 1 = values.length := by
    rw [← hlinked.length, List.length_append, List.length_singleton]
  have hsplit : front ++ [last, new] = (front ++ [last]) ++ [new] := by simp
  refine ⟨by simp [← hlength], ?_, ?_⟩
  · rw [hsplit, List.nodup_append]
    refine ⟨hnodup, List.nodup_singleton new, ?_⟩
    rintro p hp q hq rfl
    rw [List.mem_singleton.mp hq] at hp
    exact hfresh hp
  intro i p w hnode hvalue
  rw [hsplit] at hnode ⊢
  rcases Nat.lt_trichotomy i (front.length + 1) with hlt | rfl | hgt
  · rw [List.getElem?_append_left (by simpa using hlt)] at hnode
    rw [List.getElem?_append_left (by omega)] at hvalue
    have hold := hlinked.node i p w hnode hvalue
    have hmem := List.mem_of_getElem? hnode
    have hp : p ≠ new := by
      rintro rfl
      exact hfresh hmem
    have hbefore : before (front ++ [last] ++ [new]) i =
        before (front ++ [last]) i := by
      cases i with
      | zero => rfl
      | succ i => exact List.getElem?_append_left (by simp; omega)
    rw [hbefore]
    rcases Nat.lt_succ_iff_lt_or_eq.mp hlt with hfront | rfl
    · have hp' : p ≠ last := by
        rintro rfl
        rw [List.getElem?_append_left hfront] at hnode
        rw [List.nodup_append] at hnodup
        exact hnodup.2.2 p (List.mem_of_getElem? hnode) p (by simp) rfl
      have hnext : (front ++ [last] ++ [new])[i + 1]? =
          (front ++ [last])[i + 1]? :=
        List.getElem?_append_left (by simp; omega)
      rw [hothers p hp' hp, hold, hnext]
    · simp only [List.getElem?_concat_length, Option.some.injEq] at hnode
      subst hnode
      rw [hlast] at hold
      cases hold
      rw [hlast']
      simp
  · have hlen : (front ++ [last]).length = front.length + 1 := by simp
    rw [← hlen, List.getElem?_concat_length] at hnode
    rw [hlength, List.getElem?_concat_length] at hvalue
    cases hnode
    cases hvalue
    rw [hnew']
    simp [before]
  · rw [List.getElem?_eq_none (by simp; omega)] at hnode
    cases hnode

theorem Linked.walk (hlinked : Linked memory nodes values) (i : Nat)
    (hi : i ≤ nodes.length) :
    walk memory i (before nodes i) = some (values.take i).reverse := by
  induction i with
  | zero => rfl
  | succ i ih =>
      have hlt : i < nodes.length := hi
      obtain ⟨v, hvalue⟩ := hlinked.value (List.getElem?_eq_getElem hlt)
      have hnode := hlinked.node i nodes[i] v (List.getElem?_eq_getElem hlt) hvalue
      rw [before, List.getElem?_eq_getElem hlt, DoublyLinked.walk, hnode,
        Option.bind_some, ih (Nat.le_of_succ_le hi), Option.map_some]
      rw [List.take_add_one, hvalue, Option.toList_some, List.reverse_append]
      rfl

omit [DecidableEq Pointer] in
theorem before_length (nodes : List Pointer) :
    before nodes nodes.length = nodes.getLast? := by
  cases nodes with
  | nil => rfl
  | cons p nodes => rw [List.getLast?_eq_getElem?]; rfl

end DoublyLinked

end X86Os32.Library
