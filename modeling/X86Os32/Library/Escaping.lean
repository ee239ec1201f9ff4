import Mathlib.Data.List.Basic

namespace X86Os32.Library

/-! Escaping: a list in which some elements must not occur is written with an
escape in front of a masked element. -/

namespace Escaping

variable {α : Type} (special : α → Prop) [DecidablePred special]
  (escape : α) (mask : α → α)

def written (a : α) : List α :=
  if special a then [escape, mask a] else [a]

def encode (list : List α) : List α :=
  list.flatMap (written special escape mask)

/-- Reads a text back.  An escape at the very end has nothing to unmask. -/
def decode [DecidableEq α] : List α → Option (List α)
  | [] => some []
  | [a] => if a = escape then none else some [a]
  | a :: b :: rest =>
      if a = escape then (decode rest).map (mask b :: ·)
      else (decode (b :: rest)).map (a :: ·)

/-- The text is one of those that stand for the list: a writer may escape more
elements than it has to. -/
inductive Spells : List α → List α → Prop
  | nil : Spells [] []
  | plain {a : α} {text list : List α} (hplain : a ≠ escape)
      (hspells : Spells text list) : Spells (a :: text) (a :: list)
  | masked {b : α} {text list : List α} (hspells : Spells text list) :
      Spells (escape :: b :: text) (mask b :: list)

variable {escape mask}

section Decode

variable [DecidableEq α]

theorem decode_plain {a : α} (hplain : a ≠ escape) (text : List α) :
    decode escape mask (a :: text) = (decode escape mask text).map (a :: ·) := by
  cases text with
  | nil => simp [decode, hplain]
  | cons b rest => rw [decode, if_neg hplain]

theorem Spells.decode_eq {text list : List α}
    (hspells : Spells escape mask text list) :
    decode escape mask text = some list := by
  induction hspells with
  | nil => rfl
  | plain hplain _ ih => rw [decode_plain hplain, ih, Option.map_some]
  | masked _ ih => rw [decode, if_pos rfl, ih, Option.map_some]

theorem spells_of_decode {text list : List α}
    (hdecode : decode escape mask text = some list) :
    Spells escape mask text list := by
  induction text using decode.induct escape generalizing list with
  | case1 =>
      obtain rfl : [] = list := Option.some.inj hdecode
      exact .nil
  | case2 =>
      rw [decode, if_pos rfl] at hdecode
      cases hdecode
  | case3 a hplain =>
      rw [decode, if_neg hplain] at hdecode
      obtain rfl := Option.some.inj hdecode
      exact .plain hplain .nil
  | case4 b rest ih =>
      rw [decode, if_pos rfl, Option.map_eq_some_iff] at hdecode
      obtain ⟨list', hrest, rfl⟩ := hdecode
      exact .masked (ih hrest)
  | case5 a b rest hplain ih =>
      rw [decode, if_neg hplain, Option.map_eq_some_iff] at hdecode
      obtain ⟨list', hrest, rfl⟩ := hdecode
      exact .plain hplain (ih hrest)

/-- Exactly the texts that stand for a list are read as that list. -/
theorem decode_eq_some_iff {text list : List α} :
    decode escape mask text = some list ↔ Spells escape mask text list :=
  ⟨spells_of_decode, Spells.decode_eq⟩

end Decode

theorem Spells.length_le {text list : List α}
    (hspells : Spells escape mask text list) : list.length ≤ text.length := by
  induction hspells with
  | nil => exact Nat.le_refl 0
  | plain _ _ ih => simpa using ih
  | masked _ ih =>
      simp only [List.length_cons]
      omega

variable {special}

theorem encode_special {a : α} (hspecial : special a) (rest : List α) :
    encode special escape mask (a :: rest) =
      escape :: mask a :: encode special escape mask rest := by
  simp [encode, written, hspecial]

theorem encode_plain {a : α} (hplain : ¬special a) (rest : List α) :
    encode special escape mask (a :: rest) =
      a :: encode special escape mask rest := by
  simp [encode, written, hplain]

theorem spells_encode (hescape : special escape)
    (hmask : ∀ a, special a → mask (mask a) = a) (list : List α) :
    Spells escape mask (encode special escape mask list) list := by
  induction list with
  | nil => exact .nil
  | cons a rest ih =>
      by_cases hspecial : special a
      · rw [encode_special hspecial]
        have hmasked := Spells.masked ih (b := mask a)
        rwa [hmask a hspecial] at hmasked
      · rw [encode_plain hspecial]
        exact .plain (fun heq => hspecial (heq ▸ hescape)) ih

theorem eq_escape_of_mem_encode (hmask : ∀ a, special a → ¬special (mask a))
    {list : List α} {a : α} (hmem : a ∈ encode special escape mask list)
    (hspecial : special a) : a = escape := by
  obtain ⟨b, -, hwritten⟩ := List.mem_flatMap.mp hmem
  unfold written at hwritten
  split at hwritten
  · next hb =>
      rcases List.mem_cons.mp hwritten with rfl | hlast
      · rfl
      · rw [List.mem_singleton.mp hlast] at hspecial
        exact absurd hspecial (hmask b hb)
  · next hb =>
      rw [List.mem_singleton.mp hwritten] at hspecial
      exact absurd hspecial hb

theorem length_encode_le (list : List α) :
    (encode special escape mask list).length ≤ 2 * list.length := by
  induction list with
  | nil => exact Nat.le_refl 0
  | cons a rest ih =>
      by_cases hspecial : special a
      · rw [encode_special hspecial]
        simp only [List.length_cons]
        omega
      · rw [encode_plain hspecial]
        simp only [List.length_cons]
        omega

end Escaping

end X86Os32.Library
