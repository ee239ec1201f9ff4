import Mathlib.Data.List.Induction
import Mathlib.Logic.Function.Basic

namespace X86Os32.Library

/-! Keys that are pressed and released in any order, and lamps that show whether
some key of a group is held. -/

namespace HeldKeys

variable {κ : Type*}

structure Stroke (κ : Type*) where
  key : κ
  pressed : Bool
deriving DecidableEq

/-- The keys that are held after the strokes; none is in the beginning. -/
def held [DecidableEq κ] (strokes : List (Stroke κ)) : κ → Bool :=
  strokes.foldl (fun held stroke => Function.update held stroke.key stroke.pressed)
    fun _ => false

variable (group : κ → Prop) [DecidablePred group]

/-- The lamp of a group goes on with every press and off with every release of
one of its keys. -/
def lamp (strokes : List (Stroke κ)) : Bool :=
  strokes.foldl (fun lit stroke => if group stroke.key then stroke.pressed else lit)
    false

variable [DecidableEq κ]

/-- The last stroke of the group is a release, while another key of the group is
still held. -/
def LeavesOne (strokes : List (Stroke κ)) : Prop :=
  ∃ earlier key later, strokes = earlier ++ ⟨key, false⟩ :: later ∧ group key ∧
    (∀ stroke ∈ later, ¬group stroke.key) ∧
    ∃ other, group other ∧ other ≠ key ∧ held earlier other = true

variable {group} {strokes : List (Stroke κ)} {stroke : Stroke κ}

theorem held_snoc (strokes : List (Stroke κ)) (stroke : Stroke κ) :
    held (strokes ++ [stroke]) =
      Function.update (held strokes) stroke.key stroke.pressed := by
  unfold held
  rw [List.foldl_append]
  rfl

omit [DecidableEq κ] in
theorem lamp_snoc (strokes : List (Stroke κ)) (stroke : Stroke κ) :
    lamp group (strokes ++ [stroke]) =
      if group stroke.key then stroke.pressed else lamp group strokes := by
  unfold lamp
  rw [List.foldl_append]
  rfl

omit [DecidablePred group] in
theorem held_of_others {later : List (Stroke κ)} {key : κ} (hkey : group key)
    (hlater : ∀ stroke ∈ later, ¬group stroke.key) (earlier : List (Stroke κ)) :
    held (earlier ++ later) key = held earlier key := by
  induction later using List.reverseRecOn with
  | nil => rw [List.append_nil]
  | append_singleton later stroke ih =>
      have hother : key ≠ stroke.key := by
        rintro rfl
        exact hlater stroke (by simp) hkey
      rw [← List.append_assoc, held_snoc, Function.update_of_ne hother]
      exact ih fun stroke hmem => hlater stroke (List.mem_append_left _ hmem)

theorem held_of_lamp (hlamp : lamp group strokes = true) :
    ∃ key, group key ∧ held strokes key = true := by
  induction strokes using List.reverseRecOn with
  | nil => cases hlamp
  | append_singleton strokes stroke ih =>
      rw [lamp_snoc] at hlamp
      by_cases hgroup : group stroke.key
      · rw [if_pos hgroup] at hlamp
        refine ⟨stroke.key, hgroup, ?_⟩
        rw [held_snoc, Function.update_self, hlamp]
      · rw [if_neg hgroup] at hlamp
        obtain ⟨key, hkey, hheld⟩ := ih hlamp
        have hother : key ≠ stroke.key := by
          rintro rfl
          exact hgroup hkey
        exact ⟨key, hkey, by rw [held_snoc, Function.update_of_ne hother, hheld]⟩

theorem leavesOne_of_held {key : κ} (hkey : group key)
    (hheld : held strokes key = true) (hlamp : lamp group strokes = false) :
    LeavesOne group strokes := by
  induction strokes using List.reverseRecOn with
  | nil => cases hheld
  | append_singleton strokes stroke ih =>
      rw [lamp_snoc] at hlamp
      rw [held_snoc] at hheld
      by_cases hgroup : group stroke.key
      · rw [if_pos hgroup] at hlamp
        have hother : key ≠ stroke.key := by
          rintro rfl
          rw [Function.update_self, hlamp] at hheld
          cases hheld
        rw [Function.update_of_ne hother] at hheld
        refine ⟨strokes, stroke.key, [], ?_, hgroup, nofun, key, hkey, hother,
          hheld⟩
        rw [← hlamp]
      · have hother : key ≠ stroke.key := by
          rintro rfl
          exact hgroup hkey
        rw [if_neg hgroup] at hlamp
        rw [Function.update_of_ne hother] at hheld
        obtain ⟨earlier, released, later, rfl, hreleased, hlater, hleft⟩ :=
          ih hheld hlamp
        refine ⟨earlier, released, later ++ [stroke], by simp, hreleased, ?_,
          hleft⟩
        intro last hlast
        rcases List.mem_append.mp hlast with hmem | hmem
        · exact hlater last hmem
        · rwa [List.mem_singleton.mp hmem]

theorem LeavesOne.dark (hleaves : LeavesOne group strokes) :
    lamp group strokes = false ∧ ∃ key, group key ∧ held strokes key = true := by
  obtain ⟨earlier, released, later, rfl, hreleased, hlater, key, hkey, hne, hheld⟩ :=
    hleaves
  constructor
  · induction later using List.reverseRecOn with
    | nil => rw [lamp_snoc, if_pos hreleased]
    | append_singleton later stroke ih =>
        rw [← List.cons_append, ← List.append_assoc, lamp_snoc,
          if_neg (hlater stroke (by simp))]
        exact ih fun stroke hmem => hlater stroke (List.mem_append_left _ hmem)
  · refine ⟨key, hkey, ?_⟩
    rw [← List.singleton_append, ← List.append_assoc,
      held_of_others hkey hlater, held_snoc, Function.update_of_ne hne, hheld]

/-- The lamp shows whether a key of the group is held, unless one was left behind. -/
theorem lamp_iff :
    (lamp group strokes = true ↔ ∃ key, group key ∧ held strokes key = true) ↔
      ¬LeavesOne group strokes := by
  constructor
  · intro hshows hleaves
    obtain ⟨hdark, hheld⟩ := hleaves.dark
    rw [hshows.mpr hheld] at hdark
    cases hdark
  · intro hnone
    refine ⟨held_of_lamp, ?_⟩
    rintro ⟨key, hkey, hheld⟩
    by_contra hdark
    exact hnone (leavesOne_of_held hkey hheld (Bool.eq_false_iff.mpr hdark))

theorem lamp_single (key : κ) (strokes : List (Stroke κ)) :
    lamp (· = key) strokes = held strokes key := by
  have hnone : ¬LeavesOne (· = key) strokes := by
    rintro ⟨earlier, released, later, -, rfl, -, other, rfl, hne, -⟩
    exact hne rfl
  have hshows := lamp_iff.mpr hnone
  rw [Bool.eq_iff_iff, hshows]
  exact exists_eq_left

end HeldKeys

end X86Os32.Library
