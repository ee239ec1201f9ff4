import Mathlib.Algebra.Group.Nat.Defs
import Mathlib.Data.List.Nodup
import Mathlib.Logic.Function.Basic

namespace X86Os32.Library

/-! Parties that wait for a number of ticks, and the delta list that keeps them
in the order in which they are due. -/

/-- Who has registered, in this order, with the tick at which each is due. -/
structure Timetable (τ : Type) where
  now : Nat
  registered : List (τ × Nat)

namespace Timetable

def register (table : Timetable τ) (party : τ) (ticks : Nat) : Timetable τ :=
  { table with registered := table.registered ++ [(party, table.now + ticks)] }

def withdraw [DecidableEq τ] (table : Timetable τ) (party : τ) :
    Timetable τ :=
  { table with
    registered := table.registered.filter fun entry => entry.1 ≠ party }

def due (table : Timetable τ) : List τ :=
  (table.registered.filter fun entry => entry.2 = table.now + 1).map Prod.fst

def tick (table : Timetable τ) : Timetable τ where
  now := table.now + 1
  registered := table.registered.filter fun entry => entry.2 ≠ table.now + 1

end Timetable

/-- The entries are sorted in a stable way, if they are sorted. -/
def Stable (entries registered : List (τ × Nat)) : Prop :=
  ∀ time, (entries.filter fun entry => entry.2 = time) =
    registered.filter fun entry => entry.2 = time

theorem Stable.mem_iff {entries registered : List (τ × Nat)}
    (hstable : Stable entries registered) (entry : τ × Nat) :
    entry ∈ entries ↔ entry ∈ registered := by
  have hsame := congrArg (entry ∈ ·) (hstable entry.2)
  simpa using hsame

theorem Stable.filter {entries registered : List (τ × Nat)}
    (hstable : Stable entries registered) (keep : τ × Nat → Bool) :
    Stable (entries.filter keep) (registered.filter keep) := by
  intro time
  rw [List.filter_comm, hstable time, List.filter_comm]

theorem Stable.insert {before after registered : List (τ × Nat)}
    {entry : τ × Nat} (hstable : Stable (before ++ after) registered)
    (hafter : ∀ other ∈ after, entry.2 < other.2) :
    Stable (before ++ entry :: after) (registered ++ [entry]) := by
  intro time
  have hsame := hstable time
  rw [List.filter_append] at hsame ⊢
  rw [List.filter_append, ← hsame]
  by_cases htime : entry.2 = time
  · have hnone : (after.filter fun other => other.2 = time) = [] := by
      rw [List.filter_eq_nil_iff]
      intro other hother
      have hlt := hafter other hother
      simp only [decide_eq_true_eq]
      omega
    simp [htime, hnone]
  · simp [htime]

theorem filter_absent {entries : List (τ × Nat)} {time : Nat}
    (habsent : ∀ entry ∈ entries, entry.2 ≠ time) :
    (entries.filter fun entry => entry.2 = time) = [] ∧
      (entries.filter fun entry => entry.2 ≠ time) = entries := by
  constructor
  · rw [List.filter_eq_nil_iff]
    simpa using habsent
  · rw [List.filter_eq_self]
    simpa using habsent

/-! ### Times as differences -/

/-- The time of every entry is stored as the difference to the one before, and
that of the first entry as the difference to `base`. -/
def Differences (delta : τ → Nat) : Nat → List (τ × Nat) → Prop
  | _, [] => True
  | base, entry :: rest =>
      entry.2 = base + delta entry.1 ∧ Differences delta entry.2 rest

def remaining [DecidableEq τ] (delta : τ → Nat) (party : τ) : List τ → Nat
  | [] => 0
  | other :: rest =>
      if other = party then delta other
      else delta other + remaining delta party rest

namespace Differences

variable {delta delta' : τ → Nat} {base : Nat} {entries : List (τ × Nat)}
  {entry : τ × Nat} {rest before after : List (τ × Nat)}

theorem base_le (hdifferences : Differences delta base entries) :
    ∀ entry ∈ entries, base ≤ entry.2 := by
  induction entries generalizing base with
  | nil => simp
  | cons entry rest ih =>
      obtain ⟨htime, hrest⟩ := hdifferences
      intro other hother
      rcases List.mem_cons.mp hother with rfl | hother
      · omega
      · have hle := ih hrest other hother
        omega

theorem first_le (hdifferences : Differences delta base (entry :: rest)) :
    ∀ other ∈ rest, entry.2 ≤ other.2 :=
  hdifferences.2.base_le

theorem later (hdifferences : Differences delta base (entry :: rest))
    (hfirst : delta entry.1 ≠ 0) :
    ∀ other ∈ entry :: rest, other.2 ≠ base := by
  have htime := hdifferences.1
  intro other hother
  rcases List.mem_cons.mp hother with rfl | hother
  · omega
  · have hle := hdifferences.first_le other hother
    omega

theorem congr (hdifferences : Differences delta base entries)
    (hsame : ∀ entry ∈ entries, delta' entry.1 = delta entry.1) :
    Differences delta' base entries := by
  induction entries generalizing base with
  | nil => trivial
  | cons entry rest ih =>
      refine ⟨?_, ih hdifferences.2 fun other hother =>
        hsame other (List.mem_cons_of_mem _ hother)⟩
      rw [hsame entry List.mem_cons_self]
      exact hdifferences.1

theorem remaining_eq [DecidableEq τ]
    (hdifferences : Differences delta base entries)
    (hnodup : (entries.map Prod.fst).Nodup) (hmem : entry ∈ entries) :
    base + remaining delta entry.1 (entries.map Prod.fst) = entry.2 := by
  induction entries generalizing base with
  | nil => cases hmem
  | cons other rest ih =>
      obtain ⟨htime, hrest⟩ := hdifferences
      obtain ⟨hfresh, hnodup⟩ := List.nodup_cons.mp hnodup
      rcases List.mem_cons.mp hmem with rfl | hmem
      · simp [remaining, htime]
      · have hne : other.1 ≠ entry.1 := by
          intro heq
          exact hfresh (heq ▸ List.mem_map_of_mem hmem)
        have hrest' := ih hrest hnodup hmem
        simp only [List.map_cons, remaining, hne, if_false]
        omega

theorem neighbours_le {next : τ × Nat}
    (hdifferences :
      Differences delta base (before ++ entry :: next :: rest)) :
    base + (delta entry.1 + delta next.1) ≤ next.2 := by
  induction before generalizing base with
  | nil =>
      obtain ⟨htime, hnext, -⟩ := hdifferences
      omega
  | cons other before ih =>
      obtain ⟨htime, hrest⟩ := hdifferences
      have hle := ih hrest
      omega

theorem tick [DecidableEq τ]
    (hdifferences : Differences delta base (entry :: rest))
    (hfuture : base < entry.2) (hfresh : entry.1 ∉ rest.map Prod.fst) :
    Differences (Function.update delta entry.1 (delta entry.1 - 1)) (base + 1)
      (entry :: rest) := by
  obtain ⟨htime, hrest⟩ := hdifferences
  refine ⟨?_, hrest.congr fun other hother => ?_⟩
  · rw [Function.update_self]
    omega
  · refine Function.update_of_ne ?_ ..
    intro heq
    exact hfresh (heq ▸ List.mem_map_of_mem hother)

/-- The differences when the one behind a party that leaves inherits its
difference. -/
def bequeath [DecidableEq τ] (delta : τ → Nat) (party : τ) :
    List τ → τ → Nat
  | [] => delta
  | next :: _ => Function.update delta next (delta next + delta party)

theorem leave [DecidableEq τ]
    (hdifferences : Differences delta base (before ++ entry :: after))
    (hnodup : ((before ++ entry :: after).map Prod.fst).Nodup) :
    Differences (bequeath delta entry.1 (after.map Prod.fst)) base
      (before ++ after) := by
  induction before generalizing base with
  | nil =>
      obtain ⟨htime, hafter⟩ := hdifferences
      cases after with
      | nil => trivial
      | cons next rest =>
          obtain ⟨hnext, hrest⟩ := hafter
          have hfresh : next.1 ∉ rest.map Prod.fst := by
            have htail := (List.nodup_cons.mp hnodup).2
            exact (List.nodup_cons.mp htail).1
          refine ⟨?_, hrest.congr fun other hother => ?_⟩
          · simp only [bequeath, List.map_cons, Function.update_self]
            omega
          · refine Function.update_of_ne ?_ ..
            intro heq
            exact hfresh (heq ▸ List.mem_map_of_mem hother)
  | cons other before ih =>
      obtain ⟨htime, hrest⟩ := hdifferences
      obtain ⟨hfresh, hnodup⟩ := List.nodup_cons.mp hnodup
      refine ⟨?_, ih hrest hnodup⟩
      have hsame : bequeath delta entry.1 (after.map Prod.fst) other.1 =
          delta other.1 := by
        cases after with
        | nil => rfl
        | cons next rest =>
            refine Function.update_of_ne ?_ ..
            intro heq
            simp [heq] at hfresh
      rw [hsame]
      exact htime

end Differences

end X86Os32.Library
