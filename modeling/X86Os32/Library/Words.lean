import Mathlib.Data.List.TakeWhile

namespace X86Os32.Library

/-! The words of a list: its maximal non-empty runs of elements that are no
separators. -/

namespace Words

variable {α : Type}

def words (separates : α → Bool) (list : List α) : List (List α) :=
  (list.splitOnP separates).filter fun run => !run.isEmpty

/-- What the list has behind the separators at its beginning. -/
def skipped (separates : α → Bool) (list : List α) : List α :=
  list.dropWhile separates

def first (separates : α → Bool) (list : List α) : List α :=
  (skipped separates list).takeWhile fun a => !separates a

/-- What follows the separator that ends the first word. -/
def behind (separates : α → Bool) (list : List α) : List α :=
  ((skipped separates list).dropWhile fun a => !separates a).tail

/-- The first word again and again, each time with separators of its own. -/
def firsts : List (α → Bool) → List α → List (List α)
  | [], _ => []
  | separates :: rest, list =>
      first separates list :: firsts rest (behind separates list)

section Separators

variable (separates : α → Bool)

theorem words_nil : words separates [] = [] := rfl

theorem words_append_cons (list list' : List α) {a : α} (ha : separates a) :
    words separates (list ++ a :: list') =
      words separates list ++ words separates list' := by
  unfold words
  rw [List.splitOnP_append_cons list list' ha, List.filter_append]

theorem words_of_run {run : List α} (hrun : ∀ a ∈ run, separates a = false)
    (hne : run ≠ []) : words separates run = [run] := by
  unfold words
  rw [List.splitOnP_eq_singleton hrun]
  simp [hne]

theorem words_skipped (list : List α) :
    words separates (skipped separates list) = words separates list := by
  induction list with
  | nil => rfl
  | cons a list ih =>
      unfold skipped at ih ⊢
      cases ha : separates a with
      | true =>
          rw [List.dropWhile_cons_of_pos ha, ih]
          exact (words_append_cons separates [] list ha).symm
      | false => rw [List.dropWhile_cons_of_neg (by simp [ha])]

theorem not_separates_of_mem_first (list : List α) :
    ∀ a ∈ first separates list, separates a = false := by
  intro a ha
  simpa using List.mem_takeWhile_imp ha

theorem skipped_eq (list : List α) :
    (skipped separates list = first separates list ∧
      behind separates list = []) ∨
    ∃ a, separates a = true ∧ skipped separates list =
      first separates list ++ a :: behind separates list := by
  have hsplit : first separates list ++ (skipped separates list).dropWhile
      (fun a => !separates a) = skipped separates list :=
    List.takeWhile_append_dropWhile
  cases hrest : (skipped separates list).dropWhile fun a => !separates a with
  | nil =>
      rw [hrest, List.append_nil] at hsplit
      refine .inl ⟨hsplit.symm, ?_⟩
      rw [behind, hrest, List.tail_nil]
  | cons a rest =>
      have hhead := List.head_dropWhile_not (fun a => !separates a)
        (l := skipped separates list) (by rw [hrest]; exact List.cons_ne_nil a rest)
      simp only [hrest, List.head_cons] at hhead
      rw [hrest] at hsplit
      refine .inr ⟨a, by simpa using hhead, ?_⟩
      rw [behind, hrest, List.tail_cons]
      exact hsplit.symm

theorem skipped_eq_nil {list : List α} (hnone : first separates list = []) :
    skipped separates list = [] := by
  cases hskipped : skipped separates list with
  | nil => rfl
  | cons a rest =>
      have ha : separates a = false := by
        have hhead := List.head?_dropWhile_not separates list
        rw [skipped] at hskipped
        rwa [hskipped] at hhead
      rw [first, hskipped, List.takeWhile_cons_of_pos (by simp [ha])] at hnone
      cases hnone

theorem words_of_none {list : List α} (hnone : first separates list = []) :
    words separates list = [] := by
  rw [← words_skipped, skipped_eq_nil separates hnone, words_nil]

theorem words_of_first {list : List α} (hsome : first separates list ≠ []) :
    words separates list =
      first separates list :: words separates (behind separates list) := by
  have hrun := words_of_run separates
    (not_separates_of_mem_first separates list) hsome
  rw [← words_skipped]
  rcases skipped_eq separates list with ⟨hlast, hbehind⟩ | ⟨a, ha, hsplit⟩
  · rw [hlast, hbehind, hrun, words_nil]
  · calc words separates (skipped separates list)
        = words separates
            (first separates list ++ a :: behind separates list) := by
          rw [← hsplit]
      _ = first separates list :: words separates (behind separates list) := by
          rw [words_append_cons separates _ _ ha, hrun, List.singleton_append]

theorem behind_eq_nil {list : List α} (hnone : first separates list = []) :
    behind separates list = [] := by
  rw [behind, skipped_eq_nil separates hnone]
  rfl

theorem first_nil : first separates [] = [] := rfl

theorem firsts_nil (n : Nat) :
    firsts (List.replicate n separates) [] = List.replicate n [] := by
  induction n with
  | zero => rfl
  | succ n ih =>
      rw [List.replicate_succ, firsts, first_nil, List.replicate_succ]
      exact congrArg _ ih

theorem firsts_replicate (n : Nat) (list : List α) :
    firsts (List.replicate n separates) list =
      (words separates list ++ List.replicate n []).take n := by
  induction n generalizing list with
  | zero => rfl
  | succ n ih =>
      rw [List.replicate_succ, firsts]
      by_cases hnone : first separates list = []
      · rw [words_of_none separates hnone, behind_eq_nil separates hnone, hnone,
          firsts_nil, List.nil_append, List.take_replicate, Nat.min_self,
          List.replicate_succ]
      · rw [words_of_first separates hnone, List.cons_append,
          List.take_succ_cons, ih, List.take_append, List.take_append,
          List.take_replicate, List.take_replicate,
          Nat.min_eq_left (by omega), Nat.min_eq_left (by omega)]

end Separators

end Words

end X86Os32.Library
