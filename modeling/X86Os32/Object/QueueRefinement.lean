import X86Os32.Library.Runs
import X86Os32.Object.Queue

namespace X86Os32

open Library

/-! The calls of queues over one link refine the operations on lists. -/

inductive Call (α : Type)
  | enqueue (item : α)
  | dequeue
  | remove (item : α) (cmp : α → α → Bool)
  | insertFirst (item : α)
  | insertAfter (oldItem newItem : α)

def Queues.call [DecidableEq ι] [DecidableEq α] (qs : Queues ι α) (i : ι) :
    Call α → Except Stop (Option α × Queues ι α)
  | .enqueue item => .ok (none, qs.enqueue i item)
  | .dequeue => .ok (qs.dequeue i)
  | .remove item cmp => qs.removeWith i item cmp
  | .insertFirst item => .ok (none, qs.insertFirst i item)
  | .insertAfter oldItem newItem => .ok (none, qs.insertAfter i oldItem newItem)

def insertBehind [DecidableEq α] (oldItem newItem : α) : List α → List α
  | [] => []
  | item :: rest =>
      if item = oldItem then item :: newItem :: rest
      else item :: insertBehind oldItem newItem rest

namespace Call

def inserts : Call α → Option α
  | .enqueue item => some item
  | .insertFirst item => some item
  | .insertAfter _ newItem => some newItem
  | _ => none

/-- An inserted item is in no queue over the link; the one that it is inserted
behind is in this queue. -/
def Allowed (lists : ι → List α) (i : ι) (call : Call α) : Prop :=
  (∀ item ∈ call.inserts, ∀ j, item ∉ lists j) ∧
    ∀ oldItem newItem, call = .insertAfter oldItem newItem →
      oldItem ∈ lists i

def onList [DecidableEq α] (items : List α) : Call α → List α
  | .enqueue item => items ++ [item]
  | .dequeue => items.tail
  | .remove item cmp => items.eraseP (cmp item)
  | .insertFirst item => item :: items
  | .insertAfter oldItem newItem => insertBehind oldItem newItem items

def result (items : List α) : Call α → Option α
  | .dequeue => items.head?
  | .remove item cmp => items.find? (cmp item)
  | _ => none

end Call

variable [DecidableEq ι] [DecidableEq α] {qs : Queues ι α}
  {lists : ι → List α} {i : ι} {item other oldItem newItem : α}

omit [DecidableEq ι] in
theorem insertBehind_append {before after : List α} (hnot : oldItem ∉ before) :
    insertBehind oldItem newItem (before ++ oldItem :: after) =
      before ++ oldItem :: newItem :: after := by
  induction before with
  | nil => simp [insertBehind]
  | cons item rest ih =>
      rw [List.mem_cons, not_or] at hnot
      obtain ⟨hne, hrest⟩ := hnot
      simp [insertBehind, Ne.symm hne, ih hrest]

namespace Queues

/-! ### The links that a call writes -/

theorem Holds.enqueue_next (hholds : Holds qs lists) (hout : other ∉ lists i)
    (hne : other ≠ item) : (qs.enqueue i item).next other = qs.next other := by
  rcases (hholds.queue i).tail_cases with
    ⟨-, hempty⟩ | ⟨front, last, hsplit, -, htail⟩
  · rw [enqueue_of_head (by rw [hempty])]
    simp [hne]
  · have hneLast : other ≠ last := by
      rintro rfl
      simp [hsplit] at hout
    rw [enqueue_of_link htail]
    simp [hne, hneLast]

theorem Holds.dequeue_next (hholds : Holds qs lists) (hout : other ∉ lists i) :
    (qs.dequeue i).2.next other = qs.next other := by
  have hhead := (hholds.queue i).head_eq
  cases hlist : lists i with
  | nil =>
      rw [hlist] at hhead
      rw [dequeue_of_empty hhead]
  | cons first rest =>
      rw [hlist] at hhead hout
      have hne : other ≠ first := by
        rintro rfl
        simp at hout
      rw [dequeue_of_head hhead]
      simp [hne]

theorem insertFirst_next (hne : other ≠ item) :
    (qs.insertFirst i item).next other = qs.next other := by
  unfold insertFirst
  dsimp only
  split <;> simp [setNext, setHead, setTail, hne]

theorem insertAfter_next (hnew : other ≠ newItem) (hold : other ≠ oldItem) :
    (qs.insertAfter i oldItem newItem).next other = qs.next other := by
  unfold insertAfter
  dsimp only
  split <;> simp [setNext, setTail, hnew, hold]

/-! ### One call -/

theorem Holds.call {call : Call α} (hholds : Holds qs lists)
    (address : α ↪ Fin (2 ^ 32)) (hallowed : call.Allowed lists i) :
    ∃ qs', qs.call i call = .ok (call.result (lists i), qs') ∧
      Holds qs' (Function.update lists i (call.onList (lists i))) ∧
      ∀ other, other ∉ lists i → call.inserts ≠ some other →
        qs'.next other = qs.next other := by
  obtain ⟨hfresh, hbehind⟩ := hallowed
  cases call with
  | enqueue item =>
      refine ⟨_, rfl, hholds.enqueue (hfresh item rfl), ?_⟩
      intro other hout hne
      refine hholds.enqueue_next hout ?_
      rintro rfl
      exact hne rfl
  | dequeue =>
      refine ⟨(qs.dequeue i).2, ?_, ?_, fun _ hout _ =>
        hholds.dequeue_next hout⟩
      · have hhead := (hholds.queue i).head_eq
        change Except.ok (qs.dequeue i) = _
        cases hlist : lists i with
        | nil =>
            rw [hholds.dequeue_nil hlist]
            rfl
        | cons first rest =>
            rw [hlist] at hhead
            rw [dequeue_of_head hhead]
            rfl
      · cases hlist : lists i with
        | nil =>
            rw [hholds.dequeue_nil hlist]
            change Holds qs (Function.update lists i [])
            rwa [← hlist, Function.update_eq_self]
        | cons first rest =>
            obtain ⟨qs', hdone, hholds'⟩ := hholds.dequeue hlist
            rw [hdone]
            exact hholds'
  | remove item cmp =>
      obtain ⟨qs', hdone, hholds', hnext⟩ :=
        hholds.removeWith item cmp (hholds.length_le address i)
      exact ⟨qs', hdone, hholds', fun other hout _ => hnext other (.inl hout)⟩
  | insertFirst item =>
      refine ⟨_, rfl, hholds.insertFirst (hfresh item rfl), ?_⟩
      intro other _ hne
      refine insertFirst_next ?_
      rintro rfl
      exact hne rfl
  | insertAfter oldItem newItem =>
      have hmem := hbehind oldItem newItem rfl
      obtain ⟨before, after, hlist⟩ := List.append_of_mem hmem
      have hnot : oldItem ∉ before := by
        have hnodup := (hholds.queue i).nodup
        rw [hlist, List.nodup_append] at hnodup
        intro hbefore
        exact hnodup.2.2 oldItem hbefore oldItem (by simp) rfl
      refine ⟨_, rfl, ?_, ?_⟩
      · have hinserted := hholds.insertAfter hlist (hfresh newItem rfl)
        rw [← insertBehind_append hnot, ← hlist] at hinserted
        exact hinserted
      · intro other hout hne
        refine insertAfter_next ?_ ?_
        · rintro rfl
          exact hne rfl
        · rintro rfl
          exact hout hmem

end Queues

/-! ### Sequences of calls -/

structure Refinement (ι α : Type) where
  queues : Queues ι α
  lists : ι → List α

namespace Refinement

def Initial (x : Refinement ι α) : Prop :=
  ∃ next, x = ⟨⟨next, fun _ => .empty⟩, fun _ => []⟩

def Step (x : Refinement ι α) (event : ι × Call α) (y : Refinement ι α) :
    Prop :=
  event.2.Allowed x.lists event.1 ∧
    (∃ result, x.queues.call event.1 event.2 = .ok (result, y.queues)) ∧
    y.lists = Function.update x.lists event.1
      (event.2.onList (x.lists event.1))

def Reachable : Refinement ι α → Prop := Runs.Reachable Initial Step

variable {x : Refinement ι α}

theorem Reachable.holds (address : α ↪ Fin (2 ^ 32)) (hreach : Reachable x) :
    x.queues.Holds x.lists := by
  apply Runs.Reachable.invariant hreach
  · rintro x ⟨next, rfl⟩
    refine ⟨fun i => ⟨rfl, rfl, List.nodup_nil⟩, ?_⟩
    intro i j item hmem
    simp at hmem
  · rintro x ⟨i, call⟩ y hholds ⟨hallowed, ⟨result, hcall⟩, hlists⟩
    obtain ⟨qs', hdone, hholds', -⟩ := hholds.call address hallowed
    obtain ⟨-, rfl⟩ := Prod.mk.inj (Except.ok.inj (hcall.symm.trans hdone))
    rw [hlists]
    exact hholds'

/-- Every call that is allowed returns. -/
theorem Reachable.call (address : α ↪ Fin (2 ^ 32)) (hreach : Reachable x)
    (i : ι) (call : Call α) (hallowed : call.Allowed x.lists i) :
    ∃ y, Reachable y ∧
      y.lists = Function.update x.lists i (call.onList (x.lists i)) := by
  obtain ⟨queues, hdone, -⟩ := (hreach.holds address).call address hallowed
  let y : Refinement ι α :=
    ⟨queues, Function.update x.lists i (call.onList (x.lists i))⟩
  have hstep : Step x (i, call) y := ⟨hallowed, ⟨_, hdone⟩, rfl⟩
  exact ⟨y, .next hreach hstep, rfl⟩

end Refinement

/-- After any sequence of calls the queues hold the lists that the list
operations yield.  Every further call returns what the operation takes out, and
writes no link of an item outside the queue but of the one it inserts. -/
theorem queue_refines_list {x : Refinement ι α} (address : α ↪ Fin (2 ^ 32))
    (hreach : Refinement.Reachable x) :
    x.queues.Holds x.lists ∧
    ∀ i (call : Call α), call.Allowed x.lists i →
      ∃ queues, x.queues.call i call =
          .ok (call.result (x.lists i), queues) ∧
        queues.Holds (Function.update x.lists i (call.onList (x.lists i))) ∧
        ∀ other, other ∉ x.lists i → call.inserts ≠ some other →
          queues.next other = x.queues.next other :=
  ⟨hreach.holds address, fun _ _ hallowed =>
    (hreach.holds address).call address hallowed⟩

/-- The links lead through two queues after calls of all methods. -/
theorem queue_refines_list_two :
    ∃ x : Refinement Bool (Fin (2 ^ 32)), x.queues.Holds x.lists ∧
      x.lists true = [4, 5] ∧ x.lists false = [1] ∧
      x.queues.first true = some 4 := by
  let next : Fin (2 ^ 32) → Option (Fin (2 ^ 32)) := fun _ => none
  have hstart : Refinement.Reachable (ι := Bool)
    ⟨⟨next, fun _ => .empty⟩, fun _ => []⟩ := .start ⟨next, rfl⟩
  obtain ⟨x₁, hreach₁, hlists₁⟩ := hstart.call (.refl _) false (.enqueue 1)
    ⟨by simp [Call.inserts], by simp⟩
  obtain ⟨x₂, hreach₂, hlists₂⟩ := hreach₁.call (.refl _) true (.enqueue 2)
    ⟨by simp [Call.inserts, hlists₁, Call.onList], by simp⟩
  obtain ⟨x₃, hreach₃, hlists₃⟩ := hreach₂.call (.refl _) true (.insertFirst 3)
    ⟨by simp [Call.inserts, hlists₁, hlists₂, Call.onList], by simp⟩
  have htrue₃ : x₃.lists true = [3, 2] := by
    simp [hlists₁, hlists₂, hlists₃, Call.onList]
  have hfalse₃ : x₃.lists false = [1] := by
    simp [hlists₁, hlists₂, hlists₃, Call.onList]
  obtain ⟨x₄, hreach₄, hlists₄⟩ := hreach₃.call (.refl _) true
    (.insertAfter 2 5) ⟨by simp [Call.inserts, htrue₃, hfalse₃], by
      rintro oldItem newItem heq
      obtain ⟨rfl, rfl⟩ := Call.insertAfter.inj heq
      simp [htrue₃]⟩
  obtain ⟨x₅, hreach₅, hlists₅⟩ := hreach₄.call (.refl _) true
    (.insertAfter 3 4) ⟨by
      simp [Call.inserts, Call.onList, hlists₄, htrue₃, hfalse₃,
        insertBehind], by
      rintro oldItem newItem heq
      obtain ⟨rfl, rfl⟩ := Call.insertAfter.inj heq
      simp [Call.onList, hlists₄, htrue₃, insertBehind]⟩
  obtain ⟨x₆, hreach₆, hlists₆⟩ := hreach₅.call (.refl _) true
    (.remove 2 fun a b => a == b) ⟨by simp [Call.inserts], by simp⟩
  obtain ⟨x₇, hreach₇, hlists₇⟩ := hreach₆.call (.refl _) true .dequeue
    ⟨by simp [Call.inserts], by simp⟩
  have htrue : x₇.lists true = [4, 5] := by
    simp [hlists₇, hlists₆, hlists₅, hlists₄, htrue₃, Call.onList,
      insertBehind]
  have hfalse : x₇.lists false = [1] := by
    simp [hlists₇, hlists₆, hlists₅, hlists₄, hfalse₃]
  have hholds := (queue_refines_list (.refl _) hreach₇).1
  refine ⟨x₇, hholds, htrue, hfalse, ?_⟩
  have hhead := (hholds.queue true).head_eq
  rwa [htrue] at hhead

end X86Os32
