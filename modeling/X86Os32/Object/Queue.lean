import Mathlib.Algebra.Group.Nat.Defs
import Mathlib.Data.Fintype.Card
import X86Os32.Debug.Assert
import X86Os32.Library.LinkChain

namespace X86Os32

open Library.LinkChain

/-! The singly linked queue of `object/queue.h`.  The `next` pointers lie in the
items, so all queues over one link share them. -/

/-- What a pointer to a pointer to an item points to: the head of the queue or
the link of an item. -/
inductive Place (α : Type)
  | head
  | link (item : α)
deriving DecidableEq

structure Queue (α : Type) where
  head : Option α
  tail : Place α

/-- Queues over one link: the link of every item, and the queue objects. -/
structure Queues (ι α : Type) where
  next : α → Option α
  queue : ι → Queue α

/-- The constructor of `Queue`. -/
def Queue.empty : Queue α := ⟨none, .head⟩

namespace Queues

variable [DecidableEq ι] [DecidableEq α]

def construct (qs : Queues ι α) (i : ι) : Queues ι α :=
  { qs with queue := Function.update qs.queue i .empty }

def setNext (qs : Queues ι α) (item : α) (value : Option α) : Queues ι α :=
  { qs with next := Function.update qs.next item value }

def setHead (qs : Queues ι α) (i : ι) (value : Option α) : Queues ι α :=
  let queue := { qs.queue i with head := value }
  { qs with queue := Function.update qs.queue i queue }

def setTail (qs : Queues ι α) (i : ι) (value : Place α) : Queues ι α :=
  let queue := { qs.queue i with tail := value }
  { qs with queue := Function.update qs.queue i queue }

def read (qs : Queues ι α) (i : ι) : Place α → Option α
  | .head => (qs.queue i).head
  | .link item => qs.next item

def write (qs : Queues ι α) (i : ι) (place : Place α) (value : Option α) :
    Queues ι α :=
  match place with
  | .head => qs.setHead i value
  | .link item => qs.setNext item value

def enqueue (qs : Queues ι α) (i : ι) (item : α) : Queues ι α :=
  let qs := qs.setNext item none
  let qs := qs.write i (qs.queue i).tail (some item)
  qs.setTail i (.link item)

def dequeue (qs : Queues ι α) (i : ι) : Option α × Queues ι α :=
  match (qs.queue i).head with
  | none => (none, qs)
  | some out =>
      let qs := qs.setHead i (qs.next out)
      let qs := if (qs.queue i).head = none then qs.setTail i .head else qs
      (some out, qs.setNext out none)

/-- The loop of `remove`, at `current`, with the place `prev` that points to
it. -/
def removeFrom (qs : Queues ι α) (i : ι) (item : α) (cmp : α → α → Bool)
    (prev : Place α) : Nat → Option α → Except Stop (Option α × Queues ι α)
  | _, none => .ok (none, qs)
  | 0, some _ => .error .endlessLoop
  | fuel + 1, some current =>
      if cmp item current then
        let qs := qs.write i prev (qs.next current)
        let qs :=
          if (qs.queue i).tail = .link current then qs.setTail i prev else qs
        .ok (some current, qs)
      else removeFrom qs i item cmp (.link current) fuel (qs.next current)

/-- A walk that has not met its end after as many items as there are addresses
never meets it. -/
def addresses : Nat := 2 ^ 32

def removeWith (qs : Queues ι α) (i : ι) (item : α) (cmp : α → α → Bool) :
    Except Stop (Option α × Queues ι α) :=
  removeFrom qs i item cmp .head addresses (qs.queue i).head

def remove (qs : Queues ι α) (i : ι) (item : α) :
    Except Stop (Option α × Queues ι α) :=
  removeWith qs i item fun a b => a == b

def insertFirst (qs : Queues ι α) (i : ι) (item : α) : Queues ι α :=
  let qs := qs.setNext item (qs.queue i).head
  let qs := qs.setHead i (some item)
  if (qs.queue i).tail = .head then qs.setTail i (.link item) else qs

def insertAfter (qs : Queues ι α) (i : ι) (oldItem newItem : α) :
    Queues ι α :=
  let qs := qs.setNext newItem (qs.next oldItem)
  let qs := qs.setNext oldItem (some newItem)
  if qs.read i (qs.queue i).tail = some newItem then
    qs.setTail i (.link newItem)
  else qs

def first (qs : Queues ι α) (i : ι) : Option α := (qs.queue i).head

end Queues

def lastPlace (items : List α) : Place α :=
  match items.getLast? with
  | none => .head
  | some item => .link item

/-- The queue object holds exactly `items`, in this order. -/
structure IsQueue (next : α → Option α) (queue : Queue α) (items : List α) :
    Prop where
  segment : Segment next none queue.head items
  tail_eq : queue.tail = lastPlace items
  nodup : items.Nodup

/-- Every queue holds its list, and no item is in two of them. -/
structure Queues.Holds (qs : Queues ι α) (lists : ι → List α) : Prop where
  queue : ∀ i, IsQueue qs.next (qs.queue i) (lists i)
  apart : ∀ i j item, item ∈ lists i → item ∈ lists j → i = j

theorem update_unit (items items' : α) :
    Function.update (fun _ : Unit => items) () items' = fun _ => items' := by
  funext i
  exact Function.update_self ..

@[simp] theorem lastPlace_nil : lastPlace ([] : List α) = .head := rfl

@[simp] theorem lastPlace_concat (items : List α) (item : α) :
    lastPlace (items ++ [item]) = .link item := by
  simp [lastPlace]

/-- A queue is untouched by links of items it does not hold. -/
theorem IsQueue.congr (hqueue : IsQueue next queue items)
    (hsame : ∀ item ∈ items, next' item = next item) :
    IsQueue next' queue items :=
  ⟨hqueue.segment.congr hsame, hqueue.tail_eq, hqueue.nodup⟩

theorem lastPlace_append (items : List α) {rest : List α} (hne : rest ≠ []) :
    lastPlace (items ++ rest) = lastPlace rest := by
  rcases List.eq_nil_or_concat rest with rfl | ⟨front, last, rfl⟩
  · exact absurd rfl hne
  · rw [List.concat_eq_append, ← List.append_assoc, lastPlace_concat,
      lastPlace_concat]

theorem IsQueue.head_cons (hqueue : IsQueue next queue (item :: rest)) :
    queue.head = some item ∧ Segment next none (next item) rest :=
  hqueue.segment

theorem IsQueue.head_nil (hqueue : IsQueue next queue []) :
    queue.head = none :=
  hqueue.segment

theorem IsQueue.head_eq (hqueue : IsQueue next queue items) :
    queue.head = items.head? := by
  cases items with
  | nil => exact hqueue.head_nil
  | cons item rest => exact hqueue.head_cons.1

theorem IsQueue.tail_cases (hqueue : IsQueue next queue items) :
    (items = [] ∧ queue = ⟨none, .head⟩) ∨
      ∃ front last, items = front ++ [last] ∧ last ∉ front ∧
        queue.tail = .link last := by
  rcases List.eq_nil_or_concat items with rfl | ⟨front, last, hsplit⟩
  · left
    obtain ⟨head, tail⟩ := queue
    obtain rfl : head = none := hqueue.segment
    obtain rfl : tail = .head := hqueue.tail_eq
    exact ⟨rfl, rfl⟩
  · right
    rw [List.concat_eq_append] at hsplit
    subst hsplit
    refine ⟨front, last, rfl, ?_, ?_⟩
    · have hnodup := hqueue.nodup
      rw [List.nodup_append] at hnodup
      intro hmem
      exact hnodup.2.2 last hmem last (by simp) rfl
    · rw [hqueue.tail_eq, lastPlace_concat]

theorem IsQueue.next_eq {before after : List α}
    (hqueue : IsQueue next queue (before ++ item :: after)) :
    next item = after.head? := by
  obtain ⟨middle, -, -, hafter⟩ := hqueue.segment.split
  cases after with
  | nil => exact hafter
  | cons second rest => exact hafter.1

theorem IsQueue.next_first
    (hqueue : IsQueue next queue (item :: rest)) :
    next item = rest.head? := by
  have hqueue' : IsQueue next queue ([] ++ item :: rest) := hqueue
  exact hqueue'.next_eq

namespace Queues

variable [DecidableEq ι] {qs qs' : Queues ι α} {lists : ι → List α} {i : ι}
  {item : α}

omit [DecidableEq ι] in
theorem Holds.length_le (hholds : Holds qs lists)
    (address : α ↪ Fin (2 ^ 32)) (i : ι) :
    (lists i).length ≤ addresses := by
  have hnodup := (hholds.queue i).nodup.map address.injective
  simpa [addresses] using hnodup.length_le_card

theorem Holds.replace (hholds : Holds qs lists)
    (hother : ∀ j, j ≠ i → qs'.queue j = qs.queue j)
    (hnext : ∀ other, other ∉ lists i → other ∉ items →
      qs'.next other = qs.next other)
    (hqueue : IsQueue qs'.next (qs'.queue i) items)
    (hfresh : ∀ other ∈ items, other ∈ lists i ∨ ∀ j, other ∉ lists j) :
    Holds qs' (Function.update lists i items) where
  queue j := by
    by_cases heq : j = i
    · subst heq
      simpa using hqueue
    · rw [Function.update_of_ne heq, hother j heq]
      refine (hholds.queue j).congr fun other hmem => hnext other ?_ ?_
      · intro hmemi
        exact heq (hholds.apart j i other hmem hmemi)
      · intro hitems
        rcases hfresh other hitems with hmemi | hnone
        · exact heq (hholds.apart j i other hmem hmemi)
        · exact hnone j hmem
  apart j k other hj hk := by
    have hmem : ∀ l, other ∈ Function.update lists i items l → l ≠ i →
        other ∈ lists l := by
      intro l hl hne
      rwa [Function.update_of_ne hne] at hl
    have hitems : other ∈ Function.update lists i items i →
        other ∈ lists i ∨ ∀ j, other ∉ lists j := by
      intro hl
      rw [Function.update_self] at hl
      exact hfresh other hl
    by_cases hji : j = i
    · subst hji
      by_cases hkj : k = j
      · exact hkj.symm
      · rcases hitems hj with hold | hnone
        · exact hholds.apart j k other hold (hmem k hk hkj)
        · exact absurd (hmem k hk hkj) (hnone k)
    · by_cases hki : k = i
      · subst hki
        rcases hitems hk with hold | hnone
        · exact hholds.apart j k other (hmem j hj hji) hold
        · exact absurd (hmem j hj hji) (hnone j)
      · exact hholds.apart j k other (hmem j hj hji) (hmem k hk hki)

theorem Holds.construct (hholds : Holds qs lists) (i : ι) :
    Holds (qs.construct i) (Function.update lists i []) := by
  refine hholds.replace (fun j hne => by simp [Queues.construct, hne])
    (fun _ _ _ => rfl) ?_ (by simp)
  exact ⟨by simp [Queues.construct, Queue.empty, Segment],
    by simp [Queues.construct, Queue.empty, lastPlace], by simp⟩

variable [DecidableEq α]

omit [DecidableEq ι] in
theorem Holds.setNext (hholds : Holds qs lists)
    (hfresh : ∀ i, item ∉ lists i) (value : Option α) :
    Holds (qs.setNext item value) lists where
  queue i := (hholds.queue i).congr fun other hother => by
    have hne : other ≠ item := by
      rintro rfl
      exact hfresh i hother
    simp [Queues.setNext, hne]
  apart := hholds.apart

theorem enqueue_of_head (htail : (qs.queue i).tail = .head) :
    qs.enqueue i item = ⟨Function.update qs.next item none,
      Function.update qs.queue i ⟨some item, .link item⟩⟩ := by
  simp [Queues.enqueue, Queues.write, Queues.setNext, Queues.setHead,
    Queues.setTail, htail]

theorem enqueue_of_link (htail : (qs.queue i).tail = .link last) :
    qs.enqueue i item =
      ⟨Function.update (Function.update qs.next item none) last (some item),
        Function.update qs.queue i ⟨(qs.queue i).head, .link item⟩⟩ := by
  simp [Queues.enqueue, Queues.write, Queues.setNext, Queues.setTail, htail]

theorem Holds.enqueue (hholds : Holds qs lists)
    (hfresh : ∀ j, item ∉ lists j) :
    Holds (qs.enqueue i item)
      (Function.update lists i (lists i ++ [item])) := by
  have hqueue := hholds.queue i
  have hitem := hfresh i
  have hnew : ∀ other ∈ lists i ++ [item],
      other ∈ lists i ∨ ∀ j, other ∉ lists j := by
    intro other hother
    rcases List.mem_append.mp hother with hold | hsingle
    · exact Or.inl hold
    · rw [List.mem_singleton] at hsingle
      exact Or.inr (hsingle ▸ hfresh)
  rcases hqueue.tail_cases with ⟨hnil, hempty⟩ | ⟨front, last, hsplit, hlast,
    htail⟩
  · rw [enqueue_of_head (by rw [hempty])]
    refine hholds.replace (fun j hne => by simp [hne]) ?_ ?_ hnew
    · intro other _ hother
      have hne : other ≠ item := by
        rintro rfl
        simp at hother
      simp [hne]
    · rw [hnil]
      exact ⟨by simp [Segment], by simp [lastPlace], by simp⟩
  · rw [enqueue_of_link htail]
    refine hholds.replace (fun j hne => by simp [hne]) ?_ ?_ hnew
    · intro other hold hother
      have hne : other ≠ item := by
        rintro rfl
        simp at hother
      have hneLast : other ≠ last := by
        rintro rfl
        simp [hsplit] at hold
      simp [hne, hneLast]
    · rw [hsplit] at hqueue hitem ⊢
      have hne : item ≠ last := by
        rintro rfl
        simp at hitem
      have hsegment : Segment (Function.update qs.next item none) none
          (qs.queue i).head (front ++ [last]) := by
        refine hqueue.segment.congr fun other hother => ?_
        have : other ≠ item := by
          rintro rfl
          exact hitem hother
        simp [this]
      have hends : Segment (Function.update (Function.update qs.next item
          none) last (some item)) none (some item) [item] := by
        simp [Segment, hne]
      refine ⟨?_, ?_, ?_⟩
      · simpa using (hsegment.redirect hlast (some item)).append hends
      · dsimp only
        rw [Function.update_self, lastPlace_concat]
      · rw [← List.concat_eq_append]
        exact List.Nodup.concat hitem hqueue.nodup

theorem dequeue_of_empty (hhead : (qs.queue i).head = none) :
    qs.dequeue i = (none, qs) := by
  simp [Queues.dequeue, hhead]

theorem dequeue_of_head (hhead : (qs.queue i).head = some item) :
    qs.dequeue i = (some item, ⟨Function.update qs.next item none,
      Function.update qs.queue i ⟨qs.next item,
        if qs.next item = none then .head else (qs.queue i).tail⟩⟩) := by
  by_cases hlast : qs.next item = none <;>
    simp [Queues.dequeue, Queues.setNext, Queues.setHead, Queues.setTail, hhead,
      hlast]

theorem Holds.dequeue (hholds : Holds qs lists)
    (hlist : lists i = item :: rest) :
    ∃ qs', qs.dequeue i = (some item, qs') ∧
      Holds qs' (Function.update lists i rest) := by
  have hqueue := hholds.queue i
  rw [hlist] at hqueue
  obtain ⟨hhead, hrest⟩ := hqueue.head_cons
  obtain ⟨hitem, hnodup⟩ := List.nodup_cons.mp hqueue.nodup
  refine ⟨_, dequeue_of_head hhead, hholds.replace (fun j hne => by simp [hne])
    ?_ ?_ ?_⟩
  · intro other hold _
    have hne : other ≠ item := by
      rintro rfl
      simp [hlist] at hold
    simp [hne]
  · have hsegment : Segment (Function.update qs.next item none) none
        (qs.next item) rest := by
      refine hrest.congr fun other hother => ?_
      have hne : other ≠ item := by
        rintro rfl
        exact hitem hother
      simp [hne]
    refine ⟨by simpa using hsegment, ?_, hnodup⟩
    cases rest with
    | nil =>
        have hnext : qs.next item = none := hrest
        simp [hnext]
    | cons second rest =>
        have hnext : qs.next item = some second := hrest.1
        have htail := hqueue.tail_eq
        rw [← List.singleton_append, lastPlace_append _ (by simp)] at htail
        simp [hnext, htail]
  · intro other hother
    rw [hlist]
    exact Or.inl (List.mem_cons_of_mem _ hother)

theorem Holds.dequeue_nil (hholds : Holds qs lists) (hlist : lists i = []) :
    qs.dequeue i = (none, qs) := by
  have hqueue := hholds.queue i
  rw [hlist] at hqueue
  exact dequeue_of_empty hqueue.head_nil

/-- Writing a link into the place behind `walked` leads the queue on to where
that link points. -/
private theorem write_lastPlace {walked : List α}
    (hwalked : Segment qs.next middle (qs.queue i).head walked)
    (hnodup : walked.Nodup) (value : Option α) :
    Segment (qs.write i (lastPlace walked) value).next value
        ((qs.write i (lastPlace walked) value).queue i).head walked ∧
      ((qs.write i (lastPlace walked) value).queue i).tail =
        (qs.queue i).tail ∧
      (∀ j, j ≠ i →
        (qs.write i (lastPlace walked) value).queue j = qs.queue j) ∧
      ∀ other, other ∉ walked →
        (qs.write i (lastPlace walked) value).next other = qs.next other := by
  rcases List.eq_nil_or_concat walked with rfl | ⟨front, last, hsplit⟩
  · refine ⟨?_, ?_, ?_, ?_⟩
    · simp [Queues.write, Queues.setHead, Segment]
    · simp [Queues.write, Queues.setHead]
    · intro j hne
      simp [Queues.write, Queues.setHead, hne]
    · intro other _
      rfl
  · rw [List.concat_eq_append] at hsplit
    subst hsplit
    rw [lastPlace_concat]
    have hlast : last ∉ front := by
      rw [List.nodup_append] at hnodup
      intro hmem
      exact hnodup.2.2 last hmem last (by simp) rfl
    refine ⟨hwalked.redirect hlast value, rfl, fun _ _ => rfl, ?_⟩
    intro other hother
    have hne : other ≠ last := by
      rintro rfl
      simp at hother
    simp [Queues.write, Queues.setNext, hne]

private theorem Holds.unlink {walked rest : List α} (hholds : Holds qs lists)
    (hlist : lists i = walked ++ item :: rest) :
    ∃ qs', (if ((qs.write i (lastPlace walked) (qs.next item)).queue i).tail =
          .link item then
        (qs.write i (lastPlace walked) (qs.next item)).setTail i
          (lastPlace walked)
        else qs.write i (lastPlace walked) (qs.next item)) = qs' ∧
      Holds qs' (Function.update lists i (walked ++ rest)) ∧
      ∀ other, other ∉ walked → qs'.next other = qs.next other := by
  have hqueue := hholds.queue i
  rw [hlist] at hqueue
  obtain ⟨middle, hwalked, -, hrest⟩ := hqueue.segment.split
  have hnodup := hqueue.nodup
  have hnodupRest : (walked ++ rest).Nodup :=
    hnodup.sublist ((List.Sublist.refl walked).append
      (List.sublist_cons_self item rest))
  rw [List.nodup_append] at hnodup
  obtain ⟨hnodupWalked, hnodupItem, hdisjoint⟩ := hnodup
  obtain ⟨hsegment, htail, hother, hnext⟩ :=
    write_lastPlace hwalked hnodupWalked (qs.next item)
  have htailEq := hqueue.tail_eq
  have hwhole : Segment (qs.write i (lastPlace walked) (qs.next item)).next none
      ((qs.write i (lastPlace walked) (qs.next item)).queue i).head
      (walked ++ rest) := by
    refine hsegment.append (hrest.congr fun other hmem => hnext other ?_)
    intro hmemWalked
    exact hdisjoint other hmemWalked other (by simp [hmem]) rfl
  have hold : ∀ other ∈ walked ++ rest,
      other ∈ lists i ∨ ∀ j, other ∉ lists j := by
    intro other hmem
    rw [hlist]
    left
    simp only [List.mem_append, List.mem_cons] at hmem ⊢
    exact hmem.imp_right Or.inr
  have hoff : ∀ other, other ∉ lists i → other ∉ walked ++ rest →
      (qs.write i (lastPlace walked) (qs.next item)).next other =
        qs.next other := by
    intro other _ hmem
    exact hnext other fun hmemWalked => hmem (List.mem_append_left _ hmemWalked)
  generalize qs.write i (lastPlace walked) (qs.next item) = written at *
  cases rest with
  | nil =>
      have hlast : (written.queue i).tail = .link item := by
        rw [htail, htailEq, lastPlace_concat]
      refine ⟨_, rfl, ?_, ?_⟩
      · rw [if_pos hlast]
        refine hholds.replace (fun j hne => ?_) hoff ?_ hold
        · simp [Queues.setTail, hne, hother j hne]
        · exact ⟨by simpa [Queues.setTail] using hwhole,
            by simp [Queues.setTail], hnodupRest⟩
      · rw [if_pos hlast]
        exact hnext
  | cons second rest =>
      have htailRest : (written.queue i).tail = lastPlace (second :: rest) := by
        rw [htail, htailEq, List.append_cons, lastPlace_append _ (by simp)]
      have hlast : (written.queue i).tail ≠ .link item := by
        rw [htailRest]
        obtain ⟨front, last, hsplit⟩ : ∃ front last,
            second :: rest = front ++ [last] :=
          ⟨_, _, (List.dropLast_append_getLast (by simp)).symm⟩
        rw [hsplit, lastPlace_concat]
        rintro hequal
        obtain rfl : last = item := by simpa using hequal
        have hmem : last ∈ second :: rest := by simp [hsplit]
        exact (List.nodup_cons.mp hnodupItem).1 hmem
      refine ⟨_, rfl, ?_, ?_⟩
      · rw [if_neg hlast]
        refine hholds.replace hother hoff ⟨hwhole, ?_, hnodupRest⟩ hold
        rw [htailRest, lastPlace_append _ (by simp)]
      · rw [if_neg hlast]
        exact hnext

private theorem Holds.removeFrom {walked rest : List α} {fuel : Nat}
    {cmp : α → α → Bool} (hholds : Holds qs lists)
    (hlist : lists i = walked ++ rest)
    (hstart : Segment qs.next none start rest)
    (hwalked : ∀ other ∈ walked, ¬ cmp item other)
    (hfuel : rest.length ≤ fuel) :
    ∃ qs', qs.removeFrom i item cmp (lastPlace walked) fuel start =
        .ok ((lists i).find? (cmp item), qs') ∧
      Holds qs' (Function.update lists i ((lists i).eraseP (cmp item))) ∧
      ∀ other, other ∉ lists i ∨ (lists i).find? (cmp item) = some other →
        qs'.next other = qs.next other := by
  induction rest generalizing walked fuel start with
  | nil =>
      obtain rfl : start = none := hstart
      rw [List.append_nil] at hlist
      subst hlist
      refine ⟨qs, ?_, ?_, fun _ _ => rfl⟩
      · rw [List.find?_eq_none.mpr hwalked]
        cases fuel <;> rfl
      · rw [List.eraseP_of_forall_not hwalked, Function.update_eq_self]
        exact hholds
  | cons current rest ih =>
      obtain ⟨rfl, hrest⟩ := hstart
      cases fuel with
      | zero => simp at hfuel
      | succ fuel =>
          by_cases heq : cmp item current
          · obtain ⟨qs', hdone, hholds', hnext⟩ := hholds.unlink hlist
            have hfind : (lists i).find? (cmp item) = some current := by
              rw [hlist, List.find?_append, List.find?_eq_none.mpr hwalked]
              simp [heq]
            have herase : (lists i).eraseP (cmp item) = walked ++ rest := by
              rw [hlist, List.eraseP_append_right _ hwalked,
                List.eraseP_cons_of_pos heq]
            rw [hfind, herase]
            refine ⟨qs', ?_, hholds', ?_⟩
            · simp only [Queues.removeFrom, heq, if_true]
              rw [hdone]
            · rintro other (hnot | hfound)
              · refine hnext other fun hmem => hnot ?_
                simp [hlist, hmem]
              · obtain rfl := Option.some.inj hfound
                exact hnext _ fun hmem => hwalked _ hmem heq
          · have hlist' : lists i = (walked ++ [current]) ++ rest := by
              simpa using hlist
            have hwalked' : ∀ other ∈ walked ++ [current],
                ¬ cmp item other := by
              intro other hother
              rcases List.mem_append.mp hother with hold | hnew
              · exact hwalked other hold
              · rwa [List.mem_singleton.mp hnew]
            have hstep := ih hlist' hrest hwalked' (by simpa using hfuel)
            simpa [Queues.removeFrom, heq] using hstep

theorem removeFrom_none {cmp : α → α → Bool} {prev : Place α} {fuel : Nat}
    {start : Option α}
    (hdone : qs.removeFrom i item cmp prev fuel start = .ok (none, qs')) :
    qs' = qs := by
  induction fuel generalizing prev start with
  | zero =>
      cases start with
      | none => exact (Prod.mk.inj (Except.ok.inj hdone)).2.symm
      | some current => cases hdone
  | succ fuel ih =>
      cases start with
      | none => exact (Prod.mk.inj (Except.ok.inj hdone)).2.symm
      | some current =>
          unfold Queues.removeFrom at hdone
          split at hdone
          · cases hdone
          · exact ih hdone

/-- `remove` takes out the first match, and leaves its link alone. -/
theorem Holds.removeWith (hholds : Holds qs lists) (item : α)
    (cmp : α → α → Bool) (hlength : (lists i).length ≤ Queues.addresses) :
    ∃ qs', qs.removeWith i item cmp =
        .ok ((lists i).find? (cmp item), qs') ∧
      Holds qs' (Function.update lists i ((lists i).eraseP (cmp item))) ∧
      ∀ other, other ∉ lists i ∨ (lists i).find? (cmp item) = some other →
        qs'.next other = qs.next other :=
  hholds.removeFrom (List.nil_append _).symm (hholds.queue i).segment
    (by simp) hlength

theorem find?_beq (items : List α) (item : α) :
    items.find? (fun other => item == other) =
      if item ∈ items then some item else none := by
  induction items with
  | nil => rfl
  | cons other rest ih =>
      by_cases heq : item = other
      · simp [heq]
      · have hne : (item == other) = false := by simpa using heq
        rw [List.find?_cons_of_neg (by simp [hne]), ih]
        simp [heq]

theorem Holds.remove (hholds : Holds qs lists) (item : α)
    (hlength : (lists i).length ≤ Queues.addresses) :
    ∃ qs', qs.remove i item =
        .ok (if item ∈ lists i then some item else none, qs') ∧
      Holds qs' (Function.update lists i ((lists i).erase item)) ∧
      qs'.next item = qs.next item := by
  obtain ⟨qs', hdone, hholds', hnext⟩ :=
    hholds.removeWith item (fun a b => a == b) hlength
  rw [find?_beq] at hdone hnext
  refine ⟨qs', hdone, ?_, hnext item ?_⟩
  · rwa [List.erase_eq_eraseP]
  · by_cases hmem : item ∈ lists i
    · exact Or.inr (if_pos hmem)
    · exact Or.inl hmem

theorem Holds.insertFirst (hholds : Holds qs lists)
    (hfresh : ∀ j, item ∉ lists j) :
    Holds (qs.insertFirst i item)
      (Function.update lists i (item :: lists i)) := by
  have hqueue := hholds.queue i
  have heq : qs.insertFirst i item =
      ⟨Function.update qs.next item (qs.queue i).head,
        Function.update qs.queue i ⟨some item,
          if (qs.queue i).tail = .head then .link item
          else (qs.queue i).tail⟩⟩ := by
    by_cases htail : (qs.queue i).tail = .head <;>
      simp [Queues.insertFirst, Queues.setNext, Queues.setHead, Queues.setTail,
        htail]
  rw [heq]
  refine hholds.replace (fun j hne => by simp [hne]) ?_ ?_ ?_
  · intro other _ hother
    have hne : other ≠ item := by
      rintro rfl
      simp at hother
    simp [hne]
  · have hsegment : Segment (Function.update qs.next item (qs.queue i).head)
        none (qs.queue i).head (lists i) := by
      refine hqueue.segment.congr fun other hother => ?_
      have hne : other ≠ item := by
        rintro rfl
        exact hfresh i hother
      simp [hne]
    refine ⟨?_, ?_, List.nodup_cons.mpr ⟨hfresh i, hqueue.nodup⟩⟩
    · simpa [Segment] using hsegment
    · rcases hqueue.tail_cases with ⟨hnil, hempty⟩ | ⟨front, last, hsplit, -,
        htail⟩
      · simp [hnil, hempty, lastPlace]
      · rw [hsplit, ← List.cons_append, lastPlace_concat]
        simp [htail]
  · intro other hother
    rcases List.mem_cons.mp hother with rfl | hother
    · exact Or.inr hfresh
    · exact Or.inl hother

theorem Holds.insertAfter {before after : List α} {oldItem : α}
    (hholds : Holds qs lists) (hlist : lists i = before ++ oldItem :: after)
    (hfresh : ∀ j, item ∉ lists j) :
    Holds (qs.insertAfter i oldItem item)
      (Function.update lists i (before ++ oldItem :: item :: after)) := by
  have hqueue := hholds.queue i
  have hnotin := hfresh i
  rw [hlist] at hqueue hnotin
  have hne : oldItem ≠ item := by
    rintro rfl
    simp at hnotin
  have hsplit : before ++ oldItem :: after = (before ++ [oldItem]) ++ after := by
    simp
  have hnodup := hqueue.nodup
  have hold : oldItem ∉ before := by
    rw [List.nodup_append] at hnodup
    intro hmem
    exact hnodup.2.2 oldItem hmem oldItem (by simp) rfl
  have hnodupNew : (before ++ oldItem :: item :: after).Nodup := by
    have hperm : (before ++ oldItem :: item :: after).Perm
        (item :: (before ++ oldItem :: after)) := by
      rw [List.append_cons before oldItem (item :: after), hsplit]
      exact List.perm_middle
    exact hperm.nodup_iff.mpr (List.nodup_cons.mpr ⟨hnotin, hnodup⟩)
  let next := Function.update (Function.update qs.next item (qs.next oldItem))
    oldItem (some item)
  have hnextItem : next item = qs.next oldItem := by
    simp [next, hne.symm]
  have hnextOff : ∀ other, other ≠ item → other ≠ oldItem →
      next other = qs.next other := by
    intro other hitem hother
    simp [next, hitem, hother]
  have hsegment : Segment next none (qs.queue i).head
      (before ++ oldItem :: item :: after) := by
    obtain ⟨middle, hbefore, hmiddle, hafter⟩ := hqueue.segment.split
    refine Segment.append (hbefore.congr fun other hother => ?_)
      ⟨hmiddle, ?_⟩
    · refine hnextOff other ?_ ?_
      · rintro rfl
        exact hnotin (List.mem_append_left _ hother)
      · rintro rfl
        exact hold hother
    · refine ⟨Function.update_self .., ?_⟩
      rw [hnextItem]
      refine hafter.congr fun other hother => hnextOff other ?_ ?_
      · rintro rfl
        exact hnotin (List.mem_append_right _ (List.mem_cons_of_mem _ hother))
      · rintro rfl
        rw [List.nodup_append] at hnodup
        exact (List.nodup_cons.mp hnodup.2.1).1 hother
  have heq : qs.insertAfter i oldItem item =
      ⟨next, Function.update qs.queue i ⟨(qs.queue i).head,
        lastPlace (before ++ oldItem :: item :: after)⟩⟩ := by
    rcases List.eq_nil_or_concat after with rfl | ⟨front, last, hlast⟩
    · have htail : (qs.queue i).tail = .link oldItem := by
        rw [hqueue.tail_eq, lastPlace_concat]
      rw [List.append_cons before oldItem [item], lastPlace_concat]
      simp [Queues.insertAfter, Queues.setNext, Queues.setTail, Queues.read,
        htail, next]
    · rw [List.concat_eq_append] at hlast
      subst hlast
      have hconcat : before ++ oldItem :: (front ++ [last]) =
          (before ++ oldItem :: front) ++ [last] := by simp
      have hconcatNew : before ++ oldItem :: item :: (front ++ [last]) =
          (before ++ oldItem :: item :: front) ++ [last] := by simp
      have htail : (qs.queue i).tail = .link last := by
        rw [hqueue.tail_eq, hconcat, lastPlace_concat]
      have hend : next last = none := by
        rw [hconcatNew] at hsegment
        exact hsegment.last_next
      rw [hconcatNew, lastPlace_concat]
      simp only [next] at hend
      simp [Queues.insertAfter, Queues.setNext, read, htail, hend, next]
      rw [← htail]
  rw [heq]
  refine hholds.replace (fun j hne => by simp [hne]) ?_ ?_ ?_
  · intro other hmem hother
    refine hnextOff other ?_ ?_
    · rintro rfl
      simp at hother
    · rintro rfl
      simp at hother
  · exact ⟨by simpa using hsegment, by simp, hnodupNew⟩
  · intro other hother
    rw [hlist]
    simp only [List.mem_append, List.mem_cons] at hother ⊢
    rcases hother with hother | rfl | rfl | hother
    · exact Or.inl (Or.inl hother)
    · exact Or.inl (Or.inr (Or.inl rfl))
    · exact Or.inr hfresh
    · exact Or.inl (Or.inr (Or.inr hother))

end Queues

end X86Os32
