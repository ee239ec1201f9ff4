import Mathlib.Data.List.Sublists
import Mathlib.Logic.Function.Basic
import X86Os32.Library.Word32

namespace X86Os32.Library

/-! A counting semaphore with a queue of waiting parties, and an account of what
has gone through it.  The counter is an `int`. -/

structure CountingSemaphore (τ : Type) where
  counter : Int
  waiting : List τ

namespace CountingSemaphore

variable {τ : Type}

/-- A token is granted at once, or its taker blocks; a token is released, or
handed to the first that waits; somebody stops waiting without a token. -/
inductive Action (τ : Type)
  | grant
  | block (t : τ)
  | release
  | hand (t : τ)
  | leave (t : τ)

inductive Step [DecidableEq τ] :
    CountingSemaphore τ → Action τ → CountingSemaphore τ → Prop
  | grant (hpos : 0 < n) :
      Step ⟨n, queue⟩ .grant ⟨n - 1, queue⟩
  | block (hclosed : n ≤ 0) (hfresh : t ∉ queue) :
      Step ⟨n, queue⟩ (.block t) ⟨n, queue ++ [t]⟩
  | release : Step ⟨n, []⟩ .release ⟨succInt n, []⟩
  | hand : Step ⟨n, t :: queue⟩ (.hand t) ⟨n, queue⟩
  | leave : Step ⟨n, queue⟩ (.leave t) ⟨n, queue.erase t⟩

def p (s : CountingSemaphore τ) (t : τ) : CountingSemaphore τ :=
  if s.counter > 0 then { s with counter := s.counter - 1 }
  else { s with waiting := s.waiting ++ [t] }

def v (s : CountingSemaphore τ) : Option τ × CountingSemaphore τ :=
  match s.waiting with
  | [] => (none, { s with counter := succInt s.counter })
  | t :: rest => (some t, { s with waiting := rest })

section Determined

variable [DecidableEq τ] {s s' : CountingSemaphore τ}

theorem Step.grant_eq (hstep : Step s .grant s') : s' = s.p t := by
  cases hstep with
  | grant hpos => exact (if_pos hpos).symm

theorem Step.block_eq (hstep : Step s (.block t) s') : s' = s.p t := by
  cases hstep with
  | block hclosed => exact (if_neg (Int.not_lt.mpr hclosed)).symm

theorem Step.release_eq (hstep : Step s .release s') : s.v = (none, s') := by
  cases hstep with
  | release => rfl

theorem Step.hand_eq (hstep : Step s (.hand t) s') : s.v = (some t, s') := by
  cases hstep with
  | hand => rfl

end Determined

/-- How many tokens were released and granted, how many have blocked, and at
which place in this order each blocked last.  `handed` are these places for the
parties that a token was handed to. -/
structure Account (τ : Type) where
  released : Nat
  granted : Nat
  clock : Nat
  since : τ → Nat
  handed : List Nat

namespace Account

def empty : Account τ := ⟨0, 0, 0, fun _ => 0, []⟩

def record [DecidableEq τ] (account : Account τ) : Action τ → Account τ
  | .grant => { account with granted := account.granted + 1 }
  | .block t => { account with
      clock := account.clock + 1
      since := Function.update account.since t account.clock }
  | .release => { account with released := account.released + 1 }
  | .hand t => { account with
      released := account.released + 1
      granted := account.granted + 1
      handed := account.handed ++ [account.since t] }
  | .leave _ => account

end Account

/-- The places in the order of blocking of those that a token was handed to,
followed by those that wait. -/
def order (s : CountingSemaphore τ) (account : Account τ) : List Nat :=
  account.handed ++ s.waiting.map account.since

structure Balanced (initial : Int) (s : CountingSemaphore τ)
    (account : Account τ) : Prop where
  nonneg : 0 ≤ s.counter
  closed : s.waiting ≠ [] → s.counter = 0
  conserved : initial + account.released = s.counter + account.granted
  ordered : (s.order account).Pairwise (· < ·)
  past : ∀ place ∈ s.order account, place < account.clock

theorem Balanced.start {initial : Int} (hinitial : 0 ≤ initial) :
    Balanced (τ := τ) initial ⟨initial, []⟩ .empty where
  nonneg := hinitial
  closed := fun h => absurd rfl h
  conserved := rfl
  ordered := .nil
  past := by simp [order, Account.empty]

theorem order_block [DecidableEq τ] {queue : List τ} {account : Account τ}
    (hfresh : t ∉ queue) :
    order ⟨n, queue ++ [t]⟩ (account.record (.block t)) =
      order ⟨n, queue⟩ account ++ [account.clock] := by
  have hothers : queue.map (Function.update account.since t account.clock) =
      queue.map account.since := by
    refine List.map_congr_left fun u hu => ?_
    have hne : u ≠ t := by
      rintro rfl
      exact hfresh hu
    exact Function.update_of_ne hne ..
  simp [order, Account.record, hothers]

theorem Balanced.step [DecidableEq τ] {initial : Int}
    {s s' : CountingSemaphore τ} {account : Account τ} {action : Action τ}
    (hbalanced : Balanced initial s account) (hstep : Step s action s')
    (hfits : action = .release → s.counter ≠ 2147483647) :
    Balanced initial s' (account.record action) := by
  obtain ⟨hnonneg, hclosed, hconserved, hordered, hpast⟩ := hbalanced
  cases hstep with
  | @grant n queue hpos =>
      refine ⟨?_, ?_, ?_, hordered, hpast⟩
      · change 0 ≤ n - 1
        omega
      · intro hwaiting
        have hzero : n = 0 := hclosed hwaiting
        omega
      · simp only [Account.record] at *
        push_cast
        omega
  | @block n queue t hlocked hfresh =>
      have hzero : n = 0 := Int.le_antisymm hlocked hnonneg
      refine ⟨hnonneg, fun _ => hzero, hconserved, ?_, ?_⟩
      · rw [order_block hfresh, List.pairwise_append]
        refine ⟨hordered, List.pairwise_singleton .., ?_⟩
        intro place hplace clock hclock
        obtain rfl := List.mem_singleton.mp hclock
        exact hpast place hplace
      · intro place hplace
        rw [order_block hfresh, List.mem_append] at hplace
        change place < account.clock + 1
        rcases hplace with hold | hnew
        · exact Nat.lt_succ_of_lt (hpast place hold)
        · obtain rfl := List.mem_singleton.mp hnew
          exact Nat.lt_succ_self _
  | @release n =>
      have hnext : succInt n = n + 1 := succInt_of_ne (hfits rfl)
      refine ⟨?_, fun h => absurd rfl h, ?_, hordered, hpast⟩
      · have : 0 ≤ n := hnonneg
        change 0 ≤ succInt n
        omega
      · simp only [Account.record, hnext] at *
        push_cast
        omega
  | @hand n t queue =>
      have hsame : order ⟨n, queue⟩ (account.record (.hand t)) =
          order ⟨n, t :: queue⟩ account := by
        simp [order, Account.record]
      refine ⟨hnonneg, fun _ => hclosed (by simp), ?_,
        hsame ▸ hordered, hsame ▸ hpast⟩
      simp only [Account.record] at *
      push_cast
      omega
  | @leave n queue t =>
      have hsublist : (order ⟨n, queue.erase t⟩ account).Sublist
          (order ⟨n, queue⟩ account) :=
        (List.erase_sublist.map account.since).append_left account.handed
      refine ⟨hnonneg, ?_, hconserved, hordered.sublist hsublist,
        fun place hplace => hpast place (hsublist.subset hplace)⟩
      intro hne
      refine hclosed fun hnil => hne ?_
      change queue = [] at hnil
      simp [hnil]

/-! ### A semaphore in a system, of which not every step concerns it -/

def Advance [DecidableEq τ] (s : CountingSemaphore τ) :
    Option (Action τ) → CountingSemaphore τ → Prop
  | none, s' => s' = s
  | some action, s' => Step s action s'

@[simp] theorem advance_some [DecidableEq τ] {s s' : CountingSemaphore τ}
    {action : Action τ} : Advance s (some action) s' ↔ Step s action s' :=
  Iff.rfl

def Account.recordAny [DecidableEq τ] (account : Account τ) :
    Option (Action τ) → Account τ
  | none => account
  | some action => account.record action

theorem Balanced.advance [DecidableEq τ] {initial : Int}
    {s s' : CountingSemaphore τ} {account : Account τ}
    {action : Option (Action τ)} (hbalanced : Balanced initial s account)
    (hadvance : Advance s action s')
    (hfits : action = some .release → s.counter ≠ 2147483647) :
    Balanced initial s' (account.recordAny action) := by
  cases action with
  | none =>
      obtain rfl : s' = s := hadvance
      exact hbalanced
  | some action =>
      exact hbalanced.step hadvance fun hrelease => hfits (congrArg some hrelease)

theorem Step.leave_absent [DecidableEq τ] {s : CountingSemaphore τ}
    (habsent : t ∉ s.waiting) : Step s (.leave t) s := by
  obtain ⟨n, queue⟩ := s
  have hstep : Step ⟨n, queue⟩ (.leave t) ⟨n, queue.erase t⟩ := .leave
  rwa [List.erase_of_not_mem habsent] at hstep

end CountingSemaphore

end X86Os32.Library
