import Mathlib.Logic.Function.Basic

namespace X86Os32

/-! The bounded buffer of `object/bbuffer.h`, with the single accesses that
`produce` and `consume` consist of. -/

/-- `inPos` and `outPos` are the fields `in` and `out`. -/
structure BBuffer (T : Type) (CAP : Nat) where
  data : Nat → T
  inPos : Nat
  outPos : Nat

namespace BBuffer

variable {T : Type} {CAP : Nat} (b : BBuffer T CAP)

def nextin : Nat := (b.inPos + 1) % CAP

/-- `data[in] = val` -/
def store (val : T) : BBuffer T CAP :=
  { b with data := Function.update b.data b.inPos val }

/-- `in = nextin` -/
def publish (nextin : Nat) : BBuffer T CAP := { b with inPos := nextin }

/-- `out = (out + 1) % CAP` -/
def release : BBuffer T CAP := { b with outPos := (b.outPos + 1) % CAP }

def Full : Prop := b.nextin = b.outPos

instance : Decidable b.Full := inferInstanceAs (Decidable (_ = _))

def produce (val : T) : Bool × BBuffer T CAP :=
  if b.Full then (false, b) else (true, (b.store val).publish b.nextin)

/-- Without a key, `val` is not written. -/
def consume : Option T × BBuffer T CAP :=
  if b.inPos = b.outPos then (none, b) else (some (b.data b.outPos), b.release)

/-- The buffer stores the items, in this order. -/
structure Holds (items : List T) : Prop where
  bound : items.length < CAP
  outPos_lt : b.outPos < CAP
  inPos_eq : b.inPos = (b.outPos + items.length) % CAP
  item : ∀ i < items.length,
    items[i]? = some (b.data ((b.outPos + i) % CAP))

def size : Nat := (b.inPos + CAP - b.outPos) % CAP

def Constructed : Prop := b.inPos = 0 ∧ b.outPos = 0

variable {b} {items : List T} {val : T}

theorem place_eq {a n : Nat} (ha : a < CAP) (hn : n ≤ CAP) :
    (a + n) % CAP = if a + n < CAP then a + n else a + n - CAP := by
  split
  · next hlt => exact Nat.mod_eq_of_lt hlt
  · next hle =>
    rw [Nat.mod_eq_sub_mod (Nat.le_of_not_lt hle)]
    exact Nat.mod_eq_of_lt (by omega)

theorem Constructed.holds (hconstructed : b.Constructed) (hpos : 0 < CAP) :
    b.Holds [] where
  bound := hpos
  outPos_lt := by
    rw [hconstructed.2]
    exact hpos
  inPos_eq := by
    rw [hconstructed.1, hconstructed.2]
    exact (Nat.zero_mod CAP).symm
  item i hi := absurd hi (Nat.not_lt_zero i)

namespace Holds

theorem nextin_eq (hholds : b.Holds items) :
    b.nextin = (b.outPos + (items.length + 1)) % CAP := by
  unfold nextin
  rw [hholds.inPos_eq, Nat.mod_add_mod, Nat.add_assoc]

theorem full_iff (hholds : b.Holds items) :
    b.Full ↔ items.length + 1 = CAP := by
  have hout := hholds.outPos_lt
  have hbound := hholds.bound
  unfold Full
  rw [hholds.nextin_eq, place_eq hout (by omega)]
  split <;> omega

theorem empty_iff (hholds : b.Holds items) :
    b.inPos = b.outPos ↔ items = [] := by
  have hout := hholds.outPos_lt
  have hbound := hholds.bound
  rw [hholds.inPos_eq, place_eq hout (by omega), List.eq_nil_iff_length_eq_zero]
  split <;> omega

theorem size_eq (hholds : b.Holds items) : b.size = items.length := by
  have hout := hholds.outPos_lt
  have hbound := hholds.bound
  unfold size
  rw [hholds.inPos_eq, place_eq hout (by omega)]
  split
  · have hsum : b.outPos + items.length + CAP - b.outPos =
        items.length + CAP := by omega
    rw [hsum, Nat.add_mod_right, Nat.mod_eq_of_lt hbound]
  · have hsum : b.outPos + items.length - CAP + CAP - b.outPos =
        items.length := by omega
    rw [hsum, Nat.mod_eq_of_lt hbound]

theorem store (hholds : b.Holds items) (val : T) : (b.store val).Holds items where
  bound := hholds.bound
  outPos_lt := hholds.outPos_lt
  inPos_eq := hholds.inPos_eq
  item i hi := by
    have hout := hholds.outPos_lt
    have hbound := hholds.bound
    have hne : (b.outPos + i) % CAP ≠ b.inPos := by
      rw [hholds.inPos_eq, place_eq hout (by omega), place_eq hout (by omega)]
      split <;> split <;> omega
    rw [hholds.item i hi]
    exact congrArg some (Function.update_of_ne hne ..).symm

theorem publish (hholds : b.Holds items) (hroom : items.length + 1 < CAP)
    (hval : b.data b.inPos = val) :
    (b.publish b.nextin).Holds (items ++ [val]) where
  bound := by simpa using hroom
  outPos_lt := hholds.outPos_lt
  inPos_eq := by
    rw [List.length_append, List.length_singleton]
    exact hholds.nextin_eq
  item i hi := by
    have hi' : i < items.length + 1 := by simpa using hi
    rcases Nat.lt_succ_iff_lt_or_eq.mp hi' with hlt | rfl
    · rw [List.getElem?_append_left hlt]
      exact hholds.item i hlt
    · rw [hholds.inPos_eq] at hval
      rw [List.getElem?_concat_length]
      exact congrArg some hval.symm

theorem head {rest : List T} (hholds : b.Holds (val :: rest)) :
    b.data b.outPos = val := by
  have hitem := hholds.item 0 (Nat.zero_lt_succ _)
  rw [Nat.add_zero, Nat.mod_eq_of_lt hholds.outPos_lt] at hitem
  exact (Option.some.inj hitem).symm

theorem release {rest : List T} (hholds : b.Holds (val :: rest)) :
    b.release.Holds rest where
  bound := Nat.lt_of_succ_lt hholds.bound
  outPos_lt := Nat.mod_lt _ (Nat.lt_of_le_of_lt (Nat.zero_le _) hholds.outPos_lt)
  inPos_eq := by
    have hin := hholds.inPos_eq
    rw [List.length_cons, Nat.add_comm rest.length, ← Nat.add_assoc] at hin
    change b.inPos = ((b.outPos + 1) % CAP + rest.length) % CAP
    rw [hin, Nat.mod_add_mod]
  item i hi := by
    have hitem := hholds.item (i + 1) (Nat.succ_lt_succ hi)
    rw [List.getElem?_cons_succ, Nat.add_comm i, ← Nat.add_assoc] at hitem
    change rest[i]? = some (b.data (((b.outPos + 1) % CAP + i) % CAP))
    rw [Nat.mod_add_mod]
    exact hitem

/-! ### The methods as a whole -/

theorem produce (hholds : b.Holds items) (hroom : ¬ b.Full) (val : T) :
    ∃ b', b.produce val = (true, b') ∧ b'.Holds (items ++ [val]) := by
  refine ⟨_, if_neg hroom, ?_⟩
  have hlength : items.length + 1 < CAP := by
    have hbound := hholds.bound
    rw [hholds.full_iff] at hroom
    omega
  exact (hholds.store val).publish hlength (Function.update_self ..)

theorem consume {rest : List T} (hholds : b.Holds (val :: rest)) :
    ∃ b', b.consume = (some val, b') ∧ b'.Holds rest := by
  have hne : b.inPos ≠ b.outPos := fun heq => by
    cases hholds.empty_iff.mp heq
  refine ⟨b.release, ?_, hholds.release⟩
  unfold BBuffer.consume
  rw [if_neg hne, hholds.head]

end Holds

end BBuffer

end X86Os32
