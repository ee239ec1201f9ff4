import Mathlib.Data.Fin.VecNotation
import Mathlib.Data.Finset.Insert
import X86Os32.Library.Runs
import X86Os32.Object.BBuffer

namespace X86Os32

open Library

/-! One producer and one consumer on a `BBuffer`, every memory access a step.  A
value is made of words that are stored and loaded one by one, in any order.
`CAP` is an `unsigned`, so that `in + 1` does not wrap around. -/

namespace BBuffer

/-- `out = next` -/
def writeOut (b : BBuffer T CAP) (next : Nat) : BBuffer T CAP :=
  { b with outPos := next }

abbrev Value (words : Nat) (W : Type) := Fin words → W

inductive Produce (words : Nat) (W : Type)
  | idle
  | called (val : Value words W)
  | compare (val : Value words W) (nextin : Nat)
  | admitted (val : Value words W) (nextin : Nat)
  | storing (val : Value words W) (nextin slot : Nat)
      (stored : Finset (Fin words))

/-- How far `consume(val)` has come.  The two operands of its comparison may be
read in either order; `found` is the number of values that were in the buffer
when `in` was read. -/
inductive Consume (words : Nat) (W : Type)
  | idle
  | called
  | haveIn (i found : Nat)
  | haveOut (o : Nat)
  | admitted
  | loading (slot : Nat) (loaded : Fin words → Option W)
  | advance (val : Value words W) (next : Nat)

inductive Access (words : Nat) (W : Type)
  | produce (val : Value words W)
  | produceReadIn
  | produceReadOut
  | produceStore (i : Fin words)
  | produceWriteIn
  | consume
  | consumeReadIn
  | consumeReadOut
  | consumeLoad (i : Fin words)
  | consumeWriteOut

structure Channel (words : Nat) (W : Type) (CAP : Nat) where
  buffer : BBuffer (Value words W) CAP
  producer : Produce words W
  consumer : Consume words W
  /-- The values for which `produce` returned true. -/
  produced : List (Value words W)
  consumed : List (Value words W)
  /-- For every `produce` that returned false, how many values were in the buffer
  when it read `out`. -/
  refused : List Nat
  /-- For every `consume` that returned false, how many values were in the buffer
  when it read `in`. -/
  missed : List Nat

namespace Channel

variable {words CAP : Nat} {W : Type}

def size (s : Channel words W CAP) : Nat := s.produced.length - s.consumed.length

def storeWord (b : BBuffer (Value words W) CAP) (slot : Nat) (i : Fin words)
    (w : W) : BBuffer (Value words W) CAP :=
  { b with
    data := Function.update b.data slot
      (Function.update (b.data slot) i w) }

def compareOperands (s : Channel words W CAP) (i o found : Nat) :
    Channel words W CAP :=
  if i ≠ o then { s with consumer := .admitted }
  else { s with consumer := .idle, missed := found :: s.missed }

/-- `none` when the access is not the next one. -/
def step (s : Channel words W CAP) :
    Access words W → Option (Channel words W CAP)
  | .produce val =>
      match s.producer with
      | .idle => some { s with producer := .called val }
      | _ => none
  | .produceReadIn =>
      match s.producer with
      | .called val => some { s with producer := .compare val s.buffer.nextin }
      | .admitted val nextin =>
          some { s with producer := .storing val nextin s.buffer.inPos ∅ }
      | _ => none
  | .produceReadOut =>
      match s.producer with
      | .compare val nextin =>
          if nextin ≠ s.buffer.outPos then
            some { s with producer := .admitted val nextin }
          else some { s with producer := .idle, refused := s.size :: s.refused }
      | _ => none
  | .produceStore i =>
      match s.producer with
      | .storing val nextin slot stored => some
          { s with
            buffer := storeWord s.buffer slot i (val i)
            producer := .storing val nextin slot (insert i stored) }
      | _ => none
  | .produceWriteIn =>
      match s.producer with
      | .storing val nextin _ stored =>
          if ∀ i, i ∈ stored then
            some { s with
              buffer := s.buffer.publish nextin
              producer := .idle
              produced := s.produced ++ [val] }
          else none
      | _ => none
  | .consume =>
      match s.consumer with
      | .idle => some { s with consumer := .called }
      | _ => none
  | .consumeReadIn =>
      match s.consumer with
      | .called => some { s with consumer := .haveIn s.buffer.inPos s.size }
      | .haveOut o => some (s.compareOperands s.buffer.inPos o s.size)
      | _ => none
  | .consumeReadOut =>
      match s.consumer with
      | .called => some { s with consumer := .haveOut s.buffer.outPos }
      | .haveIn i found => some (s.compareOperands i s.buffer.outPos found)
      | .admitted =>
          some { s with consumer := .loading s.buffer.outPos fun _ => none }
      | .loading _ loaded =>
          if hall : ∀ i, (loaded i).isSome then
            some { s with
              consumer := .advance (fun i => (loaded i).get (hall i))
                ((s.buffer.outPos + 1) % CAP) }
          else none
      | _ => none
  | .consumeLoad i =>
      match s.consumer with
      | .loading slot loaded => some
          { s with
            consumer := .loading slot
              (Function.update loaded i (some (s.buffer.data slot i))) }
      | _ => none
  | .consumeWriteOut =>
      match s.consumer with
      | .advance val next => some
          { s with
            buffer := s.buffer.writeOut next
            consumer := .idle
            consumed := s.consumed ++ [val] }
      | _ => none

def Initial (s : Channel words W CAP) : Prop :=
  s.buffer.Constructed ∧ s.producer = .idle ∧ s.consumer = .idle ∧
    s.produced = [] ∧ s.consumed = [] ∧ s.refused = [] ∧ s.missed = []

abbrev Reachable : Channel words W CAP → Prop :=
  Runs.Reachable Initial fun s access s' => s.step access = some s'

end Channel

variable {words CAP : Nat} {W : Type}

def Produce.Agrees (b : BBuffer (Value words W) CAP) (n : Nat) :
    Produce words W → Prop
  | .idle | .called _ => True
  | .compare _ nextin => nextin = b.nextin
  | .admitted _ nextin => nextin = b.nextin ∧ n + 1 < CAP
  | .storing val nextin slot stored => nextin = b.nextin ∧ n + 1 < CAP ∧
      slot = b.inPos ∧ ∀ i ∈ stored, b.data slot i = val i

def Consume.Agrees (b : BBuffer (Value words W) CAP)
    (items : List (Value words W)) : Consume words W → Prop
  | .idle | .called => True
  | .haveIn i found => (i = b.outPos ↔ found = 0) ∧ found ≤ items.length
  | .haveOut o => o = b.outPos
  | .admitted => items ≠ []
  | .loading slot loaded => slot = b.outPos ∧ ∃ val rest,
      items = val :: rest ∧ ∀ i w, loaded i = some w → w = val i
  | .advance val next =>
      next = (b.outPos + 1) % CAP ∧ ∃ rest, items = val :: rest

/-- The producer's writes leave `out` and the first values alone. -/
theorem Consume.Agrees.mono {consumer : Consume words W}
    {b b' : BBuffer (Value words W) CAP} {items : List (Value words W)}
    (hagrees : consumer.Agrees b items) (hout : b'.outPos = b.outPos)
    (more : List (Value words W)) : consumer.Agrees b' (items ++ more) := by
  cases consumer with
  | idle => trivial
  | called => trivial
  | haveIn i found =>
      obtain ⟨hiff, hle⟩ := hagrees
      refine ⟨by rw [hout]; exact hiff, ?_⟩
      rw [List.length_append]
      omega
  | haveOut o => exact hagrees.trans hout.symm
  | admitted =>
      intro hnil
      exact hagrees (List.append_eq_nil_iff.mp hnil).1
  | loading slot loaded =>
      obtain ⟨hslot, val, rest, rfl, hloaded⟩ := hagrees
      exact ⟨hslot.trans hout.symm, val, rest ++ more, rfl, hloaded⟩
  | advance val next =>
      obtain ⟨hnext, rest, rfl⟩ := hagrees
      exact ⟨by rw [hout]; exact hnext, rest ++ more, rfl⟩

/-- The consumer's write leaves everything but `out` alone. -/
theorem Produce.Agrees.anti {producer : Produce words W}
    {b : BBuffer (Value words W) CAP} (hagrees : producer.Agrees b n)
    (hle : n' ≤ n) (next : Nat) : producer.Agrees (b.writeOut next) n' := by
  cases producer with
  | idle => trivial
  | called val => trivial
  | compare val nextin => exact hagrees
  | admitted val nextin => exact ⟨hagrees.1, by have := hagrees.2; omega⟩
  | storing val nextin slot stored =>
      obtain ⟨hnext, hroom, hstored⟩ := hagrees
      exact ⟨hnext, by omega, hstored⟩

namespace Channel

/-- The buffer stores what was produced and is not consumed yet. -/
structure Sound (s : Channel words W CAP) (items : List (Value words W)) :
    Prop where
  produced_eq : s.produced = s.consumed ++ items
  holds : s.buffer.Holds items
  producer : s.producer.Agrees s.buffer items.length
  consumer : s.consumer.Agrees s.buffer items
  refused : ∀ n ∈ s.refused, n = CAP - 1
  missed : ∀ n ∈ s.missed, n = 0

variable {s s' : Channel words W CAP} {items : List (Value words W)}
  {val : Value words W} {nextin : Nat}

theorem Sound.size_eq (hsound : s.Sound items) : s.size = items.length := by
  unfold size
  rw [hsound.produced_eq, List.length_append]
  omega

theorem Sound.of_initial (hinit : Initial s) (hpos : 0 < CAP) : s.Sound [] := by
  obtain ⟨hconstructed, hproducer, hconsumer, hproduced, hconsumed, hrefused,
    hmissed⟩ := hinit
  exact
    { produced_eq := by rw [hproduced, hconsumed]; rfl
      holds := hconstructed.holds hpos
      producer := by rw [hproducer]; trivial
      consumer := by rw [hconsumer]; trivial
      refused := by simp [hrefused]
      missed := by simp [hmissed] }

theorem Sound.produceReadOut (hsound : s.Sound items)
    (hpc : s.producer = .compare val nextin) :
    (if nextin ≠ s.buffer.outPos then
      { s with producer := Produce.admitted val nextin }
    else { s with producer := .idle, refused := s.size :: s.refused }).Sound
      items := by
  have hnext : nextin = s.buffer.nextin := by
    have := hsound.producer
    rwa [hpc] at this
  have hfull := hsound.holds.full_iff
  have hbound := hsound.holds.bound
  unfold BBuffer.Full at hfull
  rw [← hnext] at hfull
  split
  · next hne =>
    have hroom : items.length + 1 < CAP := by omega
    exact { hsound with producer := ⟨hnext, hroom⟩ }
  · next heq =>
    rw [not_not] at heq
    refine { hsound with producer := trivial, refused := fun n hn => ?_ }
    rcases List.mem_cons.mp hn with rfl | hn
    · have := hfull.mp heq
      rw [hsound.size_eq]
      omega
    · exact hsound.refused n hn

theorem Sound.produceStore (hsound : s.Sound items)
    (hpc : s.producer = .storing val nextin slot stored) (i : Fin words) :
    Sound { s with
      buffer := storeWord s.buffer slot i (val i)
      producer := .storing val nextin slot (insert i stored) } items := by
  have hproducer := hsound.producer
  rw [hpc] at hproducer
  obtain ⟨hnext, hroom, rfl, hstored⟩ := hproducer
  refine { hsound with
    holds := hsound.holds.store _
    producer := ⟨hnext, hroom, rfl, fun j hj => ?_⟩
    consumer := ?_ }
  · change Function.update s.buffer.data _ _ _ j = val j
    rw [Function.update_self]
    by_cases hji : j = i
    · rw [hji, Function.update_self]
    · rw [Function.update_of_ne hji]
      exact hstored j (Finset.mem_of_mem_insert_of_ne hj hji)
  · have hout : (storeWord s.buffer s.buffer.inPos i (val i)).outPos =
        s.buffer.outPos := rfl
    have hmono := hsound.consumer.mono hout []
    rwa [List.append_nil] at hmono

theorem Sound.produceWriteIn (hsound : s.Sound items)
    (hpc : s.producer = .storing val nextin slot stored)
    (hall : ∀ i, i ∈ stored) :
    Sound { s with
      buffer := s.buffer.publish nextin
      producer := .idle
      produced := s.produced ++ [val] } (items ++ [val]) := by
  have hproducer := hsound.producer
  rw [hpc] at hproducer
  obtain ⟨rfl, hroom, rfl, hstored⟩ := hproducer
  exact { hsound with
    produced_eq := by
      dsimp only
      rw [hsound.produced_eq, List.append_assoc]
    holds := hsound.holds.publish hroom (funext fun i => hstored i (hall i))
    producer := trivial
    consumer := hsound.consumer.mono rfl [val] }

theorem Sound.compareOperands (hsound : s.Sound items)
    (hiff : i = o ↔ found = 0) (hle : found ≤ items.length) :
    (s.compareOperands i o found).Sound items := by
  unfold Channel.compareOperands
  split
  · next hne =>
    have hnonempty : items ≠ [] := by
      rintro rfl
      exact hne (hiff.mpr (Nat.le_zero.mp hle))
    exact { hsound with consumer := hnonempty }
  · next heq =>
    rw [not_not] at heq
    refine { hsound with consumer := trivial, missed := fun n hn => ?_ }
    rcases List.mem_cons.mp hn with rfl | hn
    · exact hiff.mp heq
    · exact hsound.missed n hn

theorem Sound.empty_iff (hsound : s.Sound items) :
    s.buffer.inPos = s.buffer.outPos ↔ s.size = 0 := by
  rw [hsound.holds.empty_iff, hsound.size_eq, List.length_eq_zero_iff]

theorem Sound.consumeLoad (hsound : s.Sound items)
    (hpc : s.consumer = .loading slot loaded) (i : Fin words) :
    Sound { s with
      consumer := .loading slot
        (Function.update loaded i (some (s.buffer.data slot i))) } items := by
  have hconsumer := hsound.consumer
  rw [hpc] at hconsumer
  obtain ⟨rfl, val, rest, rfl, hloaded⟩ := hconsumer
  refine { hsound with
    consumer := ⟨rfl, val, rest, rfl, fun j w hw => ?_⟩ }
  by_cases hji : j = i
  · rw [hji, Function.update_self, hsound.holds.head] at hw
    rw [hji]
    exact (Option.some.inj hw).symm
  · rw [Function.update_of_ne hji] at hw
    exact hloaded j w hw

theorem Sound.consumeAdvance (hsound : s.Sound items)
    (hpc : s.consumer = .loading slot loaded)
    (hall : ∀ i, (loaded i).isSome) :
    Sound { s with
      consumer := .advance (fun i => (loaded i).get (hall i))
        ((s.buffer.outPos + 1) % CAP) } items := by
  have hconsumer := hsound.consumer
  rw [hpc] at hconsumer
  obtain ⟨-, val, rest, rfl, hloaded⟩ := hconsumer
  have hval : (fun i => (loaded i).get (hall i)) = val :=
    funext fun i => hloaded i _ (Option.some_get (hall i)).symm
  exact { hsound with consumer := ⟨rfl, rest, by rw [hval]⟩ }

theorem Sound.consumeWriteOut (hsound : s.Sound items)
    (hpc : s.consumer = .advance val next) :
    ∃ items', Sound { s with
      buffer := s.buffer.writeOut next
      consumer := .idle
      consumed := s.consumed ++ [val] } items' := by
  have hconsumer := hsound.consumer
  rw [hpc] at hconsumer
  obtain ⟨rfl, rest, rfl⟩ := hconsumer
  exact ⟨rest, { hsound with
    produced_eq := by
      dsimp only
      rw [hsound.produced_eq, List.append_assoc, List.singleton_append]
    holds := hsound.holds.release
    producer := hsound.producer.anti (Nat.le_succ _) _
    consumer := trivial }⟩

theorem Sound.step (hsound : s.Sound items) (hstep : s.step access = some s') :
    ∃ items', s'.Sound items' := by
  cases access with
  | produce val =>
      cases hpc : s.producer with
      | idle =>
          obtain rfl : _ = s' := by simpa [Channel.step, hpc] using hstep
          exact ⟨items, { hsound with producer := trivial }⟩
      | _ => simp [Channel.step, hpc] at hstep
  | produceReadIn =>
      cases hpc : s.producer with
      | called val =>
          obtain rfl : _ = s' := by simpa [Channel.step, hpc] using hstep
          exact ⟨items, { hsound with producer := rfl }⟩
      | admitted val nextin =>
          obtain rfl : _ = s' := by simpa [Channel.step, hpc] using hstep
          have hproducer := hsound.producer
          rw [hpc] at hproducer
          exact ⟨items, { hsound with
            producer := ⟨hproducer.1, hproducer.2, rfl, by simp⟩ }⟩
      | _ => simp [Channel.step, hpc] at hstep
  | produceReadOut =>
      cases hpc : s.producer with
      | compare val nextin =>
          have hnext := hsound.produceReadOut hpc
          simp only [Channel.step, hpc] at hstep
          split at hstep
          · next hne =>
            rw [if_pos hne] at hnext
            exact ⟨items, Option.some.inj hstep ▸ hnext⟩
          · next heq =>
            rw [if_neg heq] at hnext
            exact ⟨items, Option.some.inj hstep ▸ hnext⟩
      | _ => simp [Channel.step, hpc] at hstep
  | produceStore i =>
      cases hpc : s.producer with
      | storing val nextin slot stored =>
          obtain rfl : _ = s' := by simpa [Channel.step, hpc] using hstep
          exact ⟨items, hsound.produceStore hpc i⟩
      | _ => simp [Channel.step, hpc] at hstep
  | produceWriteIn =>
      cases hpc : s.producer with
      | storing val nextin slot stored =>
          simp only [Channel.step, hpc] at hstep
          split at hstep
          · next hall =>
            exact ⟨_, Option.some.inj hstep ▸ hsound.produceWriteIn hpc hall⟩
          · cases hstep
      | _ => simp [Channel.step, hpc] at hstep
  | consume =>
      cases hpc : s.consumer with
      | idle =>
          obtain rfl : _ = s' := by simpa [Channel.step, hpc] using hstep
          exact ⟨items, { hsound with consumer := trivial }⟩
      | _ => simp [Channel.step, hpc] at hstep
  | consumeReadIn =>
      cases hpc : s.consumer with
      | called =>
          obtain rfl : _ = s' := by simpa [Channel.step, hpc] using hstep
          exact ⟨items, { hsound with
            consumer := ⟨hsound.empty_iff, hsound.size_eq.le⟩ }⟩
      | haveOut o =>
          obtain rfl : _ = s' := by simpa [Channel.step, hpc] using hstep
          have hconsumer := hsound.consumer
          rw [hpc] at hconsumer
          obtain rfl : o = s.buffer.outPos := hconsumer
          exact ⟨items, hsound.compareOperands hsound.empty_iff hsound.size_eq.le⟩
      | _ => simp [Channel.step, hpc] at hstep
  | consumeReadOut =>
      cases hpc : s.consumer with
      | called =>
          obtain rfl : _ = s' := by simpa [Channel.step, hpc] using hstep
          exact ⟨items, { hsound with consumer := rfl }⟩
      | haveIn i found =>
          obtain rfl : _ = s' := by simpa [Channel.step, hpc] using hstep
          have hconsumer := hsound.consumer
          rw [hpc] at hconsumer
          exact ⟨items, hsound.compareOperands hconsumer.1 hconsumer.2⟩
      | admitted =>
          obtain rfl : _ = s' := by simpa [Channel.step, hpc] using hstep
          have hconsumer := hsound.consumer
          rw [hpc] at hconsumer
          obtain ⟨val, rest, rfl⟩ := List.exists_cons_of_ne_nil hconsumer
          exact ⟨_, { hsound with
            consumer := ⟨rfl, val, rest, rfl, by simp⟩ }⟩
      | loading slot loaded =>
          simp only [Channel.step, hpc] at hstep
          split at hstep
          · next hall =>
            exact ⟨items, Option.some.inj hstep ▸ hsound.consumeAdvance hpc hall⟩
          · cases hstep
      | _ => simp [Channel.step, hpc] at hstep
  | consumeLoad i =>
      cases hpc : s.consumer with
      | loading slot loaded =>
          obtain rfl : _ = s' := by simpa [Channel.step, hpc] using hstep
          exact ⟨items, hsound.consumeLoad hpc i⟩
      | _ => simp [Channel.step, hpc] at hstep
  | consumeWriteOut =>
      cases hpc : s.consumer with
      | advance val next =>
          obtain rfl : _ = s' := by simpa [Channel.step, hpc] using hstep
          exact hsound.consumeWriteOut hpc
      | _ => simp [Channel.step, hpc] at hstep

theorem Sound.of_reachable (hpos : 0 < CAP) (hreach : Reachable s) :
    ∃ items, s.Sound items := by
  induction hreach with
  | start hinit => exact ⟨[], Sound.of_initial hinit hpos⟩
  | next _ hstep ih =>
      obtain ⟨items, hsound⟩ := ih
      exact hsound.step hstep

/-- However the accesses of the two sides interleave, the consumed values are
the first of the produced ones, the others are in the buffer unharmed, and the
calls that return false found it full or empty. -/
theorem lossless (hpos : 0 < CAP) (hreach : Reachable s) :
    s.consumed <+: s.produced ∧
    (∀ i < s.size, s.produced[s.consumed.length + i]? =
      some (s.buffer.data ((s.buffer.outPos + i) % CAP))) ∧
    s.size ≤ CAP - 1 ∧
    (∀ n ∈ s.refused, n = CAP - 1) ∧ ∀ n ∈ s.missed, n = 0 := by
  obtain ⟨items, hsound⟩ := Sound.of_reachable hpos hreach
  have hproduced := hsound.produced_eq
  have hbound := hsound.holds.bound
  refine ⟨⟨items, hproduced.symm⟩, fun i hi => ?_, ?_, hsound.refused,
    hsound.missed⟩
  · rw [hsound.size_eq] at hi
    rw [hproduced, List.getElem?_append_right (Nat.le_add_right ..),
      Nat.add_sub_cancel_left]
    exact hsound.holds.item i hi
  · rw [hsound.size_eq]
    omega

/-- The consumer comes twice too early, the second time while a value is being
stored; it takes that value while another one is refused. -/
def sampleRun : List (Access 2 Nat) :=
  [.consume, .consumeReadOut, .consumeReadIn, .produce ![1, 2], .produceReadIn,
    .produceReadOut, .produceReadIn, .consume, .consumeReadIn, .produceStore 1,
    .produceStore 0, .produceWriteIn, .consumeReadOut, .consume, .consumeReadIn,
    .consumeReadOut, .consumeReadOut, .produce ![3, 4], .produceReadIn,
    .consumeLoad 0, .produceReadOut, .consumeLoad 1, .consumeReadOut,
    .consumeWriteOut]

def sampleChannel : Channel 2 Nat 2 :=
  ⟨⟨fun _ _ => 0, 0, 0⟩, .idle, .idle, [], [], [], []⟩

theorem lossless_sample :
    ∃ s : Channel 2 Nat 2, Runs.run step sampleChannel sampleRun = some s ∧
      s.consumed.length = 1 ∧ s.consumed <+: s.produced ∧ s.refused = [1] ∧
      s.missed = [0, 0] := by
  have hlengths : (Runs.run step sampleChannel sampleRun).map (fun s =>
      (s.consumed.length, s.refused, s.missed)) = some (1, [1], [0, 0]) := by
    decide +kernel
  obtain ⟨s, hrun, hs⟩ := Option.map_eq_some_iff.mp hlengths
  simp only [Prod.mk.injEq] at hs
  obtain ⟨hconsumed, hrefused, hmissed⟩ := hs
  have hstart : Reachable sampleChannel :=
    .start ⟨⟨rfl, rfl⟩, rfl, rfl, rfl, rfl, rfl, rfl⟩
  exact ⟨s, hrun, hconsumed, (lossless (by decide) (hstart.run hrun)).1,
    hrefused, hmissed⟩

end Channel

end BBuffer

end X86Os32
