import X86Os32.User.StringMachine

set_option linter.style.nameCheck false

namespace X86Os32.Strings

open Library Library.Program
open OStream (Text)

/-! What the methods do with an allocator that refuses some calls of `realloc`:
the same as with one that does not, unless a call was refused. -/

/-- The assertion that stops `reserve` and `shrink_to_fit` when there is no
memory. -/
def refused : Fault := .stopped (.assertionFailed "data")

namespace Object

/-- The two allocators differ in that the first one refuses calls of
`realloc`. -/
structure Stricter (strict allocator : Allocator Pointer Byte) : Prop where
  malloc : strict.malloc = allocator.malloc
  free : strict.free = allocator.free
  realloc (heap : Heap) (ptr : Pointer) (size : Nat) :
    (strict.realloc heap ptr size).1 = none ∨
      strict.realloc heap ptr size = allocator.realloc heap ptr size

theorem realloc_apply (allocator : Allocator Pointer Byte) (ptr : Pointer)
    (size : Nat) (heap : Heap) :
    Object.realloc allocator ptr size heap =
      .ok ((allocator.realloc heap ptr size).1,
        (allocator.realloc heap ptr size).2) := rfl

section Allocators

variable (allocator : Allocator Pointer Byte)
  (keeps : Heap → Pointer → Nat → Bool)

theorem stricter_strict : Stricter (allocator.strict keeps) allocator := by
  refine ⟨rfl, rfl, fun heap ptr size => ?_⟩
  unfold Allocator.strict
  dsimp only
  split
  · exact .inr rfl
  · exact .inl rfl

theorem stricter_restoring :
    Stricter (allocator.strict keeps) (allocator.restoring keeps) := by
  refine ⟨rfl, rfl, fun heap ptr size => ?_⟩
  unfold Allocator.strict Allocator.restoring
  dsimp only
  split
  · exact .inr rfl
  · exact .inl rfl

end Allocators

section Stricter

variable {strict allocator : Allocator Pointer Byte}
  (hstrict : Stricter strict allocator)

include hstrict

theorem Stricter.destroy (str : Object) :
    Object.destroy strict str = Object.destroy allocator str := by
  unfold Object.destroy Object.free
  rw [hstrict.free]

theorem Stricter.switchToHeap (str : Object) :
    Object.switchToHeap strict str = Object.switchToHeap allocator str := by
  unfold Object.switchToHeap Object.malloc
  rw [hstrict.malloc]

theorem Stricter.resized (ptr : Pointer) (size : Nat)
    {next next' : Pointer → Code Object}
    (hnext : ∀ data, AgreesUnless refused (next data) (next' data)) :
    AgreesUnless refused
      (do
        match ← Object.realloc strict ptr size with
        | none => throw (.stopped (.assertionFailed "data"))
        | some data => next data)
      (do
        match ← Object.realloc allocator ptr size with
        | none => throw (.stopped (.assertionFailed "data"))
        | some data => next' data) := by
  intro heap
  unfold stops
  simp only [bind_apply, realloc_apply]
  rcases hstrict.realloc heap ptr size with hnone | hsame
  · left
    simp only [hnone]
    rfl
  · rw [← hsame]
    cases (strict.realloc heap ptr size).1 with
    | none => exact .inr rfl
    | some data => exact hnext data _

theorem Stricter.grow (n fuel : Nat) (str : Object) :
    AgreesUnless refused (Object.grow strict n fuel str)
      (Object.grow allocator n fuel str) := by
  induction fuel generalizing str with
  | zero => exact .refl _
  | succ fuel ih =>
      refine .bind (.refl _) fun cap => .ite ?_ (.refl _)
      refine .bind (.refl _) fun cap => .bind (.refl _) fun data => ?_
      refine .bind (.refl _) fun size => ?_
      exact hstrict.resized data size fun data => ih _

theorem Stricter.reserve (str : Object) (n : Nat) :
    AgreesUnless refused (Object.reserve strict str n)
      (Object.reserve allocator str n) := by
  refine .bind (.refl _) fun capacity => .ite (.refl _) ?_
  rw [hstrict.switchToHeap]
  exact .ite (.bind (.refl _) fun str => hstrict.grow n 33 str)
    (.bind (.refl _) fun str => hstrict.grow n 33 str)

theorem Stricter._appendNullbyte (str : Object) :
    AgreesUnless refused (Object._appendNullbyte strict str)
      (Object._appendNullbyte allocator str) :=
  .bind (hstrict.reserve str _) fun _ => .refl _

theorem Stricter.refAt (str : Object) (i : Int) :
    AgreesUnless refused (Object.refAt strict str i)
      (Object.refAt allocator str i) := by
  refine .bind (.refl _) fun _ => .bind (.refl _) fun _ => .ite ?_ (.refl _)
  exact .bind (hstrict._appendNullbyte str) fun _ => .refl _

theorem Stricter.toChars (str : Object) :
    AgreesUnless refused (Object.toChars strict str)
      (Object.toChars allocator str) :=
  .bind (hstrict._appendNullbyte str) fun _ => .refl _

theorem Stricter._append (str : Object) (c : UInt8) :
    AgreesUnless refused (Object._append strict str c)
      (Object._append allocator str c) :=
  .bind (hstrict.refAt _ _) fun _ => .refl _

theorem Stricter.appendChar (str : Object) (c : UInt8) :
    AgreesUnless refused (Object.appendChar strict str c)
      (Object.appendChar allocator str c) :=
  .bind (hstrict.reserve str _) fun str => hstrict._append str c

theorem Stricter.appendFrom (source : Object) (count i : Nat) (str : Object) :
    AgreesUnless refused (Object.appendFrom strict source count i str)
      (Object.appendFrom allocator source count i str) := by
  induction count generalizing i str with
  | zero => exact .refl _
  | succ count ih =>
      refine .bind (.refl _) fun c => ?_
      exact .bind (hstrict._append str c) fun str => ih (i + 1) str

theorem Stricter.append (str source : Object) :
    AgreesUnless refused (Object.append strict str source)
      (Object.append allocator str source) :=
  .bind (hstrict.reserve str _) fun str => hstrict.appendFrom source _ _ str

theorem Stricter.fill (c : UInt8) (count : Nat) (str : Object) :
    AgreesUnless refused (Object.fill strict c count str)
      (Object.fill allocator c count str) := by
  induction count generalizing str with
  | zero => exact .refl _
  | succ count ih => exact .bind (hstrict.appendChar str c) ih

theorem Stricter.resize (str : Object) (n : Nat) (c : UInt8) :
    AgreesUnless refused (Object.resize strict str n c)
      (Object.resize allocator str n c) :=
  .ite (.refl _) (.bind (hstrict.reserve str n) fun str => hstrict.fill c _ str)

theorem Stricter.appendChars (s : Text) (str : Object) :
    AgreesUnless refused (Object.appendChars strict s str)
      (Object.appendChars allocator s str) := by
  induction s generalizing str with
  | nil => exact .refl _
  | cons c s ih => exact .ite (.bind (hstrict.appendChar str c) ih) (.refl _)

theorem Stricter.assign (str source : Object) :
    AgreesUnless refused (Object.assign strict str source)
      (Object.assign allocator str source) :=
  .bind (hstrict.append str.clear source) fun _ => .refl _

theorem Stricter.substrFrom (str : Object) (count i : Nat) (new_str : Object) :
    AgreesUnless refused (Object.substrFrom strict str count i new_str)
      (Object.substrFrom allocator str count i new_str) := by
  induction count generalizing i new_str with
  | zero => exact .refl _
  | succ count ih =>
      refine .bind (.refl _) fun c => ?_
      exact .bind (hstrict.appendChar new_str c) fun new_str => ih (i + 1) new_str

theorem Stricter.substr (str : Object) (pos len : Nat) :
    AgreesUnless refused (Object.substr strict str pos len)
      (Object.substr allocator str pos len) := by
  refine .ite (hstrict.append Object.empty str) ?_
  exact .ite (.refl _) (hstrict.substrFrom str _ pos _)

theorem Stricter.insertBy (str : Object) (pos : Nat)
    {next next' : Object → Code Object}
    (hnext : ∀ str, AgreesUnless refused (next str) (next' str)) :
    AgreesUnless refused
      (do
        if pos > str.len then
          return str
        let end_ ← Object.substr strict str pos npos
        let str ← Object.resize strict str pos 32
        let str ← next str
        let str ← Object.append strict str end_
        Object.destroy strict end_
        return str)
      (do
        if pos > str.len then
          return str
        let end_ ← Object.substr allocator str pos npos
        let str ← Object.resize allocator str pos 32
        let str ← next' str
        let str ← Object.append allocator str end_
        Object.destroy allocator end_
        return str) := by
  refine .ite (.refl _) (.bind (hstrict.substr str pos npos) fun end_ => ?_)
  refine .bind (hstrict.resize str pos 32) fun str => ?_
  refine .bind (hnext str) fun str => ?_
  rw [hstrict.destroy]
  exact .bind (hstrict.append str end_) fun _ => .refl _

theorem Stricter.insertChar (str : Object) (pos : Nat) (c : UInt8) :
    AgreesUnless refused (Object.insertChar strict str pos c)
      (Object.insertChar allocator str pos c) :=
  hstrict.insertBy str pos fun str => hstrict.appendChar str c

theorem Stricter.insert (str : Object) (pos : Nat) (source : Object) :
    AgreesUnless refused (Object.insert strict str pos source)
      (Object.insert allocator str pos source) :=
  hstrict.insertBy str pos fun str => hstrict.append str source

theorem Stricter.erase (str : Object) (pos len : Nat) :
    AgreesUnless refused (Object.erase strict str pos len)
      (Object.erase allocator str pos len) := by
  unfold Object.erase
  simp only [hstrict.destroy]
  refine .ite (.refl _) (.ite ?_ (.ite (.refl _) ?_))
  · refine .bind (hstrict.substr str 0 pos) fun rest => ?_
    exact .bind (hstrict.assign str rest) fun _ => .refl _
  · refine .bind (hstrict.substr str 0 pos) fun new_str => ?_
    refine .bind (hstrict.substr str _ npos) fun rest => ?_
    refine .bind (hstrict.append new_str rest) fun new_str => ?_
    refine .bind (.refl _) fun _ => ?_
    exact .bind (hstrict.assign str new_str) fun _ => .refl _

theorem Stricter.popBack (str : Object) :
    AgreesUnless refused (Object.popBack strict str)
      (Object.popBack allocator str) :=
  .ite (hstrict.resize str _ 32) (.refl _)

end Stricter

end Object

section Operations

variable {strict allocator : Allocator Pointer Byte}
  (hstrict : Object.Stricter strict allocator)

include hstrict

theorem Construction.run_agrees (how : Construction) :
    AgreesUnless refused (how.run strict) (how.run allocator) := by
  cases how with
  | empty => exact .refl _
  | chars s => exact hstrict.appendChars s Object.empty

theorem Derivation.run_agrees (source : Object) (how : Derivation) :
    AgreesUnless refused (how.run strict source) (how.run allocator source) := by
  cases how with
  | copy => exact hstrict.append Object.empty source
  | substr pos len => exact hstrict.substr source pos len

theorem Edit.run_agrees (str : Object) (how : Edit) :
    AgreesUnless refused (how.run strict str) (how.run allocator str) := by
  cases how with
  | clear => exact .refl _
  | resize n c => exact hstrict.resize str n c
  | reserve n => exact hstrict.reserve str n
  | append c => exact hstrict.appendChar str c
  | plusAssign c => exact hstrict.appendChar str c
  | insert pos c => exact hstrict.insertChar str pos c
  | erase pos len => exact hstrict.erase str pos len
  | pushBack c => exact hstrict.appendChar str c
  | popBack => exact hstrict.popBack str

theorem Combination.run_agrees (str source : Object) (how : Combination) :
    AgreesUnless refused (how.run strict str source)
      (how.run allocator str source) := by
  cases how with
  | assign => exact hstrict.assign str source
  | append => exact hstrict.append str source
  | plusAssign => exact hstrict.append str source
  | insert pos => exact hstrict.insert str pos source

theorem Query.run_agrees (str : Object) (how : Query) :
    AgreesUnless refused (how.run strict str) (how.run allocator str) := by
  cases how with
  | length => exact .refl _
  | constAt i => exact .refl _
  | refAt i => exact .bind (hstrict.refAt str i) fun _ => .refl _
  | toChars => exact .bind (hstrict.toChars str) fun _ => .refl _

end Operations

namespace Machine

theorem onHeap_agrees {code code' : Code α}
    (hcode : AgreesUnless refused code code') :
    AgreesUnless refused (onHeap code) (onHeap code') := by
  intro machine
  unfold stops onHeap
  rcases hcode machine.heap with hstop | hsame
  · unfold stops at hstop
    cases hrun : code machine.heap with
    | ok result => simp [hrun] at hstop
    | error stop =>
        rw [hrun] at hstop
        exact .inl hstop
  · exact .inr (by rw [hsame])

theorem step_agrees {strict allocator : Allocator Pointer Byte}
    (hstrict : Object.Stricter strict allocator) (op : Op) :
    AgreesUnless refused (step strict op) (step allocator op) := by
  cases op with
  | construct this how =>
      refine .bind (.refl _) fun _ => ?_
      exact .bind (onHeap_agrees (how.run_agrees hstrict)) fun _ => .refl _
  | derive this source how =>
      refine .bind (.refl _) fun _ => .bind (.refl _) fun source => ?_
      exact .bind (onHeap_agrees (how.run_agrees hstrict source)) fun _ => .refl _
  | destroy this =>
      refine .bind (.refl _) fun str => ?_
      rw [hstrict.destroy]
      exact .refl _
  | edit this how =>
      refine .bind (.refl _) fun str => ?_
      exact .bind (onHeap_agrees (how.run_agrees hstrict str)) fun _ => .refl _
  | combine this source _ how =>
      refine .bind (.refl _) fun str => .bind (.refl _) fun source => ?_
      exact .bind (onHeap_agrees (how.run_agrees hstrict str source))
        fun _ => .refl _
  | query this how =>
      refine .bind (.refl _) fun str => ?_
      exact .bind (onHeap_agrees (how.run_agrees hstrict str)) fun _ => .refl _

/-- Where no call of `realloc` is refused, none loses anything. -/
theorem step_restoring {allocator : Allocator Pointer Byte}
    {keeps : Heap → Pointer → Nat → Bool} {op : Op} {machine : Machine}
    (hkeeps : (step (allocator.strict keeps) op).stops machine ≠ some refused) :
    step allocator op machine = step (allocator.restoring keeps) op machine := by
  have hstrict := step_agrees (Object.stricter_strict allocator keeps) op machine
  have hrestoring :=
    step_agrees (Object.stricter_restoring allocator keeps) op machine
  calc step allocator op machine
      = step (allocator.strict keeps) op machine :=
        (hstrict.resolve_left hkeeps).symm
    _ = step (allocator.restoring keeps) op machine :=
        hrestoring.resolve_left hkeeps

end Machine

end X86Os32.Strings
