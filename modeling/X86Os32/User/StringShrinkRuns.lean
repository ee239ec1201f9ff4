import X86Os32.User.StringRuns
import X86Os32.User.StringShrink
import X86Os32.User.StringStrict

set_option linter.style.nameCheck false

namespace X86Os32.Strings

open Library Library.Program Object
open OStream (Text)

/-! Programs that work with strings and call `shrink_to_fit` in between. -/

namespace Machine

/-- What a program does with its strings, `shrink_to_fit` included. -/
inductive Call
  | op (op : Op)
  | shrinkToFit (this : Name)

def Call.ops : List Call → List Op
  | [] => []
  | .op o :: calls => o :: ops calls
  | .shrinkToFit _ :: calls => ops calls

section Calls

variable (allocator : Allocator Pointer Byte)
  (keeps : Heap → Pointer → Nat → Bool)

def shrinkToFit (this : Name) : Program Machine Fault (Option Answer) := do
  let str ← object this
  put this (some (← onHeap (str.shrinkToFit allocator)))
  return none

def call : Call → Program Machine Fault (Option Answer)
  | .op op => step allocator op
  | .shrinkToFit this => shrinkToFit allocator this

@[simp] theorem call_op (op : Op) : call allocator (.op op) = step allocator op :=
  rfl

def runCalls : List Call → Program Machine Fault (List Answer)
  | [] => pure []
  | c :: calls => do
      let answer ← call allocator c
      return answer.toList ++ (← runCalls calls)

/-- No `realloc` that an operation calls loses the content of its block, and
`shrink_to_fit` is called for strings that exist and are fit for it. -/
def Fit (machine : Machine) : Call → Prop
  | .op op =>
      (step (allocator.strict keeps) op).stops machine ≠ some refused
  | .shrinkToFit this =>
      ∃ str, machine.objects this = some str ∧
        str.Shrinkable keeps machine.heap

def Careful : List Call → Machine → Prop
  | [], _ => True
  | c :: calls, machine =>
      Fit allocator keeps machine c ∧
      Ensures (call allocator c) machine fun _ machine' =>
        Careful calls machine'

theorem fit_op {machine : Machine} {op : Op} :
    Fit allocator keeps machine (.op op) ↔
      (step (allocator.strict keeps) op).stops machine ≠ some refused := Iff.rfl

theorem careful_cons {machine : Machine} {c : Call} {calls : List Call} :
    Careful allocator keeps (c :: calls) machine ↔
      Fit allocator keeps machine c ∧
      Ensures (call allocator c) machine fun _ machine' =>
        Careful allocator keeps calls machine' := Iff.rfl

end Calls

structure Invisible (texts : Texts) (this : Name) (machine machine' : Machine) :
    Prop where
  represents : machine'.Represents texts
  kept : ∀ str, machine.objects this = some str →
    ∃ str', machine'.objects this = some str' ∧ str.Kept str'
  others : ∀ other, other ≠ this →
    machine'.objects other = machine.objects other

theorem onHeap_ensures {code : Code α} {machine : Machine}
    {post : α → Heap → Prop} (hcode : Ensures code machine.heap post) :
    Ensures (onHeap code) machine fun a machine' =>
      machine' = { machine with heap := machine'.heap } ∧
        post a machine'.heap := by
  unfold Ensures onHeap at *
  cases hrun : code machine.heap with
  | error fault => trivial
  | ok result =>
      rw [hrun] at hcode
      exact ⟨rfl, hcode⟩

section Runs

variable {allocator : Allocator Pointer Byte}
  {keeps : Heap → Pointer → Nat → Bool}
  (hserves : allocator.ServesWhere keeps)

include hserves

theorem Represents.step_fit {machine : Machine} {texts : Texts} {op : Op}
    (hmachine : machine.Represents texts) (hbounded : texts.Bounded)
    (hallows : texts.Allows op) (hafter : (texts.after op).Bounded)
    (hfit : Fit allocator keeps machine (.op op)) :
    Returns (Machine.step allocator op) machine fun answer machine' =>
      answer = texts.answer op ∧ machine'.Represents (texts.after op) := by
  have hrestored := hmachine.step hserves.restoring_serves hbounded hallows hafter
  unfold Returns at hrestored ⊢
  rwa [step_restoring hfit]

theorem Represents.shrinkToFit {machine : Machine} {texts : Texts}
    (hmachine : machine.Represents texts) (hbounded : texts.Bounded)
    {this : Name} {str : Object} (hstr : machine.objects this = some str)
    (hshrink : str.Shrinkable keeps machine.heap) :
    Returns (shrinkToFit allocator this) machine fun answer machine' =>
      answer = none ∧ Invisible texts this machine machine' := by
  obtain ⟨text, htext, hread⟩ := hmachine.text hstr
  obtain ⟨str', heap', hrun, howns, hkept⟩ :=
    Object.Owns.shrinkToFit hserves hread (hbounded this text htext) hshrink
  have htexts : texts = Function.update texts this (some text) := by
    rw [← htext, Function.update_eq_self]
  apply Returns.step (object_of hstr)
  apply Returns.step (onHeap_of hrun)
  refine ⟨none, _, rfl, rfl, ?_, ?_, ?_⟩
  · rw [htexts]
    apply hmachine.update (.some howns.represents) howns.others
    intro other str₂ text₂ hne hstr₂ hread₂
    exact hmachine.beside hne hstr hstr₂ hread₂
  · intro str₀ hstr₀
    obtain rfl : str = str₀ := Option.some.inj (hstr.symm.trans hstr₀)
    exact ⟨str', Function.update_self .., hkept⟩
  · intro other hne
    exact Function.update_of_ne hne _ _

omit hserves in
theorem Represents.shrinkable {machine : Machine} {texts : Texts}
    (hmachine : machine.Represents texts) {this : Name} {str : Object}
    (hstr : machine.objects this = some str) (hshort : str.len ≤ shortLength)
    (keeps : Heap → Pointer → Nat → Bool) :
    Ensures (Machine.shrinkToFit allocator this) machine
      fun _ machine' => machine'.Represents texts →
        str.Shrinkable keeps machine.heap := by
  obtain ⟨text, htext, hread⟩ := hmachine.text hstr
  have hobject : Ensures (Machine.object this) machine fun str' machine' =>
      str' = str ∧ machine' = machine := by
    rw [Ensures, object_of hstr]
    exact ⟨rfl, rfl⟩
  apply hobject.bind
  rintro _ _ ⟨rfl, rfl⟩
  apply (onHeap_ensures (hread.shrinkable hshort allocator keeps)).bind
  rintro str' machine' ⟨-, hshrinkable⟩
  have hput : Ensures (Machine.put this (some str')) machine'
      fun _ machine'' => machine'' = { machine' with
        objects := Function.update machine'.objects this (some str') } := rfl
  apply hput.bind
  rintro _ _ rfl
  refine .pure fun hmachine' => ?_
  obtain ⟨str'', hstr'', hread'⟩ := hmachine'.object htext
  obtain rfl : str' = str'' := by
    simpa [Function.update_self] using hstr''
  exact hshrinkable hread'

/-- The calls that go well leave the objects with the texts that the operations
among them give. -/
theorem Represents.runCalls {machine : Machine} {texts : Texts}
    {calls : List Call} (hmachine : machine.Represents texts)
    (hbounded : texts.Bounded) (hallows : texts.AllowsAll (Call.ops calls))
    (hcareful : Careful allocator keeps calls machine) :
    Returns (runCalls allocator calls) machine fun answers machine' =>
      answers = (texts.run (Call.ops calls)).2 ∧
      machine'.Represents (texts.run (Call.ops calls)).1 ∧
      (texts.run (Call.ops calls)).1.Bounded := by
  induction calls generalizing machine texts with
  | nil => exact .pure ⟨rfl, hmachine, hbounded⟩
  | cons c calls ih =>
      obtain ⟨hfit, hrest⟩ := hcareful
      cases c with
      | op op =>
          obtain ⟨hop, hafter, hops⟩ := hallows
          have hstep := hmachine.step_fit hserves hbounded hop hafter hfit
          apply Returns.bind (hstep.and hrest)
          rintro answer machine' ⟨⟨rfl, hmachine'⟩, hcareful'⟩
          apply Returns.bind (ih hmachine' hafter hops hcareful')
          rintro answers machine'' ⟨rfl, hmachine'', hbounded''⟩
          exact .pure ⟨rfl, hmachine'', hbounded''⟩
      | shrinkToFit this =>
          obtain ⟨str, hstr, hshrink⟩ := hfit
          have hstep := hmachine.shrinkToFit hserves hbounded hstr hshrink
          apply Returns.bind (hstep.and hrest)
          rintro answer machine' ⟨⟨rfl, hinvisible⟩, hcareful'⟩
          apply Returns.bind (ih hinvisible.represents hbounded hallows
            hcareful')
          rintro answers machine'' ⟨rfl, hmachine'', hbounded''⟩
          exact .pure ⟨rfl, hmachine'', hbounded''⟩

/-- In a program whose calls find what they need, `shrink_to_fit` is invisible,
and in each state that it comes to, it is for the strings that are fit for it.
Of the short strings it is for no others. -/
theorem shrinkToFit_invisible {machine : Machine} {texts : Texts}
    {calls : List Call} (hmachine : machine.Represents texts)
    (hbounded : texts.Bounded) (hallows : texts.AllowsAll (Call.ops calls))
    (hcareful : Careful allocator keeps calls machine) :
    Returns (runCalls allocator calls) machine fun answers machine' =>
      answers = (texts.run (Call.ops calls)).2 ∧
      machine'.Represents (texts.run (Call.ops calls)).1 ∧
      ∀ this str, machine'.objects this = some str →
        let invisible := Returns (shrinkToFit allocator this) machine'
          fun _ machine'' =>
            Invisible (texts.run (Call.ops calls)).1 this machine' machine''
        (str.Shrinkable keeps machine'.heap → invisible) ∧
          (str.len ≤ shortLength → invisible →
            str.Shrinkable keeps machine'.heap) := by
  apply (hmachine.runCalls hserves hbounded hallows hcareful).mono
  rintro answers machine' ⟨hanswers, hmachine', hbounded'⟩
  refine ⟨hanswers, hmachine', ?_⟩
  intro this str hstr
  constructor
  · intro hshrink
    apply (hmachine'.shrinkToFit hserves hbounded' hstr hshrink).mono
    rintro answer machine'' ⟨-, hinvisible⟩
    exact hinvisible
  · intro hshort hreturns
    obtain ⟨_, _, _, hinvisible, himplies⟩ :=
      hreturns.and (hmachine'.shrinkable hstr hshort keeps)
    exact himplies hinvisible.represents

end Runs

/-- Blocks that are resized to the size they have keep their content. -/
def sameSize (heap : Heap) (ptr : Pointer) (size : Nat) : Bool :=
  (heap.lookup ptr).map List.length = some size

/-- A string that outgrew its object and became short again, with no terminator
in its block, one that holds a `'\0'`, and one that stays long in a block whose
content `realloc` loses. -/
theorem shrinkToFit_visible :
    let allocator := Allocator.moving Byte.indeterminate
    (runCalls allocator
      [.op (.construct 0 .empty), .op (.edit 0 (.resize 40 97)),
        .op (.edit 0 (.resize 20 97)), .shrinkToFit 0]).stops (start ∅) =
      some .outsideBuffer ∧
    (runCalls allocator
      [.op (.construct 0 .empty), .op (.edit 0 (.resize 21 97)),
        .op (.edit 0 (.resize 1 97)), .op (.edit 0 (.append 0)),
        .op (.edit 0 (.append 98)), .shrinkToFit 0,
        .op (.query 0 .toChars)]).stops (start ∅) = some .indeterminate ∧
    (runCalls (Allocator.losing Byte.indeterminate sameSize)
      [.op (.construct 0 .empty), .op (.edit 0 (.resize 40 97)),
        .op (.edit 0 (.resize 21 97)), .shrinkToFit 0,
        .op (.query 0 (.constAt 0))]).stops (start ∅) = some .indeterminate ∧
    (Texts.start.run
      [.construct 0 .empty, .edit 0 (.resize 21 97), .edit 0 (.resize 1 97),
        .edit 0 (.append 0), .edit 0 (.append 98), .query 0 .toChars]).2 =
      [.chars [97, 0, 98, 0]] := by
  decide +kernel

def longCalls : List Call :=
  [.op (.construct 0 .empty), .op (.edit 0 (.resize 40 97)), .shrinkToFit 0,
    .op (.query 0 .length)]

def constructed : Machine :=
  ⟨Function.update (fun _ => none) 0 (some Object.empty), ∅⟩

theorem fit_construct :
    Fit (Allocator.losing Byte.indeterminate sameSize) sameSize (start ∅)
      (.op (.construct 0 .empty)) := by
  rw [fit_op]
  decide +kernel

theorem fit_resize :
    Fit (Allocator.losing Byte.indeterminate sameSize) sameSize constructed
      (.op (.edit 0 (.resize 40 97))) := by
  rw [fit_op]
  decide +kernel

theorem fit_length (allocator : Allocator Pointer Byte)
    (keeps : Heap → Pointer → Nat → Bool) (machine : Machine) :
    Fit allocator keeps machine (.op (.query 0 .length)) := by
  rw [fit_op, stops]
  cases hobject : machine.objects 0 <;>
    simp [step, object, hobject, refused, Query.run, onHeap, put]

theorem careful_resized (answer : Option Answer) (machine : Machine)
    (hrun : step (Allocator.losing Byte.indeterminate sameSize)
      (.edit 0 (.resize 40 97)) constructed = .ok (answer, machine)) :
    Careful (Allocator.losing Byte.indeterminate sameSize) sameSize
      [.shrinkToFit 0, .op (.query 0 .length)] machine := by
  have hshape : (step (Allocator.losing Byte.indeterminate sameSize)
      (.edit 0 (.resize 40 97)) constructed).toOption.map (fun result =>
        (result.2.objects 0).map fun str => (str.len, str.union.data,
          sameSize result.2.heap 1 40)) = some (some (40, some 1, true)) := by
    decide +kernel
  rw [hrun] at hshape
  have hobject := Option.some.inj hshape
  obtain ⟨str, hstr, hvalues⟩ := Option.map_eq_some_iff.mp hobject
  simp only [Prod.mk.injEq] at hvalues
  obtain ⟨hlen, hdata, hkeeps⟩ := hvalues
  have hlong : shortLength < str.len := by
    rw [hlen]
    decide
  rw [← hlen] at hkeeps
  refine ⟨⟨str, hstr, .long 1 hlong hdata hkeeps⟩, ?_⟩
  exact Ensures.always fun _ machine' =>
    ⟨fit_length _ _ machine', Ensures.always fun _ _ => trivial⟩

theorem careful_longCalls :
    Careful (Allocator.losing Byte.indeterminate sameSize) sameSize longCalls
      (start ∅) := by
  have hconstruct : step (Allocator.losing Byte.indeterminate sameSize)
      (.construct 0 .empty) (start ∅) = .ok (none, constructed) := by
    simp [step, unused, onHeap, Construction.run, put, start, constructed]
  rw [longCalls, careful_cons, call_op, ensures_of_ok hconstruct]
  refine ⟨fit_construct, ?_⟩
  rw [careful_cons, call_op]
  refine ⟨fit_resize, ?_⟩
  have hresized := careful_resized
  generalize step (Allocator.losing Byte.indeterminate sameSize)
    (.edit 0 (.resize 40 97)) = resize at hresized ⊢
  exact .of_runs hresized

/-- The string that outgrew its object is long enough to stay in its block. -/
theorem shrinkToFit_invisible_long :
    Returns
      (runCalls (Allocator.losing .indeterminate sameSize) longCalls)
      (start ∅) fun answers machine' =>
        answers = [.size 40] ∧ ∀ this str, machine'.objects this = some str →
          str.Shrinkable sameSize machine'.heap →
          Returns
            (shrinkToFit (Allocator.losing .indeterminate sameSize) this)
            machine' fun _ machine'' => Invisible
              (Function.update Texts.start 0 (some (List.replicate 40 97)))
              this machine' machine'' := by
  have hbounded (text : Text) (hlt : text.length < 2 ^ 31) :
      Texts.Bounded (Function.update Texts.start 0 (some text)) := by
    apply Texts.bounded_start.update 0
    rintro t ⟨⟩
    exact hlt
  have hempty := hbounded [] (by decide)
  have hlong := hbounded (List.replicate 40 97) (by decide)
  have hsecond : (Texts.start.after (.construct 0 .empty)).after
      (.edit 0 (.resize 40 97)) =
        Function.update Texts.start 0 (some (List.replicate 40 97)) := by
    funext other
    by_cases hsame : other = 0 <;>
      simp [Texts.after, Function.update_apply, hsame, Edit.text,
        Construction.text]
  have hallows : Texts.start.AllowsAll [.construct 0 .empty,
      .edit 0 (.resize 40 97), .query 0 .length] := by
    refine ⟨rfl, hempty, ⟨rfl, ?_⟩, ?_, ?_⟩
    · simp [Edit.Allowed]
    · rw [hsecond]
      exact hlong
    · rw [hsecond]
      exact ⟨⟨_, rfl, trivial⟩, hlong, trivial⟩
  have hrun := shrinkToFit_invisible
    (Allocator.losing_serves_where .indeterminate sameSize)
    (Represents.start ∅) Texts.bounded_start (by exact hallows)
    careful_longCalls
  apply hrun.mono
  rintro answers machine' ⟨rfl, -, hfit⟩
  refine ⟨by decide, fun this str hstr hshrink => ?_⟩
  rw [← hsecond]
  exact (hfit this str hstr).1 hshrink

end Machine

end X86Os32.Strings
