import X86Os32.User.StringObject

set_option linter.style.nameCheck false

namespace X86Os32.Strings

open Library
open OStream (Text)

/-! Programs that work with any number of `String` objects, and the same
programs on lists of characters. -/

abbrev Name : Type := Nat

inductive Answer
  | size (n : Nat)
  | char (c : UInt8)
  | chars (s : Text)
deriving DecidableEq

inductive Construction
  | empty
  | chars (s : Text)

inductive Derivation
  | copy
  | substr (pos len : Nat)

inductive Edit
  | clear
  | resize (n : Nat) (c : UInt8)
  | reserve (n : Nat)
  | append (c : UInt8)
  | plusAssign (c : UInt8)
  | insert (pos : Nat) (c : UInt8)
  | erase (pos len : Nat)
  | pushBack (c : UInt8)
  | popBack

inductive Combination
  | assign
  | append
  | plusAssign
  | insert (pos : Nat)

inductive Query
  | length
  | constAt (i : Int)
  /-- A character read through the reference that `at` returns. -/
  | refAt (i : Int)
  /-- `operator const char*` -/
  | toChars

inductive Op
  | construct (this : Name) (how : Construction)
  | derive (this source : Name) (how : Derivation)
  | destroy (this : Name)
  | edit (this : Name) (how : Edit)
  | combine (this source : Name) (distinct : this ≠ source)
      (how : Combination)
  | query (this : Name) (how : Query)

section Objects

variable (allocator : Allocator Pointer Byte)

def Construction.run : Construction → Code Object
  | .empty => pure Object.empty
  | .chars s => Object.ofChars allocator s

def Derivation.run (source : Object) : Derivation → Code Object
  | .copy => Object.ofString allocator source
  | .substr pos len => source.substr allocator pos len

/-- `operator +=` is `append`. -/
def Edit.run (str : Object) : Edit → Code Object
  | .clear => pure str.clear
  | .resize n c => str.resize allocator n c
  | .reserve n => str.reserve allocator n
  | .append c => str.appendChar allocator c
  | .plusAssign c => str.appendChar allocator c
  | .insert pos c => str.insertChar allocator pos c
  | .erase pos len => str.erase allocator pos len
  | .pushBack c => str.pushBack allocator c
  | .popBack => str.popBack allocator

def Combination.run (str source : Object) : Combination → Code Object
  | .assign => str.assign allocator source
  | .append => str.append allocator source
  | .plusAssign => str.append allocator source
  | .insert pos => str.insert allocator pos source

def Query.run (str : Object) : Query → Code (Object × Answer)
  | .length => pure (str, .size str.len)
  | .constAt i => do return (str, .char (← str.constAt i))
  | .refAt i => do
      let (str, index) ← str.refAt allocator i
      return (str, .char (← str.load index))
  | .toChars => do
      let (str, text) ← str.toChars allocator
      return (str, .chars text)

structure Machine where
  objects : Name → Option Object
  heap : Heap

namespace Machine

def start (heap : Heap) : Machine where
  objects := fun _ => none
  heap := heap

def object (this : Name) : Program Machine Fault Object := fun machine =>
  match machine.objects this with
  | some str => .ok (str, machine)
  | none => .error .misnamed

def unused (this : Name) : Program Machine Fault Unit := fun machine =>
  match machine.objects this with
  | some _ => .error .misnamed
  | none => .ok ((), machine)

def put (this : Name) (str : Option Object) : Program Machine Fault Unit :=
  fun machine =>
    .ok ((), { machine with
      objects := Function.update machine.objects this str })

def onHeap (code : Code α) : Program Machine Fault α := fun machine =>
  match code machine.heap with
  | .ok (a, heap) => .ok (a, { machine with heap := heap })
  | .error fault => .error fault

def step : Op → Program Machine Fault (Option Answer)
  | .construct this how => do
      unused this
      put this (← onHeap (how.run allocator))
      return none
  | .derive this source how => do
      unused this
      let source ← object source
      put this (← onHeap (how.run allocator source))
      return none
  | .destroy this => do
      onHeap ((← object this).destroy allocator)
      put this none
      return none
  | .edit this how => do
      put this (← onHeap (how.run allocator (← object this)))
      return none
  | .combine this source _ how => do
      let str ← object this
      let source ← object source
      put this (← onHeap (how.run allocator str source))
      return none
  | .query this how => do
      let (str, answer) ← onHeap (how.run allocator (← object this))
      put this str
      return some answer

def run : List Op → Program Machine Fault (List Answer)
  | [] => pure []
  | op :: ops => do
      let answer ← step allocator op
      return answer.toList ++ (← run ops)

end Machine

end Objects

section Texts

def Construction.text : Construction → Text
  | .empty => []
  | .chars s => s.takeWhile (· ≠ 0)

def Derivation.text (source : Text) : Derivation → Text
  | .copy => source
  | .substr pos len => (source.drop pos).take len

def Edit.text (text : Text) : Edit → Text
  | .clear => []
  | .resize n c => text.take n ++ List.replicate (n - text.length) c
  | .reserve _ => text
  | .append c => text ++ [c]
  | .plusAssign c => text ++ [c]
  | .insert pos c => Strings.insert text pos [c]
  | .erase pos len => text.take pos ++ text.drop (pos + len)
  | .pushBack c => text ++ [c]
  | .popBack => text.dropLast

def Combination.text (text source : Text) : Combination → Text
  | .assign => source
  | .append => text ++ source
  | .plusAssign => text ++ source
  | .insert pos => Strings.insert text pos source

/-- Behind the characters stands the terminator. -/
def Query.answer (text : Text) : Query → Answer
  | .length => .size text.length
  | .constAt i => .char (text.getD i.toNat 0)
  | .refAt i => .char ((text ++ [0]).getD i.toNat 0)
  | .toChars => .chars (text ++ [0])

/-- The sizes an edit asks for, and positions that are of type `size_t`. -/
def Edit.Allowed : Edit → Prop
  | .resize n _ => n < 2 ^ 31
  | .reserve n => n < 2 ^ 31
  | .erase pos len =>
      pos < 2 ^ 32 ∧ len < 2 ^ 32 ∧ (pos + len < 2 ^ 32 ∨ len = npos)
  | _ => True

def Derivation.Allowed : Derivation → Prop
  | .copy => True
  | .substr _ len => len < 2 ^ 32

/-- A constant object is never asked for its terminator. -/
def Query.Allowed (text : Text) : Query → Prop
  | .constAt i => 0 ≤ i ∧ i < text.length
  | .refAt i => 0 ≤ i ∧ i ≤ text.length
  | _ => True

abbrev Texts : Type := Name → Option Text

namespace Texts

def start : Texts := fun _ => none

def Bounded (texts : Texts) : Prop :=
  ∀ this text, texts this = some text → text.length < 2 ^ 31

def after (texts : Texts) : Op → Texts
  | .construct this how => Function.update texts this (some how.text)
  | .derive this source how =>
      Function.update texts this ((texts source).map how.text)
  | .destroy this => Function.update texts this none
  | .edit this how =>
      Function.update texts this ((texts this).map how.text)
  | .combine this source _ how =>
      Function.update texts this
        ((texts this).bind fun text =>
          (texts source).map fun source => how.text text source)
  | .query _ _ => texts

def answer (texts : Texts) : Op → Option Answer
  | .query this how => (texts this).map how.answer
  | _ => none

/-- The objects that are named exist, or not yet. -/
def Allows (texts : Texts) : Op → Prop
  | .construct this _ => texts this = none
  | .derive this source how =>
      texts this = none ∧ (texts source).isSome ∧ how.Allowed
  | .destroy this => (texts this).isSome
  | .edit this how => (texts this).isSome ∧ how.Allowed
  | .combine this source _ _ => (texts this).isSome ∧ (texts source).isSome
  | .query this how => ∃ text, texts this = some text ∧ how.Allowed text

/-- The texts when a program has run, and what it got to see. -/
def run (texts : Texts) : List Op → Texts × List Answer
  | [] => (texts, [])
  | op :: ops =>
      let (texts', answers) := (texts.after op).run ops
      (texts', (texts.answer op).toList ++ answers)

def AllowsAll (texts : Texts) : List Op → Prop
  | [] => True
  | op :: ops =>
      texts.Allows op ∧ (texts.after op).Bounded ∧
        (texts.after op).AllowsAll ops

theorem bounded_start : start.Bounded := by
  intro this text htext
  cases htext

theorem Bounded.update {texts : Texts} (hbounded : texts.Bounded) (this : Name)
    {text : Option Text} (hlt : ∀ t, text = some t → t.length < 2 ^ 31) :
    Bounded (Function.update texts this text) := by
  intro other otherText hother
  by_cases hsame : other = this
  · subst hsame
    rw [Function.update_self] at hother
    exact hlt otherText hother
  · rw [Function.update_of_ne hsame] at hother
    exact hbounded other otherText hother

end Texts

end Texts

end X86Os32.Strings
