import X86Os32.User.StringMachine
import X86Os32.User.StringMethods

set_option linter.style.nameCheck false

namespace X86Os32.Strings

open Library Library.Program Object
open OStream (Text)

/-! Whatever a program does with its strings, they are lists of characters. -/

section Objects

variable {allocator : Allocator Pointer Byte} (hserves : allocator.Serves)

include hserves

theorem Construction.run_returns (how : Construction) (heap : Heap)
    (hlt : how.text.length < 2 ^ 31) :
    Returns (how.run allocator) heap fun str heap' =>
      Owns heap heap' str how.text := by
  cases how with
  | empty => exact .pure (Owns.empty heap)
  | chars s => exact ofChars_returns hserves heap hlt

theorem Derivation.run_returns {how : Derivation} {heap : Heap}
    {source : Object} {text : Text} (hsource : Represents heap source text)
    (hlt : text.length < 2 ^ 31) (hallowed : how.Allowed) :
    Returns (how.run allocator source) heap fun str heap' =>
      Owns heap heap' str (how.text text) := by
  cases how with
  | copy => exact hsource.ofString hserves hlt
  | substr pos len => exact hsource.substr hserves hlt hallowed

theorem Edit.run_returns {how : Edit} {rest heap : Heap} {str : Object}
    {text : Text} (howns : Owns rest heap str text)
    (hlt : text.length < 2 ^ 31) (hallowed : how.Allowed)
    (hresult : (how.text text).length < 2 ^ 31) :
    Returns (how.run allocator str) heap fun str' heap' =>
      Owns rest heap' str' (how.text text) := by
  have happend (c : UInt8) (hresult : (text ++ [c]).length < 2 ^ 31) :
      Returns (str.appendChar allocator c) heap fun str' heap' =>
        Owns rest heap' str' (text ++ [c]) := by
    rw [List.length_append, List.length_singleton] at hresult
    exact howns.appendChar hserves hresult c
  cases how with
  | clear => exact .pure howns.clear
  | resize n c => exact howns.resize hserves hallowed c
  | reserve n =>
      obtain ⟨room, hholds⟩ := howns
      apply (hholds.reserve hserves (Nat.le_of_lt hallowed)).mono
      rintro str' heap' ⟨room', -, hholds'⟩
      exact ⟨room', hholds'⟩
  | append c => exact happend c hresult
  | plusAssign c => exact happend c hresult
  | insert pos c => exact howns.insertChar hserves c hresult
  | erase pos len =>
      obtain ⟨hpos, hlen, hend⟩ := hallowed
      have herase : Strings.erase text pos len =
          Edit.text text (.erase pos len) :=
        erase_eq (by omega) hend
      rw [← herase]
      exact howns.erase hserves hlt hpos hlen
  | pushBack c => exact happend c hresult
  | popBack => exact howns.popBack hserves hlt

theorem Combination.run_returns {how : Combination} {rest heap : Heap}
    {str source : Object} {text sourceText : Text}
    (howns : Owns rest heap str text)
    (hsource : Represents rest source sourceText)
    (hlt : sourceText.length < 2 ^ 31)
    (hresult : (how.text text sourceText).length < 2 ^ 31) :
    Returns (how.run allocator str source) heap fun str' heap' =>
      Owns rest heap' str' (how.text text sourceText) := by
  have happend (hresult : (text ++ sourceText).length < 2 ^ 31) :
      Returns (str.append allocator source) heap fun str' heap' =>
        Owns rest heap' str' (text ++ sourceText) := by
    rw [List.length_append] at hresult
    exact howns.append hserves hsource hresult
  cases how with
  | assign => exact howns.assign hserves hsource hlt
  | append => exact happend hresult
  | plusAssign => exact happend hresult
  | insert pos => exact howns.insert hserves hsource hresult

theorem Query.run_returns {how : Query} {rest heap : Heap} {str : Object}
    {text : Text} (howns : Owns rest heap str text)
    (hlt : text.length < 2 ^ 31) (hallowed : how.Allowed text) :
    Returns (how.run allocator str) heap fun result heap' =>
      Owns rest heap' result.1 text ∧ result.2 = how.answer text := by
  cases how with
  | length =>
      refine .pure ⟨howns, ?_⟩
      rw [howns.represents.len_eq]
      rfl
  | constAt i =>
      obtain ⟨hi, hi'⟩ := hallowed
      obtain ⟨i, rfl⟩ := Int.eq_ofNat_of_zero_le hi
      have hi' : i < text.length := Int.ofNat_lt.mp hi'
      have hread := howns.represents.constAt hi' (by omega)
      rw [toInt_of_lt (by omega)] at hread
      apply Returns.step hread
      refine .pure ⟨howns, ?_⟩
      simp [Query.answer, hi']
  | refAt i =>
      obtain ⟨hi, hi'⟩ := hallowed
      obtain ⟨i, rfl⟩ := Int.eq_ofNat_of_zero_le hi
      apply Returns.bind (howns.refAt hserves hlt (Int.ofNat_le.mp hi'))
      rintro ⟨str', index⟩ heap' ⟨howns', hload⟩
      apply Returns.step hload
      exact .pure ⟨howns', rfl⟩
  | toChars =>
      apply Returns.bind (howns.toChars hserves hlt)
      rintro ⟨str', chars⟩ heap' ⟨howns', rfl⟩
      exact .pure ⟨howns', rfl⟩

end Objects

namespace Machine

/-- Every object holds its text in bytes of its own. -/
structure Represents (machine : Machine) (texts : Texts) : Prop where
  texts : ∀ this, Option.Rel (Object.Represents machine.heap)
    (machine.objects this) (texts this)
  apart : ∀ {this other : Name} {str str' : Object}, this ≠ other →
    machine.objects this = some str → machine.objects other = some str' →
    ∀ target, str.owner = some target → str'.owner ≠ some target

theorem Represents.start (heap : Heap) :
    (start heap).Represents Texts.start := by
  refine ⟨fun this => .none, ?_⟩
  intro this other str str' hne hstr
  simp [Machine.start] at hstr

theorem Represents.object {machine : Machine} {texts : Texts}
    (hmachine : machine.Represents texts) {this : Name} {text : Text}
    (htext : texts this = some text) :
    ∃ str, machine.objects this = some str ∧
      Object.Represents machine.heap str text := by
  have hrel := hmachine.texts this
  rw [htext] at hrel
  cases hobject : machine.objects this with
  | none => simp [hobject] at hrel
  | some str => exact ⟨str, rfl, by simpa [hobject] using hrel⟩

theorem Represents.unused {machine : Machine} {texts : Texts}
    (hmachine : machine.Represents texts) {this : Name}
    (hunused : texts this = none) :
    Machine.unused this machine = .ok ((), machine) := by
  have hrel := hmachine.texts this
  rw [hunused] at hrel
  cases hobject : machine.objects this with
  | none => simp [Machine.unused, hobject]
  | some str => simp [hobject] at hrel

theorem Represents.text {machine : Machine} {texts : Texts}
    (hmachine : machine.Represents texts) {this : Name} {str : Object}
    (hobject : machine.objects this = some str) :
    ∃ text, texts this = some text ∧
      Object.Represents machine.heap str text := by
  have hrel := hmachine.texts this
  rw [hobject] at hrel
  cases htext : texts this with
  | none => simp [htext] at hrel
  | some text => exact ⟨text, rfl, by simpa [htext] using hrel⟩

theorem Represents.readable {machine : Machine} {texts : Texts}
    (hmachine : machine.Represents texts) {this : Name} {str : Object}
    (hobject : machine.objects this = some str) :
    ∃ text, Object.Represents machine.heap str text := by
  obtain ⟨text, -, hread⟩ := hmachine.text hobject
  exact ⟨text, hread⟩

theorem Represents.beside {machine : Machine} {texts : Texts}
    (hmachine : machine.Represents texts) {this other : Name}
    {str str' : Object} {text' : Text} (hne : this ≠ other)
    (hstr : machine.objects this = some str)
    (hstr' : machine.objects other = some str')
    (hread : Object.Represents machine.heap str' text') :
    Object.Represents (machine.heap.without str.owner) str' text' := by
  apply Object.Represents.without_iff.mpr
  refine ⟨hread, ?_⟩
  intro target howner' howner
  exact hmachine.apart hne hstr hstr' target howner howner'

/-- One object gets another text, or none, and the others stay as they are. -/
theorem Represents.update {machine : Machine} {texts : Texts}
    (hmachine : machine.Represents texts) {this : Name} {rest heap : Heap}
    {str : Option Object} {text : Option Text}
    (hnew : Option.Rel (Object.Represents heap) str text)
    (hrest : heap.without (str.bind owner) = rest)
    (hothers : ∀ {other str' text'}, this ≠ other →
      machine.objects other = some str' →
      Object.Represents machine.heap str' text' →
      Object.Represents rest str' text') :
    Represents
      { objects := Function.update machine.objects this str
        heap := heap }
      (Function.update texts this text) := by
  subst hrest
  constructor
  · intro other
    by_cases hsame : this = other
    · subst hsame
      simpa using hnew
    · simp only [Function.update_of_ne (Ne.symm hsame)]
      have hrel := hmachine.texts other
      generalize hobject : machine.objects other = object at hrel ⊢
      generalize texts other = text' at hrel ⊢
      cases hrel with
      | none => exact .none
      | some hread =>
          exact .some (Object.Represents.without_iff.mp
            (hothers hsame hobject hread)).1
  · have hapart {other : Name} {str' : Object} (hsame : this ≠ other)
        (hobject : machine.objects other = some str') (target : Pointer)
        (howner' : str'.owner = some target) :
        str.bind owner ≠ some target := by
      obtain ⟨text', hread⟩ := hmachine.readable hobject
      exact (Object.Represents.without_iff.mp
        (hothers hsame hobject hread)).2 target howner'
    intro first second str₁ str₂ hne hstr₁ hstr₂ target howner₁ howner₂
    dsimp only at hstr₁ hstr₂
    by_cases hfirst : this = first
    · subst hfirst
      rw [Function.update_self] at hstr₁
      rw [Function.update_of_ne (Ne.symm hne)] at hstr₂
      exact hapart hne hstr₂ target howner₂ (by rw [hstr₁]; exact howner₁)
    · rw [Function.update_of_ne (Ne.symm hfirst)] at hstr₁
      by_cases hsecond : this = second
      · subst hsecond
        rw [Function.update_self] at hstr₂
        exact hapart hfirst hstr₁ target howner₁ (by rw [hstr₂]; exact howner₂)
      · rw [Function.update_of_ne (Ne.symm hsecond)] at hstr₂
        exact hmachine.apart hne hstr₁ hstr₂ target howner₁ howner₂

theorem object_of {machine : Machine} {this : Name} {str : Object}
    (hstr : machine.objects this = some str) :
    object this machine = .ok (str, machine) := by
  simp [object, hstr]

theorem onHeap_of {code : Code α} {machine : Machine} {a : α} {heap : Heap}
    (hrun : code machine.heap = .ok (a, heap)) :
    onHeap code machine = .ok (a, { machine with heap := heap }) := by
  simp [onHeap, hrun]

theorem Represents.put {machine : Machine} {texts : Texts}
    (hmachine : machine.Represents texts) {this : Name} {rest : Heap}
    {code : Code Object} {text : Text}
    (hcode : Returns code machine.heap fun str heap => Owns rest heap str text)
    (hothers : ∀ {other str' text'}, this ≠ other →
      machine.objects other = some str' →
      Object.Represents machine.heap str' text' →
      Object.Represents rest str' text') :
    Returns (do
      Machine.put this (some (← onHeap code))
      return none) machine fun (answer : Option Answer) machine' =>
        answer = none ∧
          machine'.Represents (Function.update texts this (some text)) := by
  obtain ⟨str, heap, hrun, howns⟩ := hcode
  apply Returns.step (onHeap_of hrun)
  exact ⟨none, _, rfl, rfl,
    hmachine.update (.some howns.represents) howns.others hothers⟩

section Runs

variable {allocator : Allocator Pointer Byte} (hserves : allocator.Serves)

include hserves

/-- What one step does to the objects it does to the texts. -/
theorem Represents.step {machine : Machine} {texts : Texts} {op : Op}
    (hmachine : machine.Represents texts) (hbounded : texts.Bounded)
    (hallows : texts.Allows op) (hafter : (texts.after op).Bounded) :
    Returns (step allocator op) machine fun answer machine' =>
      answer = texts.answer op ∧ machine'.Represents (texts.after op) := by
  cases op with
  | construct this how =>
      have hlt : how.text.length < 2 ^ 31 :=
        hafter this how.text (by simp [Texts.after])
      apply Returns.step (hmachine.unused hallows)
      apply hmachine.put (how.run_returns hserves machine.heap hlt)
      intro other str' text' _ _ hread
      exact hread
  | derive this source how =>
      obtain ⟨hunused, hsource, hallowed⟩ := hallows
      obtain ⟨text, htext⟩ := Option.isSome_iff_exists.mp hsource
      obtain ⟨str, hstr, hread⟩ := hmachine.object htext
      apply Returns.step (hmachine.unused hunused)
      apply Returns.step (object_of hstr)
      rw [Texts.after, htext]
      apply hmachine.put
        (Derivation.run_returns hserves hread (hbounded source text htext)
          hallowed)
      intro other str' text' _ _ hread'
      exact hread'
  | destroy this =>
      obtain ⟨text, htext⟩ := Option.isSome_iff_exists.mp hallows
      obtain ⟨str, hstr, hread⟩ := hmachine.object htext
      apply Returns.step (object_of hstr)
      apply Returns.step (onHeap_of (Owns.destroy hserves hread))
      refine ⟨none, _, rfl, rfl, hmachine.update .none rfl ?_⟩
      intro other str' text' hne hstr' hread'
      exact hmachine.beside hne hstr hstr' hread'
  | edit this how =>
      obtain ⟨hthis, hallowed⟩ := hallows
      obtain ⟨text, htext⟩ := Option.isSome_iff_exists.mp hthis
      obtain ⟨str, hstr, hread⟩ := hmachine.object htext
      have hresult : (how.text text).length < 2 ^ 31 :=
        hafter this (how.text text) (by simp [Texts.after, htext])
      apply Returns.step (object_of hstr)
      rw [Texts.after, htext]
      apply hmachine.put
        (Edit.run_returns hserves hread (hbounded this text htext) hallowed
          hresult)
      intro other str' text' hne hstr' hread'
      exact hmachine.beside hne hstr hstr' hread'
  | combine this source distinct how =>
      obtain ⟨hthis, hsource⟩ := hallows
      obtain ⟨text, htext⟩ := Option.isSome_iff_exists.mp hthis
      obtain ⟨str, hstr, hread⟩ := hmachine.object htext
      obtain ⟨sourceText, hsourceText⟩ :=
        Option.isSome_iff_exists.mp hsource
      obtain ⟨sourceStr, hsourceStr, hsourceRead⟩ :=
        hmachine.object hsourceText
      have hresult : (how.text text sourceText).length < 2 ^ 31 :=
        hafter this (how.text text sourceText)
          (by simp [Texts.after, htext, hsourceText])
      apply Returns.step (object_of hstr)
      apply Returns.step (object_of hsourceStr)
      rw [Texts.after, htext, hsourceText]
      apply hmachine.put
        (Combination.run_returns hserves hread
          (hmachine.beside distinct hstr hsourceStr hsourceRead)
          (hbounded source sourceText hsourceText) hresult)
      intro other str' text' hne hstr' hread'
      exact hmachine.beside hne hstr hstr' hread'
  | query this how =>
      obtain ⟨text, htext, hallowed⟩ := hallows
      obtain ⟨str, hstr, hread⟩ := hmachine.object htext
      obtain ⟨⟨str', answer⟩, heap', hrun, howns, rfl⟩ :=
        Query.run_returns hserves hread (hbounded this text htext) hallowed
      have htexts : texts = Function.update texts this (some text) := by
        rw [← htext, Function.update_eq_self]
      apply Returns.step (object_of hstr)
      apply Returns.step (onHeap_of hrun)
      refine ⟨_, _, rfl, ?_, ?_⟩
      · rw [Texts.answer, htext, Option.map_some]
      · rw [Texts.after, htexts]
        apply hmachine.update (.some howns.represents) howns.others
        intro other str' text' hne hstr' hread'
        exact hmachine.beside hne hstr hstr' hread'

/-- For every program on any number of strings, what it gets to see and what
the strings hold in the end is what lists of characters give. -/
theorem run_refines_texts {machine : Machine} {texts : Texts} {ops : List Op}
    (hmachine : machine.Represents texts) (hbounded : texts.Bounded)
    (hallows : texts.AllowsAll ops) :
    Returns (run allocator ops) machine fun answers machine' =>
      answers = (texts.run ops).2 ∧ machine'.Represents (texts.run ops).1 ∧
      ∀ this str, machine'.objects this = some str →
        ∃ room, str.capacity machine'.heap = .ok (room, machine'.heap) ∧
          str.len ≤ room := by
  induction ops generalizing machine texts with
  | nil =>
      refine .pure ⟨rfl, hmachine, ?_⟩
      intro this str hstr
      obtain ⟨text, hread⟩ := hmachine.readable hstr
      exact hread.room
  | cons op ops ih =>
      obtain ⟨hop, hafter, hops⟩ := hallows
      apply Returns.bind (hmachine.step hserves hbounded hop hafter)
      rintro answer machine' ⟨rfl, hmachine'⟩
      apply Returns.bind (ih hmachine' hafter hops)
      rintro answers machine'' ⟨rfl, hmachine'', hroom⟩
      exact .pure ⟨rfl, hmachine'', hroom⟩

end Runs

/-- A string that outgrows its inline bytes, and another one appended to it. -/
theorem run_refines_texts_outgrown :
    Returns
      (run (Allocator.moving .indeterminate)
        [.construct 0 (.chars [97, 98]), .construct 1 .empty,
          .edit 1 (.resize 20 120), .combine 1 0 (by decide) .append,
          .edit 1 (.erase 0 18), .query 1 .toChars])
      (start ∅) fun answers machine' =>
        answers = [.chars [120, 120, 97, 98, 0]] ∧
          ∀ this str, machine'.objects this = some str →
            ∃ room, str.capacity machine'.heap = .ok (room, machine'.heap) ∧
              str.len ≤ room := by
  have hshort (text : Text) (hlt : text.length < 2 ^ 31) :
      ∀ t, some text = some t → t.length < 2 ^ 31 := by
    rintro t ⟨⟩
    exact hlt
  have h₁ : (Texts.start.after (.construct 0 (.chars [97, 98]))).Bounded :=
    Texts.bounded_start.update 0 (hshort [97, 98] (by decide))
  have h₂ := h₁.update 1 (hshort [] (by decide))
  have h₃ := h₂.update 1 (hshort (List.replicate 20 120) (by decide))
  have h₄ := h₃.update 1
    (hshort (List.replicate 20 120 ++ [97, 98]) (by decide))
  have h₅ := h₄.update 1 (hshort [120, 120, 97, 98] (by decide))
  refine (run_refines_texts (Allocator.moving_serves Byte.indeterminate)
    (Represents.start ∅) Texts.bounded_start ?_).mono ?_
  · exact ⟨rfl, h₁, rfl, h₂, ⟨rfl, by simp [Edit.Allowed]⟩, h₃, ⟨rfl, rfl⟩, h₄,
      ⟨rfl, by simp [Edit.Allowed]⟩, h₅, ⟨_, rfl, trivial⟩, h₅, trivial⟩
  · rintro answers machine' ⟨rfl, -, hroom⟩
    exact ⟨by decide, hroom⟩

end Machine

end X86Os32.Strings
