import X86Os32.User.StringMethods

set_option linter.style.nameCheck false

namespace X86Os32.Strings

open Library Library.Program Object
open OStream (Text)

/-! The methods of `String` that take another string, when the reference to it
may be bound to the object itself. -/

/-- What the parameter `const String& str` is bound to. -/
inductive Reference
  | other (source : Object)
  /-- `*this` -/
  | receiver

/-- The object that is read through the reference, when the receiver is in the
given state. -/
def Reference.object (this : Object) : Reference → Object
  | .other source => source
  | .receiver => this

namespace Aliased

variable (allocator : Allocator Pointer Byte) (str : Reference)

/-- The loop of `append`, which asks for the length again in each round. -/
def appendLoop : Nat → Nat → Object → Code Object
  | 0, _, _ => throw (.stopped .endlessLoop)
  | fuel + 1, i, this => do
      if i < (str.object this).len then
        let c ← (str.object this).constAt (toInt i)
        let this ← _append allocator this c
        appendLoop fuel (add32 i 1) this
      else return this

def append (this : Object) : Code Object := do
  let this ← reserve allocator this (add32 this.len (str.object this).len)
  appendLoop allocator str (2 ^ 32) 0 this

/-- `operator +=` -/
def plusAssign (this : Object) : Code Object := append allocator str this

/-- `operator =` -/
def assign (this : Object) : Code Object := do
  let this ← append allocator str this.clear
  return { this with saveIndex := 0 }

def insert (this : Object) (pos : Nat) : Code Object := do
  if pos > this.len then
    return this
  let end_ ← Object.substr allocator this pos npos
  let this ← Object.resize allocator this pos 32
  let this ← append allocator str this
  let this ← Object.append allocator this end_
  destroy allocator end_
  return this

end Aliased

namespace Object

theorem appendLoop_other (allocator : Allocator Pointer Byte) (source : Object)
    {count i fuel : Nat} (hcount : i + count = source.len)
    (hlt : source.len < 2 ^ 32) (hfuel : count < fuel) :
    Aliased.appendLoop allocator (.other source) fuel i =
      appendFrom allocator source count i := by
  funext this
  induction count generalizing i fuel this with
  | zero =>
      obtain ⟨fuel, rfl⟩ := Nat.exists_eq_add_one_of_ne_zero hfuel.ne'
      have hend : ¬i < source.len := by omega
      simp [Aliased.appendLoop, Reference.object, hend, appendFrom]
  | succ count ih =>
      obtain ⟨fuel, rfl⟩ : ∃ rest, fuel = rest + 1 := ⟨fuel - 1, by omega⟩
      have hmore : i < source.len := by omega
      have hnext : add32 i 1 = i + 1 := add32_of_lt (by omega)
      have hrest (this : Object) :
          Aliased.appendLoop allocator (.other source) fuel (i + 1) this =
            appendFrom allocator source count (i + 1) this :=
        ih (by omega) (by omega) this
      simp only [Aliased.appendLoop, Reference.object, hmore, if_true, hnext,
        hrest, appendFrom]

theorem append_other (allocator : Allocator Pointer Byte) {source : Object}
    (hlt : source.len < 2 ^ 32) (this : Object) :
    Aliased.append allocator (.other source) this =
      Object.append allocator this source := by
  have hloop := appendLoop_other allocator source (Nat.zero_add _) hlt hlt
  simp only [Aliased.append, hloop, Object.append, Reference.object]

theorem store_len (str : Object) (i : Nat) (c : UInt8) (heap : Heap) :
    Ensures (str.store i c) heap fun str' _ => str'.len = str.len := by
  unfold Object.store
  split
  · apply Ensures.after
    intro cap heap
    split
    · apply Ensures.after
      intro target heap
      apply Ensures.after
      intro _ heap
      exact .pure rfl
    · exact .throw
  · split
    · exact .pure rfl
    · exact .throw

theorem toInt_nonneg {x : Nat} (hlt : x < 2 ^ 32) : toInt x ≥ 0 ↔ x < 2 ^ 31 := by
  unfold toInt
  split <;> omega

theorem require_ensures (condition : Prop) [Decidable condition] (exp : String)
    (heap : Heap) :
    Ensures (require condition exp) heap fun _ _ => condition := by
  unfold require
  split
  · next hcondition => exact .pure hcondition
  · exact .throw

theorem _append_ensures (allocator : Allocator Pointer Byte) {str : Object}
    (hlt : str.len < 2 ^ 32) (c : UInt8) (heap : Heap) :
    Ensures (_append allocator str c) heap fun str' _ =>
      str.len < 2 ^ 31 ∧ str'.len = str.len + 1 := by
  have hplace : Ensures (refAt allocator { str with len := add32 str.len 1 }
      (toInt str.len)) heap fun result _ =>
        str.len < 2 ^ 31 ∧ result.1.len = str.len + 1 := by
    apply (require_ensures _ _ heap).bind
    intro _ heap hnonneg
    have hsmall := (toInt_nonneg hlt).mp hnonneg
    have hnext : add32 str.len 1 = str.len + 1 := add32_of_lt (by omega)
    apply Ensures.after
    intro _ heap
    rw [toInt_of_lt hsmall, Int.toNat_natCast, hnext, if_neg (by simp)]
    exact .pure ⟨hsmall, rfl⟩
  apply hplace.bind
  rintro ⟨str', index⟩ heap' ⟨hsmall, hlen⟩
  apply (store_len str' index c heap').mono
  intro str'' heap'' hlen'
  exact ⟨hsmall, hlen'.trans hlen⟩

theorem grow_len (allocator : Allocator Pointer Byte) (n fuel : Nat)
    (str : Object) (heap : Heap) :
    Ensures (grow allocator n fuel str) heap fun str' _ =>
      str'.len = str.len := by
  induction fuel generalizing str heap with
  | zero => exact .throw
  | succ fuel ih =>
      unfold Object.grow
      apply Ensures.after
      intro cap heap
      split
      · apply Ensures.after
        intro cap heap
        apply Ensures.after
        intro target heap
        apply Ensures.after
        intro size heap
        apply Ensures.after
        intro data heap
        cases data with
        | none => exact .throw
        | some data => exact ih _ heap
      · exact .pure rfl

theorem switchToHeap_len (allocator : Allocator Pointer Byte) (str : Object)
    (heap : Heap) :
    Ensures (switchToHeap allocator str) heap fun str' _ =>
      str'.len = str.len := by
  apply Ensures.after
  intro tmp heap
  cases tmp with
  | none => exact .throw
  | some tmp =>
      apply Ensures.after
      intro _ heap
      exact .pure rfl

theorem reserve_len (allocator : Allocator Pointer Byte) (str : Object)
    (n : Nat) (heap : Heap) :
    Ensures (reserve allocator str n) heap fun str' _ =>
      str'.len = str.len := by
  unfold Object.reserve
  apply Ensures.after
  intro capacity heap
  split
  · exact .pure rfl
  · cases huse : str.useHeap with
    | true =>
        simpa [huse] using grow_len allocator n 33 str heap
    | false =>
        apply (switchToHeap_len allocator str heap).bind
        intro str' heap' hlen
        apply (grow_len allocator n 33 str' heap').mono
        intro str'' heap'' hlen'
        exact hlen'.trans hlen

/-- The length runs away in front of the index. -/
theorem appendLoop_receiver (allocator : Allocator Pointer Byte)
    {i : Nat} {this : Object} (hi : i < this.len) (hlt : this.len < 2 ^ 32)
    (fuel : Nat) (heap : Heap) :
    Ensures (Aliased.appendLoop allocator .receiver fuel i this) heap
      fun _ _ => False := by
  induction fuel generalizing i this heap with
  | zero => exact .throw
  | succ fuel ih =>
      rw [Aliased.appendLoop, Reference.object, if_pos hi]
      apply Ensures.after
      intro c heap
      apply (_append_ensures allocator hlt c heap).bind
      rintro this' heap' ⟨hsmall, hlen⟩
      have hnext : add32 i 1 = i + 1 := add32_of_lt (by omega)
      apply ih
      · omega
      · omega

theorem append_receiver (allocator : Allocator Pointer Byte) {this : Object}
    (hpos : 0 < this.len) (hlt : this.len < 2 ^ 32) (heap : Heap) :
    Ensures (Aliased.append allocator .receiver this) heap
      fun _ _ => False := by
  apply (reserve_len allocator this _ heap).bind
  intro this' heap' hlen
  rw [← hlen] at hpos hlt
  exact appendLoop_receiver allocator hpos hlt _ heap'

theorem appendLoop_end (allocator : Allocator Pointer Byte) {i : Nat}
    {str : Reference} {this : Object} (hend : ¬i < (str.object this).len)
    {fuel : Nat} (hfuel : 0 < fuel) :
    Aliased.appendLoop allocator str fuel i this = pure this := by
  obtain ⟨fuel, rfl⟩ := Nat.exists_eq_add_one_of_ne_zero hfuel.ne'
  rw [Aliased.appendLoop, if_neg hend]

section Methods

variable {allocator : Allocator Pointer Byte} (hserves : allocator.Serves)

include hserves

theorem Owns.append_receiver {rest heap : Heap} {this : Object}
    (howns : Owns rest heap this []) :
    Returns (Aliased.append allocator .receiver this) heap fun this' heap' =>
      Owns rest heap' this' [] := by
  obtain ⟨room, hholds⟩ := howns
  have hlen : this.len = 0 := hholds.len
  unfold Aliased.append Reference.object
  rw [hlen]
  apply Returns.bind (hholds.reserve hserves (Nat.zero_le _))
  rintro this' heap' ⟨room', -, hholds'⟩
  have hend : ¬0 < (Reference.receiver.object this').len := by
    rw [Reference.object, hholds'.len]
    exact Nat.lt_irrefl 0
  rw [appendLoop_end allocator hend (by decide)]
  exact .pure ⟨room', hholds'⟩

theorem Owns.assign_receiver {rest heap : Heap} {this : Object} {text : Text}
    (howns : Owns rest heap this text) :
    Returns (Aliased.assign allocator .receiver this) heap
      fun this' heap' => Owns rest heap' this' [] := by
  apply Returns.bind (howns.clear.append_receiver hserves)
  intro this' heap' howns'
  exact .pure (howns'.withSaveIndex 0)

/-- In front of the first character nothing is inserted, for nothing is left
when the string is read. -/
theorem Owns.insert_receiver {rest heap : Heap} {this : Object} {text : Text}
    (howns : Owns rest heap this text) (hlt : text.length < 2 ^ 31) :
    Returns (Aliased.insert allocator .receiver this 0) heap
      fun this' heap' => Owns rest heap' this' text := by
  have hsame : Strings.insert text 0 [] = text := by simp [Strings.insert]
  rw [← hsame]
  apply howns.insertBy hserves (by rwa [hsame])
  intro middle heap str end_ endText _ howns' _
  exact howns'.append_receiver hserves

/-- Behind other characters the insertion does not come to its end. -/
theorem Owns.insert_receiver_later {rest heap : Heap} {this : Object}
    {text : Text} {pos : Nat} (howns : Owns rest heap this text)
    (hlt : text.length < 2 ^ 31) (hpos : 0 < pos) (hle : pos ≤ text.length) :
    Ensures (Aliased.insert allocator .receiver this pos) heap
      fun _ _ => False := by
  have hbehind : ¬pos > this.len := by
    rw [howns.represents.len_eq]
    omega
  unfold Aliased.insert
  rw [if_neg hbehind]
  have hend : Returns (Object.substr allocator this pos npos) heap
      fun end_ heap' => Owns heap heap' end_ (Strings.substr text pos npos) :=
    howns.represents.substr hserves hlt (by decide)
  apply hend.ensures.bind
  intro end_ heap₁ hend₁
  obtain ⟨middle, howns₁, -⟩ := howns.swap hend₁
  have hshorter := howns₁.resize hserves (show pos < 2 ^ 31 by omega) 32
  apply hshorter.ensures.bind
  intro str₂ heap₂ howns₂
  have hlen : str₂.len = pos := by
    rw [howns₂.represents.len_eq]
    simp [Strings.resize]
    omega
  apply (Object.append_receiver allocator (by omega) (by omega) heap₂).bind
  intro _ _ hfalse
  cases hfalse

theorem Owns.append_receiver_iff {rest heap : Heap} {this : Object}
    {text : Text} (howns : Owns rest heap this text)
    (hlt : text.length < 2 ^ 31) :
    Returns (Aliased.append allocator .receiver this) heap (fun this' heap' =>
      Owns rest heap' this' (text ++ text)) ↔ text = [] := by
  have hlen := howns.represents.len_eq
  constructor
  · intro hreturns
    apply List.eq_nil_of_length_eq_zero
    apply Nat.eq_zero_of_not_pos
    intro hpos
    have hnever := Object.append_receiver allocator
      (show 0 < this.len by omega) (by omega) heap
    obtain ⟨_, _, _, -, hfalse⟩ := hreturns.and hnever
    exact hfalse
  · intro hempty
    subst hempty
    exact howns.append_receiver hserves

theorem Owns.assign_receiver_iff {rest heap : Heap} {this : Object}
    {text : Text} (howns : Owns rest heap this text) :
    Returns (Aliased.assign allocator .receiver this) heap (fun this' heap' =>
      Owns rest heap' this' text) ↔ text = [] := by
  have hcleared := howns.assign_receiver hserves
  constructor
  · intro hreturns
    obtain ⟨this', heap', -, htext, hnil⟩ := hreturns.and hcleared.ensures
    apply List.eq_nil_of_length_eq_zero
    rw [← htext.represents.len_eq, hnil.represents.len_eq]
    rfl
  · intro hempty
    subst hempty
    exact hcleared

theorem Owns.insert_receiver_iff {rest heap : Heap} {this : Object}
    {text : Text} {pos : Nat} (howns : Owns rest heap this text)
    (hlt : text.length < 2 ^ 31) (hpos : pos ≤ text.length) :
    Returns (Aliased.insert allocator .receiver this pos) heap
      (fun this' heap' => Owns rest heap' this'
        (text.take pos ++ text ++ text.drop pos)) ↔ text = [] := by
  constructor
  · intro hreturns
    rcases Nat.eq_zero_or_pos pos with rfl | hbehind
    · have hkept := (howns.insert_receiver hserves hlt).ensures
      obtain ⟨this', heap', -, hdouble, hsame⟩ := hreturns.and hkept
      have hlength := hdouble.represents.len_eq
      rw [hsame.represents.len_eq, List.take_zero, List.nil_append,
        List.drop_zero, List.length_append] at hlength
      apply List.eq_nil_of_length_eq_zero
      omega
    · have hnever := howns.insert_receiver_later hserves hlt hbehind hpos
      obtain ⟨_, _, _, -, hfalse⟩ := hreturns.and hnever
      cases hfalse
  · intro hempty
    subst hempty
    obtain rfl : pos = 0 := Nat.le_zero.mp hpos
    exact howns.insert_receiver hserves (by decide)

/-- With the string itself as the argument, the methods do what they do with an
equal string if the string is empty, and only then. -/
theorem aliasing_tolerated_iff {rest heap : Heap} {this : Object} {text : Text}
    {pos : Nat} (howns : Owns rest heap this text)
    (hlt : text.length < 2 ^ 31) (hpos : pos ≤ text.length) :
    (Returns (Aliased.append allocator .receiver this) heap
      (fun this' heap' => Owns rest heap' this' (text ++ text)) ↔ text = []) ∧
    (Returns (Aliased.plusAssign allocator .receiver this) heap
      (fun this' heap' => Owns rest heap' this' (text ++ text)) ↔ text = []) ∧
    (Returns (Aliased.assign allocator .receiver this) heap
      (fun this' heap' => Owns rest heap' this' text) ↔ text = []) ∧
    (Returns (Aliased.insert allocator .receiver this pos) heap
      (fun this' heap' => Owns rest heap' this'
        (text.take pos ++ text ++ text.drop pos)) ↔ text = []) :=
  ⟨howns.append_receiver_iff hserves hlt,
    howns.append_receiver_iff hserves hlt,
    howns.assign_receiver_iff hserves,
    howns.insert_receiver_iff hserves hlt hpos⟩

end Methods

/-- The writes leave the twenty bytes, the assignment empties the string, and
the insertion inserts nothing. -/
theorem aliasing_fails :
    let allocator := Allocator.moving Byte.indeterminate
    let single := inlined [97]
    Aliased.append allocator .receiver single ∅ = .error .outsideBuffer ∧
    Aliased.insert allocator .receiver single 1 ∅ = .error .outsideBuffer ∧
    Aliased.assign allocator .receiver single ∅ =
      .ok ({ single with len := 0 }, ∅) ∧
    Aliased.insert allocator .receiver single 0 ∅ = .ok (single, ∅) :=
  ⟨rfl, rfl, rfl, rfl⟩

theorem aliasing_tolerated_iff_single :
    ¬Returns (Aliased.assign (Allocator.moving .indeterminate) .receiver
      (inlined [97])) ∅ fun this' heap' => Owns ∅ heap' this' [97] := by
  have hexact := aliasing_tolerated_iff
    (Allocator.moving_serves Byte.indeterminate)
    (inlined_owns ∅ (show [97].length ≤ 20 by decide)) (by decide)
    (Nat.zero_le _)
  intro hreturns
  have hempty := hexact.2.2.1.mp hreturns
  cases hempty

end Object

end X86Os32.Strings
