import X86Os32.User.StringRuns

set_option linter.style.nameCheck false

namespace X86Os32.Strings

open Library Library.Program
open OStream (Text)

/-! `String::Iterator`, the range-based `for` loop over a string, and the
operator of `O_Stream` that prints one. -/

structure Iterator where
  str : Option Name
  pos : Nat
deriving DecidableEq

def begin (this : Name) : Iterator := ⟨some this, 0⟩

def end_ : Iterator := ⟨none, 0⟩

section Loop

variable (allocator : Allocator Pointer Byte)

namespace Iterator

/-- `operator*`, and the character that is read through the reference. -/
def deref (it : Iterator) : Program Machine Fault UInt8 := do
  match it.str with
  | none => throw (.stopped .nullPointer)
  | some this =>
      let str ← Machine.object this
      let (str, index) ← Machine.onHeap (str.refAt allocator (toInt it.pos))
      Machine.put this (some str)
      Machine.onHeap (str.load index)

/-- `operator++` in front of the iterator. -/
def next (it : Iterator) : Program Machine Fault Iterator := do
  match it.str with
  | none => return it
  | some this =>
      let pos := add32 it.pos 1
      if pos ≥ (← Machine.object this).len then return ⟨none, 0⟩
      else return ⟨some this, pos⟩

end Iterator

/-- `for (char c : str) s = visit(s, c);` from where the iterator is. -/
def forFrom (visit : σ → UInt8 → σ) :
    Nat → Iterator → σ → Program Machine Fault σ
  | 0, _, _ => throw (.stopped .endlessLoop)
  | fuel + 1, it, s => do
      if it ≠ end_ then
        let c ← it.deref allocator
        forFrom visit fuel (← it.next) (visit s c)
      else return s

def forEach (visit : σ → UInt8 → σ) (this : Name) (s : σ) :
    Program Machine Fault σ :=
  forFrom allocator visit (2 ^ 32) (begin this) s

/-- `O_Stream::operator <<(String& str)`, for a stream that `put` prints a
character on. -/
def putString (put : σ → UInt8 → σ) (out : σ) (this : Name) :
    Program Machine Fault σ :=
  forEach allocator put this out

/-- The loop and the operator go through the characters once, and nothing
changes. -/
def VisitsExactly (machine : Machine) (this : Name) (text : Text) : Prop :=
  ∀ (σ : Type) (visit : σ → UInt8 → σ) (s : σ),
    forEach allocator visit this s machine = .ok (text.foldl visit s, machine) ∧
    putString allocator visit s this machine = .ok (text.foldl visit s, machine)

/-- On every stream, printing two strings one after the other is printing the
third one. -/
def PrintsTogether (machine : Machine) (first second both : Name) : Prop :=
  ∀ (σ : Type) (put : σ → UInt8 → σ) (out : σ),
    Returns (putString allocator put out both) machine fun whole _ =>
      Returns (putString allocator put out first >>= fun out =>
        putString allocator put out second) machine fun parts _ =>
          parts = whole

end Loop

/-- What the loop visits: the terminator if there is nothing else. -/
def visited (text : Text) : Text := if text = [] then [0] else text

theorem length_visited (text : Text) :
    (visited text).length = max 1 text.length := by
  unfold visited
  cases text <;> simp

namespace Machine

variable {machine : Machine} {texts : Texts} {this : Name} {text : Text}

theorem Represents.deref (allocator : Allocator Pointer Byte)
    (hmachine : machine.Represents texts) (htext : texts this = some text)
    {i : Nat} (hi : i < text.length) (hlt : text.length < 2 ^ 31) :
    Iterator.deref allocator ⟨some this, i⟩ machine =
      .ok (text[i], machine) := by
  obtain ⟨str, hobject, hread⟩ := hmachine.object htext
  have hlen := hread.len_eq
  obtain ⟨room, hholds⟩ := hread
  have href : str.refAt allocator (toInt i) machine.heap =
      .ok ((str, i), machine.heap) := by
    have hle : i ≤ text.length := hi.le
    rw [Object.toInt_of_lt (by omega)]
    simp [Object.refAt, require, hlen, hle, hi.ne]
  have hsame : Function.update machine.objects this (some str) =
      machine.objects := by
    rw [← hobject, Function.update_eq_self]
  simp [Iterator.deref, object_of hobject, onHeap_of href, Machine.put, hsame,
    onHeap_of (hholds.load hi)]

theorem Represents.next (hmachine : machine.Represents texts)
    (htext : texts this = some text) {i : Nat} (hi : i < 2 ^ 31) :
    Iterator.next ⟨some this, i⟩ machine =
      .ok (if i + 1 ≥ text.length then end_ else ⟨some this, i + 1⟩,
        machine) := by
  obtain ⟨str, hobject, hread⟩ := hmachine.object htext
  have hsum : add32 i 1 = i + 1 := add32_of_lt (by omega)
  simp only [Iterator.next, bind_apply, object_of hobject, hsum,
    hread.len_eq]
  split <;> rfl

variable (visit : σ → UInt8 → σ)

theorem Represents.forFrom (allocator : Allocator Pointer Byte)
    (hmachine : machine.Represents texts) (htext : texts this = some text)
    (hlt : text.length < 2 ^ 31) {i fuel : Nat} (hi : i < text.length)
    (hfuel : text.length - i < fuel) (s : σ) :
    forFrom allocator visit fuel ⟨some this, i⟩ s machine =
      .ok ((text.drop i).foldl visit s, machine) := by
  induction fuel generalizing i s with
  | zero => exact absurd hfuel (Nat.not_lt_zero _)
  | succ fuel ih =>
      have hopen : (⟨some this, i⟩ : Iterator) ≠ end_ := by
        simp [end_]
      have hchar := hmachine.deref allocator htext hi hlt
      have hnext := hmachine.next htext (show i < 2 ^ 31 by omega)
      rw [List.drop_eq_getElem_cons hi, List.foldl_cons]
      unfold Strings.forFrom
      simp only [if_pos hopen, bind_apply, hchar, hnext]
      by_cases hlast : i + 1 ≥ text.length
      · obtain ⟨fuel, rfl⟩ : ∃ rounds, fuel = rounds + 1 :=
          Nat.exists_eq_succ_of_ne_zero (by omega)
        rw [if_pos hlast, List.drop_of_length_le hlast]
        rfl
      · rw [if_neg hlast]
        exact ih (by omega) (by omega) _

theorem Represents.forEach (allocator : Allocator Pointer Byte)
    (hmachine : machine.Represents texts) (htext : texts this = some text)
    (hlt : text.length < 2 ^ 31) (hchars : text ≠ []) (s : σ) :
    Strings.forEach allocator visit this s machine =
      .ok (text.foldl visit s, machine) := by
  have hpos : 0 < text.length := List.length_pos_of_ne_nil hchars
  exact hmachine.forFrom visit allocator htext hlt hpos (by omega) s

/-- An empty string has room for the terminator, which is what the loop finds in
it. -/
theorem Represents.derefEmpty (allocator : Allocator Pointer Byte)
    (hmachine : machine.Represents texts) (htext : texts this = some []) :
    Returns (Iterator.deref allocator (begin this)) machine fun c machine' =>
      c = 0 ∧ machine'.Represents texts := by
  obtain ⟨str, hobject, hread⟩ := hmachine.object htext
  have hlen : str.len = 0 := hread.len_eq
  obtain ⟨room, hholds⟩ := hread
  have hroom : 1 ≤ room := by
    obtain ⟨buffer, hstores, rfl, -⟩ := hholds.buffer
    exact hstores.length_pos
  obtain ⟨str', heap', hstore, hcontains, hlen'⟩ :=
    hholds.toContains.store hroom 0
  have href : str.refAt allocator (toInt 0) machine.heap =
      .ok ((str', 0), heap') := by
    have hone : add32 0 1 = 1 := rfl
    rw [Object.toInt_of_lt (by decide)]
    change str.store 0 0 machine.heap = _ at hstore
    simp [Object.refAt, require, hlen, Object._appendNullbyte, hone,
      Object.reserve, hholds.capacity, hroom, hstore]
  have howns := hcontains.owns (hlen'.trans hlen)
  refine ⟨0, ⟨Function.update machine.objects this (some str'), heap'⟩, ?_, rfl,
    ?_⟩
  · have hload : str'.load 0 heap' = .ok (0, heap') :=
      hcontains.load (Nat.zero_lt_one)
    simp [Iterator.deref, begin, object_of hobject, onHeap_of href, Machine.put]
    rw [onHeap_of hload]
  · have hupdate := hmachine.update (.some howns.represents) howns.others
      fun hne hstr' hread' => hmachine.beside hne hobject hstr' hread'
    rwa [← htext, Function.update_eq_self] at hupdate

theorem Represents.forEach_visited (allocator : Allocator Pointer Byte)
    (hmachine : machine.Represents texts) (hbounded : texts.Bounded)
    (htext : texts this = some text) (s : σ) :
    Returns (Strings.forEach allocator visit this s) machine fun s' machine' =>
      s' = (visited text).foldl visit s ∧ machine'.Represents texts := by
  by_cases hempty : text = []
  · subst hempty
    obtain ⟨c, machine', hrun, rfl, hmachine'⟩ :=
      hmachine.derefEmpty allocator htext
    have hnext := hmachine'.next htext (show 0 < 2 ^ 31 by decide)
    refine ⟨visit s 0, machine', ?_, rfl, hmachine'⟩
    change Strings.forFrom allocator visit (2 ^ 32 - 1 + 1) (begin this) s
      machine = _
    unfold Strings.forFrom
    rw [if_pos nofun]
    simp only [bind_apply, hrun]
    rw [begin, hnext]
    rfl
  · have hlt := hbounded this text htext
    refine ⟨_, _, hmachine.forEach visit allocator htext hlt hempty s, ?_,
      hmachine⟩
    rw [visited, if_neg hempty]

def record (out : Text) (c : UInt8) : Text := out ++ [c]

theorem foldl_record (out text : Text) :
    text.foldl record out = out ++ text := by
  induction text generalizing out with
  | nil => exact (List.append_nil out).symm
  | cons c text ih =>
      rw [List.foldl_cons, ih, record, List.append_assoc]
      rfl

theorem Represents.visitsExactly_iff (allocator : Allocator Pointer Byte)
    (hmachine : machine.Represents texts) (hbounded : texts.Bounded)
    (htext : texts this = some text) :
    VisitsExactly allocator machine this text ↔ text ≠ [] := by
  constructor
  · rintro hexactly rfl
    obtain ⟨out, machine', hrun, hout, -⟩ :=
      hmachine.forEach_visited record allocator hbounded htext []
    rw [(hexactly Text record []).1, hout] at hrun
    cases hrun
  · intro hchars σ visit s
    have hrun := hmachine.forEach visit allocator htext
      (hbounded this text htext) hchars s
    exact ⟨hrun, hrun⟩

theorem Represents.putTwo (put : σ → UInt8 → σ)
    (allocator : Allocator Pointer Byte)
    (hmachine : machine.Represents texts) (hbounded : texts.Bounded)
    {first second : Name} {a b : Text} (hfirst : texts first = some a)
    (hsecond : texts second = some b) (out : σ) :
    Returns (putString allocator put out first >>= fun out =>
      putString allocator put out second) machine fun out' _ =>
        out' = (visited a ++ visited b).foldl put out := by
  apply Returns.bind
    (hmachine.forEach_visited put allocator hbounded hfirst out)
  rintro out' machine' ⟨rfl, hmachine'⟩
  apply (hmachine'.forEach_visited put allocator hbounded hsecond _).mono
  rintro out'' machine'' ⟨rfl, -⟩
  rw [List.foldl_append]

theorem Represents.printsTogether_iff (allocator : Allocator Pointer Byte)
    (hmachine : machine.Represents texts) (hbounded : texts.Bounded)
    {first second both : Name} {a b : Text} (hfirst : texts first = some a)
    (hsecond : texts second = some b) (hboth : texts both = some (a ++ b)) :
    PrintsTogether allocator machine first second both ↔ a ≠ [] ∧ b ≠ [] := by
  constructor
  · intro htogether
    have hwhole := hmachine.forEach_visited record allocator hbounded hboth []
    have hparts := hmachine.putTwo record allocator hbounded hfirst hsecond []
    obtain ⟨whole, machine', hrun, parts, machine'', hrun', rfl⟩ :=
      htogether Text record []
    obtain ⟨whole', _, hputs, hvisited, -⟩ := hwhole
    obtain ⟨parts', _, hputs', hvisited'⟩ := hparts
    cases hrun.symm.trans hputs
    cases hrun'.symm.trans hputs'
    rw [hvisited, foldl_record, foldl_record] at hvisited'
    have hlength := congrArg List.length hvisited'
    simp only [List.nil_append, List.length_append, length_visited] at hlength
    rw [← List.length_pos_iff, ← List.length_pos_iff]
    omega
  · rintro ⟨ha, hb⟩ σ put out
    apply (hmachine.forEach_visited put allocator hbounded hboth out).mono
    rintro whole - ⟨rfl, -⟩
    apply (hmachine.putTwo put allocator hbounded hfirst hsecond out).mono
    rintro parts - rfl
    simp [visited, ha, hb]

/-- A loop over a string and printing it go through its characters if there are
any, and printing two strings prints what is in both if neither is empty. -/
theorem visits_exactly_iff (allocator : Allocator Pointer Byte)
    (hmachine : machine.Represents texts) (hbounded : texts.Bounded)
    {first second both : Name} {a b : Text} (hfirst : texts first = some a)
    (hsecond : texts second = some b) (hboth : texts both = some (a ++ b)) :
    (VisitsExactly allocator machine first a ↔ a ≠ []) ∧
    (PrintsTogether allocator machine first second both ↔ a ≠ [] ∧ b ≠ []) :=
  ⟨hmachine.visitsExactly_iff allocator hbounded hfirst,
    hmachine.printsTogether_iff allocator hbounded hfirst hsecond hboth⟩

/-- Of empty strings, one is printed as a terminator and two are printed as two of
them. -/
theorem visits_terminators :
    let allocator := Allocator.moving Byte.indeterminate
    let machine : Machine := ⟨fun _ => some Object.empty, ∅⟩
    let both := putString allocator record [] 0 >>= fun out =>
      putString allocator record out 1
    (forEach allocator record 0 [] machine).map Prod.fst = .ok [0] ∧
    (putString allocator record [] 2 machine).map Prod.fst = .ok [0] ∧
    (both machine).map Prod.fst = .ok [0, 0] := by
  decide

theorem visits_exactly_iff_letters :
    let allocator := Allocator.moving Byte.indeterminate
    let letters : Name → Text := fun this =>
      if this = 0 then [97] else if this = 1 then [98] else [97, 98]
    let machine : Machine :=
      ⟨fun this => some (Object.inlined (letters this)), ∅⟩
    VisitsExactly allocator machine 0 [97] ∧
      PrintsTogether allocator machine 0 1 2 := by
  intro allocator letters machine
  have hshort (this : Name) : (letters this).length ≤ 2 := by
    change (ite _ _ _ : Text).length ≤ 2
    split
    · decide
    · split <;> decide
  have hmachine : machine.Represents fun this => some (letters this) := by
    refine ⟨fun this => .some ?_, ?_⟩
    · have hle : (letters this).length ≤ shortLength :=
        (hshort this).trans (by decide)
      exact (Object.inlined_owns ∅ hle).represents
    · rintro this other str str' - hstr - target howner
      cases hstr
      cases howner
  have hbounded : Texts.Bounded fun this => some (letters this) := by
    rintro this text ⟨⟩
    exact (hshort this).trans_lt (by decide)
  have hexactly := visits_exactly_iff allocator hmachine hbounded
    (show some (letters 0) = some [97] from rfl)
    (show some (letters 1) = some [98] from rfl)
    (show some (letters 2) = some ([97] ++ [98]) from rfl)
  exact ⟨hexactly.1.mpr nofun, hexactly.2.mpr ⟨nofun, nofun⟩⟩

end Machine

end X86Os32.Strings
