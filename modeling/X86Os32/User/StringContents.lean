import X86Os32.User.StringObject

set_option linter.style.nameCheck false

namespace X86Os32.Strings

open Library Library.Program
open OStream (Text)

/-! What each method of `String` leaves in the buffer of its object, and that
it leaves the blocks of all other objects alone. -/

namespace Union

@[simp] theorem data_setData (union : Union) (target : Pointer) :
    (union.setData target).data = some target := by
  simp [data, setData]

@[simp] theorem data_setCap (union : Union) (n : Nat) :
    (union.setCap n).data = union.data := by
  simp [data, setCap]

@[simp] theorem cap_setData (union : Union) (target : Pointer) :
    (union.setData target).cap = union.cap := by
  simp [cap, setData]

theorem cap_setCap (union : Union) {n : Nat} (hn : n < 2 ^ 32) :
    (union.setCap n).cap = some n := by
  simp [cap, setCap]
  omega

end Union

namespace Object

/-- The pointer to the block that belongs to the object. -/
def owner (str : Object) : Option Pointer :=
  if str.useHeap then str.union.data else none

/-- The bytes that the object stores its characters in. -/
inductive Stores (heap : Heap) (str : Object) : List Byte → Prop
  | inline (hinline : str.useHeap = false) :
      Stores heap str str.union.toList
  | block {target : Pointer} {buffer : List Byte} (huse : str.useHeap = true)
      (hdata : str.union.data = some target)
      (hcap : str.union.cap = some buffer.length)
      (hblock : heap.lookup target = some buffer)
      (hpos : 0 < buffer.length) (hlt : buffer.length < 2 ^ 32) :
      Stores heap str buffer

/-- The buffer begins with the characters, has room for as many as are said,
and the rest of the heap is what belongs to others. -/
structure Contains (rest heap : Heap) (str : Object) (room : Nat)
    (chars : Text) : Prop where
  buffer : ∃ buffer, Stores heap str buffer ∧ buffer.length = room ∧
    buffer.take chars.length = chars.map .char
  others : heap.without str.owner = rest

structure Holds (rest heap : Heap) (str : Object) (room : Nat)
    (text : Text) : Prop extends Contains rest heap str room text where
  len : str.len = text.length

def Owns (rest heap : Heap) (str : Object) (text : Text) : Prop :=
  ∃ room, Holds rest heap str room text

/-- The text can be read from the object. -/
def Represents (heap : Heap) (str : Object) (text : Text) : Prop :=
  Owns (heap.without str.owner) heap str text

theorem Owns.represents {rest heap : Heap} {str : Object} {text : Text}
    (howns : Owns rest heap str text) : Represents heap str text := by
  obtain ⟨room, hholds⟩ := howns
  exact ⟨room, ⟨hholds.buffer, rfl⟩, hholds.len⟩

theorem Contains.length_le {rest heap : Heap} {str : Object} {room : Nat}
    {chars : Text} (hcontains : Contains rest heap str room chars) :
    chars.length ≤ room := by
  obtain ⟨buffer, -, hroom, hchars⟩ := hcontains.buffer
  have hlength := congrArg List.length hchars
  simp only [List.length_take, List.length_map] at hlength
  omega

section Blocks

theorem Stores.congr {heap : Heap} {str str' : Object} {buffer : List Byte}
    (hstores : Stores heap str buffer) (hunion : str'.union = str.union)
    (huse : str'.useHeap = str.useHeap) : Stores heap str' buffer := by
  cases hstores with
  | inline hinline =>
      rw [← hunion]
      exact .inline (huse.trans hinline)
  | block huse' hdata hcap hblock hpos hlt =>
      rw [← hunion] at hdata hcap
      exact .block (huse.trans huse') hdata hcap hblock hpos hlt

theorem Stores.without_iff {heap : Heap} {str : Object} {buffer : List Byte}
    {other : Option Pointer} :
    Stores (heap.without other) str buffer ↔
      Stores heap str buffer ∧ ∀ target, str.owner = some target →
        other ≠ some target := by
  constructor
  · intro hstores
    cases hstores with
    | inline hinline =>
        refine ⟨.inline hinline, ?_⟩
        simp [owner, hinline]
    | block huse hdata hcap hblock hpos hlt =>
        obtain ⟨hne, hblock⟩ := Blocks.lookup_without_eq_some.mp hblock
        refine ⟨.block huse hdata hcap hblock hpos hlt, ?_⟩
        intro target htarget
        rw [owner, if_pos huse, hdata] at htarget
        cases htarget
        exact hne
  · rintro ⟨hstores, hapart⟩
    cases hstores with
    | inline hinline => exact .inline hinline
    | block huse hdata hcap hblock hpos hlt =>
        refine .block huse hdata hcap ?_ hpos hlt
        apply Blocks.lookup_without_eq_some.mpr
        refine ⟨hapart _ ?_, hblock⟩
        rw [owner, if_pos huse, hdata]

theorem Represents.without_iff {heap : Heap} {str : Object} {text : Text}
    {other : Option Pointer} :
    Represents (heap.without other) str text ↔
      Represents heap str text ∧ ∀ target, str.owner = some target →
        other ≠ some target := by
  constructor
  · rintro ⟨room, ⟨⟨buffer, hstores, hroom, hchars⟩, -⟩, hlen⟩
    obtain ⟨hstores, hapart⟩ := Stores.without_iff.mp hstores
    exact ⟨⟨room, ⟨⟨buffer, hstores, hroom, hchars⟩, rfl⟩, hlen⟩, hapart⟩
  · rintro ⟨⟨room, ⟨⟨buffer, hstores, hroom, hchars⟩, -⟩, hlen⟩, hapart⟩
    exact ⟨room, ⟨⟨buffer, Stores.without_iff.mpr ⟨hstores, hapart⟩, hroom,
      hchars⟩, rfl⟩, hlen⟩

theorem Represents.len_eq {heap : Heap} {str : Object} {text : Text}
    (hrepresents : Represents heap str text) : str.len = text.length := by
  obtain ⟨room, hholds⟩ := hrepresents
  exact hholds.len

theorem Owns.others {rest heap : Heap} {str : Object} {text : Text}
    (howns : Owns rest heap str text) : heap.without str.owner = rest := by
  obtain ⟨room, hholds⟩ := howns
  exact hholds.others

theorem Represents.owns {rest heap : Heap} {str : Object} {text : Text}
    (hrepresents : Represents heap str text)
    (hothers : heap.without str.owner = rest) : Owns rest heap str text := by
  rw [← hothers]
  exact hrepresents

theorem Owns.reads {rest heap : Heap} {str source : Object}
    {text sourceText : Text} (howns : Owns rest heap str text)
    (hsource : Represents rest source sourceText) :
    Represents heap source sourceText := by
  rw [← howns.others] at hsource
  exact (Represents.without_iff.mp hsource).1

theorem Owns.swap {rest middle heap : Heap} {str other : Object}
    {text otherText : Text} (hstr : Owns rest middle str text)
    (hother : Owns middle heap other otherText) :
    ∃ middle', Owns middle' heap str text ∧
      Owns rest middle' other otherText := by
  obtain ⟨hread, hapart⟩ := Represents.without_iff.mp
    (hother.others ▸ hstr.represents)
  refine ⟨heap.without str.owner, hread, ?_⟩
  apply Represents.owns
  · apply Represents.without_iff.mpr
    refine ⟨hother.represents, ?_⟩
    intro target hother' hstr'
    exact hapart target hstr' hother'
  · rw [Blocks.without_comm, hother.others, hstr.others]

end Blocks

section Access

theorem Stores.load {heap : Heap} {str : Object} {buffer : List Byte}
    (hstores : Stores heap str buffer) {i : Nat} {c : UInt8}
    (hbyte : buffer[i]? = some (.char c)) :
    str.load i heap = .ok (c, heap) := by
  cases hstores with
  | inline hinline =>
      have hunion : str.union[i]? = some (.char c) := by
        simpa using hbyte
      simp [Object.load, hinline, hunion, orFault]
  | block huse hdata hcap hblock hpos hlt =>
      simp [Object.load, huse, Object.data, hdata, loadBlock, hblock, hbyte,
        orFault]

theorem Stores.length_pos {heap : Heap} {str : Object} {buffer : List Byte}
    (hstores : Stores heap str buffer) : 0 < buffer.length := by
  cases hstores with
  | inline => simp
  | block _ _ _ _ hpos => exact hpos

theorem Stores.cap {heap : Heap} {str : Object} {buffer : List Byte}
    (hstores : Stores heap str buffer) (huse : str.useHeap = true) :
    str.cap heap = .ok (buffer.length, heap) := by
  cases hstores with
  | inline hinline => simp [hinline] at huse
  | block _ _ hcap => simp [Object.cap, hcap, orFault]

theorem Contains.load {rest heap : Heap} {str : Object} {room : Nat}
    {chars : Text} (hcontains : Contains rest heap str room chars) {i : Nat}
    (hi : i < chars.length) :
    str.load i heap = .ok (chars[i], heap) := by
  obtain ⟨buffer, hstores, hroom, hchars⟩ := hcontains.buffer
  apply hstores.load
  calc buffer[i]?
      = (buffer.take chars.length)[i]? := by simp [hi]
    _ = some (.char chars[i]) := by simp [hchars, hi]

theorem Contains.capacity {rest heap : Heap} {str : Object} {room : Nat}
    {chars : Text} (hcontains : Contains rest heap str room chars) :
    str.capacity heap = .ok (room, heap) := by
  obtain ⟨buffer, hstores, rfl, -⟩ := hcontains.buffer
  cases hstores with
  | inline hinline =>
      simp [Object.capacity, hinline]
  | block huse hdata hcap hblock hpos hlt =>
      simp [Object.capacity, huse, Object.cap, hcap, orFault]

theorem Stores.store {heap : Heap} {str : Object} {buffer : List Byte}
    (hstores : Stores heap str buffer) {i : Nat} (hi : i < buffer.length)
    (c : UInt8) :
    Returns (str.store i c) heap fun str' heap' =>
      Stores heap' str' (buffer.set i (.char c)) ∧ str'.len = str.len ∧
      heap'.without str'.owner = heap.without str.owner := by
  cases hstores with
  | inline hinline =>
      have hshort : i < shortLength := by simpa using hi
      refine ⟨{ str with union := str.union.set i (.char c) }, heap, ?_, ?_,
        rfl, ?_⟩
      · simp [Object.store, hinline, hshort]
      · rw [← Vector.toList_set hshort]
        exact .inline hinline
      · simp [owner, hinline]
  | @block target _ huse hdata hcap hblock hpos hlt =>
      refine ⟨str, heap.insert target (buffer.set i (.char c)), ?_, ?_, rfl, ?_⟩
      · simp [Object.store, huse, Object.cap, hcap, Object.data, hdata,
          storeBlock, hblock, orFault, hi]
      · refine .block huse hdata ?_ (Finmap.lookup_insert _) ?_ ?_
        · rw [List.length_set, hcap]
        · rwa [List.length_set]
        · rwa [List.length_set]
      · simp [owner, huse, hdata]

theorem toInt_of_lt {x : Nat} (hlt : x < 2 ^ 31) : toInt x = x := by
  rw [toInt, if_pos hlt]

theorem require_of {condition : Prop} [Decidable condition]
    (hcondition : condition) (exp : String) (heap : Heap) :
    require condition exp heap = .ok ((), heap) := by
  simp [require, hcondition]

theorem Represents.constAt {heap : Heap} {str : Object} {text : Text}
    (hrepresents : Represents heap str text) {i : Nat} (hi : i < text.length)
    (hlt : i < 2 ^ 31) :
    str.constAt (toInt i) heap = .ok (text[i], heap) := by
  obtain ⟨room, hholds⟩ := hrepresents
  have hlen := hholds.len
  have hne : i ≠ str.len := by omega
  have hle : i ≤ str.len := by omega
  rw [toInt_of_lt hlt]
  simp [Object.constAt, require, hle, hne, hholds.load hi]

end Access

section Growth

variable {allocator : Allocator Pointer Byte} (hserves : allocator.Serves)

theorem Represents.copyFrom {str : Object} {text : Text} {rest : Heap}
    {target : Pointer} (hsource : Represents rest str text)
    (hlt : text.length < 2 ^ 31) {count i : Nat} {block : List Byte}
    (hcount : i + count ≤ text.length) (hroom : i + count ≤ block.length)
    (hnew : target ∉ rest)
    (hblock : block.take i = (text.take i).map .char) :
    Returns (str.copyFrom target 0 count i) (rest.insert target block)
      fun _ heap' => ∃ block', heap' = rest.insert target block' ∧
        block'.length = block.length ∧
        block'.take (i + count) = (text.take (i + count)).map .char := by
  induction count generalizing i block with
  | zero => exact Returns.pure ⟨block, rfl, rfl, hblock⟩
  | succ count ih =>
      have hi : i < text.length := by omega
      have hread : Represents (rest.insert target block) str text := by
        rw [← Blocks.erase_insert_of_notMem block hnew, ← Blocks.without_some]
          at hsource
        exact (Represents.without_iff.mp hsource).1
      have hwrite : storeBlock target i text[i] (rest.insert target block) =
          .ok ((), rest.insert target (block.set i (.char text[i]))) := by
        have hin : i < block.length := by omega
        simp [storeBlock, orFault, hin]
      simp only [Object.copyFrom, Nat.zero_add]
      apply Returns.step (hread.constAt hi (by omega))
      apply Returns.step hwrite
      apply (ih (by omega) (by rw [List.length_set]; omega) ?_).mono
      · rintro - heap' ⟨block', rfl, hlength, hchars⟩
        refine ⟨block', rfl, ?_, ?_⟩
        · rw [hlength, List.length_set]
        · rwa [Nat.add_right_comm i 1 count] at hchars
      · rw [List.take_succ_eq_append_getElem (by simp; omega),
          List.take_succ_eq_append_getElem hi, List.take_set_of_le (le_refl i),
          hblock, List.getElem_set_self, List.map_append, List.map_singleton]

theorem Represents.copy {str : Object} {text : Text} {rest : Heap}
    {target : Pointer} (hsource : Represents rest str text)
    (hlt : text.length < 2 ^ 31) {len : Nat} {block : List Byte}
    (hroom : block.length = len) (hfits : text.length ≤ len)
    (hnew : target ∉ rest) :
    Returns (str.copy target len 0) (rest.insert target block)
      fun _ heap' => ∃ block', heap' = rest.insert target block' ∧
        block'.length = len ∧
        block'.take text.length = text.map .char := by
  have hlen : str.len = text.length := hsource.len_eq
  unfold Object.copy
  by_cases hempty : text.length = 0
  · have htext : text = [] := List.length_eq_zero_iff.mp hempty
    rw [if_pos (by omega)]
    exact .pure ⟨block, rfl, hroom, by simp [htext]⟩
  · rw [if_neg (by omega), hlen, Nat.sub_zero, Nat.min_eq_right hfits]
    apply Returns.bind
      (hsource.copyFrom hlt (by omega) (by omega) hnew (by simp))
    rintro - heap' ⟨block', rfl, hlength, hchars⟩
    rw [Nat.zero_add, List.take_length] at hchars
    exact .pure ⟨block', rfl, hlength.trans hroom, hchars⟩

include hserves

theorem Holds.switchToHeap {rest heap : Heap} {str : Object} {room : Nat}
    {text : Text} (hholds : Holds rest heap str room text)
    (hinline : str.useHeap = false) :
    Returns (switchToHeap allocator str) heap fun str' heap' =>
      str'.useHeap = true ∧ Holds rest heap' str' 40 text := by
  have hlen := hholds.len
  have hle := hholds.length_le
  obtain ⟨buffer, hstores, hroom, hchars⟩ := hholds.buffer
  have hshortLength : shortLength = 20 := rfl
  have hshort : text.length ≤ shortLength := by
    cases hstores with
    | inline =>
        rw [Vector.length_toList] at hroom
        omega
    | block huse => simp [hinline] at huse
  have hrest : heap = rest := by
    simpa [owner, hinline] using hholds.others
  subst hrest
  obtain ⟨target, block, hmalloc, hnew, hlength⟩ :=
    hserves.malloc heap (2 * shortLength) (by decide) (by decide)
  have hsource : Represents heap str text :=
    Owns.represents ⟨room, hholds⟩
  have hrun : malloc allocator (2 * shortLength) heap =
      .ok (some target, heap.insert target block) := by
    rw [malloc, hmalloc]
  apply Returns.step hrun
  apply Returns.bind
    (hsource.copy (by omega) hlength (by omega) hnew)
  rintro - heap' ⟨block', rfl, hlength', hchars'⟩
  refine .pure ⟨rfl, ⟨⟨block', ?_, hlength', hchars'⟩, ?_⟩, hlen⟩
  · refine .block rfl ?_ ?_ (Finmap.lookup_insert _) (by omega) (by omega)
    · simp [Object.setCap, Object.setData]
    · rw [hlength']
      exact Union.cap_setCap _ (by decide)
  · simp [owner, Object.setCap, Object.setData,
      Blocks.erase_insert_of_notMem _ hnew]

theorem Stores.realloc {heap : Heap} {str : Object} {buffer : List Byte}
    (hstores : Stores heap str buffer) (huse : str.useHeap = true)
    (hlt : buffer.length < 2 ^ 31) :
    ∃ target target' heap' buffer',
      (str.setCap (2 * buffer.length)).data heap = .ok (target, heap) ∧
      (str.setCap (2 * buffer.length)).cap heap =
        .ok (2 * buffer.length, heap) ∧
      realloc allocator target (2 * buffer.length) heap =
        .ok (some target', heap') ∧
      Stores heap' ((str.setCap (2 * buffer.length)).setData target')
        buffer' ∧
      buffer'.length = 2 * buffer.length ∧ buffer <+: buffer' ∧
      heap'.without ((str.setCap (2 * buffer.length)).setData target').owner =
        heap.without str.owner := by
  cases hstores with
  | inline hinline => simp [hinline] at huse
  | @block target _ _ hdata hcap hblock hpos _ =>
      obtain ⟨target', buffer', hrealloc, hnew, hlength, hkept⟩ :=
        hserves.realloc heap target buffer (2 * buffer.length) hblock
          (by omega) (by omega)
      have hnewCap : (str.union.setCap (2 * buffer.length)).cap =
          some (2 * buffer.length) :=
        Union.cap_setCap str.union (by omega)
      refine ⟨target, target', (heap.erase target).insert target' buffer',
        buffer', ?_, ?_, ?_, ?_, hlength, ?_, ?_⟩
      · simp [Object.data, Object.setCap, hdata, orFault]
      · simp [Object.cap, Object.setCap, hnewCap, orFault]
      · rw [Object.realloc, hrealloc]
      · refine .block huse ?_ ?_ (Finmap.lookup_insert _) (by omega) (by omega)
        · exact Union.data_setData _ _
        · rw [hlength]
          simpa [Object.setData, Object.setCap] using hnewCap
      · rw [Nat.min_eq_left (by omega), List.take_length] at hkept
        rw [← hkept]
        exact List.take_prefix _ _
      · simp only [owner, Object.setData, Object.setCap, huse, if_true, hdata,
          Union.data_setData, Blocks.without_some]
        exact Blocks.erase_insert_of_notMem buffer' hnew

/-- The loop keeps the buffer as the beginning of a larger one. -/
theorem Stores.grow {n fuel : Nat} (hn : n ≤ 2 ^ 31) {heap : Heap}
    {str : Object} {buffer : List Byte} (hstores : Stores heap str buffer)
    (huse : str.useHeap = true) (hfuel : n ≤ buffer.length * 2 ^ fuel) :
    Returns (grow allocator n (fuel + 1) str) heap fun str' heap' =>
      ∃ buffer', Stores heap' str' buffer' ∧ n ≤ buffer'.length ∧
        buffer <+: buffer' ∧ str'.len = str.len ∧
        heap'.without str'.owner = heap.without str.owner := by
  induction fuel generalizing heap str buffer with
  | zero =>
      have hfits : ¬buffer.length < n := by omega
      rw [Object.grow]
      apply Returns.step (hstores.cap huse)
      rw [if_neg hfits]
      exact .pure ⟨buffer, hstores, by omega, List.prefix_rfl, rfl, rfl⟩
  | succ fuel ih =>
      rw [Object.grow]
      apply Returns.step (hstores.cap huse)
      by_cases hfits : buffer.length < n
      · obtain ⟨target, target', heap', buffer', hdata, hcap, hrealloc,
          hstores', hlength, hkept, hothers⟩ :=
          hstores.realloc hserves huse (by omega)
        have hdouble : mul32 buffer.length 2 = 2 * buffer.length := by
          unfold mul32
          omega
        rw [if_pos hfits]
        apply Returns.step (hstores.cap huse)
        rw [hdouble]
        apply Returns.step hdata
        apply Returns.step hcap
        apply Returns.step hrealloc
        apply (ih hstores' huse ?_).mono
        · rintro str' heap'' ⟨buffer'', hstores'', hn'', hkept', hlen,
            hothers'⟩
          exact ⟨buffer'', hstores'', hn'', hkept.trans hkept', hlen,
            hothers'.trans hothers⟩
        · calc n ≤ buffer.length * 2 ^ (fuel + 1) := hfuel
            _ = buffer'.length * 2 ^ fuel := by rw [hlength]; ring
      · rw [if_neg hfits]
        exact .pure ⟨buffer, hstores, by omega, List.prefix_rfl, rfl, rfl⟩

theorem Holds.grow {rest heap : Heap} {str : Object} {room n : Nat}
    {text : Text} (hholds : Holds rest heap str room text)
    (huse : str.useHeap = true) (hn : n ≤ 2 ^ 31) :
    Returns (grow allocator n 33 str) heap fun str' heap' =>
      ∃ room', n ≤ room' ∧ Holds rest heap' str' room' text := by
  obtain ⟨buffer, hstores, -, hchars⟩ := hholds.buffer
  have hpos : 0 < buffer.length := hstores.length_pos
  apply (hstores.grow hserves hn huse (by omega)).mono
  rintro str' heap' ⟨buffer', hstores', hn', hkept, hlen, hothers⟩
  refine ⟨buffer'.length, hn', ⟨⟨buffer', hstores', rfl, ?_⟩, ?_⟩, ?_⟩
  · have hkept' : text.map .char <+: buffer' := by
      rw [← hchars]
      exact (List.take_prefix _ _).trans hkept
    simpa using (List.prefix_iff_eq_take.mp hkept').symm
  · rw [hothers, hholds.others]
  · rw [hlen, hholds.len]

theorem Holds.reserve {rest heap : Heap} {str : Object} {room n : Nat}
    {text : Text} (hholds : Holds rest heap str room text) (hn : n ≤ 2 ^ 31) :
    Returns (reserve allocator str n) heap fun str' heap' =>
      ∃ room', n ≤ room' ∧ Holds rest heap' str' room' text := by
  unfold Object.reserve
  apply Returns.step hholds.capacity
  by_cases hfits : n ≤ room
  · rw [if_pos hfits]
    exact .pure ⟨room, hfits, hholds⟩
  · rw [if_neg hfits]
    cases huse : str.useHeap with
    | true => exact hholds.grow hserves huse hn
    | false =>
        apply Returns.bind (hholds.switchToHeap hserves huse)
        rintro str' heap' ⟨huse', hholds'⟩
        exact hholds'.grow hserves huse' hn

end Growth

end Object

end X86Os32.Strings
