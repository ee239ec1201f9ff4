import X86Os32.User.StringMethods

set_option linter.style.nameCheck false

namespace X86Os32.Strings

open Library Library.Program
open OStream (Text)

/-! `shrink_to_fit`, whose way back to the inline bytes goes through
`strcpy`. -/

namespace Object

/-- The loop of `strlen`, from the character `p` of a block on. -/
def strlenFrom (s : Pointer) : Nat → Nat → Code Nat
  | 0, _ => throw (.stopped .endlessLoop)
  | fuel + 1, p => do
      match ← loadBlock s p with
      | .char c => if c ≠ 0 then strlenFrom s fuel (p + 1) else return p
      | _ => throw .indeterminate

def strlen (s : Pointer) : Code Nat := strlenFrom s (2 ^ 32) 0

/-- The loop of `memcpy` from a block to `short_data`, with `count` bytes to
go. -/
def memcpyFrom (src : Pointer) : Nat → Nat → Object → Code Object
  | 0, _, str => pure str
  | count + 1, i, str => do
      let byte ← loadBlock src i
      if h : i < shortLength then
        memcpyFrom src count (i + 1) { str with union := str.union.set i byte }
      else throw .outsideBuffer

/-- `strncpy` to `short_data` -/
def strncpy (str : Object) (src : Pointer) (size : Nat) : Code Object :=
  memcpyFrom src size 0 str

/-- `strcpy` to `short_data` -/
def strcpy (str : Object) (src : Pointer) : Code Object := do
  strncpy str src (← strlen src)

def shrinkToFit (allocator : Allocator Pointer Byte) (str : Object) :
    Code Object := do
  if str.useHeap = false then
    return str
  if str.len ≤ shortLength then
    let tmp ← str.data
    let str ← strcpy str tmp
    let str := { str with useHeap := false }
    free allocator tmp
    return str
  else
    let str := str.setCap str.len
    match ← realloc allocator (← str.data) (← str.cap) with
    | none => throw (.stopped (.assertionFailed "data"))
    | some data => return str.setData data

/-- Where the bytes, read as a C string, have their terminator. -/
structure EndsAt (buffer : List Byte) (z : Nat) : Prop where
  terminator : buffer[z]? = some (.char 0)
  before : ∀ i < z, ∃ c, c ≠ 0 ∧ buffer[i]? = some (.char c)

/-- The string stays in the object, or in a block whose content `realloc` keeps,
or the bytes that `strcpy` leaves out are in the object already. -/
inductive Shrinkable (keeps : Heap → Pointer → Nat → Bool) (heap : Heap)
    (str : Object) : Prop
  | inline (hinline : str.useHeap = false)
  | long (target : Pointer) (hlong : shortLength < str.len)
      (hdata : str.union.data = some target)
      (hkeeps : keeps heap target str.len = true)
  | terminated (buffer : List Byte) (z : Nat) (hshort : str.len ≤ shortLength)
      (hstores : Stores heap str buffer) (hends : EndsAt buffer z)
      (hfits : z ≤ shortLength)
      (hrest : ∀ i, z ≤ i → i < str.len → str.union[i]? = buffer[i]?)

/-- What a method that only moves the characters leaves alone. -/
structure Kept (str str' : Object) : Prop where
  len : str'.len = str.len
  saveIndex : str'.saveIndex = str.saveIndex
  behindCap : str'.useHeap = true → ∀ i, 8 ≤ i →
    str'.union[i]? = str.union[i]?

theorem Kept.refl (str : Object) : Kept str str :=
  ⟨rfl, rfl, fun _ _ _ => rfl⟩

theorem orFault_ensures (fault : Fault) (value : Option α) (heap : Heap) :
    Ensures (orFault fault value) heap fun a heap' =>
      heap' = heap ∧ value = some a := by
  cases value with
  | none => exact .throw
  | some a => exact .pure ⟨rfl, rfl⟩

section Copying

variable {heap : Heap} {target : Pointer} {buffer : List Byte}
  (hblock : heap.lookup target = some buffer)

include hblock

theorem loadBlock_eq {i : Nat} {byte : Byte} (hbyte : buffer[i]? = some byte) :
    loadBlock target i heap = .ok (byte, heap) := by
  simp [loadBlock, hblock, orFault, hbyte]

theorem loadBlock_ensures (i : Nat) :
    Ensures (loadBlock target i) heap fun byte heap' =>
      heap' = heap ∧ buffer[i]? = some byte := by
  have hget : Ensures (get : Code Heap) heap fun heap₀ heap' =>
      heap₀ = heap ∧ heap' = heap := ⟨rfl, rfl⟩
  apply hget.bind
  rintro _ _ ⟨rfl, rfl⟩
  apply (orFault_ensures _ _ _).bind
  rintro block _ ⟨rfl, hlookup⟩
  rw [hblock] at hlookup
  cases hlookup
  exact orFault_ensures _ _ _

theorem strlenFrom_ensures (fuel : Nat) {p : Nat}
    (hbefore : ∀ i < p, ∃ c, c ≠ 0 ∧ buffer[i]? = some (.char c)) :
    Ensures (strlenFrom target fuel p) heap fun z heap' =>
      heap' = heap ∧ EndsAt buffer z := by
  induction fuel generalizing p with
  | zero => exact .throw
  | succ fuel ih =>
      apply (loadBlock_ensures hblock p).bind
      rintro byte heap' ⟨rfl, hbyte⟩
      cases byte with
      | char c =>
          dsimp only
          split
          · next hmore =>
            apply ih
            intro i hi
            rcases Nat.lt_succ_iff_lt_or_eq.mp hi with hlt | rfl
            · exact hbefore i hlt
            · exact ⟨c, hmore, hbyte⟩
          · next hend =>
            obtain rfl : c = 0 := not_not.mp hend
            exact .pure ⟨rfl, hbyte, hbefore⟩
      | indeterminate => exact .throw
      | pointer => exact .throw

theorem strlenFrom_eq {z : Nat} (hends : EndsAt buffer z) {fuel p : Nat}
    (hp : p ≤ z) (hfuel : z < p + fuel) :
    strlenFrom target fuel p heap = .ok (z, heap) := by
  induction fuel generalizing p with
  | zero => omega
  | succ fuel ih =>
      rw [strlenFrom, bind_apply]
      rcases Nat.lt_or_eq_of_le hp with hlt | rfl
      · obtain ⟨c, hmore, hbyte⟩ := hends.before p hlt
        simp only [loadBlock_eq hblock hbyte, hmore, ne_eq, not_false_eq_true,
          if_true]
        exact ih hlt (by omega)
      · simp only [loadBlock_eq hblock hends.terminator, ne_eq, not_true_eq_false,
          if_false]
        rfl

theorem memcpyFrom_ensures {count i : Nat} (hi : i ≤ shortLength)
    (str : Object) :
    Ensures (memcpyFrom target count i str) heap fun str' heap' =>
      heap' = heap ∧ i + count ≤ shortLength ∧
      str' = { str with union := str'.union } ∧
      ∀ j, str'.union[j]? =
        if i ≤ j ∧ j < i + count then buffer[j]? else str.union[j]? := by
  induction count generalizing i str with
  | zero =>
      refine .pure ⟨rfl, hi, rfl, ?_⟩
      intro j
      rw [if_neg (by omega)]
  | succ count ih =>
      apply (loadBlock_ensures hblock i).bind
      rintro byte heap' ⟨rfl, hbyte⟩
      split
      · next hshort =>
        apply (ih hshort { str with union := str.union.set i byte }).mono
        rintro str' heap' ⟨rfl, hcount, hstr, hunion⟩
        refine ⟨rfl, by omega, hstr, ?_⟩
        intro j
        rw [hunion j, Vector.getElem?_set]
        by_cases hsame : i = j
        · subst hsame
          rw [if_neg (by omega), if_pos rfl, if_pos (by omega), hbyte]
        · rw [if_neg hsame]
          split
          · rw [if_pos (by omega)]
          · rw [if_neg (by omega)]
      · exact .throw

theorem memcpyFrom_returns {count i : Nat} (hfits : i + count ≤ shortLength)
    (hin : i + count ≤ buffer.length) (str : Object) :
    Returns (memcpyFrom target count i str) heap fun _ _ => True := by
  induction count generalizing i str with
  | zero => exact .pure trivial
  | succ count ih =>
      have hbyte : buffer[i]? = some buffer[i] :=
        List.getElem?_eq_getElem (by omega)
      apply Returns.step (loadBlock_eq hblock hbyte)
      rw [dif_pos (by omega)]
      exact ih (by omega) (by omega) _

end Copying

theorem take_eq_map_iff {buffer : List Byte} {text : Text} :
    buffer.take text.length = text.map .char ↔
      ∀ i (hi : i < text.length), buffer[i]? = some (.char text[i]) := by
  constructor
  · intro htake i hi
    calc buffer[i]?
        = (buffer.take text.length)[i]? := by simp [hi]
      _ = some (.char text[i]) := by simp [htake, hi]
  · intro hbytes
    apply List.ext_getElem?
    intro i
    by_cases hi : i < text.length
    · rw [List.getElem?_take_of_lt hi, hbytes i hi]
      simp [hi]
    · rw [List.getElem?_eq_none (by simp; omega),
        List.getElem?_eq_none (by simp; omega)]

theorem EndsAt.lt_length {buffer : List Byte} {z : Nat}
    (hends : EndsAt buffer z) : z < buffer.length :=
  (List.getElem?_eq_some_iff.mp hends.terminator).1

theorem getElem?_setCap (union : Union) (n : Nat) {i : Nat} (hi : 8 ≤ i) :
    (union.setCap n)[i]? = union[i]? := by
  unfold Union.setCap
  simp only [Vector.getElem?_set]
  repeat rw [if_neg (by omega)]

theorem getElem?_setData (union : Union) (target : Pointer) {i : Nat}
    (hi : 8 ≤ i) : (union.setData target)[i]? = union[i]? := by
  unfold Union.setData
  simp only [Vector.getElem?_set]
  repeat rw [if_neg (by omega)]

/-- What stands in the object after the copy, byte for byte. -/
theorem strcpy_ensures {heap : Heap} {target : Pointer} {buffer : List Byte}
    (hblock : heap.lookup target = some buffer) (str : Object) :
    Ensures (strcpy str target) heap fun str' heap' =>
      heap' = heap ∧ str' = { str with union := str'.union } ∧
      ∃ z, EndsAt buffer z ∧ z ≤ shortLength ∧
        ∀ j, str'.union[j]? = if j < z then buffer[j]? else str.union[j]? := by
  have hlength := strlenFrom_ensures hblock (2 ^ 32) (p := 0)
    (fun i hi => absurd hi (Nat.not_lt_zero i))
  apply hlength.bind
  rintro z _ ⟨rfl, hends⟩
  apply (memcpyFrom_ensures hblock (Nat.zero_le _) str).mono
  rintro str' heap' ⟨rfl, hfits, hstr, hunion⟩
  rw [Nat.zero_add] at hfits
  refine ⟨rfl, hstr, z, hends, hfits, ?_⟩
  intro j
  simpa using hunion j

theorem strcpy_returns {heap : Heap} {target : Pointer} {buffer : List Byte}
    (hblock : heap.lookup target = some buffer) (hlt : buffer.length < 2 ^ 32)
    {z : Nat} (hends : EndsAt buffer z) (hfits : z ≤ shortLength)
    (str : Object) :
    Returns (strcpy str target) heap fun str' heap' =>
      heap' = heap ∧ str' = { str with union := str'.union } ∧
      ∀ j, str'.union[j]? = if j < z then buffer[j]? else str.union[j]? := by
  have hin := hends.lt_length
  have hlength := strlenFrom_eq hblock hends (Nat.zero_le z)
    (show z < 0 + 2 ^ 32 by omega)
  have hcopy : Returns (memcpyFrom target z 0 str) heap fun _ _ => True :=
    memcpyFrom_returns hblock (by omega) (by omega) str
  apply Returns.step hlength
  apply (hcopy.and
    (memcpyFrom_ensures hblock (Nat.zero_le _) str)).mono
  rintro str' heap' ⟨-, rfl, -, hstr, hunion⟩
  refine ⟨rfl, hstr, ?_⟩
  intro j
  simpa using hunion j

theorem Represents.stores {heap : Heap} {str : Object} {text : Text}
    (hread : Represents heap str text) : ∃ buffer, Stores heap str buffer := by
  obtain ⟨room, hholds⟩ := hread
  obtain ⟨buffer, hstores, -⟩ := hholds.buffer
  exact ⟨buffer, hstores⟩

theorem Stores.unique {heap : Heap} {str : Object} {buffer buffer' : List Byte}
    (hstores : Stores heap str buffer) (hstores' : Stores heap str buffer') :
    buffer = buffer' := by
  cases hstores with
  | inline hinline =>
      cases hstores' with
      | inline => rfl
      | block huse => simp [hinline] at huse
  | block huse hdata _ hblock =>
      cases hstores' with
      | inline hinline => simp [huse] at hinline
      | block _ hdata' _ hblock' =>
          rw [hdata] at hdata'
          cases hdata'
          rw [hblock] at hblock'
          exact Option.some.inj hblock'

theorem Represents.bytes {heap : Heap} {str : Object} {text : Text}
    (hread : Represents heap str text) {buffer : List Byte}
    (hstores : Stores heap str buffer) :
    buffer.take text.length = text.map .char := by
  obtain ⟨room, hholds⟩ := hread
  obtain ⟨buffer', hstores', -, hchars⟩ := hholds.buffer
  rwa [hstores.unique hstores']

section Methods

variable {allocator : Allocator Pointer Byte}
  {keeps : Heap → Pointer → Nat → Bool}
  (hserves : allocator.ServesWhere keeps)

include hserves

theorem Owns.shrink_long {rest heap : Heap} {str : Object} {text : Text}
    (howns : Owns rest heap str text) (hlt : text.length < 2 ^ 31)
    (huse : str.useHeap = true) (hlong : shortLength < str.len)
    (hkeeps : ∀ target, str.union.data = some target →
      keeps heap target str.len = true) :
    Returns (do
      let str := str.setCap str.len
      match ← realloc allocator (← str.data) (← str.cap) with
      | none => throw (.stopped (.assertionFailed "data"))
      | some data => return str.setData data) heap fun str' heap' =>
        Owns rest heap' str' text ∧ Kept str str' := by
  have hothers := howns.others
  obtain ⟨room, hholds⟩ := howns
  have hlen := hholds.len
  have hle := hholds.length_le
  obtain ⟨buffer, hstores, hroom, hchars⟩ := hholds.buffer
  cases hstores with
  | inline hinline => simp [hinline] at huse
  | @block target _ _ hdata hcap hblock hpos hbound =>
      obtain ⟨target', _, hrealloc, buffer', rfl, hnew, hlength, hkept⟩ :=
        hserves.realloc heap target str.len
          (Finmap.mem_of_lookup_eq_some hblock) (by omega) (by omega)
      replace hkept := hkept (hkeeps target hdata) buffer hblock
      have hnewCap : (str.union.setCap str.len).cap = some str.len :=
        Union.cap_setCap str.union (by omega)
      have hdata' : (str.setCap str.len).data heap = .ok (target, heap) := by
        simp [Object.data, Object.setCap, hdata, orFault]
      have hcap' : (str.setCap str.len).cap heap = .ok (str.len, heap) := by
        simp [Object.cap, Object.setCap, hnewCap, orFault]
      have hrun : realloc allocator target str.len heap =
          .ok (some target', (heap.erase target).insert target' buffer') := by
        rw [Object.realloc, hrealloc]
      apply Returns.step hdata'
      apply Returns.step hcap'
      apply Returns.step hrun
      rw [owner, if_pos huse, hdata, Blocks.without_some] at hothers
      refine .pure ⟨⟨str.len, ⟨⟨buffer', ?_, hlength, ?_⟩, ?_⟩, hlen⟩, rfl, rfl,
        ?_⟩
      · refine .block huse (Union.data_setData _ _) ?_ (Finmap.lookup_insert _)
          (by omega) (by omega)
        rw [hlength, ← hnewCap]
        exact Union.cap_setData _ _
      · rw [Nat.min_eq_right (by omega)] at hkept
        rw [← hlen, ← hlength] at hchars ⊢
        rw [List.take_length, ← hchars, hlength, ← hkept, ← hlength,
          List.take_length]
      · rw [← hothers]
        simp [owner, Object.setData, Object.setCap, huse, Blocks.without_some,
          Blocks.erase_insert_of_notMem buffer' hnew]
      · intro _ i hi
        simp only [Object.setData, Object.setCap]
        rw [getElem?_setData _ _ hi, getElem?_setCap _ _ hi]

theorem Owns.shrink_short {rest heap : Heap} {str : Object} {text : Text}
    (howns : Owns rest heap str text) (huse : str.useHeap = true) {buffer : List Byte} {z : Nat}
    (hstores : Stores heap str buffer) (hends : EndsAt buffer z)
    (hfits : z ≤ shortLength)
    (hrest : ∀ i, z ≤ i → i < str.len → str.union[i]? = buffer[i]?) :
    Returns (do
      let tmp ← str.data
      let str ← strcpy str tmp
      let str := { str with useHeap := false }
      free allocator tmp
      return str) heap fun str' heap' =>
        Owns rest heap' str' text ∧ Kept str str' := by
  have hread := howns.represents
  have hlen := hread.len_eq
  have hothers := howns.others
  have hbytes := take_eq_map_iff.mp (hread.bytes hstores)
  cases hstores with
  | inline hinline => simp [hinline] at huse
  | @block target _ _ hdata hcap hblock hpos hbound =>
      have hdata' : str.data heap = .ok (target, heap) := by
        simp [Object.data, hdata, orFault]
      have hfree := hserves.free heap target
        (Finmap.mem_of_lookup_eq_some hblock)
      rw [owner, if_pos huse, hdata, Blocks.without_some] at hothers
      apply Returns.step hdata'
      apply Returns.bind (strcpy_returns hblock hbound hends hfits str)
      rintro str' heap' ⟨rfl, hstr, hunion⟩
      have hrun : free allocator target heap' = .ok ((), rest) := by
        rw [free, hfree, hothers]
      rw [hstr]
      apply Returns.step hrun
      refine .pure ⟨⟨shortLength, ⟨⟨_, .inline rfl, Vector.length_toList, ?_⟩,
        rfl⟩, hlen⟩, rfl, rfl, ?_⟩
      · apply take_eq_map_iff.mpr
        intro i hi
        rw [← hbytes i hi, Vector.getElem?_toList, hunion i]
        split
        · rfl
        · exact hrest i (by omega) (by omega)
      · intro hnever
        cases hnever

theorem Owns.shrinkToFit {rest heap : Heap} {str : Object} {text : Text}
    (howns : Owns rest heap str text) (hlt : text.length < 2 ^ 31)
    (hshrink : Shrinkable keeps heap str) :
    Returns (shrinkToFit allocator str) heap fun str' heap' =>
      Owns rest heap' str' text ∧ Kept str str' := by
  unfold Object.shrinkToFit
  by_cases hinline : str.useHeap = false
  · rw [if_pos hinline]
    exact .pure ⟨howns, Kept.refl str⟩
  have huse : str.useHeap = true := Bool.not_eq_false _ ▸ hinline
  rw [if_neg hinline]
  by_cases hshort : str.len ≤ shortLength
  · rw [if_pos hshort]
    cases hshrink with
    | inline hinline' => exact absurd hinline' hinline
    | long _ hlong => exact absurd hshort (Nat.not_le_of_lt hlong)
    | terminated buffer z _ hstores hends hfits hrest =>
        exact howns.shrink_short hserves huse hstores hends hfits hrest
  · rw [if_neg hshort]
    apply howns.shrink_long hserves hlt huse (Nat.lt_of_not_le hshort)
    intro target hdata
    cases hshrink with
    | inline hinline' => exact absurd hinline' hinline
    | long target' _ hdata' hkeeps =>
        rw [hdata] at hdata'
        cases hdata'
        exact hkeeps
    | terminated _ _ hshort' => exact absurd hshort' hshort

end Methods

/-- When the characters of a short string are still there, nothing was lost on
the way. -/
theorem Represents.shrinkable {heap : Heap} {str : Object} {text : Text}
    (hread : Represents heap str text) (hshort : str.len ≤ shortLength)
    (allocator : Allocator Pointer Byte)
    (keeps : Heap → Pointer → Nat → Bool) :
    Ensures (shrinkToFit allocator str) heap fun str' heap' =>
      Represents heap' str' text → Shrinkable keeps heap str := by
  unfold Object.shrinkToFit
  by_cases hinline : str.useHeap = false
  · rw [if_pos hinline]
    exact .pure fun _ => .inline hinline
  have huse : str.useHeap = true := Bool.not_eq_false _ ▸ hinline
  rw [if_neg hinline, if_pos hshort]
  have hlen := hread.len_eq
  obtain ⟨buffer, hstores⟩ := hread.stores
  have hbytes := take_eq_map_iff.mp (hread.bytes hstores)
  cases hstores with
  | inline hinline' => exact absurd hinline' hinline
  | @block target _ _ hdata hcap hblock hpos hbound =>
      apply (orFault_ensures _ _ heap).bind
      rintro tmp _ ⟨rfl, htmp⟩
      rw [hdata] at htmp
      cases htmp
      apply (strcpy_ensures hblock str).bind
      rintro str' _ ⟨rfl, hstr, z, hends, hfits, hunion⟩
      apply Ensures.after
      intro _ heap'
      refine .pure fun hread' => ?_
      refine .terminated buffer z hshort
        (.block huse hdata hcap hblock hpos hbound) hends hfits ?_
      intro i hi hlt
      rw [hlen] at hlt
      have hbytes' := take_eq_map_iff.mp (hread'.bytes (.inline rfl)) i hlt
      rw [Vector.getElem?_toList] at hbytes'
      dsimp only at hbytes'
      rw [hbytes i hlt, ← hbytes', hunion i, if_neg (by omega)]

end Object

end X86Os32.Strings
