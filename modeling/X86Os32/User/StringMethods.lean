import X86Os32.User.StringContents

set_option linter.style.nameCheck false

namespace X86Os32.Strings

open Library Library.Program
open OStream (Text)

/-! The methods of `String` are list operations on the characters. -/

namespace Object

theorem Represents.room {heap : Heap} {str : Object} {text : Text}
    (hrepresents : Represents heap str text) :
    ∃ room, str.capacity heap = .ok (room, heap) ∧ str.len ≤ room := by
  obtain ⟨room, hholds⟩ := hrepresents
  exact ⟨room, hholds.capacity, hholds.len ▸ hholds.length_le⟩

theorem Holds.len_succ {rest heap : Heap} {str : Object} {room : Nat}
    {text : Text} (hholds : Holds rest heap str room text)
    (hlt : text.length + 1 < 2 ^ 32) :
    add32 str.len 1 = text.length + 1 := by
  rw [hholds.len]
  exact add32_of_lt hlt

theorem Contains.store {rest heap : Heap} {str : Object} {room : Nat}
    {chars : Text} (hcontains : Contains rest heap str room chars)
    (hroom : chars.length < room) (c : UInt8) :
    Returns (str.store chars.length c) heap fun str' heap' =>
      Contains rest heap' str' room (chars ++ [c]) ∧ str'.len = str.len := by
  obtain ⟨buffer, hstores, rfl, hchars⟩ := hcontains.buffer
  apply (hstores.store hroom c).mono
  rintro str' heap' ⟨hstores', hlen, hothers⟩
  refine ⟨⟨⟨_, hstores', List.length_set, ?_⟩, ?_⟩, hlen⟩
  · rw [List.length_append, List.length_singleton,
      List.take_succ_eq_append_getElem (by rwa [List.length_set]),
      List.take_set_of_le (le_refl _), hchars, List.getElem_set_self,
      List.map_append, List.map_singleton]
  · rw [hothers, hcontains.others]

theorem Contains.withLen {rest heap : Heap} {str : Object} {room : Nat}
    {chars : Text} (hcontains : Contains rest heap str room chars) (n : Nat) :
    Contains rest heap { str with len := n } room chars := by
  obtain ⟨buffer, hstores, hroom, hchars⟩ := hcontains.buffer
  exact ⟨⟨buffer, hstores.congr rfl rfl, hroom, hchars⟩, hcontains.others⟩

theorem Contains.take {rest heap : Heap} {str : Object} {room : Nat}
    {chars : Text} (hcontains : Contains rest heap str room chars) (n : Nat) :
    Contains rest heap str room (chars.take n) := by
  obtain ⟨buffer, hstores, hroom, hchars⟩ := hcontains.buffer
  refine ⟨⟨buffer, hstores, hroom, ?_⟩, hcontains.others⟩
  rw [List.map_take, ← hchars, List.take_take, List.length_take]

theorem Owns.take {rest heap : Heap} {str : Object} {text : Text}
    (howns : Owns rest heap str text) {n : Nat} (hn : n ≤ text.length) :
    Owns rest heap { str with len := n } (text.take n) := by
  obtain ⟨room, hholds⟩ := howns
  refine ⟨room, (hholds.toContains.take n).withLen n, ?_⟩
  rw [List.length_take, Nat.min_eq_left hn]

theorem Owns.withSaveIndex {rest heap : Heap} {str : Object} {text : Text}
    (howns : Owns rest heap str text) (n : Nat) :
    Owns rest heap { str with saveIndex := n } text := by
  obtain ⟨room, ⟨⟨buffer, hstores, hroom, hchars⟩, hothers⟩, hlen⟩ := howns
  exact ⟨room, ⟨⟨buffer, hstores.congr rfl rfl, hroom, hchars⟩, hothers⟩, hlen⟩

theorem Owns.clear {rest heap : Heap} {str : Object} {text : Text}
    (howns : Owns rest heap str text) : Owns rest heap str.clear [] := by
  have hshorter := (howns.take (Nat.zero_le _)).withSaveIndex 0
  rwa [List.take_zero] at hshorter

theorem Owns.empty (rest : Heap) : Owns rest rest empty [] :=
  ⟨shortLength, ⟨⟨_, .inline rfl, Vector.length_toList, rfl⟩, rfl⟩, rfl⟩

def inlined (s : Text) : Object where
  union := ⟨⟨(s.map Byte.char ++ List.replicate shortLength
    Byte.indeterminate).take shortLength⟩, by simp⟩
  useHeap := false
  len := s.length
  saveIndex := 0

theorem inlined_owns (rest : Heap) {s : Text} (hshort : s.length ≤ shortLength) :
    Owns rest rest (inlined s) s := by
  refine ⟨shortLength, ⟨⟨_, .inline rfl, Vector.length_toList, ?_⟩, rfl⟩, rfl⟩
  change ((s.map Byte.char ++ List.replicate shortLength
    Byte.indeterminate).take shortLength).take s.length = s.map Byte.char
  rw [List.take_take, Nat.min_eq_left hshort, List.take_left']
  exact List.length_map _

theorem Contains.owns {rest heap : Heap} {str : Object} {room : Nat}
    {text : Text} (hcontains : Contains rest heap str room (text ++ [0]))
    (hlen : str.len = text.length) : Owns rest heap str text := by
  have htake := hcontains.take text.length
  rw [List.take_left] at htake
  exact ⟨room, htake, hlen⟩

theorem Contains.readAll {rest heap : Heap} {str : Object} {room : Nat}
    {chars : Text} (hcontains : Contains rest heap str room chars) :
    (List.range chars.length).mapM str.load heap = .ok (chars, heap) := by
  rw [mapM_of_forall (g := fun i => chars[i]?.getD 0)]
  · congr 2
    apply List.ext_getElem
    · simp
    · intro i hi hi'
      simp [hi']
  · intro i hi
    have hi' := List.mem_range.mp hi
    simp [hcontains.load hi', hi']

/-- `_append` writes behind the characters, for the length is raised before
`at` compares with it. -/
theorem Holds._append (allocator : Allocator Pointer Byte)
    {rest heap : Heap} {str : Object} {room : Nat} {text : Text}
    (hholds : Holds rest heap str room text) (hroom : text.length < room)
    (hlt : text.length + 1 < 2 ^ 31) (c : UInt8) :
    Returns (_append allocator str c) heap fun str' heap' =>
      Holds rest heap' str' room (text ++ [c]) := by
  have hplace : refAt allocator { str with len := add32 str.len 1 }
      (toInt str.len) heap =
        .ok (({ str with len := text.length + 1 }, text.length), heap) := by
    have hle : text.length ≤ text.length + 1 := Nat.le_succ _
    rw [hholds.len_succ (by omega), hholds.len, toInt_of_lt (by omega)]
    simp [refAt, require]
  apply Returns.step hplace
  apply ((hholds.toContains.withLen _).store hroom c).mono
  rintro str' heap' ⟨hcontains, hlen⟩
  exact ⟨hcontains, by rw [hlen, List.length_append, List.length_singleton]⟩

theorem Holds.appendFrom (allocator : Allocator Pointer Byte)
    {rest heap : Heap} {str source : Object} {room : Nat}
    {text sourceText : Text} {count i : Nat}
    (hholds : Holds rest heap str room text)
    (hsource : Represents rest source sourceText)
    (hcount : i + count = sourceText.length)
    (hroom : text.length + count ≤ room)
    (hlt : text.length + count < 2 ^ 31) (hsourceLt : i + count < 2 ^ 31) :
    Returns (appendFrom allocator source count i str) heap fun str' heap' =>
      Holds rest heap' str' room (text ++ sourceText.drop i) := by
  induction count generalizing heap str text i with
  | zero =>
      have hnone : sourceText.drop i = [] := by
        rw [List.drop_eq_nil_iff]
        omega
      rw [hnone, List.append_nil]
      exact .pure hholds
  | succ count ih =>
      have hi : i < sourceText.length := by omega
      have hread : Represents heap source sourceText :=
        Owns.reads ⟨room, hholds⟩ hsource
      apply Returns.step (hread.constAt hi (by omega))
      apply Returns.bind
        (hholds._append allocator (by omega) (by omega) sourceText[i])
      intro str' heap' hholds'
      apply (ih hholds' (by omega) (by simp; omega) (by simp; omega)
        (by omega)).mono
      intro str'' heap'' hholds''
      rwa [List.append_assoc, List.singleton_append,
        ← List.drop_eq_getElem_cons hi] at hholds''

/-- The test for an overflow makes the wrapped sum harmless. -/
theorem substr_limit {length pos len : Nat} (hpos : pos < length)
    (hlength : length < 2 ^ 31) (hlen : len < 2 ^ 32) :
    (if add32 pos len < pos then length else min (add32 pos len) length) -
      pos = min len (length - pos) := by
  unfold add32
  split <;> omega

section Methods

variable {allocator : Allocator Pointer Byte} (hserves : allocator.Serves)

include hserves

theorem Holds.append_nullbyte {rest heap : Heap} {str : Object} {room : Nat}
    {text : Text} (hholds : Holds rest heap str room text)
    (hlt : text.length < 2 ^ 31) :
    Returns (_appendNullbyte allocator str) heap fun str' heap' =>
      (∃ room', Contains rest heap' str' room' (text ++ [0])) ∧
        str'.len = text.length := by
  unfold Object._appendNullbyte
  rw [hholds.len_succ (by omega)]
  apply Returns.bind (hholds.reserve hserves (by omega))
  rintro str' heap' ⟨room', hroom', hholds'⟩
  rw [hholds'.len]
  apply (hholds'.toContains.store (by omega) 0).mono
  rintro str'' heap'' ⟨hcontains, hlen⟩
  exact ⟨⟨room', hcontains⟩, hlen.trans hholds'.len⟩

theorem Owns.refAt {rest heap : Heap} {str : Object} {text : Text} {i : Nat}
    (howns : Owns rest heap str text) (hlt : text.length < 2 ^ 31)
    (hi : i ≤ text.length) :
    Returns (refAt allocator str i) heap fun result heap' =>
      Owns rest heap' result.1 text ∧
      result.1.load result.2 heap' = .ok ((text ++ [0]).getD i 0, heap') := by
  obtain ⟨room, hholds⟩ := howns
  have hindex : (i : Int).toNat ≤ str.len := by
    rw [hholds.len]
    exact hi
  unfold Object.refAt
  apply Returns.step (require_of (Int.natCast_nonneg i) "i >= 0" heap)
  apply Returns.step (require_of hindex "index <= length()" heap)
  rw [Int.toNat_natCast, hholds.len]
  by_cases hend : i = text.length
  · rw [if_pos hend, hend]
    apply Returns.bind (hholds.append_nullbyte hserves hlt)
    rintro str' heap' ⟨⟨room', hcontains⟩, hlen⟩
    refine .pure ⟨hcontains.owns hlen, ?_⟩
    rw [hcontains.load (by simp)]
    simp
  · have hlt' : i < text.length := by omega
    rw [if_neg hend]
    refine .pure ⟨⟨room, hholds⟩, ?_⟩
    rw [hholds.load hlt']
    simp [List.getElem?_append_left hlt', hlt']

theorem Owns.toChars {rest heap : Heap} {str : Object} {text : Text}
    (howns : Owns rest heap str text) (hlt : text.length < 2 ^ 31) :
    Returns (toChars allocator str) heap fun result heap' =>
      Owns rest heap' result.1 text ∧ result.2 = text ++ [0] := by
  obtain ⟨room, hholds⟩ := howns
  apply Returns.bind (hholds.append_nullbyte hserves hlt)
  rintro str' heap' ⟨⟨room', hcontains⟩, hlen⟩
  have hread := hcontains.readAll
  rw [List.length_append, List.length_singleton, ← hlen] at hread
  apply Returns.step hread
  exact .pure ⟨hcontains.owns hlen, rfl⟩

theorem Owns.appendChar {rest heap : Heap} {str : Object} {text : Text}
    (howns : Owns rest heap str text) (hlt : text.length + 1 < 2 ^ 31)
    (c : UInt8) :
    Returns (appendChar allocator str c) heap fun str' heap' =>
      Owns rest heap' str' (text ++ [c]) := by
  obtain ⟨room, hholds⟩ := howns
  unfold Object.appendChar
  rw [hholds.len_succ (by omega)]
  apply Returns.bind (hholds.reserve hserves (by omega))
  rintro str' heap' ⟨room', hroom, hholds'⟩
  apply (hholds'._append allocator (by omega) hlt c).mono
  intro str'' heap'' hholds''
  exact ⟨room', hholds''⟩

theorem Owns.append {rest heap : Heap} {str source : Object}
    {text sourceText : Text} (howns : Owns rest heap str text)
    (hsource : Represents rest source sourceText)
    (hlt : text.length + sourceText.length < 2 ^ 31) :
    Returns (append allocator str source) heap fun str' heap' =>
      Owns rest heap' str' (text ++ sourceText) := by
  obtain ⟨room, hholds⟩ := howns
  have hsum : add32 str.len source.len =
      text.length + sourceText.length := by
    rw [hholds.len, hsource.len_eq]
    exact add32_of_lt (by omega)
  unfold Object.append
  rw [hsum, hsource.len_eq]
  apply Returns.bind (hholds.reserve hserves (by omega))
  rintro str' heap' ⟨room', hroom, hholds'⟩
  apply (hholds'.appendFrom allocator hsource (by omega) hroom hlt
    (by omega)).mono
  intro str'' heap'' hholds''
  rw [List.drop_zero] at hholds''
  exact ⟨room', hholds''⟩

theorem Owns.fill {rest heap : Heap} {str : Object} {text : Text}
    {count : Nat} (howns : Owns rest heap str text)
    (hlt : text.length + count < 2 ^ 31) (c : UInt8) :
    Returns (fill allocator c count str) heap fun str' heap' =>
      Owns rest heap' str' (text ++ List.replicate count c) := by
  induction count generalizing heap str text with
  | zero =>
      rw [List.replicate_zero, List.append_nil]
      exact .pure howns
  | succ count ih =>
      apply Returns.bind (howns.appendChar hserves (by omega) c)
      intro str' heap' howns'
      apply (ih howns' (by simp; omega)).mono
      intro str'' heap'' howns''
      rwa [List.append_assoc, List.singleton_append, ← List.replicate_succ]
        at howns''

theorem Owns.resize {rest heap : Heap} {str : Object} {text : Text} {n : Nat}
    (howns : Owns rest heap str text) (hlt : n < 2 ^ 31) (c : UInt8) :
    Returns (resize allocator str n c) heap fun str' heap' =>
      Owns rest heap' str' (Strings.resize text n c) := by
  have hlen := howns.represents.len_eq
  unfold Object.resize Strings.resize
  rw [hlen]
  by_cases hshorter : n ≤ text.length
  · rw [if_pos hshorter, Nat.sub_eq_zero_of_le hshorter, List.replicate_zero,
      List.append_nil]
    exact .pure (howns.take hshorter)
  · obtain ⟨room, hholds⟩ := howns
    rw [if_neg hshorter, List.take_of_length_le (by omega)]
    apply Returns.bind (hholds.reserve hserves (by omega))
    rintro str' heap' ⟨room', hroom, hholds'⟩
    rw [hholds'.len]
    apply Owns.fill hserves ⟨room', hholds'⟩
    omega

theorem Owns.appendChars {rest heap : Heap} {str : Object} {text s : Text}
    (howns : Owns rest heap str text)
    (hlt : text.length + (s.takeWhile (· ≠ 0)).length < 2 ^ 31) :
    Returns (appendChars allocator s str) heap fun str' heap' =>
      Owns rest heap' str' (text ++ s.takeWhile (· ≠ 0)) := by
  induction s generalizing heap str text with
  | nil =>
      rw [List.takeWhile_nil, List.append_nil]
      exact .pure howns
  | cons c s ih =>
      unfold Object.appendChars
      by_cases hend : c ≠ 0
      · rw [if_pos hend]
        rw [List.takeWhile_cons_of_pos (by simpa using hend)] at hlt ⊢
        rw [List.length_cons] at hlt
        apply Returns.bind (howns.appendChar hserves (by omega) c)
        intro str' heap' howns'
        apply (ih howns' (by
          rw [List.length_append, List.length_singleton]
          omega)).mono
        intro str'' heap'' howns''
        rwa [List.append_assoc, List.singleton_append] at howns''
      · rw [if_neg hend, List.takeWhile_cons_of_neg (by simpa using hend),
          List.append_nil]
        exact .pure howns

theorem ofChars_returns (heap : Heap) {s : Text}
    (hlt : (s.takeWhile (· ≠ 0)).length < 2 ^ 31) :
    Returns (ofChars allocator s) heap fun str heap' =>
      Owns heap heap' str (s.takeWhile (· ≠ 0)) :=
  (Owns.empty heap).appendChars hserves (by simpa using hlt)

theorem Represents.ofString {heap : Heap} {source : Object} {text : Text}
    (hsource : Represents heap source text) (hlt : text.length < 2 ^ 31) :
    Returns (ofString allocator source) heap fun str heap' =>
      Owns heap heap' str text :=
  (Owns.empty heap).append hserves hsource (by simpa using hlt)

theorem Owns.assign {rest heap : Heap} {str source : Object}
    {text sourceText : Text} (howns : Owns rest heap str text)
    (hsource : Represents rest source sourceText)
    (hlt : sourceText.length < 2 ^ 31) :
    Returns (assign allocator str source) heap fun str' heap' =>
      Owns rest heap' str' sourceText := by
  apply Returns.bind (howns.clear.append hserves hsource (by simpa using hlt))
  intro str' heap' howns'
  exact .pure (howns'.withSaveIndex 0)

theorem Owns.destroy {rest heap : Heap} {str : Object} {text : Text}
    (howns : Owns rest heap str text) :
    Object.destroy allocator str heap = .ok ((), rest) := by
  have hothers := howns.others
  obtain ⟨room, hholds⟩ := howns
  obtain ⟨buffer, hstores, -, -⟩ := hholds.buffer
  cases hstores with
  | inline hinline =>
      rw [owner, hinline] at hothers
      simp [Object.destroy, hinline, ← hothers]
  | block huse hdata hcap hblock hpos hlt =>
      rw [owner, if_pos huse, hdata, Blocks.without_some] at hothers
      have hfree := hserves.free heap _ (Finmap.mem_of_lookup_eq_some hblock)
      simp [Object.destroy, huse, Object.data, hdata, orFault, free, hfree,
        hothers]

theorem Owns.destroyBelow {rest middle heap : Heap} {str temporary : Object}
    {text temporaryText : Text}
    (htemporary : Owns rest middle temporary temporaryText)
    (howns : Owns middle heap str text) :
    ∃ heap', Object.destroy allocator temporary heap = .ok ((), heap') ∧
      Owns rest heap' str text := by
  obtain ⟨middle', htemporary', howns'⟩ := htemporary.swap howns
  exact ⟨middle', htemporary'.destroy hserves, howns'⟩

theorem Owns.substrFrom {rest heap : Heap} {str new_str : Object}
    {text new_text : Text} {count i : Nat}
    (howns : Owns rest heap new_str new_text)
    (hsource : Represents rest str text) (hcount : i + count ≤ text.length)
    (hlt : new_text.length + count < 2 ^ 31) (hsourceLt : i + count < 2 ^ 31) :
    Returns (substrFrom allocator str count i new_str) heap
      fun new_str' heap' =>
        Owns rest heap' new_str' (new_text ++ (text.drop i).take count) := by
  induction count generalizing heap new_str new_text i with
  | zero =>
      rw [List.take_zero, List.append_nil]
      exact .pure howns
  | succ count ih =>
      have hi : i < text.length := by omega
      apply Returns.step ((howns.reads hsource).constAt hi (by omega))
      apply Returns.bind (howns.appendChar hserves (by omega) text[i])
      intro new_str' heap' howns'
      apply (ih howns' (by omega) (by simp; omega) (by omega)).mono
      intro new_str'' heap'' howns''
      rwa [List.append_assoc, List.singleton_append, ← List.take_succ_cons,
        ← List.drop_eq_getElem_cons hi] at howns''

theorem Represents.substr {heap : Heap} {str : Object} {text : Text}
    {pos len : Nat} (hsource : Represents heap str text)
    (hlt : text.length < 2 ^ 31) (hlen : len < 2 ^ 32) :
    Returns (substr allocator str pos len) heap fun new_str heap' =>
      Owns heap heap' new_str (Strings.substr text pos len) := by
  unfold Object.substr Strings.substr
  rw [hsource.len_eq]
  by_cases hwhole : pos = 0 ∧ len ≥ text.length
  · rw [if_pos hwhole, hwhole.1, List.drop_zero,
      List.take_of_length_le hwhole.2]
    exact hsource.ofString hserves hlt
  · rw [if_neg hwhole]
    by_cases hbehind : pos ≥ text.length
    · rw [if_pos hbehind, List.drop_of_length_le hbehind, List.take_nil]
      exact .pure (Owns.empty heap)
    · rw [if_neg hbehind]
      dsimp only
      rw [substr_limit (Nat.lt_of_not_ge hbehind) hlt hlen]
      apply ((Owns.empty heap).substrFrom hserves hsource (by omega)
        (by simp; omega) (by omega)).mono
      intro new_str heap' howns
      rwa [List.nil_append, ← List.length_drop, ← List.take_eq_take_min]
        at howns

/-- Both kinds of `insert` take the end off, append what is inserted and append
the end again. -/
theorem Owns.insertBy {rest heap : Heap} {str : Object}
    {text inserted : Text} {pos : Nat} {appendInserted : Object → Code Object}
    (howns : Owns rest heap str text)
    (hlt : (Strings.insert text pos inserted).length < 2 ^ 31)
    (happend : ∀ {middle heap str} {end_ : Object} {endText : Text},
      Owns rest middle end_ endText → Owns middle heap str (text.take pos) →
      (text.take pos).length + inserted.length < 2 ^ 31 →
      Returns (appendInserted str) heap fun str' heap' =>
        Owns middle heap' str' (text.take pos ++ inserted)) :
    Returns (do
      if pos > str.len then
        return str
      let end_ ← Object.substr allocator str pos npos
      let str ← Object.resize allocator str pos 32
      let str ← appendInserted str
      let str ← Object.append allocator str end_
      Object.destroy allocator end_
      return str) heap fun str' heap' =>
        Owns rest heap' str' (Strings.insert text pos inserted) := by
  rw [howns.represents.len_eq]
  unfold Strings.insert at hlt ⊢
  by_cases hbehind : pos > text.length
  · rw [if_pos hbehind, if_pos hbehind]
    exact .pure howns
  rw [if_neg hbehind] at hlt ⊢
  rw [if_neg hbehind]
  have hpos : pos ≤ text.length := Nat.le_of_not_gt hbehind
  have htaken : (Strings.resize text pos 32) = text.take pos := by
    simp [Strings.resize, Nat.sub_eq_zero_of_le hpos]
  simp only [List.length_append, List.length_take, List.length_drop] at hlt
  apply Returns.bind (howns.represents.substr hserves (by omega) (by decide))
  intro end_ heap₁ hend₁
  obtain ⟨middle, howns₁, hend₁⟩ := howns.swap hend₁
  rw [substr_npos (by omega)] at hend₁
  apply Returns.bind (howns₁.resize hserves (by omega) 32)
  intro str₂ heap₂ howns₂
  rw [htaken] at howns₂
  apply Returns.bind (happend hend₁ howns₂ (by rw [List.length_take]; omega))
  intro str₃ heap₃ howns₃
  apply Returns.bind (howns₃.append hserves hend₁.represents (by
    rw [List.length_append, List.length_take, List.length_drop]
    omega))
  intro str₄ heap₄ howns₄
  obtain ⟨heap₅, hdestroy, howns₅⟩ := hend₁.destroyBelow hserves howns₄
  apply Returns.step hdestroy
  exact .pure howns₅

theorem Owns.insert {rest heap : Heap} {str source : Object}
    {text sourceText : Text} {pos : Nat} (howns : Owns rest heap str text)
    (hsource : Represents rest source sourceText)
    (hlt : (Strings.insert text pos sourceText).length < 2 ^ 31) :
    Returns (insert allocator str pos source) heap fun str' heap' =>
      Owns rest heap' str' (Strings.insert text pos sourceText) := by
  apply howns.insertBy hserves hlt
  intro middle heap str end_ endText hend howns hlt
  exact howns.append hserves (hend.reads hsource) hlt

theorem Owns.insertChar {rest heap : Heap} {str : Object} {text : Text}
    {pos : Nat} (howns : Owns rest heap str text) (c : UInt8)
    (hlt : (Strings.insert text pos [c]).length < 2 ^ 31) :
    Returns (insertChar allocator str pos c) heap fun str' heap' =>
      Owns rest heap' str' (Strings.insert text pos [c]) := by
  apply howns.insertBy hserves hlt
  intro middle heap str end_ endText _ howns hlt
  exact howns.appendChar hserves hlt c

theorem Owns.takeOver {rest heap heap' : Heap} {str built : Object}
    {text builtText : Text} (howns : Owns rest heap str text)
    (hbuilt : Owns heap heap' built builtText)
    (hlt : builtText.length < 2 ^ 31) :
    Returns (do
      let str ← Object.assign allocator str built
      Object.destroy allocator built
      return str) heap' fun str' heap'' => Owns rest heap'' str' builtText := by
  obtain ⟨middle, howns₁, hbuilt₁⟩ := howns.swap hbuilt
  apply Returns.bind (howns₁.assign hserves hbuilt₁.represents hlt)
  intro str₂ heap₂ howns₂
  obtain ⟨heap₃, hdestroy, howns₃⟩ := hbuilt₁.destroyBelow hserves howns₂
  apply Returns.step hdestroy
  exact .pure howns₃

theorem Owns.erase {rest heap : Heap} {str : Object} {text : Text}
    {pos len : Nat} (howns : Owns rest heap str text)
    (hlt : text.length < 2 ^ 31) (hpos : pos < 2 ^ 32) (hlen : len < 2 ^ 32) :
    Returns (erase allocator str pos len) heap fun str' heap' =>
      Owns rest heap' str' (Strings.erase text pos len) := by
  have hsource := howns.represents
  unfold Object.erase Strings.erase
  rw [hsource.len_eq]
  by_cases hbehind : pos ≥ text.length
  · rw [if_pos hbehind, if_pos hbehind]
    exact .pure howns
  rw [if_neg hbehind, if_neg hbehind]
  by_cases hwhole : len = npos
  · rw [if_pos hwhole, if_pos hwhole]
    apply Returns.bind (hsource.substr hserves hlt hpos)
    intro first heap₁ hfirst
    apply howns.takeOver hserves hfirst
    rw [Strings.substr, List.drop_zero, List.length_take]
    omega
  rw [if_neg hwhole, if_neg hwhole]
  by_cases hwraps : add32 pos len < pos
  · rw [if_pos hwraps, if_pos hwraps]
    exact .pure howns
  rw [if_neg hwraps, if_neg hwraps]
  have hsum : add32 pos len = pos + len := by
    unfold add32 at hwraps ⊢
    omega
  rw [hsum]
  apply Returns.bind (hsource.substr hserves hlt hpos)
  intro new_str heap₁ hnew₁
  apply Returns.bind
    ((hnew₁.reads hsource).substr hserves hlt (by decide))
  intro tail heap₂ htail
  rw [Strings.substr, List.drop_zero] at hnew₁
  rw [substr_npos (by omega)] at htail
  obtain ⟨middle, hnew₂, htail₂⟩ := hnew₁.swap htail
  apply Returns.bind (hnew₂.append hserves htail₂.represents (by
    rw [List.length_take, List.length_drop]
    omega))
  intro new_str₃ heap₃ hnew₃
  obtain ⟨heap₄, hdestroy, hnew₄⟩ := htail₂.destroyBelow hserves hnew₃
  apply Returns.step hdestroy
  apply howns.takeOver hserves hnew₄
  rw [List.length_append, List.length_take, List.length_drop]
  omega

theorem Owns.popBack {rest heap : Heap} {str : Object} {text : Text}
    (howns : Owns rest heap str text) (hlt : text.length < 2 ^ 31) :
    Returns (popBack allocator str) heap fun str' heap' =>
      Owns rest heap' str' text.dropLast := by
  unfold Object.popBack
  rw [howns.represents.len_eq]
  by_cases hempty : text.length > 0
  · rw [if_pos hempty, List.dropLast_eq_take]
    apply (howns.resize hserves (by omega) 32).mono
    intro str' heap' howns'
    rwa [Strings.resize, Nat.sub_eq_zero_of_le (Nat.sub_le _ _),
      List.replicate_zero, List.append_nil] at howns'
  · have htext : text = [] := List.length_eq_zero_iff.mp (by omega)
    subst htext
    rw [if_neg hempty]
    exact .pure howns

end Methods

end Object

end X86Os32.Strings
