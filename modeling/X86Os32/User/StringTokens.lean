import X86Os32.Library.Words
import X86Os32.User.StringSearch

set_option linter.style.nameCheck false

namespace X86Os32.Strings

open Library Library.Program
open OStream (Text)

/-! Taking a string apart with `strtok`. -/

namespace Object

/-- The loop over `str` in `find_first_of`, with `count` characters to go. -/
def matchesFrom (str delim : Object) (i : Nat) : Nat → Nat → Code Bool
  | 0, _ => pure false
  | count + 1, j => do
      let c ← str.constAt (toInt i)
      let d ← delim.constAt (toInt j)
      if c = d then return true
      else matchesFrom str delim i count (j + 1)

/-- The loop of `find_first_of`, with `count` places to go. -/
def findFirstFrom (str delim : Object) : Nat → Nat → Code Nat
  | 0, _ => pure npos
  | count + 1, i => do
      if ← matchesFrom str delim i delim.len 0 then return i
      else findFirstFrom str delim count (i + 1)

def findFirstOf (str delim : Object) (pos : Nat) : Code Nat :=
  findFirstFrom str delim (str.len - pos) pos

/-- The loop of `strtok`. -/
def skipDelimiters (delim : Object) : Nat → Object → Code (Object × Nat)
  | 0, _ => throw (.stopped .endlessLoop)
  | fuel + 1, str => do
      let pos ← str.findFirstOf delim str.saveIndex
      if pos = str.saveIndex then
        skipDelimiters delim fuel
          { str with saveIndex := add32 str.saveIndex 1 }
      else return (str, pos)

section Methods

variable (allocator : Allocator Pointer Byte)

/-- The string afterwards, and the result. -/
def strtok (str delim : Object) : Code (Object × Object) := do
  let (str, pos) ← skipDelimiters delim (2 ^ 32) str
  let pos := if pos = npos then str.len else pos
  let ret ← str.substr allocator str.saveIndex (sub32 pos str.saveIndex)
  return ({ str with saveIndex := add32 pos 1 }, ret)

def tok (str delim : Object) : Code (Object × Object) :=
  strtok allocator str delim

/-- One call of `tok` for each set of characters. -/
def tokAll : List Object → Object → Code (Object × List Object)
  | [], str => pure (str, [])
  | delim :: delims, str => do
      let (str, token) ← tok allocator str delim
      let (str, tokens) ← tokAll delims str
      return (str, token :: tokens)

end Methods

end Object

def isDelimiter (delim : Text) (c : UInt8) : Bool := decide (c ∈ delim)

/-- Where the first one of the characters stands, or `npos`. -/
def firstDelimiter (text delim : Text) (pos : Nat) : Nat :=
  let before := (text.drop pos).takeWhile fun c => !isDelimiter delim c
  if before.length < (text.drop pos).length then pos + before.length else npos

theorem firstDelimiter_cons {text rest : Text} {c : UInt8} {pos : Nat}
    (hrest : text.drop pos = c :: rest) (delim : Text) :
    firstDelimiter text delim pos =
      if isDelimiter delim c then pos else firstDelimiter text delim (pos + 1) := by
  have hnext : text.drop (pos + 1) = rest := by
    rw [← List.drop_drop, hrest, List.drop_succ_cons, List.drop_zero]
  unfold firstDelimiter
  rw [hrest, hnext]
  cases hdelim : isDelimiter delim c with
  | true => simp [hdelim]
  | false =>
      simp only [List.takeWhile_cons_of_pos, hdelim, Bool.not_false,
        List.length_cons, Nat.add_lt_add_iff_right]
      rw [if_neg Bool.false_ne_true]
      split
      · omega
      · rfl

theorem firstDelimiter_nil {text : Text} {pos : Nat} (hrest : text.drop pos = [])
    (delim : Text) : firstDelimiter text delim pos = npos := by
  unfold firstDelimiter
  rw [hrest]
  rfl

theorem firstDelimiter_ne_of_not {text rest : Text} {c : UInt8} {pos : Nat}
    (hrest : text.drop pos = c :: rest) {delim : Text}
    (hc : isDelimiter delim c = false) (hpos : pos < npos) :
    firstDelimiter text delim pos ≠ pos := by
  rw [firstDelimiter_cons hrest, hc, if_neg Bool.false_ne_true]
  unfold firstDelimiter
  dsimp only
  split <;> omega

namespace Object

open Words

theorem Represents.withSaveIndex {heap : Heap} {str : Object} {text : Text}
    (hread : Represents heap str text) (n : Nat) :
    Represents heap { str with saveIndex := n } text :=
  Owns.withSaveIndex hread n

variable {heap : Heap} {str delim : Object} {text delimText : Text}
  (hdelim : Represents heap delim delimText)
  (htext : text.length < 2 ^ 31) (hdelimText : delimText.length < 2 ^ 31)

include hdelim htext hdelimText

theorem Represents.matchesFrom (hstr : Represents heap str text) {i : Nat}
    (hi : i < text.length) {count j : Nat}
    (hcount : j + count = delimText.length) :
    matchesFrom str delim i count j heap =
      .ok (decide (text[i] ∈ delimText.drop j), heap) := by
  induction count generalizing j with
  | zero =>
      have hnone : delimText.drop j = [] := List.drop_of_length_le (by omega)
      rw [hnone, decide_eq_false List.not_mem_nil]
      rfl
  | succ count ih =>
      have hj : j < delimText.length := by omega
      have hread := hstr.constAt hi (by omega)
      have hread' := hdelim.constAt hj (by omega)
      rw [Object.matchesFrom]
      simp only [bind_apply, hread, hread', List.drop_eq_getElem_cons hj,
        List.mem_cons]
      by_cases hsame : text[i] = delimText[j]
      · rw [if_pos hsame, decide_eq_true (.inl hsame)]
        rfl
      · rw [if_neg hsame, ih (by omega)]
        simp only [hsame, false_or]

theorem Represents.findFirstFrom (hstr : Represents heap str text)
    {count i : Nat} (hcount : i + count = text.length) :
    findFirstFrom str delim count i heap =
      .ok (firstDelimiter text delimText i, heap) := by
  induction count generalizing i with
  | zero =>
      rw [firstDelimiter_nil (List.drop_of_length_le (by omega))]
      rfl
  | succ count ih =>
      have hi : i < text.length := by omega
      have hmatches := hdelim.matchesFrom htext hdelimText hstr hi
        (Nat.zero_add _)
      rw [Object.findFirstFrom, hdelim.len_eq,
        firstDelimiter_cons (List.drop_eq_getElem_cons hi)]
      simp only [bind_apply, hmatches, List.drop_zero]
      cases hfound : decide (text[i] ∈ delimText) with
      | true => simp [isDelimiter, hfound]
      | false => simp [isDelimiter, hfound, ih (i := i + 1) (by omega)]

theorem Represents.findFirstOf (hstr : Represents heap str text) (pos : Nat) :
    findFirstOf str delim pos heap =
      .ok (firstDelimiter text delimText pos, heap) := by
  unfold Object.findFirstOf
  rw [hstr.len_eq]
  rcases Nat.le_total pos text.length with hle | hle
  · exact hdelim.findFirstFrom htext hdelimText hstr (Nat.add_sub_of_le hle)
  · rw [Nat.sub_eq_zero_of_le hle, firstDelimiter_nil (List.drop_of_length_le hle)]
    rfl

theorem Represents.skipDelimiters (hstr : Represents heap str text)
    (hindex : str.saveIndex ≤ text.length + 1) {rest : Text}
    (hrest : text.drop str.saveIndex = rest) {fuel : Nat}
    (hfuel : rest.length < fuel) :
    ∃ k ≤ text.length + 1,
      skipDelimiters delim fuel str heap = .ok (({ str with saveIndex := k },
        firstDelimiter text delimText k), heap) ∧
      text.drop k = skipped (isDelimiter delimText) rest := by
  have hnpos : npos = 2 ^ 32 - 1 := rfl
  have hfind := hdelim.findFirstOf htext hdelimText hstr str.saveIndex
  obtain ⟨fuel, rfl⟩ : ∃ more, fuel = more + 1 := ⟨fuel - 1, by omega⟩
  induction rest generalizing str fuel with
  | nil =>
      have hend : npos ≠ str.saveIndex := by omega
      refine ⟨str.saveIndex, hindex, ?_, hrest⟩
      rw [Object.skipDelimiters, bind_apply, hfind, firstDelimiter_nil hrest]
      simp only [hend, if_false]
      rfl
  | cons c rest ih =>
      have hlength := congrArg List.length hrest
      rw [List.length_drop, List.length_cons] at hlength
      have hnext : text.drop (str.saveIndex + 1) = rest := by
        rw [← List.drop_drop, hrest, List.drop_succ_cons, List.drop_zero]
      rw [Object.skipDelimiters, bind_apply, hfind]
      cases hc : isDelimiter delimText c with
      | true =>
          obtain ⟨fuel, rfl⟩ : ∃ more, fuel = more + 1 :=
            ⟨fuel - 1, by rw [List.length_cons] at hfuel; omega⟩
          have hsucc : add32 str.saveIndex 1 = str.saveIndex + 1 :=
            add32_of_lt (by omega)
          have hstr' : Represents heap
              { str with saveIndex := str.saveIndex + 1 } text :=
            hstr.withSaveIndex _
          obtain ⟨k, hk, hrun, hdrop⟩ := ih hstr'
            (show str.saveIndex + 1 ≤ text.length + 1 by omega) hnext
            (hdelim.findFirstOf htext hdelimText hstr' _) fuel
            (by rw [List.length_cons] at hfuel; omega)
          refine ⟨k, hk, ?_, ?_⟩
          · rw [firstDelimiter_cons hrest, hc]
            simp only [if_true, hsucc]
            exact hrun
          · rw [hdrop, skipped, skipped, List.dropWhile_cons_of_pos hc]
      | false =>
          have hne := firstDelimiter_ne_of_not hrest hc (by omega)
          refine ⟨str.saveIndex, hindex, ?_, ?_⟩
          · simp only [hne, if_false]
            rfl
          · rw [hrest, skipped, List.dropWhile_cons_of_neg (by simp [hc])]

omit hdelim htext hdelimText

theorem firstDelimiter_token {text delimText rest : Text} {k len : Nat}
    (hk : k ≤ text.length + 1) (htext : text.length < 2 ^ 31)
    (hlen : len = text.length)
    (hrest : text.drop k = skipped (isDelimiter delimText) rest) :
    let pos := if firstDelimiter text delimText k = npos then len
      else firstDelimiter text delimText k
    pos ≤ text.length ∧
    Strings.substr text k (sub32 pos k) = first (isDelimiter delimText) rest ∧
    text.drop (pos + 1) = behind (isDelimiter delimText) rest := by
  subst hlen
  have hnpos : npos = 2 ^ 32 - 1 := rfl
  have hlength := congrArg List.length hrest
  rw [List.length_drop] at hlength
  have hfind : firstDelimiter text delimText k =
      if (first (isDelimiter delimText) rest).length <
          (skipped (isDelimiter delimText) rest).length then
        k + (first (isDelimiter delimText) rest).length
      else npos := by
    rw [firstDelimiter, hrest, first]
  rcases skipped_eq (isDelimiter delimText) rest with
    ⟨hlast, hbehind⟩ | ⟨c, -, hsplit⟩
  · rw [← hlast, if_neg (Nat.lt_irrefl _)] at hfind
    rw [hfind, if_pos rfl, hbehind, ← hlast]
    refine ⟨Nat.le_refl _, ?_, List.drop_of_length_le (Nat.le_succ _)⟩
    rw [Strings.substr, hrest]
    apply List.take_of_length_le
    rw [← hlength]
    unfold sub32
    omega
  · have hmore := congrArg List.length hsplit
    rw [List.length_append, List.length_cons] at hmore
    rw [if_pos (by omega)] at hfind
    rw [hfind, if_neg (by omega)]
    refine ⟨by omega, ?_, ?_⟩
    · rw [sub32_of_le (Nat.le_add_right _ _) (by omega), Nat.add_sub_cancel_left,
        Strings.substr, hrest, hsplit, List.take_left]
    · rw [Nat.add_assoc, ← List.drop_drop, hrest, hsplit, ← List.drop_drop,
        List.drop_left, List.drop_succ_cons, List.drop_zero]

section Methods

variable {allocator : Allocator Pointer Byte} (hserves : allocator.Serves)

include hserves hdelim htext hdelimText

/-- A call returns the next word and moves the index behind its end. -/
theorem Represents.tok (hstr : Represents heap str text)
    (hindex : str.saveIndex ≤ text.length + 1) {rest : Text}
    (hrest : text.drop str.saveIndex = rest) :
    Returns (tok allocator str delim) heap fun result heap' =>
      (∃ k ≤ text.length + 1, result.1 = { str with saveIndex := k } ∧
        text.drop k = behind (isDelimiter delimText) rest) ∧
      Owns heap heap' result.2 (first (isDelimiter delimText) rest) := by
  have hfuel : rest.length < 2 ^ 32 := by
    rw [← hrest, List.length_drop]
    omega
  obtain ⟨k, hk, hskip, hdrop⟩ :=
    hdelim.skipDelimiters htext hdelimText hstr hindex hrest hfuel
  obtain ⟨hpos, htoken, hbehind⟩ :=
    firstDelimiter_token hk htext hstr.len_eq hdrop
  have hstr' : Represents heap { str with saveIndex := k } text :=
    hstr.withSaveIndex k
  apply Returns.step hskip
  dsimp only
  generalize (if firstDelimiter text delimText k = npos then str.len
    else firstDelimiter text delimText k) = pos at hpos htoken hbehind ⊢
  have hsub : sub32 pos k < 2 ^ 32 := Nat.mod_lt _ (by decide)
  apply Returns.bind (hstr'.substr hserves htext hsub)
  intro ret heap' hret
  rw [htoken] at hret
  rw [add32_of_lt (by omega)]
  exact .pure ⟨⟨_, Nat.succ_le_succ hpos, rfl, hbehind⟩, hret⟩

omit hdelim htext hdelimText

theorem Represents.tokAll {rest : Text} (htext : text.length < 2 ^ 31)
    (hstr : Represents heap str text) (hindex : str.saveIndex ≤ text.length + 1)
    (hrest : text.drop str.saveIndex = rest) {delims : List Object}
    {sets : List Text} (hdelims : List.Forall₂ (Represents heap) delims sets)
    (hsets : ∀ delimText ∈ sets, delimText.length < 2 ^ 31) :
    Returns (tokAll allocator delims str) heap fun result heap' =>
      (∃ k ≤ text.length + 1, result.1 = { str with saveIndex := k }) ∧
      List.Forall₂ (Represents heap') result.2
        (firsts (sets.map isDelimiter) rest) ∧
      ∀ other otherText, Represents heap other otherText →
        Represents heap' other otherText := by
  induction delims generalizing heap str rest sets with
  | nil =>
      cases hdelims
      refine .pure ⟨⟨str.saveIndex, hindex, rfl⟩, .nil, ?_⟩
      intro other otherText hother
      exact hother
  | cons delim delims ih =>
      obtain _ | @⟨_, delimText, _, sets, hdelim, hdelims⟩ := hdelims
      have hset := hsets delimText List.mem_cons_self
      apply Returns.bind
        (hdelim.tok htext hset hserves hstr hindex hrest)
      rintro ⟨str', token⟩ heap' ⟨⟨k, hk, rfl, hbehind⟩, htoken⟩
      have hkept : List.Forall₂ (Represents heap') delims sets :=
        hdelims.imp fun _ _ hread => htoken.reads hread
      have hstr' : Represents heap' { str with saveIndex := k } text :=
        (htoken.reads hstr).withSaveIndex k
      apply Returns.bind (ih hstr' hk hbehind hkept fun set hmem =>
        hsets set (List.mem_cons_of_mem _ hmem))
      rintro ⟨str'', tokens⟩ heap'' ⟨hindex', htokens, hframe⟩
      refine .pure ⟨hindex', .cons (hframe _ _ htoken.represents) htokens, ?_⟩
      intro other otherText hother
      exact hframe _ _ (htoken.reads hother)

/-- Each call returns the next run of characters that are not in its set, and
with one set all runs are returned in their order, and then empty strings.  The
string keeps its characters. -/
theorem tok_complete (hstr : Represents heap str text)
    (htext : text.length < 2 ^ 31) (hstart : str.saveIndex = 0)
    {delims : List Object} {sets : List Text}
    (hdelims : List.Forall₂ (Represents heap) delims sets)
    (hsets : ∀ delimText ∈ sets, delimText.length < 2 ^ 31) :
    Returns (tokAll allocator delims str) heap (fun result heap' =>
      (∃ k ≤ text.length + 1, result.1 = { str with saveIndex := k }) ∧
      Represents heap' result.1 text ∧
      List.Forall₂ (Represents heap') result.2
        (firsts (sets.map isDelimiter) text)) ∧
    ∀ delimText n, sets = List.replicate n delimText →
      firsts (sets.map isDelimiter) text =
        (words (isDelimiter delimText) text ++ List.replicate n []).take n := by
  constructor
  · have hrest : text.drop str.saveIndex = text := by
      rw [hstart, List.drop_zero]
    apply (Represents.tokAll hserves htext hstr (by omega) hrest hdelims
      hsets).mono
    rintro ⟨str', tokens⟩ heap' ⟨⟨k, hk, rfl⟩, htokens, hframe⟩
    exact ⟨⟨k, hk, rfl⟩, (hframe _ _ hstr).withSaveIndex k, htokens⟩
  · rintro delimText n rfl
    rw [List.map_replicate]
    exact firsts_replicate _ n text

omit hserves

/-- `a b`, taken apart at the blank. -/
theorem tok_complete_blank :
    Returns (tokAll (Allocator.moving .indeterminate)
      (List.replicate 3 (inlined [32])) (inlined [97, 32, 98])) ∅
      fun result heap' => Represents heap' result.1 [97, 32, 98] ∧
        List.Forall₂ (Represents heap') result.2 [[97], [98], []] := by
  have hdelim : Represents ∅ (inlined [32]) [32] :=
    (inlined_owns ∅ (by decide)).represents
  have hcomplete := tok_complete (Allocator.moving_serves Byte.indeterminate)
    (inlined_owns ∅ (show [97, 32, 98].length ≤ 20 by decide)).represents
    (by decide) rfl
    (.cons hdelim (.cons hdelim (.cons hdelim .nil)))
    (by simp)
  apply hcomplete.1.mono
  rintro result heap' ⟨-, hstr, htokens⟩
  exact ⟨hstr, htokens⟩

end Methods

end Object

end X86Os32.Strings
