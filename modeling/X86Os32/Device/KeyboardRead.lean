import X86Os32.Device.CGAStream
import X86Os32.Library.Folds
import X86Os32.Machine.KeyDecoder

namespace X86Os32

open Library
open OStream (Text)
open CGA (Window Attribute CGAStream)

/-! `Keyboard::read` of `device/keyboard.cc`: the characters that are put into a
`String` and echoed on a stream. -/

/-- Ctrl and `d` end an input. -/
def Key.EndsInput (k : Key) : Prop :=
  k.ctrl = true ∧ (k.asc = 'd'.toUInt8 ∨ k.asc = 'D'.toUInt8)

instance (k : Key) : Decidable k.EndsInput :=
  inferInstanceAs (Decidable (_ ∧ _))

def backspaceChar : UInt8 := 8

/-- What has become of the arguments of `read`, and its result unless it is waiting
for a key. -/
structure Input where
  str : Text
  out : CGAStream
  result : Option Nat

namespace Keyboard

def readFrom (count : Nat) : Nat → List Key → Text → CGAStream → Input
  | i, [], str, out => ⟨str, out, if i < count then none else some i⟩
  | i, k :: keys, str, out =>
      if i < count then
        if k.EndsInput then ⟨str, out, some i⟩
        else if k.asc = backspaceChar then
          let (s, out) := out.backspace (some str) Strings.npos
          readFrom count (i + 1) keys (s.getD str) out
        else
          let str := str ++ [k.asc]
          let out := (out.put k.asc).flush
          if k.asc = '\n'.toUInt8 then ⟨str, out, some i⟩
          else readFrom count (i + 1) keys str out
      else ⟨str, out, some i⟩

def read (str : Text) (count : Nat) (out : CGAStream) (keys : List Key) : Input :=
  readFrom count 0 keys str out

def entered : Nat → List Key → List Key
  | 0, _ => []
  | _ + 1, [] => []
  | count + 1, k :: keys =>
      if k.EndsInput then []
      else if k.asc = '\n'.toUInt8 then [k]
      else k :: entered count keys

abbrev Line : Type := Text × Text

/-- What a key does to both texts: it adds its character, or deletes the last one
unless the String is empty. -/
def edit (line : Line) (k : Key) : Line :=
  if k.asc = backspaceChar then
    if line.1 = [] then line else (line.1.dropLast, line.2.dropLast)
  else (line.1 ++ [k.asc], line.2 ++ [k.asc])

/-- The String is the text that the keys make of it, and where the stream showed a
text, it shows what the keys make of that one. -/
def ReadsExactly (str : Text) (count : Nat) (out : CGAStream) (keys : List Key) :
    Prop :=
  let input := read str count out keys
  input.str = ((entered count keys).foldl edit (str, [])).1 ∧
    ∀ (w : Window) (useCursor : Bool) (attrib : Attribute) (shown : Text),
      out.Carries w useCursor attrib shown →
      input.out.Carries w useCursor attrib
        ((entered count keys).foldl edit (str, shown)).2

def typedText (keys : List Key) : Text :=
  (keys.filter (·.asc ≠ backspaceChar)).map Key.asc

def Spares (line : Line) (k : Key) : Prop :=
  k.asc = backspaceChar → line.1 = []

theorem erase_npos (str : Text) : Strings.erase str Strings.npos 1 = str := by
  unfold Strings.erase
  split
  · rfl
  · rw [if_neg (by decide), if_pos (by decide)]

theorem backspace_str (out : CGAStream) (str : Text) :
    (out.backspace (some str) Strings.npos).1 = some str := by
  unfold CGAStream.backspace CGA.CGAScreen.backspace
  dsimp only
  split
  · rfl
  · exact congrArg some (erase_npos str)

theorem typedText_cons_backspace {k : Key} (hback : k.asc = backspaceChar)
    (keys : List Key) : typedText (k :: keys) = typedText keys := by
  unfold typedText
  rw [List.filter_cons_of_neg (by simpa using hback)]

theorem typedText_cons {k : Key} (hback : k.asc ≠ backspaceChar) (keys : List Key) :
    typedText (k :: keys) = k.asc :: typedText keys := by
  unfold typedText
  rw [List.filter_cons_of_pos (by simpa using hback), List.map_cons]

/-- Nothing is ever deleted. -/
theorem readFrom_str (count i : Nat) (keys : List Key) (str : Text)
    (out : CGAStream) :
    (readFrom count i keys str out).str =
      str ++ typedText (entered (count - i) keys) := by
  induction keys generalizing i str out with
  | nil => cases count - i <;> simp [readFrom, entered, typedText]
  | cons k keys ih =>
      unfold readFrom
      by_cases hmore : i < count
      · obtain ⟨rest, hrest⟩ : ∃ rest, count - i = rest + 1 :=
          ⟨count - i - 1, by omega⟩
        have hnext : count - (i + 1) = rest := by omega
        rw [if_pos hmore, hrest, entered]
        by_cases hends : k.EndsInput
        · rw [if_pos hends, if_pos hends]
          exact (List.append_nil str).symm
        rw [if_neg hends, if_neg hends]
        by_cases hback : k.asc = backspaceChar
        · have hbreak : k.asc ≠ '\n'.toUInt8 := by
            rw [hback]
            decide
          rw [if_pos hback, if_neg hbreak]
          dsimp only
          rw [ih, hnext, backspace_str, typedText_cons_backspace hback]
          rfl
        rw [if_neg hback]
        by_cases hbreak : k.asc = '\n'.toUInt8
        · rw [if_pos hbreak, if_pos hbreak, typedText_cons hback]
          rfl
        · rw [if_neg hbreak, if_neg hbreak, ih, hnext, typedText_cons hback,
            List.append_assoc]
          rfl
      · rw [if_neg hmore, Nat.sub_eq_zero_of_le (by omega)]
        exact (List.append_nil str).symm

theorem length_edits (keys : List Key) (line : Line) :
    (keys.foldl edit line).1.length ≤ line.1.length + (typedText keys).length ∧
    ((keys.foldl edit line).1.length = line.1.length + (typedText keys).length →
      Folds.Along edit Spares line keys) := by
  induction keys generalizing line with
  | nil => exact ⟨Nat.le_refl _, fun _ => trivial⟩
  | cons k keys ih =>
      obtain ⟨hle, hspares⟩ := ih (edit line k)
      rw [List.foldl_cons]
      by_cases hback : k.asc = backspaceChar
      · rw [typedText_cons_backspace hback]
        by_cases hempty : line.1 = []
        · have hsame : edit line k = line := by
            unfold edit
            rw [if_pos hback, if_pos hempty]
          rw [hsame] at hle hspares ⊢
          refine ⟨hle, fun hlength => ⟨fun _ => hempty, ?_⟩⟩
          rw [hsame]
          exact hspares hlength
        · have hshorter : (edit line k).1.length + 1 = line.1.length := by
            have hpos := List.length_pos_iff.mpr hempty
            unfold edit
            rw [if_pos hback, if_neg hempty, List.length_dropLast]
            omega
          exact ⟨by omega, fun hlength => by omega⟩
      · have hlonger : (edit line k).1.length = line.1.length + 1 := by
          unfold edit
          rw [if_neg hback, List.length_append, List.length_singleton]
        rw [typedText_cons hback, List.length_cons]
        refine ⟨by omega, fun hlength => ⟨fun h => absurd h hback, ?_⟩⟩
        exact hspares (by omega)

theorem edits_of_spares {keys : List Key} {line : Line}
    (hspares : Folds.Along edit Spares line keys) :
    keys.foldl edit line = (line.1 ++ typedText keys, line.2 ++ typedText keys) := by
  induction keys generalizing line with
  | nil => simp [typedText]
  | cons k keys ih =>
      obtain ⟨hfirst, hrest⟩ := hspares
      rw [List.foldl_cons, ih hrest]
      unfold edit
      by_cases hback : k.asc = backspaceChar
      · rw [if_pos hback, if_pos (hfirst hback), typedText_cons_backspace hback]
      · simp [hback, typedText_cons hback]

theorem readFrom_carries {count i : Nat} {keys : List Key} {str shown : Text}
    {out : CGAStream} {w : Window} {useCursor : Bool} {attrib : Attribute}
    (hspares : Folds.Along edit Spares (str, shown) (entered (count - i) keys))
    (hcarries : out.Carries w useCursor attrib shown) :
    (readFrom count i keys str out).out.Carries w useCursor attrib
      (shown ++ typedText (entered (count - i) keys)) := by
  induction keys generalizing i str shown out with
  | nil =>
      rw [show entered (count - i) [] = [] by cases count - i <;> rfl]
      simpa [readFrom, typedText] using hcarries
  | cons k keys ih =>
      unfold readFrom
      by_cases hmore : i < count
      · obtain ⟨rest, hrest⟩ : ∃ rest, count - i = rest + 1 :=
          ⟨count - i - 1, by omega⟩
        have hnext : count - (i + 1) = rest := by omega
        rw [hrest, entered] at hspares ⊢
        rw [if_pos hmore]
        by_cases hends : k.EndsInput
        · rw [if_pos hends, if_pos hends]
          simpa [typedText] using hcarries
        rw [if_neg hends] at hspares ⊢
        rw [if_neg hends]
        by_cases hback : k.asc = backspaceChar
        · have hbreak : k.asc ≠ '\n'.toUInt8 := by
            rw [hback]
            decide
          rw [if_neg hbreak] at hspares ⊢
          rw [if_pos hback, typedText_cons_backspace hback, ← hnext]
          obtain ⟨hempty, hspares⟩ := hspares
          obtain rfl : str = [] := hempty hback
          have hsame : edit ([], shown) k = ([], shown) := by
            unfold edit
            rw [if_pos hback, if_pos rfl]
          rw [hsame, ← hnext] at hspares
          exact ih hspares hcarries
        have hadds : edit (str, shown) k = (str ++ [k.asc], shown ++ [k.asc]) :=
          if_neg hback
        have hechoed := (hcarries.put k.asc).flush
        rw [if_neg hback]
        by_cases hbreak : k.asc = '\n'.toUInt8
        · rw [if_pos hbreak, if_pos hbreak, typedText_cons hback]
          exact hechoed
        · rw [if_neg hbreak] at hspares ⊢
          obtain ⟨-, hspares⟩ := hspares
          rw [hadds, ← hnext] at hspares
          rw [if_neg hbreak, typedText_cons hback, List.append_cons, ← hnext]
          exact ih hspares hechoed
      · rw [if_neg hmore, Nat.sub_eq_zero_of_le (by omega)]
        simpa [entered, typedText] using hcarries

/-- What becomes of the String does not depend on the screen. -/
theorem edits_str (keys : List Key) (str shown shown' : Text) :
    (keys.foldl edit (str, shown)).1 = (keys.foldl edit (str, shown')).1 := by
  induction keys generalizing str shown shown' with
  | nil => rfl
  | cons k keys ih =>
      rw [List.foldl_cons, List.foldl_cons]
      unfold edit
      dsimp only
      split
      · split
        · exact ih str shown shown'
        · exact ih _ _ _
      · exact ih _ _ _

/-- The String is what is on the screen line exactly if no backspace comes while
there is something to delete. -/
theorem read_exact_iff (str : Text) (count : Nat) (out : CGAStream)
    (keys : List Key) :
    ReadsExactly str count out keys ↔
      ∀ earlier k later, entered count keys = earlier ++ k :: later →
        k.asc = backspaceChar → (earlier.foldl edit (str, [])).1 = [] := by
  have halong (shown : Text) : Folds.Along edit Spares (str, shown)
      (entered count keys) ↔
      ∀ earlier k later, entered count keys = earlier ++ k :: later →
        k.asc = backspaceChar → (earlier.foldl edit (str, [])).1 = [] := by
    rw [Folds.along_iff]
    unfold Spares
    simp only [edits_str _ str shown []]
  constructor
  · rintro ⟨hstr, -⟩
    apply (halong []).mp
    apply (length_edits (entered count keys) (str, [])).2
    have hkept : (read str count out keys).str =
        str ++ typedText (entered count keys) := readFrom_str count 0 keys str out
    rw [← hstr, hkept, List.length_append]
  · intro hspares
    constructor
    · rw [edits_of_spares ((halong []).mpr hspares)]
      exact readFrom_str count 0 keys str out
    · intro w useCursor attrib shown hcarries
      have hshown := (halong shown).mpr hspares
      rw [edits_of_spares hshown]
      exact readFrom_carries hshown hcarries

/-- After a backspace, the character is gone from the screen only. -/
theorem read_backspace :
    let out : CGAStream :=
      ⟨⟨fun _ => 0, 0⟩,
        ⟨.construct 0 79 0 24 false, fun _ => ⟨⟨32, 7⟩, 0⟩, fun _ => 0⟩, 7⟩
    let keys : List Key := [⟨97, 30, 0⟩, ⟨backspaceChar, 14, 0⟩]
    let input := read [] 2 out keys
    input.str = [97] ∧ (input.out.display.cells 0).pixel.ascii = ' '.toUInt8 ∧
      ((entered 2 keys).foldl edit ([], [])).1 = [] := by
  decide

end Keyboard

end X86Os32
