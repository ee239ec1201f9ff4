import Mathlib.Data.List.Destutter
import Mathlib.Order.Lattice.Nat
import X86Os32.Debug.Assert
import X86Os32.Library.DoublyLinked
import X86Os32.User.Characters

set_option linter.style.nameCheck false

namespace X86Os32.Shell

open Library Library.DoublyLinked
open OStream (Text)

/-! The history of `user/shell/shell.cc`. -/

/-- Which number an address has cannot be observed. -/
abbrev Pointer : Type := Nat

/-- `History_Entry`, with the characters of `*str` as its value. -/
abbrev HistoryEntry : Type := Node Pointer Text

abbrev Memory : Type := Nodes Pointer Text

structure Storage where
  place : Memory → Pointer
  place_new : ∀ memory, place memory ∉ memory

def Storage.above : Storage where
  place memory := memory.keys.sup id + 1
  place_new memory hmem := by
    have hle : memory.keys.sup id + 1 ≤ memory.keys.sup id :=
      Finset.le_sup (f := id) (Finmap.mem_keys.mpr hmem)
    exact absurd hle (Nat.not_succ_le_self _)

/-- `*pointer` -/
def follow (memory : Memory) (pointer : Option Pointer) :
    Except Stop HistoryEntry := do
  let p ← deref pointer
  match memory.lookup p with
  | none => .error .useAfterFree
  | some entry => .ok entry

/-- The part of a shell that outlives a command. -/
structure History where
  memory : Memory
  historyTail : Option Pointer

namespace History

/-- A field of `*pointer` is written. -/
def change (s : History) (pointer : Pointer) (f : HistoryEntry → HistoryEntry) :
    Except Stop History := do
  let entry ← follow s.memory (some pointer)
  return { s with memory := s.memory.insert pointer (f entry) }

variable (storage : Storage) (s : History)

/-- `new History_Entry(str)` -/
def newEntry (str : Text) : Pointer × History :=
  let new_entry := storage.place s.memory
  (new_entry, { s with memory := s.memory.insert new_entry ⟨str, none, none⟩ })

def historyAdd (str : Text) : Except Stop History := do
  let tail ← follow s.memory s.historyTail
  if str = tail.value then return s
  let (new_entry, s) := s.newEntry storage str
  match s.historyTail with
  | none => return { s with historyTail := some new_entry }
  | some historyTail =>
      let s ← s.change historyTail fun entry =>
        { entry with next := some new_entry }
      let s ← s.change new_entry fun entry =>
        { entry with prev := some historyTail }
      return { s with historyTail := some new_entry }

def removeLf (str : Text) : Except Stop Text := do
  assert (str ≠ []) "i >= 0"
  return if str.getLast? = some '\n'.toUInt8 then str.dropLast else str

def processInput (str : Text) : Except Stop History := do
  let str ← removeLf str
  if str = [] then return s
  s.historyAdd storage str

def processAll : List Text → History → Except Stop History
  | [], s => .ok s
  | str :: rest, s => do
      processAll rest (← s.processInput storage str)

def created (memory : Memory) : History := ⟨memory, none⟩

/-- The entries hold the commands, and the tail is the last one. -/
def Remembers (commands : List Text) : Prop :=
  ∃ entries, Linked s.memory entries commands ∧ s.historyTail = entries.getLast?

end History

/-- Runs of equal commands are one. -/
def collapse (commands : List Text) : List Text := commands.destutter (· ≠ ·)

def stripped (line : Text) : Text :=
  if line.getLast? = some '\n'.toUInt8 then line.dropLast else line

def commandsOf (lines : List Text) : List Text :=
  (lines.map stripped).filter (· ≠ [])

/-- After the lines, the walk from the tail finds the commands from the newest one
on, without repetitions, and the entries lead to each other. -/
def History.Keeps (storage : Storage) (s : History) (past lines : List Text) : Prop :=
  ∃ s', s.processAll storage lines = .ok s' ∧
    ∃ commands, commands = collapse (past ++ commandsOf lines) ∧
      s'.Remembers commands ∧
      walk s'.memory commands.length s'.historyTail = some commands.reverse

/-! ### Collapsed sequences -/

theorem destutter'_snoc (c first : Text) (rest : List Text) :
    (rest ++ [c]).destutter' (· ≠ ·) first =
      rest.destutter' (· ≠ ·) first ++
        if (first :: rest).getLast? = some c then [] else [c] := by
  induction rest generalizing first with
  | nil => by_cases hsame : first = c <;> simp [hsame]
  | cons next rest ih =>
      rw [List.cons_append, List.destutter'_cons, List.destutter'_cons,
        List.getLast?_cons_cons]
      by_cases hsame : first = next
      · subst hsame
        rw [if_neg (not_not.mpr rfl), if_neg (not_not.mpr rfl)]
        exact ih first
      · rw [if_pos hsame, if_pos hsame, ih next, List.cons_append]

theorem collapse_snoc (past : List Text) (c : Text) :
    collapse (past ++ [c]) =
      collapse past ++ if past.getLast? = some c then [] else [c] := by
  cases past with
  | nil => rfl
  | cons first rest => exact destutter'_snoc c first rest

theorem getLast?_collapse (past : List Text) :
    (collapse past).getLast? = past.getLast? := by
  induction past using List.reverseRecOn with
  | nil => rfl
  | append_singleton past c ih =>
      rw [collapse_snoc, List.getLast?_concat]
      split
      · next hlast => rw [List.append_nil, ih, hlast]
      · exact List.getLast?_concat

namespace History

variable {storage : Storage} {s : History} {past : List Text}

theorem remembers_created (memory : Memory) : (created memory).Remembers [] :=
  ⟨[], linked_nil memory, rfl⟩

theorem follow_of {memory : Memory} {p : Pointer} {entry : HistoryEntry}
    (hentry : memory.lookup p = some entry) :
    follow memory (some p) = .ok entry := by
  unfold follow
  rw [deref_some, ok_bind, hentry]

theorem change_of {p : Pointer} {entry : HistoryEntry}
    (hentry : s.memory.lookup p = some entry)
    (f : HistoryEntry → HistoryEntry) :
    s.change p f = .ok { s with memory := s.memory.insert p (f entry) } := by
  unfold change
  rw [follow_of hentry]
  rfl

/-- Behind an entry, the command is added unless it is the one of that entry. -/
theorem Remembers.historyAdd (storage : Storage) {commands : List Text}
    (hremembers : s.Remembers commands) (hsome : commands ≠ []) (str : Text) :
    ∃ s', s.historyAdd storage str = .ok s' ∧
      s'.Remembers
        (commands ++ if commands.getLast? = some str then [] else [str]) := by
  obtain ⟨entries, hlinked, htail⟩ := hremembers
  obtain ⟨front, last, rfl⟩ : ∃ front last, entries = front ++ [last] := by
    rcases List.eq_nil_or_concat' entries with rfl | hentries
    · have hlength := hlinked.length
      rw [List.length_nil] at hlength
      exact absurd (List.length_eq_zero_iff.mp hlength.symm) hsome
    · exact hentries
  rw [List.getLast?_concat] at htail
  have hplace : (front ++ [last])[front.length]? = some last :=
    List.getElem?_concat_length
  obtain ⟨v, hvalue⟩ := hlinked.value hplace
  have hnode := hlinked.node front.length last v hplace hvalue
  have hlastValue : commands.getLast? = some v := by
    rw [List.getLast?_eq_getElem?, ← hlinked.length, List.length_append]
    exact hvalue
  generalize hentry : (⟨v, _, _⟩ : HistoryEntry) = entry at hnode
  have hnew := storage.place_new s.memory
  generalize hplaced : storage.place s.memory = new at hnew
  have hne : last ≠ new := by
    rintro rfl
    exact hnew (hlinked.mem (by simp))
  have hvalue' : entry.value = v := by rw [← hentry]
  unfold History.historyAdd
  rw [htail, follow_of hnode, ok_bind, hvalue']
  by_cases hrepeated : str = v
  · refine ⟨s, if_pos hrepeated, front ++ [last], ?_, ?_⟩
    · rwa [if_pos (by rw [hlastValue, hrepeated]), List.append_nil]
    · rw [htail, List.getLast?_concat]
  · rw [if_neg hrepeated, if_neg (by simpa [hlastValue] using Ne.symm hrepeated)]
    unfold newEntry
    rw [hplaced]
    dsimp only
    rw [htail]
    dsimp only
    have hlast : (s.memory.insert new ⟨str, none, none⟩).lookup last = some entry := by
      rw [Finmap.lookup_insert_of_ne _ hne, hnode]
    rw [change_of hlast, ok_bind]
    have hnew' : ((s.memory.insert new ⟨str, none, none⟩).insert last
        { entry with next := some new }).lookup new = some ⟨str, none, none⟩ := by
      rw [Finmap.lookup_insert_of_ne _ (Ne.symm hne), Finmap.lookup_insert]
    rw [change_of hnew', ok_bind]
    refine ⟨_, rfl, front ++ [last, new], ?_, by simp⟩
    apply hlinked.snoc hnew hnode
    · rw [Finmap.lookup_insert_of_ne _ hne, Finmap.lookup_insert]
    · exact Finmap.lookup_insert _
    · intro p hp hp'
      rw [Finmap.lookup_insert_of_ne _ hp', Finmap.lookup_insert_of_ne _ hp,
        Finmap.lookup_insert_of_ne _ hp']

/-- The tail is looked at before the test whether there is one. -/
theorem historyAdd_first (hnone : s.historyTail = none) (str : Text) :
    s.historyAdd storage str = .error .nullPointer := by
  unfold History.historyAdd
  rw [hnone]
  rfl

theorem processInput_of {line : Text} (hline : line ≠ []) :
    s.processInput storage line =
      if stripped line = [] then .ok s
      else s.historyAdd storage (stripped line) := by
  unfold processInput removeLf
  rw [assert_of hline]
  rfl

theorem commandsOf_cons (line : Text) (lines : List Text) :
    commandsOf (line :: lines) =
      (if stripped line = [] then [] else [stripped line]) ++ commandsOf lines := by
  unfold commandsOf
  by_cases hempty : stripped line = [] <;> simp [hempty]

theorem processAll_blank {lines : List Text} (hlines : ∀ line ∈ lines, line ≠ [])
    (hblank : commandsOf lines = []) : s.processAll storage lines = .ok s := by
  induction lines with
  | nil => rfl
  | cons line lines ih =>
      rw [commandsOf_cons, List.append_eq_nil_iff] at hblank
      have hempty : stripped line = [] := by
        by_contra hcommand
        rw [if_neg hcommand] at hblank
        cases hblank.1
      rw [processAll, processInput_of (hlines line List.mem_cons_self),
        if_pos hempty, ok_bind]
      exact ih (fun line hmem => hlines line (List.mem_cons_of_mem _ hmem)) hblank.2

theorem processAll_first {lines : List Text} (hnone : s.historyTail = none)
    (hlines : ∀ line ∈ lines, line ≠ []) (hcommands : commandsOf lines ≠ []) :
    s.processAll storage lines = .error .nullPointer := by
  induction lines with
  | nil => exact absurd rfl hcommands
  | cons line lines ih =>
      rw [processAll, processInput_of (hlines line List.mem_cons_self)]
      by_cases hempty : stripped line = []
      · rw [commandsOf_cons, if_pos hempty, List.nil_append] at hcommands
        rw [if_pos hempty, ok_bind]
        exact ih (fun line hmem => hlines line (List.mem_cons_of_mem _ hmem))
          hcommands
      · rw [if_neg hempty, historyAdd_first hnone]
        rfl

/-- Once there is a command, every further one is remembered. -/
theorem Remembers.processAll {lines : List Text}
    (hremembers : s.Remembers (collapse past)) (hpast : past ≠ [])
    (hlines : ∀ line ∈ lines, line ≠ []) :
    ∃ s', s.processAll storage lines = .ok s' ∧
      s'.Remembers (collapse (past ++ commandsOf lines)) := by
  induction lines generalizing s past with
  | nil => exact ⟨s, rfl, by rwa [show commandsOf [] = [] from rfl, List.append_nil]⟩
  | cons line lines ih =>
      have hrest := fun line hmem => hlines line (List.mem_cons_of_mem _ hmem)
      rw [History.processAll, processInput_of (hlines line List.mem_cons_self),
        commandsOf_cons]
      by_cases hempty : stripped line = []
      · rw [if_pos hempty, if_pos hempty, ok_bind, List.nil_append]
        exact ih hremembers hpast hrest
      · have hsome : collapse past ≠ [] := by
          unfold collapse
          rwa [ne_eq, List.destutter_eq_nil]
        obtain ⟨s', hadd, hremembers'⟩ :=
          hremembers.historyAdd storage hsome (stripped line)
        rw [getLast?_collapse, ← collapse_snoc] at hremembers'
        rw [if_neg hempty, if_neg hempty, hadd, ok_bind, ← List.append_assoc]
        exact ih hremembers' (by simp) hrest

theorem Remembers.walk {commands : List Text} (hremembers : s.Remembers commands) :
    walk s.memory commands.length s.historyTail = some commands.reverse := by
  obtain ⟨entries, hlinked, htail⟩ := hremembers
  rw [htail, ← before_length, ← hlinked.length,
    hlinked.walk entries.length (Nat.le_refl _), hlinked.length, List.take_length]

/-- The history is the sequence of the commands without repetitions exactly if there
was a command before, or there is none now. -/
theorem keeps_iff {lines : List Text} (hremembers : s.Remembers (collapse past))
    (hlines : ∀ line ∈ lines, line ≠ []) :
    s.Keeps storage past lines ↔ past ≠ [] ∨ commandsOf lines = [] := by
  constructor
  · rintro ⟨s', hrun, -⟩
    rw [or_iff_not_imp_left, not_not]
    rintro rfl
    by_contra hcommands
    obtain ⟨entries, hlinked, htail⟩ := hremembers
    have hentries : entries = [] := List.length_eq_zero_iff.mp hlinked.length
    rw [hentries] at htail
    rw [processAll_first htail hlines hcommands] at hrun
    cases hrun
  · intro hcondition
    obtain ⟨s', hrun, hremembers'⟩ : ∃ s', s.processAll storage lines = .ok s' ∧
        s'.Remembers (collapse (past ++ commandsOf lines)) := by
      by_cases hpast : past = []
      · have hblank := hcondition.resolve_left (not_not.mpr hpast)
        exact ⟨s, processAll_blank hlines hblank, by
          rwa [hblank, List.append_nil]⟩
      · exact hremembers.processAll hpast hlines
    exact ⟨s', hrun, _, rfl, hremembers', hremembers'.walk⟩

/-- The first command of a shell. -/
theorem keeps_not :
    ¬(created ∅).Keeps Storage.above [] ["ls\n".toList.map Char.toUInt8] := by
  rintro ⟨s', hrun, -⟩
  cases hrun

theorem keeps_iff_pair :
    ¬(created ∅).Keeps .above [] [[108, 115, 10]] ∧
      (⟨(∅ : Memory).insert 1 ⟨[108, 115], none, none⟩, some 1⟩ : History).Keeps
        .above [[108, 115]] [[108, 115, 10], [112, 115, 10]] := by
  have hfirst : (created ∅).Remembers (collapse []) := remembers_created ∅
  have hsecond : (⟨(∅ : Memory).insert 1 ⟨[108, 115], none, none⟩, some 1⟩ :
      History).Remembers (collapse [[108, 115]]) :=
    ⟨[1], linked_singleton ∅ 1 [108, 115], rfl⟩
  constructor
  · rw [keeps_iff hfirst (by simp)]
    decide
  · rw [keeps_iff hsecond (by simp)]
    exact .inl (List.cons_ne_nil _ _)

end History

end X86Os32.Shell
