import Mathlib.Logic.Function.Iterate
import X86Os32.User.ShellRead

set_option linter.style.nameCheck false

namespace X86Os32.Shell

open Library Library.DoublyLinked
open OStream (Text)
open CGA (CGAStream)

/-! `Shell::read` is an editor for a line, with the history to choose from. -/

/-- A text with a cursor in it.  Who browses the history sees one of its entries, and
has left a text behind. -/
structure Editor (commands : List Text) where
  text : Text
  cursor : Nat
  browsing : Option (Fin commands.length × Text)
  cursor_le : cursor ≤ text.length

namespace Editor

variable {commands : List Text} (e : Editor commands)

def atEnd (text : Text) (browsing : Option (Fin commands.length × Text)) :
    Editor commands :=
  ⟨text, text.length, browsing, Nat.le_refl _⟩

def insert (c : UInt8) : Editor commands where
  text := e.text.take e.cursor ++ c :: e.text.drop e.cursor
  cursor := e.cursor + 1
  browsing := e.browsing
  cursor_le := by
    have hcursor := e.cursor_le
    rw [List.length_append, List.length_cons, List.length_take, List.length_drop]
    omega

def backspace : Editor commands where
  text := if e.cursor = 0 then e.text else e.text.eraseIdx (e.cursor - 1)
  cursor := e.cursor - 1
  browsing := e.browsing
  cursor_le := by
    have hcursor := e.cursor_le
    split
    · omega
    · rw [List.length_eraseIdx_of_lt (by omega)]
      omega

def left (n : Nat) : Editor commands where
  text := e.text
  cursor := e.cursor - n
  browsing := e.browsing
  cursor_le := Nat.le_trans (Nat.sub_le _ _) e.cursor_le

def right (n : Nat) : Editor commands where
  text := e.text
  cursor := min (e.cursor + n) e.text.length
  browsing := e.browsing
  cursor_le := Nat.min_le_right _ _

def browse (i : Fin commands.length) (saved : Text) : Editor commands :=
  atEnd commands[i] (some (i, saved))

def older : Editor commands :=
  match e.browsing with
  | none =>
      if hsome : 0 < commands.length then
        browse ⟨commands.length - 1, Nat.sub_lt hsome Nat.one_pos⟩ e.text
      else e
  | some (i, saved) =>
      if i.val = 0 then e
      else browse ⟨i - 1, Nat.lt_of_le_of_lt (Nat.sub_le _ _) i.isLt⟩ saved

def newer : Editor commands :=
  match e.browsing with
  | none => e
  | some (i, saved) =>
      if hnext : i + 1 < commands.length then browse ⟨i + 1, hnext⟩ saved
      else atEnd saved none

def stride (k : Key) : Nat := if k.SHIFT ∨ k.ctrl then 10 else 1

def press (k : Key) : Editor commands :=
  if k.scan = Key.up then e.older
  else if k.scan = Key.down then e.newer
  else if k.scan = Key.left then e.left (stride k)
  else if k.scan = Key.right then e.right (stride k)
  else if k.asc = backspaceChar then e.backspace
  else e.insert k.asc

/-- What is edited until enough is entered, or the input is ended by a key.  The
result has the newline at its end if it was the key for it. -/
def read (count : Nat) : List Key → Editor commands → Progress (Editor commands × Text)
  | [], e =>
      if e.text.length < count then .waiting (e, e.text) else .returned (e, e.text)
  | k :: keys, e =>
      if e.text.length < count then
        if k.EndsInput then .returned (e, e.text)
        else if k.asc = '\n'.toUInt8 then .returned (e, e.text ++ ['\n'.toUInt8])
        else read count keys (e.press k)
      else .returned (e, e.text)

def start (commands : List Text) : Editor commands := atEnd [] none

/-! ### Up and down -/

variable {e}

theorem older_iterate (hbrowsing : e.browsing = none) (hsome : 0 < commands.length)
    (n : Nat) :
    older^[n + 1] e =
      browse ⟨commands.length - 1 - n, by omega⟩ e.text := by
  induction n with
  | zero =>
      rw [Function.iterate_one, older, hbrowsing]
      exact dif_pos hsome
  | succ n ih =>
      rw [Function.iterate_succ_apply', ih, older, browse, atEnd]
      dsimp only
      split
      · next hfirst =>
          simp only [browse, atEnd, show commands.length - 1 - (n + 1) =
            commands.length - 1 - n by omega]
      · next hfirst =>
          simp only [browse, atEnd, show commands.length - 1 - (n + 1) =
            commands.length - 1 - n - 1 by omega]

theorem newer_iterate_of_none (hbrowsing : e.browsing = none) (m : Nat) :
    newer^[m] e = e := by
  apply Function.iterate_fixed
  rw [newer, hbrowsing]

theorem newer_iterate {i : Fin commands.length} {saved : Text} {m : Nat}
    (henough : commands.length ≤ i + m) :
    newer^[m] (browse i saved) = (atEnd saved none : Editor commands) := by
  induction m generalizing i with
  | zero => exact absurd i.isLt (by omega)
  | succ m ih =>
      rw [Function.iterate_succ_apply, newer, browse, atEnd]
      dsimp only
      split
      · next hnext => exact ih (by dsimp only; omega)
      · exact newer_iterate_of_none rfl m

/-- Up any number of times and down again below the newest entry. -/
theorem newer_older (hbrowsing : e.browsing = none) {n m : Nat}
    (henough : min n commands.length ≤ m) :
    (newer^[m] (older^[n] e)).text = e.text := by
  by_cases hsome : 0 < commands.length
  · cases n with
    | zero => rw [Function.iterate_zero_apply, newer_iterate_of_none hbrowsing]
    | succ n =>
        rw [older_iterate hbrowsing hsome, newer_iterate (by dsimp only; omega)]
        rfl
  · have hfixed : older^[n] e = e := by
      apply Function.iterate_fixed
      rw [older, hbrowsing]
      exact dif_neg hsome
    rw [hfixed, newer_iterate_of_none hbrowsing]

end Editor

/-! ### The line in the history -/

variable {storage : Storage} {commands : List Text} {entries : List Pointer}
  {memory : Memory} {line : Line} {e : Editor commands} {k : Key}

/-- Who browses the history is at one of its entries, and has an entry of his own for
the text that was left behind. -/
def Line.Browses (entries : List Pointer) (memory : Memory) (line : Line) :
    Option (Fin commands.length × Text) → Prop
  | none => line.cur = none ∧ line.tmp = none ∧ line.history.memory = memory
  | some (i, saved) =>
      line.cur = entries[i.val]? ∧ ∃ p, p ∉ memory ∧ line.tmp = some p ∧
        line.history.memory = memory.insert p ⟨saved, none, none⟩

structure Line.Matches (entries : List Pointer) (memory : Memory) (line : Line)
    (e : Editor commands) : Prop where
  str : line.str = e.text
  cursor : line.cursor = e.cursor
  tail : line.history.historyTail = entries.getLast?
  browses : line.Browses entries memory e.browsing

theorem lookup_insert_entry {p q : Pointer} (node : HistoryEntry)
    (hlinked : Linked memory entries commands) {i : Fin commands.length}
    (hq : entries[i.val]? = some q) (hp : p ∉ memory) :
    q ≠ p ∧ (memory.insert p node).lookup q =
      some ⟨commands[i], before entries i, entries[i.val + 1]?⟩ := by
  have hne : q ≠ p := by
    rintro rfl
    exact hp (hlinked.mem (List.mem_of_getElem? hq))
  refine ⟨hne, ?_⟩
  rw [Finmap.lookup_insert_of_ne _ hne]
  exact hlinked.node i q _ hq (List.getElem?_eq_getElem i.isLt)

theorem entry_of (hlinked : Linked memory entries commands)
    (i : Fin commands.length) : ∃ q, entries[i.val]? = some q :=
  ⟨_, List.getElem?_eq_getElem (by rw [hlinked.length]; exact i.isLt)⟩

theorem erase_insert {p : Pointer} {node : HistoryEntry} (hp : p ∉ memory) :
    (memory.insert p node).erase p = memory := by
  apply Finmap.ext_lookup
  intro q
  by_cases hq : q = p
  · subst hq
    rw [Finmap.lookup_erase, Finmap.lookup_eq_none.mpr hp]
  · rw [Finmap.lookup_erase_ne hq, Finmap.lookup_insert_of_ne _ hq]

theorem Line.Browses.current (hlinked : Linked memory entries commands)
    {i : Fin commands.length} {saved : Text}
    (hbrowses : line.Browses entries memory (some (i, saved))) :
    ∃ p q, line.cur = some q ∧ entries[i.val]? = some q ∧ q ≠ p ∧
      line.history.memory.lookup q =
        some ⟨commands[i], before entries i, entries[i.val + 1]?⟩ ∧
      p ∉ memory ∧ line.tmp = some p ∧
      line.history.memory = memory.insert p ⟨saved, none, none⟩ := by
  obtain ⟨hcur, p, hp, htmp, hmemory⟩ := hbrowses
  obtain ⟨q, hq⟩ := entry_of hlinked i
  obtain ⟨hne, hlookup⟩ := lookup_insert_entry ⟨saved, none, none⟩ hlinked hq hp
  rw [← hmemory] at hlookup
  exact ⟨p, q, hcur.trans hq, hq, hne, hlookup, hp, htmp, hmemory⟩

theorem retrieve_browse (hlinked : Linked memory entries commands)
    {i : Fin commands.length} {saved : Text}
    (hbrowses : line.Browses entries memory (some (i, saved)))
    (htail : line.history.historyTail = entries.getLast?) :
    ∃ line', line.retrieve = .ok line' ∧
      line'.Matches entries memory (Editor.browse i saved) := by
  obtain ⟨p, q, hcur, hq, hne, hlookup, hp, htmp, hmemory⟩ := hbrowses.current hlinked
  unfold Line.retrieve
  rw [hcur]
  dsimp only
  rw [History.follow_of hlookup, ok_bind, htmp, if_neg (by simpa using hne)]
  exact ⟨_, rfl, rfl, rfl, htail, by rw [hq], p, hp, rfl, hmemory⟩

theorem retrieve_saved {p : Pointer} {saved : Text} (hp : p ∉ memory)
    (hcur : line.cur = some p) (htmp : line.tmp = some p)
    (hmemory : line.history.memory = memory.insert p ⟨saved, none, none⟩)
    (htail : line.history.historyTail = entries.getLast?) :
    ∃ line', line.retrieve = .ok line' ∧
      line'.Matches entries memory (Editor.atEnd saved none : Editor commands) := by
  have hlookup : line.history.memory.lookup p = some ⟨saved, none, none⟩ := by
    rw [hmemory, Finmap.lookup_insert]
  unfold Line.retrieve
  rw [hcur]
  dsimp only
  rw [History.follow_of hlookup, ok_bind, htmp, if_pos rfl]
  exact ⟨_, rfl, rfl, rfl, htail, rfl, rfl, by rw [hmemory]; exact erase_insert hp⟩

theorem up_matches (storage : Storage) (hlinked : Linked memory entries commands)
    (hmatches : line.Matches entries memory e) :
    (line.up storage = .ok none ∧ e.older = e) ∨
      ∃ line' line'', line.up storage = .ok (some line') ∧
        line'.retrieve = .ok line'' ∧ line''.Matches entries memory e.older := by
  have hwhole := hmatches
  obtain ⟨hstr, hcursor, htail, hbrowses⟩ := hmatches
  have hlength := hlinked.length
  unfold Line.up Editor.older
  cases hbrowsing : e.browsing with
  | none =>
      rw [hbrowsing] at hbrowses
      obtain ⟨hcur, htmp, hmemory⟩ := hbrowses
      rw [hcur]
      dsimp only
      right
      by_cases hsome : 0 < commands.length
      · obtain ⟨q, hq⟩ := entry_of hlinked
          ⟨commands.length - 1, Nat.sub_lt hsome Nat.one_pos⟩
        have hnewest := htail
        rw [List.getLast?_eq_getElem?, hlength, hq] at hnewest
        rw [hnewest, dif_pos hsome]
        have hplace := storage.place_new line.history.memory
        rw [hmemory] at hplace
        have hselected : Line.Browses entries memory
            ⟨line.str, line.cursor, some q,
              some (line.history.newEntry storage line.str).1,
              (line.history.newEntry storage line.str).2⟩
            (some (⟨commands.length - 1, Nat.sub_lt hsome Nat.one_pos⟩, e.text)) := by
          refine ⟨hq.symm, _, ?_, rfl, ?_⟩
          · rw [History.newEntry, hmemory]
            exact hplace
          · rw [History.newEntry, hmemory, hstr]
        obtain ⟨line'', hretrieve, hmatches⟩ :=
          retrieve_browse hlinked hselected htail
        exact ⟨_, line'', rfl, hretrieve, hmatches⟩
      · have hnone : entries = [] := List.length_eq_zero_iff.mp (by omega)
        have hnewest := htail
        rw [hnone] at hnewest
        rw [hnewest, dif_neg hsome]
        refine ⟨line, line, rfl, ?_, hwhole⟩
        rw [Line.retrieve, hcur]
        rfl
  | some browsing =>
      obtain ⟨i, saved⟩ := browsing
      rw [hbrowsing] at hbrowses
      obtain ⟨p, q, hcur, -, -, hlookup, hp, htmp, hmemory⟩ := hbrowses.current hlinked
      rw [hcur]
      dsimp only
      rw [History.follow_of hlookup, ok_bind]
      by_cases holdest : i.val = 0
      · have hbefore : before entries i.val = none := by
          rw [holdest]
          rfl
        left
        refine ⟨?_, if_pos holdest⟩
        rw [hbefore]
        rfl
      · right
        obtain ⟨j, hj⟩ := Nat.exists_eq_succ_of_ne_zero holdest
        have hlt : j < commands.length := by omega
        obtain ⟨q', hq'⟩ := entry_of hlinked ⟨j, hlt⟩
        have hselected : Line.Browses entries memory { line with cur := some q' }
            (some (⟨j, hlt⟩, saved)) := ⟨hq'.symm, p, hp, htmp, hmemory⟩
        obtain ⟨line'', hretrieve, hmatches⟩ :=
          retrieve_browse hlinked hselected htail
        have hbefore : before entries i.val = some q' := by
          rw [hj, before, hq']
        rw [if_neg holdest]
        refine ⟨{ line with cur := some q' }, line'', ?_, hretrieve, ?_⟩
        · rw [hbefore]
          rfl
        · simpa only [hj, Nat.succ_sub_one] using hmatches

theorem down_matches (hlinked : Linked memory entries commands)
    (hmatches : line.Matches entries memory e) :
    (line.down = .ok none ∧ e.newer = e) ∨
      ∃ line' line'', line.down = .ok (some line') ∧
        line'.retrieve = .ok line'' ∧ line''.Matches entries memory e.newer := by
  obtain ⟨hstr, hcursor, htail, hbrowses⟩ := hmatches
  have hlength := hlinked.length
  unfold Line.down Editor.newer
  cases hbrowsing : e.browsing with
  | none =>
      rw [hbrowsing] at hbrowses
      rw [hbrowses.1]
      exact .inl ⟨rfl, rfl⟩
  | some browsing =>
      obtain ⟨i, saved⟩ := browsing
      rw [hbrowsing] at hbrowses
      obtain ⟨p, q, hcur, -, -, hlookup, hp, htmp, hmemory⟩ := hbrowses.current hlinked
      rw [hcur]
      dsimp only
      rw [History.follow_of hlookup, ok_bind]
      right
      by_cases hnext : i.val + 1 < commands.length
      · obtain ⟨q', hq'⟩ := entry_of hlinked ⟨i.val + 1, hnext⟩
        have hselected : Line.Browses entries memory { line with cur := some q' }
            (some (⟨i.val + 1, hnext⟩, saved)) := ⟨hq'.symm, p, hp, htmp, hmemory⟩
        obtain ⟨line'', hretrieve, hmatches⟩ :=
          retrieve_browse hlinked hselected htail
        rw [dif_pos hnext]
        refine ⟨{ line with cur := some q' }, line'', ?_, hretrieve, hmatches⟩
        rw [show entries[i.val + 1]? = some q' from hq']
        rfl
      · have hsaved : ∃ line'',
            ({ line with cur := some p } : Line).retrieve = .ok line'' ∧
              line''.Matches entries memory
                (Editor.atEnd saved none : Editor commands) :=
          retrieve_saved hp rfl htmp hmemory htail
        obtain ⟨line'', hretrieve, hmatches⟩ := hsaved
        rw [dif_neg hnext]
        refine ⟨{ line with cur := some p }, line'', ?_, hretrieve, hmatches⟩
        rw [List.getElem?_eq_none (by omega), ← htmp]
        rfl

/-! ### One key -/

variable {r : Reading}

theorem round_arrow {e' : Editor commands} (hends : ¬k.EndsInput)
    (hline : k.asc ≠ '\n'.toUInt8) (hhist : k.Hist) (hmute : k.Mute)
    (hmatches : r.line.Matches entries memory e)
    (hselect : (r.line.select storage k = .ok none ∧ e' = e) ∨
      ∃ line line', r.line.select storage k = .ok (some line) ∧
        line.retrieve = .ok line' ∧ line'.Matches entries memory e') :
    ∃ r', r.round storage k = .ok (.waiting r') ∧
      r'.line.Matches entries memory e' := by
  rcases hselect with ⟨hskip, rfl⟩ | ⟨line, line', hselect, hretrieve, hmatches'⟩
  · exact ⟨r, Reading.round_skip hends hline hskip, hmatches⟩
  · rw [Reading.round_hist hends hline hhist (hmute (.inl hhist)) hselect, hretrieve]
    refine ⟨_, rfl, ?_⟩
    rw [Reading.adjust_line, Reading.reprint_line]
    exact hmatches'

theorem edit_of_curs (hcurs : k.Curs) (hmute : k.Mute) : r.edit k = r := by
  unfold Reading.edit
  rw [if_neg (by rw [hmute (.inr hcurs)]; decide),
    if_neg (not_and_of_not_right _ (not_not.mpr hcurs))]

theorem edit_deletes (hback : k.asc = backspaceChar) {c : Nat}
    (hcursor : r.line.cursor = c + 1) (hle : c + 1 ≤ r.line.str.length)
    (hlength : r.line.str.length < 2 ^ 32) :
    r.edit k =
      { r with
        line := { r.line with str := r.line.str.eraseIdx c, cursor := c }
        out := (r.out.backspace (some r.line.str) c).2 } := by
  have hsome : r.line.str ≠ [] := List.ne_nil_of_length_pos (by omega)
  have hstr : (r.out.backspace (some r.line.str) c).1 =
      some (r.line.str.eraseIdx c) := by
    unfold CGAStream.backspace CGA.CGAScreen.backspace
    rw [if_neg (by simpa using hsome)]
    change some (Strings.erase r.line.str c 1) = _
    rw [Strings.erase_eq hlength (.inl (by omega)), List.eraseIdx_eq_take_drop_succ]
  unfold Reading.edit
  rw [if_pos hback, if_pos (by omega), hcursor, Nat.add_sub_cancel]
  dsimp only
  rw [hstr, Option.getD_some]

theorem edit_inserts (hback : k.asc ≠ backspaceChar) (hhist : ¬k.Hist)
    (hcurs : ¬k.Curs) (hle : r.line.cursor ≤ r.line.str.length) :
    r.edit k =
      { r with
        line :=
          { r.line with
            str := r.line.str.take r.line.cursor ++
              k.asc :: r.line.str.drop r.line.cursor
            cursor := r.line.cursor + 1 } } := by
  unfold Reading.edit
  rw [if_neg hback, if_pos ⟨hhist, hcurs⟩, Strings.insert, if_neg (by omega),
    List.append_assoc, List.singleton_append]

theorem edit_nothing (hback : k.asc = backspaceChar) (hcursor : r.line.cursor = 0) :
    r.edit k = r := by
  unfold Reading.edit
  rw [if_pos hback, if_neg (not_not.mpr hcursor)]

theorem edit_backspace (hback : k.asc = backspaceChar)
    (hlength : r.line.str.length < 2 ^ 32)
    (hmatches : r.line.Matches entries memory e) :
    (r.edit k).line.Matches entries memory e.backspace := by
  obtain ⟨hstr, hcursor, htail, hbrowses⟩ := hmatches
  have hle := e.cursor_le
  have htext : e.backspace.text =
      if e.cursor = 0 then e.text else e.text.eraseIdx (e.cursor - 1) := rfl
  have hmoved : e.backspace.cursor = e.cursor - 1 := rfl
  cases hplace : e.cursor with
  | zero =>
      rw [edit_nothing hback (by omega)]
      rw [if_pos hplace] at htext
      exact ⟨hstr.trans htext.symm, by omega, htail, hbrowses⟩
  | succ c =>
      rw [edit_deletes hback (c := c) (by omega) (by rw [hstr]; omega) hlength]
      rw [if_neg (by omega), hplace, Nat.add_sub_cancel] at htext
      refine ⟨?_, ?_, htail, hbrowses⟩
      · rw [htext, ← hstr]
      · rw [hmoved, hplace, Nat.add_sub_cancel]

theorem edit_insert (hback : k.asc ≠ backspaceChar) (hhist : ¬k.Hist)
    (hcurs : ¬k.Curs) (hmatches : r.line.Matches entries memory e) :
    (r.edit k).line.Matches entries memory (e.insert k.asc) := by
  obtain ⟨hstr, hcursor, htail, hbrowses⟩ := hmatches
  have hle := e.cursor_le
  rw [edit_inserts hback hhist hcurs (by rw [hstr, hcursor]; exact hle)]
  refine ⟨?_, ?_, htail, hbrowses⟩
  · dsimp only
    rw [hstr, hcursor]
    rfl
  · dsimp only
    rw [hcursor]
    rfl

theorem left_matches (hmatches : line.Matches entries memory e) (k : Key) :
    ((line.left k).getD line).Matches entries memory (e.left (Editor.stride k)) := by
  obtain ⟨hstr, hcursor, htail, hbrowses⟩ := hmatches
  have hmoved : (e.left (Editor.stride k)).cursor = e.cursor - Editor.stride k := rfl
  unfold Line.left Editor.stride at *
  split_ifs at hmoved ⊢ with hfirst hfast hnear
  all_goals
    refine ⟨hstr, ?_, htail, hbrowses⟩
    dsimp only [Option.getD_some, Option.getD_none]
    omega

theorem right_matches (hmatches : line.Matches entries memory e) (k : Key) :
    ((line.right k).getD line).Matches entries memory
      (e.right (Editor.stride k)) := by
  obtain ⟨hstr, hcursor, htail, hbrowses⟩ := hmatches
  have hmoved : (e.right (Editor.stride k)).cursor =
      min (e.cursor + Editor.stride k) e.text.length := rfl
  have hle := e.cursor_le
  have hlength : line.str.length = e.text.length := by rw [hstr]
  unfold Line.right Editor.stride at *
  split_ifs at hmoved ⊢ with hlast hfast hfar
  all_goals
    refine ⟨hstr, ?_, htail, hbrowses⟩
    dsimp only [Option.getD_some, Option.getD_none]
    omega

theorem round_curs {moved : Option Line} (hends : ¬k.EndsInput)
    (hline : k.asc ≠ '\n'.toUInt8) (hhist : ¬k.Hist) (hcurs : k.Curs)
    (hmute : k.Mute) (hselect : r.line.select storage k = .ok moved)
    (hmatches : (moved.getD r.line).Matches entries memory e) :
    ∃ r', r.round storage k = .ok (.waiting r') ∧
      r'.line.Matches entries memory e := by
  cases moved with
  | none => exact ⟨r, Reading.round_skip hends hline hselect, hmatches⟩
  | some line =>
      refine ⟨_, Reading.round_edit hends hline hhist hselect, ?_⟩
      rw [Reading.reprint_line, Reading.clear_line, edit_of_curs hcurs hmute]
      exact hmatches

/-- The line follows the editor in each round. -/
theorem round_matches (storage : Storage) (hlinked : Linked memory entries commands)
    (hends : ¬k.EndsInput) (hline : k.asc ≠ '\n'.toUInt8) (hmute : k.Mute)
    (hlength : r.line.str.length < 2 ^ 32)
    (hmatches : r.line.Matches entries memory e) :
    ∃ r', r.round storage k = .ok (.waiting r') ∧
      r'.line.Matches entries memory (e.press k) := by
  unfold Editor.press
  by_cases hup : k.scan = Key.up
  · rw [if_pos hup]
    apply round_arrow hends hline (.inl hup) hmute hmatches
    rw [Line.select, if_pos hup]
    exact up_matches storage hlinked hmatches
  by_cases hdown : k.scan = Key.down
  · rw [if_neg hup, if_pos hdown]
    apply round_arrow hends hline (.inr hdown) hmute hmatches
    rw [Line.select, if_neg hup, if_pos hdown]
    exact down_matches hlinked hmatches
  have hhist : ¬k.Hist := not_or.mpr ⟨hup, hdown⟩
  rw [if_neg hup, if_neg hdown]
  have hselect : r.line.select storage k =
      if k.scan = Key.left then .ok (r.line.left k)
      else if k.scan = Key.right then .ok (r.line.right k)
      else .ok (some r.line) := by
    rw [Line.select, if_neg hup, if_neg hdown]
    rfl
  by_cases hleft : k.scan = Key.left
  · rw [if_pos hleft] at hselect ⊢
    exact round_curs hends hline hhist (.inl hleft) hmute hselect
      (left_matches hmatches k)
  rw [if_neg hleft] at hselect ⊢
  by_cases hright : k.scan = Key.right
  · rw [if_pos hright] at hselect ⊢
    exact round_curs hends hline hhist (.inr hright) hmute hselect
      (right_matches hmatches k)
  rw [if_neg hright] at hselect ⊢
  refine ⟨_, Reading.round_edit hends hline hhist hselect, ?_⟩
  rw [Reading.reprint_line, Reading.clear_line]
  by_cases hback : k.asc = backspaceChar
  · rw [if_pos hback]
    exact edit_backspace hback hlength hmatches
  · rw [if_neg hback]
    exact edit_insert hback hhist (not_or.mpr ⟨hleft, hright⟩) hmatches

/-! ### The whole input -/

/-- The text is what the editor has made of it, with the cursor in it, and the
history is as it was. -/
def Progress.Edits (history : History) (commands : List Text) :
    Progress Reading → Progress (Editor commands × Text) → Prop
  | .waiting r, .waiting (e, text) =>
      r.line.str = text ∧ r.line.cursor = e.cursor ∧
        r.line.cursor ≤ r.line.str.length ∧ r.line.history.Remembers commands
  | .returned r, .returned (_, text) =>
      r.line.str = text ∧ r.line.history = history
  | _, _ => False

/-- The entry for the text that was left behind is gone in the end. -/
theorem finish_history {browsing : Option (Fin commands.length × Text)}
    (htail : r.line.history.historyTail = entries.getLast?)
    (hbrowses : r.line.Browses entries memory browsing) :
    r.finish.line.history = ⟨memory, entries.getLast?⟩ := by
  unfold Reading.finish
  dsimp only
  cases browsing with
  | none =>
      obtain ⟨-, htmp, hmemory⟩ := hbrowses
      rw [htmp, ← htail, ← hmemory]
  | some browsing =>
      obtain ⟨-, p, hp, htmp, hmemory⟩ := hbrowses
      rw [htmp, ← htail]
      dsimp only
      rw [hmemory, erase_insert hp]

theorem Line.Matches.remembers (hlinked : Linked memory entries commands)
    (hmatches : line.Matches entries memory e) :
    line.history.Remembers commands := by
  obtain ⟨hstr, hcursor, htail, hbrowses⟩ := hmatches
  refine ⟨entries, ?_, htail⟩
  cases hbrowsing : e.browsing with
  | none =>
      rw [hbrowsing] at hbrowses
      rw [hbrowses.2.2]
      exact hlinked
  | some browsing =>
      rw [hbrowsing] at hbrowses
      obtain ⟨-, p, hp, -, hmemory⟩ := hbrowses
      rw [hmemory]
      exact hlinked.insert (fun hmem => hp (hlinked.mem hmem)) _

theorem readFrom_edits (storage : Storage) (hlinked : Linked memory entries commands)
    {count : Nat} (hcount : count < 2 ^ 32) {keys : List Key}
    (hkeys : ∀ k ∈ keys, k.Delivered)
    (hmatches : r.line.Matches entries memory e) :
    ∃ progress, Reading.readFrom storage count keys r = .ok progress ∧
      progress.Edits ⟨memory, entries.getLast?⟩ commands (e.read count keys) := by
  have hfinished : Progress.Edits ⟨memory, entries.getLast?⟩ commands
      (.returned r.finish) (.returned (e, e.text)) :=
    ⟨hmatches.str, finish_history hmatches.tail hmatches.browses⟩
  induction keys generalizing r e with
  | nil =>
      refine ⟨_, rfl, ?_⟩
      rw [Editor.read, hmatches.str]
      split
      · have hcursor := hmatches.cursor
        have hle := e.cursor_le
        refine ⟨hmatches.str, hcursor, ?_, hmatches.remembers hlinked⟩
        rw [hmatches.str, hcursor]
        exact hle
      · exact hfinished
  | cons k keys ih =>
      have hk := (hkeys k List.mem_cons_self).mute
      unfold Reading.readFrom Editor.read
      rw [hmatches.str]
      by_cases hmore : e.text.length < count
      · rw [if_pos hmore, if_pos hmore]
        by_cases hends : k.EndsInput
        · rw [Reading.round, if_pos hends, if_pos hends]
          exact ⟨_, rfl, hfinished⟩
        rw [if_neg hends]
        by_cases hline : k.asc = '\n'.toUInt8
        · rw [Reading.round, if_neg hends, if_pos hline, if_pos hline]
          refine ⟨_, rfl, ?_, finish_history hmatches.tail hmatches.browses⟩
          change r.line.str ++ ['\n'.toUInt8] = _
          rw [hmatches.str]
        rw [if_neg hline]
        obtain ⟨r', hround, hmatches'⟩ := round_matches storage hlinked hends hline hk
          (by rw [hmatches.str]; omega) hmatches
        rw [hround, ok_bind]
        exact ih (fun k hmem => hkeys k (List.mem_cons_of_mem _ hmem)) hmatches'
          ⟨hmatches'.str, finish_history hmatches'.tail hmatches'.browses⟩
      · rw [if_neg hmore, if_neg hmore]
        exact ⟨_, rfl, hfinished⟩

/-- Whatever keys are pressed, the line is what the editor makes of it, and who comes
back from the history finds the text as it was. -/
theorem read_edits {history : History} {commands : List Text}
    (hremembers : history.Remembers commands) {keys : List Key}
    (hkeys : ∀ k ∈ keys, k.Delivered) (storage : Storage) (out : CGAStream)
    (count : UInt32) :
    (∃ progress, read storage history out count.toNat keys = .ok progress ∧
      progress.Edits history commands
        ((Editor.start commands).read count.toNat keys)) ∧
    ∀ (e : Editor commands) n m, e.browsing = none → min n commands.length ≤ m →
      (Editor.newer^[m] (Editor.older^[n] e)).text = e.text := by
  refine ⟨?_, fun e n m hbrowsing henough => Editor.newer_older hbrowsing henough⟩
  obtain ⟨entries, hlinked, htail⟩ := hremembers
  obtain ⟨memory, historyTail⟩ := history
  subst htail
  have hstart : (Reading.start ⟨memory, entries.getLast?⟩ out).line.Matches entries
      memory (Editor.start commands) := ⟨rfl, rfl, rfl, rfl, rfl, rfl⟩
  exact readFrom_edits storage hlinked count.toNat_lt hkeys hstart

/-- Up and down between a character and the newline. -/
theorem read_edits_recalled :
    let history : History := ⟨(∅ : Memory).insert 1 ⟨[108, 115], none, none⟩, some 1⟩
    let out : CGAStream :=
      ⟨⟨fun _ => 0, 0⟩,
        ⟨.construct 0 79 0 24 false, fun _ => ⟨⟨32, 7⟩, 0⟩, fun _ => 0⟩, 7⟩
    let keys : List Key := [⟨97, 30, 0⟩, ⟨0, 72, 0⟩, ⟨0, 80, 0⟩, ⟨10, 28, 0⟩]
    let edited := (Editor.start [[108, 115]]).read (512 : UInt32).toNat keys
    edited = .returned (.atEnd [97] none, [97, 10]) ∧
      ∃ progress, read .above history out (512 : UInt32).toNat keys = .ok progress ∧
        progress.Edits history [[108, 115]] edited := by
  intro history out keys edited
  have hremembers : history.Remembers [[108, 115]] :=
    ⟨[1], linked_singleton ∅ 1 [108, 115], rfl⟩
  have hkeys : ∀ k ∈ keys, k.Delivered := by
    have hdecoded : ∀ k ∈ keys, k = (KeyDecoder.decode
        ⟨fun _ => 0, fun _ => 0, fun _ => 0⟩
        ⟨0, ⟨0, 0, 0⟩, fun _ => false⟩ k.scan).gather := by decide
    exact fun k hk => .inr ⟨_, _, _, hdecoded k hk⟩
  exact ⟨rfl, (read_edits hremembers hkeys .above out 512).1⟩

end X86Os32.Shell
