import X86Os32.Library.Results
import X86Os32.Library.Runs
import X86Os32.User.ShellScreen

set_option linter.style.nameCheck false

namespace X86Os32.Shell

open Library Library.DoublyLinked Library.Results
open OStream (Text)
open CGA (CGAStream Window)

/-! What `Shell::read` shows of its text, key after key. -/

namespace Line

variable (line : Line) (k : Key)

def entryText (entry : Pointer) : Option Text :=
  (line.history.memory.lookup entry).map (·.value)

/-- The entry that an arrow key up or down leads to, if there is one, unless the key
is skipped.  A backspace in front of the text leads to none. -/
def target : Option (Option Pointer) :=
  if k.scan = Key.up then
    match line.cur with
    | none => some line.history.historyTail
    | some cur =>
        (line.history.memory.lookup cur).bind fun entry => entry.prev.map some
  else if k.scan = Key.down then
    line.cur.bind fun cur =>
      (line.history.memory.lookup cur).map fun entry => entry.next.or line.tmp
  else if k.asc = backspaceChar ∧ line.cursor = 0 then some none
  else none

/-- The text that such a key prints: the one of the entry, or the same again. -/
def replacement : Option Text :=
  (line.target k).bind fun
    | none => some line.str
    | some entry => line.entryText entry

end Line

namespace Reading

variable (w : Window) (r : Reading) (k : Key)

/-- `read` reckons with as many rows as leave the window, or nothing is left above
the text that could be lost. -/
structure Reckons : Prop where
  replaced : ∀ text, r.line.replacement k = some text →
    (r.endRow w text.length ≤ w.toRow ∨
      r.endRow w r.line.str.length = w.toRow) ∧
    (r.endRow w (r.line.str.length + 1) ≤ w.toRow ∨
      r.xStart = 0 ∧
        r.yStart - max 0 (r.endRow w text.length - w.toRow) = w.fromRow)
  inserted : ¬k.Hist → ¬k.Curs → k.asc ≠ backspaceChar → w.width = 1 →
    r.endRow w (r.line.str.length + 1) ≤ w.toRow ∨ r.yStart = w.fromRow + 1

end Reading

/-! ### What is printed -/

namespace Line

variable {storage : Storage} {line selected recalled : Line} {k : Key}

theorem lookup_of_follow {memory : Memory} {p : Pointer} {entry : HistoryEntry}
    (hfollow : follow memory (some p) = .ok entry) :
    memory.lookup p = some entry := by
  unfold follow at hfollow
  rw [deref_some, ok_bind] at hfollow
  split at hfollow
  · cases hfollow
  · next hlookup =>
      cases hfollow
      exact hlookup

theorem retrieve_text (hretrieve : selected.retrieve = .ok recalled) :
    (selected.cur = none ∧ recalled = selected) ∨
      ∃ cur, selected.cur = some cur ∧ selected.entryText cur = some recalled.str ∧
        recalled.cursor = recalled.str.length := by
  unfold retrieve at hretrieve
  cases hcur : selected.cur with
  | none =>
      rw [hcur] at hretrieve
      cases hretrieve
      exact .inl ⟨rfl, rfl⟩
  | some cur =>
      rw [hcur] at hretrieve
      obtain ⟨entry, hfollow, hretrieve⟩ := bind_eq_ok.mp hretrieve
      have hentry := lookup_of_follow hfollow
      refine .inr ⟨cur, rfl, ?_⟩
      unfold entryText
      rw [hentry]
      dsimp only at hretrieve
      split at hretrieve <;> cases hretrieve <;> exact ⟨rfl, rfl⟩

structure Replaced (line : Line) (k : Key) (selected recalled : Line) : Prop where
  replacement : line.replacement k = some recalled.str
  str : selected.str = line.str
  cursor : selected.cursor = line.cursor
  place : recalled.cursor = recalled.str.length ∨
    recalled.str = line.str ∧ recalled.cursor = line.cursor

theorem replaced_of_target (htarget : line.target k = some selected.cur)
    (hstr : selected.str = line.str) (hcursor : selected.cursor = line.cursor)
    (hentry : ∀ cur, selected.cur = some cur →
      selected.entryText cur = line.entryText cur)
    (hretrieve : selected.retrieve = .ok recalled) :
    line.Replaced k selected recalled := by
  obtain ⟨hcur, rfl⟩ | ⟨cur, hcur, htext, hplace⟩ := retrieve_text hretrieve
  · refine ⟨?_, hstr, hcursor, .inr ⟨hstr, hcursor⟩⟩
    rw [replacement, htarget, hcur, hstr]
    rfl
  · refine ⟨?_, hstr, hcursor, .inl hplace⟩
    rw [replacement, htarget, hcur, ← htext, hentry cur hcur]
    rfl

theorem up_replaced (htail : ∀ tail, line.history.historyTail = some tail →
      tail ∈ line.history.memory)
    (hkey : k.scan = Key.up) (hselect : line.up storage = .ok (some selected))
    (hretrieve : selected.retrieve = .ok recalled) :
    line.Replaced k selected recalled := by
  have htarget : line.target k = match line.cur with
      | none => some line.history.historyTail
      | some cur => (line.history.memory.lookup cur).bind fun entry =>
          entry.prev.map some := if_pos hkey
  unfold up at hselect
  cases hcur : line.cur with
  | none =>
      rw [hcur] at hselect htarget
      cases hnewest : line.history.historyTail with
      | none =>
          rw [hnewest] at hselect htarget
          cases hselect
          exact replaced_of_target (htarget.trans (congrArg some hcur.symm)) rfl rfl
            (fun _ _ => rfl) hretrieve
      | some tail =>
          rw [hnewest] at hselect htarget
          cases hselect
          refine replaced_of_target htarget rfl rfl ?_ hretrieve
          intro cur hsame
          cases hsame
          -- the text that is backed up is put in another place
          have hne : tail ≠ storage.place line.history.memory := by
            rintro rfl
            exact storage.place_new _ (htail _ hnewest)
          exact congrArg (Option.map (·.value))
            (Finmap.lookup_insert_of_ne line.history.memory hne)
  | some cur =>
      rw [hcur] at hselect htarget
      obtain ⟨entry, hfollow, hselect⟩ := bind_eq_ok.mp hselect
      dsimp only at htarget
      rw [lookup_of_follow hfollow, Option.bind_some] at htarget
      cases hprev : entry.prev with
      | none =>
          rw [hprev] at hselect
          cases hselect
      | some prev =>
          rw [hprev] at hselect htarget
          cases hselect
          exact replaced_of_target htarget rfl rfl (fun _ _ => rfl) hretrieve

theorem down_replaced (hkey : k.scan = Key.down)
    (hselect : line.down = .ok (some selected))
    (hretrieve : selected.retrieve = .ok recalled) :
    line.Replaced k selected recalled := by
  have hup : k.scan ≠ Key.up := by
    rw [hkey]
    decide
  unfold down at hselect
  cases hcur : line.cur with
  | none =>
      rw [hcur] at hselect
      cases hselect
  | some cur =>
      rw [hcur] at hselect
      obtain ⟨entry, hfollow, hselect⟩ := bind_eq_ok.mp hselect
      have htarget : line.target k = some (entry.next.or line.tmp) := by
        rw [target, if_neg hup, if_pos hkey, hcur, Option.bind_some,
          lookup_of_follow hfollow, Option.map_some]
      obtain rfl : selected = { line with cur := entry.next.or line.tmp } := by
        cases hnext : entry.next <;> rw [hnext] at hselect <;> cases hselect <;> rfl
      exact replaced_of_target htarget rfl rfl (fun _ _ => rfl) hretrieve

theorem moved (hcurs : k.Curs) (hle : line.cursor ≤ line.str.length)
    (hselect : (if k.scan = Key.left then return line.left k
      else if k.scan = Key.right then return line.right k
      else return some line : Except Stop (Option Line)) = .ok (some selected)) :
    selected.str = line.str ∧ selected.cursor ≤ selected.str.length ∧
      line.str ≠ [] := by
  have hsome (hlength : 0 < line.str.length) : line.str ≠ [] :=
    List.ne_nil_of_length_pos hlength
  by_cases hleft : k.scan = Key.left
  · rw [if_pos hleft] at hselect
    unfold left at hselect
    split_ifs at hselect with hfirst
    · cases hselect
    all_goals
      cases hselect
      refine ⟨rfl, ?_, hsome (by omega)⟩
      dsimp only
      omega
  · rw [if_neg hleft, if_pos (hcurs.resolve_left hleft)] at hselect
    unfold right at hselect
    split_ifs at hselect with hlast
    · cases hselect
    all_goals
      cases hselect
      refine ⟨rfl, ?_, hsome (by omega)⟩
      dsimp only
      omega

end Line

namespace Reading

variable {storage : Storage} {w : Window} {useCursor : Bool} {first moved : Nat}
  {cells : Nat → UInt8} {start r r' : Reading} {k : Key}

theorem Shown.with_line (hshown : Shown w useCursor start first moved cells r)
    {line : Line} (hstr : line.str = r.line.str)
    (hcursor : line.cursor = r.line.cursor) :
    Shown w useCursor start first moved cells { r with line := line } := by
  obtain ⟨hplaced, hstart, hinside, hle, hbreaks, hfits, hholds, hframe, htext⟩ :=
    hshown
  rw [← hstr] at hbreaks hfits hframe htext
  rw [← hstr, ← hcursor] at hle
  rw [← hcursor] at hholds
  exact ⟨hplaced.of_holds rfl rfl hholds, hstart, hinside, hle, hbreaks, hfits, hholds,
    hframe, htext⟩

theorem Shown.not_scrollup (hshown : Shown w useCursor start first moved cells r) :
    ¬r.Scrollup := by
  have hfits := hshown.fits
  have hlength := hshown.length_le
  rw [hshown.placed.scrollup_iff (by omega)]
  omega

theorem clear_xStart (r : Reading) (k : Key) : (r.clear k).xStart = r.xStart := by
  unfold clear
  dsimp only
  split_ifs <;> rfl

theorem adjust_xStart (r : Reading) (n : Nat) :
    (r.adjust n).xStart = r.xStart := by
  unfold adjust
  dsimp only
  split_ifs <;> rfl

theorem Shown.hist (hshown : Shown w useCursor start first moved cells r)
    {selected recalled : Line} (hhist : k.Hist)
    (hreplaced : r.line.Replaced k selected recalled) (hreckons : r.Reckons w k)
    (hr' : r' = (({ ({ r with line := selected } : Reading).clear k with
      line := recalled } : Reading).reprint.adjust
        ({ r with line := selected } : Reading).numRows))
    (hfits' : r'.Fits w) :
    ∃ first' moved' cells', Shown w useCursor start first' moved' cells' r' := by
  obtain ⟨hreplacement, hstr, hcursor, hplace⟩ := hreplaced
  obtain ⟨hends, hrows⟩ := hreckons.replaced _ hreplacement
  have hle := hshown.cursor_le
  have hselected := hshown.with_line hstr hcursor
  have hfits : ({ r with line := recalled } : Reading).Fits w := by
    unfold Fits at hfits' ⊢
    rw [hr', adjust_line, reprint_line, adjust_xStart] at hfits'
    change _ ∧
      (({ r with line := selected } : Reading).clear k).xStart + _ < _ at hfits'
    rwa [clear_xStart] at hfits'
  rw [← hstr] at hends hrows
  rw [hr', clear_erase (.inl hhist) hselected.not_scrollup]
  refine hselected.replaced hfits ?_ hends hrows
  rcases hplace with hend | ⟨hsame, hsame'⟩
  · exact .inl hend
  · right
    dsimp only
    rw [hsame, hsame', hstr]
    exact ⟨hle, Nat.le_refl _⟩

theorem not_ended (hround : r.round storage k = .ok (.waiting r')) :
    ¬k.EndsInput ∧ k.asc ≠ '\n'.toUInt8 := by
  have hends : ¬k.EndsInput := by
    intro hends
    rw [Reading.round, if_pos hends] at hround
    cases hround
  refine ⟨hends, fun hline => ?_⟩
  rw [Reading.round, if_neg hends, if_pos hline] at hround
  cases hround

theorem Shown.round (hshown : Shown w useCursor start first moved cells r)
    (htail : ∀ tail, r.line.history.historyTail = some tail →
      tail ∈ r.line.history.memory)
    (hmute : k.Mute) (hreckons : r.Reckons w k)
    (hround : r.round storage k = .ok (.waiting r')) (hfits' : r'.Fits w) :
    ∃ first' moved' cells', Shown w useCursor start first' moved' cells' r' := by
  have hle := hshown.cursor_le
  obtain ⟨hends, hline⟩ := not_ended hround
  obtain ⟨chosen, hselect⟩ : ∃ chosen, r.line.select storage k = .ok chosen := by
    cases hselect : r.line.select storage k with
    | error stop =>
        rw [Reading.round, if_neg hends, if_neg hline, hselect] at hround
        cases hround
    | ok chosen => exact ⟨chosen, rfl⟩
  cases chosen with
  | none =>
      rw [round_skip hends hline hselect] at hround
      cases hround
      exact ⟨first, moved, cells, hshown⟩
  | some selected =>
      by_cases hhist : k.Hist
      · rw [round_hist hends hline hhist (hmute (.inl hhist)) hselect] at hround
        obtain ⟨recalled, hretrieve, hround⟩ := bind_eq_ok.mp hround
        cases hround
        have hreplaced : r.line.Replaced k selected recalled := by
          unfold Line.select at hselect
          by_cases hup : k.scan = Key.up
          · rw [if_pos hup] at hselect
            exact Line.up_replaced htail hup hselect hretrieve
          · have hdown := hhist.resolve_left hup
            rw [if_neg hup, if_pos hdown] at hselect
            exact Line.down_replaced hdown hselect hretrieve
        exact hshown.hist hhist hreplaced hreckons rfl hfits'
      rw [round_edit hends hline hhist hselect] at hround
      cases hround
      obtain ⟨hup, hdown⟩ := not_or.mp hhist
      rw [Line.select, if_neg hup, if_neg hdown] at hselect
      by_cases hcurs : k.Curs
      · have hback : k.asc ≠ backspaceChar := by
          rw [hmute (.inr hcurs)]
          decide
        obtain ⟨hstr, hcursor, hsome⟩ := Line.moved hcurs hle hselect
        rw [edit_of_curs hcurs hmute]
        obtain ⟨cells', hshown'⟩ := hshown.curs hstr hcursor hsome hhist hback
        exact ⟨first, moved, cells', hshown'⟩
      obtain ⟨hleft, hright⟩ := not_or.mp hcurs
      rw [if_neg hleft, if_neg hright] at hselect
      cases hselect
      by_cases hback : k.asc = backspaceChar
      · cases hplace : r.line.cursor with
        | zero =>
            have hreplacement : r.line.replacement k = some r.line.str := by
              rw [Line.replacement, Line.target, if_neg hup, if_neg hdown,
                if_pos ⟨hback, hplace⟩]
              rfl
            obtain ⟨-, hrows⟩ := hreckons.replaced _ hreplacement
            obtain ⟨cells', hshown', -⟩ := hshown.replaced_within hshown.breaks
              hshown.fits hle (hshown.first_zero hshown.fits hrows)
            rw [edit_nothing hback hplace,
              clear_erase (.inr hback) hshown.not_scrollup]
            exact ⟨first, moved, cells', hshown'⟩
        | succ c =>
            obtain ⟨cells', hshown'⟩ := hshown.deleted hplace hback
            exact ⟨first, moved, cells', hshown'⟩
      · refine hshown.inserted hhist hcurs hback
          (hreckons.inserted hhist hcurs hback) ?_
        unfold Fits at hfits' ⊢
        rw [reprint_line, clear_line] at hfits'
        change _ ∧ ((r.edit k).clear k).xStart + _ < _ at hfits'
        rwa [clear_xStart] at hfits'

theorem shown_start (hleft : w.fromCol = 0) {history : History} {out : CGAStream}
    {curX curY : Int} (hscreen : out.display.screen = w.screen useCursor curX curY)
    (hflushed : out.pos = 0) (hprompt : w.Inside out.getpos.1 out.getpos.2) :
    ∃ first, Shown w useCursor (Reading.start history out) first 0
      (w.glyph out.display.cells) (Reading.start history out) := by
  have hx : (Reading.start history out).xStart = out.getpos.1 := rfl
  have hy : (Reading.start history out).yStart = out.getpos.2 := rfl
  generalize hgetpos : out.getpos = position at hprompt hx hy
  obtain ⟨x, y⟩ := position
  have hbounds := hprompt
  unfold Window.Inside at hbounds
  dsimp only at hbounds hx hy
  obtain ⟨c, hc⟩ := Int.eq_ofNat_of_zero_le (show 0 ≤ x by omega)
  obtain ⟨row, hrow⟩ := Int.eq_ofNat_of_zero_le (show 0 ≤ y - w.fromRow by omega)
  have hwidth := w.width_eq
  have hheight := w.height_eq
  have hsize : w.width * (row + 1) ≤ w.size :=
    Nat.mul_le_mul_left _ (show row + 1 ≤ w.height by omega)
  rw [Nat.mul_succ] at hsize
  obtain ⟨hcolumn, hrow'⟩ := Window.column_row (w := w) (c := c)
    (p := w.width * row + c) (by omega) rfl
  have hinside : w.width * row + c < w.size := by omega
  have hplaced : (Reading.start history out).Placed w useCursor (w.width * row + c) :=
    ⟨hleft, ⟨curX, curY, hscreen⟩, by rw [hx, hcolumn]; omega,
      by rw [hy, hrow']; omega, hinside⟩
  have hfirst := hplaced.first_eq
  refine ⟨w.width * row + c, hplaced, ?_, by rw [hfirst]; exact hinside,
    Nat.le_refl _, List.not_mem_nil, hinside, ⟨hflushed, ?_⟩, ?_, ?_⟩
  · rw [hfirst, Nat.zero_mul, Nat.add_zero]
  · exact ⟨curX, curY, x, y, hscreen, hgetpos, hx.symm.trans hplaced.xStart,
      hy.symm.trans hplaced.yStart, hinside, fun _ _ => rfl, fun _ _ => rfl⟩
  · refine ⟨fun p hp _ => ?_, fun p hp _ => .inr ?_⟩
    all_goals
      rw [Roll.up_zero _ hp]
      rfl
  · intro i c hi
    cases hi

def Kept (w : Window) (useCursor : Bool) (start : Reading) (entries : List Pointer)
    (memory : Memory) (commands : List Text) (r : Reading) : Prop :=
  (∃ first moved cells, Shown w useCursor start first moved cells r) ∧
    ∃ e : Editor commands, r.line.Matches entries memory e

/-- In every run whose rounds reckon with as many rows as leave the window, the text
is displayed as it is after each key. -/
theorem displays_of_reckons {w : Window} (hleft : w.fromCol = 0) {history : History}
    {commands : List Text} (hremembers : history.Remembers commands)
    (storage : Storage) {out : CGAStream} {useCursor : Bool} {curX curY : Int}
    (hscreen : out.display.screen = w.screen useCursor curX curY)
    (hflushed : out.pos = 0) (hprompt : w.Inside out.getpos.1 out.getpos.2)
    {r : Reading}
    (hreach : Runs.Reachable (· = Reading.start history out)
      (fun r k r' => k.Delivered ∧ r.Reckons w k ∧
        r.round storage k = .ok (.waiting r') ∧ r'.Fits w) r) :
    (Reading.start history out).Displays w r := by
  obtain ⟨entries, hlinked, hnewest⟩ := hremembers
  obtain ⟨memory, historyTail⟩ := history
  subst hnewest
  suffices hkept : Kept w useCursor (Reading.start ⟨memory, entries.getLast?⟩ out)
      entries memory commands r by
    obtain ⟨⟨first, moved, cells, hshown⟩, -⟩ := hkept
    exact hshown.displays
  refine hreach.invariant ?_ ?_
  · rintro r rfl
    obtain ⟨first, hshown⟩ := shown_start hleft hscreen hflushed hprompt
    exact ⟨⟨first, 0, _, hshown⟩, Editor.start commands, rfl, rfl, rfl, rfl, rfl, rfl⟩
  · rintro r k r' ⟨⟨first, moved, cells, hshown⟩, e, hmatches⟩
      ⟨hdelivered, hreckons, hround, hfits'⟩
    obtain ⟨hends, hline⟩ := not_ended hround
    have hlength := hshown.length_le
    have htail : ∀ tail, r.line.history.historyTail = some tail →
        tail ∈ r.line.history.memory := by
      intro tail hsome
      obtain ⟨entries', hlinked', hnewest'⟩ := hmatches.remembers hlinked
      rw [hsome] at hnewest'
      exact hlinked'.mem (List.mem_of_getLast? hnewest'.symm)
    obtain ⟨r'', hround', hmatches'⟩ := round_matches storage hlinked hends hline
      hdelivered.mute (by omega) hmatches
    rw [hround] at hround'
    cases hround'
    exact ⟨hshown.round htail hdelivered.mute hreckons hround hfits', _, hmatches'⟩

/-! A prompt that ends in the last column of a window, one row above the last. -/

def prompted : CGAStream :=
  ⟨⟨fun _ => 0, 0⟩,
    ⟨Window.doutCPU0.screen false 39 18, fun _ => ⟨⟨35, 7⟩, 0⟩, fun _ => 0⟩, 7⟩

def remembered (command : Text) : History :=
  ⟨(∅ : Memory).insert 1 ⟨command, none, none⟩, some 1⟩

theorem delivered_up : Key.Delivered ⟨0, Key.up, 0⟩ := by
  refine .inr ⟨⟨fun _ => 0, fun _ => 0, fun _ => 0⟩, ⟨0, ⟨0, 0, 0⟩, fun _ => false⟩,
    Key.up, ?_⟩
  decide

theorem inside_prompted :
    Window.doutCPU0.Inside prompted.getpos.1 prompted.getpos.2 := by
  constructor <;> decide

theorem round_remembered (command : Text) :
    let start := Reading.start (remembered command) prompted
    let (tmp, history) := (remembered command).newEntry .above []
    let selected : Reading :=
      { start with line := ⟨[], 0, some 1, some tmp, history⟩ }
    start.round .above ⟨0, Key.up, 0⟩ = .ok (.waiting
      (({ selected.clear ⟨0, Key.up, 0⟩ with line :=
        ⟨command, command.length, some 1, some tmp, history⟩ } :
          Reading).reprint.adjust selected.numRows)) := by
  intro start
  let tmp := Storage.above.place (remembered command).memory
  let history := ((remembered command).newEntry .above []).2
  let line : Line := ⟨[], 0, some 1, some tmp, history⟩
  have hselect : start.line.select .above ⟨0, Key.up, 0⟩ = .ok (some line) := rfl
  have hne : 1 ≠ tmp := by
    intro hsame
    have hnew : tmp ∉ (remembered command).memory := Storage.above.place_new _
    rw [← hsame] at hnew
    exact hnew (Finmap.mem_insert.mpr (.inl rfl))
  have hlookup : history.memory.lookup 1 = some ⟨command, none, none⟩ :=
    (Finmap.lookup_insert_of_ne _ hne).trans (Finmap.lookup_insert ∅)
  have hretrieve : line.retrieve =
      .ok { line with str := command, cursor := command.length } := by
    unfold Line.retrieve
    dsimp only [line]
    rw [History.follow_of hlookup, ok_bind]
    exact if_neg fun hsame => hne (Option.some.inj hsame)
  refine (round_hist (by decide) (by decide) (.inl rfl) rfl hselect).trans ?_
  rw [hretrieve]
  rfl

theorem displays_of_reckons_remembered :
    let start := Reading.start (remembered [97, 98]) prompted
    ∃ r, start.round .above ⟨0, Key.up, 0⟩ = .ok (.waiting r) ∧
      start.Displays .doutCPU0 r := by
  intro start
  have hround := round_remembered [97, 98]
  refine ⟨_, hround, displays_of_reckons rfl ⟨[1], linked_singleton ∅ 1 _, rfl⟩ .above
    rfl rfl inside_prompted (.next (.start rfl) ⟨delivered_up, ⟨?_, ?_⟩, hround, ?_⟩)⟩
  · intro text htext
    obtain rfl : [97, 98] = text := Option.some.inj htext
    decide
  · exact fun hhist => absurd (.inl rfl) hhist
  · exact ⟨by decide, by decide⟩

/-- A command of two rows. -/
theorem not_displays_remembered :
    let command : Text := List.replicate 41 'a'.toUInt8
    let start := Reading.start (remembered command) prompted
    (remembered command).Remembers [command] ∧
      Window.doutCPU0.Inside prompted.getpos.1 prompted.getpos.2 ∧
      ∃ r, Runs.Reachable (· = start) (fun r k r' => k.Delivered ∧
        r.round .above k = .ok (.waiting r') ∧ r'.Fits .doutCPU0) r ∧
        ¬start.Displays .doutCPU0 r := by
  intro command start
  have hround := round_remembered command
  refine ⟨⟨[1], linked_singleton ∅ 1 _, rfl⟩, inside_prompted, _,
    .next (.start rfl) ⟨delivered_up, hround, ⟨by decide +kernel, by decide +kernel⟩⟩,
    fun hdisplays => ?_⟩
  have htext := hdisplays.text 1 'a'.toUInt8 (by rw [adjust_line]; rfl)
  revert htext
  decide +kernel

end Reading

end X86Os32.Shell
