import X86Os32.Library.Results
import X86Os32.Library.Runs
import X86Os32.Library.Timetable
import X86Os32.Library.Word32
import X86Os32.Object.Queue

namespace X86Os32

open Library Library.LinkChain Library.Results

/-! The times of the bells: `meeting/bellringer.cc` by itself keeps a
timetable. -/

/-- The `bell_list`, and the field `ms` of the bells.  `exceeded` records whether
an addition to such a field has left the 32 bits, or a subtraction has gone
below zero. -/
structure Bellringer (β : Type) where
  bells : Queues Unit β
  ms : β → Nat
  exceeded : Bool

namespace Bellringer

variable [DecidableEq β] (x : Bellringer β)

def setMs (bell : β) (value : Nat) : Bellringer β :=
  { x with ms := Function.update x.ms bell value }

/-- `bell->ms += value` -/
def add (bell : β) (value : Nat) : Bellringer β :=
  { x.setMs bell (add32 (x.ms bell) value) with
    exceeded := x.exceeded || decide (2 ^ 32 ≤ x.ms bell + value) }

/-- `bell->ms -= value` -/
def subtract (bell : β) (value : Nat) : Bellringer β :=
  { x.setMs bell (sub32 (x.ms bell) value) with
    exceeded := x.exceeded || decide (x.ms bell < value) }

def cancel (bell : β) : Except Stop (Bellringer β) := do
  let x := match x.bells.next bell with
    | none => x
    | some next => x.add next (x.ms bell)
  let (_, bells) ← x.bells.remove () bell
  return { x with bells }

/-- The loop of `job` at the bell `b`, which follows `prev`. -/
def jobFrom (x : Bellringer β) (prev : Option β) (ms : Nat) :
    Nat → Option β → Except Stop ((Option β × Nat) × Bellringer β)
  | _, none => .ok ((prev, ms), x)
  | 0, some _ => .error .endlessLoop
  | fuel + 1, some b =>
      if x.ms b > ms then .ok ((prev, ms), x.subtract b ms)
      else jobFrom x (some b) (sub32 ms (x.ms b)) fuel (x.bells.next b)

def job (bell : β) (ms : Nat) : Except Stop (Bellringer β) := do
  let ((prev, ms), x) ← x.jobFrom none ms Queues.addresses (x.bells.first ())
  let x := x.setMs bell ms
  match prev with
  | none => return { x with bells := x.bells.insertFirst () bell }
  | some prev => return { x with bells := x.bells.insertAfter () prev bell }

/-- The do-while loop of `check` at the first bell, with the bells that it
rings. -/
def checkFrom (x : Bellringer β) :
    Nat → β → Except Stop (List β × Bellringer β)
  | 0, _ => .error .endlessLoop
  | fuel + 1, first => do
      let x ← x.cancel first
      match x.bells.first () with
      | none => return ([first], x)
      | some next =>
          if x.ms next = 0 then do
            let (rung, x) ← checkFrom x fuel next
            return (first :: rung, x)
          else return ([first], x)

def check : Except Stop (List β × Bellringer β) :=
  match x.bells.first () with
  | none => .ok ([], x)
  | some first =>
      let x := x.subtract first 1
      if x.ms first = 0 then x.checkFrom Queues.addresses first
      else return ([], x)

end Bellringer

/-- The bellringer keeps the timetable, with the bells in the order of
`entries`. -/
structure Keeps (x : Bellringer β) (table : Timetable β)
    (entries : List (β × Nat)) : Prop where
  holds : x.bells.Holds fun _ => entries.map Prod.fst
  differences : Differences x.ms table.now entries
  stable : Stable entries table.registered
  future : ∀ entry ∈ entries, table.now < entry.2
  bounded : ∀ entry ∈ entries, entry.2 < table.now + 2 ^ 32
  exact : x.exceeded = false

variable [DecidableEq β] {x : Bellringer β} {table : Timetable β}
  {entries : List (β × Nat)} {bell : β} {base : Nat}

namespace Bellringer

/-! ### The walk of `job` -/

theorem subtract_of_le {b : β} {ms : Nat} (hle : ms ≤ x.ms b)
    (hbound : x.ms b < 2 ^ 32) :
    x.subtract b ms = x.setMs b (x.ms b - ms) := by
  have hnot : ¬ x.ms b < ms := by omega
  unfold subtract
  rw [sub32_of_le hle hbound]
  simp [setMs, hnot]

theorem jobFrom_spec {start : Option β} {fuel : Nat} (prev : Option β)
    (left : Nat)
    (hstart : Segment x.bells.next none start (entries.map Prod.fst))
    (hnodup : (entries.map Prod.fst).Nodup)
    (hfresh : bell ∉ entries.map Prod.fst)
    (hdifferences : Differences x.ms base entries)
    (hbounded : ∀ entry ∈ entries, entry.2 < base + 2 ^ 32)
    (hleft : left < 2 ^ 32) (hfuel : entries.length ≤ fuel) :
    ∃ before after ms rest, entries = before ++ after ∧
      (∀ entry ∈ after, base + left < entry.2) ∧
      x.jobFrom prev left fuel start =
        .ok ((((before.map Prod.fst).getLast?).or prev, rest),
          { x with ms }) ∧
      Differences (Function.update ms bell rest) base
        (before ++ (bell, base + left) :: after) ∧
      ∀ b, b ∉ entries.map Prod.fst → ms b = x.ms b := by
  induction entries generalizing start prev left fuel base with
  | nil =>
      obtain rfl : start = none := hstart
      refine ⟨[], [], x.ms, left, rfl, by simp, ?_, ?_, fun _ _ => rfl⟩
      · cases fuel <;> rfl
      · exact ⟨by simp, trivial⟩
  | cons entry tail ih =>
      obtain ⟨b, time⟩ := entry
      obtain ⟨rfl, hnext⟩ := hstart
      obtain ⟨htime, htail⟩ := hdifferences
      obtain ⟨hb, hnodup⟩ := List.nodup_cons.mp hnodup
      rw [List.map_cons, List.mem_cons, not_or] at hfresh
      obtain ⟨hne, hfresh⟩ := hfresh
      change time = base + x.ms b at htime
      change bell ≠ b at hne
      have hbound := hbounded (b, time) List.mem_cons_self
      change time < base + 2 ^ 32 at hbound
      cases fuel with
      | zero => simp at hfuel
      | succ fuel =>
          unfold jobFrom
          by_cases hlt : x.ms b > left
          · -- the bell belongs before this one, which now counts from it
            rw [if_pos hlt, subtract_of_le (Nat.le_of_lt hlt) (by omega)]
            refine ⟨[], (b, time) :: tail, _, left, rfl, ?_, rfl, ?_, ?_⟩
            · have hfirst : Differences x.ms base ((b, time) :: tail) :=
                ⟨htime, htail⟩
              intro other hother
              rcases List.mem_cons.mp hother with rfl | hother
              · change base + left < time
                omega
              · have hle := hfirst.first_le other hother
                change time ≤ other.2 at hle
                omega
            · refine ⟨by simp, ?_, htail.congr fun other hother => ?_⟩
              · simp only [Function.update_of_ne (Ne.symm hne),
                  Function.update_self]
                omega
              · have hmem := List.mem_map_of_mem (f := Prod.fst) hother
                have hneBell : other.1 ≠ bell := fun heq => hfresh (heq ▸ hmem)
                have hneB : other.1 ≠ b := fun heq => hb (heq ▸ hmem)
                simp [hneBell, hneB]
            · intro other hother
              have hneB : other ≠ b := by
                rintro rfl
                simp at hother
              simp [hneB]
          · -- the rest of the walk counts from this bell
            rw [if_neg hlt]
            have hle : x.ms b ≤ left := Nat.not_lt.mp hlt
            have hsub : sub32 left (x.ms b) = left - x.ms b :=
              sub32_of_le hle hleft
            have htarget : time + (left - x.ms b) = base + left := by omega
            have hbounded' : ∀ other ∈ tail, other.2 < time + 2 ^ 32 := by
              intro other hother
              have := hbounded other (List.mem_cons_of_mem _ hother)
              omega
            obtain ⟨before, after, ms, rest, hsplit, hafter, hdone, hdelta,
              hsame⟩ := ih (some b) (left - x.ms b) hnext hnodup hfresh htail
                hbounded' (by omega) (by simpa using hfuel)
            rw [htarget] at hafter hdelta
            refine ⟨(b, time) :: before, after, ms, rest, by rw [hsplit]; rfl,
              hafter, ?_, ?_, ?_⟩
            · rw [hsub, hdone]
              simp [List.getLast?_cons]
            · refine ⟨?_, hdelta⟩
              change time = base + Function.update ms bell rest b
              rw [Function.update_of_ne (Ne.symm hne), hsame b hb]
              exact htime
            · intro other hother
              rw [List.map_cons, List.mem_cons, not_or] at hother
              exact hsame other hother.2

/-! ### One call -/

theorem job_keeps {ms : Nat} (address : β ↪ Fin (2 ^ 32))
    (hkeeps : Keeps x table entries) (hfresh : bell ∉ entries.map Prod.fst)
    (hpos : 0 < ms) (hlt : ms < 2 ^ 32) :
    ∃ x' entries', x.job bell ms = .ok x' ∧
      Keeps x' (table.register bell ms) entries' := by
  obtain ⟨hholds, hdifferences, hstable, hfuture, hbounded, hexact⟩ := hkeeps
  have hlength : entries.length ≤ Queues.addresses := by
    simpa using hholds.length_le address ()
  obtain ⟨before, after, times, rest, rfl, hafter, hdone, hdelta, -⟩ :=
    jobFrom_spec none ms (hholds.queue ()).segment (hholds.queue ()).nodup
      hfresh hdifferences hbounded hlt hlength
  have hnew : ∀ _ : Unit, bell ∉ (before ++ after).map Prod.fst :=
    fun _ => hfresh
  have hkeeps' : ∀ bells : Queues Unit β,
      (bells.Holds fun _ => before.map Prod.fst ++ bell :: after.map Prod.fst) →
      Keeps ⟨bells, Function.update times bell rest, x.exceeded⟩
        (table.register bell ms)
        (before ++ (bell, table.now + ms) :: after) := by
    intro bells hbells
    refine ⟨by simpa using hbells, hdelta, hstable.insert hafter, ?_, ?_,
      hexact⟩
    · intro entry hentry
      rcases List.mem_append.mp hentry with hold | hentry
      · exact hfuture entry (List.mem_append_left _ hold)
      · rcases List.mem_cons.mp hentry with rfl | hold
        · exact Nat.lt_add_of_pos_right hpos
        · exact hfuture entry (List.mem_append_right _ hold)
    · intro entry hentry
      rcases List.mem_append.mp hentry with hold | hentry
      · exact hbounded entry (List.mem_append_left _ hold)
      · rcases List.mem_cons.mp hentry with rfl | hold
        · exact Nat.add_lt_add_left hlt _
        · exact hbounded entry (List.mem_append_right _ hold)
  unfold job Queues.first
  rw [hdone, ok_bind]
  rcases List.eq_nil_or_concat before with rfl | ⟨front, last, hbefore⟩
  · refine ⟨_, _, rfl, hkeeps' _ ?_⟩
    have hinserted := hholds.insertFirst (i := ()) hnew
    rwa [update_unit] at hinserted
  · rw [List.concat_eq_append] at hbefore
    subst hbefore
    have hlist : (front ++ [last] ++ after).map Prod.fst =
        front.map Prod.fst ++ last.1 :: after.map Prod.fst := by simp
    have hprev : ((front ++ [last]).map Prod.fst).getLast?.or none =
        some last.1 := by simp
    rw [hprev]
    refine ⟨_, _, rfl, hkeeps' _ ?_⟩
    have hinserted := hholds.insertAfter (i := ()) hlist hnew
    rw [update_unit] at hinserted
    have hsame : (front ++ [last]).map Prod.fst ++ bell :: after.map Prod.fst =
        front.map Prod.fst ++ last.1 :: bell :: after.map Prod.fst := by simp
    rw [hsame]
    exact hinserted

theorem cancel_spec {entry : β × Nat} {before after : List (β × Nat)}
    (address : β ↪ Fin (2 ^ 32))
    (hholds : x.bells.Holds fun _ => entries.map Prod.fst)
    (hsplit : entries = before ++ entry :: after)
    (hdifferences : Differences x.ms base entries)
    (hbounded : ∀ entry ∈ entries, entry.2 < base + 2 ^ 32) :
    ∃ bells ms, x.cancel entry.1 = .ok ⟨bells, ms, x.exceeded⟩ ∧
      (bells.Holds fun _ => (before ++ after).map Prod.fst) ∧
      Differences ms base (before ++ after) := by
  subst hsplit
  have hlist : (before ++ entry :: after).map Prod.fst =
      before.map Prod.fst ++ entry.1 :: after.map Prod.fst := by simp
  have hqueue := hholds.queue ()
  have hnodup := hqueue.nodup
  have hleave := hdifferences.leave hnodup
  obtain ⟨bells, hremove, hrest, -⟩ := hholds.remove (i := ()) entry.1
    (hholds.length_le address ())
  have hnot : entry.1 ∉ before.map Prod.fst := by
    rw [hlist, List.nodup_append] at hnodup
    intro hmem
    exact hnodup.2.2 entry.1 hmem entry.1 (by simp) rfl
  rw [update_unit, hlist, List.erase_append_right _ hnot,
    List.erase_cons_head, ← List.map_append] at hrest
  rw [hlist] at hqueue
  refine ⟨bells, _, ?_, hrest, hleave⟩
  unfold cancel
  rw [hqueue.next_eq]
  cases after with
  | nil =>
      simp only [List.map_nil, List.head?_nil]
      rw [hremove]
      rfl
  | cons next rest =>
      have hle := hdifferences.neighbours_le
      have hlt := hbounded next (by simp)
      have hsum : x.ms next.1 + x.ms entry.1 < 2 ^ 32 := by omega
      have hnotLe : ¬ 2 ^ 32 ≤ x.ms next.1 + x.ms entry.1 := by omega
      simp only [List.map_cons, List.head?_cons, add, setMs,
        add32_of_lt hsum, hnotLe, decide_false, Bool.or_false]
      rw [hremove]
      rfl

theorem cancel_keeps (address : β ↪ Fin (2 ^ 32))
    (hkeeps : Keeps x table entries) (hmem : bell ∈ entries.map Prod.fst) :
    ∃ x' entries', x.cancel bell = .ok x' ∧
      Keeps x' (table.withdraw bell) entries' := by
  obtain ⟨hholds, hdifferences, hstable, hfuture, hbounded, hexact⟩ := hkeeps
  obtain ⟨entry, hentry, rfl⟩ := List.mem_map.mp hmem
  obtain ⟨before, after, hsplit⟩ := List.append_of_mem hentry
  obtain ⟨bells, ms, hdone, hholds', hdifferences'⟩ :=
    cancel_spec address hholds hsplit hdifferences hbounded
  have hfilter : entries.filter (fun other => other.1 ≠ entry.1) =
      before ++ after := by
    have hnodup := (hholds.queue ()).nodup
    rw [hsplit, List.map_append, List.map_cons] at hnodup
    have hfresh := (List.nodup_middle.mp hnodup)
    rw [List.nodup_cons, ← List.map_append] at hfresh
    have hkept : ∀ other ∈ before ++ after, other.1 ≠ entry.1 :=
      fun other hother heq => hfresh.1 (heq ▸ List.mem_map_of_mem hother)
    rw [hsplit, List.filter_append, List.filter_cons_of_neg (by simp),
      ← List.filter_append, List.filter_eq_self]
    simpa using hkept
  have hsub : ∀ other ∈ before ++ after, other ∈ entries := by
    intro other hother
    rw [← hfilter] at hother
    exact (List.mem_filter.mp hother).1
  refine ⟨_, before ++ after, hdone, hholds', hdifferences', ?_,
    fun other hother => hfuture other (hsub other hother),
    fun other hother => hbounded other (hsub other hother), hexact⟩
  rw [← hfilter]
  exact hstable.filter _

theorem checkFrom_spec {first : β × Nat} {rest : List (β × Nat)} {fuel : Nat}
    (address : β ↪ Fin (2 ^ 32))
    (hholds : x.bells.Holds fun _ => (first :: rest).map Prod.fst)
    (hdifferences : Differences x.ms base (first :: rest))
    (hbounded : ∀ entry ∈ first :: rest, entry.2 < base + 2 ^ 32)
    (hdue : first.2 = base) (hfuel : rest.length < fuel) :
    ∃ bells ms, x.checkFrom fuel first.1 =
        .ok (((first :: rest).filter fun entry => entry.2 = base).map Prod.fst,
          ⟨bells, ms, x.exceeded⟩) ∧
      (bells.Holds fun _ =>
        ((first :: rest).filter fun entry => entry.2 ≠ base).map Prod.fst) ∧
      Differences ms base
        ((first :: rest).filter fun entry => entry.2 ≠ base) := by
  induction rest generalizing x first fuel with
  | nil =>
      obtain ⟨bells, ms, hdone, hholds', hdifferences'⟩ :=
        cancel_spec address hholds (List.nil_append _).symm hdifferences
          hbounded
      have hfirst : bells.first () = none := (hholds'.queue ()).head_eq
      cases fuel with
      | zero => simp at hfuel
      | succ fuel =>
          refine ⟨bells, ms, ?_, ?_, ?_⟩
          · unfold checkFrom
            rw [hdone, ok_bind]
            dsimp only
            rw [hfirst]
            simp [hdue]
            rfl
          · simpa [hdue] using hholds'
          · simp [hdue, Differences]
  | cons next tail ih =>
      obtain ⟨bells, ms, hdone, hholds', hdifferences'⟩ :=
        cancel_spec address hholds (List.nil_append _).symm hdifferences
          hbounded
      rw [List.nil_append] at hholds' hdifferences'
      have hfirst : bells.first () = some next.1 := (hholds'.queue ()).head_eq
      have hbounded' : ∀ entry ∈ next :: tail, entry.2 < base + 2 ^ 32 :=
        fun entry hentry => hbounded entry (List.mem_cons_of_mem _ hentry)
      have htime := hdifferences'.1
      cases fuel with
      | zero => simp at hfuel
      | succ fuel =>
          have hfirstDue : (first :: next :: tail).filter
              (fun entry => entry.2 = base) =
                first :: (next :: tail).filter fun entry => entry.2 = base :=
            List.filter_cons_of_pos (by simpa using hdue)
          have hfirstGone : (first :: next :: tail).filter
              (fun entry => entry.2 ≠ base) =
                (next :: tail).filter fun entry => entry.2 ≠ base :=
            List.filter_cons_of_neg (by simpa using hdue)
          rw [hfirstDue, hfirstGone]
          unfold checkFrom
          rw [hdone, ok_bind]
          dsimp only
          rw [hfirst]
          by_cases hzero : ms next.1 = 0
          · obtain ⟨bells', ms', hrest, hholds'', hdifferences''⟩ :=
              ih (x := ⟨bells, ms, x.exceeded⟩) hholds' hdifferences'
                hbounded' (by omega) (by simpa using hfuel)
            refine ⟨bells', ms', ?_, hholds'', hdifferences''⟩
            simp only [hzero, if_true]
            rw [hrest]
            rfl
          · obtain ⟨hnone, hall⟩ := filter_absent (hdifferences'.later hzero)
            rw [hnone, hall]
            refine ⟨bells, ms, ?_, hholds', hdifferences'⟩
            simp only [hzero, if_false]
            rfl

theorem check_keeps (address : β ↪ Fin (2 ^ 32))
    (hkeeps : Keeps x table entries) :
    ∃ x' entries', x.check = .ok (table.due, x') ∧
      Keeps x' table.tick entries' := by
  obtain ⟨hholds, hdifferences, hstable, hfuture, hbounded, hexact⟩ := hkeeps
  have hdue : table.due =
      (entries.filter fun entry => entry.2 = table.now + 1).map Prod.fst :=
    congrArg (List.map Prod.fst) (hstable (table.now + 1)).symm
  have hkeeps' : ∀ (bells : Queues Unit β) (ms : β → Nat),
      (bells.Holds fun _ => (entries.filter fun entry =>
        entry.2 ≠ table.now + 1).map Prod.fst) →
      Differences ms (table.now + 1)
        (entries.filter fun entry => entry.2 ≠ table.now + 1) →
      Keeps ⟨bells, ms, x.exceeded⟩ table.tick
        (entries.filter fun entry => entry.2 ≠ table.now + 1) := by
    intro bells ms hbells hms
    refine ⟨hbells, hms, hstable.filter _, ?_, ?_, hexact⟩
    · intro entry hentry
      obtain ⟨hentry, hne⟩ := List.mem_filter.mp hentry
      have hlt := hfuture entry hentry
      simp only [ne_eq, decide_not, Bool.not_eq_true',
        decide_eq_false_iff_not] at hne
      change table.now + 1 < entry.2
      omega
    · intro entry hentry
      have hlt := hbounded entry (List.mem_filter.mp hentry).1
      change entry.2 < table.now + 1 + 2 ^ 32
      omega
  have hhead : x.bells.first () = (entries.map Prod.fst).head? :=
    (hholds.queue ()).head_eq
  unfold check
  rw [hhead, hdue]
  cases entries with
  | nil => exact ⟨x, _, rfl, hkeeps' x.bells x.ms hholds trivial⟩
  | cons first rest =>
      have hfirst := hfuture first List.mem_cons_self
      have hlast := hbounded first List.mem_cons_self
      have htime := hdifferences.1
      have hfresh := (List.nodup_cons.mp (hholds.queue ()).nodup).1
      have hticked := hdifferences.tick hfirst hfresh
      simp only [List.map_cons, List.head?_cons]
      rw [subtract_of_le (by omega) (by omega)]
      generalize hms : Function.update x.ms first.1 (x.ms first.1 - 1) = ms
        at hticked
      have hticked₁ : first.2 = table.now + 1 + ms first.1 := hticked.1
      change ∃ x' entries',
        (if (x.setMs first.1 (x.ms first.1 - 1)).ms first.1 = 0 then
        (x.setMs first.1 (x.ms first.1 - 1)).checkFrom Queues.addresses first.1
        else _) = _ ∧ _
      unfold setMs
      rw [hms]
      dsimp only
      by_cases hzero : ms first.1 = 0
      · rw [if_pos hzero]
        have hbounded' : ∀ entry ∈ first :: rest,
            entry.2 < table.now + 1 + 2 ^ 32 := by
          intro entry hentry
          have hlt := hbounded entry hentry
          omega
        have hlength := hholds.length_le address ()
        rw [List.length_map, List.length_cons] at hlength
        obtain ⟨bells, ms', hdone, hholds', hdifferences'⟩ :=
          checkFrom_spec (x := { x with ms }) address hholds hticked hbounded'
            (by omega) hlength
        exact ⟨_, _, hdone, hkeeps' bells ms' hholds' hdifferences'⟩
      · rw [if_neg hzero]
        obtain ⟨hnone, hall⟩ := filter_absent (hticked.later hzero)
        rw [hall] at hkeeps'
        rw [hnone]
        exact ⟨_, _, rfl, hkeeps' x.bells ms hholds hticked⟩

end Bellringer

/-! ### Runs -/

inductive RingerCall (β : Type)
  | job (bell : β) (ms : Nat)
  | check
  | cancel (bell : β)
deriving DecidableEq

namespace RingerCall

/-- A bell is registered for a while of at least one tick and while it is not
pending; only pending bells are cancelled. -/
def Allowed (table : Timetable β) : RingerCall β → Prop
  | .job bell ms => 1 ≤ ms ∧ ms < 2 ^ 32 ∧
      bell ∉ table.registered.map Prod.fst
  | .check => True
  | .cancel bell => bell ∈ table.registered.map Prod.fst

instance : DecidablePred (Allowed table)
  | .job _ _ => inferInstanceAs (Decidable (_ ∧ _ ∧ _))
  | .check => inferInstanceAs (Decidable True)
  | .cancel _ => inferInstanceAs (Decidable (_ ∈ _))

def rings (table : Timetable β) : RingerCall β → List β
  | .check => table.due
  | _ => []

def onTable (table : Timetable β) : RingerCall β → Timetable β
  | .job bell ms => table.register bell ms
  | .check => table.tick
  | .cancel bell => table.withdraw bell

end RingerCall

def Bellringer.call (x : Bellringer β) :
    RingerCall β → Except Stop (List β × Bellringer β)
  | .job bell ms => do
      let x ← x.job bell ms
      return ([], x)
  | .check => x.check
  | .cancel bell => do
      let x ← x.cancel bell
      return ([], x)

structure Timed (β : Type) where
  ringer : Bellringer β
  table : Timetable β

namespace Timed

def Initial (y : Timed β) : Prop :=
  ∃ next ms, y = ⟨⟨⟨next, fun _ => .empty⟩, ms, false⟩, ⟨0, []⟩⟩

def step (y : Timed β) (call : RingerCall β) : Option (Timed β) :=
  if call.Allowed y.table then
    match y.ringer.call call with
    | .ok (_, ringer) => some ⟨ringer, call.onTable y.table⟩
    | .error _ => none
  else none

def Reachable : Timed β → Prop :=
  Runs.Reachable Initial fun y call z => y.step call = some z

variable {y z : Timed β} {call : RingerCall β}

theorem step_eq_some (hstep : y.step call = some z) :
    call.Allowed y.table ∧ (∃ rung, y.ringer.call call = .ok (rung, z.ringer)) ∧
      z.table = call.onTable y.table := by
  unfold step at hstep
  split at hstep
  · next hallowed =>
    split at hstep
    · next hcall =>
      obtain rfl := Option.some.inj hstep
      exact ⟨hallowed, ⟨_, hcall⟩, rfl⟩
    · cases hstep
  · cases hstep

omit [DecidableEq β] in
theorem mem_entries (hkeeps : Keeps x table entries) :
    bell ∈ entries.map Prod.fst ↔ bell ∈ table.registered.map Prod.fst := by
  simp only [List.mem_map, hkeeps.stable.mem_iff]

theorem call_keeps (address : β ↪ Fin (2 ^ 32))
    (hkeeps : Keeps x table entries) (hallowed : call.Allowed table) :
    ∃ x' entries', x.call call = .ok (call.rings table, x') ∧
      Keeps x' (call.onTable table) entries' := by
  cases call with
  | job bell ms =>
      obtain ⟨hpos, hlt, hfresh⟩ := hallowed
      rw [← mem_entries hkeeps] at hfresh
      obtain ⟨x', entries', hdone, hkeeps'⟩ :=
        Bellringer.job_keeps address hkeeps hfresh hpos hlt
      exact ⟨x', entries', bind_eq_ok.mpr ⟨_, hdone, rfl⟩, hkeeps'⟩
  | check => exact Bellringer.check_keeps address hkeeps
  | cancel bell =>
      have hmem := (mem_entries hkeeps).mpr hallowed
      obtain ⟨x', entries', hdone, hkeeps'⟩ :=
        Bellringer.cancel_keeps address hkeeps hmem
      exact ⟨x', entries', bind_eq_ok.mpr ⟨_, hdone, rfl⟩, hkeeps'⟩

theorem Reachable.keeps (address : β ↪ Fin (2 ^ 32)) (hreach : Reachable y) :
    ∃ entries, Keeps y.ringer y.table entries := by
  apply Runs.Reachable.invariant hreach
  · rintro y ⟨next, ms, rfl⟩
    refine ⟨[], ⟨fun i => ⟨rfl, rfl, List.nodup_nil⟩, ?_⟩, trivial,
      fun _ => rfl, by simp, by simp, rfl⟩
    intro i j item hmem
    simp at hmem
  · rintro y call z ⟨entries, hkeeps⟩ hstep
    obtain ⟨hallowed, ⟨rung, hcall⟩, htable⟩ := step_eq_some hstep
    obtain ⟨x', entries', hdone, hkeeps'⟩ := call_keeps address hkeeps hallowed
    obtain ⟨-, rfl⟩ := Prod.mk.inj (Except.ok.inj (hcall.symm.trans hdone))
    rw [htable]
    exact ⟨entries', hkeeps'⟩

/-! ### One registration over a run -/

theorem registered_run {entry : β × Nat} {calls : List (RingerCall β)}
    (hrun : Runs.run Timed.step y calls = some z)
    (hcancel : .cancel entry.1 ∉ calls) (hmem : entry ∈ y.table.registered)
    (hfuture : y.table.now + calls.count .check < entry.2) :
    entry ∈ z.table.registered ∧
      z.table.now = y.table.now + calls.count .check := by
  induction calls generalizing y with
  | nil =>
      obtain rfl : y = z := by simpa [Runs.run] using hrun
      exact ⟨hmem, rfl⟩
  | cons call rest ih =>
      obtain ⟨middle, hstep, hrest⟩ := Option.bind_eq_some_iff.mp hrun
      obtain ⟨-, -, htable⟩ := step_eq_some hstep
      rw [List.mem_cons, not_or] at hcancel
      obtain ⟨hne, hcancel⟩ := hcancel
      cases call with
      | job bell ms =>
          have hcount : (RingerCall.job bell ms :: rest).count .check =
              rest.count .check := List.count_cons_of_ne (by simp)
          rw [hcount] at hfuture ⊢
          have hnow : middle.table.now = y.table.now := by rw [htable]; rfl
          rw [← hnow] at hfuture ⊢
          refine ih hrest hcancel ?_ hfuture
          rw [htable]
          exact List.mem_append_left _ hmem
      | check =>
          have hcount : (RingerCall.check :: rest : List (RingerCall β)).count
              .check = rest.count .check + 1 := List.count_cons_self
          rw [hcount] at hfuture ⊢
          have hnow : middle.table.now = y.table.now + 1 := by rw [htable]; rfl
          have hrest' := ih hrest hcancel ?_ (by omega)
          · rw [hnow] at hrest'
            refine ⟨hrest'.1, ?_⟩
            omega
          · rw [htable]
            refine List.mem_filter.mpr ⟨hmem, ?_⟩
            simp only [ne_eq, decide_not, Bool.not_eq_true',
              decide_eq_false_iff_not]
            omega
      | cancel bell =>
          have hcount : (RingerCall.cancel bell :: rest).count .check =
              rest.count .check := List.count_cons_of_ne (by simp)
          rw [hcount] at hfuture ⊢
          have hnow : middle.table.now = y.table.now := by rw [htable]; rfl
          rw [← hnow] at hfuture ⊢
          refine ih hrest hcancel ?_ hfuture
          rw [htable]
          refine List.mem_filter.mpr ⟨hmem, decide_eq_true ?_⟩
          rintro rfl
          exact hne rfl

theorem registered_unique {time time' : Nat} (hkeeps : Keeps x table entries)
    (hmem : (bell, time) ∈ table.registered)
    (hmem' : (bell, time') ∈ table.registered) : time = time' := by
  have hnodup := (hkeeps.holds.queue ()).nodup
  have htime := hkeeps.differences.remaining_eq hnodup
    ((hkeeps.stable.mem_iff _).mpr hmem)
  have htime' := hkeeps.differences.remaining_eq hnodup
    ((hkeeps.stable.mem_iff _).mpr hmem')
  exact htime.symm.trans htime'

omit [DecidableEq β] in
theorem due_nodup (hkeeps : Keeps x table entries) : table.due.Nodup := by
  have hdue : table.due =
      (entries.filter fun entry => entry.2 = table.now + 1).map Prod.fst :=
    congrArg (List.map Prod.fst) (hkeeps.stable (table.now + 1)).symm
  rw [hdue]
  exact (hkeeps.holds.queue ()).nodup.sublist (List.filter_sublist.map _)

/-- From its registration on a bell is pending, until it rings during the check
at which its time is up. -/
theorem rings_run {n : Nat} {calls : List (RingerCall β)} {middle : Timed β}
    (address : β ↪ Fin (2 ^ 32)) (hreach : Reachable y)
    (hjob : y.step (.job bell n) = some middle)
    (hcancel : .cancel bell ∉ calls)
    (hrun : Runs.run Timed.step middle calls = some z)
    (hbefore : calls.count .check < n) :
    bell ∈ z.table.registered.map Prod.fst ∧
      (bell ∈ z.table.due ↔ calls.count .check + 1 = n) := by
  obtain ⟨-, -, htable⟩ := step_eq_some hjob
  have hmem : (bell, y.table.now + n) ∈ middle.table.registered := by
    rw [htable]
    exact List.mem_append_right _ (List.mem_singleton.mpr rfl)
  have hnow : middle.table.now = y.table.now := by rw [htable]; rfl
  obtain ⟨hstays, hlater⟩ := registered_run hrun hcancel hmem
    (by rw [hnow]; exact Nat.add_lt_add_left hbefore _)
  have hreach' : Reachable z := Runs.Reachable.run (hreach.next hjob) hrun
  obtain ⟨entries, hkeeps⟩ := hreach'.keeps address
  refine ⟨List.mem_map_of_mem hstays, ?_⟩
  rw [hnow] at hlater
  constructor
  · intro hdue
    obtain ⟨entry, hentry, rfl⟩ := List.mem_map.mp hdue
    obtain ⟨hentry, htime⟩ := List.mem_filter.mp hentry
    have hsame := registered_unique hkeeps hstays hentry
    have htime' : entry.2 = z.table.now + 1 := of_decide_eq_true htime
    omega
  · intro hn
    refine List.mem_map.mpr ⟨_, List.mem_filter.mpr ⟨hstays, ?_⟩, rfl⟩
    simp only [decide_eq_true_eq]
    omega

end Timed

/-- The delta list keeps the timetable: the differences up to a bell are the
time that is left to it, the first is never zero, and no arithmetic leaves its
range.  A check rings the bells whose time is up in the order of their
registration, and these are the bells that were registered for as many checks. -/
theorem bells_ring_in_time {y : Timed β} (address : β ↪ Fin (2 ^ 32))
    (hreach : Timed.Reachable y) :
    (∃ bells, (y.ringer.bells.Holds fun _ => bells) ∧
      (∀ bell, bell ∈ bells ↔ bell ∈ y.table.registered.map Prod.fst) ∧
      ∀ entry ∈ y.table.registered,
        y.table.now + remaining y.ringer.ms entry.1 bells = entry.2) ∧
    (∀ first ∈ y.ringer.bells.first (), y.ringer.ms first ≠ 0) ∧
    y.ringer.exceeded = false ∧
    (∀ call : RingerCall β, call.Allowed y.table →
      ∃ ringer, y.ringer.call call = .ok (call.rings y.table, ringer)) ∧
    y.table.due.Nodup ∧
    ∀ bell n calls middle z, y.step (.job bell n) = some middle →
      .cancel bell ∉ calls → Runs.run Timed.step middle calls = some z →
      calls.count .check < n →
      bell ∈ z.table.registered.map Prod.fst ∧
        (bell ∈ z.table.due ↔ calls.count .check + 1 = n) := by
  obtain ⟨entries, hkeeps⟩ := hreach.keeps address
  have hqueue := hkeeps.holds.queue ()
  refine ⟨⟨_, hkeeps.holds, fun _ => Timed.mem_entries hkeeps, ?_⟩, ?_,
    hkeeps.exact, ?_, Timed.due_nodup hkeeps, ?_⟩
  · intro entry hentry
    exact hkeeps.differences.remaining_eq hqueue.nodup
      ((hkeeps.stable.mem_iff entry).mpr hentry)
  · intro first hfirst
    have hhead : y.ringer.bells.first () = (entries.map Prod.fst).head? :=
      hqueue.head_eq
    rw [hhead] at hfirst
    cases entries with
    | nil => cases hfirst
    | cons entry rest =>
        obtain rfl : entry.1 = first := Option.some.inj hfirst
        have htime := hkeeps.differences.1
        have hfuture := hkeeps.future entry List.mem_cons_self
        omega
  · intro call hallowed
    obtain ⟨ringer, -, hdone, -⟩ := Timed.call_keeps address hkeeps hallowed
    exact ⟨ringer, hdone⟩
  · intro bell n calls middle z hjob hcancel hrun hbefore
    exact Timed.rings_run address hreach hjob hcancel hrun hbefore

/-- Two bells ring during the second check, one of them registered before and
one behind a bell that rings during the first. -/
theorem bells_ring_in_time_two :
    ∃ y : Timed (Fin (2 ^ 32)), y.table.now = 1 ∧
      y.ringer.bells.first () = some 5 ∧ y.ringer.ms 5 ≠ 0 ∧
      y.ringer.exceeded = false ∧
      ∃ ringer, y.ringer.call .check = .ok ([5, 7], ringer) := by
  let start : Timed (Fin (2 ^ 32)) :=
    ⟨⟨⟨fun _ => none, fun _ => .empty⟩, fun _ => 0, false⟩, ⟨0, []⟩⟩
  have hrun : (Runs.run Timed.step start [.job 5 2, .job 6 1, .job 7 2,
      .job 8 4, .check, .cancel 8]).any fun y => y.table.now = 1 ∧
        y.table.due = [5, 7] ∧ y.ringer.bells.first () = some 5 := by
    decide +kernel
  obtain ⟨y, hy, hcheck⟩ := (Option.any_eq_true _ _).mp hrun
  simp only [decide_eq_true_eq] at hcheck
  obtain ⟨hnow, hdue, hfirst⟩ := hcheck
  have hreach : Timed.Reachable y := Runs.Reachable.run (.start ⟨_, _, rfl⟩) hy
  obtain ⟨-, hpositive, hexact, hcalls, -⟩ :=
    bells_ring_in_time (.refl _) hreach
  have hrings := hcalls .check trivial
  rw [show RingerCall.rings y.table .check = [5, 7] from hdue] at hrings
  exact ⟨y, hnow, hfirst, hpositive 5 hfirst, hexact, hrings⟩

end X86Os32
