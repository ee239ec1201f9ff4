import Mathlib.Data.Fintype.Card

namespace X86Os32.Library

/-! A lock that serves its parties in the order in which they draw their
tickets.  There are `m` numbers, and behind the last one they start over. -/

namespace TicketLock

/-- The numbers in the line begin with the one that is served, and end before
the one that is drawn next. -/
def Numbered (m serving next : Nat) : List (π × Nat) → Prop
  | [] => serving = next
  | (_, number) :: rest =>
      number = serving ∧ Numbered m ((serving + 1) % m) next rest

theorem Numbered.draw {line : List (π × Nat)}
    (hline : Numbered m serving next line) (party : π) :
    Numbered m serving ((next + 1) % m) (line ++ [(party, next)]) := by
  induction line generalizing serving with
  | nil =>
      obtain rfl : serving = next := hline
      exact ⟨rfl, rfl⟩
  | cons first rest ih =>
      exact ⟨hline.1, ih hline.2⟩

theorem Numbered.serve {rest : List (π × Nat)}
    (hline : Numbered m serving next ((party, number) :: rest)) :
    Numbered m ((serving + 1) % m) next rest :=
  hline.2

theorem Numbered.number_eq {line : List (π × Nat)}
    (hline : Numbered m serving next line) (hserving : serving < m)
    (hmem : (party, number) ∈ line) :
    ∃ before < line.length, number = (serving + before) % m := by
  induction line generalizing serving with
  | nil => cases hmem
  | cons first rest ih =>
      have hpositive : 0 < m := Nat.zero_lt_of_lt hserving
      rcases List.mem_cons.mp hmem with rfl | hrest
      · refine ⟨0, by simp, ?_⟩
        rw [hline.1, Nat.add_zero, Nat.mod_eq_of_lt hserving]
      · obtain ⟨before, hbefore, hnumber⟩ :=
          ih hline.2 (Nat.mod_lt _ hpositive) hrest
        refine ⟨before + 1, by simpa using hbefore, ?_⟩
        rw [hnumber, Nat.mod_add_mod]
        congr 1
        omega

/-- As long as there are no more parties than numbers, the number that is
served is that of the first party. -/
theorem Numbered.first {line : List (π × Nat)}
    (hline : Numbered m serving next line) (hserving : serving < m)
    (hlength : line.length ≤ m) (hmem : (party, serving) ∈ line) :
    ∃ rest, line = (party, serving) :: rest := by
  cases line with
  | nil => cases hmem
  | cons first rest =>
      rcases List.mem_cons.mp hmem with rfl | hrest
      · exact ⟨rest, rfl⟩
      · exfalso
        have hpositive : 0 < m := Nat.zero_lt_of_lt hserving
        obtain ⟨before, hbefore, hnumber⟩ :=
          hline.2.number_eq (Nat.mod_lt _ hpositive) hrest
        rw [Nat.mod_add_mod] at hnumber
        have hshort : before + 1 < m :=
          Nat.lt_of_lt_of_le (Nat.succ_lt_succ hbefore) hlength
        by_cases hwrap : serving + 1 + before < m
        · rw [Nat.mod_eq_of_lt hwrap] at hnumber
          omega
        · have hwrapped : serving + 1 + before - m < m := by omega
          rw [Nat.mod_eq_sub_mod (by omega), Nat.mod_eq_of_lt hwrapped]
            at hnumber
          omega

inductive Place
  | away
  | waiting (number : Nat)
  | holding
  /-- About to write the number that is served next. -/
  | storing (number : Nat)
deriving DecidableEq

def Place.locked : Place → Bool
  | .away | .waiting _ => false
  | .holding | .storing _ => true

/-- The last three fields record who has drawn a ticket, acquired the lock and
released it. -/
structure Lock (π : Type) where
  serving : Nat
  next : Nat
  place : π → Place
  drawn : List π
  acquired : List π
  released : List π

variable [DecidableEq π]

def Lock.move (lock : Lock π) (party : π) (place : Place) : Lock π :=
  { lock with place := Function.update lock.place party place }

inductive Step (m : Nat) (lock : Lock π) (party : π) : Lock π → Prop
  | skip : Step m lock party lock
  | draw (haway : lock.place party = .away) :
      Step m lock party
        { lock.move party (.waiting lock.next) with
          next := (lock.next + 1) % m
          drawn := lock.drawn ++ [party] }
  | acquire (hwaiting : lock.place party = .waiting lock.serving) :
      Step m lock party
        { lock.move party .holding with
          acquired := lock.acquired ++ [party] }
  | read (hholding : lock.place party = .holding) :
      Step m lock party (lock.move party (.storing ((lock.serving + 1) % m)))
  | store (hstoring : lock.place party = .storing number) :
      Step m lock party
        { lock.move party .away with
          serving := number
          released := lock.released ++ [party] }

/-- The parties with a ticket stand in a line, in the order of their numbers,
and only the first of them may have the lock. -/
structure Ordered (m : Nat) (lock : Lock π) (line : List (π × Nat)) :
    Prop where
  serving_lt : lock.serving < m
  numbered : Numbered m lock.serving lock.next line
  once : (line.map Prod.fst).Nodup
  ticket : ∀ party,
    lock.place party ≠ .away ↔ party ∈ line.map Prod.fst
  waiting : ∀ party number,
    lock.place party = .waiting number → (party, number) ∈ line
  first : ∀ party, (lock.place party).locked = true →
    (line.map Prod.fst).head? = some party
  storing : ∀ party number, lock.place party = .storing number →
    number = (lock.serving + 1) % m
  drawn : lock.drawn = lock.released ++ line.map Prod.fst
  acquired :
    (lock.acquired = lock.released ∧
      ∀ party, (lock.place party).locked = false) ∨
    ∃ party, (lock.place party).locked = true ∧
      lock.acquired = lock.released ++ [party]

omit [DecidableEq π] in
theorem Ordered.exclusive {lock : Lock π} (hordered : Ordered m lock line)
    (hparty : (lock.place party).locked = true)
    (hother : (lock.place other).locked = true) : party = other := by
  have hfirst := hordered.first party hparty
  rw [hordered.first other hother] at hfirst
  exact (Option.some.inj hfirst).symm

omit [DecidableEq π] in
theorem Ordered.acquired_prefix {lock : Lock π}
    (hordered : Ordered m lock line) : lock.acquired <+: lock.drawn := by
  rw [hordered.drawn]
  rcases hordered.acquired with ⟨hfree, -⟩ | ⟨party, hlocked, hheld⟩
  · rw [hfree]
    exact List.prefix_append _ _
  · rw [hheld, List.prefix_append_right_inj]
    have hfirst := hordered.first party hlocked
    cases hline : line.map Prod.fst with
    | nil => simp [hline] at hfirst
    | cons head rest =>
        obtain rfl : head = party := by simpa [hline] using hfirst
        exact ⟨rest, rfl⟩

omit [DecidableEq π] in
theorem Ordered.count_drawn [BEq π] [LawfulBEq π] {lock : Lock π}
    (hordered : Ordered m lock line) (party : π) :
    lock.drawn.count party ≤ lock.released.count party + 1 := by
  rw [hordered.drawn, List.count_append]
  exact Nat.add_le_add_left
    (List.nodup_iff_count_le_one.mp hordered.once party) _

omit [DecidableEq π] in
/-- Whoever has the lock was the last one to acquire it, and it was not
released since. -/
theorem Ordered.held {lock : Lock π} (hordered : Ordered m lock line)
    (hlocked : (lock.place party).locked = true) :
    lock.acquired = lock.released ++ [party] := by
  rcases hordered.acquired with ⟨-, hnone⟩ | ⟨other, hother, hheld⟩
  · rw [hnone party] at hlocked
    cases hlocked
  · rw [hordered.exclusive hlocked hother]
    exact hheld

omit [DecidableEq π] in
theorem Ordered.mem_of_first {lock : Lock π} (hordered : Ordered m lock line)
    (hfirst : (line.map Prod.fst).head? = some party) :
    lock.place party ≠ .away :=
  (hordered.ticket party).mpr (List.mem_of_mem_head? hfirst)

theorem Ordered.hold {lock : Lock π} (hordered : Ordered m lock line)
    (hfirst : (line.map Prod.fst).head? = some party)
    (hlocked : place.locked = true)
    (hstoring : ∀ number, place = .storing number →
      number = (lock.serving + 1) % m) :
    Ordered m { lock.move party place with
      acquired := lock.released ++ [party] } line where
  serving_lt := hordered.serving_lt
  numbered := hordered.numbered
  once := hordered.once
  ticket other := by
    by_cases heq : other = party
    · subst heq
      have hplace : place ≠ .away := by
        rintro rfl
        cases hlocked
      simpa [Lock.move, hplace] using
        (hordered.ticket other).mp (hordered.mem_of_first hfirst)
    · simpa [Lock.move, heq] using hordered.ticket other
  waiting other number hother := by
    by_cases heq : other = party
    · subst heq
      obtain rfl : place = .waiting number := by
        simpa [Lock.move] using hother
      cases hlocked
    · exact hordered.waiting other number
        (by simpa [Lock.move, heq] using hother)
  first other hother := by
    by_cases heq : other = party
    · exact heq ▸ hfirst
    · exact hordered.first other (by simpa [Lock.move, heq] using hother)
  storing other number hother := by
    by_cases heq : other = party
    · subst heq
      exact hstoring number (by simpa [Lock.move] using hother)
    · exact hordered.storing other number
        (by simpa [Lock.move, heq] using hother)
  drawn := hordered.drawn
  acquired := Or.inr ⟨party, by simpa [Lock.move] using hlocked, rfl⟩

theorem Ordered.draw {lock : Lock π} (hordered : Ordered m lock line)
    (haway : lock.place party = .away) :
    Ordered m
      { lock.move party (.waiting lock.next) with
        next := (lock.next + 1) % m
        drawn := lock.drawn ++ [party] }
      (line ++ [(party, lock.next)]) where
  serving_lt := hordered.serving_lt
  numbered := hordered.numbered.draw party
  once := by
    rw [List.map_append, List.map_singleton, ← List.concat_eq_append]
    refine hordered.once.concat fun hmem => ?_
    exact (hordered.ticket party).mpr hmem haway
  ticket other := by
    by_cases heq : other = party
    · subst heq
      simp [Lock.move]
    · simpa [Lock.move, heq] using hordered.ticket other
  waiting other number hother := by
    by_cases heq : other = party
    · subst heq
      obtain rfl : lock.next = number := by
        simpa [Lock.move] using hother
      simp
    · exact List.mem_append_left _ (hordered.waiting other number
        (by simpa [Lock.move, heq] using hother))
  first other hother := by
    have hne : other ≠ party := by
      rintro rfl
      simp [Lock.move, Place.locked] at hother
    have hfirst := hordered.first other (by simpa [Lock.move, hne] using hother)
    rw [List.map_append, List.head?_append, hfirst]
    rfl
  storing other number hother := by
    have hne : other ≠ party := by
      rintro rfl
      simp [Lock.move] at hother
    exact hordered.storing other number
      (by simpa [Lock.move, hne] using hother)
  drawn := by simp [Lock.move, hordered.drawn]
  acquired := by
    rcases hordered.acquired with ⟨hfree, hnone⟩ | ⟨holder, hlocked, hheld⟩
    · refine Or.inl ⟨hfree, fun other => ?_⟩
      by_cases heq : other = party
      · simp [Lock.move, heq, Place.locked]
      · simpa [Lock.move, heq] using hnone other
    · have hne : holder ≠ party := by
        rintro rfl
        rw [haway] at hlocked
        cases hlocked
      exact Or.inr ⟨holder, by simpa [Lock.move, hne] using hlocked, hheld⟩

theorem Ordered.store {lock : Lock π} (hordered : Ordered m lock line)
    (hstoring : lock.place party = .storing number) :
    ∃ rest, Ordered m
      { lock.move party .away with
        serving := number
        released := lock.released ++ [party] } rest := by
  have hlocked : (lock.place party).locked = true := by
    rw [hstoring]
    rfl
  have hfirst := hordered.first party hlocked
  obtain rfl := hordered.storing party number hstoring
  have hother : ∀ other, other ≠ party → (lock.place other).locked = false := by
    intro other hne
    refine Bool.eq_false_of_not_eq_true fun hheld => hne ?_
    exact hordered.exclusive hheld hlocked
  obtain ⟨⟨head, ticket⟩, rest, rfl⟩ : ∃ head rest, line = head :: rest := by
    cases line with
    | nil => cases hfirst
    | cons head rest => exact ⟨head, rest, rfl⟩
  obtain rfl : head = party := by simpa using hfirst
  obtain ⟨hhead, honce⟩ := List.nodup_cons.mp hordered.once
  refine ⟨rest, ⟨?_, hordered.numbered.serve, honce, ?_, ?_, ?_, ?_, ?_, ?_⟩⟩
  · exact Nat.mod_lt _ (Nat.zero_lt_of_lt hordered.serving_lt)
  · intro other
    by_cases heq : other = head
    · subst heq
      simpa [Lock.move] using hhead
    · simpa [Lock.move, heq] using hordered.ticket other
  · intro other ticket' hwaiting
    have hne : other ≠ head := by
      rintro rfl
      simp [Lock.move] at hwaiting
    have hmem := hordered.waiting other ticket'
      (by simpa [Lock.move, hne] using hwaiting)
    simpa [hne] using hmem
  · intro other hheld
    by_cases heq : other = head
    · simp [Lock.move, heq, Place.locked] at hheld
    · simp [Lock.move, heq, hother other heq] at hheld
  · intro other number hwrites
    by_cases heq : other = head
    · simp [Lock.move, heq] at hwrites
    · have hheld := hother other heq
      simp only [Lock.move, Function.update_of_ne heq] at hwrites
      rw [hwrites] at hheld
      cases hheld
  · simp [Lock.move, hordered.drawn]
  · refine Or.inl ⟨hordered.held hlocked, fun other => ?_⟩
    by_cases heq : other = head
    · simp [Lock.move, heq, Place.locked]
    · simpa [Lock.move, heq] using hother other heq

/-- As long as there are no more parties than numbers, every step keeps the
order. -/
theorem Step.ordered [Fintype π] {lock : Lock π}
    (hstep : Step m lock party lock') (hordered : Ordered m lock line)
    (hcard : Fintype.card π ≤ m) : ∃ line', Ordered m lock' line' := by
  cases hstep with
  | skip => exact ⟨line, hordered⟩
  | draw haway => exact ⟨_, hordered.draw haway⟩
  | acquire hwaiting =>
      have hlength : line.length ≤ m := by
        have hparties := hordered.once.length_le_card
        rw [List.length_map] at hparties
        exact hparties.trans hcard
      obtain ⟨rest, hline⟩ := hordered.numbered.first hordered.serving_lt
        hlength (hordered.waiting party _ hwaiting)
      have hfirst : (line.map Prod.fst).head? = some party := by
        rw [hline]
        rfl
      have hfree : lock.acquired = lock.released := by
        rcases hordered.acquired with ⟨hfree, -⟩ | ⟨holder, hlocked, -⟩
        · exact hfree
        · have hholder := hordered.first holder hlocked
          rw [hfirst] at hholder
          rw [← Option.some.inj hholder, hwaiting] at hlocked
          cases hlocked
      rw [hfree]
      exact ⟨line, hordered.hold hfirst rfl fun _ hno => by cases hno⟩
  | read hholding =>
      have hlocked : (lock.place party).locked = true := by
        rw [hholding]
        rfl
      have hnumber : ∀ number,
          Place.storing ((lock.serving + 1) % m) = .storing number →
          number = (lock.serving + 1) % m := by
        rintro number ⟨⟩
        rfl
      have hheld :=
        hordered.hold (hordered.first party hlocked) rfl hnumber
      rw [← hordered.held hlocked] at hheld
      exact ⟨line, hheld⟩
  | store hstoring => exact hordered.store hstoring

end TicketLock

end X86Os32.Library
