import X86Os32.Library.Runs
import X86Os32.Machine.KeyDecoder
import X86Os32.User.TimeArithmetic

namespace X86Os32

open Library

/-! The ports of `user/time/cmos.cc` and the interrupts of `user/time/rtc.cc`: a thread
reads and writes registers while the clock ticks and the prologue asks what has
happened, one access of a port at a time. -/

namespace CMOS

def nmiBitmask : UInt8 := 0x80

def statusC : UInt8 := 0x0c

def irqUpdate : UInt8 := 0x10

inductive Transfer
  | read
  | write (value : UInt8)
deriving DecidableEq

/-- Where `read_port` or `write_port` stands: in `select_offset`, or in front of the
data port. -/
inductive Stage
  | inb
  | outb (val : UInt8)
  | data
deriving DecidableEq

structure Access where
  offset : UInt8
  stage : Stage
  transfers : List Transfer
deriving DecidableEq

def readPort (offset : UInt8) : Access := ⟨offset, .inb, [.read]⟩

def writePort (offset value : UInt8) : Access := ⟨offset, .inb, [.read, .write value]⟩

inductive Party
  | thread
  | prologue
deriving DecidableEq

/-- The clock, the calls under way, and the time of the RTC object. `index` is what the
control port holds, with the bit for the non-maskable interrupt. The last fields
record for each transfer of the thread which register it asked for and which one it
got, and count the seconds that have passed, that the prologue has seen, and that came
while the one before was not seen yet. -/
structure Clock where
  index : UInt8
  registers : UInt8 → UInt8
  access : Party → Option Access
  time : Time
  done : List (UInt8 × UInt8)
  passed : Nat
  seen : Nat
  missed : Nat

inductive ClockEvent
  | second
  | irq (flags : UInt8)
  | call (offset : UInt8) (value? : Option UInt8)
  | interrupt
  | next (party : Party)
deriving DecidableEq

namespace Clock

variable (s : Clock)

def address : UInt8 := s.index &&& ~~~nmiBitmask

/-- An update of the clock has ended, and no one has asked since. -/
def updated : Bool := s.registers statusC &&& irqUpdate != 0

def raise (flags : UInt8) : Clock :=
  { s with registers :=
      Function.update s.registers statusC (s.registers statusC ||| flags) }

def second : Clock :=
  { s.raise irqUpdate with
    passed := s.passed + 1
    missed := if s.updated then s.missed + 1 else s.missed }

/-- The data port: status register C is read only, and cleared when it is read. -/
def transfer : Transfer → UInt8 × Clock
  | .read => (s.registers s.address,
      if s.address = statusC then
        { s with registers := Function.update s.registers statusC 0 }
      else s)
  | .write value => (value,
      if s.address = statusC then s
      else { s with registers := Function.update s.registers s.address value })

/-- What the caller does with the byte: `prologue` looks for the update. -/
def finish (party : Party) (offset value : UInt8) : Clock :=
  match party with
  | .thread => { s with done := s.done ++ [(offset, s.address)] }
  | .prologue =>
      if value &&& irqUpdate ≠ 0 then
        { s with time := s.time.incrementSeconds 1, seen := s.seen + 1 }
      else s

def setAccess (party : Party) (access : Option Access) : Clock :=
  { s with access := Function.update s.access party access }

/-- The next access of a call; `write_port` selects the register twice. -/
def advance (party : Party) : Access → Option Clock
  | ⟨offset, .inb, transfers⟩ =>
      some (s.setAccess party (some ⟨offset, .outb s.index, transfers⟩))
  | ⟨offset, .outb val, transfers⟩ =>
      let index := (val &&& nmiBitmask) ||| (offset &&& ~~~nmiBitmask)
      some (setAccess { s with index } party (some ⟨offset, .data, transfers⟩))
  | ⟨_, .data, []⟩ => none
  | ⟨offset, .data, transfer :: rest⟩ =>
      let (value, s) := s.transfer transfer
      some ((s.finish party offset value).setAccess party
        (if rest = [] then none else some ⟨offset, .inb, rest⟩))

/-- A thread accesses registers of the time; the prologue calls `is_update_irq`. -/
def step : ClockEvent → Option Clock
  | .second => some s.second
  | .irq flags => if flags &&& irqUpdate = 0 then some (s.raise flags) else none
  | .call offset value? =>
      if s.access .thread = none ∧ offset &&& ~~~nmiBitmask = offset ∧
          offset ≠ statusC then
        some (s.setAccess .thread (some (match value? with
          | none => readPort offset
          | some value => writePort offset value)))
      else none
  | .interrupt =>
      if s.access .prologue = none then
        some (s.setAccess .prologue (some (readPort statusC)))
      else none
  | .next party => (s.access party).bind (s.advance party)

/-- No access is under way, and no update is waiting to be seen. -/
structure Fresh (s : Clock) : Prop where
  access : ∀ party, s.access party = none
  updated : s.updated = false
  time : s.time.Valid
  done : s.done = []
  zero : s.passed = 0 ∧ s.seen = 0 ∧ s.missed = 0

/-- No call begins while the other party is inside one. -/
def Alone (s : Clock) : ClockEvent → Prop
  | .call _ _ => s.access .prologue = none
  | .interrupt => s.access .thread = none
  | _ => True

instance (s : Clock) (event : ClockEvent) : Decidable (s.Alone event) :=
  match event with
  | .call _ _ => inferInstanceAs (Decidable (s.access .prologue = none))
  | .interrupt => inferInstanceAs (Decidable (s.access .thread = none))
  | .second | .irq _ | .next _ => inferInstanceAs (Decidable True)

variable {start s s' : Clock} {event : ClockEvent} {party : Party} {access : Access}

/-! ### The bit for the non-maskable interrupt -/

theorem select_nmi (val offset : UInt8) :
    ((val &&& nmiBitmask) ||| (offset &&& ~~~nmiBitmask)) &&& nmiBitmask =
      val &&& nmiBitmask := by
  have hnone : ~~~nmiBitmask &&& nmiBitmask = 0 := rfl
  rw [byte_or_and, UInt8.and_assoc, UInt8.and_self, UInt8.and_assoc, hnone,
    UInt8.and_zero, UInt8.or_zero]

theorem select_address {offset : UInt8}
    (hoffset : offset &&& ~~~nmiBitmask = offset) (val : UInt8) :
    ((val &&& nmiBitmask) ||| (offset &&& ~~~nmiBitmask)) &&& ~~~nmiBitmask =
      offset := by
  have hnone : nmiBitmask &&& ~~~nmiBitmask = 0 := rfl
  rw [byte_or_and, UInt8.and_assoc, hnone, UInt8.and_zero, UInt8.zero_or,
    UInt8.and_assoc, UInt8.and_self, hoffset]

/-- The bit is where it was, also in what a call is about to write. -/
structure Masks (start s : Clock) : Prop where
  index : s.index &&& nmiBitmask = start.index &&& nmiBitmask
  access : ∀ party offset val transfers,
    s.access party = some ⟨offset, .outb val, transfers⟩ →
      val &&& nmiBitmask = start.index &&& nmiBitmask

theorem Masks.setAccess (hmasks : Masks start s) (party : Party)
    (access : Option Access)
    (haccess : ∀ offset val transfers, access = some ⟨offset, .outb val, transfers⟩ →
      val &&& nmiBitmask = start.index &&& nmiBitmask) :
    Masks start (s.setAccess party access) := by
  refine ⟨hmasks.index, ?_⟩
  intro party' offset val transfers heq
  change Function.update s.access party access party' = _ at heq
  by_cases hparty : party' = party
  · subst hparty
    rw [Function.update_self] at heq
    exact haccess offset val transfers heq
  · rw [Function.update_of_ne hparty] at heq
    exact hmasks.access party' offset val transfers heq

theorem transfer_kept (s : Clock) (transfer : Transfer) :
    (s.transfer transfer).2.index = s.index ∧
      (s.transfer transfer).2.access = s.access := by
  cases transfer with
  | read =>
      unfold Clock.transfer
      dsimp only
      split <;> exact ⟨rfl, rfl⟩
  | write value =>
      unfold Clock.transfer
      dsimp only
      split <;> exact ⟨rfl, rfl⟩

theorem finish_kept (s : Clock) (party : Party) (offset value : UInt8) :
    (s.finish party offset value).index = s.index ∧
      (s.finish party offset value).access = s.access := by
  unfold finish
  cases party with
  | thread => exact ⟨rfl, rfl⟩
  | prologue =>
      dsimp only
      split <;> exact ⟨rfl, rfl⟩

theorem Masks.step (hmasks : Masks start s) (hstep : s.step event = some s') :
    Masks start s' := by
  cases event with
  | second =>
      obtain rfl := Option.some.inj hstep
      exact { hmasks with }
  | irq flags =>
      obtain ⟨-, hstep⟩ := Option.ite_none_right_eq_some.mp hstep
      obtain rfl := Option.some.inj hstep
      exact { hmasks with }
  | call offset value? =>
      obtain ⟨-, hstep⟩ := Option.ite_none_right_eq_some.mp hstep
      obtain rfl := Option.some.inj hstep
      refine hmasks.setAccess _ _ fun _ _ _ heq => ?_
      cases value? <;> cases heq
  | interrupt =>
      obtain ⟨-, hstep⟩ := Option.ite_none_right_eq_some.mp hstep
      obtain rfl := Option.some.inj hstep
      exact hmasks.setAccess _ _ fun _ _ _ heq => by cases heq
  | next party =>
      obtain ⟨⟨offset, stage, transfers⟩, haccess, hadvance⟩ :=
        Option.bind_eq_some_iff.mp hstep
      cases stage with
      | inb =>
          obtain rfl := Option.some.inj hadvance
          refine hmasks.setAccess _ _ fun _ val _ heq => ?_
          cases heq
          exact hmasks.index
      | outb val =>
          obtain rfl := Option.some.inj hadvance
          have hval := hmasks.access party offset val transfers haccess
          have hmasks' : Masks start { s with
              index := (val &&& nmiBitmask) ||| (offset &&& ~~~nmiBitmask) } :=
            ⟨(select_nmi val offset).trans hval, hmasks.access⟩
          exact hmasks'.setAccess _ _ fun _ _ _ heq => by cases heq
      | data =>
          cases transfers with
          | nil => cases hadvance
          | cons transfer rest =>
              obtain rfl := Option.some.inj hadvance
              obtain ⟨hindex, haccess'⟩ := s.transfer_kept transfer
              obtain ⟨hindex', haccess''⟩ := (s.transfer transfer).2.finish_kept party
                offset (s.transfer transfer).1
              have hmasks' : Masks start ((s.transfer transfer).2.finish party offset
                  (s.transfer transfer).1) := by
                constructor
                · rw [hindex', hindex]
                  exact hmasks.index
                · rw [haccess'', haccess']
                  exact hmasks.access
              refine hmasks'.setAccess _ _ fun _ _ _ heq => ?_
              split at heq <;> cases heq

/-! ### Calls that are not interrupted -/

def Fits : Party → UInt8 → List Transfer → Prop
  | .thread, offset, _ => offset &&& ~~~nmiBitmask = offset ∧ offset ≠ statusC
  | .prologue, offset, transfers => offset = statusC ∧ transfers = [.read]

theorem Fits.masked {offset : UInt8} {transfers : List Transfer}
    (hfits : Fits party offset transfers) : offset &&& ~~~nmiBitmask = offset := by
  cases party with
  | thread => exact hfits.1
  | prologue =>
      rw [hfits.1]
      rfl

/-- At most one party is inside a call, and in front of the data port its register is
selected. -/
structure Calls (s : Clock) : Prop where
  alone : ∃ party, ∀ other, other ≠ party → s.access other = none
  fits : ∀ party access, s.access party = some access →
    Fits party access.offset access.transfers
  selected : ∀ party access, s.access party = some access →
    access.stage = .data → s.address = access.offset

theorem Calls.others (hcalls : Calls s) (haccess : s.access party = some access)
    (other : Party) (hother : other ≠ party) : s.access other = none := by
  obtain ⟨single, hsingle⟩ := hcalls.alone
  have heq : party = single := by
    by_contra hne
    rw [hsingle party hne] at haccess
    cases haccess
  exact hsingle other (heq ▸ hother)

theorem calls_setAccess {access? : Option Access}
    (hothers : ∀ other, other ≠ party → s.access other = none)
    (hfits : ∀ access, access? = some access →
      Fits party access.offset access.transfers)
    (hselected : ∀ access, access? = some access → access.stage = .data →
      s.address = access.offset) :
    Calls (s.setAccess party access?) := by
  have hnew : ∀ other access, (s.setAccess party access?).access other = some access →
      other = party ∧ access? = some access := by
    intro other access heq
    change Function.update s.access party access? other = _ at heq
    by_cases hother : other = party
    · subst hother
      rw [Function.update_self] at heq
      exact ⟨rfl, heq⟩
    · rw [Function.update_of_ne hother, hothers other hother] at heq
      cases heq
  refine ⟨⟨party, fun other hother => ?_⟩, ?_, ?_⟩
  · exact (Function.update_of_ne hother ..).trans (hothers other hother)
  · intro other access heq
    obtain ⟨rfl, haccess⟩ := hnew other access heq
    exact hfits access haccess
  · intro other access heq
    obtain ⟨rfl, haccess⟩ := hnew other access heq
    exact hselected access haccess

theorem Calls.step (hcalls : Calls s) (halone : s.Alone event)
    (hstep : s.step event = some s') : Calls s' := by
  cases event with
  | second =>
      obtain rfl := Option.some.inj hstep
      exact { hcalls with }
  | irq flags =>
      obtain ⟨-, hstep⟩ := Option.ite_none_right_eq_some.mp hstep
      obtain rfl := Option.some.inj hstep
      exact { hcalls with }
  | call offset value? =>
      obtain ⟨⟨-, hmasked, hother⟩, hstep⟩ := Option.ite_none_right_eq_some.mp hstep
      obtain rfl := Option.some.inj hstep
      refine calls_setAccess ?_ ?_ ?_
      · intro other hne
        cases other with
        | thread => exact absurd rfl hne
        | prologue => exact halone
      · intro access heq
        cases value? <;> cases heq <;> exact ⟨hmasked, hother⟩
      · intro access heq hdata
        cases value? <;> cases heq <;> cases hdata
  | interrupt =>
      obtain ⟨-, hstep⟩ := Option.ite_none_right_eq_some.mp hstep
      obtain rfl := Option.some.inj hstep
      refine calls_setAccess ?_ ?_ ?_
      · intro other hne
        cases other with
        | thread => exact halone
        | prologue => exact absurd rfl hne
      · intro access heq
        cases heq
        exact ⟨rfl, rfl⟩
      · intro access heq hdata
        cases heq
        cases hdata
  | next party =>
      obtain ⟨⟨offset, stage, transfers⟩, haccess, hadvance⟩ :=
        Option.bind_eq_some_iff.mp hstep
      have hothers := hcalls.others haccess
      have hfits := hcalls.fits party _ haccess
      cases stage with
      | inb =>
          obtain rfl := Option.some.inj hadvance
          refine calls_setAccess hothers ?_ ?_
          · intro access heq
            cases heq
            exact hfits
          · intro access heq hdata
            cases heq
            cases hdata
      | outb val =>
          obtain rfl := Option.some.inj hadvance
          refine calls_setAccess hothers ?_ ?_
          · intro access heq
            cases heq
            exact hfits
          · intro access heq _
            cases heq
            exact select_address hfits.masked val
      | data =>
          cases transfers with
          | nil => cases hadvance
          | cons transfer rest =>
              obtain rfl := Option.some.inj hadvance
              have hkept : ((s.transfer transfer).2.finish party offset
                  (s.transfer transfer).1).access = s.access :=
                ((s.transfer transfer).2.finish_kept party offset _).2.trans
                  (s.transfer_kept transfer).2
              refine calls_setAccess (hkept.symm ▸ hothers) ?_ ?_
              · intro access heq
                split at heq
                · cases heq
                · next hrest =>
                  cases heq
                  cases party with
                  | thread => exact hfits
                  | prologue =>
                      obtain ⟨-, hread⟩ := hfits
                      exact absurd (List.cons.inj hread).2 hrest
              · intro access heq hdata
                split at heq
                · cases heq
                · cases heq
                  cases hdata

/-! ### The seconds -/

/-- The transfers of the thread went to its registers, the time is the one at the start
and the seconds that the prologue has seen, and every second was seen, was missed, or
waits to be seen. -/
structure Counts (start s : Clock) : Prop where
  done : ∀ pair ∈ s.done, pair.1 = pair.2
  valid : s.time.Valid
  seconds : s.time.seconds = (start.time.seconds + s.seen) % Time.cycleSeconds
  passed : s.passed = s.seen + s.missed + if s.updated then 1 else 0

theorem Fresh.counts (hfresh : Fresh s) : Counts s s := by
  obtain ⟨hpassed, hseen, hmissed⟩ := hfresh.zero
  refine ⟨?_, hfresh.time, ?_, ?_⟩
  · rw [hfresh.done]
    nofun
  · have hminutes := hfresh.time.minutes_lt
    have hsecond := hfresh.time.second_lt
    rw [hseen, Nat.add_zero, Nat.mod_eq_of_lt]
    unfold Time.seconds Time.cycleSeconds
    omega
  · rw [hpassed, hseen, hmissed, hfresh.updated]
    rfl

theorem Fresh.calls (hfresh : Fresh s) : Calls s := by
  refine ⟨⟨.thread, fun other _ => hfresh.access other⟩, ?_, ?_⟩
  · intro party access haccess
    rw [hfresh.access party] at haccess
    cases haccess
  · intro party access haccess
    rw [hfresh.access party] at haccess
    cases haccess

theorem updated_raise_of {flags : UInt8} (hflags : flags &&& irqUpdate = 0) :
    (s.raise flags).updated = s.updated := by
  unfold updated raise
  dsimp only
  rw [Function.update_self, byte_or_and, hflags, UInt8.or_zero]

theorem updated_second (s : Clock) : s.second.updated = true := by
  have hset : ∀ n < 256, (UInt8.ofNat n ||| irqUpdate) &&& irqUpdate ≠ 0 := by
    decide +kernel
  have hflag := hset (s.registers statusC).toNat (s.registers statusC).toNat_lt
  rw [UInt8.ofNat_toNat] at hflag
  unfold updated second raise
  dsimp only
  rw [Function.update_self]
  exact bne_iff_ne.mpr hflag

theorem updated_transfer (transfer : Transfer) (haddress : s.address ≠ statusC) :
    (s.transfer transfer).2.updated = s.updated := by
  cases transfer with
  | read =>
      unfold Clock.transfer
      dsimp only
      rw [if_neg haddress]
  | write value =>
      unfold Clock.transfer updated
      dsimp only
      rw [if_neg haddress]
      dsimp only
      rw [Function.update_of_ne (Ne.symm haddress)]

theorem Counts.second (hcounts : Counts start s) : Counts start s.second := by
  refine ⟨hcounts.done, hcounts.valid, hcounts.seconds, ?_⟩
  have hpassed := hcounts.passed
  rw [updated_second]
  change s.passed + 1 = s.seen + (if s.updated then s.missed + 1 else s.missed) + 1
  cases hupdated : s.updated with
  | true =>
      rw [hupdated, if_pos rfl] at hpassed
      rw [if_pos rfl]
      omega
  | false =>
      rw [hupdated, if_neg (by decide)] at hpassed
      rw [if_neg (by decide)]
      omega

theorem Counts.thread (hcounts : Counts start s) {offset : UInt8}
    (hselected : s.address = offset) (hother : offset ≠ statusC) (transfer : Transfer) :
    Counts start ((s.transfer transfer).2.finish .thread offset
      (s.transfer transfer).1) := by
  have haddress : s.address ≠ statusC := hselected ▸ hother
  have hupdated := updated_transfer transfer haddress
  have hcounts' : Counts start (s.transfer transfer).2 := by
    have hpassed := hcounts.passed
    rw [← hupdated] at hpassed
    cases transfer with
    | read =>
        unfold Clock.transfer
        rw [if_neg haddress]
        exact hcounts
    | write value =>
        have hwrite : (s.transfer (.write value)).2 = { s with
            registers := Function.update s.registers s.address value } := by
          unfold Clock.transfer
          dsimp only
          rw [if_neg haddress]
        rw [hwrite] at hpassed ⊢
        exact { hcounts with passed := hpassed }
  have hsame : (s.transfer transfer).2.address = offset := by
    unfold address at hselected ⊢
    rw [(s.transfer_kept transfer).1, hselected]
  refine { hcounts' with done := ?_ }
  intro pair hpair
  rcases List.mem_append.mp hpair with hold | hnew
  · exact hcounts'.done pair hold
  · rw [List.mem_singleton.mp hnew]
    exact hsame.symm

theorem Counts.prologue (hcounts : Counts start s) (hselected : s.address = statusC) :
    Counts start ((s.transfer .read).2.finish .prologue statusC
      (s.transfer .read).1) := by
  have hpassed := hcounts.passed
  have hcleared : updated { s with
      registers := Function.update s.registers statusC 0 } = false := by
    unfold updated
    dsimp only
    rw [Function.update_self]
    rfl
  unfold Clock.transfer finish
  rw [if_pos hselected, hselected]
  dsimp only
  by_cases hflag : s.registers statusC &&& irqUpdate ≠ 0
  · have hupdated : s.updated = true := bne_iff_ne.mpr hflag
    have hsecond := hcounts.valid.second_lt
    obtain ⟨hvalid, hseconds, -⟩ := Time.incrementSeconds_spec hcounts.valid
      (show s.time.second + 1 < 2 ^ 32 by omega)
    rw [if_pos hflag]
    rw [hupdated, if_pos rfl] at hpassed
    refine ⟨hcounts.done, hvalid, ?_, ?_⟩
    · change (s.time.incrementSeconds 1).seconds = (_ + (s.seen + 1)) % _
      rw [hseconds, hcounts.seconds, Nat.mod_add_mod, Nat.add_assoc]
    · change s.passed = s.seen + 1 + s.missed + if updated { s with
        registers := Function.update s.registers statusC 0 } then 1 else 0
      rw [hcleared, if_neg (by decide)]
      omega
  · have hupdated : s.updated = false := by
      rw [not_not] at hflag
      exact bne_eq_false_iff_eq.mpr hflag
    rw [if_neg hflag]
    rw [hupdated] at hpassed
    refine ⟨hcounts.done, hcounts.valid, hcounts.seconds, ?_⟩
    rw [hcleared]
    exact hpassed

theorem Counts.step (hcounts : Counts start s) (hcalls : Calls s)
    (hstep : s.step event = some s') : Counts start s' := by
  cases event with
  | second =>
      obtain rfl := Option.some.inj hstep
      exact hcounts.second
  | irq flags =>
      obtain ⟨hflags, hstep⟩ := Option.ite_none_right_eq_some.mp hstep
      obtain rfl := Option.some.inj hstep
      refine { hcounts with passed := ?_ }
      rw [updated_raise_of hflags]
      exact hcounts.passed
  | call offset value? =>
      obtain ⟨-, hstep⟩ := Option.ite_none_right_eq_some.mp hstep
      obtain rfl := Option.some.inj hstep
      exact { hcounts with }
  | interrupt =>
      obtain ⟨-, hstep⟩ := Option.ite_none_right_eq_some.mp hstep
      obtain rfl := Option.some.inj hstep
      exact { hcounts with }
  | next party =>
      obtain ⟨⟨offset, stage, transfers⟩, haccess, hadvance⟩ :=
        Option.bind_eq_some_iff.mp hstep
      have hfits := hcalls.fits party _ haccess
      cases stage with
      | inb =>
          obtain rfl := Option.some.inj hadvance
          exact { hcounts with }
      | outb val =>
          obtain rfl := Option.some.inj hadvance
          exact { hcounts with }
      | data =>
          have hselected : s.address = offset := hcalls.selected party _ haccess rfl
          cases transfers with
          | nil => cases hadvance
          | cons transfer rest =>
              obtain rfl := Option.some.inj hadvance
              cases party with
              | thread =>
                  exact { hcounts.thread hselected hfits.2 transfer with }
              | prologue =>
                  obtain ⟨rfl, hread⟩ := hfits
                  obtain ⟨rfl, rfl⟩ := List.cons.inj hread
                  exact { hcounts.prologue hselected with }

/-- In every order of the accesses the non-maskable interrupt stays as it was. As long
as no call begins while the other party is inside one, the thread reads and writes the
registers that it asks for, and the time of the RTC is always a valid time, which lies
as many seconds behind the start as updates were seen; the others were missed because
the one before had not been seen yet, but for one that may still wait. -/
theorem time_follows_updates (hfresh : Fresh start) :
    (∀ s, Runs.Reachable (· = start) (fun s event s' => step s event = some s') s →
      s.index &&& nmiBitmask = start.index &&& nmiBitmask) ∧
    ∀ s, Runs.Reachable (· = start) (fun s event s' =>
        s.Alone event ∧ step s event = some s') s →
      (∀ pair ∈ s.done, pair.1 = pair.2) ∧ s.time.Valid ∧
        s.time.seconds = (start.time.seconds + s.seen) % Time.cycleSeconds ∧
        s.passed = s.seen + s.missed + if s.updated then 1 else 0 := by
  constructor
  · intro s hreach
    have hstart : Masks start start := by
      refine ⟨rfl, ?_⟩
      intro party offset val transfers haccess
      rw [hfresh.access party] at haccess
      cases haccess
    have hmasks : Masks start s :=
      Runs.Reachable.invariant hreach (fun _ heq => heq ▸ hstart)
        fun _ _ _ hmasks hstep => hmasks.step hstep
    exact hmasks.index
  · intro s hreach
    have hboth : Calls s ∧ Counts start s := by
      induction hreach with
      | start heq =>
          subst heq
          exact ⟨hfresh.calls, hfresh.counts⟩
      | next _ hstep ih =>
          exact ⟨ih.1.step hstep.1 hstep.2, ih.2.step ih.1 hstep.2⟩
    obtain ⟨-, hcounts⟩ := hboth
    exact ⟨hcounts.done, hcounts.valid, hcounts.seconds, hcounts.passed⟩

/-! ### Sample runs -/

/-- The interrupt is disabled, and the clock stands at the last second of a leap day. -/
def leapDay : Clock where
  index := 0x80
  registers _ := 0
  access _ := none
  time := Time.sampleTime
  done := []
  passed := 0
  seen := 0
  missed := 0

theorem leapDay_fresh : Fresh leapDay where
  access _ := rfl
  updated := rfl
  time := Time.sampleTime_valid
  done := rfl
  zero := ⟨rfl, rfl, rfl⟩

def whole (party : Party) (n : Nat) : List ClockEvent := List.replicate (3 * n) (.next party)

/-- Two seconds pass before the prologue looks, and a third one after the thread has
set the minute. -/
theorem time_follows_updates_leap_day : ∃ s : Clock,
    s.index &&& nmiBitmask = 0x80 ∧ s.passed = 3 ∧
      s.time.seconds = (Time.sampleTime.seconds + 1) % Time.cycleSeconds ∧
      3 = s.seen + s.missed + 1 := by
  obtain ⟨s, hrun, hplain, hpassed, hseen, hupdated⟩ :
      ∃ s, Runs.run (fun s event => if Alone s event then step s event else none) leapDay
          ([.second, .second, .interrupt] ++ whole .prologue 1 ++
            [.call 2 (some 0x30)] ++ whole .thread 2 ++ [.second]) = some s ∧
        Runs.run step leapDay
          ([.second, .second, .interrupt] ++ whole .prologue 1 ++
            [.call 2 (some 0x30)] ++ whole .thread 2 ++ [.second]) = some s ∧
        s.passed = 3 ∧ s.seen = 1 ∧ s.updated = true :=
    ⟨_, rfl, rfl, rfl, rfl, rfl⟩
  obtain ⟨hmask, hfollows⟩ := time_follows_updates leapDay_fresh
  obtain ⟨-, -, hseconds, hcount⟩ := hfollows s (Runs.Reachable.run_allowed rfl hrun)
  rw [hseen] at hseconds
  rw [hpassed, hupdated, if_pos rfl] at hcount
  exact ⟨s, hmask s (Runs.Reachable.run (.start rfl) hplain), hpassed, hseconds, hcount⟩

/-- The prologue interrupts `write_port` behind `select_offset`. -/
theorem write_misses : ∃ s : Clock,
    Runs.Reachable (· = leapDay) (fun s event s' => step s event = some s') s ∧
      (2, statusC) ∈ s.done := by
  obtain ⟨s, hrun, hdone⟩ :
      ∃ s, Runs.run step leapDay
          ([.call 2 (some 0x30)] ++ List.replicate 5 (.next .thread) ++ [.interrupt] ++
            whole .prologue 1 ++ [.next .thread]) = some s ∧
        (2, statusC) ∈ s.done :=
    ⟨_, rfl, by decide⟩
  exact ⟨s, Runs.Reachable.run (.start rfl) hrun, hdone⟩

end Clock

end CMOS

end X86Os32
