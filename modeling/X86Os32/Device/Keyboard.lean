import X86Os32.Library.CountingSemaphore
import X86Os32.Library.Runs
import X86Os32.Object.BBuffer

namespace X86Os32

open Library

/-! The keyboard of `device/keyboard.cc`.  The prologue fills one buffer while
the epilogue empties it, one access of shared memory at a time.  The epilogue
and `getkey` run under the guard, so what they do to the other buffer and the
semaphore is not interrupted by each other. -/

structure Key where
  asc : UInt8
  scan : UInt8
  modi : UInt8
deriving DecidableEq

namespace Key

def constructed : Key := ⟨0, 0, 0⟩

def valid (k : Key) : Bool := k.scan ≠ 0

end Key

/-- Where `prologue` stands in `prebuf.produce(k)`. -/
inductive Prologue
  | outside
  | checked (k : Key) (nextin : Nat)
  | stored (k : Key) (nextin : Nat)
deriving DecidableEq

/-- Where `epilogue` stands in its loop: before `prebuf.consume(k)`, inside it,
or behind it. -/
inductive Epilogue
  | outside
  | looping
  | found
  | read (k : Key)
  | holding (k : Key)
deriving DecidableEq

def Prologue.key : Prologue → List Key
  | .outside => []
  | .checked k _ => [k]
  | .stored k _ => [k]

/-- The key that the epilogue has taken out of the one buffer and not put into
the other yet. -/
def Epilogue.key : Epilogue → List Key
  | .holding k => [k]
  | _ => []

/-- `granted` are the threads that `sem.v()` has woken inside `getkey` and that
have not run since.  The last two fields record the keys that were pressed, and
the results of `getkey`. -/
structure Keyboard (τ : Type) where
  prebuf : BBuffer Key 64
  buf : BBuffer Key 64
  sem : CountingSemaphore τ
  prologue : Prologue
  epilogue : Epilogue
  granted : List τ
  pressed : List Key
  returned : List Key

inductive KeyboardEvent (τ : Type)
  | press (k : Key)
  | store
  | publish
  | relayed
  | look
  | take
  | release
  | deliver
  | getkey (t : τ)
  | resumed (t : τ)
deriving DecidableEq

namespace Keyboard

variable {τ : Type} (s : Keyboard τ)

/-- `prologue` has read a key; it goes on if the buffer is not full. -/
def press (k : Key) : Keyboard τ :=
  let s := { s with pressed := s.pressed ++ [k] }
  if s.prebuf.Full then s
  else { s with prologue := .checked k s.prebuf.nextin }

/-- The body of the loop of `epilogue`. -/
def deliver (k : Key) : Keyboard τ :=
  let (_, buf) := s.buf.produce k
  let (t, sem) := s.sem.v
  { s with buf, sem, granted := s.granted ++ t.toList, epilogue := .looping }

/-- `getkey` behind `sem.p()`. -/
def finish : Keyboard τ :=
  let (k, buf) := s.buf.consume
  { s with buf, returned := s.returned ++ [k.getD .constructed] }

def getkey (t : τ) : Keyboard τ :=
  let open_ := s.sem.counter > 0
  let s := { s with sem := s.sem.p t }
  if open_ then s.finish else s

def step [DecidableEq τ] (s : Keyboard τ) :
    KeyboardEvent τ → Option (Keyboard τ)
  | .press k =>
      if s.prologue = .outside ∧ k.valid then some (s.press k) else none
  | .store =>
      match s.prologue with
      | .checked k nextin => some { s with
          prebuf := s.prebuf.store k
          prologue := .stored k nextin }
      | _ => none
  | .publish =>
      match s.prologue with
      | .stored _ nextin => some { s with
          prebuf := s.prebuf.publish nextin
          prologue := .outside }
      | _ => none
  | .relayed =>
      if s.epilogue = .outside then some { s with epilogue := .looping }
      else none
  | .look =>
      if s.epilogue = .looping then
        if s.prebuf.inPos = s.prebuf.outPos then
          some { s with epilogue := .outside }
        else some { s with epilogue := .found }
      else none
  | .take =>
      if s.epilogue = .found then
        some { s with epilogue := .read (s.prebuf.data s.prebuf.outPos) }
      else none
  | .release =>
      match s.epilogue with
      | .read k => some { s with
          prebuf := s.prebuf.release
          epilogue := .holding k }
      | _ => none
  | .deliver =>
      match s.epilogue with
      | .holding k => some (s.deliver k)
      | _ => none
  | .getkey t =>
      if s.epilogue = .outside ∧ t ∉ s.sem.waiting ∧ t ∉ s.granted then
        some (s.getkey t)
      else none
  | .resumed t =>
      if s.epilogue = .outside ∧ t ∈ s.granted then
        some { s with granted := s.granted.erase t }.finish
      else none

def Initial (s : Keyboard τ) : Prop :=
  ∃ prebuf buf : BBuffer Key 64, prebuf.Constructed ∧ buf.Constructed ∧
    s = ⟨prebuf, buf, ⟨0, []⟩, .outside, .outside, [], [], []⟩

def ReachableBy [DecidableEq τ] (allowed : Keyboard τ → KeyboardEvent τ → Prop) :
    Keyboard τ → Prop :=
  Runs.Reachable Initial fun s event s' =>
    allowed s event ∧ s.step event = some s'

/-- The epilogue moves a key only while there is room for it. -/
def HasRoom (s : Keyboard τ) (event : KeyboardEvent τ) : Prop :=
  event = .deliver → ¬ s.buf.Full

instance [DecidableEq τ] (s : Keyboard τ) : DecidablePred (HasRoom s) :=
  fun _ => inferInstanceAs (Decidable (_ → _))

/-! ### Keys on their way -/

/-- The keys in the buffers, and on their way between them, are some of the
pressed ones in the order in which they were pressed. -/
structure Agrees (s : Keyboard τ) (prekeys keys : List Key) : Prop where
  prebuf : s.prebuf.Holds prekeys
  buf : s.buf.Holds keys
  nonneg : 0 ≤ s.sem.counter
  tokens : s.sem.counter + s.granted.length = keys.length
  checked : ∀ k nextin, s.prologue = .checked k nextin →
    nextin = s.prebuf.nextin ∧ prekeys.length + 1 < 64
  stored : ∀ k nextin, s.prologue = .stored k nextin →
    nextin = s.prebuf.nextin ∧ prekeys.length + 1 < 64 ∧
      s.prebuf.data s.prebuf.inPos = k
  found : s.epilogue = .found → prekeys ≠ []
  read : ∀ k, s.epilogue = .read k → prekeys.head? = some k
  order : (s.returned ++ keys ++ s.epilogue.key ++ prekeys ++
    s.prologue.key).Sublist s.pressed
  valid : ∀ k ∈ s.pressed, k.valid = true

variable {s s' : Keyboard τ} {prekeys keys rest : List Key} {k : Key} {t : τ}

theorem Initial.agrees (hinitial : Initial s) : Agrees s [] [] := by
  obtain ⟨prebuf, buf, hprebuf, hbuf, rfl⟩ := hinitial
  constructor
  · exact hprebuf.holds (by decide)
  · exact hbuf.holds (by decide)
  all_goals simp [Prologue.key, Epilogue.key]

/-! ### The prologue -/

theorem Agrees.press (hagrees : Agrees s prekeys keys)
    (houtside : s.prologue = .outside) (hvalid : k.valid = true) :
    Agrees (s.press k) prekeys keys := by
  have horder := hagrees.order
  have hpressed : ∀ k' ∈ s.pressed ++ [k], k'.valid = true := by
    intro k' hk'
    rcases List.mem_append.mp hk' with hold | hnew
    · exact hagrees.valid k' hold
    · rwa [List.mem_singleton.mp hnew]
  unfold Keyboard.press
  dsimp only
  split
  · exact { hagrees with
      order := horder.trans (List.sublist_append_left ..)
      valid := hpressed }
  · next hroom =>
    have hbound := hagrees.prebuf.bound
    rw [hagrees.prebuf.full_iff] at hroom
    rw [houtside] at horder
    simp only [Prologue.key, List.append_nil] at horder
    refine { hagrees with
      checked := ?_, stored := ?_, order := ?_, valid := hpressed }
    · intro k' nextin heq
      obtain ⟨rfl, rfl⟩ := Prologue.checked.inj heq
      exact ⟨rfl, by omega⟩
    · intro k' nextin heq
      cases heq
    · exact horder.append (List.Sublist.refl [k])

theorem Agrees.store {nextin : Nat} (hagrees : Agrees s prekeys keys)
    (hchecked : s.prologue = .checked k nextin) :
    Agrees { s with
      prebuf := s.prebuf.store k
      prologue := .stored k nextin } prekeys keys := by
  obtain ⟨hnextin, hroom⟩ := hagrees.checked k nextin hchecked
  have horder := hagrees.order
  rw [hchecked] at horder
  refine { hagrees with
    prebuf := hagrees.prebuf.store k
    checked := ?_, stored := ?_, order := horder }
  · intro k' nextin' heq
    cases heq
  · intro k' nextin' heq
    obtain ⟨rfl, rfl⟩ := Prologue.stored.inj heq
    exact ⟨hnextin, hroom, Function.update_self ..⟩

theorem Agrees.publish {nextin : Nat} (hagrees : Agrees s prekeys keys)
    (hstored : s.prologue = .stored k nextin) :
    Agrees { s with
      prebuf := s.prebuf.publish nextin
      prologue := .outside } (prekeys ++ [k]) keys := by
  obtain ⟨rfl, hroom, hdata⟩ := hagrees.stored k nextin hstored
  have horder := hagrees.order
  rw [hstored] at horder
  refine { hagrees with
    prebuf := hagrees.prebuf.publish hroom hdata
    checked := ?_, stored := ?_, found := ?_, read := ?_, order := ?_ }
  · intro k' nextin' heq
    cases heq
  · intro k' nextin' heq
    cases heq
  · simp
  · intro k' heq
    rw [List.head?_append, hagrees.read k' heq]
    rfl
  · simpa [Prologue.key] using horder

/-! ### The epilogue -/

theorem Agrees.moves {epilogue : Epilogue} (hagrees : Agrees s prekeys keys)
    (hkey : epilogue.key = s.epilogue.key)
    (hfound : epilogue = .found → prekeys ≠ [])
    (hread : ∀ k, epilogue = .read k → prekeys.head? = some k) :
    Agrees { s with epilogue } prekeys keys := by
  refine { hagrees with found := hfound, read := hread, order := ?_ }
  have horder := hagrees.order
  rw [← hkey] at horder
  exact horder

theorem Agrees.release (hagrees : Agrees s prekeys keys)
    (hread : s.epilogue = .read k) :
    ∃ rest, Agrees { s with
      prebuf := s.prebuf.release
      epilogue := .holding k } rest keys := by
  have hhead := hagrees.read k hread
  obtain ⟨rest, rfl⟩ := List.head?_eq_some_iff.mp hhead
  have horder := hagrees.order
  rw [hread] at horder
  refine ⟨rest, { hagrees with
    prebuf := hagrees.prebuf.release
    checked := ?_, stored := ?_, found := ?_, read := ?_, order := ?_ }⟩
  · intro k' nextin heq
    obtain ⟨hnextin, hroom⟩ := hagrees.checked k' nextin heq
    exact ⟨hnextin, Nat.lt_of_succ_lt hroom⟩
  · intro k' nextin heq
    obtain ⟨hnextin, hroom, hdata⟩ := hagrees.stored k' nextin heq
    exact ⟨hnextin, Nat.lt_of_succ_lt hroom, hdata⟩
  · intro heq
    cases heq
  · intro k' heq
    cases heq
  · simpa [Epilogue.key] using horder

theorem Agrees.deliver (hagrees : Agrees s prekeys keys)
    (hholding : s.epilogue = .holding k) (hroom : ¬ s.buf.Full) :
    Agrees (s.deliver k) prekeys (keys ++ [k]) := by
  obtain ⟨buf, hproduce, hbuf⟩ := hagrees.buf.produce hroom k
  have horder := hagrees.order
  rw [hholding] at horder
  have htokens := hagrees.tokens
  have hnonneg := hagrees.nonneg
  have hbound := hagrees.buf.bound
  have hnext : succInt s.sem.counter = s.sem.counter + 1 := succInt_of_ne (by omega)
  unfold Keyboard.deliver CountingSemaphore.v
  rw [hproduce]
  refine { hagrees with
    buf := hbuf, nonneg := ?_, tokens := ?_, found := ?_, read := ?_,
    order := ?_ }
  · cases s.sem.waiting with
    | nil =>
        change 0 ≤ succInt s.sem.counter
        omega
    | cons t rest => exact hnonneg
  · cases s.sem.waiting <;> simp <;> omega
  · intro heq
    cases heq
  · intro k' heq
    cases heq
  · simpa [Epilogue.key] using horder

/-! ### Readers -/

theorem Agrees.finish (hagrees : Agrees s prekeys keys) (granted : List τ)
    (sem : CountingSemaphore τ) (hnonneg : 0 ≤ sem.counter)
    (htokens : sem.counter + granted.length + 1 = keys.length) :
    ∃ rest, Agrees { s with sem, granted }.finish prekeys rest := by
  cases keys with
  | nil =>
      rw [List.length_nil] at htokens
      omega
  | cons k rest =>
      obtain ⟨buf, hconsume, hbuf⟩ := hagrees.buf.consume
      have horder := hagrees.order
      refine ⟨rest, ?_⟩
      unfold Keyboard.finish
      dsimp only
      rw [hconsume]
      refine { hagrees with
        buf := hbuf, nonneg := hnonneg, tokens := ?_, order := ?_ }
      · change sem.counter + granted.length = rest.length
        rw [List.length_cons] at htokens
        omega
      · simpa using horder

theorem Agrees.getkey (hagrees : Agrees s prekeys keys) (t : τ) :
    ∃ keys, Agrees (s.getkey t) prekeys keys := by
  have htokens := hagrees.tokens
  unfold Keyboard.getkey CountingSemaphore.p
  by_cases hopen : s.sem.counter > 0
  · simp only [hopen, if_true]
    refine hagrees.finish s.granted ⟨s.sem.counter - 1, s.sem.waiting⟩ ?_ ?_
    · change 0 ≤ s.sem.counter - 1
      omega
    · change s.sem.counter - 1 + s.granted.length + 1 = keys.length
      omega
  · simp only [hopen, if_false]
    exact ⟨keys, { hagrees with }⟩

theorem Agrees.resumed [DecidableEq τ] (hagrees : Agrees s prekeys keys)
    (hmem : t ∈ s.granted) :
    ∃ keys, Agrees { s with granted := s.granted.erase t }.finish
      prekeys keys := by
  refine hagrees.finish _ s.sem hagrees.nonneg ?_
  have htokens := hagrees.tokens
  have hpos := List.length_pos_of_mem hmem
  rw [List.length_erase_of_mem hmem]
  omega

/-! ### Runs -/

section Runs

variable [DecidableEq τ]

theorem Agrees.step {event : KeyboardEvent τ}
    (hagrees : Agrees s prekeys keys) (hallowed : HasRoom s event)
    (hstep : s.step event = some s') :
    ∃ prekeys keys, Agrees s' prekeys keys := by
  cases event with
  | press k =>
      obtain ⟨⟨houtside, hvalid⟩, hstep⟩ := Option.ite_none_right_eq_some.mp hstep
      obtain rfl := Option.some.inj hstep
      exact ⟨_, _, hagrees.press houtside hvalid⟩
  | store =>
      simp only [Keyboard.step] at hstep
      split at hstep
      · next hchecked =>
        obtain rfl := Option.some.inj hstep
        exact ⟨_, _, hagrees.store hchecked⟩
      · cases hstep
  | publish =>
      simp only [Keyboard.step] at hstep
      split at hstep
      · next hstored =>
        obtain rfl := Option.some.inj hstep
        exact ⟨_, _, hagrees.publish hstored⟩
      · cases hstep
  | relayed =>
      obtain ⟨houtside, hstep⟩ := Option.ite_none_right_eq_some.mp hstep
      obtain rfl := Option.some.inj hstep
      exact ⟨_, _, hagrees.moves (by rw [houtside]; rfl) (by simp) (by simp)⟩
  | look =>
      obtain ⟨hlooping, hstep⟩ := Option.ite_none_right_eq_some.mp hstep
      split at hstep
      · obtain rfl := Option.some.inj hstep
        exact ⟨_, _, hagrees.moves (by rw [hlooping]; rfl) (by simp)
          (by simp)⟩
      · next hne =>
        obtain rfl := Option.some.inj hstep
        refine ⟨_, _, hagrees.moves (by rw [hlooping]; rfl) (fun _ => ?_)
          (by simp)⟩
        rwa [ne_eq, ← hagrees.prebuf.empty_iff]
  | take =>
      obtain ⟨hfound, hstep⟩ := Option.ite_none_right_eq_some.mp hstep
      obtain rfl := Option.some.inj hstep
      obtain ⟨k, rest, rfl⟩ := List.exists_cons_of_ne_nil (hagrees.found hfound)
      rw [hagrees.prebuf.head]
      refine ⟨_, _, hagrees.moves (by rw [hfound]; rfl) (by simp) ?_⟩
      intro k' heq
      obtain rfl := Epilogue.read.inj heq
      rfl
  | release =>
      simp only [Keyboard.step] at hstep
      split at hstep
      · next hread =>
        obtain rfl := Option.some.inj hstep
        obtain ⟨rest, hagrees'⟩ := hagrees.release hread
        exact ⟨_, _, hagrees'⟩
      · cases hstep
  | deliver =>
      simp only [Keyboard.step] at hstep
      split at hstep
      · next hholding =>
        obtain rfl := Option.some.inj hstep
        exact ⟨_, _, hagrees.deliver hholding (hallowed rfl)⟩
      · cases hstep
  | getkey t =>
      obtain ⟨-, hstep⟩ := Option.ite_none_right_eq_some.mp hstep
      obtain rfl := Option.some.inj hstep
      exact ⟨_, hagrees.getkey t⟩
  | resumed t =>
      obtain ⟨⟨-, hmem⟩, hstep⟩ := Option.ite_none_right_eq_some.mp hstep
      obtain rfl := Option.some.inj hstep
      exact ⟨_, hagrees.resumed hmem⟩

end Runs

/-- In a run in which the epilogue always finds room for the keys that it moves,
there is a key in the buffer for every token, and what `getkey` has returned are
pressed keys in their order. -/
theorem tokens_agree [DecidableEq τ] (hreach : ReachableBy HasRoom s) :
    s.sem.counter + s.granted.length = s.buf.size ∧
      s.returned.Sublist s.pressed ∧ ∀ k ∈ s.returned, k.valid = true := by
  obtain ⟨prekeys, keys, hagrees⟩ : ∃ prekeys keys, Agrees s prekeys keys := by
    apply Runs.Reachable.invariant hreach
    · intro s hinitial
      exact ⟨[], [], hinitial.agrees⟩
    · rintro s event s' ⟨prekeys, keys, hagrees⟩ ⟨hallowed, hstep⟩
      exact hagrees.step hallowed hstep
  have hsublist : s.returned.Sublist s.pressed := by
    have horder := hagrees.order
    simp only [List.append_assoc] at horder
    exact (List.sublist_append_left ..).trans horder
  refine ⟨?_, hsublist, fun k hk => hagrees.valid k (hsublist.subset hk)⟩
  rw [hagrees.buf.size_eq]
  exact hagrees.tokens

/-! ### Sample runs -/

/-- A key is pressed, and its epilogue runs at once. -/
def typed (k : Key) : List (KeyboardEvent Nat) :=
  [.press k, .store, .publish, .relayed, .look, .take, .release, .deliver,
    .look]

def sampleKeyboard : Keyboard Nat where
  prebuf := ⟨fun _ => .constructed, 0, 0⟩
  buf := ⟨fun _ => .constructed, 0, 0⟩
  sem := ⟨0, []⟩
  prologue := .outside
  epilogue := .outside
  granted := []
  pressed := []
  returned := []

theorem sampleKeyboard_initial : Initial sampleKeyboard :=
  ⟨_, _, ⟨rfl, rfl⟩, ⟨rfl, rfl⟩, rfl⟩

def sampleRun (allowed : Keyboard Nat → KeyboardEvent Nat → Prop)
    [∀ s, DecidablePred (allowed s)] (events : List (KeyboardEvent Nat)) :
    Option (Keyboard Nat) :=
  Runs.run (fun s event => if allowed s event then s.step event else none)
    sampleKeyboard events

/-- A thread that waits and one that comes later each get a key. -/
theorem tokens_agree_two :
    ∃ s : Keyboard Nat, s.pressed = [⟨97, 30, 0⟩, ⟨98, 48, 0⟩] ∧
      s.returned = [⟨97, 30, 0⟩, ⟨98, 48, 0⟩] ∧
      s.sem.counter + s.granted.length = s.buf.size := by
  have hrun : (sampleRun HasRoom ([KeyboardEvent.getkey 1] ++ typed ⟨97, 30, 0⟩ ++
      typed ⟨98, 48, 0⟩ ++
      [KeyboardEvent.resumed 1, .getkey 2])).any fun s =>
        s.pressed = [⟨97, 30, 0⟩, ⟨98, 48, 0⟩] ∧
          s.returned = [⟨97, 30, 0⟩, ⟨98, 48, 0⟩] := by
    decide +kernel
  obtain ⟨s, hs, hcheck⟩ := (Option.any_eq_true _ _).mp hrun
  simp only [decide_eq_true_eq] at hcheck
  have hreach : ReachableBy HasRoom s :=
    Runs.Reachable.run_allowed sampleKeyboard_initial hs
  exact ⟨s, hcheck.1, hcheck.2, (tokens_agree hreach).1⟩

/-- While nobody reads, 65 keys are pressed; then there are more tokens than
keys, and the 64th reader gets the constructed key. -/
theorem tokens_disagree :
    ∃ s : Keyboard Nat, ReachableBy (fun _ _ => True) s ∧
      s.sem.counter + s.granted.length ≠ (s.buf.size : Int) ∧
      ∃ k ∈ s.returned, k.valid = false := by
  have hrun : (sampleRun (fun _ _ => True)
      ((List.replicate 65 (typed ⟨97, 30, 0⟩)).flatten ++
        List.replicate 64 (KeyboardEvent.getkey 1))).any fun s =>
        s.sem.counter + s.granted.length ≠ (s.buf.size : Int) ∧
          ∃ k ∈ s.returned, k.valid = false := by
    decide +kernel
  obtain ⟨s, hs, hcheck⟩ := (Option.any_eq_true _ _).mp hrun
  simp only [decide_eq_true_eq] at hcheck
  exact ⟨s, Runs.Reachable.run_allowed sampleKeyboard_initial hs, hcheck⟩

end Keyboard

end X86Os32
