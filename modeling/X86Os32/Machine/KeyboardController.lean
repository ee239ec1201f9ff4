import Mathlib.Logic.Relation
import X86Os32.Machine.KeyDecoder

namespace X86Os32

open Library

/-! `machine/keyctrl.cc` with the prologue of `device/keyboard.cc` that calls it, one
access of a port at a time. Meanwhile bytes arrive, and threads send commands. -/

/-- A byte of the keyboard, or with `auxb` of the mouse. -/
structure Received where
  code : UInt8
  aux : Bool
deriving DecidableEq

/-- Where the prologue stands in the loop around `key_hit`. -/
inductive Hitting
  | outside
  | polling
  | reading (aux : Bool)
  | switching
  | found (k : Key)
deriving DecidableEq

def Hitting.key : Hitting → List Key
  | found k => [k]
  | _ => []

/-- Who calls `send_command`. The constructor counts as a thread. -/
inductive Caller
  | thread
  | prologue
deriving DecidableEq

/-- What is left of a command, and whether `send_byte` has seen that the controller
takes the next byte. -/
structure Sending where
  bytes : List UInt8
  clear : Bool
deriving DecidableEq

/-- `Keyboard_Controller::led_t` -/
def Modifier.led : Modifier → UInt8
  | capsLock => 4
  | numLock => 2
  | scrollLock => 1
  | _ => 0

def Modifier.Lock (m : Modifier) : Prop := m.led ≠ 0

instance (m : Modifier) : Decidable m.Lock := inferInstanceAs (Decidable (_ ≠ _))

namespace Key

def alt (k : Key) : Bool := k.altLeft || k.altRight

/-- `Key::scan::del` -/
def del : UInt8 := 0x53

/-- What `reboot` writes, if the prologue calls it for this key. -/
def reboot (k : Key) : List (UInt16 × UInt8) :=
  if k.ctrl && k.alt && k.scan == del then [(0x70, 0xe + 1), (0x71, 0), (0x92, 3)]
  else []

end Key

/-- The lock that `decode` switches, for which it calls `set_led`. -/
def KeyDecoder.lock (d : KeyDecoder) (code : UInt8) : Option Modifier :=
  if code &&& 0x80 ≠ 0 then none
  else if code = 58 then some .capsLock
  else if code = 70 then some .scrollLock
  else if code = 69 ∧ d.gather.ctrlLeft = false then some .numLock
  else none

def KeyDecoder.hits (tables : KeyTables) : KeyDecoder → List UInt8 → List Key
  | _, [] => []
  | d, code :: rest =>
      let d := d.decode tables code
      (if d.gather.valid then [d.gather] else []) ++ hits tables d rest

/-- The codes of the keyboard, without what the mouse has sent. -/
def codesOf (bytes : List Received) : List UInt8 :=
  (bytes.filter fun byte => !byte.aux).map Received.code

/-- `waiting` are the bytes behind `outb`, `input` is the byte behind `inpb`. The
last six fields record what has happened: the bytes that arrived, were thrown away
or read by the prologue, the keys it was given, the bytes that the keyboard took,
the commands, and what was written to the ports of `reboot`. -/
structure KeyboardController where
  keydecoder : KeyDecoder
  leds : UInt8
  plugged : Bool
  waiting : List Received
  input : Option UInt8
  hitting : Hitting
  sending : Caller → Sending
  arrived : List Received
  drained : List Received
  handled : List Received
  keys : List Key
  taken : List UInt8
  issued : List (UInt8 × UInt8)
  ports : List (UInt16 × UInt8)

inductive KeyboardControllerEvent
  | arrive (byte : Received)
  | accept
  | drain
  | drained
  | setRepeatRate (speed delay : UInt32)
  | poll (caller : Caller)
  | outb (caller : Caller)
  | interrupt
  | look
  | read
  | switched
  | produce
deriving DecidableEq

namespace KeyboardController

variable (tables : KeyTables) (s : KeyboardController)

def sendCommand (caller : Caller) (cmd data : UInt8) : KeyboardController :=
  { s with
    sending := Function.update s.sending caller
      { s.sending caller with bytes := (s.sending caller).bytes ++ [cmd, data] }
    issued := s.issued ++ [(cmd, data)] }

def setLed (caller : Caller) (led : UInt8) (on : Bool) : KeyboardController :=
  let leds := if on then s.leds ||| led else s.leds &&& ~~~led
  { s with leds }.sendCommand caller 0xed leds

def setRepeatRate (caller : Caller) (speed delay : UInt32) : KeyboardController :=
  s.sendCommand caller 0xf3 (speed ||| delay <<< 5).toUInt8

/-- `Keyboard_Controller()`, before the first byte is sent. -/
def constructed : KeyboardController :=
  let s : KeyboardController :=
    { keydecoder := .constructed fun _ => false, leds := 0, plugged := false,
      waiting := [], input := none, hitting := .outside,
      sending := fun _ => ⟨[], false⟩, arrived := [], drained := [], handled := [],
      keys := [], taken := [], issued := [], ports := [] }
  let s := s.setLed .thread Modifier.capsLock.led false
  let s := s.setLed .thread Modifier.scrollLock.led false
  let s := s.setLed .thread Modifier.numLock.led false
  s.setRepeatRate .thread 0 0

def poll (caller : Caller) : KeyboardController :=
  { s with
    sending := Function.update s.sending caller
      { s.sending caller with clear := s.input.isNone } }

/-- `send_byte` writes; a byte that is still there is lost. -/
def outb (caller : Caller) : KeyboardController :=
  { s with
    input := (s.sending caller).bytes.head?
    sending := Function.update s.sending caller
      ⟨(s.sending caller).bytes.tail, false⟩ }

/-- `key_hit` looks at `outb` and `auxb`. -/
def look : KeyboardController :=
  { s with hitting := match s.waiting with
      | [] => .outside
      | byte :: _ => .reading byte.aux }

/-- `key_hit` passes a code to `decode`. -/
def decode (code : UInt8) : KeyboardController :=
  let d := s.keydecoder.decode tables code
  match s.keydecoder.lock code with
  | some m =>
      { s with keydecoder := d, hitting := .switching }.setLed .prologue m.led
        (d.gather.has m)
  | none =>
      { s with
        keydecoder := d
        hitting := if d.gather.valid then .found d.gather else .polling }

/-- `key_hit` reads a byte; those of the mouse are ignored. -/
def read : KeyboardController :=
  match s.waiting with
  | [] => s
  | byte :: waiting =>
      let s' := { s with waiting, handled := s.handled ++ [byte] }
      if s.hitting = .reading true then { s' with hitting := .polling }
      else s'.decode tables byte.code

/-- The body of the loop of `prologue`. -/
def produce : KeyboardController :=
  match s.hitting with
  | .found k =>
      { s with
        hitting := .polling
        keys := s.keys ++ [k]
        ports := s.ports ++ k.reboot }
  | _ => s

/-- When each step can be taken. Before the end of `plugin` there are no threads and
no interrupts. -/
def Enabled : KeyboardControllerEvent → Prop
  | .arrive _ => True
  | .accept => s.input.isSome
  | .drain => s.plugged = false ∧ (s.sending .thread).bytes = [] ∧ s.waiting ≠ []
  | .drained => s.plugged = false ∧ (s.sending .thread).bytes = [] ∧ s.waiting = []
  | .setRepeatRate _ _ => s.plugged ∧ (s.sending .thread).bytes = []
  | .poll caller => (s.sending caller).bytes ≠ [] ∧ (s.sending caller).clear = false
  | .outb caller => (s.sending caller).bytes ≠ [] ∧ (s.sending caller).clear
  | .interrupt => s.plugged ∧ s.hitting = .outside
  | .look => s.hitting = .polling
  | .read => (s.hitting = .reading true ∨ s.hitting = .reading false) ∧ s.waiting ≠ []
  | .switched => s.hitting = .switching ∧ (s.sending .prologue).bytes = []
  | .produce => s.hitting.key ≠ []

instance (event : KeyboardControllerEvent) : Decidable (s.Enabled event) :=
  match event with
  | .arrive _ => inferInstanceAs (Decidable True)
  | .accept => inferInstanceAs (Decidable (s.input.isSome = true))
  | .drain | .drained | .poll _ | .read =>
      inferInstanceAs (Decidable (_ ∧ _))
  | .setRepeatRate _ _ | .outb _ | .interrupt | .switched =>
      inferInstanceAs (Decidable (_ ∧ _))
  | .look => inferInstanceAs (Decidable (s.hitting = .polling))
  | .produce => inferInstanceAs (Decidable (s.hitting.key ≠ []))

def after : KeyboardControllerEvent → KeyboardController
  | .arrive byte =>
      { s with waiting := s.waiting ++ [byte], arrived := s.arrived ++ [byte] }
  | .accept => { s with input := none, taken := s.taken ++ s.input.toList }
  | .drain =>
      { s with waiting := s.waiting.tail, drained := s.drained ++ s.waiting.take 1 }
  | .drained => { s with plugged := true }
  | .setRepeatRate speed delay => s.setRepeatRate .thread speed delay
  | .poll caller => s.poll caller
  | .outb caller => s.outb caller
  | .interrupt => { s with hitting := .polling }
  | .look => s.look
  | .read => s.read tables
  | .switched => { s with hitting := .polling }
  | .produce => s.produce

def step (event : KeyboardControllerEvent) : Option KeyboardController :=
  if s.Enabled event then some (s.after tables event) else none

def Reachable : KeyboardController → Prop :=
  Runs.Reachable (· = constructed) fun s event s' => s.step tables event = some s'

end KeyboardController

/-! ### What a code does to the locks -/

namespace KeyDecoder

variable {tables : KeyTables} {d : KeyDecoder} {code : UInt8} {m : Modifier}

theorem hits_append (d : KeyDecoder) (codes codes' : List UInt8) :
    d.hits tables (codes ++ codes') =
      d.hits tables codes ++ (d.decodeAll tables codes).hits tables codes' := by
  induction codes generalizing d with
  | nil => rfl
  | cons code rest ih =>
      calc d.hits tables (code :: rest ++ codes')
          = (if (d.decode tables code).gather.valid then [(d.decode tables code).gather]
              else []) ++ (d.decode tables code).hits tables (rest ++ codes') := rfl
        _ = d.hits tables (code :: rest) ++
              ((d.decode tables code).decodeAll tables rest).hits tables codes' := by
            rw [ih, ← List.append_assoc]
            rfl

theorem lock_eq_some (hlock : d.lock code = some m) :
    code &&& 0x80 = 0 ∧ d.modifier code = none ∧ m.Lock ∧
      (code ≠ 0xe0 ∧ code ≠ 0xe1) := by
  unfold lock at hlock
  split at hlock
  · cases hlock
  next hmake =>
    rw [not_not] at hmake
    have hcode : (code = 58 ∨ code = 70 ∨ code = 69) ∧ m.Lock := by
      split at hlock
      · next hcaps => exact ⟨.inl hcaps, Option.some.inj hlock ▸ by decide⟩
      split at hlock
      · next hscroll => exact ⟨.inr (.inl hscroll), Option.some.inj hlock ▸ by decide⟩
      split at hlock
      · next hnum => exact ⟨.inr (.inr hnum.1), Option.some.inj hlock ▸ by decide⟩
      · cases hlock
    obtain ⟨rfl | rfl | rfl, hm⟩ := hcode <;> exact ⟨hmake, rfl, hm, by decide⟩

theorem decode_of_lock (hlock : d.lock code = some m) :
    d.decode tables code =
      { KeyDecoder.toggle { d with gather := d.gather.invalidate } m with
        prefix_ := 0 } := by
  obtain ⟨hmake, hmodifier, -, hescape⟩ := lock_eq_some hlock
  have hpress : KeyDecoder.press tables { d with gather := d.gather.invalidate } code =
      KeyDecoder.toggle { d with gather := d.gather.invalidate } m := by
    unfold press
    have hnone : modifier { d with gather := d.gather.invalidate } code = none :=
      hmodifier
    rw [hnone]
    unfold lock at hlock
    rw [if_neg (by rw [hmake]; decide)] at hlock
    dsimp only
    split at hlock
    · next hcaps =>
      obtain rfl := Option.some.inj hlock
      rw [if_pos hcaps]
    next hcaps =>
      rw [if_neg hcaps]
      split at hlock
      · next hscroll =>
        obtain rfl := Option.some.inj hlock
        rw [if_pos hscroll]
      next hscroll =>
        rw [if_neg hscroll]
        split at hlock
        · next hnum =>
          obtain rfl := Option.some.inj hlock
          rw [if_pos hnum.1, if_neg]
          exact Bool.not_eq_true _ ▸ hnum.2
        · cases hlock
  unfold decode
  rw [if_neg (by simp [hescape])]
  dsimp only
  rw [if_neg (by rw [hmake]; decide), hpress]

theorem invalid_of_lock (hlock : d.lock code = some m) :
    (d.decode tables code).gather.valid = false := by
  rw [decode_of_lock hlock]
  rfl

theorem modifier_ne (hm : m.Lock) : d.modifier code ≠ some m := by
  unfold modifier
  intro hsome
  split_ifs at hsome <;> obtain rfl := Option.some.inj hsome <;> exact hm rfl

theorem has_toggle_self (d : KeyDecoder) (m : Modifier) :
    (d.toggle m).gather.has m = !d.gather.has m := by
  change (d.setModifier m _).gather.has m = _
  rw [has_setModifier, if_pos rfl]

theorem has_press_of_no_lock (hmake : code &&& 0x80 = 0) (hlock : d.lock code = none)
    (hm : m.Lock) : (d.press tables code).gather.has m = d.gather.has m := by
  unfold lock at hlock
  rw [if_neg (by rw [hmake]; decide)] at hlock
  unfold press
  cases hmodifier : d.modifier code with
  | some m' =>
      have hne : m' ≠ m := fun heq => modifier_ne hm (heq ▸ hmodifier)
      dsimp only
      rw [has_setModifier, if_neg hne]
  | none =>
      dsimp only
      split at hlock
      · cases hlock
      next hcaps =>
        rw [if_neg hcaps]
        split at hlock
        · cases hlock
        next hscroll =>
          rw [if_neg hscroll]
          split at hlock
          · cases hlock
          next hnum =>
            split
            · next hcode =>
              rw [if_pos]
              · exact has_getAsciiCode tables d code m
              · rw [← Bool.not_eq_false]
                exact fun hctrl => hnum ⟨hcode, hctrl⟩
            split
            · rfl
            · exact has_getAsciiCode tables d code m

theorem has_lock_decode (hm : m.Lock) :
    (d.decode tables code).gather.has m =
      if d.lock code = some m then !d.gather.has m else d.gather.has m := by
  cases hlock : d.lock code with
  | some m' =>
      rw [decode_of_lock hlock]
      by_cases heq : m' = m
      · subst heq
        rw [if_pos rfl]
        exact has_toggle_self _ m'
      · rw [if_neg fun h => heq (Option.some.inj h)]
        exact has_toggle heq
  | none =>
      rw [if_neg nofun]
      unfold decode
      dsimp only
      split
      · rfl
      split
      · next hbreak =>
        refine (has_release _ _ m).trans ?_
        rw [if_neg (modifier_ne hm)]
        rfl
      · next hmake =>
        exact has_press_of_no_lock (d := { d with gather := d.gather.invalidate })
          (not_not.mp hmake) hlock hm

end KeyDecoder

theorem codesOf_append (bytes : List Received) (byte : Received) :
    codesOf (bytes ++ [byte]) =
      codesOf bytes ++ if byte.aux then [] else [byte.code] := by
  unfold codesOf
  rw [List.filter_append, List.map_append]
  congr 1
  cases haux : byte.aux <;> simp [haux]

namespace KeyboardController

variable {tables : KeyTables} {s s' : KeyboardController}
  {event : KeyboardControllerEvent}

theorem step_eq_some :
    s.step tables event = some s' ↔ s.Enabled event ∧ s.after tables event = s' := by
  unfold step
  split
  · next henabled => simp [henabled]
  · next hdisabled => simp [hdisabled]

theorem decode_lock {code : UInt8} {m : Modifier}
    (hlock : s.keydecoder.lock code = some m) :
    s.decode tables code =
      KeyboardController.setLed
        { s with keydecoder := s.keydecoder.decode tables code, hitting := .switching }
        .prologue m.led ((s.keydecoder.decode tables code).gather.has m) := by
  unfold decode
  rw [hlock]

theorem decode_no_lock {code : UInt8} (hlock : s.keydecoder.lock code = none) :
    s.decode tables code =
      { s with
        keydecoder := s.keydecoder.decode tables code
        hitting :=
          if (s.keydecoder.decode tables code).gather.valid then
            .found (s.keydecoder.decode tables code).gather
          else .polling } := by
  unfold decode
  rw [hlock]

/-! ### The keys of the codes -/

/-- Every byte is on its way or was handled in its turn, and the keys are those of the
codes that were handled. -/
structure Follows (tables : KeyTables) (s : KeyboardController) : Prop where
  arrived : s.arrived = s.drained ++ s.handled ++ s.waiting
  unplugged : s.plugged = false → s.handled = [] ∧ s.hitting = .outside
  keydecoder : s.keydecoder =
    (KeyDecoder.constructed fun _ => false).decodeAll tables (codesOf s.handled)
  keys : s.keys ++ s.hitting.key =
    (KeyDecoder.constructed fun _ => false).hits tables (codesOf s.handled)
  ports : s.ports = s.keys.flatMap Key.reboot
  reading : ∀ aux, s.hitting = .reading aux →
    ∃ byte waiting, s.waiting = byte :: waiting ∧ byte.aux = aux

theorem follows_constructed : Follows tables constructed where
  arrived := rfl
  unplugged := fun _ => ⟨rfl, rfl⟩
  keydecoder := rfl
  keys := rfl
  ports := rfl
  reading := nofun

theorem Follows.moves {hitting : Hitting} (hfollows : Follows tables s)
    (hplugged : s.plugged = true) (hkey : hitting.key = s.hitting.key)
    (hreading : ∀ aux, hitting = .reading aux →
      ∃ byte waiting, s.waiting = byte :: waiting ∧ byte.aux = aux) :
    Follows tables { s with hitting } := by
  refine { hfollows with unplugged := ?_, keys := ?_, reading := hreading }
  · intro hunplugged
    rw [show s.plugged = false from hunplugged] at hplugged
    cases hplugged
  · exact hkey ▸ hfollows.keys

theorem Follows.plugged (hfollows : Follows tables s) (hinside : s.hitting ≠ .outside) :
    s.plugged = true := by
  by_contra hunplugged
  exact hinside (hfollows.unplugged (Bool.eq_false_iff.mpr hunplugged)).2

theorem Follows.look (hfollows : Follows tables s) (hpolling : s.hitting = .polling) :
    Follows tables s.look := by
  have hplugged := hfollows.plugged (by rw [hpolling]; decide)
  unfold KeyboardController.look
  refine hfollows.moves hplugged ?_ ?_
  · rw [hpolling]
    cases s.waiting <;> rfl
  · intro aux haux
    cases hwaiting : s.waiting with
    | nil =>
        rw [hwaiting] at haux
        cases haux
    | cons byte waiting =>
        rw [hwaiting] at haux
        exact ⟨byte, waiting, rfl, Hitting.reading.inj haux⟩

structure Spares (s s' : KeyboardController) : Prop where
  plugged : s'.plugged = s.plugged
  waiting : s'.waiting = s.waiting
  arrived : s'.arrived = s.arrived
  drained : s'.drained = s.drained
  handled : s'.handled = s.handled
  keys : s'.keys = s.keys
  ports : s'.ports = s.ports

theorem decode_spares (tables : KeyTables) (s : KeyboardController) (code : UInt8) :
    Spares s (s.decode tables code) := by
  cases hlock : s.keydecoder.lock code with
  | some m =>
      rw [decode_lock hlock]
      exact ⟨rfl, rfl, rfl, rfl, rfl, rfl, rfl⟩
  | none =>
      rw [decode_no_lock hlock]
      exact ⟨rfl, rfl, rfl, rfl, rfl, rfl, rfl⟩

theorem decode_keydecoder (s : KeyboardController) (code : UInt8) :
    (s.decode tables code).keydecoder = s.keydecoder.decode tables code := by
  cases hlock : s.keydecoder.lock code with
  | some m =>
      rw [decode_lock hlock]
      rfl
  | none => rw [decode_no_lock hlock]

theorem decode_hitting (tables : KeyTables) (s : KeyboardController) (code : UInt8) :
    (s.decode tables code).hitting.key = s.keydecoder.hits tables [code] ∧
      ∀ aux, (s.decode tables code).hitting ≠ .reading aux := by
  cases hlock : s.keydecoder.lock code with
  | some m =>
      have hinvalid : (s.keydecoder.decode tables code).gather.valid = false :=
        KeyDecoder.invalid_of_lock hlock
      rw [decode_lock hlock]
      refine ⟨?_, nofun⟩
      simp only [KeyDecoder.hits, hinvalid]
      rfl
  | none =>
      rw [decode_no_lock hlock]
      dsimp only [KeyDecoder.hits]
      cases (s.keydecoder.decode tables code).gather.valid with
      | true => exact ⟨rfl, nofun⟩
      | false => exact ⟨rfl, nofun⟩

theorem read_mouse {byte : Received} {waiting : List Received}
    (hwaiting : s.waiting = byte :: waiting) (hreading : s.hitting = .reading true) :
    s.read tables =
      { s with waiting, handled := s.handled ++ [byte], hitting := .polling } := by
  unfold read
  rw [hwaiting]
  dsimp only
  rw [if_pos hreading]

theorem read_code {byte : Received} {waiting : List Received}
    (hwaiting : s.waiting = byte :: waiting) (hreading : s.hitting = .reading false) :
    s.read tables =
      KeyboardController.decode tables
        { s with waiting, handled := s.handled ++ [byte] } byte.code := by
  unfold read
  rw [hwaiting]
  dsimp only
  rw [if_neg (by rw [hreading]; decide)]

theorem Follows.read (hfollows : Follows tables s) {aux : Bool}
    (hreading : s.hitting = .reading aux) : Follows tables (s.read tables) := by
  have hplugged := hfollows.plugged (by rw [hreading]; nofun)
  obtain ⟨byte, waiting, hwaiting, rfl⟩ := hfollows.reading aux hreading
  have harrived := hfollows.arrived
  have hkeys := hfollows.keys
  have hdecoder := hfollows.keydecoder
  rw [hwaiting] at harrived
  have hnone : (Hitting.reading byte.aux).key = [] := rfl
  rw [hreading, hnone, List.append_nil] at hkeys
  have harrived' : s.arrived = s.drained ++ (s.handled ++ [byte]) ++ waiting := by
    rw [harrived]
    simp
  have hcodes := codesOf_append s.handled byte
  cases haux : byte.aux with
  | true =>
      rw [haux, if_pos rfl, List.append_nil] at hcodes
      rw [read_mouse hwaiting (haux ▸ hreading)]
      refine ⟨harrived', ?_, ?_, ?_, hfollows.ports, nofun⟩
      · intro hunplugged
        rw [show s.plugged = false from hunplugged] at hplugged
        cases hplugged
      · exact hcodes ▸ hdecoder
      · dsimp only
        rw [hcodes, ← hkeys]
        exact List.append_nil _
  | false =>
      rw [haux, if_neg (by decide)] at hcodes
      rw [read_code hwaiting (haux ▸ hreading)]
      generalize hread : ({ s with waiting, handled := s.handled ++ [byte] } :
        KeyboardController) = s₁
      have hspares := decode_spares tables s₁ byte.code
      obtain ⟨hkey, hhitting⟩ := decode_hitting tables s₁ byte.code
      subst hread
      constructor
      · rw [hspares.arrived, hspares.drained, hspares.handled, hspares.waiting]
        exact harrived'
      · rw [hspares.plugged]
        intro hunplugged
        rw [show s.plugged = false from hunplugged] at hplugged
        cases hplugged
      · rw [decode_keydecoder, hspares.handled]
        dsimp only
        rw [hcodes, hdecoder]
        unfold KeyDecoder.decodeAll
        rw [List.foldl_append]
        rfl
      · rw [hspares.keys, hspares.handled, hkey]
        dsimp only
        rw [hcodes, KeyDecoder.hits_append, ← hdecoder, hkeys]
      · rw [hspares.ports, hspares.keys]
        exact hfollows.ports
      · intro aux haux
        exact absurd haux (hhitting aux)

theorem Follows.produce (hfollows : Follows tables s) (hfound : s.hitting.key ≠ []) :
    Follows tables s.produce := by
  unfold KeyboardController.produce
  cases hhitting : s.hitting with
  | found k =>
      have hplugged := hfollows.plugged (by rw [hhitting]; nofun)
      have hkeys := hfollows.keys
      rw [hhitting] at hkeys
      refine ⟨hfollows.arrived, ?_, hfollows.keydecoder, ?_, ?_, nofun⟩
      · intro hunplugged
        rw [show s.plugged = false from hunplugged] at hplugged
        cases hplugged
      · exact (List.append_nil _).trans hkeys
      · dsimp only
        rw [List.flatMap_append, List.flatMap_singleton, hfollows.ports]
  | _ => exact absurd (congrArg Hitting.key hhitting) hfound

theorem Follows.step (hfollows : Follows tables s)
    (hstep : s.step tables event = some s') : Follows tables s' := by
  obtain ⟨henabled, rfl⟩ := step_eq_some.mp hstep
  cases event with
  | arrive byte =>
      refine { hfollows with arrived := ?_, reading := ?_ }
      · change s.arrived ++ [byte] = _
        rw [hfollows.arrived, List.append_assoc]
        rfl
      · intro aux haux
        obtain ⟨first, waiting, hwaiting, hfirst⟩ := hfollows.reading aux haux
        exact ⟨first, waiting ++ [byte], congrArg (· ++ [byte]) hwaiting, hfirst⟩
  | drain =>
      obtain ⟨hunplugged, -, hwaiting⟩ := henabled
      obtain ⟨hhandled, houtside⟩ := hfollows.unplugged hunplugged
      obtain ⟨byte, waiting, hcons⟩ := List.exists_cons_of_ne_nil hwaiting
      refine { hfollows with arrived := ?_, reading := ?_ }
      · change s.arrived = s.drained ++ s.waiting.take 1 ++ s.handled ++ s.waiting.tail
        rw [hfollows.arrived, hhandled, hcons]
        simp
      · intro aux haux
        rw [show s.hitting = .reading aux from haux] at houtside
        cases houtside
  | drained => exact { hfollows with unplugged := nofun }
  | interrupt =>
      obtain ⟨hplugged, houtside⟩ := henabled
      exact hfollows.moves hplugged (houtside ▸ rfl) nofun
  | look => exact hfollows.look henabled
  | read =>
      obtain ⟨hreading | hreading, -⟩ := henabled
      · exact hfollows.read hreading
      · exact hfollows.read hreading
  | switched =>
      obtain ⟨hswitching, -⟩ := henabled
      have hplugged := hfollows.plugged (by rw [hswitching]; decide)
      exact hfollows.moves hplugged (hswitching ▸ rfl) nofun
  | produce => exact hfollows.produce henabled
  | accept => exact { hfollows with }
  | setRepeatRate speed delay => exact { hfollows with }
  | poll caller => exact { hfollows with }
  | outb caller => exact { hfollows with }

theorem Reachable.follows (hreach : Reachable tables s) : Follows tables s :=
  Runs.Reachable.invariant hreach (fun _ hstart => hstart ▸ follows_constructed)
    fun _ _ _ hfollows hstep => hfollows.step hstep

/-! ### The prologue comes to its end -/

/-- The steps of the prologue, and of the keyboard that takes its bytes. -/
def Own : KeyboardControllerEvent → Prop
  | .accept | .poll .prologue | .outb .prologue | .interrupt | .look | .read | .switched
  | .produce => True
  | _ => False

def OwnStep (tables : KeyTables) (s s' : KeyboardController) : Prop :=
  ∃ event, Own event ∧ s.step tables event = some s'

abbrev OwnSteps (tables : KeyTables) :
    KeyboardController → KeyboardController → Prop :=
  Relation.ReflTransGen (OwnStep tables)

theorem OwnSteps.one (event : KeyboardControllerEvent) (hown : Own event)
    (henabled : s.Enabled event) : OwnSteps tables s (s.after tables event) :=
  .single ⟨event, hown, step_eq_some.mpr ⟨henabled, rfl⟩⟩

theorem OwnStep.past (hstep : OwnStep tables s s') :
    s'.arrived = s.arrived ∧ s'.drained = s.drained := by
  obtain ⟨event, hown, hstep⟩ := hstep
  obtain ⟨henabled, rfl⟩ := step_eq_some.mp hstep
  cases event with
  | read =>
      obtain ⟨hreading, hwaiting⟩ := henabled
      obtain ⟨byte, waiting, hcons⟩ := List.exists_cons_of_ne_nil hwaiting
      change (s.read tables).arrived = _ ∧ (s.read tables).drained = _
      rcases hreading with hreading | hreading
      · rw [read_mouse hcons hreading]
        exact ⟨rfl, rfl⟩
      · rw [read_code hcons hreading]
        have hspares := decode_spares tables
          { s with waiting, handled := s.handled ++ [byte] } byte.code
        exact ⟨hspares.arrived, hspares.drained⟩
  | produce =>
      change s.produce.arrived = _ ∧ s.produce.drained = _
      unfold produce
      split <;> exact ⟨rfl, rfl⟩
  | arrive byte => cases hown
  | drain => cases hown
  | drained => cases hown
  | setRepeatRate speed delay => cases hown
  | _ => exact ⟨rfl, rfl⟩

theorem OwnSteps.past (hsteps : OwnSteps tables s s') :
    s'.arrived = s.arrived ∧ s'.drained = s.drained := by
  induction hsteps with
  | refl => exact ⟨rfl, rfl⟩
  | tail _ hstep ih =>
      obtain ⟨harrived, hdrained⟩ := hstep.past
      exact ⟨harrived.trans ih.1, hdrained.trans ih.2⟩

theorem OwnSteps.reachable (hreach : Reachable tables s)
    (hsteps : OwnSteps tables s s') : Reachable tables s' := by
  induction hsteps with
  | refl => exact hreach
  | tail _ hstep ih =>
      obtain ⟨event, -, hstep⟩ := hstep
      exact .next ih hstep

theorem poll_bytes (s : KeyboardController) (caller caller' : Caller) :
    ((s.poll caller).sending caller').bytes = (s.sending caller').bytes := by
  change (Function.update s.sending caller _ caller').bytes = _
  by_cases heq : caller' = caller
  · subst heq
    rw [Function.update_self]
  · rw [Function.update_of_ne heq]

theorem clears (tables : KeyTables) (s : KeyboardController)
    (hbytes : (s.sending .prologue).bytes ≠ []) :
    ∃ s', OwnSteps tables s s' ∧ (s'.sending .prologue).clear = true ∧
      (s'.sending .prologue).bytes = (s.sending .prologue).bytes ∧
      s'.hitting = s.hitting ∧ s'.waiting = s.waiting := by
  cases hclear : (s.sending .prologue).clear with
  | true => exact ⟨s, .refl, hclear, rfl, rfl, rfl⟩
  | false =>
      obtain ⟨s₁, hsteps, hinput, hsending, hhitting, hwaiting⟩ :
          ∃ s₁, OwnSteps tables s s₁ ∧ s₁.input = none ∧ s₁.sending = s.sending ∧
            s₁.hitting = s.hitting ∧ s₁.waiting = s.waiting := by
        cases hinput : s.input with
        | none => exact ⟨s, .refl, hinput, rfl, rfl, rfl⟩
        | some byte =>
            have henabled : s.Enabled .accept := by
              change s.input.isSome = true
              rw [hinput]
              rfl
            exact ⟨_, OwnSteps.one .accept trivial henabled, rfl, rfl, rfl, rfl⟩
      have henabled : s₁.Enabled (.poll .prologue) := by
        change (s₁.sending .prologue).bytes ≠ [] ∧ (s₁.sending .prologue).clear = false
        rw [hsending]
        exact ⟨hbytes, hclear⟩
      have hstep : OwnSteps tables s₁ (s₁.poll .prologue) :=
        OwnSteps.one (.poll .prologue) trivial henabled
      refine ⟨s₁.poll .prologue, hsteps.trans hstep, ?_, ?_, hhitting, hwaiting⟩
      · simp [poll, hinput]
      · rw [poll_bytes, hsending]

theorem sends (tables : KeyTables) (s : KeyboardController) :
    ∃ s', OwnSteps tables s s' ∧ (s'.sending .prologue).bytes = [] ∧
      s'.hitting = s.hitting ∧ s'.waiting = s.waiting := by
  induction hbytes : (s.sending .prologue).bytes generalizing s with
  | nil => exact ⟨s, .refl, hbytes, rfl, rfl⟩
  | cons byte rest ih =>
      obtain ⟨s₁, hsteps, hclear, hsame, hhitting, hwaiting⟩ :=
        clears tables s (by rw [hbytes]; nofun)
      have henabled : s₁.Enabled (.outb .prologue) := by
        refine ⟨?_, hclear⟩
        rw [hsame, hbytes]
        nofun
      have hrest : ((s₁.outb .prologue).sending .prologue).bytes = rest := by
        simp [outb, hsame, hbytes]
      obtain ⟨s₂, hsteps', hsent, hhitting', hwaiting'⟩ := ih (s₁.outb .prologue) hrest
      have hstep : OwnSteps tables s₁ (s₁.outb .prologue) :=
        OwnSteps.one (.outb .prologue) trivial henabled
      refine ⟨s₂, (hsteps.trans hstep).trans hsteps', hsent, ?_, ?_⟩
      · exact hhitting'.trans hhitting
      · exact hwaiting'.trans hwaiting

/-- What a code has led to is done, and `key_hit` looks for the next byte. -/
theorem settles (tables : KeyTables) (hinside : s.hitting ≠ .outside)
    (hread : ∀ aux, s.hitting ≠ .reading aux) :
    ∃ s', OwnSteps tables s s' ∧ s'.hitting = .polling ∧ s'.waiting = s.waiting := by
  cases hhitting : s.hitting with
  | outside => exact absurd hhitting hinside
  | reading aux => exact absurd hhitting (hread aux)
  | polling => exact ⟨s, .refl, hhitting, rfl⟩
  | switching =>
      obtain ⟨s₁, hsteps, hsent, hsame, hwaiting⟩ := sends tables s
      have henabled : s₁.Enabled .switched := ⟨hsame.trans hhitting, hsent⟩
      have hstep : OwnSteps tables s₁ { s₁ with hitting := .polling } :=
        OwnSteps.one .switched trivial henabled
      exact ⟨_, hsteps.trans hstep, rfl, hwaiting⟩
  | found k =>
      have henabled : s.Enabled .produce := by
        change s.hitting.key ≠ []
        rw [hhitting]
        nofun
      refine ⟨s.produce, OwnSteps.one .produce trivial henabled, ?_, ?_⟩
      · simp [produce, hhitting]
      · simp [produce, hhitting]

theorem reads (tables : KeyTables) {aux : Bool} {byte : Received} {waiting : List Received}
    (hreading : s.hitting = .reading aux) (hwaiting : s.waiting = byte :: waiting) :
    ∃ s', OwnSteps tables s s' ∧ s'.hitting = .polling ∧ s'.waiting = waiting := by
  have henabled : s.Enabled .read := by
    refine ⟨?_, by rw [hwaiting]; nofun⟩
    cases aux with
    | true => exact .inl hreading
    | false => exact .inr hreading
  have hstep : OwnSteps tables s (s.read tables) :=
    OwnSteps.one .read trivial henabled
  cases aux with
  | true =>
      rw [read_mouse hwaiting hreading] at hstep
      exact ⟨_, hstep, rfl, rfl⟩
  | false =>
      rw [read_code hwaiting hreading] at hstep
      generalize hread : ({ s with waiting, handled := s.handled ++ [byte] } :
        KeyboardController) = s₁ at hstep
      have hspares := decode_spares tables s₁ byte.code
      obtain ⟨-, hnot⟩ := decode_hitting tables s₁ byte.code
      have hinside : (s₁.decode tables byte.code).hitting ≠ .outside := by
        cases hlock : s₁.keydecoder.lock byte.code with
        | some m =>
            rw [decode_lock hlock]
            nofun
        | none =>
            rw [decode_no_lock hlock]
            dsimp only
            split <;> nofun
      obtain ⟨s₂, hsteps, hpolling, hrest⟩ := settles tables hinside hnot
      refine ⟨s₂, hstep.trans hsteps, hpolling, ?_⟩
      rw [hrest, hspares.waiting, ← hread]

theorem empties (tables : KeyTables) (hpolling : s.hitting = .polling) :
    ∃ s', OwnSteps tables s s' ∧ s'.hitting = .outside ∧ s'.waiting = [] := by
  induction hwaiting : s.waiting generalizing s with
  | nil =>
      refine ⟨s.look, OwnSteps.one .look trivial hpolling, ?_, hwaiting⟩
      simp [look, hwaiting]
  | cons byte waiting ih =>
      have hlook : s.look.hitting = .reading byte.aux := by
        simp [look, hwaiting]
      obtain ⟨s₁, hsteps, hpolling', hrest⟩ :=
        reads tables (s := s.look) hlook hwaiting
      obtain ⟨s₂, hsteps', houtside, hempty⟩ := ih hpolling' hrest
      have hstep : OwnSteps tables s s.look := OwnSteps.one .look trivial hpolling
      exact ⟨s₂, (hstep.trans hsteps).trans hsteps', houtside, hempty⟩

theorem Follows.finishes (hfollows : Follows tables s) (hplugged : s.plugged = true) :
    ∃ s', OwnSteps tables s s' ∧ s'.hitting = .outside ∧ s'.waiting = [] := by
  obtain ⟨s₁, hsteps, hpolling⟩ :
      ∃ s₁, OwnSteps tables s s₁ ∧ s₁.hitting = .polling := by
    cases hhitting : s.hitting with
    | outside =>
        have henabled : s.Enabled .interrupt := ⟨hplugged, hhitting⟩
        exact ⟨_, OwnSteps.one .interrupt trivial henabled, rfl⟩
    | reading aux =>
        obtain ⟨byte, waiting, hwaiting, -⟩ := hfollows.reading aux hhitting
        obtain ⟨s₁, hsteps, hpolling, -⟩ := reads tables hhitting hwaiting
        exact ⟨s₁, hsteps, hpolling⟩
    | _ =>
        obtain ⟨s₁, hsteps, hpolling, -⟩ :=
          settles tables (s := s) (by rw [hhitting]; nofun)
            (by rw [hhitting]; nofun)
        exact ⟨s₁, hsteps, hpolling⟩
  obtain ⟨s₂, hsteps', houtside, hempty⟩ := empties tables hpolling
  exact ⟨s₂, hsteps.trans hsteps', houtside, hempty⟩

/-- In every order of the steps the prologue is given the keys of the codes that the
keyboard sent, each once and in their order, whatever the mouse sends between them,
and reboots for those that ask for it. From everywhere it can come to its end, and
then no byte is left. -/
theorem keys_follow_codes (hreach : Reachable tables s) (hplugged : s.plugged = true) :
    let d := KeyDecoder.constructed fun _ => false
    s.arrived = s.drained ++ s.handled ++ s.waiting ∧
      s.keys ++ s.hitting.key = d.hits tables (codesOf s.handled) ∧
      s.ports = s.keys.flatMap Key.reboot ∧
      ∃ s', OwnSteps tables s s' ∧ s'.hitting = .outside ∧
        s'.keys = d.hits tables (codesOf (s.handled ++ s.waiting)) := by
  have hfollows := hreach.follows
  obtain ⟨s', hsteps, houtside, hempty⟩ := hfollows.finishes hplugged
  have hfollows' := (hsteps.reachable hreach).follows
  obtain ⟨harrived, hdrained⟩ := hsteps.past
  have hhandled : s'.handled = s.handled ++ s.waiting := by
    have heq := hfollows'.arrived
    rw [harrived, hdrained, hfollows.arrived, hempty, List.append_nil,
      List.append_assoc] at heq
    exact (List.append_cancel_left heq).symm
  have hkeys := hfollows'.keys
  have hnone : Hitting.key .outside = [] := rfl
  rw [houtside, hnone, List.append_nil, hhandled] at hkeys
  exact ⟨hfollows.arrived, hfollows.keys, hfollows.ports, s', hsteps, houtside, hkeys⟩

def sendAll (caller : Caller) (n : Nat) : List KeyboardControllerEvent :=
  (List.replicate n [.poll caller, .outb caller, .accept]).flatten

def booting : List KeyboardControllerEvent := sendAll .thread 8 ++ [.drained]

def noTables : KeyTables := ⟨fun _ => 0, fun _ => 0, fun _ => 0⟩

/-- An `a` is typed, and the mouse is moved. -/
theorem keys_follow_codes_typed : ∃ s s' : KeyboardController,
    s.arrived = [⟨30, false⟩, ⟨8, true⟩] ∧ OwnSteps noTables s s' ∧
      s'.hitting = .outside ∧ s'.keys = [⟨'a'.toUInt8, 30, 0⟩] := by
  obtain ⟨s, hrun, harrived, hplugged, hhandled, hwaiting⟩ :
      ∃ s, Runs.run (fun s => KeyboardController.step noTables s) constructed
          (booting ++ [.arrive ⟨30, false⟩, .arrive ⟨8, true⟩]) = some s ∧
        s.arrived = [⟨30, false⟩, ⟨8, true⟩] ∧ s.plugged = true ∧ s.handled = [] ∧
        s.waiting = [⟨30, false⟩, ⟨8, true⟩] :=
    ⟨_, rfl, rfl, rfl, rfl, rfl⟩
  have hreach : Reachable noTables s := Runs.Reachable.run (.start rfl) hrun
  obtain ⟨-, -, -, s', hsteps, houtside, hkeys⟩ := keys_follow_codes hreach hplugged
  refine ⟨s, s', harrived, hsteps, houtside, ?_⟩
  rw [hkeys, hhandled, hwaiting]
  decide

/-! ### The lamps -/

def told (commands : List (UInt8 × UInt8)) : UInt8 :=
  commands.foldl (fun lamps command =>
    if command.1 = 0xed then command.2 else lamps) 0

def bytesOf (command : UInt8 × UInt8) : List UInt8 := [command.1, command.2]

/-- What the keyboard shows after the bytes it took: each command has two. -/
def shown : List UInt8 → UInt8 → UInt8
  | cmd :: data :: rest, lamps => shown rest (if cmd = 0xed then data else lamps)
  | _, lamps => lamps

theorem shown_bytesOf (commands : List (UInt8 × UInt8)) :
    shown (commands.flatMap bytesOf) 0 = told commands := by
  unfold told
  generalize (0 : UInt8) = lamps
  induction commands generalizing lamps with
  | nil => rfl
  | cons command rest ih => exact ih _

theorem led_and (m m' : Modifier) :
    m.led &&& m'.led = if m = m' then m'.led else 0 := by
  cases m <;> cases m' <;> rfl

theorem not_led_and (m m' : Modifier) :
    ~~~m.led &&& m'.led = if m = m' then 0 else m'.led := by
  cases m <;> cases m' <;> rfl

theorem led_set {m' : Modifier} (hm' : m'.Lock) (leds : UInt8) (m : Modifier)
    (on : Bool) :
    ((if on then leds ||| m.led else leds &&& ~~~m.led) &&& m'.led ≠ 0) ↔
      if m = m' then on = true else leds &&& m'.led ≠ 0 := by
  cases on with
  | true =>
      rw [if_pos rfl, byte_or_and, led_and]
      split
      · have hset : m'.led ≠ 0 := hm'
        simp [hset]
      · rw [UInt8.or_zero]
  | false =>
      rw [if_neg (by decide), UInt8.and_assoc, not_led_and]
      split
      · simp
      · rfl

/-- The lamps that the keyboard was told to show are the locks of the decoder. -/
structure Lit (s : KeyboardController) : Prop where
  issued : told s.issued = s.leds
  lock : ∀ m : Modifier, m.Lock →
    (s.leds &&& m.led ≠ 0 ↔ s.keydecoder.gather.has m = true)

theorem lit_constructed : Lit constructed where
  issued := rfl
  lock m hm := by
    cases m <;> first
      | exact absurd rfl hm
      | decide

theorem Lit.decode (hlit : Lit s) (code : UInt8) : Lit (s.decode tables code) := by
  have hhas : ∀ m : Modifier, m.Lock →
      (s.keydecoder.decode tables code).gather.has m =
        if s.keydecoder.lock code = some m then !s.keydecoder.gather.has m
        else s.keydecoder.gather.has m :=
    fun m hm => KeyDecoder.has_lock_decode hm
  cases hlock : s.keydecoder.lock code with
  | some m =>
      rw [decode_lock hlock]
      constructor
      · change told (s.issued ++ _) = _
        unfold told
        rw [List.foldl_append]
        rfl
      · intro m' hm'
        change (if _ then s.leds ||| m.led else s.leds &&& ~~~m.led) &&& m'.led ≠ 0 ↔ _
        rw [led_set hm']
        split
        · next heq => rw [heq]; rfl
        · next hne =>
          rw [hlit.lock m' hm']
          change _ ↔ (s.keydecoder.decode tables code).gather.has m' = true
          rw [hhas m' hm', hlock, if_neg fun h => hne (Option.some.inj h)]
  | none =>
      rw [decode_no_lock hlock]
      refine ⟨hlit.issued, ?_⟩
      intro m' hm'
      change _ ↔ (s.keydecoder.decode tables code).gather.has m' = true
      rw [hhas m' hm', hlock]
      exact hlit.lock m' hm'

theorem Lit.step (hlit : Lit s) (hstep : s.step tables event = some s') : Lit s' := by
  obtain ⟨henabled, rfl⟩ := step_eq_some.mp hstep
  cases event with
  | setRepeatRate speed delay =>
      refine ⟨?_, hlit.lock⟩
      change told (s.issued ++ _) = s.leds
      rw [← hlit.issued]
      unfold told
      rw [List.foldl_append]
      rfl
  | look => exact { hlit with }
  | read =>
      obtain ⟨hreading, hwaiting⟩ := henabled
      obtain ⟨byte, waiting, hcons⟩ := List.exists_cons_of_ne_nil hwaiting
      change Lit (s.read tables)
      rcases hreading with hreading | hreading
      · rw [read_mouse hcons hreading]
        exact { hlit with }
      · rw [read_code hcons hreading]
        have hlit' : Lit { s with waiting, handled := s.handled ++ [byte] } :=
          { hlit with }
        exact hlit'.decode byte.code
  | produce =>
      change Lit s.produce
      unfold produce
      split
      · exact { hlit with }
      · exact hlit
  | arrive byte => exact { hlit with }
  | accept => exact { hlit with }
  | drain => exact { hlit with }
  | drained => exact { hlit with }
  | poll caller => exact { hlit with }
  | outb caller => exact { hlit with }
  | interrupt => exact { hlit with }
  | switched => exact { hlit with }

theorem Reachable.lit (hreach : Reachable tables s) : Lit s :=
  Runs.Reachable.invariant hreach (fun _ hstart => hstart ▸ lit_constructed)
    fun _ _ _ hlit hstep => hlit.step hstep

/-! ### The commands on the line -/

/-- No command begins while another one is under way. -/
def Alone (s : KeyboardController) : KeyboardControllerEvent → Prop
  | .read => s.hitting = .reading true ∨ (s.sending .thread).bytes = [] ∨
      ∀ byte ∈ s.waiting.head?, s.keydecoder.lock byte.code = none
  | .setRepeatRate _ _ => (s.sending .prologue).bytes = []
  | _ => True

instance (s : KeyboardController) (event : KeyboardControllerEvent) :
    Decidable (s.Alone event) :=
  match event with
  | .read => inferInstanceAs (Decidable (_ ∨ _ ∨ _))
  | .setRepeatRate _ _ =>
      inferInstanceAs (Decidable ((s.sending .prologue).bytes = []))
  | .arrive _ | .accept | .drain | .drained | .poll _ | .outb _ | .interrupt | .look
  | .switched | .produce => inferInstanceAs (Decidable True)

structure Wired (s : KeyboardController) : Prop where
  bytes : s.taken ++ s.input.toList ++ (s.sending .thread).bytes ++
    (s.sending .prologue).bytes = s.issued.flatMap bytesOf
  alone : (s.sending .thread).bytes = [] ∨ (s.sending .prologue).bytes = []
  clear : ∀ caller, (s.sending caller).clear = true →
    s.input = none ∧ (s.sending caller).bytes ≠ []
  switching : s.hitting ≠ .switching → (s.sending .prologue).bytes = []

theorem wired_constructed : Wired constructed where
  bytes := by decide
  alone := .inr rfl
  clear caller hclear := by cases caller <;> cases hclear
  switching _ := rfl

theorem Wired.sendCommand (hwired : Wired s)
    (hthread : (s.sending .thread).bytes = []) (hprologue : (s.sending .prologue).bytes = [])
    {caller : Caller} (hswitching : caller = .prologue → s.hitting = .switching)
    (cmd data : UInt8) : Wired (s.sendCommand caller cmd data) := by
  have hbytes := hwired.bytes
  have hidle : ∀ caller, (s.sending caller).clear = true → False := by
    intro caller hclear
    cases caller with
    | thread => exact (hwired.clear _ hclear).2 hthread
    | prologue => exact (hwired.clear _ hclear).2 hprologue
  rw [hthread, hprologue, List.append_nil, List.append_nil] at hbytes
  unfold KeyboardController.sendCommand
  cases caller with
  | thread =>
      refine ⟨?_, .inr hprologue, ?_, fun _ => hprologue⟩
      · dsimp only
        rw [Function.update_self, Function.update_of_ne (by decide), hthread, hprologue,
          List.flatMap_append, ← hbytes]
        simp [bytesOf]
      · intro caller hclear
        cases caller <;> exact (hidle _ hclear).elim
  | prologue =>
      refine ⟨?_, .inl hthread, ?_, fun hnot => absurd (hswitching rfl) hnot⟩
      · dsimp only
        rw [Function.update_self, Function.update_of_ne (by decide), hthread, hprologue,
          List.flatMap_append, ← hbytes]
        simp [bytesOf]
      · intro caller hclear
        cases caller <;> exact (hidle _ hclear).elim

theorem Wired.setLed (hwired : Wired s)
    (hthread : (s.sending .thread).bytes = []) (hprologue : (s.sending .prologue).bytes = [])
    {caller : Caller} (hswitching : caller = .prologue → s.hitting = .switching)
    (led : UInt8) (on : Bool) : Wired (s.setLed caller led on) := by
  let leds := if on then s.leds ||| led else s.leds &&& ~~~led
  have hwired' : Wired { s with leds } := { hwired with }
  exact hwired'.sendCommand hthread hprologue hswitching 0xed leds

theorem Wired.poll (hwired : Wired s) {caller : Caller}
    (hbytes : (s.sending caller).bytes ≠ []) : Wired (s.poll caller) := by
  refine ⟨?_, ?_, ?_, ?_⟩
  · rw [poll_bytes, poll_bytes]
    exact hwired.bytes
  · rw [poll_bytes, poll_bytes]
    exact hwired.alone
  · intro caller' hclear
    rw [poll_bytes]
    by_cases heq : caller' = caller
    · subst heq
      change (Function.update s.sending caller' _ caller').clear = true at hclear
      rw [Function.update_self] at hclear
      exact ⟨Option.isNone_iff_eq_none.mp hclear, hbytes⟩
    · change (Function.update s.sending caller _ caller').clear = true at hclear
      rw [Function.update_of_ne heq] at hclear
      exact hwired.clear caller' hclear
  · rw [poll_bytes]
    exact hwired.switching

theorem Wired.outb (hwired : Wired s) {caller : Caller}
    (hclear : (s.sending caller).clear = true) : Wired (s.outb caller) := by
  obtain ⟨hinput, hbytes⟩ := hwired.clear caller hclear
  obtain ⟨byte, rest, hcons⟩ := List.exists_cons_of_ne_nil hbytes
  have hline := hwired.bytes
  rw [hinput, Option.toList_none, List.append_nil] at hline
  cases caller with
  | thread =>
      have hprologue : (s.sending .prologue).bytes = [] :=
        hwired.alone.resolve_left hbytes
      have hidle : (s.sending .prologue).clear ≠ true := fun hclear =>
        (hwired.clear _ hclear).2 hprologue
      refine ⟨?_, .inr hprologue, ?_, fun _ => hprologue⟩
      · change _ = s.issued.flatMap bytesOf
        rw [← hline]
        simp [KeyboardController.outb, hcons, hprologue]
      · intro caller hclear
        cases caller with
        | thread => cases hclear
        | prologue => exact absurd hclear hidle
  | prologue =>
      have hthread : (s.sending .thread).bytes = [] :=
        hwired.alone.resolve_right hbytes
      have hidle : (s.sending .thread).clear ≠ true := fun hclear =>
        (hwired.clear _ hclear).2 hthread
      refine ⟨?_, .inl hthread, ?_, fun hnot => absurd (hwired.switching hnot) hbytes⟩
      · change _ = s.issued.flatMap bytesOf
        rw [← hline]
        simp [KeyboardController.outb, hcons, hthread]
      · intro caller hclear
        cases caller with
        | thread => exact absurd hclear hidle
        | prologue => cases hclear

theorem Wired.decode (hwired : Wired s) {code : UInt8}
    (hprologue : (s.sending .prologue).bytes = [])
    (halone : (s.sending .thread).bytes = [] ∨ s.keydecoder.lock code = none) :
    Wired (s.decode tables code) := by
  cases hlock : s.keydecoder.lock code with
  | some m =>
      have hthread := halone.resolve_right (by rw [hlock]; nofun)
      rw [decode_lock hlock]
      have hwired' : Wired { s with
          keydecoder := s.keydecoder.decode tables code
          hitting := .switching } :=
        { hwired with switching := fun _ => hprologue }
      exact hwired'.setLed hthread hprologue (fun _ => rfl) _ _
  | none =>
      rw [decode_no_lock hlock]
      exact { hwired with switching := fun _ => hprologue }

theorem Wired.step (hwired : Wired s) (halone : s.Alone event)
    (hstep : s.step tables event = some s') : Wired s' := by
  obtain ⟨henabled, rfl⟩ := step_eq_some.mp hstep
  have hidle : s.hitting ≠ .switching → (s.sending .prologue).bytes = [] :=
    hwired.switching
  cases event with
  | accept =>
      obtain ⟨byte, hinput⟩ := Option.isSome_iff_exists.mp henabled
      refine { hwired with bytes := ?_, clear := ?_ }
      · change s.taken ++ s.input.toList ++ [] ++ _ ++ _ = _
        rw [List.append_nil]
        exact hwired.bytes
      · exact fun caller hclear => ⟨rfl, (hwired.clear caller hclear).2⟩
  | setRepeatRate speed delay =>
      obtain ⟨-, hthread⟩ := henabled
      exact hwired.sendCommand hthread halone (fun hcaller => by cases hcaller) _ _
  | poll caller => exact hwired.poll henabled.1
  | outb caller => exact hwired.outb henabled.2
  | interrupt =>
      obtain ⟨-, houtside⟩ := henabled
      exact { hwired with switching := fun _ => hidle (by rw [houtside]; nofun) }
  | look =>
      have hpolling : s.hitting = .polling := henabled
      exact { hwired with switching := fun _ => hidle (by rw [hpolling]; nofun) }
  | read =>
      obtain ⟨hreading, hwaiting⟩ := henabled
      obtain ⟨byte, waiting, hcons⟩ := List.exists_cons_of_ne_nil hwaiting
      change Wired (s.read tables)
      rcases hreading with hreading | hreading
      · have hprologue := hidle (by rw [hreading]; nofun)
        rw [read_mouse hcons hreading]
        exact { hwired with switching := fun _ => hprologue }
      · have hprologue := hidle (by rw [hreading]; nofun)
        rw [read_code hcons hreading]
        have hwired' : Wired { s with waiting, handled := s.handled ++ [byte] } :=
          { hwired with }
        refine hwired'.decode hprologue ?_
        rcases halone with htrue | hthread | hlock
        · rw [hreading] at htrue
          cases htrue
        · exact .inl hthread
        · exact .inr (hlock byte (by rw [hcons]; rfl))
  | switched =>
      obtain ⟨-, hprologue⟩ := henabled
      exact { hwired with switching := fun _ => hprologue }
  | produce =>
      change Wired s.produce
      unfold produce
      split
      · next hfound =>
        exact { hwired with switching := fun _ => hidle (by rw [hfound]; nofun) }
      · exact hwired
  | arrive byte => exact { hwired with }
  | drain => exact { hwired with }
  | drained => exact { hwired with }

def ReachableAlone (tables : KeyTables) : KeyboardController → Prop :=
  Runs.Reachable (· = constructed) fun s event s' =>
    s.Alone event ∧ s.step tables event = some s'

/-- As long as no command begins while another one is under way, the keyboard gets
every command whole and in its turn, and when all has been sent its lamps show the
locks of the decoder. -/
theorem lamps_show_locks (hreach : ReachableAlone tables s) :
    s.taken ++ s.input.toList ++ (s.sending .thread).bytes ++
        (s.sending .prologue).bytes = s.issued.flatMap bytesOf ∧
      (s.input = none → (∀ caller, (s.sending caller).bytes = []) →
        ∀ m : Modifier, m.Lock →
          (shown s.taken 0 &&& m.led ≠ 0 ↔ s.keydecoder.gather.has m = true)) := by
  have hwired : Wired s :=
    Runs.Reachable.invariant hreach (fun _ hstart => hstart ▸ wired_constructed)
      fun _ _ _ hwired hstep => hwired.step hstep.1 hstep.2
  have hlit : Lit s :=
    Runs.Reachable.invariant hreach (fun _ hstart => hstart ▸ lit_constructed)
      fun _ _ _ hlit hstep => hlit.step hstep.2
  refine ⟨hwired.bytes, fun hinput hsent m hm => ?_⟩
  have hbytes := hwired.bytes
  rw [hinput, hsent, hsent, Option.toList_none, List.append_nil, List.append_nil,
    List.append_nil] at hbytes
  rw [hbytes, shown_bytesOf, hlit.issued]
  exact hlit.lock m hm

/-- Caps Lock is pressed. -/
theorem lamps_show_locks_pressed : ∃ s : KeyboardController,
    s.arrived = [⟨58, false⟩] ∧ shown s.taken 0 &&& Modifier.capsLock.led ≠ 0 := by
  obtain ⟨s, hrun, harrived, hinput, hthread, hprologue, hlock⟩ :
      ∃ s, Runs.run (fun s event =>
          if s.Alone event then KeyboardController.step noTables s event else none)
          constructed (booting ++ [.arrive ⟨58, false⟩, .interrupt, .look, .read] ++
            sendAll .prologue 2) = some s ∧
        s.arrived = [⟨58, false⟩] ∧ s.input = none ∧ (s.sending .thread).bytes = [] ∧
        (s.sending .prologue).bytes = [] ∧
        s.keydecoder.gather.has .capsLock = true :=
    ⟨_, rfl, rfl, rfl, rfl, rfl, rfl⟩
  have hreach : ReachableAlone noTables s := Runs.Reachable.run_allowed rfl hrun
  obtain ⟨-, hshown⟩ := lamps_show_locks hreach
  have hsent : ∀ caller, (s.sending caller).bytes = [] := by
    intro caller
    cases caller with
    | thread => exact hthread
    | prologue => exact hprologue
  exact ⟨s, harrived, (hshown hinput hsent .capsLock (by decide)).mpr hlock⟩

/-- Caps Lock is pressed while a thread has sent one byte of a command of its own. -/
theorem commands_mixed : ∃ s : KeyboardController, Reachable noTables s ∧
    s.input = none ∧ (∀ caller, (s.sending caller).bytes = []) ∧
      s.taken ≠ s.issued.flatMap bytesOf := by
  obtain ⟨s, hrun, hinput, hthread, hprologue, htaken⟩ :
      ∃ s, Runs.run (fun s => KeyboardController.step noTables s) constructed
          (booting ++ [.setRepeatRate 31 3] ++ sendAll .thread 1 ++
            [.arrive ⟨58, false⟩, .interrupt, .look, .read] ++ sendAll .prologue 2 ++
            sendAll .thread 1) = some s ∧
        s.input = none ∧ (s.sending .thread).bytes = [] ∧
        (s.sending .prologue).bytes = [] ∧
        (s.taken = s.issued.flatMap bytesOf → False) :=
    ⟨_, rfl, rfl, rfl, rfl, by decide⟩
  refine ⟨s, Runs.Reachable.run (.start rfl) hrun, hinput, ?_, htaken⟩
  intro caller
  cases caller with
  | thread => exact hthread
  | prologue => exact hprologue

end KeyboardController

end X86Os32
