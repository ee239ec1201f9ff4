import X86Os32.Device.Keyboard
import X86Os32.Library.HeldKeys

namespace X86Os32

open Library Library.HeldKeys

/-! `machine/keydecoder.cc`, with the modifiers of `machine/key.h`. -/

/-- `Key::mbit` -/
inductive Modifier
  | SHIFT
  | altLeft
  | altRight
  | ctrlLeft
  | ctrlRight
  | capsLock
  | numLock
  | scrollLock
deriving DecidableEq

def Modifier.mask : Modifier → UInt8
  | SHIFT => 1
  | altLeft => 2
  | altRight => 4
  | ctrlLeft => 8
  | ctrlRight => 16
  | capsLock => 32
  | numLock => 64
  | scrollLock => 128

namespace Key

variable (k : Key)

/-- The setters: `k.set .SHIFT pressed` is `k.SHIFT(pressed)`. -/
def set (m : Modifier) (pressed : Bool) : Key :=
  { k with modi := if pressed then k.modi ||| m.mask else k.modi &&& ~~~m.mask }

def has (m : Modifier) : Bool := k.modi &&& m.mask ≠ 0

def SHIFT : Bool := k.has .SHIFT

def altLeft : Bool := k.has .altLeft

def altRight : Bool := k.has .altRight

def ctrlLeft : Bool := k.has .ctrlLeft

def ctrlRight : Bool := k.has .ctrlRight

def capsLock : Bool := k.has .capsLock

def numLock : Bool := k.has .numLock

def ctrl : Bool := k.ctrlLeft || k.ctrlRight

def invalidate : Key := { k with scan := 0 }

end Key

/-- The tables of the decoder, and what is in the memory behind each of them. -/
structure KeyTables where
  behindNormal : UInt8 → UInt8
  behindShift : UInt8 → UInt8
  behindAlt : UInt8 → UInt8

namespace KeyTables

def normalTab : List UInt8 := [
  0, 0, 49, 50, 51, 52, 53, 54, 55, 56, 57, 48, 225, 39, 8,
  0, 113, 119, 101, 114, 116, 122, 117, 105, 111, 112, 129, 43, 10,
  0, 97, 115, 100, 102, 103, 104, 106, 107, 108, 148, 132, 94, 0, 35,
  121, 120, 99, 118, 98, 110, 109, 44, 46, 45, 0,
  42, 0, 32, 0, 0, 0, 0, 0, 0, 0, 0, 0, 0, 0, 0, 0, 0, 0, 0, 45,
  0, 0, 0, 43, 0, 0, 0, 0, 0, 0, 0, 60, 0, 0]

def shiftTab : List UInt8 := [
  0, 0, 33, 34, 21, 36, 37, 38, 47, 40, 41, 61, 63, 96, 0,
  0, 81, 87, 69, 82, 84, 90, 85, 73, 79, 80, 154, 42, 0,
  0, 65, 83, 68, 70, 71, 72, 74, 75, 76, 153, 142, 248, 0, 39,
  89, 88, 67, 86, 66, 78, 77, 59, 58, 95, 0,
  0, 0, 32, 0, 0, 0, 0, 0, 0, 0, 0, 0, 0, 0, 0, 0, 0, 0, 0, 0,
  0, 0, 0, 0, 0, 0, 0, 0, 0, 0, 0, 62, 0, 0]

def altTab : List UInt8 := [
  0, 0, 0, 253, 0, 0, 0, 0, 123, 91, 93, 125, 92, 0, 0,
  0, 64, 0, 0, 0, 0, 0, 0, 0, 0, 0, 0, 126, 0,
  0, 0, 0, 0, 0, 0, 0, 0, 0, 0, 0, 0, 0, 0, 0,
  0, 0, 0, 0, 0, 0, 230, 0, 0, 0, 0,
  0, 0, 0, 0, 0, 0, 0, 0, 0, 0, 0, 0, 0, 0, 0, 0, 0, 0, 0, 0,
  0, 0, 0, 0, 0, 0, 0, 0, 0, 0, 0, 124, 0, 0]

def ascNumTab : List UInt8 :=
  [55, 56, 57, 45, 52, 53, 54, 43, 49, 50, 51, 48, 44]

def scanNumTab : List UInt8 :=
  [8, 9, 10, 53, 5, 6, 7, 27, 2, 3, 4, 11, 51]

variable (tables : KeyTables)

def normal (code : UInt8) : UInt8 :=
  normalTab[code.toNat]?.getD (tables.behindNormal code)

def shift (code : UInt8) : UInt8 :=
  shiftTab[code.toNat]?.getD (tables.behindShift code)

def alt (code : UInt8) : UInt8 :=
  altTab[code.toNat]?.getD (tables.behindAlt code)

end KeyTables

structure KeyDecoder where
  prefix_ : UInt8
  gather : Key
  leds : Modifier → Bool

namespace KeyDecoder

variable (tables : KeyTables) (d : KeyDecoder)

def getAsciiCode (code : UInt8) : KeyDecoder :=
  let put (asc scan : UInt8) : KeyDecoder :=
    { d with gather := ⟨asc, scan, d.gather.modi⟩ }
  if code = 53 ∧ d.prefix_ = 0xe0 then put '/'.toUInt8 8
  else if d.gather.numLock ∧ d.prefix_ = 0 ∧ code ≥ 71 ∧ code ≤ 83 then
    put (KeyTables.ascNumTab.getD (code - 71).toNat 0)
      (KeyTables.scanNumTab.getD (code - 71).toNat 0)
  else if d.gather.altRight then put (tables.alt code) code
  else if d.gather.SHIFT then put (tables.shift code) code
  else if d.gather.capsLock then
    if (code ≥ 16 ∧ code ≤ 26) ∨ (code ≥ 30 ∧ code ≤ 40) ∨
        (code ≥ 44 ∧ code ≤ 50) then
      put (tables.shift code) code
    else put (tables.normal code) code
  else put (tables.normal code) code

def setModifier (m : Modifier) (pressed : Bool) : KeyDecoder :=
  { d with gather := d.gather.set m pressed }

/-- A lock is switched, and its lamp with it. -/
def toggle (m : Modifier) : KeyDecoder :=
  let d := d.setModifier m (!d.gather.has m)
  { d with leds := Function.update d.leds m (d.gather.has m) }

def modifier (code : UInt8) : Option Modifier :=
  if code = 42 ∨ code = 54 then some .SHIFT
  else if code = 56 then some (if d.prefix_ = 0xe0 then .altRight else .altLeft)
  else if code = 29 then some (if d.prefix_ = 0xe0 then .ctrlRight else .ctrlLeft)
  else none

/-- The break codes of the other keys are ignored. -/
def release (code : UInt8) : KeyDecoder :=
  match d.modifier code with
  | some m => d.setModifier m false
  | none => d

def press (code : UInt8) : KeyDecoder :=
  match d.modifier code with
  | some m => d.setModifier m true
  | none =>
      if code = 58 then d.toggle .capsLock
      else if code = 70 then d.toggle .scrollLock
      else if code = 69 then
        if d.gather.ctrlLeft then d.getAsciiCode tables code
        else d.toggle .numLock
      else if code = 91 ∨ code = 92 ∨ code = 93 then d
      else d.getAsciiCode tables code

/-- `decode`, which returns `gather`. -/
def decode (code : UInt8) : KeyDecoder :=
  let d := { d with gather := d.gather.invalidate }
  if code = 0xe0 ∨ code = 0xe1 then { d with prefix_ := code }
  else
    let d :=
      if code &&& 0x80 ≠ 0 then d.release (code &&& ~~~0x80)
      else d.press tables code
    { d with prefix_ := 0 }

def decodeAll (codes : List UInt8) : KeyDecoder := codes.foldl (decode tables) d

end KeyDecoder

/-! ### The keys of the keyboard -/

/-- A key that is no modifier and has a make code of its own, behind `E0` or not. -/
structure OrdinaryKey where
  extended : Bool
  code : UInt8
  below : code.toNat < 128
  apart : code ≠ 29 ∧ code ≠ 42 ∧ code ≠ 54 ∧ code ≠ 56 ∧ code ≠ 0x60 ∧
    code ≠ 0x61
deriving DecidableEq

def strokeCode (code : UInt8) (pressed : Bool) : UInt8 :=
  if pressed then code else code ||| 0x80

inductive PhysicalKey
  | shiftLeft
  | shiftRight
  | ctrlLeft
  | ctrlRight
  | altLeft
  | altRight
  | ordinary (key : OrdinaryKey)
deriving DecidableEq

namespace PhysicalKey

def code : PhysicalKey → UInt8
  | shiftLeft => 42
  | shiftRight => 54
  | ctrlLeft | ctrlRight => 29
  | altLeft | altRight => 56
  | ordinary key => key.code

def extended : PhysicalKey → Bool
  | ctrlRight | altRight => true
  | ordinary key => key.extended
  | _ => false

def modifier : PhysicalKey → Option Modifier
  | shiftLeft | shiftRight => some .SHIFT
  | ctrlLeft => some .ctrlLeft
  | ctrlRight => some .ctrlRight
  | altLeft => some .altLeft
  | altRight => some .altRight
  | ordinary _ => none

def codes (stroke : Stroke PhysicalKey) : List UInt8 :=
  (if stroke.key.extended then [0xe0] else []) ++
    [strokeCode stroke.key.code stroke.pressed]

end PhysicalKey

/-- The modifiers that are set while a key is held; the others are switched. -/
def Modifier.Momentary (m : Modifier) : Prop :=
  m ≠ capsLock ∧ m ≠ numLock ∧ m ≠ scrollLock

instance (m : Modifier) : Decidable m.Momentary :=
  inferInstanceAs (Decidable (_ ∧ _))

theorem byte_or_and (x a b : UInt8) :
    (x ||| a) &&& b = (x &&& b) ||| (a &&& b) :=
  UInt8.toBitVec_inj.mp BitVec.and_or_distrib_right

theorem Modifier.mask_and (m m' : Modifier) :
    m.mask &&& m'.mask = if m = m' then m'.mask else 0 := by
  cases m <;> cases m' <;> rfl

theorem Modifier.not_mask_and (m m' : Modifier) :
    ~~~m.mask &&& m'.mask = if m = m' then 0 else m'.mask := by
  cases m <;> cases m' <;> rfl

theorem Modifier.mask_ne_zero (m : Modifier) : m.mask ≠ 0 := by
  cases m <;> decide

namespace Key

theorem has_set (k : Key) (m m' : Modifier) (pressed : Bool) :
    (k.set m pressed).has m' = if m = m' then pressed else k.has m' := by
  unfold has set
  cases pressed with
  | true =>
      simp only [if_true, byte_or_and, Modifier.mask_and]
      split
      · have hset := m'.mask_ne_zero
        simp [hset]
      · rw [UInt8.or_zero]
  | false =>
      simp only [Bool.false_eq_true, if_false, UInt8.and_assoc,
        Modifier.not_mask_and]
      split
      · rw [UInt8.and_zero]
        rfl
      · rfl

end Key

namespace KeyDecoder

variable (tables : KeyTables) {d : KeyDecoder} {m : Modifier} {code : UInt8}

theorem getAsciiCode_modi (d : KeyDecoder) (code : UInt8) :
    (d.getAsciiCode tables code).gather.modi = d.gather.modi := by
  unfold getAsciiCode
  dsimp only
  split_ifs <;> rfl

theorem has_getAsciiCode (d : KeyDecoder) (code : UInt8) (m : Modifier) :
    (d.getAsciiCode tables code).gather.has m = d.gather.has m := by
  unfold Key.has
  rw [getAsciiCode_modi]

theorem has_setModifier (d : KeyDecoder) (m m' : Modifier) (pressed : Bool) :
    (d.setModifier m pressed).gather.has m' =
      if m = m' then pressed else d.gather.has m' :=
  d.gather.has_set m m' pressed

theorem has_toggle {lock : Modifier} (hne : lock ≠ m) :
    (d.toggle lock).gather.has m = d.gather.has m := by
  change (d.setModifier lock _).gather.has m = _
  rw [has_setModifier, if_neg hne]

theorem has_press (hm : m.Momentary) :
    (d.press tables code).gather.has m =
      if d.modifier code = some m then true else d.gather.has m := by
  obtain ⟨hcaps, hnum, hscroll⟩ := hm
  unfold press
  cases hmodifier : d.modifier code with
  | some m' =>
      simp only [has_setModifier, Option.some.injEq]
  | none =>
      simp only [reduceCtorEq, if_false]
      split
      · exact has_toggle hcaps.symm
      split
      · exact has_toggle hscroll.symm
      split
      · split
        · exact has_getAsciiCode tables d code m
        · exact has_toggle hnum.symm
      split
      · rfl
      · exact has_getAsciiCode tables d code m

theorem has_release (d : KeyDecoder) (code : UInt8) (m : Modifier) :
    (d.release code).gather.has m =
      if d.modifier code = some m then false else d.gather.has m := by
  unfold release
  cases hmodifier : d.modifier code with
  | some m' => simp only [has_setModifier, Option.some.injEq]
  | none => simp only [reduceCtorEq, if_false]

theorem prefix_decode (hcode : code ≠ 0xe0 ∧ code ≠ 0xe1) :
    (d.decode tables code).prefix_ = 0 := by
  unfold decode
  rw [if_neg (by simp [hcode])]

theorem code_bits : ∀ n < 128, UInt8.ofNat n &&& 0x80 = 0 ∧
    (UInt8.ofNat n ||| 0x80) &&& 0x80 ≠ 0 ∧
    (UInt8.ofNat n ||| 0x80) &&& ~~~0x80 = UInt8.ofNat n := by
  decide

theorem has_decode (hcode : code.toNat < 128) (hm : m.Momentary) (pressed : Bool)
    (hescape : strokeCode code pressed ≠ 0xe0 ∧ strokeCode code pressed ≠ 0xe1) :
    (d.decode tables (strokeCode code pressed)).gather.has m =
      if d.modifier code = some m then pressed else d.gather.has m := by
  obtain ⟨hmake, hbreak, hsame⟩ := code_bits code.toNat hcode
  rw [UInt8.ofNat_toNat] at hmake hbreak hsame
  unfold decode
  rw [if_neg (by simp [hescape])]
  cases pressed with
  | true =>
      simp only [strokeCode, if_true, hmake, ne_eq, not_true, if_false]
      exact has_press tables hm
  | false =>
      simp only [strokeCode, Bool.false_eq_true, if_false, if_pos hbreak, hsame]
      exact has_release _ code m

theorem modifier_code {key : PhysicalKey}
    (hpending : d.prefix_ = if key.extended then 0xe0 else 0) :
    d.modifier key.code = key.modifier := by
  unfold modifier
  rw [hpending]
  cases key with
  | ordinary key =>
      obtain ⟨hctrl, hleft, hright, halt, -⟩ := key.apart
      simp [PhysicalKey.code, PhysicalKey.modifier, hctrl, hleft, hright, halt]
  | _ => rfl

theorem code_below (key : PhysicalKey) : key.code.toNat < 128 := by
  cases key with
  | ordinary key => exact key.below
  | _ => decide

theorem strokeCode_ne_prefix (key : PhysicalKey) (pressed : Bool) :
    strokeCode key.code pressed ≠ 0xe0 ∧ strokeCode key.code pressed ≠ 0xe1 := by
  have hbits : ∀ n < 128, (UInt8.ofNat n = 0xe0 ∨ UInt8.ofNat n = 0xe1 → False) ∧
      (UInt8.ofNat n ||| 0x80 = 0xe0 → UInt8.ofNat n = 0x60) ∧
      (UInt8.ofNat n ||| 0x80 = 0xe1 → UInt8.ofNat n = 0x61) := by
    decide
  obtain ⟨hmake, hbreak, hbreak'⟩ := hbits key.code.toNat (code_below key)
  rw [UInt8.ofNat_toNat] at hmake hbreak hbreak'
  have hapart : key.code ≠ 0x60 ∧ key.code ≠ 0x61 := by
    cases key with
    | ordinary key => exact key.apart.2.2.2.2
    | _ => decide
  cases pressed with
  | true => exact ⟨fun h => hmake (.inl h), fun h => hmake (.inr h)⟩
  | false => exact ⟨fun h => hapart.1 (hbreak h), fun h => hapart.2 (hbreak' h)⟩

abbrev Stands (m : Modifier) (key : PhysicalKey) : Prop := key.modifier = some m

/-- Between two strokes no prefix is waiting, and the bits are lamps of the keys. -/
structure Shows (strokes : List (Stroke PhysicalKey)) (d : KeyDecoder) : Prop where
  prefix_ : d.prefix_ = 0
  lamp : ∀ m : Modifier, m.Momentary → d.gather.has m = lamp (Stands m) strokes

theorem Shows.stroke {strokes : List (Stroke PhysicalKey)}
    (hshows : Shows strokes d) (stroke : Stroke PhysicalKey) :
    Shows (strokes ++ [stroke]) (d.decodeAll tables (PhysicalKey.codes stroke)) := by
  have hescape := strokeCode_ne_prefix stroke.key stroke.pressed
  obtain ⟨d', hcodes, hbehind, hsame⟩ : ∃ d' : KeyDecoder,
      d.decodeAll tables (PhysicalKey.codes stroke) =
        d'.decode tables (strokeCode stroke.key.code stroke.pressed) ∧
      d'.prefix_ = (if stroke.key.extended then 0xe0 else 0) ∧
      ∀ m, d'.gather.has m = d.gather.has m := by
    unfold PhysicalKey.codes
    cases stroke.key.extended with
    | true => exact ⟨d.decode tables 0xe0, rfl, rfl, fun m => rfl⟩
    | false => exact ⟨d, rfl, hshows.prefix_, fun m => rfl⟩
  rw [hcodes]
  refine ⟨prefix_decode tables hescape, ?_⟩
  intro m hm
  rw [has_decode tables (code_below _) hm _ hescape, modifier_code hbehind, hsame,
    lamp_snoc, hshows.lamp m hm]

/-- The decoder of a keyboard object, which lies in memory filled with zeros. -/
def constructed (leds : Modifier → Bool) : KeyDecoder := ⟨0, .constructed, leds⟩

theorem shows_decodeAll (leds : Modifier → Bool)
    (strokes : List (Stroke PhysicalKey)) :
    Shows strokes
      ((constructed leds).decodeAll tables (strokes.flatMap PhysicalKey.codes)) := by
  induction strokes using List.reverseRecOn with
  | nil =>
      refine ⟨rfl, ?_⟩
      intro m hm
      change Key.has .constructed m = false
      cases m <;> decide
  | append_singleton strokes stroke ih =>
      rw [List.flatMap_append, List.flatMap_singleton]
      unfold decodeAll
      rw [List.foldl_append]
      exact ih.stroke tables stroke

structure Reflects (held : PhysicalKey → Bool) (d : KeyDecoder) : Prop where
  SHIFT : d.gather.SHIFT = (held .shiftLeft || held .shiftRight)
  ctrlLeft : d.gather.ctrlLeft = held .ctrlLeft
  ctrlRight : d.gather.ctrlRight = held .ctrlRight
  altLeft : d.gather.altLeft = held .altLeft
  altRight : d.gather.altRight = held .altRight
  prefix_ : d.prefix_ = 0

theorem Shows.single {strokes : List (Stroke PhysicalKey)}
    (hshows : Shows strokes d) {m : Modifier} (hm : m.Momentary) {key : PhysicalKey}
    (hkey : ∀ other : PhysicalKey, other.modifier = some m ↔ other = key) :
    d.gather.has m = held strokes key := by
  rw [hshows.lamp m hm, ← lamp_single]
  unfold HeldKeys.lamp
  simp only [hkey]

theorem SHIFT_iff {strokes : List (Stroke PhysicalKey)} (hshows : Shows strokes d) :
    d.gather.SHIFT = (held strokes .shiftLeft || held strokes .shiftRight) ↔
      ¬LeavesOne (Stands .SHIFT) strokes := by
  have hlamp := hshows.lamp .SHIFT (by decide)
  have hkeys : (∃ key, Stands .SHIFT key ∧ held strokes key = true) ↔
      (held strokes .shiftLeft || held strokes .shiftRight) = true := by
    rw [Bool.or_eq_true]
    constructor
    · rintro ⟨key, hkey, hheld⟩
      cases key with
      | shiftLeft => exact .inl hheld
      | shiftRight => exact .inr hheld
      | _ => cases hkey
    · rintro (hheld | hheld)
      · exact ⟨.shiftLeft, rfl, hheld⟩
      · exact ⟨.shiftRight, rfl, hheld⟩
  rw [← lamp_iff, ← hlamp, hkeys, ← Bool.eq_iff_iff]
  rfl

/-- The bits reflect the keys, unless the last stroke of a shift key was a release
that left the other one held. -/
theorem reflects_iff (leds : Modifier → Bool) (strokes : List (Stroke PhysicalKey)) :
    Reflects (held strokes)
      ((constructed leds).decodeAll tables (strokes.flatMap PhysicalKey.codes)) ↔
      ¬LeavesOne (Stands .SHIFT) strokes := by
  have hshows := shows_decodeAll tables leds strokes
  rw [← SHIFT_iff hshows]
  refine ⟨Reflects.SHIFT, fun hshift => ⟨hshift, ?_, ?_, ?_, ?_, hshows.prefix_⟩⟩
  all_goals
    refine hshows.single (by decide) fun other => ?_
    cases other <;> simp [PhysicalKey.modifier]

/-- Both shift keys are pressed, and one is released. -/
theorem reflects_not :
    let strokes : List (Stroke PhysicalKey) :=
      [⟨.shiftLeft, true⟩, ⟨.shiftRight, true⟩, ⟨.shiftRight, false⟩]
    let d := (constructed fun _ => false).decodeAll
      ⟨fun _ => 0, fun _ => 0, fun _ => 0⟩ (strokes.flatMap PhysicalKey.codes)
    held strokes .shiftLeft = true ∧ d.gather.SHIFT = false := by
  decide

end KeyDecoder

end X86Os32
