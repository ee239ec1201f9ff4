import X86Os32.Debug.Assert
import X86Os32.Library.Blocks
import X86Os32.Library.Programs
import X86Os32.User.Characters

set_option linter.style.nameCheck false

namespace X86Os32.Strings

open Library
open OStream (Text)

/-! `class String` with its storage: the twenty bytes of the object, which hold
either the characters or a pointer and a capacity, and the heap. -/

/-- The block a pointer leads to.  Which number it has cannot be observed. -/
abbrev Pointer : Type := Nat

inductive Byte
  | indeterminate
  | char (c : UInt8)
  /-- One of the four bytes of a pointer. -/
  | pointer (target : Pointer) (part : Fin 4)
deriving DecidableEq

inductive Fault
  | stopped (why : Stop)
  /-- An access beyond the inline bytes, the capacity or a block. -/
  | outsideBuffer
  /-- Bytes read as something that was not written there. -/
  | indeterminate
  /-- The name of no object, or of one that exists already. -/
  | misnamed
deriving DecidableEq

abbrev Heap : Type := Blocks Pointer Byte

abbrev Code : Type → Type := Program Heap Fault

def require (condition : Prop) [Decidable condition] (exp : String) :
    Code Unit :=
  if condition then pure () else throw (.stopped (.assertionFailed exp))

def orFault (fault : Fault) : Option α → Code α
  | none => throw fault
  | some value => pure value

def toInt (x : Nat) : Int := if x < 2 ^ 31 then x else (x : Int) - 2 ^ 32

section Storage

/-- `SHORT_STRING_LENGTH`, which is `sizeof(short_data)` -/
abbrev shortLength : Nat := 20

abbrev Union : Type := Vector Byte shortLength

namespace Union

def data (union : Union) : Option Pointer :=
  match union[0] with
  | .pointer target 0 =>
      if union[1] = .pointer target 1 ∧ union[2] = .pointer target 2 ∧
          union[3] = .pointer target 3 then
        some target
      else none
  | _ => none

def cap (union : Union) : Option Nat :=
  match union[4], union[5], union[6], union[7] with
  | .char c0, .char c1, .char c2, .char c3 =>
      some (c0.toNat + 2 ^ 8 * c1.toNat + 2 ^ 16 * c2.toNat +
        2 ^ 24 * c3.toNat)
  | _, _, _, _ => none

def setData (union : Union) (target : Pointer) : Union :=
  ((((union.set 0 (.pointer target 0)).set 1 (.pointer target 1)).set 2
    (.pointer target 2)).set 3 (.pointer target 3))

def setCap (union : Union) (n : Nat) : Union :=
  ((((union.set 4 (.char (UInt8.ofNat n))).set 5
    (.char (UInt8.ofNat (n / 2 ^ 8)))).set 6
      (.char (UInt8.ofNat (n / 2 ^ 16)))).set 7
        (.char (UInt8.ofNat (n / 2 ^ 24))))

end Union

/-- `*(pointer + i)` -/
def loadBlock (pointer : Pointer) (i : Nat) : Code Byte := do
  let block ← orFault (.stopped .useAfterFree) ((← get).lookup pointer)
  orFault .outsideBuffer block[i]?

/-- `*(pointer + i) = c` -/
def storeBlock (pointer : Pointer) (i : Nat) (c : UInt8) : Code Unit := do
  let block ← orFault (.stopped .useAfterFree) ((← get).lookup pointer)
  if i < block.length then
    modify fun heap => heap.insert pointer (block.set i (.char c))
  else throw .outsideBuffer

end Storage

structure Object where
  union : Union
  useHeap : Bool
  len : Nat
  saveIndex : Nat
deriving DecidableEq

namespace Object

def data (str : Object) : Code Pointer :=
  orFault .indeterminate str.union.data

def cap (str : Object) : Code Nat :=
  orFault .indeterminate str.union.cap

def setData (str : Object) (target : Pointer) : Object :=
  { str with union := str.union.setData target }

def setCap (str : Object) (n : Nat) : Object :=
  { str with union := str.union.setCap n }

/-- `used_data[i]` -/
def load (str : Object) (i : Nat) : Code UInt8 := do
  let byte ←
    if str.useHeap then do loadBlock (← str.data) i
    else orFault .outsideBuffer str.union[i]?
  match byte with
  | .char c => pure c
  | _ => throw .indeterminate

/-- `used_data[i] = c`, which has to stay within the capacity. -/
def store (str : Object) (i : Nat) (c : UInt8) : Code Object := do
  if str.useHeap then
    if i < (← str.cap) then
      storeBlock (← str.data) i c
      pure str
    else throw .outsideBuffer
  else if h : i < shortLength then
    pure { str with union := str.union.set i (.char c) }
  else throw .outsideBuffer

/-- `String::String()` -/
def empty : Object where
  union := Vector.replicate shortLength .indeterminate
  useHeap := false
  len := 0
  saveIndex := 0

def capacity (str : Object) : Code Nat :=
  if str.useHeap then str.cap else pure shortLength

def clear (str : Object) : Object :=
  { str with
    len := 0
    saveIndex := 0 }

/-- `at` of a constant object -/
def constAt (str : Object) (i : Int) : Code UInt8 := do
  require (i ≥ 0) "i >= 0"
  let index := i.toNat
  require (index ≤ str.len) "index <= length()"
  require (index ≠ str.len) "!\"TODO\""
  str.load index

/-- The loop of `copy`, with `count` characters to go. -/
def copyFrom (str : Object) (s : Pointer) (pos : Nat) : Nat → Nat → Code Unit
  | 0, _ => pure ()
  | count + 1, i => do
      let c ← str.constAt (toInt (pos + i))
      storeBlock s i c
      str.copyFrom s pos count (i + 1)

def copy (str : Object) (s : Pointer) (len pos : Nat) : Code Nat := do
  if pos ≥ str.len then
    return 0
  let count := min len (str.len - pos)
  str.copyFrom s pos count 0
  return count

section Methods

variable (allocator : Allocator Pointer Byte)

def malloc (size : Nat) : Code (Option Pointer) :=
  fun heap => .ok (allocator.malloc heap size)

def realloc (ptr : Pointer) (size : Nat) : Code (Option Pointer) :=
  fun heap => .ok (allocator.realloc heap ptr size)

def free (ptr : Pointer) : Code Unit :=
  fun heap => .ok ((), allocator.free heap ptr)

def destroy (str : Object) : Code Unit := do
  if str.useHeap then
    free allocator (← str.data)

/-- The switch from the inline bytes to a block in `reserve`. -/
def switchToHeap (str : Object) : Code Object := do
  let new_cap := 2 * shortLength
  match ← malloc allocator new_cap with
  | none => throw (.stopped (.assertionFailed "tmp"))
  | some tmp =>
      let _ ← str.copy tmp new_cap 0
      return { (str.setData tmp).setCap new_cap with useHeap := true }

/-- The loop of `reserve`.  A capacity that is doubled 32 times has become 0
for ever. -/
def grow (n : Nat) : Nat → Object → Code Object
  | 0, _ => throw (.stopped .endlessLoop)
  | fuel + 1, str => do
      if (← str.cap) < n then
        let str := str.setCap (mul32 (← str.cap) 2)
        match ← realloc allocator (← str.data) (← str.cap) with
        | none => throw (.stopped (.assertionFailed "data"))
        | some data => grow n fuel (str.setData data)
      else return str

def reserve (str : Object) (n : Nat) : Code Object := do
  if n ≤ (← str.capacity) then
    return str
  let str ← if str.useHeap then pure str else switchToHeap allocator str
  grow allocator n 33 str

def _appendNullbyte (str : Object) : Code Object := do
  let str ← reserve allocator str (add32 str.len 1)
  str.store str.len 0

/-- `String::at`, which gives a reference to `used_data[index]`. -/
def refAt (str : Object) (i : Int) : Code (Object × Nat) := do
  require (i ≥ 0) "i >= 0"
  let index := i.toNat
  require (index ≤ str.len) "index <= length()"
  let str ← if index = str.len then _appendNullbyte allocator str else pure str
  return (str, index)

/-- `operator const char*`, with the characters that are at the pointer up to
the terminator. -/
def toChars (str : Object) : Code (Object × Text) := do
  let str ← _appendNullbyte allocator str
  let text ← (List.range (str.len + 1)).mapM str.load
  return (str, text)

def _append (str : Object) (c : UInt8) : Code Object := do
  let len := str.len
  let (str, index) ←
    refAt allocator { str with len := add32 len 1 } (toInt len)
  str.store index c

def appendChar (str : Object) (c : UInt8) : Code Object := do
  let str ← reserve allocator str (add32 str.len 1)
  _append allocator str c

/-- The loop of `append`, with `count` characters of `source` to go. -/
def appendFrom (source : Object) : Nat → Nat → Object → Code Object
  | 0, _, str => pure str
  | count + 1, i, str => do
      let str ← _append allocator str (← source.constAt (toInt i))
      appendFrom source count (i + 1) str

def append (str source : Object) : Code Object := do
  let str ← reserve allocator str (add32 str.len source.len)
  appendFrom allocator source source.len 0 str

/-- The loop of `resize`. -/
def fill (c : UInt8) : Nat → Object → Code Object
  | 0, str => pure str
  | count + 1, str => do
      let str ← appendChar allocator str c
      fill c count str

def resize (str : Object) (n : Nat) (c : UInt8) : Code Object := do
  if n ≤ str.len then
    return { str with len := n }
  let str ← reserve allocator str n
  fill allocator c (n - str.len) str

/-- The loop of `String::String(char *s)`. -/
def appendChars : Text → Object → Code Object
  | [], str => pure str
  | c :: s, str => do
      if c ≠ 0 then
        let str ← appendChar allocator str c
        appendChars s str
      else return str

/-- `String::String(char *s)`, where the terminator ends the list at the
latest. -/
def ofChars (s : Text) : Code Object :=
  appendChars allocator s empty

/-- `String::String(const String& str)` -/
def ofString (source : Object) : Code Object :=
  append allocator empty source

/-- `operator =` from another object. -/
def assign (str source : Object) : Code Object := do
  let str ← append allocator str.clear source
  return { str with saveIndex := 0 }

/-- The loop of `substr`. -/
def substrFrom (str : Object) : Nat → Nat → Object → Code Object
  | 0, _, new_str => pure new_str
  | count + 1, i, new_str => do
      let new_str ← appendChar allocator new_str (← str.constAt (toInt i))
      substrFrom str count (i + 1) new_str

/-- `substr`, whose result is built in the place of the caller's object. -/
def substr (str : Object) (pos len : Nat) : Code Object := do
  if pos = 0 ∧ len ≥ str.len then
    return ← ofString allocator str
  if pos ≥ str.len then
    return empty
  let limit :=
    if add32 pos len < pos then str.len else min (add32 pos len) str.len
  substrFrom allocator str (limit - pos) pos empty

def insertChar (str : Object) (pos : Nat) (c : UInt8) : Code Object := do
  if pos > str.len then
    return str
  let end_ ← substr allocator str pos npos
  let str ← resize allocator str pos 32
  let str ← appendChar allocator str c
  let str ← append allocator str end_
  destroy allocator end_
  return str

def insert (str : Object) (pos : Nat) (source : Object) : Code Object := do
  if pos > str.len then
    return str
  let end_ ← substr allocator str pos npos
  let str ← resize allocator str pos 32
  let str ← append allocator str source
  let str ← append allocator str end_
  destroy allocator end_
  return str

def erase (str : Object) (pos len : Nat) : Code Object := do
  if pos ≥ str.len then
    return str
  if len = npos then
    let rest ← substr allocator str 0 pos
    let str ← assign allocator str rest
    destroy allocator rest
    return str
  if add32 pos len < pos then
    return str
  let new_str ← substr allocator str 0 pos
  let rest ← substr allocator str (add32 pos len) npos
  let new_str ← append allocator new_str rest
  destroy allocator rest
  let str ← assign allocator str new_str
  destroy allocator new_str
  return str

def pushBack (str : Object) (c : UInt8) : Code Object :=
  appendChar allocator str c

def popBack (str : Object) : Code Object := do
  if str.len > 0 then
    resize allocator str (str.len - 1) 32
  else return str

end Methods

end Object

end X86Os32.Strings
