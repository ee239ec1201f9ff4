import X86Os32.Debug.GDBPacket
import X86Os32.Library.Folds

namespace X86Os32.GDB

open Library Library.Results Library.Program
open OStream (Text)

/-! The commands of the debugger: `GDB_Stub::handle` of `debug/gdb/protocol.cc`
with the methods that read and change the system. -/

/-! ### The system -/

/-- The bytes of a word in memory, the lowest first. -/
def wordBytes (w : UInt32) : Text :=
  [UInt8.ofNat w.toNat, UInt8.ofNat (w.toNat / 2 ^ 8),
    UInt8.ofNat (w.toNat / 2 ^ 16), UInt8.ofNat (w.toNat / 2 ^ 24)]

def bytesWord (data : Text) : UInt32 :=
  UInt32.ofNat ((data.getD 0 0).toNat + 2 ^ 8 * (data.getD 1 0).toNat +
    2 ^ 16 * (data.getD 2 0).toNat + 2 ^ 24 * (data.getD 3 0).toNat)

/-- `state.registers` as bytes. -/
def registerBytes (registers : Registers) : Text :=
  (List.finRange numRegisters).flatMap fun r => wordBytes (registers r)

def setRegisters (data : Text) : Registers := fun r =>
  bytesWord (data.drop (4 * r.val))

def setRegister (registers : Registers) (addr : Nat) (data : Text) : Registers :=
  fun r => if r.val = addr then bytesWord data else registers r

def regPS : Nat := 9

/-- `1 << 8`, the flag for single steps. -/
def trapFlag : UInt32 := 0x100

def sysContinue (registers : Registers) : Registers := fun r =>
  if r.val = regPS then registers r &&& ~~~trapFlag else registers r

def sysStep (registers : Registers) : Registers := fun r =>
  if r.val = regPS then registers r ||| trapFlag else registers r

def load (memory : Memory) : UInt32 → Nat → Text
  | _, 0 => []
  | addr, len + 1 => memory addr :: load memory (addr + 1) len

def store : Memory → UInt32 → Text → Memory
  | memory, _, [] => memory
  | memory, addr, c :: rest =>
      store (fun a => if a = addr then c else memory a) (addr + 1) rest

/-- `mem_read`: what is written to the buffer, or `none` for -1. -/
def memRead (memory : Memory) (bufLen : Nat) (addr : UInt32) (len : Nat)
    (hex : Bool) : Except Stop (Option Text) :=
  if len > 64 then return none
  else
    let data := load memory addr len
    if hex then return encHex bufLen data
    else do
      let text ← encBin bufLen 0 data
      return some text

/-- `mem_write`, which returns 0 (`true`) or -1.  Where fewer bytes are decoded
than the length says, the rest of the array is written as it is. -/
def memWrite (buf : Text) (addr : UInt32) (len : Nat) (hex : Bool) : Act Bool :=
  if len > 64 then return false
  else do
    let data ← (if hex then decHex buf len else some <$> decBin len 0 buf :
      Except Stop (Option Text))
    let stub ← get
    let leftover := stub.leftovers 0
    modify fun stub => { stub with leftovers := fun n => stub.leftovers (n + 1) }
    match data with
    | none => return false
    | some data => do
        let data := (List.range len).map fun pos => data.getD pos (leftover pos)
        modify fun stub => { stub with memory := store stub.memory addr data }
        return true

theorem bytesWord_wordBytes (w : UInt32) (rest : Text) :
    bytesWord (wordBytes w ++ rest) = w := by
  apply UInt32.toNat_inj.mp
  have hlt := w.toNat_lt
  simp only [bytesWord, wordBytes, List.cons_append, List.getD_cons_zero,
    List.getD_cons_succ, UInt8.toNat_ofNat', UInt32.toNat_ofNat']
  omega

theorem length_registerBytes (registers : Registers) :
    (registerBytes registers).length = 4 * numRegisters := by
  simp [registerBytes, wordBytes, numRegisters]

theorem setRegister_wordBytes (registers : Registers) (n : Nat) (value : UInt32) :
    setRegister registers n (wordBytes value) =
      fun r => if r.val = n then value else registers r := by
  have hword := bytesWord_wordBytes value []
  rw [List.append_nil] at hword
  unfold setRegister
  rw [hword]

theorem setRegisters_registerBytes (registers : Registers) :
    setRegisters (registerBytes registers) = registers := by
  funext r
  have hlength (r : Fin numRegisters) : (wordBytes (registers r)).length = 4 := rfl
  have hpieces := Folds.drop_flatMap hlength (List.finRange numRegisters) r.val
  have hrest : (List.finRange numRegisters).drop r.val =
      r :: (List.finRange numRegisters).drop (r.val + 1) := by
    rw [List.drop_eq_getElem_cons (by simp [r.isLt])]
    simp
  unfold setRegisters registerBytes
  rw [hpieces, hrest, List.flatMap_cons, bytesWord_wordBytes]

/-! Addresses wrap around. -/

theorem sub_toNat_of_ne {a addr : UInt32} (hne : a ≠ addr) :
    (a - addr).toNat = (a - (addr + 1)).toNat + 1 := by
  have hsub := UInt32.toNat_sub a addr
  have hsub' := UInt32.toNat_sub a (addr + 1)
  have hadd := UInt32.toNat_add addr 1
  have hne' : a.toNat ≠ addr.toNat := fun heq => hne (UInt32.toNat_inj.mp heq)
  have hlt := a.toNat_lt
  have hlt' := addr.toNat_lt
  have hone : (1 : UInt32).toNat = 1 := rfl
  rw [hsub, hsub', hadd]
  omega

theorem sub_succ_toNat (a : UInt32) : (a - (a + 1)).toNat = 2 ^ 32 - 1 := by
  have hsub := UInt32.toNat_sub a (a + 1)
  have hadd := UInt32.toNat_add a 1
  have hlt := a.toNat_lt
  have hone : (1 : UInt32).toNat = 1 := rfl
  rw [hsub, hadd]
  omega

theorem store_apply {memory : Memory} {addr : UInt32} {data : Text}
    (hlength : data.length < 2 ^ 32) (a : UInt32) :
    store memory addr data a = data[(a - addr).toNat]?.getD (memory a) := by
  induction data generalizing memory addr with
  | nil => rfl
  | cons c rest ih =>
      rw [List.length_cons] at hlength
      rw [store, ih (by omega)]
      by_cases hfirst : a = addr
      · have hlast : rest[(a - (addr + 1)).toNat]? = none := by
          rw [hfirst, sub_succ_toNat]
          exact List.getElem?_eq_none (by omega)
        rw [hlast, if_pos hfirst, hfirst, UInt32.sub_self]
        rfl
      · rw [sub_toNat_of_ne hfirst, if_neg hfirst, List.getElem?_cons_succ]

theorem load_eq (memory : Memory) (addr : UInt32) (len : Nat) :
    load memory addr len =
      (List.range len).map fun i => memory (addr + UInt32.ofNat i) := by
  induction len generalizing addr with
  | zero => rfl
  | succ len ih =>
      have hnext (i : Nat) : addr + 1 + UInt32.ofNat i =
          addr + UInt32.ofNat (i + 1) := by
        rw [UInt32.ofNat_add, UInt32.add_assoc, UInt32.add_comm 1]
        rfl
      rw [load, ih, List.range_succ_eq_map, List.map_cons, List.map_map]
      simp only [hnext]
      rw [show UInt32.ofNat 0 = 0 from rfl, UInt32.add_zero]
      rfl

/-! ### Answers -/

def sendBuffer (text : Text) : Act Int := do
  modify fun stub => { stub with pktBuf := stub.pktBuf.storeAll 0 text }
  sendPacket text

def sendOkPacket : Act Int := sendPacket ['O'.toUInt8, 'K'.toUInt8]

/-- `send_signal_packet` and `send_error_packet`: a letter and a number. -/
def sendCodePacket (letter : Char) (bufLen : Nat) (code : UInt8) : Act Int :=
  if bufLen < 4 then return -1
  else
    match encHex (bufLen - 1) [code] with
    | none => return -1
    | some text => sendBuffer (letter.toUInt8 :: text)

def sendSignalPacket : Nat → UInt8 → Act Int := sendCodePacket 'S'

def sendErrorPacket : Nat → UInt8 → Act Int := sendCodePacket 'E'

/-! ### Arguments -/

/-- `sizeof(pkt_buf)` -/
def pktBufLen : Nat := 256

/-- `token_remaining_buf`, a `size_t`. -/
def tokenRemainingBuf (pktLen ptrNext : Nat) : Nat :=
  (2 ^ 32 + pktLen - ptrNext) % 2 ^ 32

def remaining (stub : Stub) (pktLen ptrNext : Nat) : Text :=
  stub.pktBuf.slice ptrNext (tokenRemainingBuf pktLen ptrNext)

/-- `token_expect_seperator`: the position behind it. -/
def tokenExpectSeperator (stub : Stub) (ptrNext : Nat) (c : Char) : Option Nat :=
  if stub.pktBuf ptrNext ≠ c.toUInt8 then none else some (ptrNext + 1)

/-- `token_expect_integer_arg`: the number, and the position behind it. -/
def tokenExpectIntegerArg (stub : Stub) (pktLen ptrNext : Nat) :
    Option (UInt32 × Nat) :=
  let (arg, endptr) := strtol (remaining stub pktLen ptrNext) 16
  endptr.map fun n => (arg, ptrNext + n)

/-- `addr,length`, as three of the commands have it. -/
def tokenExpectRange (stub : Stub) (pktLen : Nat) :
    Option (UInt32 × Nat × Nat) := do
  let (addr, ptrNext) ← tokenExpectIntegerArg stub pktLen 1
  let ptrNext ← tokenExpectSeperator stub ptrNext ','
  let (length, ptrNext) ← tokenExpectIntegerArg stub pktLen ptrNext
  return (addr, length.toNat, ptrNext)

/-! ### Commands -/

inductive Next
  /-- The next packet is awaited. -/
  | again
  /-- `goto error` -/
  | error
  /-- `return` -/
  | leave
deriving DecidableEq, Repr

def answered (send : Act Int) : Act Next := do
  let _ ← send
  return .again

/-- `case 'g'` -/
def readRegisters : Act Next := do
  let stub ← get
  match encHex pktBufLen (registerBytes stub.registers) with
  | none => return .error
  | some text => answered (sendBuffer text)

/-- `case 'G'` -/
def writeRegisters (pktLen : Nat) : Act Next := do
  let stub ← get
  let data ← (decHex (remaining stub pktLen 1) (4 * numRegisters) :
    Except Stop (Option Text))
  match data with
  | none => return .error
  | some data => do
      modify fun stub => { stub with registers := setRegisters data }
      answered sendOkPacket

/-- `case 'p'` -/
def readRegister (pktLen : Nat) : Act Next := do
  let stub ← get
  match tokenExpectIntegerArg stub pktLen 1 with
  | none => return .error
  | some (addr, _) =>
      if h : addr.toNat < numRegisters then
        match encHex pktBufLen (wordBytes (stub.registers ⟨addr.toNat, h⟩)) with
        | none => return .error
        | some text => answered (sendBuffer text)
      else return .error

/-- `case 'P'` -/
def writeRegister (pktLen : Nat) : Act Next := do
  let stub ← get
  match tokenExpectIntegerArg stub pktLen 1 with
  | none => return .error
  | some (addr, ptrNext) =>
      match tokenExpectSeperator stub ptrNext '=' with
      | none => return .error
      | some ptrNext =>
          if addr.toNat ≥ numRegisters then return .error
          else do
            let data ← (decHex (remaining stub pktLen ptrNext) 4 :
              Except Stop (Option Text))
            match data with
            | none => return .error
            | some data => do
                modify fun stub => { stub with
                  registers := setRegister stub.registers addr.toNat data }
                answered sendOkPacket

/-- `case 'm'` -/
def readMemory (pktLen : Nat) : Act Next := do
  let stub ← get
  match tokenExpectRange stub pktLen with
  | none => return .error
  | some (addr, length, _) => do
      let text ← memRead stub.memory pktBufLen addr length true
      match text with
      | none => return .error
      | some text => answered (sendBuffer text)

/-- `case 'M'`, and `case 'X'` with the data in the binary format. -/
def writeMemory (pktLen : Nat) (hex : Bool) : Act Next := do
  let stub ← get
  match tokenExpectRange stub pktLen with
  | none => return .error
  | some (addr, length, ptrNext) =>
      match tokenExpectSeperator stub ptrNext ':' with
      | none => return .error
      | some ptrNext => do
          let done ← memWrite (remaining stub pktLen ptrNext) addr length hex
          if !done then return .error else answered sendOkPacket

def obey (pktLen : Nat) (command : UInt8) : Act Next :=
  if command = 'g'.toUInt8 then readRegisters
  else if command = 'G'.toUInt8 then writeRegisters pktLen
  else if command = 'p'.toUInt8 then readRegister pktLen
  else if command = 'P'.toUInt8 then writeRegister pktLen
  else if command = 'm'.toUInt8 then readMemory pktLen
  else if command = 'M'.toUInt8 then writeMemory pktLen true
  else if command = 'X'.toUInt8 then writeMemory pktLen false
  else if command = 'c'.toUInt8 then do
    modify fun stub => { stub with registers := sysContinue stub.registers }
    return .leave
  else if command = 's'.toUInt8 then do
    modify fun stub => { stub with registers := sysStep stub.registers }
    return .leave
  else if command = '?'.toUInt8 then answered (sendSignalPacket pktBufLen 0)
  else answered (sendPacket [])

/-- What becomes of a packet with the letter of a command: whether the loop of
`handle` goes on. -/
def attend (pktLen : Nat) (command : UInt8) : Act Bool := do
  let next ← obey pktLen command
  match next with
  | .again => return true
  | .leave => return false
  | .error => do
      let _ ← sendErrorPacket pktBufLen 0
      return true

def serve : Act Bool := do
  let pktLen ← recvPacket pktBufLen
  match pktLen with
  | none => return false
  | some 0 => return true
  | some pktLen => do
      let stub ← get
      attend pktLen (stub.pktBuf 0)

def serveAll : Nat → Act Unit
  | 0 => fun _ => .error .endlessLoop
  | fuel + 1 => do
      let again ← serve
      if again then serveAll fuel else return ()

/-- `GDB_Stub::handle`.  Every round takes a byte from the line. -/
def handle : Act Unit := do
  let _ ← sendSignalPacket pktBufLen 0
  let stub ← get
  serveAll (stub.input.length + 1)

end X86Os32.GDB
