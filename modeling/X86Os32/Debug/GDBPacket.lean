import X86Os32.Debug.GDBCoding
import X86Os32.Library.ByteMemory
import X86Os32.Library.Programs

namespace X86Os32.GDB

open Library Library.Results Library.Program
open OStream (Text)

/-! Packets of the debugger on the serial line: `debug/gdb/protocol.cc` on top
of `machine/serial.cc`. -/

def numRegisters : Nat := 16

abbrev Registers := Fin numRegisters → UInt32

abbrev Memory := UInt32 → UInt8

structure Stub where
  registers : Registers
  memory : Memory
  input : Text
  output : Text
  /-- `pkt_buf` and what lies behind it. -/
  pktBuf : Mem
  /-- What the array `data` of `mem_write` holds before it is filled, for each of
  the calls to come. -/
  leftovers : Nat → Nat → UInt8

abbrev Act := Program Stub Stop

/-- The error code -1.  `read` and `write` return a `char` as an `int`, so that
the byte 255 looks the same. -/
def failure : UInt8 := 0xff

/-- `Serial::read`, which waits for a byte. -/
def read : Act UInt8 := fun stub =>
  match stub.input with
  | [] => .error .endlessLoop
  | c :: rest => .ok (c, { stub with input := rest })

def write (out : UInt8) : Act UInt8 := fun stub =>
  .ok (out, { stub with output := stub.output ++ [out] })

/-- `writeString`, which returns 0 (`true`) or -1. -/
def writeString : Text → Act Bool
  | [] => return true
  | c :: rest => do
      let sent ← write c
      if sent = failure then return false else writeString rest

def readChars : Nat → Act (Option Text)
  | 0 => return some []
  | len + 1 => do
      let c ← read
      if c = failure then return none
      else do
        let text ← readChars len
        return text.map (c :: ·)

/-- `readString`: the characters, or `none` for -1. -/
def readString (bufLen len : Nat) : Act (Option Text) :=
  if bufLen < len then return none else readChars len

def recvAck : Act Int := do
  let response ← read
  if response = '+'.toUInt8 then return 0
  else if response = '-'.toUInt8 then return 1
  else return -1

def checksum (buf : Text) : UInt8 := buf.foldl (· + ·) 0

def sendPacket (pktData : Text) : Act Int := do
  let sent ← write '$'.toUInt8
  if sent = failure then return -1
  else do
    let done ← writeString pktData
    if !done then return -1
    else
      match encHex 2 [checksum pktData] with
      | none => return -1
      | some csum => do
          let done ← writeString ('#'.toUInt8 :: csum)
          if !done then return -1 else recvAck

/-- `while ((data = read()) != '$');` on the bytes that arrive. -/
def skipToStart : Text → Option Text
  | [] => none
  | c :: rest => if c = '$'.toUInt8 then some rest else skipToStart rest

def awaitStart : Act Unit := fun stub =>
  match skipToStart stub.input with
  | none => .error .endlessLoop
  | some rest => .ok ((), { stub with input := rest })

/-- The loop that stores the bytes up to the `#`: the length of the packet, or
`none` for -1, what is left of the bytes that arrive, and the buffer. -/
def storeChars (pktBufLen : Nat) :
    Text → Nat → Mem → Except Stop (Option Nat × Text × Mem)
  | [], _, _ => .error .endlessLoop
  | data :: rest, pktLen, pktBuf =>
      if data = failure then .ok (none, rest, pktBuf)
      else if data = '#'.toUInt8 then .ok (some pktLen, rest, pktBuf)
      else if pktLen ≥ pktBufLen then .ok (none, rest, pktBuf)
      else storeChars pktBufLen rest (pktLen + 1) (pktBuf.store8 pktLen data)

def recvChars (pktBufLen : Nat) : Act (Option Nat) := fun stub =>
  match storeChars pktBufLen stub.input 0 stub.pktBuf with
  | .error stop => .error stop
  | .ok (pktLen, rest, pktBuf) =>
      .ok (pktLen, { stub with input := rest, pktBuf := pktBuf })

def recvChecksum (pktLen : Nat) : Act (Option Nat) := do
  let buf ← readString 2 2
  match buf with
  | none => return none
  | some buf => do
      let expected ← (decHex buf 1 : Except Stop (Option Text))
      match expected with
      | none => return none
      | some expected => do
          let stub ← get
          if [checksum (stub.pktBuf.slice 0 pktLen)] ≠ expected then
            let _ ← write '-'.toUInt8
            return none
          else
            let _ ← write '+'.toUInt8
            return some pktLen

/-- `recv_packet`: the length of the packet in the buffer, or `none` for -1. -/
def recvPacket (pktBufLen : Nat) : Act (Option Nat) := do
  awaitStart
  let pktLen ← recvChars pktBufLen
  match pktLen with
  | none => return none
  | some pktLen => recvChecksum pktLen

/-! ### Sending -/

def frame (pktData : Text) : Text :=
  '$'.toUInt8 :: pktData ++ '#'.toUInt8 :: hexPair (checksum pktData)

def acknowledgement (response : UInt8) : Int :=
  if response = '+'.toUInt8 then 0 else if response = '-'.toUInt8 then 1 else -1

theorem recvAck_cons {stub : Stub} {response : UInt8} {rest : Text}
    (hinput : stub.input = response :: rest) :
    recvAck stub =
      .ok (acknowledgement response, { stub with input := rest }) := by
  unfold recvAck acknowledgement
  rw [bind_apply]
  simp only [read, hinput]
  split
  · rfl
  · split <;> rfl

theorem writeString_eq {text : Text} (htext : failure ∉ text) (stub : Stub) :
    writeString text stub =
      .ok (true, { stub with output := stub.output ++ text }) := by
  induction text generalizing stub with
  | nil => simp [writeString]
  | cons c rest ih =>
      have hfirst := List.ne_of_not_mem_cons htext
      have hrest := List.not_mem_of_not_mem_cons htext
      rw [writeString, bind_apply]
      simp only [write]
      rw [if_neg (Ne.symm hfirst), ih hrest]
      simp

theorem getDigit_ne_failure : ∀ n < 16, getDigit n ≠ failure := by
  decide

theorem failure_not_mem_hexPair (c : UInt8) : failure ∉ hexPair c := by
  have hlt := c.toNat_lt
  obtain ⟨hhigh, hlow⟩ := nibbles c
  have hfirst := getDigit_ne_failure (c.toNat / 16) (by omega)
  have hsecond := getDigit_ne_failure (c.toNat % 16) (by omega)
  simp [hexPair, hhigh, hlow, hfirst.symm, hsecond.symm]

theorem sendPacket_eq {pktData : Text} (hpkt : failure ∉ pktData)
    (stub : Stub) : sendPacket pktData stub =
      recvAck { stub with output := stub.output ++ frame pktData } := by
  have hcsum : failure ∉ '#'.toUInt8 :: hexPair (checksum pktData) :=
    List.not_mem_cons_of_ne_of_not_mem (by decide) (failure_not_mem_hexPair _)
  have henc : encHex 2 [checksum pktData] =
      some (hexPair (checksum pktData)) := by
    simp [encHex]
  have hstart : ('$'.toUInt8 = failure) = False := by decide
  unfold sendPacket
  simp [write, hstart, writeString_eq hpkt, henc, writeString_eq hcsum, frame]

/-! ### Receiving -/

theorem skipToStart_eq_some_iff {input rest : Text} :
    skipToStart input = some rest ↔
      ∃ noise, '$'.toUInt8 ∉ noise ∧ input = noise ++ '$'.toUInt8 :: rest := by
  induction input with
  | nil => simp [skipToStart]
  | cons c input ih =>
      rw [skipToStart]
      split
      · next hstart =>
          constructor
          · intro hrest
            obtain rfl := Option.some.inj hrest
            exact ⟨[], List.not_mem_nil, by rw [hstart, List.nil_append]⟩
          · rintro ⟨noise, hnoise, hinput⟩
            cases noise with
            | nil => rw [(List.cons.inj hinput).2]
            | cons c' noise =>
                obtain ⟨rfl, -⟩ := List.cons.inj hinput
                exact absurd (hstart ▸ List.mem_cons_self) hnoise
      · next hother =>
          rw [ih]
          constructor
          · rintro ⟨noise, hnoise, rfl⟩
            exact ⟨c :: noise,
              List.not_mem_cons_of_ne_of_not_mem (Ne.symm hother) hnoise, rfl⟩
          · rintro ⟨noise, hnoise, hinput⟩
            cases noise with
            | nil => exact absurd (List.cons.inj hinput).1 hother
            | cons c' noise =>
                exact ⟨noise, List.not_mem_of_not_mem_cons hnoise,
                  (List.cons.inj hinput).2⟩

/-- A byte that a packet may contain. -/
def Inside (c : UInt8) : Prop := c ≠ failure ∧ c ≠ '#'.toUInt8

theorem storeChars_payload {pktBufLen n : Nat} {payload rest : Text}
    (hpayload : ∀ c ∈ payload, Inside c) (hfits : n + payload.length ≤ pktBufLen)
    (pktBuf : Mem) :
    storeChars pktBufLen (payload ++ rest) n pktBuf =
      storeChars pktBufLen rest (n + payload.length)
        (pktBuf.storeAll n payload) := by
  induction payload generalizing n pktBuf with
  | nil => rw [List.nil_append, List.length_nil, Nat.add_zero, Mem.storeAll_nil]
  | cons c payload ih =>
      obtain ⟨hc, hpayload⟩ := List.forall_mem_cons.mp hpayload
      rw [List.length_cons] at hfits ⊢
      rw [List.cons_append, storeChars, if_neg hc.1, if_neg hc.2,
        if_neg (by omega), ih hpayload (by omega), Mem.storeAll_store8,
        Nat.add_assoc, Nat.add_comm 1]

theorem storeChars_eq_some {pktBufLen n k : Nat} {input rest : Text}
    {pktBuf pktBuf' : Mem} (hn : n ≤ pktBufLen)
    (hstore : storeChars pktBufLen input n pktBuf = .ok (some k, rest, pktBuf')) :
    ∃ payload, (∀ c ∈ payload, Inside c) ∧ n + payload.length ≤ pktBufLen ∧
      input = payload ++ '#'.toUInt8 :: rest ∧ k = n + payload.length ∧
      pktBuf' = pktBuf.storeAll n payload := by
  induction input generalizing n pktBuf with
  | nil => cases hstore
  | cons data input ih =>
      rw [storeChars] at hstore
      split at hstore
      · cases hstore
      · next hgood =>
          split at hstore
          · next hend =>
              simp only [Except.ok.injEq, Prod.mk.injEq, Option.some.injEq]
                at hstore
              obtain ⟨rfl, rfl, rfl⟩ := hstore
              refine ⟨[], fun _ hnone => ?_, hn, by rw [hend]; rfl, rfl, ?_⟩
              · cases hnone
              · rw [Mem.storeAll_nil]
          · next hinside =>
              split at hstore
              · cases hstore
              · next hroom =>
                  obtain ⟨payload, hpayload, hfits, rfl, rfl, rfl⟩ :=
                    ih (by omega) hstore
                  refine ⟨data :: payload, ?_, ?_, rfl, ?_, ?_⟩
                  · exact List.forall_mem_cons.mpr ⟨⟨hgood, hinside⟩, hpayload⟩
                  · rw [List.length_cons]
                    omega
                  · rw [List.length_cons]
                    omega
                  · exact pktBuf.storeAll_store8 n data payload

theorem readChars_eq {stub : Stub} {text rest : Text}
    (hinput : stub.input = text ++ rest) (htext : failure ∉ text) :
    readChars text.length stub =
      .ok (some text, { stub with input := rest }) := by
  induction text generalizing stub with
  | nil =>
      rw [List.nil_append] at hinput
      rw [← hinput]
      rfl
  | cons c text ih =>
      have hfirst := List.ne_of_not_mem_cons htext
      have hread : read stub = .ok (c, { stub with input := text ++ rest }) := by
        simp [read, hinput]
      rw [List.length_cons, readChars, bind_apply, hread]
      dsimp only
      rw [if_neg (Ne.symm hfirst), bind_apply,
        ih rfl (List.not_mem_of_not_mem_cons htext)]
      rfl

theorem readChars_eq_some {stub stub' : Stub} {len : Nat} {text : Text}
    (hread : readChars len stub = .ok (some text, stub')) :
    text.length = len ∧ failure ∉ text ∧ stub.input = text ++ stub'.input := by
  induction len generalizing stub text with
  | zero =>
      simp only [readChars, pure_apply, Except.ok.injEq, Prod.mk.injEq,
        Option.some.injEq] at hread
      obtain ⟨rfl, rfl⟩ := hread
      exact ⟨rfl, List.not_mem_nil, rfl⟩
  | succ len ih =>
      obtain ⟨c, middle, hfirst, hrest⟩ := Program.bind_eq_ok.mp hread
      have hinput : stub.input = c :: middle.input := by
        unfold read at hfirst
        split at hfirst
        · cases hfirst
        · next rest hcons =>
            simp only [Except.ok.injEq, Prod.mk.injEq] at hfirst
            obtain ⟨rfl, rfl⟩ := hfirst
            exact hcons
      split at hrest
      · cases hrest
      · next hgood =>
          obtain ⟨text', last, hchars, hpure⟩ := Program.bind_eq_ok.mp hrest
          simp only [pure_apply, Except.ok.injEq, Prod.mk.injEq,
            Option.map_eq_some_iff] at hpure
          obtain ⟨⟨text'', rfl, rfl⟩, rfl⟩ := hpure
          obtain ⟨hlength, hgoods, hmiddle⟩ := ih hchars
          refine ⟨by rw [List.length_cons, hlength], ?_, ?_⟩
          · exact List.not_mem_cons_of_ne_of_not_mem (Ne.symm hgood) hgoods
          · rw [hinput, hmiddle, List.cons_append]

theorem HexText.failure_not_mem {text data : Text}
    (htext : HexText text data) : failure ∉ text := by
  have hnone : getVal failure 16 = none := by decide
  induction htext with
  | nil => exact List.not_mem_nil
  | @cons high low h l text data hhigh hlow _ ih =>
      have hfirst : failure ≠ high := by
        rintro rfl
        rw [hnone] at hhigh
        cases hhigh
      have hsecond : failure ≠ low := by
        rintro rfl
        rw [hnone] at hlow
        cases hlow
      exact List.not_mem_cons_of_ne_of_not_mem hfirst
        (List.not_mem_cons_of_ne_of_not_mem hsecond ih)

theorem recvChecksum_eq {stub : Stub} {digits rest : Text} {sum : UInt8}
    (hinput : stub.input = digits ++ rest) (hsum : HexText digits [sum])
    (pktLen : Nat) :
    recvChecksum pktLen stub =
      if checksum (stub.pktBuf.slice 0 pktLen) = sum then
        .ok (some pktLen, { stub with
          input := rest, output := stub.output ++ ['+'.toUInt8] })
      else
        .ok (none, { stub with
          input := rest, output := stub.output ++ ['-'.toUInt8] }) := by
  have hdecode : decHex digits 1 = .ok (some [sum]) :=
    decHex_eq_some_iff.mpr ⟨hsum, rfl⟩
  have hread : readString 2 2 stub =
      .ok (some digits, { stub with input := rest }) := by
    have hlength : digits.length = 2 := hsum.length
    have hchars := readChars_eq hinput hsum.failure_not_mem
    rw [hlength] at hchars
    rw [readString, if_neg (Nat.lt_irrefl 2), hchars]
  unfold recvChecksum
  rw [bind_apply, hread]
  by_cases hsame : checksum (stub.pktBuf.slice 0 pktLen) = sum
  · simp [hdecode, hsame, write]
  · simp [hdecode, hsame, write]

theorem recvChecksum_eq_some {stub stub' : Stub} {pktLen k : Nat}
    (hrecv : recvChecksum pktLen stub = .ok (some k, stub')) :
    ∃ digits rest, stub.input = digits ++ rest ∧
      HexText digits [checksum (stub.pktBuf.slice 0 pktLen)] ∧
      k = pktLen ∧ stub' = { stub with
        input := rest, output := stub.output ++ ['+'.toUInt8] } := by
  obtain ⟨text, middle, hread, hnext⟩ := Program.bind_eq_ok.mp hrecv
  cases text with
  | none => cases hnext
  | some digits =>
      rw [readString, if_neg (Nat.lt_irrefl 2)] at hread
      obtain ⟨hlength, -, hinput⟩ := readChars_eq_some hread
      obtain ⟨expected, middle', hlift, hnext⟩ := Program.bind_eq_ok.mp hnext
      obtain ⟨hdecode, rfl⟩ := lift_eq_ok.mp hlift
      cases expected with
      | none => cases hnext
      | some expected =>
          obtain ⟨hsum, hone⟩ := decHex_eq_some_iff.mp hdecode
          obtain ⟨sum, rfl⟩ := List.length_eq_one_iff.mp hone
          refine ⟨digits, middle.input, hinput, ?_⟩
          rw [recvChecksum_eq hinput hsum] at hrecv
          split at hrecv
          · next hsame =>
              simp only [Except.ok.injEq, Prod.mk.injEq, Option.some.injEq]
                at hrecv
              obtain ⟨rfl, rfl⟩ := hrecv
              exact ⟨hsame ▸ hsum, rfl, rfl⟩
          · cases hrecv

/-- The stub with the payload in its buffer and an answer on the line. -/
def Stub.received (stub : Stub) (payload rest : Text) (answer : Char) : Stub :=
  { stub with
    input := rest
    output := stub.output ++ [answer.toUInt8]
    pktBuf := stub.pktBuf.storeAll 0 payload }

/-- The bytes carry the payload, behind some noise. -/
structure Carries (pktBufLen : Nat) (bytes payload : Text) : Prop where
  inside : ∀ c ∈ payload, Inside c
  fits : payload.length ≤ pktBufLen
  wire : ∃ noise digits, '$'.toUInt8 ∉ noise ∧
    HexText digits [checksum payload] ∧
    bytes = noise ++ '$'.toUInt8 :: payload ++ '#'.toUInt8 :: digits

theorem recvPacket_eq {stub : Stub} {noise payload digits rest : Text}
    {pktBufLen : Nat} {sum : UInt8}
    (hinput : stub.input = noise ++ '$'.toUInt8 :: payload ++
      '#'.toUInt8 :: digits ++ rest)
    (hnoise : '$'.toUInt8 ∉ noise) (hpayload : ∀ c ∈ payload, Inside c)
    (hfits : payload.length ≤ pktBufLen) (hsum : HexText digits [sum]) :
    recvPacket pktBufLen stub =
      if checksum payload = sum then
        .ok (some payload.length, stub.received payload rest '+')
      else .ok (none, stub.received payload rest '-') := by
  have hstart : awaitStart stub = .ok ((), { stub with
      input := payload ++ '#'.toUInt8 :: digits ++ rest }) := by
    have hskip : skipToStart stub.input =
        some (payload ++ '#'.toUInt8 :: digits ++ rest) :=
      skipToStart_eq_some_iff.mpr ⟨noise, hnoise, by simp [hinput]⟩
    unfold awaitStart
    rw [hskip]
  have hstore : storeChars pktBufLen
      (payload ++ '#'.toUInt8 :: (digits ++ rest)) 0 stub.pktBuf =
      storeChars pktBufLen ('#'.toUInt8 :: (digits ++ rest))
        (0 + payload.length) (stub.pktBuf.storeAll 0 payload) :=
    storeChars_payload hpayload (by rwa [Nat.zero_add]) stub.pktBuf
  have hmark : ('#'.toUInt8 = failure) = False := by decide
  have hchars : recvChars pktBufLen { stub with
      input := payload ++ '#'.toUInt8 :: digits ++ rest } =
      .ok (some payload.length, { stub with
        input := digits ++ rest, pktBuf := stub.pktBuf.storeAll 0 payload }) := by
    simp only [recvChars, List.append_assoc, List.cons_append]
    rw [hstore]
    simp [storeChars, hmark]
  have hslice := stub.pktBuf.slice_storeAll 0 payload
  unfold recvPacket
  rw [bind_apply, hstart]
  dsimp only
  rw [bind_apply, hchars]
  dsimp only
  rw [recvChecksum_eq rfl hsum]
  dsimp only
  rw [hslice]
  rfl

theorem recvPacket_eq_some {stub stub' : Stub} {pktBufLen k : Nat}
    (hrecv : recvPacket pktBufLen stub = .ok (some k, stub')) :
    ∃ bytes payload rest, stub.input = bytes ++ rest ∧
      Carries pktBufLen bytes payload ∧ k = payload.length ∧
      stub' = stub.received payload rest '+' := by
  obtain ⟨done, middle, hstart, hnext⟩ := Program.bind_eq_ok.mp hrecv
  obtain ⟨pktLen, middle', hchars, hnext⟩ := Program.bind_eq_ok.mp hnext
  unfold awaitStart at hstart
  split at hstart
  · cases hstart
  · next rest hskip =>
      simp only [Except.ok.injEq, Prod.mk.injEq, true_and] at hstart
      subst hstart
      obtain ⟨noise, hnoise, hinput⟩ := skipToStart_eq_some_iff.mp hskip
      cases pktLen with
      | none => cases hnext
      | some pktLen =>
          unfold recvChars at hchars
          split at hchars
          · cases hchars
          · next result hstore =>
              simp only [Except.ok.injEq, Prod.mk.injEq] at hchars
              obtain ⟨rfl, rfl⟩ := hchars
              obtain ⟨payload, hpayload, hfits, rfl, hlength, rfl⟩ :=
                storeChars_eq_some (Nat.zero_le _) hstore
              rw [Nat.zero_add] at hlength hfits
              subst hlength
              obtain ⟨digits, rest', hdigits, hsum, hk, rfl⟩ :=
                recvChecksum_eq_some hnext
              dsimp only at hdigits hsum
              rw [Mem.slice_storeAll] at hsum
              refine ⟨_, payload, rest', ?_, ⟨hpayload, hfits, noise, digits,
                hnoise, hsum, rfl⟩, hk, rfl⟩
              rw [hinput, hdigits]
              simp

theorem carries_frame {payload : Text} {pktBufLen : Nat}
    (hpayload : ∀ c ∈ payload, Inside c) (hfits : payload.length ≤ pktBufLen) :
    Carries pktBufLen (frame payload) payload := by
  have hsum := hexText_flatMap [checksum payload]
  rw [List.flatMap_singleton] at hsum
  exact ⟨hpayload, hfits, [], _, List.not_mem_nil, hsum, rfl⟩

theorem Carries.recvPacket_eq {stub : Stub} {bytes payload rest : Text}
    {pktBufLen : Nat} (hcarries : Carries pktBufLen bytes payload)
    (hinput : stub.input = bytes ++ rest) :
    recvPacket pktBufLen stub =
      .ok (some payload.length, stub.received payload rest '+') := by
  obtain ⟨noise, digits, hnoise, hsum, rfl⟩ := hcarries.wire
  rw [GDB.recvPacket_eq hinput hnoise hcarries.inside hcarries.fits hsum,
    if_pos rfl]

/-- Exactly these inputs are received as a packet. -/
theorem recvPacket_accepts_iff {stub stub' : Stub} {pktBufLen k : Nat} :
    recvPacket pktBufLen stub = .ok (some k, stub') ↔
      ∃ bytes payload rest, stub.input = bytes ++ rest ∧
        Carries pktBufLen bytes payload ∧ k = payload.length ∧
        stub' = stub.received payload rest '+' := by
  constructor
  · exact recvPacket_eq_some
  · rintro ⟨bytes, payload, rest, hinput, hcarries, rfl, rfl⟩
    exact hcarries.recvPacket_eq hinput

/-! ### From one side to the other -/

theorem foldl_add (sum : UInt8) (buf : Text) :
    buf.foldl (· + ·) sum = sum + checksum buf := by
  unfold checksum
  induction buf generalizing sum with
  | nil => simp
  | cons c buf ih =>
      rw [List.foldl_cons, ih, List.foldl_cons, ih (0 + c), UInt8.zero_add,
        UInt8.add_assoc]

theorem checksum_cons (c : UInt8) (buf : Text) :
    checksum (c :: buf) = c + checksum buf := by
  rw [checksum, List.foldl_cons, foldl_add, UInt8.zero_add]

/-- One byte that is replaced by another one changes the checksum. -/
theorem checksum_set_ne {buf : Text} {i : Nat} (hi : i < buf.length) {c : UInt8}
    (hc : c ≠ buf[i]) : checksum (buf.set i c) ≠ checksum buf := by
  induction buf generalizing i with
  | nil => cases hi
  | cons first buf ih =>
      cases i with
      | zero =>
          rw [List.set_cons_zero, checksum_cons, checksum_cons]
          exact fun hsame => hc (UInt8.add_left_inj _ |>.mp hsame)
      | succ i =>
          rw [List.set_cons_succ, checksum_cons, checksum_cons]
          have hi' := Nat.lt_of_succ_lt_succ hi
          exact fun hsame => ih hi' hc (UInt8.add_right_inj _ |>.mp hsame)

/-- A packet that the stub sends is one that it would receive, whatever comes
before and behind it.  One byte of it that is changed on the way is noticed. -/
theorem sendPacket_recvPacket {sender : Stub} {payload later : Text}
    {response : UInt8} {pktBufLen : Nat} (hpayload : ∀ c ∈ payload, Inside c)
    (hfits : payload.length ≤ pktBufLen)
    (hanswer : sender.input = response :: later) :
    ∃ wire, sendPacket payload sender = .ok (acknowledgement response,
        { sender with input := later, output := sender.output ++ wire }) ∧
      ∀ (receiver : Stub) (noise rest : Text), '$'.toUInt8 ∉ noise →
        (receiver.input = noise ++ wire ++ rest →
          recvPacket pktBufLen receiver =
            .ok (some payload.length, receiver.received payload rest '+')) ∧
        ∀ (i : Nat) (hi : i < payload.length) (c : UInt8), Inside c →
          c ≠ payload[i] → receiver.input = noise ++ wire.set (i + 1) c ++ rest →
          recvPacket pktBufLen receiver =
            .ok (none, receiver.received (payload.set i c) rest '-') := by
  have hgood : failure ∉ payload := fun hmem => (hpayload _ hmem).1 rfl
  have hsum : HexText (hexPair (checksum payload)) [checksum payload] := by
    have htext := hexText_flatMap [checksum payload]
    rwa [List.flatMap_singleton] at htext
  refine ⟨frame payload, ?_, ?_⟩
  · rw [sendPacket_eq hgood]
    exact recvAck_cons hanswer
  · intro receiver noise rest hnoise
    refine ⟨?_, ?_⟩
    · intro hinput
      have hwire : receiver.input = noise ++ '$'.toUInt8 :: payload ++
          '#'.toUInt8 :: hexPair (checksum payload) ++ rest := by
        rw [hinput, frame]
        simp
      rw [recvPacket_eq hwire hnoise hpayload hfits hsum, if_pos rfl]
    · intro i hi c hc hne hinput
      have hset : (frame payload).set (i + 1) c =
          '$'.toUInt8 :: payload.set i c ++
            '#'.toUInt8 :: hexPair (checksum payload) := by
        rw [frame, List.cons_append, List.set_cons_succ,
          List.set_append_left _ _ hi, List.cons_append]
      have hpayload' : ∀ c' ∈ payload.set i c, Inside c' := by
        intro c' hc'
        rcases List.mem_or_eq_of_mem_set hc' with hmem | rfl
        · exact hpayload c' hmem
        · exact hc
      have hwire : receiver.input = noise ++ '$'.toUInt8 :: payload.set i c ++
          '#'.toUInt8 :: hexPair (checksum payload) ++ rest := by
        rw [hinput, hset]
        simp
      have hfits' : (payload.set i c).length ≤ pktBufLen := by
        rwa [List.length_set]
      rw [recvPacket_eq hwire hnoise hpayload' hfits' hsum,
        if_neg (checksum_set_ne hi hne)]

def Stub.blank (input : Text) : Stub where
  registers := fun _ => 0
  memory := fun _ => 0
  input := input
  output := []
  pktBuf := fun _ => 0
  leftovers := fun _ _ => 0

/-- `E00`, where one of the zeros becomes a one. -/
theorem sendPacket_recvPacket_error :
    ∃ wire, sendPacket ['E'.toUInt8, '0'.toUInt8, '0'.toUInt8]
        (Stub.blank ['+'.toUInt8]) = .ok (0, { Stub.blank [] with
          output := wire }) ∧
      recvPacket 256 (Stub.blank (wire.set 2 '1'.toUInt8)) =
        .ok (none, (Stub.blank (wire.set 2 '1'.toUInt8)).received
          ['E'.toUInt8, '1'.toUInt8, '0'.toUInt8] [] '-') := by
  have hinside (c : UInt8)
      (hc : c ∈ ['E'.toUInt8, '0'.toUInt8, '0'.toUInt8]) : Inside c := by
    simp only [List.mem_cons, List.not_mem_nil, or_false] at hc
    rcases hc with rfl | rfl | rfl
    · exact ⟨by decide, by decide⟩
    · exact ⟨by decide, by decide⟩
    · exact ⟨by decide, by decide⟩
  obtain ⟨wire, hsend, hreceive⟩ :=
    @sendPacket_recvPacket (Stub.blank ['+'.toUInt8]) _ [] '+'.toUInt8 256
      hinside (by decide) rfl
  refine ⟨wire, hsend, ?_⟩
  obtain ⟨-, hchanged⟩ := hreceive (Stub.blank (wire.set 2 '1'.toUInt8)) [] []
    List.not_mem_nil
  exact hchanged 1 (by decide) '1'.toUInt8 ⟨by decide, by decide⟩ (by decide)
    (by simp [Stub.blank])

end X86Os32.GDB
