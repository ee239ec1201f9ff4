import X86Os32.Debug.GDBStub

namespace X86Os32.GDB

open Library Library.Results Library.Program
open OStream (Text)

/-! A session with the host: the stub is a debugger that reads and changes the
registers and the memory of the stopped system. -/

structure Target where
  registers : Registers
  memory : Memory

inductive Command
  | readRegisters
  | writeRegisters (values : Registers)
  | readRegister (n : UInt32)
  | writeRegister (n : UInt32) (value : UInt32)
  | readMemory (addr : UInt32) (len : Nat)
  | writeMemory (addr : UInt32) (data : Text)
  | lastSignal
  | other

inductive Answer
  | data (bytes : Text)
  | ok
  | error
  | signal
  | unsupported

namespace Target

def bytesAt (target : Target) (addr : UInt32) (len : Nat) : Text :=
  (List.range len).map fun i => target.memory (addr + UInt32.ofNat i)

def withBytes (target : Target) (addr : UInt32) (data : Text) : Target where
  registers := target.registers
  memory := fun a => data[(a - addr).toNat]?.getD (target.memory a)

def withRegister (target : Target) (n : Nat) (value : UInt32) : Target where
  registers := fun r => if r.val = n then value else target.registers r
  memory := target.memory

def perform (target : Target) : Command → Target × Answer
  | .readRegisters => (target, .data (registerBytes target.registers))
  | .writeRegisters values => ({ target with registers := values }, .ok)
  | .readRegister n =>
      if h : n.toNat < numRegisters then
        (target, .data (wordBytes (target.registers ⟨n.toNat, h⟩)))
      else (target, .error)
  | .writeRegister n value =>
      if n.toNat < numRegisters then (target.withRegister n.toNat value, .ok)
      else (target, .error)
  | .readMemory addr len =>
      if len ≤ 64 then (target, .data (target.bytesAt addr len))
      else (target, .error)
  | .writeMemory addr data =>
      if data.length ≤ 64 then (target.withBytes addr data, .ok)
      else (target, .error)
  | .lastSignal => (target, .signal)
  | .other => (target, .unsupported)

end Target

def bytes (text : String) : Text := text.toList.map Char.toUInt8

def Answer.text : Answer → Text
  | data bytes => bytes.flatMap hexPair
  | ok => bytes "OK"
  | error => bytes "E00"
  | signal => bytes "S00"
  | unsupported => []

def known : Text :=
  ['g', 'G', 'p', 'P', 'm', 'M', 'X', 'c', 's', '?'].map Char.toUInt8

/-- A payload of the host that asks for a command. -/
inductive Asks : Text → Command → Prop
  | readRegisters (ignored : Text) : Asks ('g'.toUInt8 :: ignored) .readRegisters
  | writeRegisters {text : Text} {values : Registers}
      (htext : HexText text (registerBytes values)) :
      Asks ('G'.toUInt8 :: text) (.writeRegisters values)
  | readRegister {number ignored : Text} {n : Nat} (hnumber : Numeral number n)
      (hends : Ends ignored) :
      Asks ('p'.toUInt8 :: number ++ ignored) (.readRegister (UInt32.ofNat n))
  | writeRegister {number text : Text} {n : Nat} {value : UInt32}
      (hnumber : Numeral number n) (htext : HexText text (wordBytes value)) :
      Asks ('P'.toUInt8 :: number ++ '='.toUInt8 :: text)
        (.writeRegister (UInt32.ofNat n) value)
  | readMemory {number number' ignored : Text} {n len : Nat}
      (hnumber : Numeral number n) (hlen : Numeral number' len)
      (hlt : len < 2 ^ 32) (hends : Ends ignored) :
      Asks ('m'.toUInt8 :: number ++ ','.toUInt8 :: number' ++ ignored)
        (.readMemory (UInt32.ofNat n) len)
  | writeMemory {number number' text data : Text} {n : Nat}
      (hnumber : Numeral number n) (hlen : Numeral number' data.length)
      (htext : HexText text data) :
      Asks ('M'.toUInt8 :: number ++ ','.toUInt8 :: number' ++
        ':'.toUInt8 :: text) (.writeMemory (UInt32.ofNat n) data)
  | writeBinary {number number' text data : Text} {n : Nat}
      (hnumber : Numeral number n) (hlen : Numeral number' data.length)
      (htext : BinText text data) :
      Asks ('X'.toUInt8 :: number ++ ','.toUInt8 :: number' ++
        ':'.toUInt8 :: text) (.writeMemory (UInt32.ofNat n) data)
  | lastSignal (ignored : Text) : Asks ('?'.toUInt8 :: ignored) .lastSignal
  | other {c : UInt8} (ignored : Text) (hunknown : c ∉ known) :
      Asks (c :: ignored) .other

/-- A payload of the host that lets the system go on, and the registers with
which it does. -/
inductive Resumes (registers : Registers) : Text → Registers → Prop
  | proceed (ignored : Text) :
      Resumes registers ('c'.toUInt8 :: ignored) (sysContinue registers)
  | step (ignored : Text) :
      Resumes registers ('s'.toUInt8 :: ignored) (sysStep registers)

/-- A conversation: from the stopped system, the bytes of the host and those of
the stub, up to the packet that lets the system go on. -/
inductive Talk : Target → Text → Text → Target → Prop
  | leave {target : Target} {bytes payload : Text} {registers : Registers}
      (hcarries : Carries pktBufLen bytes payload)
      (hresumes : Resumes target.registers payload registers) :
      Talk target bytes ['+'.toUInt8] { target with registers := registers }
  | empty {target final : Target} {bytes input output : Text}
      (hcarries : Carries pktBufLen bytes []) (htalk : Talk target input output final) :
      Talk target (bytes ++ input) ('+'.toUInt8 :: output) final
  | request {target final : Target} {bytes payload input output : Text}
      {command : Command} (hcarries : Carries pktBufLen bytes payload)
      (hasks : Asks payload command) (response : UInt8)
      (htalk : Talk (target.perform command).1 input output final) :
      Talk target (bytes ++ response :: input)
        ('+'.toUInt8 :: frame (target.perform command).2.text ++ output) final

/-! ### Reading the packet -/

def Holds (stub : Stub) (payload : Text) : Prop :=
  stub.pktBuf.slice 0 payload.length = payload ∧ payload.length < 2 ^ 32

theorem Holds.slice {stub : Stub} {before after : Text}
    (hholds : Holds stub (before ++ after)) :
    stub.pktBuf.slice before.length after.length = after := by
  have hall := hholds.1
  rw [List.length_append, Mem.slice_add, Nat.zero_add] at hall
  exact (List.append_inj hall (Mem.length_slice ..)).2

theorem Holds.remaining {stub : Stub} {before after : Text}
    (hholds : Holds stub (before ++ after)) :
    remaining stub (before ++ after).length before.length = after := by
  have hlt := hholds.2
  rw [List.length_append] at hlt
  have hrest : tokenRemainingBuf (before ++ after).length before.length =
      after.length := by
    rw [tokenRemainingBuf, List.length_append]
    omega
  rw [GDB.remaining, hrest, hholds.slice]

theorem Holds.seperator {stub : Stub} {before after : Text} {c : Char}
    (hholds : Holds stub (before ++ c.toUInt8 :: after)) :
    tokenExpectSeperator stub before.length c = some (before.length + 1) := by
  have hslice := hholds.slice
  rw [List.length_cons, Mem.slice] at hslice
  have hbyte : stub.pktBuf before.length = c.toUInt8 := (List.cons.inj hslice).1
  simp [tokenExpectSeperator, hbyte]

theorem Holds.integerArg {stub : Stub} {before number after : Text} {n : Nat}
    (hholds : Holds stub (before ++ (number ++ after)))
    (hnumber : Numeral number n) (hends : Ends after) :
    tokenExpectIntegerArg stub (before ++ (number ++ after)).length
      before.length = some (UInt32.ofNat n, before.length + number.length) := by
  unfold tokenExpectIntegerArg
  rw [hholds.remaining, strtol_numeral hnumber hends]
  rfl

theorem Holds.range {stub : Stub} {letter : UInt8} {number number' after : Text}
    {n len : Nat}
    (hholds : Holds stub
      ((letter :: number ++ [','.toUInt8] ++ number') ++ after))
    (hnumber : Numeral number n) (hlen : Numeral number' len)
    (hlt : len < 2 ^ 32) (hends : Ends after) :
    tokenExpectRange stub
      ((letter :: number ++ [','.toUInt8] ++ number') ++ after).length =
      some (UInt32.ofNat n, len,
        (letter :: number ++ [','.toUInt8] ++ number').length) := by
  have hcomma : Ends (','.toUInt8 :: (number' ++ after)) :=
    ends_cons _ (by decide)
  have hfirst : (letter :: number ++ [','.toUInt8] ++ number') ++ after =
      [letter] ++ (number ++ ','.toUInt8 :: (number' ++ after)) := by simp
  have hmiddle : (letter :: number ++ [','.toUInt8] ++ number') ++ after =
      (letter :: number) ++ ','.toUInt8 :: (number' ++ after) := by simp
  have hlast : (letter :: number ++ [','.toUInt8] ++ number') ++ after =
      (letter :: number ++ [','.toUInt8]) ++ (number' ++ after) := by simp
  have haddr := (hfirst ▸ hholds).integerArg hnumber hcomma
  have hseperator := (hmiddle ▸ hholds).seperator
  have hlength := (hlast ▸ hholds).integerArg hlen hends
  rw [← hfirst, List.length_singleton, Nat.add_comm] at haddr
  rw [List.length_cons] at hseperator
  have hbefore : (letter :: number ++ [','.toUInt8]).length =
      number.length + 1 + 1 := by simp
  rw [← hlast, hbefore] at hlength
  have hword : (UInt32.ofNat len).toNat = len := UInt32.toNat_ofNat_of_lt' hlt
  unfold tokenExpectRange
  rw [haddr]
  simp only [Option.bind_eq_bind, Option.bind_some, hseperator, hlength, hword,
    Option.pure_def]
  rw [List.length_append, hbefore]

/-! ### Sending the answer -/

/-- The stub has this system in its hands, and the line is in this state. -/
structure Shows (stub : Stub) (target : Target) (input output : Text) : Prop where
  registers : stub.registers = target.registers
  memory : stub.memory = target.memory
  input : stub.input = input
  output : stub.output = output

theorem sendPacket_returns {stub : Stub} {target : Target} {response : UInt8}
    {rest output text : Text} (hshows : Shows stub target (response :: rest) output)
    (htext : failure ∉ text) :
    Returns (sendPacket text) stub fun _ stub' =>
      Shows stub' target rest (output ++ frame text) := by
  have hrun : sendPacket text stub = .ok (acknowledgement response,
      { stub with input := rest, output := stub.output ++ frame text }) := by
    rw [sendPacket_eq htext]
    exact recvAck_cons hshows.input
  exact ⟨_, _, hrun, hshows.registers, hshows.memory, rfl,
    by rw [hshows.output]⟩

theorem sendBuffer_returns {stub : Stub} {target : Target} {response : UInt8}
    {rest output text : Text} (hshows : Shows stub target (response :: rest) output)
    (htext : failure ∉ text) :
    Returns (sendBuffer text) stub fun _ stub' =>
      Shows stub' target rest (output ++ frame text) := by
  have hshows' : Shows { stub with pktBuf := stub.pktBuf.storeAll 0 text } target
      (response :: rest) output :=
    ⟨hshows.registers, hshows.memory, hshows.input, hshows.output⟩
  exact Returns.step (modify_apply _ _) (sendPacket_returns hshows' htext)

theorem failure_not_mem_flatMap (data : Text) :
    failure ∉ data.flatMap hexPair :=
  (hexText_flatMap data).failure_not_mem

theorem sendCodePacket_returns {stub : Stub} {target : Target} {response : UInt8}
    {rest output : Text} (hshows : Shows stub target (response :: rest) output)
    {letter : Char} (hletter : failure ≠ letter.toUInt8) (code : UInt8) :
    Returns (sendCodePacket letter pktBufLen code) stub fun _ stub' =>
      Shows stub' target rest
        (output ++ frame (letter.toUInt8 :: hexPair code)) := by
  have henc : encHex (pktBufLen - 1) [code] = some (hexPair code) := by
    simp [encHex, pktBufLen]
  unfold sendCodePacket
  rw [if_neg (by decide), henc]
  exact sendBuffer_returns hshows
    (List.not_mem_cons_of_ne_of_not_mem hletter (failure_not_mem_hexPair code))

def Obeyed (target : Target) (answer : Answer) (response : UInt8)
    (rest output : Text) : Next → Stub → Prop
  | .again, stub => Shows stub target rest (output ++ frame answer.text)
  | .error, stub => answer = .error ∧ Shows stub target (response :: rest) output
  | .leave, _ => False

theorem answered_returns {send : Act Int} {stub : Stub} {target : Target}
    {answer : Answer} {response : UInt8} {rest output : Text}
    (hsend : Returns send stub fun _ stub' =>
      Shows stub' target rest (output ++ frame answer.text)) :
    Returns (answered send) stub
      (Obeyed target answer response rest output) :=
  hsend.bind fun _ _ hshows => Returns.pure hshows

theorem refused {stub : Stub} {target : Target} {answer : Answer}
    {response : UInt8} {rest output : Text} (hanswer : answer = .error)
    (hshows : Shows stub target (response :: rest) output) :
    Returns (pure .error : Act Next) stub
      (Obeyed target answer response rest output) :=
  Returns.pure ⟨hanswer, hshows⟩

/-! ### The commands -/

section Commands

variable {stub : Stub} {target : Target} {response : UInt8} {rest output : Text}
  {letter : UInt8}

theorem data_returns (hshows : Shows stub target (response :: rest) output)
    (bytes : Text) :
    Returns (answered (sendBuffer (bytes.flatMap hexPair))) stub
      (Obeyed target (.data bytes) response rest output) :=
  answered_returns (sendBuffer_returns hshows (failure_not_mem_flatMap bytes))

theorem ok_returns (hshows : Shows stub target (response :: rest) output) :
    Returns (answered sendOkPacket) stub
      (Obeyed target .ok response rest output) :=
  answered_returns (sendPacket_returns hshows (by decide))

theorem encHex_of_fits {bufLen : Nat} {data : Text}
    (hfits : data.length * 2 ≤ bufLen) :
    encHex bufLen data = some (data.flatMap hexPair) :=
  if_neg (Nat.not_lt.mpr hfits)

theorem readRegisters_returns
    (hshows : Shows stub target (response :: rest) output) :
    Returns readRegisters stub (Obeyed target
      (.data (registerBytes target.registers)) response rest output) := by
  refine Returns.step (get_apply stub) ?_
  rw [encHex_of_fits (by rw [length_registerBytes]; decide), hshows.registers]
  exact data_returns hshows _

theorem writeRegisters_returns {text : Text} {values : Registers}
    (hshows : Shows stub target (response :: rest) output)
    (hholds : Holds stub ([letter] ++ text))
    (htext : HexText text (registerBytes values)) :
    Returns (writeRegisters ([letter] ++ text).length) stub
      (Obeyed { target with registers := values } .ok response rest output) := by
  have hrest : remaining stub ([letter] ++ text).length 1 = text :=
    hholds.remaining
  have hdecode : decHex text (4 * numRegisters) =
      .ok (some (registerBytes values)) :=
    decHex_eq_some_iff.mpr ⟨htext, length_registerBytes values⟩
  refine Returns.step (get_apply stub) ?_
  rw [hrest, hdecode]
  refine Returns.step (lift_apply _ _) (Returns.step (modify_apply _ _) ?_)
  rw [setRegisters_registerBytes]
  exact ok_returns ⟨rfl, hshows.memory, hshows.input, hshows.output⟩

theorem readRegister_returns {number ignored : Text} {n : Nat}
    (hshows : Shows stub target (response :: rest) output)
    (hholds : Holds stub ([letter] ++ (number ++ ignored)))
    (hnumber : Numeral number n) (hends : Ends ignored) :
    Returns (readRegister ([letter] ++ (number ++ ignored)).length) stub
      (Obeyed (target.perform (.readRegister (UInt32.ofNat n))).1
        (target.perform (.readRegister (UInt32.ofNat n))).2
        response rest output) := by
  have hinteger := hholds.integerArg hnumber hends
  rw [List.length_singleton] at hinteger
  refine Returns.step (get_apply stub) ?_
  rw [hinteger]
  dsimp only [Target.perform]
  split
  · next hlt =>
      rw [encHex_of_fits (by simp [wordBytes, pktBufLen]), hshows.registers]
      exact data_returns hshows _
  · exact refused rfl hshows

theorem writeRegister_returns {number text : Text} {n : Nat} {value : UInt32}
    (hshows : Shows stub target (response :: rest) output)
    (hholds : Holds stub ([letter] ++ (number ++ '='.toUInt8 :: text)))
    (hnumber : Numeral number n) (htext : HexText text (wordBytes value)) :
    Returns (writeRegister ([letter] ++ (number ++ '='.toUInt8 :: text)).length)
      stub (Obeyed (target.perform (.writeRegister (UInt32.ofNat n) value)).1
        (target.perform (.writeRegister (UInt32.ofNat n) value)).2
        response rest output) := by
  have hinteger := hholds.integerArg hnumber (ends_cons _ (by decide))
  have hmiddle : [letter] ++ (number ++ '='.toUInt8 :: text) =
      (letter :: number) ++ '='.toUInt8 :: text := by simp
  have hlast : [letter] ++ (number ++ '='.toUInt8 :: text) =
      (letter :: number ++ ['='.toUInt8]) ++ text := by simp
  have hseperator := (hmiddle ▸ hholds).seperator
  have hrest := (hlast ▸ hholds).remaining
  have hbefore : (letter :: number ++ ['='.toUInt8]).length =
      number.length + 1 + 1 := by simp
  rw [List.length_cons] at hseperator
  rw [← hlast, hbefore] at hrest
  rw [List.length_singleton, Nat.add_comm 1] at hinteger
  have hdecode : decHex text 4 = .ok (some (wordBytes value)) :=
    decHex_eq_some_iff.mpr ⟨htext, rfl⟩
  refine Returns.step (get_apply stub) ?_
  rw [hinteger]
  dsimp only [Target.perform]
  rw [hseperator]
  dsimp only
  by_cases hlt : (UInt32.ofNat n).toNat < numRegisters
  · rw [if_neg (Nat.not_le.mpr hlt), if_pos hlt, hrest, hdecode]
    refine Returns.step (lift_apply _ _) (Returns.step (modify_apply _ _) ?_)
    rw [setRegister_wordBytes, hshows.registers]
    exact ok_returns ⟨rfl, hshows.memory, hshows.input, hshows.output⟩
  · rw [if_pos (Nat.not_lt.mp hlt), if_neg hlt]
    exact refused rfl hshows

theorem readMemory_returns {number number' ignored : Text} {n len : Nat}
    (hshows : Shows stub target (response :: rest) output)
    (hholds : Holds stub
      ((letter :: number ++ [','.toUInt8] ++ number') ++ ignored))
    (hnumber : Numeral number n) (hlen : Numeral number' len)
    (hlt : len < 2 ^ 32) (hends : Ends ignored) :
    Returns (readMemory
        ((letter :: number ++ [','.toUInt8] ++ number') ++ ignored).length) stub
      (Obeyed (target.perform (.readMemory (UInt32.ofNat n) len)).1
        (target.perform (.readMemory (UInt32.ofNat n) len)).2
        response rest output) := by
  have hrange := hholds.range hnumber hlen hlt hends
  refine Returns.step (get_apply stub) ?_
  rw [hrange]
  dsimp only [Target.perform, memRead]
  by_cases hfits : len ≤ 64
  · rw [if_neg (Nat.not_lt.mpr hfits), if_pos hfits, if_pos rfl,
      encHex_of_fits (by rw [load_eq]; simp [pktBufLen]; omega), load_eq,
      hshows.memory]
    exact Returns.step (lift_apply _ _) (data_returns hshows _)
  · rw [if_pos (Nat.lt_of_not_le hfits), if_neg hfits]
    exact Returns.step (lift_apply _ _) (refused rfl hshows)

theorem memWrite_eq {text data : Text} {hex : Bool} (addr : UInt32)
    (hdecode : (if hex then decHex text data.length
      else some <$> decBin data.length 0 text) = .ok (some data))
    (hfits : data.length ≤ 64) :
    memWrite text addr data.length hex stub = .ok (true, { stub with
      memory := store stub.memory addr data
      leftovers := fun n => stub.leftovers (n + 1) }) := by
  have hall (leftover : Nat → UInt8) : (List.range data.length).map
      (fun pos => data[pos]?.getD (leftover pos)) = data := by
    apply List.ext_getElem
    · simp
    · intro i hi hi'
      simp [hi']
  unfold memWrite
  rw [if_neg (Nat.not_lt.mpr hfits), hdecode]
  simp [hall]

theorem writeMemory_returns {number number' text data : Text} {n : Nat}
    {hex : Bool} (hshows : Shows stub target (response :: rest) output)
    (hholds : Holds stub ((letter :: number ++ [','.toUInt8] ++ number') ++
      ':'.toUInt8 :: text))
    (hnumber : Numeral number n) (hlen : Numeral number' data.length)
    (hdecode : (if hex then decHex text data.length
      else some <$> decBin data.length 0 text) = .ok (some data))
    (hlt : data.length < 2 ^ 32) :
    Returns (writeMemory ((letter :: number ++ [','.toUInt8] ++ number') ++
        ':'.toUInt8 :: text).length hex) stub
      (Obeyed (target.perform (.writeMemory (UInt32.ofNat n) data)).1
        (target.perform (.writeMemory (UInt32.ofNat n) data)).2
        response rest output) := by
  have hrange := hholds.range hnumber hlen hlt (ends_cons _ (by decide))
  have hseperator := hholds.seperator
  have hlast : (letter :: number ++ [','.toUInt8] ++ number') ++
      ':'.toUInt8 :: text = (letter :: number ++ [','.toUInt8] ++ number' ++
        [':'.toUInt8]) ++ text := by simp
  have hbefore : (letter :: number ++ [','.toUInt8] ++ number' ++
      [':'.toUInt8]).length =
      (letter :: number ++ [','.toUInt8] ++ number').length + 1 :=
    List.length_append
  have hrest := (hlast ▸ hholds).remaining
  rw [← hlast, hbefore] at hrest
  refine Returns.step (get_apply stub) ?_
  rw [hrange]
  dsimp only [Target.perform]
  rw [hseperator]
  dsimp only
  rw [hrest]
  by_cases hfits : data.length ≤ 64
  · rw [if_pos hfits]
    refine Returns.step (memWrite_eq _ hdecode hfits) ?_
    have hstore : store stub.memory (UInt32.ofNat n) data =
        (target.withBytes (UInt32.ofNat n) data).memory := by
      funext a
      rw [store_apply hlt, hshows.memory]
      rfl
    exact ok_returns ⟨hshows.registers, hstore, hshows.input, hshows.output⟩
  · have hrefused : memWrite text (UInt32.ofNat n) data.length hex stub =
        .ok (false, stub) := by
      rw [memWrite, if_pos (Nat.lt_of_not_le hfits)]
      rfl
    rw [if_neg hfits]
    exact Returns.step hrefused (refused rfl hshows)

theorem Holds.pktBuf_zero {payload : Text}
    (hholds : Holds stub (letter :: payload)) : stub.pktBuf 0 = letter := by
  have hslice := hholds.1
  rw [List.length_cons, Mem.slice] at hslice
  exact (List.cons.inj hslice).1

theorem obey_returns {payload : Text} {command : Command}
    (hshows : Shows stub target (response :: rest) output)
    (hholds : Holds stub payload) (hasks : Asks payload command) :
    Returns (obey payload.length (stub.pktBuf 0)) stub
      (Obeyed (target.perform command).1 (target.perform command).2
        response rest output) := by
  cases hasks with
  | readRegisters ignored =>
      rw [hholds.pktBuf_zero]
      exact readRegisters_returns hshows
  | writeRegisters htext =>
      rw [hholds.pktBuf_zero]
      exact writeRegisters_returns hshows hholds htext
  | readRegister hnumber hends =>
      rw [hholds.pktBuf_zero]
      exact readRegister_returns hshows hholds hnumber hends
  | writeRegister hnumber htext =>
      rw [hholds.pktBuf_zero]
      exact writeRegister_returns hshows hholds hnumber htext
  | @readMemory number number' ignored n len hnumber hlen hlt hends =>
      rw [hholds.pktBuf_zero]
      have hpayload : 'm'.toUInt8 :: number ++ ','.toUInt8 :: number' ++ ignored =
          ('m'.toUInt8 :: number ++ [','.toUInt8] ++ number') ++ ignored := by simp
      rw [hpayload] at hholds ⊢
      exact readMemory_returns hshows hholds hnumber hlen hlt hends
  | @writeMemory number number' text data n hnumber hlen htext =>
      rw [hholds.pktBuf_zero]
      have hpayload : 'M'.toUInt8 :: number ++ ','.toUInt8 :: number' ++
          ':'.toUInt8 :: text = ('M'.toUInt8 :: number ++ [','.toUInt8] ++
            number') ++ ':'.toUInt8 :: text := by simp
      have hlt : data.length < 2 ^ 32 := by
        have hlength := htext.length
        have hfits := hholds.2
        simp only [List.length_append, List.length_cons] at hfits
        omega
      rw [hpayload] at hholds ⊢
      refine writeMemory_returns hshows hholds hnumber hlen ?_ hlt
      rw [if_pos rfl]
      exact decHex_eq_some_iff.mpr ⟨htext, rfl⟩
  | @writeBinary number number' text data n hnumber hlen htext =>
      rw [hholds.pktBuf_zero]
      have hpayload : 'X'.toUInt8 :: number ++ ','.toUInt8 :: number' ++
          ':'.toUInt8 :: text = ('X'.toUInt8 :: number ++ [','.toUInt8] ++
            number') ++ ':'.toUInt8 :: text := by simp
      have hlt : data.length < 2 ^ 32 := by
        have hlength := htext.length_le
        have hfits := hholds.2
        simp only [List.length_append, List.length_cons] at hfits
        omega
      rw [hpayload] at hholds ⊢
      refine writeMemory_returns hshows hholds hnumber hlen ?_ hlt
      rw [if_neg Bool.false_ne_true,
        decBin_eq_ok_iff.mpr ⟨htext, Nat.le_refl _⟩]
      rfl
  | lastSignal ignored =>
      rw [hholds.pktBuf_zero]
      exact answered_returns (sendCodePacket_returns hshows (by decide) 0)
  | @other c ignored hunknown =>
      have hother (c' : Char) (hknown : c'.toUInt8 ∈ known) : c ≠ c'.toUInt8 := by
        rintro rfl
        exact hunknown hknown
      rw [hholds.pktBuf_zero, obey, if_neg (hother 'g' (by decide)),
        if_neg (hother 'G' (by decide)), if_neg (hother 'p' (by decide)),
        if_neg (hother 'P' (by decide)), if_neg (hother 'm' (by decide)),
        if_neg (hother 'M' (by decide)), if_neg (hother 'X' (by decide)),
        if_neg (hother 'c' (by decide)), if_neg (hother 's' (by decide)),
        if_neg (hother '?' (by decide))]
      exact answered_returns (sendPacket_returns hshows List.not_mem_nil)

end Commands

/-! ### The session -/

theorem Carries.recvPacket_returns {bytes payload rest output : Text}
    {stub : Stub} {target : Target}
    (hcarries : Carries pktBufLen bytes payload)
    (hshows : Shows stub target (bytes ++ rest) output) :
    Returns (recvPacket pktBufLen) stub fun pktLen stub' =>
      pktLen = some payload.length ∧ Holds stub' payload ∧
      Shows stub' target rest (output ++ ['+'.toUInt8]) := by
  have hlt : payload.length < 2 ^ 32 :=
    Nat.lt_of_le_of_lt hcarries.fits (by decide)
  exact ⟨_, _, hcarries.recvPacket_eq hshows.input, rfl,
    ⟨stub.pktBuf.slice_storeAll 0 payload, hlt⟩,
    ⟨hshows.registers, hshows.memory, rfl,
      congrArg (· ++ ['+'.toUInt8]) hshows.output⟩⟩

theorem text_error : Answer.error.text = 'E'.toUInt8 :: hexPair 0 := by
  decide

theorem serve_request {stub : Stub} {target : Target} {response : UInt8}
    {bytes payload rest output : Text} {command : Command}
    (hcarries : Carries pktBufLen bytes payload) (hasks : Asks payload command)
    (hshows : Shows stub target (bytes ++ response :: rest) output) :
    Returns serve stub fun again stub' => again = true ∧
      Shows stub' (target.perform command).1 rest (output ++
        '+'.toUInt8 :: frame (target.perform command).2.text) := by
  have hne : payload ≠ [] := by
    rintro rfl
    cases hasks
  have hlength := List.length_pos_iff.mpr hne
  refine (hcarries.recvPacket_returns hshows).bind ?_
  rintro pktLen stub' ⟨rfl, hholds, hshows'⟩
  split
  · next hnone => cases hnone
  · next hzero => simp at hzero; exact absurd hzero hne
  · next pktLen hsome =>
      obtain rfl := Option.some.inj hsome
      refine Returns.step (get_apply stub') ?_
      refine (obey_returns hshows' hholds hasks).bind ?_
      rintro next stub'' hobeyed
      cases next with
      | again =>
          have hshows'' : Shows stub'' _ rest
            (output ++ ['+'.toUInt8] ++ frame _) := hobeyed
          rw [List.append_assoc, List.singleton_append] at hshows''
          exact Returns.pure ⟨rfl, hshows''⟩
      | leave => cases hobeyed
      | error =>
          obtain ⟨herror, hshows''⟩ := hobeyed
          refine (sendCodePacket_returns hshows'' (by decide) 0).bind ?_
          rintro code stub''' hsent
          rw [← text_error, ← herror, List.append_assoc,
            List.singleton_append] at hsent
          exact Returns.pure ⟨rfl, hsent⟩

theorem serve_empty {stub : Stub} {target : Target} {bytes rest output : Text}
    (hcarries : Carries pktBufLen bytes [])
    (hshows : Shows stub target (bytes ++ rest) output) :
    Returns serve stub fun again stub' => again = true ∧
      Shows stub' target rest (output ++ ['+'.toUInt8]) := by
  refine (hcarries.recvPacket_returns hshows).bind ?_
  rintro pktLen stub' ⟨rfl, -, hshows'⟩
  exact Returns.pure ⟨rfl, hshows'⟩

theorem serve_leave {stub : Stub} {target : Target}
    {bytes payload rest output : Text} {registers : Registers}
    (hcarries : Carries pktBufLen bytes payload)
    (hresumes : Resumes target.registers payload registers)
    (hshows : Shows stub target (bytes ++ rest) output) :
    Returns serve stub fun again stub' => again = false ∧
      Shows stub' { target with registers := registers } rest
        (output ++ ['+'.toUInt8]) := by
  refine (hcarries.recvPacket_returns hshows).bind ?_
  rintro pktLen stub' ⟨rfl, hholds, hshows'⟩
  cases hresumes with
  | proceed ignored =>
      refine Returns.step (get_apply stub') ?_
      rw [hholds.pktBuf_zero]
      have hobey (n : Nat) : obey n 'c'.toUInt8 stub' = .ok (.leave,
        { stub' with registers := sysContinue stub'.registers }) := rfl
      refine Returns.step (hobey _) (Returns.pure ⟨rfl, ?_⟩)
      exact ⟨by rw [hshows'.registers], hshows'.memory, hshows'.input,
        hshows'.output⟩
  | step ignored =>
      refine Returns.step (get_apply stub') ?_
      rw [hholds.pktBuf_zero]
      have hobey (n : Nat) : obey n 's'.toUInt8 stub' = .ok (.leave,
        { stub' with registers := sysStep stub'.registers }) := rfl
      refine Returns.step (hobey _) (Returns.pure ⟨rfl, ?_⟩)
      exact ⟨by rw [hshows'.registers], hshows'.memory, hshows'.input,
        hshows'.output⟩

theorem Carries.length_pos {pktBufLen : Nat} {bytes payload : Text}
    (hcarries : Carries pktBufLen bytes payload) : 0 < bytes.length := by
  obtain ⟨noise, digits, -, -, rfl⟩ := hcarries.wire
  simp

theorem serveAll_talk {stub : Stub} {target final : Target}
    {input output rest sent : Text} {fuel : Nat}
    (htalk : Talk target input output final)
    (hshows : Shows stub target (input ++ rest) sent)
    (hfuel : input.length < fuel) :
    Returns (serveAll fuel) stub fun _ stub' =>
      Shows stub' final rest (sent ++ output) := by
  induction htalk generalizing stub sent fuel with
  | leave hcarries hresumes =>
      cases fuel with
      | zero => cases hfuel
      | succ fuel =>
          refine (serve_leave hcarries hresumes hshows).bind ?_
          rintro again stub' ⟨rfl, hshows'⟩
          exact Returns.pure hshows'
  | @empty target final bytes input output hcarries htalk ih =>
      have hpos := hcarries.length_pos
      rw [List.length_append] at hfuel
      rw [List.append_assoc] at hshows
      cases fuel with
      | zero => cases hfuel
      | succ fuel =>
          refine (serve_empty hcarries hshows).bind ?_
          rintro again stub' ⟨rfl, hshows'⟩
          have hfuel' : input.length < fuel := by omega
          have hrest := ih hshows' hfuel'
          rwa [List.append_assoc, List.singleton_append] at hrest
  | @request target final bytes payload input output command hcarries hasks
      response htalk ih =>
      have hpos := hcarries.length_pos
      rw [List.length_append, List.length_cons] at hfuel
      rw [List.append_assoc, List.cons_append] at hshows
      cases fuel with
      | zero => cases hfuel
      | succ fuel =>
          refine (serve_request hcarries hasks hshows).bind ?_
          rintro again stub' ⟨rfl, hshows'⟩
          have hfuel' : input.length < fuel := by omega
          have hrest := ih hshows' hfuel'
          rwa [List.append_assoc] at hrest

theorem handle_returns {stub : Stub} {target : Target} {response : UInt8}
    {line sent : Text} {post : Unit → Stub → Prop}
    (hshows : Shows stub target (response :: line) sent)
    (hrest : ∀ stub', Shows stub' target line (sent ++ frame Answer.signal.text) →
      Returns (serveAll (line.length + 1)) stub' post) :
    Returns handle stub post := by
  have hsignal : Answer.signal.text = 'S'.toUInt8 :: hexPair 0 := by decide
  refine (sendCodePacket_returns hshows (by decide) 0).bind ?_
  rintro code stub' hshows'
  refine Returns.step (get_apply stub') ?_
  rw [hshows'.input]
  rw [← hsignal] at hshows'
  exact hrest stub' hshows'

/-- In every conversation the stub answers what a debugger answers, and leaves
the system as a debugger leaves it. -/
theorem handle_talk {stub : Stub} {target final : Target}
    {response : UInt8} {input output rest sent : Text}
    (htalk : Talk target input output final)
    (hshows : Shows stub target (response :: (input ++ rest)) sent) :
    Returns handle stub fun _ stub' =>
      Shows stub' final rest (sent ++ (frame Answer.signal.text ++ output)) := by
  refine handle_returns hshows fun stub' hshows' => ?_
  have hfuel : input.length < (input ++ rest).length + 1 := by
    rw [List.length_append]
    omega
  have hrest := serveAll_talk htalk hshows' hfuel
  rwa [List.append_assoc] at hrest

/-- The host writes `1` to a register, misses the answer, and steps. -/
theorem handle_talk_step :
    Returns handle (Stub.blank ('+'.toUInt8 ::
      (frame (bytes "P0=01000000") ++ '-'.toUInt8 :: frame (bytes "s") ++ [])))
      fun _ stub' => Shows stub'
        { registers := sysStep fun r => if r.val = 0 then 1 else 0
          memory := fun _ => 0 } []
        (frame (bytes "S00") ++
          ('+'.toUInt8 :: frame (bytes "OK") ++ ['+'.toUInt8])) := by
  have hinside : (bytes "P0=01000000s").all
      fun c => c ≠ failure ∧ c ≠ '#'.toUInt8 := by
    decide
  have hgood (text : Text) (htext : text ⊆ bytes "P0=01000000s") :
      ∀ c ∈ text, Inside c := by
    intro c hc
    have hall := List.all_eq_true.mp hinside c (htext hc)
    simpa [Inside] using hall
  have hstep : Carries pktBufLen (frame (bytes "s")) (bytes "s") :=
    carries_frame (hgood _ (by decide)) (by decide)
  have hwrite : Carries pktBufLen (frame (bytes "P0=01000000"))
      (bytes "P0=01000000") :=
    carries_frame (hgood _ (by decide)) (by decide)
  have hnumber : Numeral (bytes "0") 0 := ⟨by decide, [0], by decide, rfl⟩
  have htext : HexText (bytes "01000000") (wordBytes 1) :=
    hexText_flatMap (wordBytes 1)
  have hend : Talk ⟨fun r => if r.val = 0 then 1 else 0, fun _ => 0⟩
      (frame (bytes "s")) ['+'.toUInt8] _ := .leave hstep (.step [])
  have htalk := @Talk.request ⟨fun _ => 0, fun _ => 0⟩ _ _ _ _ _ _ hwrite
    (.writeRegister hnumber htext) '-'.toUInt8 hend
  exact handle_talk htalk ⟨rfl, rfl, rfl, rfl⟩

end X86Os32.GDB
