import X86Os32.Debug.GDBSession
import X86Os32.Library.Runs

namespace X86Os32.GDB

open Library Library.Results Library.Program Library.Runs
open OStream (Text)

/-! What holds in every session, whatever bytes arrive on the line. -/

/-- What the stub may send: acknowledgements, and packets without the characters
that have a meaning of their own. -/
inductive Speaks : Text → Prop
  | nil : Speaks []
  | acknowledge {sent : Text} (hspeaks : Speaks sent) :
      Speaks (sent ++ ['+'.toUInt8])
  | reject {sent : Text} (hspeaks : Speaks sent) :
      Speaks (sent ++ ['-'.toUInt8])
  | packet {sent payload : Text} (hspeaks : Speaks sent)
      (hpayload : ∀ c ∈ payload, c ≠ failure ∧ ¬Reserved c) :
      Speaks (sent ++ frame payload)

theorem Speaks.append {sent sent' : Text} (hspeaks : Speaks sent)
    (hspeaks' : Speaks sent') : Speaks (sent ++ sent') := by
  induction hspeaks' with
  | nil => rwa [List.append_nil]
  | acknowledge _ ih =>
      rw [← List.append_assoc]
      exact ih.acknowledge
  | reject _ ih =>
      rw [← List.append_assoc]
      exact ih.reject
  | packet _ hpayload ih =>
      rw [← List.append_assoc]
      exact ih.packet hpayload

/-- What a part of the stub does to the system and to the line.  The parameters
say what it may write. -/
structure Passes (registers memory : Prop) (stub stub' : Stub) : Prop where
  registers : ¬registers → stub'.registers = stub.registers
  memory : ¬memory → stub'.memory = stub.memory
  input : stub'.input <:+ stub.input
  output : ∃ sent, Speaks sent ∧ stub'.output = stub.output ++ sent

theorem Passes.refl {registers memory : Prop} (stub : Stub) :
    Passes registers memory stub stub where
  registers _ := rfl
  memory _ := rfl
  input := List.suffix_refl _
  output := ⟨[], .nil, (List.append_nil _).symm⟩

theorem Passes.trans {registers memory : Prop} {stub stub' stub'' : Stub}
    (hfirst : Passes registers memory stub stub')
    (hsecond : Passes registers memory stub' stub'') :
    Passes registers memory stub stub'' where
  registers hnone := (hsecond.registers hnone).trans (hfirst.registers hnone)
  memory hnone := (hsecond.memory hnone).trans (hfirst.memory hnone)
  input := hsecond.input.trans hfirst.input
  output := by
    obtain ⟨sent, hspeaks, hsent⟩ := hfirst.output
    obtain ⟨sent', hspeaks', hsent'⟩ := hsecond.output
    refine ⟨sent ++ sent', hspeaks.append hspeaks', ?_⟩
    rw [hsent', hsent, List.append_assoc]

theorem Passes.mono {registers memory registers' memory' : Prop}
    {stub stub' : Stub} (hpasses : Passes registers memory stub stub')
    (hregisters : registers → registers') (hmemory : memory → memory') :
    Passes registers' memory' stub stub' where
  registers hnone := hpasses.registers fun hwrites => hnone (hregisters hwrites)
  memory hnone := hpasses.memory fun hwrites => hnone (hmemory hwrites)
  input := hpasses.input
  output := hpasses.output

/-- If the program comes to its end, it has passed the system on so. -/
abbrev Passing (registers memory : Prop) (program : Act α) : Prop :=
  Relates (Passes registers memory) program

section Passing

variable {registers memory : Prop}

theorem Passing.bind {program : Act α} {next : α → Act β}
    (hprogram : Passing registers memory program)
    (hnext : ∀ a, Passing registers memory (next a)) :
    Passing registers memory (program >>= next) := by
  refine Relates.bind ?_ hprogram hnext
  exact fun _ _ _ => Passes.trans

theorem Passing.pure (a : α) : Passing registers memory (Pure.pure a : Act α) :=
  Relates.pure Passes.refl a

/-- Characters that a packet of the stub may contain. -/
def Clean (payload : Text) : Prop := ∀ c ∈ payload, c ≠ failure ∧ ¬Reserved c

theorem clean_hexPair (c : UInt8) : Clean (hexPair c) := by
  have hdigit : ∀ n < 16, getDigit n ≠ failure ∧ ¬Reserved (getDigit n) := by
    decide
  have hlt := c.toNat_lt
  obtain ⟨hhigh, hlow⟩ := nibbles c
  intro c' hmem
  rw [hexPair, hhigh, hlow] at hmem
  rcases List.mem_cons.mp hmem with rfl | hlast
  · exact hdigit _ (by omega)
  · rw [List.mem_singleton.mp hlast]
    exact hdigit _ (by omega)

theorem clean_of_encHex {bufLen : Nat} {data text : Text}
    (henc : encHex bufLen data = some text) : Clean text := by
  unfold encHex at henc
  split at henc
  · cases henc
  · obtain rfl := Option.some.inj henc
    intro c hmem
    obtain ⟨byte, -, hpair⟩ := List.mem_flatMap.mp hmem
    exact clean_hexPair byte c hpair

theorem clean_of_memRead {system : Memory} {bufLen len : Nat} {addr : UInt32}
    {text : Text} (hread : memRead system bufLen addr len true = .ok (some text)) :
    Clean text := by
  unfold memRead at hread
  split at hread
  · cases hread
  · exact clean_of_encHex (Except.ok.inj hread)

theorem read_passing : Passing registers memory read := by
  intro stub
  unfold Ensures read
  cases hinput : stub.input with
  | nil => trivial
  | cons c rest =>
      refine ⟨fun _ => rfl, fun _ => rfl, ?_, [], .nil, (List.append_nil _).symm⟩
      rw [hinput]
      exact List.suffix_cons c rest

theorem recvAck_passing : Passing registers memory recvAck :=
  read_passing.bind fun _ =>
    Relates.ite (Passing.pure _) (Relates.ite (Passing.pure _) (Passing.pure _))

theorem sendPacket_passing {payload : Text} (hclean : Clean payload) :
    Passing registers memory (sendPacket payload) := by
  intro stub
  have hgood : failure ∉ payload := fun hmem => (hclean _ hmem).1 rfl
  have hsent : Passes registers memory stub
      { stub with output := stub.output ++ frame payload } :=
    ⟨fun _ => rfl, fun _ => rfl, List.suffix_refl _, frame payload,
      Speaks.packet .nil hclean, rfl⟩
  unfold Ensures
  rw [sendPacket_eq hgood]
  exact (recvAck_passing _).mono fun _ _ hpasses => hsent.trans hpasses

theorem sendBuffer_passing {payload : Text} (hclean : Clean payload) :
    Passing registers memory (sendBuffer payload) :=
  Passing.bind (Relates.modify fun _ => ⟨fun _ => rfl, fun _ => rfl,
    List.suffix_refl _, [], .nil, (List.append_nil _).symm⟩)
    fun _ => sendPacket_passing hclean

theorem sendCodePacket_passing {letter : Char}
    (hletter : letter.toUInt8 ≠ failure ∧ ¬Reserved letter.toUInt8)
    (bufLen : Nat) (code : UInt8) :
    Passing registers memory (sendCodePacket letter bufLen code) := by
  unfold sendCodePacket
  refine Relates.ite (Passing.pure _) ?_
  split
  · exact Passing.pure _
  · next text henc =>
      refine sendBuffer_passing fun c hmem => ?_
      rcases List.mem_cons.mp hmem with rfl | hlast
      · exact hletter
      · exact clean_of_encHex henc c hlast

theorem answered_passing {send : Act Int} (hsend : Passing registers memory send) :
    Passing registers memory (answered send) :=
  hsend.bind fun _ => Passing.pure _

theorem sendOkPacket_passing : Passing registers memory sendOkPacket := by
  refine sendPacket_passing fun c hc => ?_
  have hclean : ['O'.toUInt8, 'K'.toUInt8].all fun c => c ≠ failure ∧ ¬Reserved c := by
    decide
  simpa using List.all_eq_true.mp hclean c hc

theorem readRegisters_passing : Passing registers memory readRegisters := by
  refine Passing.bind (Relates.get Passes.refl) fun stub => ?_
  split
  · exact Passing.pure _
  · next text henc =>
      exact answered_passing (sendBuffer_passing (clean_of_encHex henc))

theorem writeRegisters_passing (hregisters : registers) (pktLen : Nat) :
    Passing registers memory (writeRegisters pktLen) := by
  refine Passing.bind (Relates.get Passes.refl) fun stub => ?_
  refine Passing.bind (Relates.lift Passes.refl _) fun data => ?_
  split
  · exact Passing.pure _
  · refine Passing.bind (Relates.modify fun stub => ?_) fun _ =>
      answered_passing sendOkPacket_passing
    exact ⟨fun hnone => absurd hregisters hnone, fun _ => rfl,
      List.suffix_refl _, [], .nil, (List.append_nil _).symm⟩

theorem readRegister_passing (pktLen : Nat) :
    Passing registers memory (readRegister pktLen) := by
  refine Passing.bind (Relates.get Passes.refl) fun stub => ?_
  split
  · exact Passing.pure _
  · split
    · split
      · exact Passing.pure _
      · next text henc =>
          exact answered_passing (sendBuffer_passing (clean_of_encHex henc))
    · exact Passing.pure _

theorem writeRegister_passing (hregisters : registers) (pktLen : Nat) :
    Passing registers memory (writeRegister pktLen) := by
  refine Passing.bind (Relates.get Passes.refl) fun stub => ?_
  split
  · exact Passing.pure _
  · split
    · exact Passing.pure _
    · refine Relates.ite (Passing.pure _) ?_
      refine Passing.bind (Relates.lift Passes.refl _) fun data => ?_
      split
      · exact Passing.pure _
      · refine Passing.bind (Relates.modify fun stub => ?_) fun _ =>
          answered_passing sendOkPacket_passing
        exact ⟨fun hnone => absurd hregisters hnone, fun _ => rfl,
          List.suffix_refl _, [], .nil, (List.append_nil _).symm⟩

theorem readMemory_passing (pktLen : Nat) :
    Passing registers memory (readMemory pktLen) := by
  refine Passing.bind (Relates.get Passes.refl) fun stub => ?_
  split
  · exact Passing.pure _
  · refine Relates.bind_lift fun text hread => ?_
    split
    · exact Passing.pure _
    · exact answered_passing (sendBuffer_passing (clean_of_memRead hread))

theorem memWrite_passing (hmemory : memory) (buf : Text) (addr : UInt32)
    (len : Nat) (hex : Bool) :
    Passing registers memory (memWrite buf addr len hex) := by
  unfold memWrite
  refine Relates.ite (Passing.pure _) ?_
  refine Passing.bind (Relates.lift Passes.refl _) fun data => ?_
  refine Passing.bind (Relates.get Passes.refl) fun stub => ?_
  refine Passing.bind (Relates.modify fun _ => ⟨fun _ => rfl, fun _ => rfl,
    List.suffix_refl _, [], .nil, (List.append_nil _).symm⟩) fun _ => ?_
  split
  · exact Passing.pure _
  · refine Passing.bind (Relates.modify fun _ => ?_) fun _ => Passing.pure _
    exact ⟨fun _ => rfl, fun hnone => absurd hmemory hnone,
      List.suffix_refl _, [], .nil, (List.append_nil _).symm⟩

theorem writeMemory_passing (hmemory : memory) (pktLen : Nat) (hex : Bool) :
    Passing registers memory (writeMemory pktLen hex) := by
  refine Passing.bind (Relates.get Passes.refl) fun stub => ?_
  split
  · exact Passing.pure _
  · split
    · exact Passing.pure _
    · refine (memWrite_passing hmemory _ _ _ _).bind fun done => ?_
      exact Relates.ite (Passing.pure _) (answered_passing sendOkPacket_passing)

def registerWriters : Text := ['G', 'P'].map Char.toUInt8

def memoryWriters : Text := ['M', 'X'].map Char.toUInt8

theorem obey_passing (pktLen : Nat) {command : UInt8}
    (hproceed : command ≠ 'c'.toUInt8) (hstep : command ≠ 's'.toUInt8) :
    Passing (command ∈ registerWriters) (command ∈ memoryWriters)
      (obey pktLen command) := by
  have hclean : Clean [] := fun _ hnone => nomatch hnone
  unfold obey
  rw [if_neg hproceed, if_neg hstep]
  split
  · exact readRegisters_passing
  split
  · next hletter => exact writeRegisters_passing (hletter ▸ by decide) pktLen
  split
  · exact readRegister_passing pktLen
  split
  · next hletter => exact writeRegister_passing (hletter ▸ by decide) pktLen
  split
  · exact readMemory_passing pktLen
  split
  · next hletter => exact writeMemory_passing (hletter ▸ by decide) pktLen true
  split
  · next hletter => exact writeMemory_passing (hletter ▸ by decide) pktLen false
  split
  · exact answered_passing (sendCodePacket_passing (by decide) _ _)
  · exact answered_passing (sendPacket_passing hclean)

/-! ### Receiving -/

theorem skipToStart_suffix {input rest : Text}
    (hskip : skipToStart input = some rest) : rest <:+ input := by
  obtain ⟨noise, -, rfl⟩ := skipToStart_eq_some_iff.mp hskip
  exact ⟨noise ++ ['$'.toUInt8], by simp⟩

theorem storeChars_suffix {pktBufLen n : Nat} {input rest : Text}
    {pktBuf pktBuf' : Mem} {pktLen : Option Nat}
    (hstore : storeChars pktBufLen input n pktBuf = .ok (pktLen, rest, pktBuf')) :
    rest <:+ input := by
  induction input generalizing n pktBuf with
  | nil => cases hstore
  | cons data input ih =>
      rw [storeChars] at hstore
      split at hstore
      · cases hstore
        exact List.suffix_cons _ _
      · split at hstore
        · cases hstore
          exact List.suffix_cons _ _
        · split at hstore
          · cases hstore
            exact List.suffix_cons _ _
          · exact (ih hstore).trans (List.suffix_cons data input)

theorem readChars_passing (len : Nat) :
    Passing registers memory (readChars len) := by
  induction len with
  | zero => exact Passing.pure _
  | succ len ih =>
      refine read_passing.bind fun c => Relates.ite (Passing.pure _) ?_
      exact ih.bind fun _ => Passing.pure _

theorem write_passing {c : UInt8} (hc : c = '+'.toUInt8 ∨ c = '-'.toUInt8) :
    Passing registers memory (write c) := by
  intro stub
  refine ⟨fun _ => rfl, fun _ => rfl, List.suffix_refl _, [c], ?_, rfl⟩
  rcases hc with rfl | rfl
  · exact Speaks.acknowledge .nil
  · exact Speaks.reject .nil

theorem recvChecksum_passing (pktLen : Nat) :
    Passing registers memory (recvChecksum pktLen) := by
  have hread : Passing registers memory (readString 2 2) :=
    Relates.ite (Passing.pure _) (readChars_passing 2)
  refine hread.bind fun buf => ?_
  split
  · exact Passing.pure _
  · refine Passing.bind (Relates.lift Passes.refl _) fun expected => ?_
    split
    · exact Passing.pure _
    · refine Passing.bind (Relates.get Passes.refl) fun stub => ?_
      exact Relates.ite ((write_passing (.inr rfl)).bind fun _ => Passing.pure _)
        ((write_passing (.inl rfl)).bind fun _ => Passing.pure _)

theorem recvPacket_passing (pktBufLen : Nat) :
    Passing registers memory (recvPacket pktBufLen) := by
  have hstart : Passing registers memory awaitStart := by
    intro stub
    unfold Ensures awaitStart
    cases hskip : skipToStart stub.input with
    | none => trivial
    | some rest => exact ⟨fun _ => rfl, fun _ => rfl, skipToStart_suffix hskip, [],
        .nil, (List.append_nil _).symm⟩
  have hchars : Passing registers memory (recvChars pktBufLen) := by
    intro stub
    unfold Ensures recvChars
    cases hstore : storeChars pktBufLen stub.input 0 stub.pktBuf with
    | error stop => trivial
    | ok result => exact ⟨fun _ => rfl, fun _ => rfl, storeChars_suffix hstore, [],
        .nil, (List.append_nil _).symm⟩
  refine hstart.bind fun _ => hchars.bind fun pktLen => ?_
  split
  · exact Passing.pure _
  · exact recvChecksum_passing _

end Passing

/-! ### Rounds -/

/-- A write command can begin somewhere in the bytes. -/
def Writes (letters input : Text) : Prop :=
  ∃ c ∈ letters, ['$'.toUInt8, c] <:+: input

theorem Writes.of_suffix {letters input rest : Text}
    (hwrites : Writes letters rest) (hrest : rest <:+ input) :
    Writes letters input := by
  obtain ⟨c, hc, hinfix⟩ := hwrites
  exact ⟨c, hc, hinfix.trans hrest.isInfix⟩

theorem received_letter {stub stub' : Stub} {pktBufLen k : Nat}
    (hrecv : recvPacket pktBufLen stub = .ok (some k, stub')) (hk : k ≠ 0) :
    ['$'.toUInt8, stub'.pktBuf 0] <:+: stub.input := by
  obtain ⟨bytes, payload, rest, hinput, hcarries, rfl, rfl⟩ :=
    recvPacket_eq_some hrecv
  obtain ⟨noise, digits, -, -, rfl⟩ := hcarries.wire
  cases payload with
  | nil => exact absurd rfl hk
  | cons c payload =>
      have hletter : (stub.received (c :: payload) rest '+').pktBuf 0 = c := by
        simp [Stub.received, Mem.storeAll]
      rw [hletter, hinput]
      exact ⟨noise, payload ++ '#'.toUInt8 :: digits ++ rest, by simp⟩

/-- The state of the loop of `handle`: whether it goes on, and the stub. -/
abbrev Loop := Bool × Stub

/-- The loop begins, at once or behind the signal packet that `handle` sends
first. -/
def Begins (stub : Stub) (loop : Loop) : Prop :=
  loop = (true, stub) ∨
    loop.1 = true ∧
      ∃ code, sendSignalPacket pktBufLen 0 stub = .ok (code, loop.2)

def Round (loop : Loop) (_ : Unit) (loop' : Loop) : Prop :=
  loop.1 = true ∧ serve loop.2 = .ok loop'

def LeftAs (registers registers' : Registers) : Prop :=
  registers' = registers ∨ registers' = sysContinue registers ∨
    registers' = sysStep registers

theorem attend_ensures (pktLen : Nat) (command : UInt8) (stub : Stub) :
    Ensures (attend pktLen command) stub fun again stub' =>
      Passes (command ∈ registerWriters ∨ again = false)
        (command ∈ memoryWriters) stub stub' ∧
      (again = false → command ∉ registerWriters →
        LeftAs stub.registers stub'.registers) := by
  have hleft (registers : Registers) (hleft : LeftAs stub.registers registers)
      (memory : Prop) :
      Passes (command ∈ registerWriters ∨ false = false) memory stub
          { stub with registers := registers } ∧
        (false = false → command ∉ registerWriters →
          LeftAs stub.registers registers) :=
    ⟨⟨fun hnone => absurd (.inr rfl) hnone, fun _ => rfl, List.suffix_refl _, [],
      .nil, (List.append_nil _).symm⟩, fun _ _ => hleft⟩
  by_cases hproceed : command = 'c'.toUInt8
  · subst hproceed
    exact hleft (sysContinue stub.registers) (.inr (.inl rfl)) _
  by_cases hstep : command = 's'.toUInt8
  · subst hstep
    exact hleft (sysStep stub.registers) (.inr (.inr rfl)) _
  refine (obey_passing pktLen hproceed hstep stub).bind ?_
  intro next stub' hpasses
  cases next with
  | again => exact Ensures.pure ⟨hpasses.mono .inl id, fun hfalse => nomatch hfalse⟩
  | leave =>
      exact Ensures.pure ⟨hpasses.mono .inl id, fun _ hnone =>
        .inl (hpasses.registers hnone)⟩
  | error =>
      have hsend : Passing (command ∈ registerWriters) (command ∈ memoryWriters)
          (sendErrorPacket pktBufLen 0) := sendCodePacket_passing (by decide) _ _
      generalize sendErrorPacket pktBufLen 0 = send at hsend ⊢
      refine (hsend stub').bind fun _ stub'' hpasses' => ?_
      exact Ensures.pure ⟨(hpasses.trans hpasses').mono .inl id,
        fun hfalse => nomatch hfalse⟩

theorem serve_ensures (stub : Stub) :
    Ensures serve stub fun again stub' =>
      Passes (Writes registerWriters stub.input ∨ again = false)
        (Writes memoryWriters stub.input) stub stub' ∧
      (again = false → ¬Writes registerWriters stub.input →
        LeftAs stub.registers stub'.registers) := by
  have hpassing : Passing False False (recvPacket pktBufLen) :=
    recvPacket_passing pktBufLen
  refine ((hpassing stub).and (Ensures.outcome _ stub)).bind ?_
  rintro pktLen stub' ⟨hpasses, hrun⟩
  have hpasses' {registers memory : Prop} : Passes registers memory stub stub' :=
    hpasses.mono False.elim False.elim
  have hsame := hpasses.registers id
  split
  · exact Ensures.pure ⟨hpasses', fun _ _ => .inl hsame⟩
  · exact Ensures.pure ⟨hpasses', fun hfalse => nomatch hfalse⟩
  · next pktLen hne =>
      have hletter := received_letter hrun hne
      refine Ensures.step (get_apply stub') ?_
      refine (attend_ensures pktLen (stub'.pktBuf 0) stub').mono ?_
      rintro again stub'' ⟨hattend, hleft⟩
      refine ⟨hpasses'.trans (hattend.mono ?_ ?_), fun hfalse hnone => ?_⟩
      · rintro (hwriter | hend)
        · exact .inl ⟨_, hwriter, hletter⟩
        · exact .inr hend
      · exact fun hwriter => ⟨_, hwriter, hletter⟩
      · rw [← hsame]
        exact hleft hfalse fun hwriter => hnone ⟨_, hwriter, hletter⟩

theorem Begins.passes {stub : Stub} {loop : Loop} (hbegins : Begins stub loop) :
    loop.1 = true ∧ Passes False False stub loop.2 := by
  rcases hbegins with rfl | ⟨hagain, code, hsend⟩
  · exact ⟨rfl, Passes.refl stub⟩
  · have hpassing : Passing False False (sendSignalPacket pktBufLen 0) :=
      sendCodePacket_passing (by decide) _ _
    have hensures := hpassing stub
    unfold Ensures at hensures
    rw [hsend] at hensures
    exact ⟨hagain, hensures⟩

theorem loop_passes {stub : Stub} {loop : Loop}
    (hreach : Reachable (Begins stub) Round loop) :
    Passes (Writes registerWriters stub.input ∨ loop.1 = false)
        (Writes memoryWriters stub.input) stub loop.2 ∧
      (loop.1 = false → ¬Writes registerWriters stub.input →
        LeftAs stub.registers loop.2.registers) := by
  induction hreach with
  | start hbegins =>
      obtain ⟨hagain, hpasses⟩ := hbegins.passes
      refine ⟨hpasses.mono False.elim False.elim, fun hfalse => ?_⟩
      rw [hagain] at hfalse
      cases hfalse
  | @next loop event loop' hreach hround ih =>
      obtain ⟨hpasses, -⟩ := ih
      obtain ⟨hagain, hserve⟩ := hround
      have hensures := serve_ensures loop.2
      unfold Ensures at hensures
      rw [hserve] at hensures
      obtain ⟨hround, hleft⟩ := hensures
      have hsuffix := hpasses.input
      have hregisters := hpasses.registers
      rw [hagain] at hregisters
      refine ⟨?_, fun hfalse hnone => ?_⟩
      · refine Passes.trans (hpasses.mono (Or.imp_right ?_) id)
          (hround.mono (Or.imp_left (·.of_suffix hsuffix)) (·.of_suffix hsuffix))
        intro hend
        rw [hagain] at hend
        cases hend
      · have hsame := hregisters (by simpa using hnone)
        rw [← hsame]
        exact hleft hfalse fun hwrites => hnone (hwrites.of_suffix hsuffix)

/-- Whatever the host sends, in whatever state the session is: without a packet
that begins with a write command the system is as it was, but for the flag for
single steps at the end, and the stub sends nothing but acknowledgements and
packets. -/
theorem session_without_writes {stub : Stub} {loop : Loop}
    (hreach : Reachable (Begins stub) Round loop) :
    (¬Writes memoryWriters stub.input → loop.2.memory = stub.memory) ∧
    (¬Writes registerWriters stub.input →
      if loop.1 then loop.2.registers = stub.registers
      else LeftAs stub.registers loop.2.registers) ∧
    loop.2.input <:+ stub.input ∧
    ∃ sent, Speaks sent ∧ loop.2.output = stub.output ++ sent := by
  obtain ⟨hpasses, hleft⟩ := loop_passes hreach
  refine ⟨hpasses.memory, fun hnone => ?_, hpasses.input, hpasses.output⟩
  cases hagain : loop.1 with
  | false => exact hleft hagain hnone
  | true =>
      refine hpasses.registers ?_
      rw [hagain]
      simpa using hnone

/-- After a question for the last signal. -/
theorem session_without_writes_signal : ∃ loop : Loop,
    loop.1 = true ∧ loop.2.input = [] ∧ loop.2.memory = (fun _ => 0) ∧
      loop.2.registers = fun _ => 0 := by
  let stub := Stub.blank (frame (bytes "?") ++ ['+'.toUInt8])
  have hcarries : Carries pktBufLen (frame (bytes "?")) (bytes "?") := by
    refine carries_frame (fun c hc => ?_) (by decide)
    obtain rfl : c = '?'.toUInt8 := List.mem_singleton.mp hc
    exact ⟨by decide, by decide⟩
  have hshows : Shows stub ⟨fun _ => 0, fun _ => 0⟩
      (frame (bytes "?") ++ ['+'.toUInt8]) [] := ⟨rfl, rfl, rfl, rfl⟩
  obtain ⟨again, stub', hserve, rfl, hshows'⟩ :=
    serve_request hcarries (.lastSignal []) hshows
  have hround : Round (true, stub) () (true, stub') := ⟨rfl, hserve⟩
  obtain ⟨hmemory, hregisters, -, -⟩ :=
    session_without_writes (.next (.start (.inl rfl)) hround)
  have hnone : (registerWriters ++ memoryWriters).all fun c =>
      ¬['$'.toUInt8, c] <:+: stub.input := by decide
  refine ⟨_, rfl, hshows'.input, hmemory ?_, hregisters ?_⟩
  · rintro ⟨c, hc, hinfix⟩
    have h := List.all_eq_true.mp hnone c (List.mem_append_right _ hc)
    exact of_decide_eq_true h hinfix
  · rintro ⟨c, hc, hinfix⟩
    have h := List.all_eq_true.mp hnone c (List.mem_append_left _ hc)
    exact of_decide_eq_true h hinfix

end X86Os32.GDB
