import X86Os32.Library.Processor

namespace X86Os32

open Library Library.Processor

/-! The switch between two flows of control: `machine/toc.asm` and
`machine/toc.cc`. -/

namespace Toc

/-! ### The offsets of `machine/toc.inc` -/

def ebxOffset : UInt32 := 0

def esiOffset : UInt32 := 4

def ediOffset : UInt32 := 8

def ebpOffset : UInt32 := 12

def espOffset : UInt32 := 16

def tocGo : List Instr :=
  [.load .eax .esp 4,
    .load .ebx .eax ebxOffset, .load .esi .eax esiOffset,
    .load .edi .eax ediOffset, .load .ebp .eax ebpOffset,
    .load .esp .eax espOffset,
    .ret]

def tocSwitch : List Instr :=
  [.load .eax .esp 4,
    .store .eax ebxOffset .ebx, .store .eax esiOffset .esi,
    .store .eax ediOffset .edi, .store .eax ebpOffset .ebp,
    .store .eax espOffset .esp,
    .load .eax .esp 8,
    .load .ebx .eax ebxOffset, .load .esi .eax esiOffset,
    .load .edi .eax ediOffset, .load .ebp .eax ebpOffset,
    .load .esp .eax espOffset,
    .ret]

def tocSettle (memory : AddressSpace) (regs tos kickoff fail object : UInt32) :
    AddressSpace :=
  let esp := tos
  let memory := memory.write32 (regs + ebpOffset) esp
  let memory := memory.write32 esp object
  let esp := esp - 4
  let memory := memory.write32 esp fail
  let esp := esp - 4
  let memory := memory.write32 esp kickoff
  memory.write32 (regs + espOffset) esp

/-! ### What they do -/

/-- The places of the registers in a `struct toc`. -/
def places : List UInt32 := [ebxOffset, esiOffset, ediOffset, ebpOffset, espOffset]

def saved (memory : AddressSpace) (now : UInt32) (regs : Reg → UInt32) :
    AddressSpace :=
  memory.stores now [(ebxOffset, regs .ebx), (esiOffset, regs .esi),
    (ediOffset, regs .edi), (ebpOffset, regs .ebp), (espOffset, regs .esp)]

/-- The registers after they have been loaded from the address, and the return
to the address on top of that stack. -/
def loaded (memory : AddressSpace) (reg_then : UInt32) (regs : Reg → UInt32) :
    Reg → UInt32
  | .eax => reg_then
  | .ebx => memory.read32 (reg_then + ebxOffset)
  | .esi => memory.read32 (reg_then + esiOffset)
  | .edi => memory.read32 (reg_then + ediOffset)
  | .ebp => memory.read32 (reg_then + ebpOffset)
  | .esp => memory.read32 (reg_then + espOffset) + 4
  | .eip => memory.read32 (memory.read32 (reg_then + espOffset))
  | r => regs r

def save : List Instr :=
  [.store .eax ebxOffset .ebx, .store .eax esiOffset .esi,
    .store .eax ediOffset .edi, .store .eax ebpOffset .ebp,
    .store .eax espOffset .esp]

def load : List Instr :=
  [.load .ebx .eax ebxOffset, .load .esi .eax esiOffset,
    .load .edi .eax ediOffset, .load .ebp .eax ebpOffset,
    .load .esp .eax espOffset,
    .ret]

theorem run_save (p : Processor) :
    p.run save = ⟨p.regs, saved p.memory (p.regs .eax) p.regs⟩ := rfl

theorem run_load (p : Processor) :
    p.run load = ⟨loaded p.memory (p.regs .eax) p.regs, p.memory⟩ := by
  have hregs : (p.run load).regs = loaded p.memory (p.regs .eax) p.regs := by
    funext r
    cases r <;> rfl
  rw [← hregs]
  rfl

theorem loaded_set_eax (memory : AddressSpace) (reg_then v : UInt32) (p : Processor) :
    loaded memory reg_then (p.set .eax v).regs = loaded memory reg_then p.regs := by
  funext r
  cases r <;> rfl

theorem saved_set_eax (memory : AddressSpace) (now v : UInt32) (p : Processor) :
    saved memory now (p.set .eax v).regs = saved memory now p.regs := rfl

theorem run_tocGo (p : Processor) {first : UInt32}
    (hfirst : p.memory.read32 (p.regs .esp + 4) = first) :
    p.run tocGo = ⟨loaded p.memory first p.regs, p.memory⟩ := by
  subst hfirst
  calc p.run tocGo
      = (p.set .eax (p.memory.read32 (p.regs .esp + 4))).run load := rfl
    _ = _ := run_load _
    _ = _ := by rw [loaded_set_eax, set_regs_self, set_memory]

theorem run_tocSwitch (p : Processor) {now reg_then : UInt32}
    (hnow : p.memory.read32 (p.regs .esp + 4) = now)
    (hthen : (saved p.memory now p.regs).read32 (p.regs .esp + 8) = reg_then) :
    p.run tocSwitch = ⟨loaded (saved p.memory now p.regs) reg_then p.regs,
      saved p.memory now p.regs⟩ := by
  subst hthen
  let q : Processor := ⟨(p.set .eax now).regs, saved p.memory now p.regs⟩
  have hsave : (p.set .eax now).run save = q := by
    rw [run_save, saved_set_eax, set_regs_self, set_memory]
  calc p.run tocSwitch
      = (((p.set .eax (p.memory.read32 (p.regs .esp + 4))).run save).exec
          (.load .eax .esp 8)).run load := rfl
    _ = (q.set .eax (q.memory.read32 (p.regs .esp + 8))).run load := by
        rw [hnow, hsave]
        rfl
    _ = _ := run_load _
    _ = _ := by
        rw [loaded_set_eax, set_regs_self, set_memory]
        exact congrArg (Processor.mk · _) (loaded_set_eax _ _ _ p)

/-! ### Their calls -/

/-- The places of the words that a call with two arguments leaves on the stack. -/
def frame : List UInt32 := [8, 4, 0]

theorem call_switch_memory (p : Processor) (now reg_then back : UInt32) :
    (p.call [now, reg_then] back).memory =
      p.memory.stores (p.regs .esp - 12) [(8, reg_then), (4, now), (0, back)] := by
  have h8 : p.regs .esp - 12 + 8 = p.regs .esp - 4 := by grind
  have h4 : p.regs .esp - 12 + 4 = p.regs .esp - 4 - 4 := by grind
  have h0 : p.regs .esp - 12 + 0 = p.regs .esp - 4 - 4 - 4 := by grind
  simp only [AddressSpace.stores, List.foldl, h8, h4, h0]
  rfl

theorem call_switch_esp (p : Processor) (now reg_then back : UInt32) :
    (p.call [now, reg_then] back).regs .esp = p.regs .esp - 12 := by
  have h0 : p.regs .esp - 12 = p.regs .esp - 4 - 4 - 4 := by grind
  rw [h0]
  rfl

theorem call_switch_regs (p : Processor) (now reg_then back : UInt32) {r : Reg}
    (hr : r ≠ .esp) : (p.call [now, reg_then] back).regs r = p.regs r := by
  cases r <;> first | exact absurd rfl hr | rfl

theorem call_go_memory (p : Processor) (first back : UInt32) :
    (p.call [first] back).memory =
      p.memory.stores (p.regs .esp - 8) [(4, first), (0, back)] := by
  have h4 : p.regs .esp - 8 + 4 = p.regs .esp - 4 := by grind
  have h0 : p.regs .esp - 8 + 0 = p.regs .esp - 4 - 4 := by grind
  simp only [AddressSpace.stores, List.foldl, h4, h0]
  rfl

theorem call_go_esp (p : Processor) (first back : UInt32) :
    (p.call [first] back).regs .esp = p.regs .esp - 8 := by
  have h0 : p.regs .esp - 8 = p.regs .esp - 4 - 4 := by grind
  rw [h0]
  rfl

theorem places_apart : places.Pairwise fun x y => AddressSpace.Apart y x := by decide

theorem frame_apart : frame.Pairwise fun x y => AddressSpace.Apart y x := by decide

theorem saved_of_not_places (m : AddressSpace) {now a : UInt32} (regs : Reg → UInt32)
    (ha : ¬AddressSpace.Words now places a) : saved m now regs a = m a :=
  m.stores_of_not_words ha

theorem read32_saved (m : AddressSpace) (now : UInt32) (regs : Reg → UInt32)
    {x w : UInt32} (hmem : (x, w) ∈ [(ebxOffset, regs .ebx), (esiOffset, regs .esi),
      (ediOffset, regs .edi), (ebpOffset, regs .ebp), (espOffset, regs .esp)]) :
    (saved m now regs).read32 (now + x) = w :=
  m.read32_stores places_apart hmem

theorem run_call_tocSwitch (p : Processor) (now reg_then back : UInt32)
    (hapart : ∀ a, AddressSpace.Words (p.regs .esp - 12) frame a →
      ¬AddressSpace.Words now places a) :
    let q := p.call [now, reg_then] back
    q.run tocSwitch = ⟨loaded (saved q.memory now q.regs) reg_then q.regs,
      saved q.memory now q.regs⟩ := by
  intro q
  have hesp : q.regs .esp = p.regs .esp - 12 := call_switch_esp p now reg_then back
  have hmemory : q.memory = p.memory.stores (p.regs .esp - 12)
      [(8, reg_then), (4, now), (0, back)] := call_switch_memory p now reg_then back
  have hnow : q.memory.read32 (q.regs .esp + 4) = now := by
    rw [hesp, hmemory]
    exact p.memory.read32_stores frame_apart (by simp)
  have hthen : (saved q.memory now q.regs).read32 (q.regs .esp + 8) = reg_then := by
    calc (saved q.memory now q.regs).read32 (q.regs .esp + 8)
        = q.memory.read32 (q.regs .esp + 8) := by
          refine AddressSpace.read32_congr fun a ha => saved_of_not_places _ _ ?_
          exact hapart a ⟨8, by decide, hesp ▸ ha⟩
      _ = reg_then := by
          rw [hesp, hmemory]
          exact p.memory.read32_stores frame_apart (by simp)
  exact run_tocSwitch q hnow hthen

theorem run_call_tocGo (p : Processor) (first back : UInt32) :
    let q := p.call [first] back
    q.run tocGo = ⟨loaded q.memory first q.regs, q.memory⟩ := by
  intro q
  refine run_tocGo q ?_
  rw [call_go_esp, call_go_memory]
  exact p.memory.read32_stores (List.pairwise_cons.mp frame_apart).2 (by simp)

theorem tocSettle_eq (m : AddressSpace) (regs tos kickoff fail object : UInt32) :
    tocSettle m regs tos kickoff fail object =
      ((m.write32 (regs + ebpOffset) tos).stores (tos - 8)
        [(8, object), (4, fail), (0, kickoff)]).write32 (regs + espOffset) (tos - 8) := by
  have h8 : tos - 8 + 8 = tos := by grind
  have h4 : tos - 8 + 4 = tos - 4 := by grind
  have h0 : tos - 8 + 0 = tos - 4 - 4 := by grind
  have h : tos - 8 = tos - 4 - 4 := by grind
  simp only [AddressSpace.stores, List.foldl, h8, h4, h0]
  rw [h]
  rfl

theorem tocSettle_of_not_words (m : AddressSpace)
    {regs tos kickoff fail object a : UInt32}
    (hframe : ¬AddressSpace.Words (tos - 8) frame a)
    (htoc : ¬AddressSpace.Words regs places a) :
    tocSettle m regs tos kickoff fail object a = m a := by
  have hplace {x : UInt32} (hx : x ∈ places) : ¬AddressSpace.Covers (regs + x) a :=
    fun hcovers => htoc ⟨x, hx, hcovers⟩
  rw [tocSettle_eq, AddressSpace.write32_of_not_covers _ _ (hplace (by decide)),
    AddressSpace.stores_of_not_words _ hframe,
    AddressSpace.write32_of_not_covers _ _ (hplace (by decide))]

/-! ### What a thread goes on with -/

/-- The registers that a called function leaves as they are, and where it goes on. -/
def nonvolatile : List Reg := [.ebx, .esi, .edi, .ebp, .esp, .eip]

theorem loaded_congr {m m' : AddressSpace} {reg_then : UInt32}
    (hplaces : ∀ a, AddressSpace.Words reg_then places a → m' a = m a)
    (htop : ∀ a, AddressSpace.Covers (m.read32 (reg_then + espOffset)) a → m' a = m a)
    (regs regs' : Reg → UInt32) {r : Reg} (hr : r ∈ nonvolatile) :
    loaded m' reg_then regs' r = loaded m reg_then regs r := by
  have hread (x : UInt32) (hx : x ∈ places) :
      m'.read32 (reg_then + x) = m.read32 (reg_then + x) :=
    AddressSpace.read32_congr fun a ha => hplaces a ⟨x, hx, ha⟩
  have hesp := hread espOffset (by decide)
  simp only [nonvolatile, List.mem_cons, List.not_mem_nil, or_false] at hr
  rcases hr with rfl | rfl | rfl | rfl | rfl | rfl
  · exact hread ebxOffset (by decide)
  · exact hread esiOffset (by decide)
  · exact hread ediOffset (by decide)
  · exact hread ebpOffset (by decide)
  · exact congrArg (· + 4) hesp
  · exact (congrArg m'.read32 hesp).trans (AddressSpace.read32_congr htop)

def returned (regs : Reg → UInt32) (back : UInt32) : Reg → UInt32
  | .esp => regs .esp - 8
  | .eip => back
  | r => regs r

theorem loaded_saved_call (p : Processor) (now reg_then back : UInt32)
    (hapart : ∀ a, AddressSpace.Words (p.regs .esp - 12) frame a →
      ¬AddressSpace.Words now places a) (regs : Reg → UInt32) {r : Reg}
    (hr : r ∈ nonvolatile) :
    let q := p.call [now, reg_then] back
    loaded (saved q.memory now q.regs) now regs r = returned p.regs back r := by
  intro q
  have hregs (r : Reg) (hr : r ≠ .esp) : q.regs r = p.regs r :=
    call_switch_regs p now reg_then back hr
  have hesp : (saved q.memory now q.regs).read32 (now + espOffset) = p.regs .esp - 12 := by
    rw [read32_saved _ _ _ (x := espOffset) (w := q.regs .esp) (by simp)]
    exact call_switch_esp p now reg_then back
  simp only [nonvolatile, List.mem_cons, List.not_mem_nil, or_false] at hr
  rcases hr with rfl | rfl | rfl | rfl | rfl | rfl
  · exact (read32_saved _ _ _ (by simp)).trans (hregs .ebx (by decide))
  · exact (read32_saved _ _ _ (by simp)).trans (hregs .esi (by decide))
  · exact (read32_saved _ _ _ (by simp)).trans (hregs .edi (by decide))
  · exact (read32_saved _ _ _ (by simp)).trans (hregs .ebp (by decide))
  · simp only [loaded, hesp, returned]
    grind
  · calc (saved q.memory now q.regs).read32
          ((saved q.memory now q.regs).read32 (now + espOffset))
        = (saved q.memory now q.regs).read32 (p.regs .esp - 12 + 0) := by
          rw [hesp, UInt32.add_zero]
      _ = q.memory.read32 (p.regs .esp - 12 + 0) :=
          AddressSpace.read32_congr fun a ha =>
            saved_of_not_places _ _ (hapart a ⟨0, by decide, ha⟩)
      _ = back := by
          rw [call_switch_memory]
          exact p.memory.read32_stores frame_apart (by simp)

/-- What a settled thread starts with: the return address of `kickoff` is that of
`fail`, and its argument is the object. -/
theorem tocSettle_spec (m : AddressSpace) (regs tos kickoff fail object : UInt32)
    (hapart : ∀ a, AddressSpace.Words (tos - 8) frame a →
      ¬AddressSpace.Words regs places a) :
    let m' := tocSettle m regs tos kickoff fail object
    m'.read32 (regs + ebpOffset) = tos ∧ m'.read32 (regs + espOffset) = tos - 8 ∧
      m'.read32 (tos - 8) = kickoff ∧ m'.read32 (tos - 4) = fail ∧
        m'.read32 tos = object := by
  intro m'
  have hm' : m' = _ := tocSettle_eq m regs tos kickoff fail object
  have hframe {x w : UInt32} (hx : (x, w) ∈ [(8, object), (4, fail), (0, kickoff)]) :
      m'.read32 (tos - 8 + x) = w := by
    have hplace : x ∈ frame := List.mem_map_of_mem (f := Prod.fst) hx
    calc m'.read32 (tos - 8 + x)
        = ((m.write32 (regs + ebpOffset) tos).stores (tos - 8)
            [(8, object), (4, fail), (0, kickoff)]).read32 (tos - 8 + x) := by
          rw [hm']
          refine AddressSpace.read32_congr fun a ha => ?_
          refine AddressSpace.write32_of_not_covers _ _ fun htoc => ?_
          exact hapart a ⟨x, hplace, ha⟩ ⟨espOffset, by decide, htoc⟩
      _ = w := AddressSpace.read32_stores _ frame_apart hx
  have hebp : m'.read32 (regs + ebpOffset) = tos := by
    calc m'.read32 (regs + ebpOffset)
        = ((m.write32 (regs + ebpOffset) tos).stores (tos - 8)
            [(8, object), (4, fail), (0, kickoff)]).read32 (regs + ebpOffset) := by
          rw [hm']
          exact AddressSpace.read32_write32_of_apart _ (by decide) _ _
      _ = (m.write32 (regs + ebpOffset) tos).read32 (regs + ebpOffset) := by
          refine AddressSpace.read32_congr fun a ha => ?_
          refine AddressSpace.stores_of_not_words _ fun hword => ?_
          exact hapart a hword ⟨ebpOffset, by decide, ha⟩
      _ = tos := m.read32_write32 _ _
  have hesp : m'.read32 (regs + espOffset) = tos - 8 := by
    rw [hm', AddressSpace.read32_write32]
  have h0 : tos - 8 = tos - 8 + 0 := (UInt32.add_zero _).symm
  have h4 : tos - 4 = tos - 8 + 4 := by grind
  have h8 : tos = tos - 8 + 8 := by grind
  exact ⟨hebp, hesp, h0 ▸ hframe (by simp), h4 ▸ hframe (by simp),
    (congrArg _ h8).trans (hframe (by simp))⟩

end Toc

end X86Os32
