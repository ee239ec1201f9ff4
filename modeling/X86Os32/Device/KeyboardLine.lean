import X86Os32.Machine.KeyboardController

namespace X86Os32

open Library

/-! The way of the keys from the controller to the threads: `machine/keyctrl.cc`
together with the prologue, the epilogue and `getkey` of `device/keyboard.cc`. -/

namespace Keyboard

variable {τ : Type} {s s' : Keyboard τ} {prekeys keys : List Key} {k : Key} {t : τ}

def underway (s : Keyboard τ) : Nat :=
  s.buf.size + s.epilogue.key.length + s.prebuf.size + s.prologue.key.length

def Complete (s : Keyboard τ) : Prop :=
  s.returned.length + s.underway = s.pressed.length

/-- Neither buffer is full when a key is put into it. -/
def Roomy (s : Keyboard τ) : KeyboardEvent τ → Prop
  | .press _ => ¬s.prebuf.Full
  | .deliver => ¬s.buf.Full
  | _ => True

instance (s : Keyboard τ) (event : KeyboardEvent τ) : Decidable (s.Roomy event) :=
  match event with
  | .press _ => inferInstanceAs (Decidable (¬s.prebuf.Full))
  | .deliver => inferInstanceAs (Decidable (¬s.buf.Full))
  | .store | .publish | .relayed | .look | .take | .release | .getkey _
  | .resumed _ => inferInstanceAs (Decidable True)

theorem Roomy.hasRoom {event : KeyboardEvent τ} (hroomy : s.Roomy event) :
    s.HasRoom event := by
  rintro rfl
  exact hroomy

theorem Initial.complete (hinitial : Initial s) : s.Complete := by
  have hagrees := hinitial.agrees
  obtain ⟨prebuf, buf, -, -, rfl⟩ := hinitial
  unfold Complete underway
  rw [hagrees.buf.size_eq, hagrees.prebuf.size_eq]
  rfl

theorem Complete.press (hcomplete : s.Complete) (houtside : s.prologue = .outside)
    (hroom : ¬s.prebuf.Full) : (s.press k).Complete := by
  unfold Keyboard.press Complete underway
  dsimp only
  rw [if_neg hroom]
  unfold Complete underway at hcomplete
  rw [houtside] at hcomplete
  simp only [Prologue.key, List.length_nil, List.length_append, List.length_cons] at *
  omega

theorem Complete.publish {nextin : Nat} (hcomplete : s.Complete)
    (hagrees : Agrees s prekeys keys) (hstored : s.prologue = .stored k nextin) :
    Complete { s with prebuf := s.prebuf.publish nextin, prologue := .outside } := by
  have hsize := (hagrees.publish hstored).prebuf.size_eq
  unfold Complete underway at *
  rw [hagrees.prebuf.size_eq, hstored] at hcomplete
  dsimp only at hsize ⊢
  rw [hsize]
  simp only [Prologue.key, List.length_nil, List.length_append, List.length_cons] at *
  omega

theorem Complete.release (hcomplete : s.Complete) (hagrees : Agrees s prekeys keys)
    (hread : s.epilogue = .read k) :
    Complete { s with prebuf := s.prebuf.release, epilogue := .holding k } := by
  obtain ⟨rest, rfl⟩ := List.head?_eq_some_iff.mp (hagrees.read k hread)
  have hsize := hagrees.prebuf.release.size_eq
  unfold Complete underway at *
  rw [hagrees.prebuf.size_eq, hread] at hcomplete
  dsimp only
  rw [hsize]
  simp only [Epilogue.key, List.length_nil, List.length_cons] at *
  omega

theorem Complete.deliver (hcomplete : s.Complete) (hagrees : Agrees s prekeys keys)
    (hholding : s.epilogue = .holding k) (hroom : ¬s.buf.Full) :
    (s.deliver k).Complete := by
  have hsize := (hagrees.deliver hholding hroom).buf.size_eq
  unfold Complete underway at *
  rw [hagrees.buf.size_eq, hholding] at hcomplete
  rw [hsize]
  change s.returned.length + _ = s.pressed.length
  simp only [Keyboard.deliver, Epilogue.key, List.length_nil, List.length_append,
    List.length_cons] at *
  omega

theorem Complete.finish (hcomplete : s.Complete) (hagrees : Agrees s prekeys keys)
    (hkeys : keys ≠ []) (granted : List τ) (sem : CountingSemaphore τ) :
    Complete { s with sem, granted }.finish := by
  obtain ⟨k, rest, rfl⟩ := List.exists_cons_of_ne_nil hkeys
  obtain ⟨buf, hconsume, hbuf⟩ := hagrees.buf.consume
  unfold Complete underway at *
  rw [hagrees.buf.size_eq] at hcomplete
  unfold Keyboard.finish
  dsimp only
  rw [hconsume, hbuf.size_eq]
  simp only [List.length_append, List.length_cons, List.length_nil] at *
  omega

theorem Complete.step [DecidableEq τ] {event : KeyboardEvent τ}
    (hcomplete : s.Complete) (hagrees : Agrees s prekeys keys)
    (hroomy : s.Roomy event) (hstep : s.step event = some s') : s'.Complete := by
  have htokens := hagrees.tokens
  have hnonneg := hagrees.nonneg
  cases event with
  | press k =>
      obtain ⟨⟨houtside, -⟩, hstep⟩ := Option.ite_none_right_eq_some.mp hstep
      obtain rfl := Option.some.inj hstep
      exact hcomplete.press houtside hroomy
  | store =>
      simp only [Keyboard.step] at hstep
      split at hstep
      · next hchecked =>
        obtain rfl := Option.some.inj hstep
        unfold Complete underway at *
        rw [hchecked] at hcomplete
        exact hcomplete
      · cases hstep
  | publish =>
      simp only [Keyboard.step] at hstep
      split at hstep
      · next hstored =>
        obtain rfl := Option.some.inj hstep
        exact hcomplete.publish hagrees hstored
      · cases hstep
  | relayed =>
      obtain ⟨houtside, hstep⟩ := Option.ite_none_right_eq_some.mp hstep
      obtain rfl := Option.some.inj hstep
      unfold Complete underway at *
      rw [houtside] at hcomplete
      exact hcomplete
  | look =>
      obtain ⟨hlooping, hstep⟩ := Option.ite_none_right_eq_some.mp hstep
      unfold Complete underway at *
      rw [hlooping] at hcomplete
      split at hstep
      · obtain rfl := Option.some.inj hstep
        exact hcomplete
      · obtain rfl := Option.some.inj hstep
        exact hcomplete
  | take =>
      obtain ⟨hfound, hstep⟩ := Option.ite_none_right_eq_some.mp hstep
      obtain rfl := Option.some.inj hstep
      unfold Complete underway at *
      rw [hfound] at hcomplete
      exact hcomplete
  | release =>
      simp only [Keyboard.step] at hstep
      split at hstep
      · next hread =>
        obtain rfl := Option.some.inj hstep
        exact hcomplete.release hagrees hread
      · cases hstep
  | deliver =>
      simp only [Keyboard.step] at hstep
      split at hstep
      · next hholding =>
        obtain rfl := Option.some.inj hstep
        exact hcomplete.deliver hagrees hholding hroomy
      · cases hstep
  | getkey t =>
      obtain ⟨-, hstep⟩ := Option.ite_none_right_eq_some.mp hstep
      obtain rfl := Option.some.inj hstep
      unfold Keyboard.getkey
      by_cases hopen : s.sem.counter > 0
      · simp only [hopen, if_true]
        refine hcomplete.finish hagrees ?_ s.granted (s.sem.p t)
        rintro rfl
        rw [List.length_nil] at htokens
        omega
      · simp only [hopen, if_false]
        exact hcomplete
  | resumed t =>
      obtain ⟨⟨-, hmem⟩, hstep⟩ := Option.ite_none_right_eq_some.mp hstep
      obtain rfl := Option.some.inj hstep
      have hpos := List.length_pos_of_mem hmem
      refine hcomplete.finish hagrees ?_ (s.granted.erase t) s.sem
      rintro rfl
      rw [List.length_nil] at htokens
      omega

theorem Agrees.eq_pressed (hagrees : Agrees s prekeys keys) (hcomplete : s.Complete) :
    s.returned ++ keys ++ s.epilogue.key ++ prekeys ++ s.prologue.key = s.pressed := by
  refine hagrees.order.eq_of_length ?_
  unfold Complete underway at hcomplete
  rw [hagrees.buf.size_eq, hagrees.prebuf.size_eq] at hcomplete
  simp only [List.length_append]
  omega

end Keyboard

theorem KeyDecoder.valid_of_hits {tables : KeyTables} {d : KeyDecoder}
    {codes : List UInt8} {k : Key} (hk : k ∈ d.hits tables codes) :
    k.valid = true := by
  induction codes generalizing d with
  | nil => cases hk
  | cons code rest ih =>
      rcases List.mem_append.mp hk with hfirst | hrest
      · split at hfirst
        · next hvalid => rwa [List.mem_singleton.mp hfirst]
        · cases hfirst
      · exact ih hrest

/-- The controller with the part of the prologue that asks it, and the buffers with the
epilogue and the threads. -/
structure KeyboardLine (τ : Type) where
  controller : KeyboardController
  keyboard : Keyboard τ

inductive KeyboardLineEvent (τ : Type)
  | controller (event : KeyboardControllerEvent)
  | produce
  | keyboard (event : KeyboardEvent τ)

def KeyboardControllerEvent.ofPrologue : KeyboardControllerEvent → Bool
  | .interrupt | .look | .read | .switched => true
  | _ => false

namespace KeyboardLine

variable {τ : Type} [DecidableEq τ] (tables : KeyTables)

/-- While `prebuf.produce` is under way, the prologue does not ask for the next key. -/
def step (s : KeyboardLine τ) : KeyboardLineEvent τ → Option (KeyboardLine τ)
  | .controller event =>
      if event = .produce ∨ event.ofPrologue ∧ s.keyboard.prologue ≠ .outside then none
      else (s.controller.step tables event).map fun controller => { s with controller }
  | .produce =>
      match s.controller.hitting with
      | .found k => (s.keyboard.step (.press k)).map fun keyboard =>
          ⟨s.controller.produce, keyboard⟩
      | _ => none
  | .keyboard (.press _) => none
  | .keyboard event => (s.keyboard.step event).map fun keyboard => { s with keyboard }

def Initial (s : KeyboardLine τ) : Prop :=
  s.controller = .constructed ∧ Keyboard.Initial s.keyboard

def Roomy (s : KeyboardLine τ) : KeyboardLineEvent τ → Prop
  | .controller _ => True
  | .produce => ¬s.keyboard.prebuf.Full
  | .keyboard event => s.keyboard.Roomy event

instance (s : KeyboardLine τ) (event : KeyboardLineEvent τ) : Decidable (s.Roomy event) :=
  match event with
  | .controller _ => inferInstanceAs (Decidable True)
  | .produce => inferInstanceAs (Decidable (¬s.keyboard.prebuf.Full))
  | .keyboard event => inferInstanceAs (Decidable (s.keyboard.Roomy event))

def ReachableRoomy : KeyboardLine τ → Prop :=
  Runs.Reachable Initial fun s event s' =>
    s.Roomy event ∧ s.step tables event = some s'

variable {tables} {s s' : KeyboardLine τ} {event : KeyboardLineEvent τ}

omit [DecidableEq τ] in
/-- What `prologue` passes on is what it was given. -/
structure Connected (tables : KeyTables) (s : KeyboardLine τ) : Prop where
  follows : s.controller.Follows tables
  agrees : ∃ prekeys keys, Keyboard.Agrees s.keyboard prekeys keys
  complete : s.keyboard.Complete
  pressed : s.keyboard.pressed = s.controller.keys

omit [DecidableEq τ] in
theorem Initial.connected (hinitial : Initial s) : Connected tables s := by
  obtain ⟨hcontroller, hkeyboard⟩ := hinitial
  have hpressed : s.keyboard.pressed = [] := by
    obtain ⟨prebuf, buf, -, -, heq⟩ := hkeyboard
    rw [heq]
  refine ⟨?_, ⟨[], [], hkeyboard.agrees⟩, hkeyboard.complete, ?_⟩
  · rw [hcontroller]
    exact KeyboardController.follows_constructed
  · rw [hpressed, hcontroller]
    rfl

theorem pressed_of_step {s s' : Keyboard τ} {event : KeyboardEvent τ}
    (hevent : ∀ k, event ≠ .press k) (hstep : s.step event = some s') :
    s'.pressed = s.pressed := by
  cases event with
  | press k => exact absurd rfl (hevent k)
  | store | publish | release | deliver =>
      simp only [Keyboard.step] at hstep
      split at hstep
      · obtain rfl := Option.some.inj hstep
        rfl
      · cases hstep
  | relayed | take | resumed t =>
      obtain ⟨-, hstep⟩ := Option.ite_none_right_eq_some.mp hstep
      obtain rfl := Option.some.inj hstep
      rfl
  | look =>
      obtain ⟨-, hstep⟩ := Option.ite_none_right_eq_some.mp hstep
      split at hstep <;> obtain rfl := Option.some.inj hstep <;> rfl
  | getkey t =>
      obtain ⟨-, hstep⟩ := Option.ite_none_right_eq_some.mp hstep
      obtain rfl := Option.some.inj hstep
      unfold Keyboard.getkey
      dsimp only
      split <;> rfl

theorem keys_of_step {s s' : KeyboardController} {event : KeyboardControllerEvent}
    (hevent : event ≠ .produce) (hstep : s.step tables event = some s') :
    s'.keys = s.keys := by
  obtain ⟨henabled, rfl⟩ := KeyboardController.step_eq_some.mp hstep
  cases event with
  | read =>
      obtain ⟨hreading, hwaiting⟩ := henabled
      obtain ⟨byte, waiting, hcons⟩ := List.exists_cons_of_ne_nil hwaiting
      change (s.read tables).keys = s.keys
      rcases hreading with hreading | hreading
      · rw [KeyboardController.read_mouse hcons hreading]
      · rw [KeyboardController.read_code hcons hreading]
        exact (KeyboardController.decode_spares tables
          { s with waiting, handled := s.handled ++ [byte] } byte.code).keys
  | produce => exact absurd rfl hevent
  | _ => rfl

theorem Connected.step (hconnected : Connected tables s) (hroomy : s.Roomy event)
    (hstep : s.step tables event = some s') : Connected tables s' := by
  obtain ⟨prekeys, keys, hagrees⟩ := hconnected.agrees
  cases event with
  | controller event =>
      obtain ⟨hallowed, hstep⟩ := Option.ite_none_left_eq_some.mp hstep
      obtain ⟨controller, hcontroller, rfl⟩ := Option.map_eq_some_iff.mp hstep
      refine { hconnected with
        follows := hconnected.follows.step hcontroller, pressed := ?_ }
      rw [hconnected.pressed, keys_of_step (fun heq => hallowed (.inl heq)) hcontroller]
  | produce =>
      simp only [KeyboardLine.step] at hstep
      split at hstep
      · next k hfound =>
        obtain ⟨keyboard, hkeyboard, rfl⟩ := Option.map_eq_some_iff.mp hstep
        have hkey : s.controller.hitting.key ≠ [] := by
          rw [hfound]
          nofun
        have hroomy' : s.keyboard.Roomy (.press k) := hroomy
        refine ⟨hconnected.follows.produce hkey, hagrees.step hroomy'.hasRoom hkeyboard,
          hconnected.complete.step hagrees hroomy' hkeyboard, ?_⟩
        obtain ⟨-, hpress⟩ := Option.ite_none_right_eq_some.mp hkeyboard
        obtain rfl := Option.some.inj hpress
        have hpressed : (s.keyboard.press k).pressed = s.keyboard.pressed ++ [k] := by
          unfold Keyboard.press
          dsimp only
          split <;> rfl
        have hkeys : s.controller.produce.keys = s.controller.keys ++ [k] := by
          unfold KeyboardController.produce
          rw [hfound]
        rw [hpressed, hkeys, hconnected.pressed]
      · cases hstep
  | keyboard event =>
      have hpress : ∀ k, event ≠ .press k := by
        rintro k rfl
        cases hstep
      obtain ⟨keyboard, hkeyboard, rfl⟩ :
          ∃ keyboard, s.keyboard.step event = some keyboard ∧
            { s with keyboard } = s' := by
        cases event <;> first
          | exact absurd rfl (hpress _)
          | exact Option.map_eq_some_iff.mp hstep
      have hroomy' : s.keyboard.Roomy event := hroomy
      refine ⟨hconnected.follows, hagrees.step hroomy'.hasRoom hkeyboard,
        hconnected.complete.step hagrees hroomy' hkeyboard, ?_⟩
      rw [pressed_of_step hpress hkeyboard, hconnected.pressed]

/-- In runs in which neither buffer overflows, `getkey` returns the keys of the codes
that were typed, all of them and in their order, whatever the interrupts, the threads
and the mouse do; the others are still on their way. There is a token for each key that
a thread can have, and a key that `key_hit` returns can be passed on. -/
theorem typed_keys_arrive (hreach : ReachableRoomy tables s) :
    (∃ queued, s.keyboard.returned ++ queued =
        (KeyDecoder.constructed fun _ => false).hits tables
          (codesOf s.controller.handled) ∧
      queued.length = s.keyboard.underway + s.controller.hitting.key.length) ∧
    s.keyboard.sem.counter + s.keyboard.granted.length = s.keyboard.buf.size ∧
    (s.keyboard.prologue = .outside → s.controller.hitting.key ≠ [] →
      (s.step tables .produce).isSome) := by
  have hconnected : Connected tables s :=
    Runs.Reachable.invariant hreach (fun _ hinitial => hinitial.connected)
      fun _ _ _ hconnected hstep => hconnected.step hstep.1 hstep.2
  obtain ⟨prekeys, keys, hagrees⟩ := hconnected.agrees
  have hkeys := hconnected.follows.keys
  rw [← hconnected.pressed, ← hagrees.eq_pressed hconnected.complete] at hkeys
  refine ⟨⟨keys ++ s.keyboard.epilogue.key ++ prekeys ++ s.keyboard.prologue.key ++
    s.controller.hitting.key, ?_, ?_⟩, ?_, ?_⟩
  · rw [← hkeys]
    simp only [List.append_assoc]
  · unfold Keyboard.underway
    rw [hagrees.buf.size_eq, hagrees.prebuf.size_eq]
    simp only [List.length_append]
  · rw [hagrees.buf.size_eq]
    exact hagrees.tokens
  · intro houtside hfound
    cases hhitting : s.controller.hitting with
    | found k =>
        have hmem : k ∈ (KeyDecoder.constructed fun _ => false).hits tables
            (codesOf s.controller.handled) := by
          rw [← hconnected.follows.keys, hhitting]
          exact List.mem_append_right _ (List.mem_singleton_self k)
        have hvalid := KeyDecoder.valid_of_hits hmem
        simp [KeyboardLine.step, Keyboard.step, hhitting, houtside, hvalid]
    | _ => exact absurd (congrArg Hitting.key hhitting) hfound

/-- Shift, `a` and `b` are pressed, and one key is read. -/
theorem typed_keys_arrive_shift : ∃ s : KeyboardLine Nat,
    codesOf s.controller.handled = [42, 30, 48] ∧
      s.keyboard.returned = [⟨'A'.toUInt8, 30, 1⟩] ∧
      ∃ queued, s.keyboard.returned ++ queued =
        [⟨'A'.toUInt8, 30, 1⟩, ⟨'B'.toUInt8, 48, 1⟩] := by
  obtain ⟨s, hrun, hcodes, hreturned⟩ :
      ∃ s, Runs.run (fun s event =>
          if s.Roomy event then
            KeyboardLine.step KeyboardController.noTables s event else none)
          ⟨.constructed, Keyboard.sampleKeyboard⟩
          (KeyboardController.booting.map .controller ++
            [.controller (.arrive ⟨42, false⟩), .controller (.arrive ⟨30, false⟩),
              .controller .interrupt, .controller .look, .controller .read,
              .controller .look, .controller .read, .produce, .keyboard .store,
              .keyboard .publish, .controller .look, .controller (.arrive ⟨48, false⟩),
              .keyboard .relayed, .keyboard .look, .keyboard .take,
              .controller .interrupt, .controller .look, .controller .read, .produce,
              .keyboard .release, .keyboard .deliver, .keyboard .look,
              .keyboard (.getkey 1)]) = some s ∧
        codesOf s.controller.handled = [42, 30, 48] ∧
        s.keyboard.returned = [⟨'A'.toUInt8, 30, 1⟩] :=
    ⟨_, rfl, rfl, rfl⟩
  have hreach : ReachableRoomy KeyboardController.noTables s :=
    Runs.Reachable.run_allowed ⟨rfl, Keyboard.sampleKeyboard_initial⟩ hrun
  obtain ⟨⟨queued, hqueued, -⟩, -⟩ := typed_keys_arrive hreach
  refine ⟨s, hcodes, hreturned, queued, ?_⟩
  rw [hqueued, hcodes]
  decide

end KeyboardLine

end X86Os32
