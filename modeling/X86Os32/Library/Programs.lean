namespace X86Os32.Library

/-! Programs that pass a state on and may stop with an error. -/

abbrev Program (σ ε : Type) : Type → Type := StateT σ (Except ε)

namespace Program

variable {σ ε α β : Type}

@[simp] theorem pure_apply (a : α) (s : σ) :
    (pure a : Program σ ε α) s = .ok (a, s) := rfl

@[simp] theorem bind_apply (program : Program σ ε α)
    (next : α → Program σ ε β) (s : σ) :
    (program >>= next) s =
      match program s with
      | .ok (a, s') => next a s'
      | .error stop => .error stop := by
  cases hrun : program s with
  | ok result =>
      change (program s >>= fun result => next result.1 result.2) = _
      rw [hrun]
      rfl
  | error stop =>
      change (program s >>= fun result => next result.1 result.2) = _
      rw [hrun]
      rfl

@[simp] theorem map_apply (f : α → β) (program : Program σ ε α) (s : σ) :
    (f <$> program) s =
      match program s with
      | .ok (a, s') => .ok (f a, s')
      | .error stop => .error stop :=
  bind_apply program (fun a => pure (f a)) s

@[simp] theorem get_apply (s : σ) : (get : Program σ ε σ) s = .ok (s, s) := rfl

@[simp] theorem modify_apply (f : σ → σ) (s : σ) :
    (modify f : Program σ ε PUnit) s = .ok (⟨⟩, f s) := rfl

@[simp] theorem lift_apply (computation : Except ε α) (s : σ) :
    (liftM computation : Program σ ε α) s =
      match computation with
      | .ok a => .ok (a, s)
      | .error stop => .error stop := by
  cases computation <;> rfl

theorem bind_eq_ok {program : Program σ ε α} {next : α → Program σ ε β}
    {s s'' : σ} {b : β} :
    (program >>= next) s = .ok (b, s'') ↔
      ∃ a s', program s = .ok (a, s') ∧ next a s' = .ok (b, s'') := by
  rw [bind_apply]
  cases program s with
  | ok result =>
      obtain ⟨a, s'⟩ := result
      constructor
      · exact fun hnext => ⟨a, s', rfl, hnext⟩
      · rintro ⟨a', s'', hfirst, hnext⟩
        obtain ⟨rfl, rfl⟩ := Prod.mk.inj (Except.ok.inj hfirst)
        exact hnext
  | error stop => simp

theorem lift_eq_ok {computation : Except ε α} {a : α} {s s' : σ} :
    (liftM computation : Program σ ε α) s = .ok (a, s') ↔
      computation = .ok a ∧ s = s' := by
  rw [lift_apply]
  cases computation <;> simp

def stops (program : Program σ ε α) (s : σ) : Option ε :=
  match program s with
  | .ok _ => none
  | .error stop => some stop

/-- The program comes to its end, with a result and a state that satisfy the
postcondition. -/
def Returns (program : Program σ ε α) (s : σ) (post : α → σ → Prop) : Prop :=
  ∃ a s', program s = .ok (a, s') ∧ post a s'

theorem Returns.pure {a : α} {s : σ} {post : α → σ → Prop} (hpost : post a s) :
    Returns (Pure.pure a : Program σ ε α) s post :=
  ⟨a, s, rfl, hpost⟩

theorem Returns.bind {program : Program σ ε α} {next : α → Program σ ε β}
    {s : σ} {post : α → σ → Prop} {post' : β → σ → Prop}
    (hfirst : Returns program s post)
    (hnext : ∀ a s', post a s' → Returns (next a) s' post') :
    Returns (program >>= next) s post' := by
  obtain ⟨a, s', hrun, hpost⟩ := hfirst
  obtain ⟨b, s'', hrun', hpost'⟩ := hnext a s' hpost
  refine ⟨b, s'', ?_, hpost'⟩
  rw [bind_apply, hrun]
  exact hrun'

theorem Returns.mono {program : Program σ ε α} {s : σ}
    {post post' : α → σ → Prop} (hreturns : Returns program s post)
    (himplies : ∀ a s', post a s' → post' a s') :
    Returns program s post' := by
  obtain ⟨a, s', hrun, hpost⟩ := hreturns
  exact ⟨a, s', hrun, himplies a s' hpost⟩

theorem Returns.step {program : Program σ ε α} {next : α → Program σ ε β}
    {s s' : σ} {a : α} {post : β → σ → Prop}
    (hrun : program s = .ok (a, s')) (hnext : Returns (next a) s' post) :
    Returns (program >>= next) s post := by
  obtain ⟨b, s'', hrun', hpost⟩ := hnext
  refine ⟨b, s'', ?_, hpost⟩
  rw [bind_apply, hrun]
  exact hrun'

/-- If the program comes to its end, then as the postcondition says. -/
def Ensures (program : Program σ ε α) (s : σ) (post : α → σ → Prop) : Prop :=
  match program s with
  | .ok (a, s') => post a s'
  | .error _ => True

theorem Ensures.pure {a : α} {s : σ} {post : α → σ → Prop} (hpost : post a s) :
    Ensures (Pure.pure a : Program σ ε α) s post := hpost

theorem Ensures.throw {error : ε} {s : σ} {post : α → σ → Prop} :
    Ensures (MonadExcept.throw error : Program σ ε α) s post := trivial

theorem Ensures.bind {program : Program σ ε α} {next : α → Program σ ε β}
    {s : σ} {post : α → σ → Prop} {post' : β → σ → Prop}
    (hfirst : Ensures program s post)
    (hnext : ∀ a s', post a s' → Ensures (next a) s' post') :
    Ensures (program >>= next) s post' := by
  unfold Ensures at hfirst ⊢
  rw [bind_apply]
  cases hrun : program s with
  | error stop => trivial
  | ok result =>
      rw [hrun] at hfirst
      exact hnext result.1 result.2 hfirst

theorem Ensures.mono {program : Program σ ε α} {s : σ}
    {post post' : α → σ → Prop} (hensures : Ensures program s post)
    (himplies : ∀ a s', post a s' → post' a s') :
    Ensures program s post' := by
  unfold Ensures at hensures ⊢
  cases hrun : program s with
  | error stop => trivial
  | ok result =>
      rw [hrun] at hensures
      exact himplies result.1 result.2 hensures

theorem Ensures.always {program : Program σ ε α} {s : σ}
    {post : α → σ → Prop} (hpost : ∀ a s', post a s') :
    Ensures program s post := by
  unfold Ensures
  split
  · exact hpost _ _
  · trivial

theorem Ensures.and {program : Program σ ε α} {s : σ}
    {post post' : α → σ → Prop} (hensures : Ensures program s post)
    (hensures' : Ensures program s post') :
    Ensures program s fun a s' => post a s' ∧ post' a s' := by
  unfold Ensures at hensures hensures' ⊢
  split
  · next hrun =>
      rw [hrun] at hensures hensures'
      exact ⟨hensures, hensures'⟩
  · trivial

theorem Ensures.of_runs {program : Program σ ε α} {s : σ} {post : α → σ → Prop}
    (hpost : ∀ a s', program s = .ok (a, s') → post a s') :
    Ensures program s post := by
  unfold Ensures
  split
  · next hrun => exact hpost _ _ hrun
  · trivial

theorem Ensures.outcome (program : Program σ ε α) (s : σ) :
    Ensures program s fun a s' => program s = .ok (a, s') :=
  .of_runs fun _ _ hrun => hrun

theorem ensures_of_ok {program : Program σ ε α} {s s' : σ} {a : α}
    {post : α → σ → Prop} (hrun : program s = .ok (a, s')) :
    Ensures program s post ↔ post a s' := by
  unfold Ensures
  rw [hrun]

theorem Ensures.step {program : Program σ ε α} {next : α → Program σ ε β}
    {s s' : σ} {a : α} {post : β → σ → Prop}
    (hrun : program s = .ok (a, s')) (hnext : Ensures (next a) s' post) :
    Ensures (program >>= next) s post := by
  unfold Ensures
  rw [bind_apply, hrun]
  exact hnext

theorem Ensures.after {program : Program σ ε α} {next : α → Program σ ε β}
    {s : σ} {post : β → σ → Prop}
    (hnext : ∀ a s', Ensures (next a) s' post) :
    Ensures (program >>= next) s post := by
  have hfirst : Ensures program s fun _ _ => True :=
    .always fun _ _ => trivial
  exact hfirst.bind fun a s' _ => hnext a s'

theorem Returns.and {program : Program σ ε α} {s : σ}
    {post post' : α → σ → Prop} (hreturns : Returns program s post)
    (hensures : Ensures program s post') :
    Returns program s fun a s' => post a s' ∧ post' a s' := by
  obtain ⟨a, s', hrun, hpost⟩ := hreturns
  unfold Ensures at hensures
  rw [hrun] at hensures
  exact ⟨a, s', hrun, hpost, hensures⟩

theorem Returns.ensures {program : Program σ ε α} {s : σ}
    {post : α → σ → Prop} (hreturns : Returns program s post) :
    Ensures program s post := by
  obtain ⟨a, s', hrun, hpost⟩ := hreturns
  unfold Ensures
  rw [hrun]
  exact hpost

/-! ### Relations between the state before and the state after -/

/-- If the program comes to its end, then in a state that is related to the one
it began in. -/
def Relates (relation : σ → σ → Prop) (program : Program σ ε α) : Prop :=
  ∀ s, Ensures program s fun _ s' => relation s s'

section Relates

variable {relation : σ → σ → Prop}

theorem Relates.pure (hrefl : ∀ s, relation s s) (a : α) :
    Relates relation (Pure.pure a : Program σ ε α) :=
  fun s => Ensures.pure (hrefl s)

theorem Relates.bind
    (htrans : ∀ s s' s'', relation s s' → relation s' s'' → relation s s'')
    {program : Program σ ε α} {next : α → Program σ ε β}
    (hprogram : Relates relation program)
    (hnext : ∀ a, Relates relation (next a)) :
    Relates relation (program >>= next) := by
  intro s
  refine (hprogram s).bind fun a s' hfirst => ?_
  exact (hnext a s').mono fun _ s'' hsecond => htrans s s' s'' hfirst hsecond

theorem Relates.lift (hrefl : ∀ s, relation s s) (computation : Except ε α) :
    Relates relation (liftM computation : Program σ ε α) := by
  intro s
  unfold Ensures
  rw [lift_apply]
  cases computation with
  | ok a => exact hrefl s
  | error stop => trivial

theorem Relates.bind_lift {computation : Except ε α} {next : α → Program σ ε β}
    (hnext : ∀ a, computation = .ok a → Relates relation (next a)) :
    Relates relation (liftM computation >>= next) := by
  intro s
  unfold Ensures
  rw [bind_apply, lift_apply]
  cases hresult : computation with
  | ok a => exact hnext a hresult s
  | error stop => trivial

theorem Relates.get (hrefl : ∀ s, relation s s) :
    Relates relation (MonadState.get : Program σ ε σ) :=
  fun s => hrefl s

theorem Relates.modify {f : σ → σ} (hf : ∀ s, relation s (f s)) :
    Relates relation (modify f : Program σ ε PUnit) :=
  fun s => hf s

theorem Relates.ite {condition : Prop} [Decidable condition]
    {program program' : Program σ ε α} (hprogram : Relates relation program)
    (hprogram' : Relates relation program') :
    Relates relation (if condition then program else program') := by
  split
  · exact hprogram
  · exact hprogram'

end Relates

/-! ### Programs that agree unless one of them stops -/

/-- Both programs have the same outcome, unless the first stops in this way. -/
def AgreesUnless (stop : ε) (program program' : Program σ ε α) : Prop :=
  ∀ s, program.stops s = some stop ∨ program s = program' s

section AgreesUnless

variable {stop : ε}

theorem AgreesUnless.refl (program : Program σ ε α) :
    AgreesUnless stop program program :=
  fun _ => .inr rfl

theorem AgreesUnless.bind {program program' : Program σ ε α}
    {next next' : α → Program σ ε β}
    (hprogram : AgreesUnless stop program program')
    (hnext : ∀ a, AgreesUnless stop (next a) (next' a)) :
    AgreesUnless stop (program >>= next) (program' >>= next') := by
  intro s
  unfold stops
  rw [bind_apply, bind_apply]
  rcases hprogram s with hstop | hsame
  · unfold stops at hstop
    cases hrun : program s with
    | ok result => simp [hrun] at hstop
    | error stop' =>
        rw [hrun] at hstop
        exact .inl hstop
  · rw [← hsame]
    cases program s with
    | ok result => exact hnext result.1 result.2
    | error stop' => exact .inr rfl

theorem AgreesUnless.ite {condition : Prop} [Decidable condition]
    {program program' other other' : Program σ ε α}
    (hprogram : AgreesUnless stop program program')
    (hother : AgreesUnless stop other other') :
    AgreesUnless stop (if condition then program else other)
      (if condition then program' else other') := by
  split
  · exact hprogram
  · exact hother

end AgreesUnless

theorem mapM_of_forall {f : α → Program σ ε β} {g : α → β} {s : σ} :
    ∀ {list : List α}, (∀ a ∈ list, f a s = .ok (g a, s)) →
      list.mapM f s = .ok (list.map g, s)
  | [], _ => rfl
  | a :: list, hf => by
      have hfirst := hf a List.mem_cons_self
      have hrest := mapM_of_forall fun a' hmem => hf a' (List.mem_cons_of_mem a hmem)
      simp [List.mapM_cons, hfirst, hrest]

end Program

end X86Os32.Library
