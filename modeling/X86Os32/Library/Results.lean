namespace X86Os32.Library

/-! Computations that may stop with an error. -/

namespace Results

theorem bind_eq_ok {computation : Except ε α} {next : α → Except ε β} {result : β} :
    (computation >>= next) = .ok result ↔
      ∃ value, computation = .ok value ∧ next value = .ok result := by
  cases computation with
  | error stop => simp [bind, Except.bind]
  | ok value => simp [bind, Except.bind]

theorem map_eq_ok {computation : Except ε α} {f : α → β} {result : β} :
    f <$> computation = .ok result ↔
      ∃ value, computation = .ok value ∧ f value = result := by
  cases computation with
  | error stop => simp [Functor.map, Except.map]
  | ok value => simp [Functor.map, Except.map]

theorem bind_eq_error {computation : Except ε α} {next : α → Except ε β} {stop : ε} :
    (computation >>= next) = .error stop ↔ computation = .error stop ∨
      ∃ value, computation = .ok value ∧ next value = .error stop := by
  cases computation with
  | error stop' => simp [bind, Except.bind]
  | ok value => simp [bind, Except.bind]

/-- A concrete computation follows an abstract one: it has the same result,
except where the abstract one stops for a reason the concrete one does not
know. -/
def Follows (excused : ε → Prop) (related : α → β → Prop)
    (concrete : Except ε α) : Except ε β → Prop
  | .ok b => ∃ a, concrete = .ok a ∧ related a b
  | .error stop => excused stop ∨ concrete = .error stop

theorem Follows.ok {excused : ε → Prop} {related : α → β → Prop}
    (hrelated : related a b) :
    Follows excused related (.ok a) (.ok b) :=
  ⟨a, rfl, hrelated⟩

theorem Follows.error {excused : ε → Prop} {related : α → β → Prop}
    (stop : ε) : Follows excused related (.error stop) (.error stop) :=
  Or.inr rfl

theorem Follows.bind {excused : ε → Prop} {related : α → β → Prop}
    {related' : α' → β' → Prop} {concrete : Except ε α}
    {abstract : Except ε β} {next : α → Except ε α'} {next' : β → Except ε β'}
    (hfollows : Follows excused related concrete abstract)
    (hnext : ∀ a b, related a b → Follows excused related' (next a) (next' b)) :
    Follows excused related' (concrete >>= next) (abstract >>= next') := by
  cases abstract with
  | ok b =>
      obtain ⟨a, rfl, hrelated⟩ := hfollows
      exact hnext a b hrelated
  | error stop =>
      rcases hfollows with hexcused | rfl
      · exact Or.inl hexcused
      · exact Or.inr rfl

theorem Follows.refl {excused : ε → Prop} (computation : Except ε α) :
    Follows excused (· = ·) computation computation := by
  cases computation with
  | ok a => exact .ok rfl
  | error stop => exact .error stop

/-- The computation succeeds as it should, or stops for one of the reasons. -/
def Outcome (fault : ε → Prop) (post : α → Prop) : Except ε α → Prop
  | .ok a => post a
  | .error stop => fault stop

theorem Outcome.bind {fault : ε → Prop} {post : α → Prop} {post' : β → Prop}
    {computation : Except ε α} {next : α → Except ε β}
    (hfirst : Outcome fault post computation)
    (hnext : ∀ a, post a → Outcome fault post' (next a)) :
    Outcome fault post' (computation >>= next) := by
  cases computation with
  | ok a => exact hnext a hfirst
  | error stop => exact hfirst

theorem Outcome.mono {fault : ε → Prop} {post post' : α → Prop}
    {computation : Except ε α} (houtcome : Outcome fault post computation)
    (himplies : ∀ a, post a → post' a) : Outcome fault post' computation := by
  cases computation with
  | ok a => exact himplies a houtcome
  | error stop => exact houtcome

theorem Outcome.any (computation : Except ε α) :
    Outcome (fun _ => True) (fun _ => True) computation := by
  cases computation <;> trivial

theorem Outcome.of_ok {fault : ε → Prop} {post : α → Prop}
    {computation : Except ε α} (hok : ∃ a, computation = .ok a ∧ post a) :
    Outcome fault post computation := by
  obtain ⟨a, rfl, hpost⟩ := hok
  exact hpost

theorem Follows.after {post : α → Prop} {related : α' → β → Prop}
    {concrete : Except ε α'} {computation : Except ε α}
    {next : α → Except ε β}
    (houtcome : Outcome (fun _ => True) post computation)
    (hnext : ∀ a, post a →
      Follows (fun _ => True) related concrete (next a)) :
    Follows (fun _ => True) related concrete (computation >>= next) := by
  cases computation with
  | ok a => exact hnext a houtcome
  | error stop => exact Or.inl trivial

end Results

end X86Os32.Library
