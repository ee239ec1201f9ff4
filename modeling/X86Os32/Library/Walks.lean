import Mathlib.Data.Fintype.Card

namespace X86Os32.Library

/-! Walks along records in memory: every record tells where the next one begins,
unless it is of a kind that nobody knows. -/

namespace Walks

variable {π σ ε : Type} (finished : π → Prop) (next : π → Option π)

/-- The records from a place on, up to the place where the walk is finished. -/
inductive Walk : π → List π → π → Prop
  | finish {p : π} (hfinished : finished p) : Walk p [] p
  | record {p q last : π} {ps : List π} (hopen : ¬finished p)
      (hnext : next p = some q) (hrest : Walk q ps last) : Walk p (p :: ps) last

inductive Reached (start : π) : π → Prop
  | start : Reached start start
  | next {p q : π} (hreached : Reached start p) (hopen : ¬finished p)
      (hnext : next p = some q) : Reached start q

/-- `while (!finished(p)) { visit(p); p = next(p); }`, in which a record that leads
nowhere is visited again and again.  After `fuel` rounds the loop is `endless`. -/
def walk [DecidablePred finished] (visit : σ → π → Except ε σ) (endless : ε) :
    Nat → σ → π → Except ε (σ × π)
  | 0, _, _ => .error endless
  | fuel + 1, s, p =>
      if finished p then .ok (s, p)
      else do
        let s ← visit s p
        walk visit endless fuel s ((next p).getD p)

variable {finished next} {p q last last' : π} {ps ps' : List π}

theorem Walk.unique (hwalk : Walk finished next p ps last)
    (hother : Walk finished next p ps' last') : ps = ps' ∧ last = last' := by
  induction hwalk generalizing ps' with
  | finish hfinished =>
      cases hother with
      | finish => exact ⟨rfl, rfl⟩
      | record hopen => exact absurd hfinished hopen
  | record hopen hnext _ ih =>
      cases hother with
      | finish hfinished => exact absurd hfinished hopen
      | record _ hnext' hrest' =>
          obtain rfl := Option.some.inj (hnext.symm.trans hnext')
          obtain ⟨rfl, hlast⟩ := ih hrest'
          exact ⟨rfl, hlast⟩

theorem Walk.from_mem (hwalk : Walk finished next p ps last) (hmem : q ∈ ps) :
    ∃ rest, Walk finished next q rest last ∧ rest.length ≤ ps.length := by
  induction hwalk with
  | finish => cases hmem
  | record hopen hnext hrest ih =>
      cases hmem with
      | head => exact ⟨_, .record hopen hnext hrest, Nat.le_refl _⟩
      | tail _ hmem =>
          obtain ⟨rest, hwalk, hle⟩ := ih hmem
          exact ⟨rest, hwalk, hle.trans (Nat.le_succ _)⟩

theorem Walk.nodup (hwalk : Walk finished next p ps last) : ps.Nodup := by
  induction hwalk with
  | finish => exact List.nodup_nil
  | record hopen hnext hrest ih =>
      refine List.nodup_cons.mpr ⟨fun hmem => ?_, ih⟩
      obtain ⟨rest, hagain, hle⟩ := hrest.from_mem hmem
      obtain ⟨rfl, -⟩ := hagain.unique (.record hopen hnext hrest)
      exact absurd hle (Nat.not_succ_le_self _)

theorem Walk.length_le_places (hwalk : Walk finished next p ps last) {places : Nat}
    {number : π → Fin places} (hinjective : Function.Injective number) :
    ps.length ≤ places := by
  have hle := (hwalk.nodup.map hinjective).length_le_card
  rwa [List.length_map, Fintype.card_fin] at hle

/-- Where every record leads further on, the way that is left bounds the walk. -/
theorem Walk.length_le (hwalk : Walk finished next p ps last) (left : π → Nat)
    (hless : ∀ p q, ¬finished p → next p = some q → left q < left p) :
    ps.length ≤ left p := by
  induction hwalk with
  | finish => exact Nat.zero_le _
  | record hopen hnext _ ih => exact ih.trans_lt (hless _ _ hopen hnext)

theorem Walk.from_reached (hwalk : Walk finished next p ps last)
    (hreached : Reached finished next p q) :
    ∃ rest, Walk finished next q rest last := by
  induction hreached with
  | start => exact ⟨ps, hwalk⟩
  | next _ hopen hnext ih =>
      obtain ⟨rest, hrest⟩ := ih
      cases hrest with
      | finish hfinished => exact absurd hfinished hopen
      | record _ hnext' hrest' =>
          obtain rfl := Option.some.inj (hnext.symm.trans hnext')
          exact ⟨_, hrest'⟩

theorem Reached.behind (hopen : ¬finished p) (hnext : next p = some q)
    (hreached : Reached finished next q r) : Reached finished next p r := by
  induction hreached with
  | start => exact .next .start hopen hnext
  | next _ hopen' hnext' ih => exact .next ih hopen' hnext'

theorem Walk.reached_last (hwalk : Walk finished next p ps last) :
    Reached finished next p last := by
  induction hwalk with
  | finish => exact .start
  | record hopen hnext _ ih => exact ih.behind hopen hnext

/-- The walk ends exactly if all records that it comes to lead further on. -/
theorem ends_iff (left : π → Nat)
    (hless : ∀ p q, ¬finished p → next p = some q → left q < left p) :
    (∃ ps last, Walk finished next p ps last) ↔
      ∀ q, Reached finished next p q → ¬finished q → next q ≠ none := by
  constructor
  · rintro ⟨ps, last, hwalk⟩ q hreached hopen
    obtain ⟨rest, hrest⟩ := hwalk.from_reached hreached
    cases hrest with
    | finish hfinished => exact absurd hfinished hopen
    | record _ hnext _ => simp [hnext]
  · intro hleads
    induction hleft : left p using Nat.strong_induction_on generalizing p with
    | _ n ih =>
        subst hleft
        by_cases hfinished : finished p
        · exact ⟨[], p, .finish hfinished⟩
        · obtain ⟨q, hnext⟩ := Option.ne_none_iff_exists'.mp
            (hleads p .start hfinished)
          obtain ⟨ps, last, hwalk⟩ := ih (left q) (hless p q hfinished hnext)
            (fun r hreached => hleads r (hreached.behind hfinished hnext)) rfl
          exact ⟨p :: ps, last, .record hfinished hnext hwalk⟩

/-! ### The loop -/

section Loop

variable [DecidablePred finished] {visit : σ → π → Except ε σ} {endless : ε}

theorem Walk.walk_eq (hwalk : Walk finished next p ps last) (s : σ)
    (hfuel : ps.length < fuel) :
    walk finished next visit endless fuel s p =
      (ps.foldlM visit s).map fun t => (t, last) := by
  induction hwalk generalizing s fuel with
  | finish hfinished =>
      cases fuel with
      | zero => exact absurd hfuel (Nat.not_lt_zero _)
      | succ fuel => exact if_pos hfinished
  | record hopen hnext _ ih =>
      cases fuel with
      | zero => exact absurd hfuel (Nat.not_lt_zero _)
      | succ fuel =>
          rw [walk, if_neg hopen, hnext, List.foldlM_cons]
          cases hvisit : visit s _ with
          | error stop => rfl
          | ok s' => exact ih s' (Nat.lt_of_succ_lt_succ hfuel)

theorem walk_ok {s t : σ}
    (hloop : walk finished next visit endless fuel s p = .ok (t, last)) :
    ∃ ps, Walk finished next p ps last ∧ ps.foldlM visit s = .ok t := by
  induction fuel generalizing s p with
  | zero => cases hloop
  | succ fuel ih =>
      rw [walk] at hloop
      by_cases hfinished : finished p
      · rw [if_pos hfinished] at hloop
        cases hloop
        exact ⟨[], .finish hfinished, rfl⟩
      · rw [if_neg hfinished] at hloop
        cases hvisit : visit s p with
        | error stop =>
            rw [hvisit] at hloop
            cases hloop
        | ok s' =>
            rw [hvisit] at hloop
            obtain ⟨ps, hwalk, hfold⟩ := ih hloop
            cases hnext : next p with
            | none =>
                rw [hnext] at hwalk
                cases hwalk with
                | finish hfinished' => exact absurd hfinished' hfinished
                | record _ hnext' => cases hnext.symm.trans hnext'
            | some q =>
                rw [hnext] at hwalk
                refine ⟨p :: ps, .record hfinished hnext hwalk, ?_⟩
                rw [List.foldlM_cons, hvisit]
                exact hfold

end Loop

end Walks

end X86Os32.Library
