import Mathlib.Algebra.Order.Ring.Nat
import Mathlib.Tactic.Ring

namespace X86Os32.Library

/-! Numbers written with digits to a base, the most significant digit first. -/

namespace Positional

def horner (base n : Nat) : List Nat → Nat
  | [] => n
  | d :: ds => horner base (base * n + d) ds

def expand (base n : Nat) : Nat → List Nat
  | 0 => [n]
  | k + 1 => n / base ^ (k + 1) :: expand base (n % base ^ (k + 1)) k

theorem le_horner (hbase : 0 < base) (ds : List Nat) : n ≤ horner base n ds := by
  induction ds generalizing n with
  | nil => exact Nat.le_refl n
  | cons d ds ih =>
      calc n ≤ base * n := Nat.le_mul_of_pos_left n hbase
        _ ≤ base * n + d := Nat.le_add_right _ _
        _ ≤ _ := ih

theorem horner_lt {ds : List Nat} (hds : ∀ d ∈ ds, d < base) (n : Nat) :
    horner base n ds < (n + 1) * base ^ ds.length := by
  induction ds generalizing n with
  | nil => simp [horner]
  | cons d ds ih =>
      have hd := hds d List.mem_cons_self
      have hrest := ih (fun d' hd' => hds d' (List.mem_cons_of_mem _ hd'))
        (base * n + d)
      calc horner base n (d :: ds)
          < (base * n + d + 1) * base ^ ds.length := hrest
        _ ≤ (base * n + base) * base ^ ds.length :=
            Nat.mul_le_mul_right _ (by omega)
        _ = (n + 1) * base ^ (d :: ds).length := by
            rw [List.length_cons]
            ring

theorem expand_lt (hbase : 0 < base) (hn : n < base ^ (k + 1)) :
    ∀ d ∈ expand base n k, d < base := by
  induction k generalizing n with
  | zero =>
      intro d hd
      obtain rfl : d = n := List.mem_singleton.mp hd
      simpa using hn
  | succ k ih =>
      intro d hd
      rcases List.mem_cons.mp hd with rfl | hd
      · refine Nat.div_lt_of_lt_mul ?_
        rwa [← pow_succ]
      · exact ih (Nat.mod_lt _ (Nat.pow_pos hbase)) d hd

theorem horner_expand (base m n k : Nat) :
    horner base m (expand base n k) = m * base ^ (k + 1) + n := by
  induction k generalizing m n with
  | zero =>
      simp only [expand, horner, Nat.zero_add, pow_one, Nat.mul_comm]
  | succ k ih =>
      have hsplit := Nat.div_add_mod n (base ^ (k + 1))
      calc horner base m (expand base n (k + 1))
          = (base * m + n / base ^ (k + 1)) * base ^ (k + 1) +
              n % base ^ (k + 1) := ih ..
        _ = m * base ^ (k + 1 + 1) +
              (base ^ (k + 1) * (n / base ^ (k + 1)) + n % base ^ (k + 1)) := by
            ring
        _ = _ := by rw [hsplit]

theorem expand_ne_nil (base n k : Nat) : expand base n k ≠ [] := by
  cases k <;> simp [expand]

theorem head_expand (base n k : Nat) :
    (expand base n k).head? = some (n / base ^ k) := by
  cases k with
  | zero => simp [expand]
  | succ k => rfl

theorem length_expand (base n k : Nat) : (expand base n k).length = k + 1 := by
  induction k generalizing n with
  | zero => rfl
  | succ k ih => simp [expand, ih]

/-! ### Without superfluous zeros -/

/-- The number is written with valid digits, and with a zero at the beginning
only if that is all. -/
structure Canonical (base n : Nat) (ds : List Nat) : Prop where
  value : horner base 0 ds = n
  digits : ∀ d ∈ ds, d < base
  ne_nil : ds ≠ []
  leading : ds.head? = some 0 → ds = [0]

theorem horner_add (base n : Nat) (ds : List Nat) :
    horner base n ds = n * base ^ ds.length + horner base 0 ds := by
  induction ds generalizing n with
  | nil => simp [horner]
  | cons d ds ih =>
      calc horner base n (d :: ds)
          = (base * n + d) * base ^ ds.length + horner base 0 ds := ih _
        _ = n * base ^ (ds.length + 1) +
              ((base * 0 + d) * base ^ ds.length + horner base 0 ds) := by ring
        _ = n * base ^ (ds.length + 1) + horner base (base * 0 + d) ds := by
            rw [← ih]

theorem expand_horner {d : Nat} {ds : List Nat} (hds : ∀ d' ∈ ds, d' < base) :
    expand base (horner base d ds) ds.length = d :: ds := by
  induction ds generalizing d with
  | nil => rfl
  | cons d' ds ih =>
      have hrest : ∀ d'' ∈ ds, d'' < base :=
        fun d'' hmem => hds d'' (List.mem_cons_of_mem _ hmem)
      have hlt : horner base 0 (d' :: ds) < base ^ (ds.length + 1) := by
        have hbound := horner_lt hds 0
        rwa [Nat.zero_add, Nat.one_mul] at hbound
      have hpos : 0 < base ^ (ds.length + 1) := Nat.lt_of_le_of_lt
        (Nat.zero_le _) hlt
      have hsame : horner base 0 (d' :: ds) = horner base d' ds := by
        rw [horner, Nat.mul_zero, Nat.zero_add]
      rw [List.length_cons, expand, horner_add, List.length_cons,
        Nat.mul_comm, Nat.mul_add_div hpos, Nat.div_eq_of_lt hlt,
        Nat.mul_add_mod, Nat.mod_eq_of_lt hlt, hsame, ih hrest, Nat.add_zero]

theorem canonical_expand (hbase : 0 < base) (hlt : n < base ^ (k + 1))
    (hk : k = 0 ∨ base ^ k ≤ n) : Canonical base n (expand base n k) where
  value := by rw [horner_expand, Nat.zero_mul, Nat.zero_add]
  digits := expand_lt hbase hlt
  ne_nil := expand_ne_nil base n k
  leading := by
    intro hzero
    rw [head_expand, Option.some.injEq] at hzero
    rcases hk with rfl | hle
    · rw [pow_zero, Nat.div_one] at hzero
      rw [hzero, expand]
    · have hquotient := Nat.div_pos hle (Nat.pow_pos hbase)
      omega

theorem Canonical.bounds {ds : List Nat} (hcanonical : Canonical base n ds) :
    n < base ^ ds.length ∧ (ds = [0] ∨ base ^ (ds.length - 1) ≤ n) := by
  obtain ⟨rfl, hdigits, hne, hleading⟩ := hcanonical
  have hbound := horner_lt hdigits 0
  rw [Nat.zero_add, Nat.one_mul] at hbound
  refine ⟨hbound, ?_⟩
  cases ds with
  | nil => exact absurd rfl hne
  | cons d ds =>
      rcases Nat.eq_zero_or_pos d with rfl | hpos
      · exact .inl (hleading rfl)
      · refine .inr ?_
        calc base ^ ((d :: ds).length - 1)
            = 1 * base ^ ds.length := by simp
          _ ≤ d * base ^ ds.length := Nat.mul_le_mul_right _ hpos
          _ ≤ d * base ^ ds.length + horner base 0 ds := Nat.le_add_right _ _
          _ = horner base d ds := (horner_add base d ds).symm
          _ = horner base 0 (d :: ds) := by
              rw [horner, Nat.mul_zero, Nat.zero_add]

theorem Canonical.eq_expand {ds : List Nat}
    (hcanonical : Canonical base n ds) : ds = expand base n (ds.length - 1) := by
  obtain ⟨rfl, hdigits, hne, -⟩ := hcanonical
  cases ds with
  | nil => exact absurd rfl hne
  | cons d ds =>
      rw [horner, Nat.mul_zero, Nat.zero_add, List.length_cons,
        Nat.add_sub_cancel]
      exact (expand_horner fun d' hmem =>
        hdigits d' (List.mem_cons_of_mem _ hmem)).symm

theorem Canonical.length_le (hbase : 0 < base) {ds ds' : List Nat}
    (hcanonical : Canonical base n ds) (hcanonical' : Canonical base n ds') :
    ds.length ≤ ds'.length := by
  have hne : 0 < ds'.length := List.length_pos_iff.mpr hcanonical'.ne_nil
  rcases hcanonical.bounds.2 with rfl | hle
  · exact hne
  · have hlt : base ^ (ds.length - 1) < base ^ ds'.length :=
      Nat.lt_of_le_of_lt hle hcanonical'.bounds.1
    have hlength : ds.length - 1 < ds'.length :=
      Nat.lt_of_not_le fun hge =>
        absurd (Nat.pow_le_pow_right hbase hge) (Nat.not_le_of_lt hlt)
    exact Nat.le_of_pred_lt hlength

/-- There is only one such way to write a number. -/
theorem Canonical.unique (hbase : 0 < base) {ds ds' : List Nat}
    (hcanonical : Canonical base n ds) (hcanonical' : Canonical base n ds') :
    ds = ds' := by
  have hlength : ds.length = ds'.length :=
    Nat.le_antisymm (hcanonical.length_le hbase hcanonical')
      (hcanonical'.length_le hbase hcanonical)
  rw [hcanonical.eq_expand, hcanonical'.eq_expand, hlength]

end Positional

end X86Os32.Library
