import Mathlib.Data.List.Induction
import Mathlib.Algebra.Ring.Nat
import Mathlib.Tactic.Common

/-! Decimal numerals, as lists of digit values with the most significant one first. The numerals without a leading
zero are those that a number is written as, and a number is written as one numeral. -/

namespace Decimal

/-- The value of a numeral behind a prefix that is worth `n`. -/
def valueFrom (n : Nat) (ds : List Nat) : Nat := ds.foldl (fun n d => n * 10 + d) n

def value (ds : List Nat) : Nat := valueFrom 0 ds

/-- A numeral has digits and no leading zero, or is zero. -/
structure Canonical (ds : List Nat) : Prop where
  nonempty : ds ≠ []
  digits : ∀ d ∈ ds, d < 10
  leading : ds.head? = some 0 → ds.length = 1

variable {ds : List Nat} {d n k : Nat}

@[simp] theorem valueFrom_nil : valueFrom n [] = n := rfl

@[simp] theorem valueFrom_cons : valueFrom n (d :: ds) = valueFrom (n * 10 + d) ds := rfl

theorem value_append_singleton : value (ds ++ [d]) = value ds * 10 + d := by
  rw [value, valueFrom, List.foldl_append]
  rfl

/-- A longer prefix is worth no less. -/
theorem le_valueFrom (n : Nat) (ds : List Nat) : n ≤ valueFrom n ds := by
  induction ds generalizing n with
  | nil => exact Nat.le_refl n
  | cons d ds ih =>
      calc n ≤ n * 10 + d := by omega
        _ ≤ valueFrom (n * 10 + d) ds := ih _

theorem value_pos (hne : ds ≠ []) (hlead : ds.head? ≠ some 0) : 0 < value ds := by
  cases ds with
  | nil => exact absurd rfl hne
  | cons d ds =>
      have hd : d ≠ 0 := fun hzero => hlead (congrArg some hzero)
      calc 0 < 0 * 10 + d := by omega
        _ ≤ value (d :: ds) := le_valueFrom _ ds

theorem head?_append (hne : ds ≠ []) : (ds ++ [d]).head? = ds.head? := by
  cases ds with
  | nil => exact absurd rfl hne
  | cons x ds => rfl

/-- A numeral is what its value is written as. -/
theorem toDigits_value (h : Canonical ds) : Nat.toDigits 10 (value ds) = ds.map Nat.digitChar := by
  induction ds using List.reverseRecOn with
  | nil => exact absurd rfl h.nonempty
  | append_singleton ds d ih =>
      have hd : d < 10 := h.digits d (by simp)
      rw [value_append_singleton]
      by_cases hnil : ds = []
      · rw [hnil]
        show Nat.toDigits 10 (0 * 10 + d) = _
        rw [Nat.zero_mul, Nat.zero_add, Nat.toDigits_of_lt_base hd]
        rfl
      · have hlead : ds.head? ≠ some 0 := by
          intro hzero
          have hone := h.leading ((head?_append hnil).trans hzero)
          have hpos := List.length_pos_iff.mpr hnil
          rw [List.length_append, List.length_singleton] at hone
          omega
        have hfront : Canonical ds :=
          ⟨hnil, fun x hx => h.digits x (List.mem_append_left _ hx), fun hzero => absurd hzero hlead⟩
        rw [Nat.mul_comm, ← Nat.toDigits_append_toDigits (by decide) (value_pos hnil hlead) hd, ih hfront,
          Nat.toDigits_of_lt_base hd, List.map_append, List.map_singleton]

/-- Every number is the value of a numeral. -/
theorem exists_canonical (n : Nat) : ∃ ds, Canonical ds ∧ value ds = n := by
  induction n using Nat.strongRecOn with
  | ind n ih =>
      by_cases hsmall : n < 10
      · refine ⟨[n], ⟨by simp, by simpa using hsmall, fun _ => rfl⟩, ?_⟩
        show 0 * 10 + n = n
        omega
      · obtain ⟨ds, hds, hvalue⟩ := ih (n / 10) (by omega)
        refine ⟨ds ++ [n % 10], ⟨by simp, ?_, fun hzero => ?_⟩, ?_⟩
        · intro d hd
          rcases List.mem_append.mp hd with hd | hd
          · exact hds.digits d hd
          · rw [List.mem_singleton.mp hd]
            omega
        · -- a front that is zero is worth nothing
          rw [head?_append hds.nonempty] at hzero
          obtain ⟨x, rfl⟩ := List.length_eq_one_iff.mp (hds.leading hzero)
          cases hzero
          have : n / 10 = 0 := hvalue.symm
          omega
        · rw [value_append_singleton, hvalue]
          omega

/-! ### Texts of digits -/

/-- The code of a decimal digit, in ASCII and in what extends it. -/
def IsDigit (c : Nat) : Prop := 48 ≤ c ∧ c ≤ 57

instance (c : Nat) : Decidable (IsDigit c) := inferInstanceAs (Decidable (_ ∧ _))

/-- A text, as the list of its codes, is the numeral of `n`. -/
structure Spells (codes : List Nat) (n : Nat) : Prop where
  digits : ∀ c ∈ codes, IsDigit c
  nonempty : codes ≠ []
  leading : codes.head? = some 48 → codes.length = 1
  worth : value (codes.map (· - 48)) = n

variable {codes : List Nat}

theorem spells_iff_canonical (hdigits : ∀ c ∈ codes, IsDigit c) :
    Spells codes n ↔ Canonical (codes.map (· - 48)) ∧ value (codes.map (· - 48)) = n := by
  have hhead : (codes.map (· - 48)).head? = some 0 ↔ codes.head? = some 48 := by
    cases codes with
    | nil => simp
    | cons c codes =>
        obtain ⟨hlow, -⟩ := hdigits c List.mem_cons_self
        rw [List.map_cons, List.head?_cons, List.head?_cons, Option.some.injEq, Option.some.injEq]
        omega
  have hsmall : ∀ d ∈ codes.map (· - 48), d < 10 := by
    rw [List.forall_mem_map]
    intro c hc
    obtain ⟨hlow, hhigh⟩ := hdigits c hc
    omega
  constructor
  · intro h
    refine ⟨⟨fun hnil => h.nonempty (List.map_eq_nil_iff.mp hnil), hsmall, fun hzero => ?_⟩, h.worth⟩
    rw [List.length_map]
    exact h.leading (hhead.mp hzero)
  · rintro ⟨h, hworth⟩
    refine ⟨hdigits, fun hnil => h.nonempty (by rw [hnil, List.map_nil]), fun hzero => ?_, hworth⟩
    have hone := h.leading (hhead.mpr hzero)
    rwa [List.length_map] at hone

/-- A number has one numeral. -/
theorem Spells.eq (h : Spells codes n) : codes = (Nat.toDigits 10 n).map Char.toNat := by
  obtain ⟨hcanonical, hworth⟩ := (spells_iff_canonical h.digits).mp h
  rw [← hworth, toDigits_value hcanonical, List.map_map, List.map_map]
  refine (List.map_id codes).symm.trans (List.map_congr_left fun c hc => ?_)
  obtain ⟨hlow, hhigh⟩ := h.digits c hc
  show c = (c - 48).digitChar.toNat
  rw [Nat.toNat_digitChar_of_lt_ten (by omega)]
  omega

theorem spells_toDigits (n : Nat) : Spells ((Nat.toDigits 10 n).map Char.toNat) n := by
  obtain ⟨ds, hds, rfl⟩ := exists_canonical n
  have hcodes : (Nat.toDigits 10 (value ds)).map Char.toNat = ds.map (48 + ·) := by
    rw [toDigits_value hds, List.map_map]
    exact List.map_congr_left fun d hd => Nat.toNat_digitChar_of_lt_ten (hds.digits d hd)
  have hback : (ds.map (48 + ·)).map (· - 48) = ds := by
    rw [List.map_map]
    exact (List.map_congr_left fun d _ => Nat.add_sub_cancel_left 48 d).trans (List.map_id ds)
  have hdigits : ∀ c ∈ ds.map (48 + ·), IsDigit c := by
    rw [List.forall_mem_map]
    intro d hd
    have := hds.digits d hd
    exact ⟨by omega, by omega⟩
  rw [hcodes, spells_iff_canonical hdigits, hback]
  exact ⟨hds, rfl⟩

theorem Spells.length_le (h : Spells codes n) (hk : 0 < k) (hn : n < 10 ^ k) : codes.length ≤ k := by
  rw [h.eq, List.length_map, Nat.length_toDigits_le_iff (by decide) hk]
  exact hn

end Decimal
