import ZigKernel.LangAct
import Mathlib.Algebra.BigOperators.Fin
import Mathlib.Algebra.Order.BigOperators.Group.Finset
import Mathlib.Data.Fintype.BigOperators
import Mathlib.Tactic.Abel

/-! Fixed-size tables of entries, searched from the front: the first entry with a property, what an
update of one entry changes, and the sums over a table. -/

open Finset

namespace Zig.Table

variable {α β : Type} {n : Nat}

/-- The index of the first entry satisfying `p`. -/
def find? (t : Fin n → α) (p : α → Bool) : Option (Fin n) := (List.finRange n).find? fun i => p (t i)

theorem find?_some {t : Fin n → α} {p : α → Bool} {i : Fin n} (h : find? t p = some i) : p (t i) = true := by
  simpa using List.find?_some h

theorem find?_none {t : Fin n → α} {p : α → Bool} : find? t p = none ↔ ∀ i, p (t i) = false := by
  simp [find?, List.find?_eq_none]

theorem find?_isSome {t : Fin n → α} {p : α → Bool} {i : Fin n} (h : p (t i) = true) :
    ∃ j, find? t p = some j := by
  cases hfind : find? t p with
  | some j => exact ⟨j, rfl⟩
  | none =>
      have := find?_none.mp hfind i
      rw [h] at this
      cases this

/-- Where at most one entry satisfies `p`, the search finds it. -/
theorem find?_eq_of_unique {t : Fin n → α} {p : α → Bool} {i : Fin n} (h : p (t i) = true)
    (hunique : ∀ j, p (t j) = true → j = i) : find? t p = some i := by
  obtain ⟨j, hj⟩ := find?_isSome h
  rw [hj, hunique j (find?_some hj)]

theorem find?_congr {t t' : Fin n → α} {p : α → Bool} (h : ∀ i, p (t i) = p (t' i)) : find? t p = find? t' p := by
  simp only [find?, h]

/-- The search finds the first entry. -/
theorem find?_eq_some_iff {t : Fin n → α} {p : α → Bool} {i : Fin n} :
    find? t p = some i ↔ p (t i) = true ∧ ∀ j < i, p (t j) = false := by
  rw [find?, List.find?_eq_some_iff_getElem]
  constructor
  · rintro ⟨hi, k, hk, heq, hbefore⟩
    rw [List.getElem_finRange] at heq
    have hval : k = i.val := congrArg Fin.val heq
    refine ⟨hi, fun j hj => ?_⟩
    have hnot := hbefore j.val (hval ▸ hj)
    rw [List.getElem_finRange, Bool.not_eq_true'] at hnot
    exact hnot
  · rintro ⟨hi, hbefore⟩
    refine ⟨hi, i.val, by rw [List.length_finRange]; exact i.isLt, by rw [List.getElem_finRange]; rfl, fun j hj => ?_⟩
    rw [List.getElem_finRange, Bool.not_eq_true']
    exact hbefore ⟨j, Nat.lt_trans hj i.isLt⟩ hj

/-- Where exactly the entries from `k` on satisfy `p`, the search finds entry `k`. -/
theorem find?_first {t : Fin n → α} {p : α → Bool} {k : Nat} (h : ∀ i, p (t i) = true ↔ k ≤ i.val) (hk : k < n) :
    find? t p = some ⟨k, hk⟩ := by
  refine find?_eq_some_iff.mpr ⟨(h _).mpr (Nat.le_refl k), fun j hj => ?_⟩
  rw [← Bool.not_eq_true, h j]
  exact Nat.not_le_of_lt hj

/-- An entry that comes to have the property behind those that have it is found last. -/
theorem find?_or_last {t t' : Fin n → α} {p : α → Bool} {d : Fin n} (hsame : ∀ i, i ≠ d → p (t' i) = p (t i))
    (hbefore : ∀ i, p (t i) = true → i < d) :
    find? t' p = (find? t p).or (if p (t' d) then some d else none) := by
  cases hfind : find? t p with
  | some i =>
      obtain ⟨hi, hfirst⟩ := find?_eq_some_iff.mp hfind
      have hid := hbefore i hi
      rw [Option.some_or]
      refine find?_eq_some_iff.mpr ⟨(hsame i (ne_of_lt hid)).trans hi, fun j hj => ?_⟩
      exact (hsame j (ne_of_lt (lt_trans hj hid))).trans (hfirst j hj)
  | none =>
      have hnone := find?_none.mp hfind
      rw [Option.none_or]
      by_cases hnew : p (t' d) = true
      · rw [if_pos hnew]
        exact find?_eq_some_iff.mpr ⟨hnew, fun j hj => (hsame j (ne_of_lt hj)).trans (hnone j)⟩
      · rw [if_neg hnew, find?_none]
        intro i
        by_cases hi : i = d
        · rw [hi]
          exact Bool.eq_false_iff.mpr hnew
        · exact (hsame i hi).trans (hnone i)

/-! ### Counts and sums -/

theorem countP_eq_sum (p : Fin n → Bool) : (List.finRange n).countP p = ∑ i, if p i then 1 else 0 := by
  induction n with
  | zero => rfl
  | succ n ih =>
      rw [List.finRange_succ, List.countP_cons, List.countP_map, Fin.sum_univ_succ, ih, Nat.add_comm]
      rfl

variable [AddCommMonoid β]

/-- The entry at `i` is replaced: the sum trades its old share for the new one. -/
theorem sum_update (t : Fin n → α) (f : α → β) (i : Fin n) (a : α) :
    ∑ j, f (Function.update t i a j) + f (t i) = ∑ j, f (t j) + f a := by
  have hrest : ∑ j ∈ univ.erase i, f (Function.update t i a j) = ∑ j ∈ univ.erase i, f (t j) :=
    sum_congr rfl fun j hj => by rw [Function.update_of_ne (ne_of_mem_erase hj)]
  rw [← add_sum_erase univ _ (mem_univ i), ← add_sum_erase univ (fun j => f (t j)) (mem_univ i), hrest,
    Function.update_self]
  abel

/-- The entry at `i` is replaced: the number of marked entries trades it for the new one. -/
theorem countP_update (t : Fin n → α) (p : α → Bool) (i : Fin n) (a : α) :
    (List.finRange n).countP (fun j => p (Function.update t i a j)) + (if p (t i) then 1 else 0) =
      (List.finRange n).countP (fun j => p (t j)) + if p a then 1 else 0 := by
  rw [countP_eq_sum, countP_eq_sum]
  exact sum_update t (fun b => if p b then 1 else 0) i a

/-- A marked entry counts. -/
theorem countP_pos (t : Fin n → α) {p : α → Bool} {i : Fin n} (h : p (t i) = true) :
    0 < (List.finRange n).countP fun j => p (t j) :=
  List.countP_pos_iff.mpr ⟨i, List.mem_finRange i, h⟩

/-- Where at most one entry is marked, there is no second one. -/
theorem eq_of_countP_le_one {t : Fin n → α} {p : α → Bool} {i j : Fin n} (h : ((List.finRange n).countP fun k => p (t k)) ≤ 1)
    (hi : p (t i) = true) (hj : p (t j) = true) : i = j := by
  by_contra hne
  have hnodup := List.nodup_finRange n
  have hpair : [i, j].Subperm ((List.finRange n).filter fun k => p (t k)) := by
    refine List.subperm_of_subset ?_ fun k hk => ?_
    · simp [hne]
    · rcases List.mem_cons.mp hk with rfl | hk
      · exact List.mem_filter.mpr ⟨List.mem_finRange _, hi⟩
      · rw [List.mem_singleton] at hk
        exact hk ▸ List.mem_filter.mpr ⟨List.mem_finRange _, hj⟩
  have hlength := hpair.length_le
  rw [← List.countP_eq_length_filter] at hlength
  exact absurd (Nat.le_trans hlength h) (by simp)

theorem le_sum (t : Fin n → α) (f : α → Nat) (i : Fin n) : f (t i) ≤ ∑ j, f (t j) :=
  single_le_sum (f := fun j => f (t j)) (fun _ _ => Nat.zero_le _) (mem_univ i)

/-- A table with fewer marked entries than its size has an unmarked one. -/
theorem exists_not_of_sum_lt (t : Fin n → α) (p : α → Bool) (h : ∑ j, (if p (t j) then 1 else 0) < n) :
    ∃ i, p (t i) = false := by
  by_contra hall
  push Not at hall
  have hone : ∑ j, (if p (t j) then 1 else 0) = ∑ _j : Fin n, 1 :=
    sum_congr rfl fun j _ => if_pos (by simpa using hall j)
  rw [hone] at h
  simp at h

end Zig.Table
