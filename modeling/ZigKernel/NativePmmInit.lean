import ZigKernel.NativePmmSound
import Mathlib.Algebra.Order.BigOperators.Group.List
import Mathlib.Algebra.Order.Ring.Nat

/-! When `init` succeeds. A validated map has so few pages that no count overflows, and its conventional frames fit into
`backing`, so that of the four errors only the first two are ever raised. -/

namespace Native

open Zig

namespace Pmm

/-- The three counts are at most `n`. -/
structure Tally.AtMost (t : Tally) (n : Nat) : Prop where
  total : t.total ≤ n
  unmanaged : t.unmanaged ≤ n
  excluded : t.excluded ≤ n

theorem Tally.AtMost.mono {t : Tally} {m n : Nat} (h : t.AtMost m) (hmn : m ≤ n) : t.AtMost n :=
  ⟨Nat.le_trans h.total hmn, Nat.le_trans h.unmanaged hmn, Nat.le_trans h.excluded hmn⟩

theorem addOrOverflow_of_lt {a b : Nat} (h : a + b < u64Bound) : addOrOverflow a b = .ok (a + b) := by
  rw [addOrOverflow, mathAdd, if_pos h]

theorem pushPages_cases (physStart left i : Nat) (pages : List Nat) :
    (∃ pages', pushPages physStart left i pages = .ok pages') ∨ pushPages physStart left i pages = .error .tooManyPages := by
  induction left generalizing i pages with
  | zero => exact Or.inl ⟨pages, rfl⟩
  | succ left ih =>
      rw [pushPages]
      by_cases hfull : pages.length ≥ managedPages
      · rw [if_pos hfull]
        exact Or.inr rfl
      · rw [if_neg hfull]
        exact ih (i + 1) _

/-- The pages of a range below the ceiling. -/
theorem managed_le (r : Range) : (min r.stop managedTop - r.physStart) / page ≤ r.pageCount := by
  have hpage : page = 4096 := rfl
  have hstop : r.stop = r.physStart + r.pageCount * 4096 := rfl
  rw [hpage]
  omega

/-- A range with room for its pages in every count is tallied, unless `backing` is full. -/
theorem tallyRange_within {t : Tally} {r : Range} {n : Nat} (h : t.AtMost n) (hroom : n + r.pageCount < u64Bound)
    (hbounded : r.stop < u64Bound) (hpages : r.pageCount ≠ 0) (haligned : r.kind = .conventional → r.physStart % page = 0) :
    (∃ t', tallyRange t r = .ok t' ∧ t'.AtMost (n + r.pageCount)) ∨ tallyRange t r = .error .tooManyPages := by
  have htotal := h.total
  have hunmanaged := h.unmanaged
  have hexcluded := h.excluded
  rw [tallyRange, if_neg hpages]
  by_cases husable : rangeUsable r = true
  swap
  · rw [if_pos husable, addOrOverflow_of_lt (by omega), Outcome.ok_bind]
    refine Or.inl ⟨_, rfl, ?_, ?_, ?_⟩ <;> simp only <;> omega
  have hkind : r.kind = .conventional := (of_decide_eq_true husable).1
  have hbytes : mulOrOverflow r.pageCount page = .ok (r.pageCount * page) := by
    have : r.pageCount * page < u64Bound := Nat.lt_of_le_of_lt (Nat.le_add_left _ _) hbounded
    rw [mulOrOverflow, mathMul, if_pos this]
  have hstop : addOrOverflow r.physStart (r.pageCount * page) = .ok r.stop := addOrOverflow_of_lt hbounded
  rw [if_neg (not_not.mpr husable), if_neg (not_not.mpr (haligned hkind)), hbytes, Outcome.ok_bind, hstop, Outcome.ok_bind]
  by_cases habove : r.physStart ≥ managedTop
  · rw [if_pos habove, addOrOverflow_of_lt (by omega), Outcome.ok_bind]
    refine Or.inl ⟨_, rfl, ?_, ?_, ?_⟩ <;> simp only <;> omega
  have hmanaged := managed_le r
  rw [if_neg habove]
  simp only
  generalize (min r.stop managedTop - r.physStart) / page = managedN at hmanaged ⊢
  rw [addOrOverflow_of_lt (by omega), Outcome.ok_bind]
  rcases pushPages_cases r.physStart managedN 0 t.pages with ⟨pages', hpush⟩ | hpush
  · rw [hpush, Outcome.ok_bind, addOrOverflow_of_lt (by omega), Outcome.ok_bind]
    refine Or.inl ⟨_, rfl, ?_, ?_, ?_⟩ <;> simp only <;> omega
  · rw [hpush, Outcome.error_bind]
    exact Or.inr rfl

theorem tallyRanges_within {t : Tally} {rs : List Range} {n : Nat} (h : t.AtMost n)
    (hroom : n + (rs.map Range.pageCount).sum < u64Bound) (hbounded : ∀ r ∈ rs, r.stop < u64Bound)
    (hpages : ∀ r ∈ rs, r.pageCount ≠ 0) (haligned : ∀ r ∈ rs, r.kind = .conventional → r.physStart % page = 0) :
    (∃ t', tallyRanges t rs = .ok t') ∨ tallyRanges t rs = .error .tooManyPages := by
  induction rs generalizing t n with
  | nil => exact Or.inl ⟨t, rfl⟩
  | cons r rest ih =>
      obtain ⟨hb, hbs⟩ := List.forall_mem_cons.mp hbounded
      obtain ⟨hp, hps⟩ := List.forall_mem_cons.mp hpages
      obtain ⟨ha, has⟩ := List.forall_mem_cons.mp haligned
      rw [List.map_cons, List.sum_cons] at hroom
      rw [tallyRanges]
      rcases tallyRange_within h (by omega) hb hp ha with ⟨t', hrun, ht'⟩ | hrun
      · rw [hrun, Outcome.ok_bind]
        exact ih ht' (by omega) hbs hps has
      · rw [hrun, Outcome.error_bind]
        exact Or.inr rfl

/-- At most 512 ranges, each of less than 2^52 pages. -/
theorem sum_pageCount_lt {rs : List Range} (hlength : rs.length ≤ maxRanges) (hbounded : ∀ r ∈ rs, r.stop < u64Bound) :
    (rs.map Range.pageCount).sum < u64Bound := by
  have hu64 : u64Bound = 2 ^ 52 * 4096 := rfl
  have hmax : maxRanges = 512 := rfl
  have heach : ∀ n ∈ rs.map Range.pageCount, n ≤ 2 ^ 52 := by
    intro n hn
    obtain ⟨r, hr, rfl⟩ := List.mem_map.mp hn
    have hstop : r.stop = r.physStart + r.pageCount * 4096 := rfl
    have := hbounded r hr
    omega
  have hsum := List.sum_le_card_nsmul (rs.map Range.pageCount) (2 ^ 52) heach
  rw [List.length_map] at hsum
  calc (rs.map Range.pageCount).sum ≤ rs.length * 2 ^ 52 := hsum
    _ ≤ 512 * 2 ^ 52 := Nat.mul_le_mul_right _ (hmax ▸ hlength)
    _ < u64Bound := by decide

theorem length_ranges_le {info : BootInfo} (h : info.validate = .ok ()) : info.ranges.length ≤ maxRanges := by
  unfold BootInfo.validate at h
  iterate 5 replace h := (Outcome.ite_error_eq_ok h).2
  rw [BootInfo.ranges, List.length_map, List.length_range]
  exact Nat.le_of_not_lt (Outcome.ite_error_eq_ok h).1

theorem init_returns {info : BootInfo} (h : info.validate = .ok ())
    (haligned : ∀ r ∈ info.ranges, r.kind = .conventional → r.physStart % page = 0) (s₀ : Pmm) :
    ∃ s, init info s₀ = (.ok (), s) ∧ Sound info s [] := by
  have hwell := BootInfo.wellFormed_of_validate h
  have hzero : ({} : Tally).AtMost 0 := ⟨Nat.le_refl _, Nat.le_refl _, Nat.le_refl _⟩
  have hsum : 0 + (info.ranges.map Range.pageCount).sum < u64Bound := by
    rw [Nat.zero_add]
    exact sum_pageCount_lt (length_ranges_le h) hwell.bounded
  have hrun : init info s₀ = ((Act.lift (tallyRanges {} info.ranges) >>= fun t => Act.modify fun _ =>
      { freeStack := t.pages, totalPages := t.total, unmanagedPages := t.unmanaged, excludedPages := t.excluded
        usedPages := 0, cached := some info, initialized := true }) empty) := by
    rw [init, Act.modify_bind_run, Act.bind_run, Act.orFail, Act.catchError, Act.lift_run, h]
  rcases init_cases info s₀ with ⟨e, s, hinit, hne⟩ | hinit | hinit
  · rcases tallyRanges_within hzero hsum hwell.bounded hwell.pages haligned with ⟨t, ht⟩ | ht
    · rw [hrun, ht, Act.lift_ok_bind_run] at hinit
      cases hinit
    · rw [hrun, ht, Act.lift_error_bind_run] at hinit
      cases hinit
      exact absurd rfl hne
  · rcases tallyRanges_within hzero hsum hwell.bounded hwell.pages haligned with ⟨t, ht⟩ | ht
    · rw [hrun, ht, Act.lift_ok_bind_run] at hinit
      cases hinit
    · rw [hrun, ht, Act.lift_error_bind_run] at hinit
      cases hinit
  · exact hinit

/-- `init` succeeds for the maps that are valid and whose conventional ranges are aligned. -/
theorem init_ok_iff (info : BootInfo) (s₀ : Pmm) : (init info s₀).1 = .ok () ↔
    info.validate = .ok () ∧ ∀ r ∈ info.ranges, r.kind = .conventional → r.physStart % page = 0 := by
  constructor
  · intro hok
    have hvalid : info.validate = .ok () := by
      rw [init, Act.modify_bind_run, Act.bind_run, Act.orFail, Act.catchError, Act.lift_run] at hok
      cases hvalidate : info.validate with
      | ok u => rfl
      | error e =>
          rw [hvalidate] at hok
          cases hok
      | trap =>
          rw [hvalidate] at hok
          cases hok
    refine ⟨hvalid, ?_⟩
    rcases init_cases info s₀ with ⟨e, s, hinit, -⟩ | hinit | ⟨s, -, hsound⟩
    · rw [hinit] at hok
      cases hok
    · rw [hinit] at hok
      cases hok
    · exact hsound.aligned
  · rintro ⟨hvalid, haligned⟩
    obtain ⟨s, hinit, -⟩ := init_returns hvalid haligned s₀
    rw [hinit]

end Pmm

end Native
