import Mathlib.Algebra.Order.BigOperators.Group.List
import Mathlib.Algebra.Order.Ring.Nat
import Mathlib.Data.List.Basic
import Mathlib.Tactic.Common

/-! Fields written one after the other, each ended by a separator. When no field has the separator in it, the
fields can be read back; when one has it, other fields give the same text. -/

namespace Delimited

variable {α : Type} {sep : α} {fs gs : List (List α)} {t u : List α}

def terminated (sep : α) (fs : List (List α)) : List α := fs.flatMap fun f => f ++ [sep]

theorem terminated_cons (f : List α) (t : List α) :
    terminated sep (f :: fs) ++ t = f ++ sep :: (terminated sep fs ++ t) := by
  simp only [terminated, List.flatMap_cons, List.append_assoc, List.cons_append, List.nil_append]

section Count

variable [DecidableEq α]

theorem count_terminated (t : List α) :
    (terminated sep fs ++ t).count sep = fs.length + (fs.map (List.count sep)).sum + t.count sep := by
  induction fs with
  | nil => simp [terminated]
  | cons f fs ih =>
      rw [terminated_cons, List.count_append, List.count_cons_self, ih, List.length_cons, List.map_cons, List.sum_cons]
      omega

/-- As many fields, one text: if there is no separator in these fields, there is none in the others. -/
theorem free_of_terminated_eq (hlength : fs.length = gs.length) (hfs : ∀ f ∈ fs, sep ∉ f) (ht : sep ∉ t)
    (h : terminated sep fs ++ t = terminated sep gs ++ u) : (∀ g ∈ gs, sep ∉ g) ∧ sep ∉ u := by
  have hcount := congrArg (List.count sep) h
  have hzero : (fs.map (List.count sep)).sum = 0 := by
    refine List.sum_eq_zero fun n hn => ?_
    obtain ⟨f, hf, rfl⟩ := List.mem_map.mp hn
    exact List.count_eq_zero.mpr (hfs f hf)
  rw [count_terminated, count_terminated, hzero, List.count_eq_zero.mpr ht] at hcount
  refine ⟨fun g hg => ?_, List.count_eq_zero.mp (by omega)⟩
  have hle : g.count sep ≤ (gs.map (List.count sep)).sum := List.single_le_sum (by simp) _ (List.mem_map_of_mem hg)
  exact List.count_eq_zero.mp (by omega)

end Count

/-- The first separator ends the first field. -/
theorem append_sep_inj {f g : List α} (hf : sep ∉ f) (hg : sep ∉ g) (h : f ++ sep :: t = g ++ sep :: u) :
    f = g ∧ t = u := by
  classical
  have hidx := congrArg (List.idxOf sep) h
  rw [List.idxOf_append_of_notMem hf, List.idxOf_append_of_notMem hg, List.idxOf_cons_self, List.idxOf_cons_self,
    Nat.add_zero, Nat.add_zero] at hidx
  obtain ⟨hfg, htail⟩ := List.append_inj h hidx
  exact ⟨hfg, (List.cons.inj htail).2⟩

/-- Fields without a separator are read back. -/
theorem terminated_inj (hlength : fs.length = gs.length) (hfs : ∀ f ∈ fs, sep ∉ f) (ht : sep ∉ t)
    (h : terminated sep fs ++ t = terminated sep gs ++ u) : fs = gs ∧ t = u := by
  classical
  obtain ⟨hgs, -⟩ := free_of_terminated_eq hlength hfs ht h
  induction fs generalizing gs with
  | nil =>
      rw [List.length_nil, eq_comm, List.length_eq_zero_iff] at hlength
      subst hlength
      exact ⟨rfl, h⟩
  | cons f fs ih =>
      cases gs with
      | nil => cases hlength
      | cons g gs =>
          rw [List.forall_mem_cons] at hfs hgs
          rw [terminated_cons, terminated_cons] at h
          obtain ⟨rfl, htail⟩ := append_sep_inj hfs.1 hgs.1 h
          obtain ⟨rfl, rfl⟩ := ih (Nat.succ.inj hlength) hfs.2 htail hgs.2
          exact ⟨rfl, rfl⟩

/-- A separator in a field can as well stand for the end of one. -/
theorem exists_terminated_eq (hlength : 2 ≤ fs.length) (hfs : ¬ ∀ f ∈ fs, sep ∉ f) :
    ∃ gs, gs.length = fs.length ∧ gs ≠ fs ∧ ∀ t, terminated sep gs ++ t = terminated sep fs ++ t := by
  induction fs with
  | nil => exact absurd hlength (by simp)
  | cons f fs ih =>
      cases fs with
      | nil => exact absurd hlength (by simp)
      | cons g fs =>
          by_cases hf : sep ∈ f
          · -- the first field is cut, and its second part goes to the field behind it
            obtain ⟨u, v, rfl⟩ := List.append_of_mem hf
            refine ⟨u :: (v ++ sep :: g) :: fs, rfl, ?_, fun t => ?_⟩
            · intro h
              have := congrArg List.length (List.cons.inj h).1
              rw [List.length_append, List.length_cons] at this
              omega
            · simp only [terminated_cons, List.append_assoc, List.cons_append]
          by_cases hg : sep ∈ g
          · obtain ⟨u, v, rfl⟩ := List.append_of_mem hg
            refine ⟨(f ++ sep :: u) :: v :: fs, rfl, ?_, fun t => ?_⟩
            · intro h
              have := congrArg List.length (List.cons.inj h).1
              rw [List.length_append, List.length_cons] at this
              omega
            · simp only [terminated_cons, List.append_assoc, List.cons_append]
          · have hfs' : ¬ ∀ f ∈ g :: fs, sep ∉ f := by
              intro hall
              exact hfs (List.forall_mem_cons.mpr ⟨hf, hall⟩)
            have hlength' : 2 ≤ (g :: fs).length := by
              cases fs with
              | nil => exact absurd hfs' (by simpa using hg)
              | cons g' fs => simp
            obtain ⟨gs, hgs, hne, heq⟩ := ih hlength' hfs'
            refine ⟨f :: gs, by rw [List.length_cons, hgs]; rfl, ?_, fun t => ?_⟩
            · exact fun h => hne (List.cons.inj h).2
            · rw [terminated_cons, terminated_cons, heq]

/-! ### Fields with a separator between them -/

section Joined

variable {f : List α} {x : α}

theorem intercalate_cons (f : List α) (fs : List (List α)) :
    [sep].intercalate (f :: fs) = f ++ fs.flatMap fun g => sep :: g := by
  induction fs generalizing f with
  | nil => simp
  | cons g fs ih => simp [ih]

theorem length_intercalate (h : fs ≠ []) : ([sep].intercalate fs).length + 1 = (fs.map fun f => f.length + 1).sum := by
  cases fs with
  | nil => exact absurd rfl h
  | cons f fs =>
      rw [intercalate_cons, List.length_append, List.length_flatMap, List.map_cons, List.sum_cons]
      simp only [List.length_cons]
      omega

/-- What stands in the text stands in a field, or is a separator. -/
theorem mem_intercalate (h : x ∈ [sep].intercalate fs) : x = sep ∨ ∃ f ∈ fs, x ∈ f := by
  cases fs with
  | nil => cases h
  | cons f fs =>
      rw [intercalate_cons, List.mem_append, List.mem_flatMap] at h
      rcases h with h | ⟨g, hg, h⟩
      · exact Or.inr ⟨f, List.mem_cons_self, h⟩
      · exact (List.mem_cons.mp h).imp_right fun hx => ⟨g, List.mem_cons_of_mem _ hg, hx⟩

theorem mem_intercalate_of_mem (hf : f ∈ fs) (hx : x ∈ f) : x ∈ [sep].intercalate fs := by
  cases fs with
  | nil => cases hf
  | cons g fs =>
      rw [intercalate_cons, List.mem_append, List.mem_flatMap]
      rcases List.mem_cons.mp hf with rfl | hf
      · exact Or.inl hx
      · exact Or.inr ⟨f, hf, List.mem_cons_of_mem _ hx⟩

variable [BEq α] [LawfulBEq α]

theorem mem_of_mem_splitOn (hf : f ∈ t.splitOn sep) (hx : x ∈ f) : x ∈ t := by
  rw [← t.intercalate_splitOn sep]
  exact mem_intercalate_of_mem hf hx

/-- A field that is cut out has no separator in it. -/
theorem sep_notMem_of_mem_splitOn (hf : f ∈ t.splitOn sep) : sep ∉ f := by
  induction hlen : t.length using Nat.strong_induction_on generalizing t with
  | _ n ih =>
      by_cases hmem : sep ∈ t
      · obtain ⟨first, rest, rfl, hfirst⟩ := List.eq_append_cons_of_mem hmem
        rw [List.splitOn_append_cons_self_of_not_mem hfirst] at hf
        rcases List.mem_cons.mp hf with rfl | hf
        · exact hfirst
        · refine ih rest.length ?_ hf rfl
          rw [List.length_append, List.length_cons] at hlen
          omega
      · rw [List.splitOn_eq_singleton hmem, List.mem_singleton] at hf
        rwa [hf]

/-- The fields of a text and the separators between them are all of it. -/
theorem sum_splitOn (t : List α) : ((t.splitOn sep).map fun f => f.length + 1).sum = t.length + 1 := by
  rw [← length_intercalate (List.splitOn_ne_nil sep t), List.intercalate_splitOn]

theorem length_splitOn_le (t : List α) : (t.splitOn sep).length ≤ t.length + 1 := by
  have hle := List.length_le_sum_of_one_le ((t.splitOn sep).map fun f => f.length + 1) fun n hn => by
    obtain ⟨f, -, rfl⟩ := List.mem_map.mp hn
    exact Nat.le_add_left _ _
  rwa [List.length_map, sum_splitOn] at hle

end Joined

end Delimited
