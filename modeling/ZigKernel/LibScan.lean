import Mathlib.Tactic.Common

/-! Texts read by a machine that takes one letter at a time and may refuse it. A text passes from one set of
states to another when it is refused from none of the first and ends in the second, so that a text is
checked piece by piece. The machine that refuses a word shows that a text has no such infix. -/

namespace Scan

section Passes

variable {σ α : Type} {step : σ → α → Option σ} {P Q R : σ → Prop} {s t : List α}

/-- From every state in `P` the text is read, and leads to one in `Q`. -/
def Passes (step : σ → α → Option σ) (P : σ → Prop) (s : List α) (Q : σ → Prop) : Prop :=
  ∀ q, P q → ∃ q' ∈ s.foldlM step q, Q q'

instance [DecidableEq σ] {before behind : List σ} : Decidable (Passes step (· ∈ before) s (· ∈ behind)) :=
  inferInstanceAs (Decidable (∀ q ∈ before, ∃ q' ∈ s.foldlM step q, q' ∈ behind))

theorem Passes.nil : Passes step P [] P := fun q hq => ⟨q, rfl, hq⟩

theorem Passes.append (h : Passes step P s Q) (h' : Passes step Q t R) : Passes step P (s ++ t) R := by
  intro q hq
  obtain ⟨q₁, hrun, hq₁⟩ := h q hq
  obtain ⟨q₂, hrun', hq₂⟩ := h' q₁ hq₁
  refine ⟨q₂, ?_, hq₂⟩
  rw [List.foldlM_append, Option.mem_def.mp hrun]
  exact hrun'

theorem Passes.mono (h : Passes step P s Q) (hP : ∀ q, R q → P q) : Passes step R s Q :=
  fun q hq => h q (hP q hq)

/-- Letters that keep the states, one after the other. -/
theorem Passes.each (h : ∀ a ∈ s, Passes step P [a] P) : Passes step P s P := by
  induction s with
  | nil => exact .nil
  | cons a s ih =>
      rw [List.forall_mem_cons] at h
      exact .append h.1 (ih h.2)

/-- A text whose letters are replaced by texts that do the same. -/
theorem foldlM_flatMap {f : α → List α} (hP : ∀ q a q', P q → step q a = some q' → (f a).foldlM step q = some q' ∧ P q')
    {q q' : σ} (hq : P q) (h : s.foldlM step q = some q') : (s.flatMap f).foldlM step q = some q' := by
  induction s generalizing q with
  | nil => exact h
  | cons a s ih =>
      rw [List.foldlM_cons] at h
      cases hstep : step q a with
      | none =>
          rw [hstep] at h
          cases h
      | some q₁ =>
          obtain ⟨hrun, hq₁⟩ := hP q a q₁ hq hstep
          rw [hstep] at h
          rw [List.flatMap_cons, List.foldlM_append, hrun]
          exact ih hq₁ h

end Passes

variable {α : Type} [DecidableEq α] {w s : List α}

/-- How much of the word stands at the end of what was read; the whole word is refused. The word has at least
two letters and its first letter only once. -/
def seek (w : List α) (k : Nat) (a : α) : Option Nat :=
  if w[k]? = some a then if k + 1 = w.length then none else some (k + 1)
  else if w[0]? = some a then some 1 else some 0

theorem seek_drop (k : Nat) (hk : k < w.length) : (w.drop k).foldlM (seek w) k = none := by
  rw [List.drop_eq_getElem_cons hk, List.foldlM_cons, seek, if_pos (List.getElem?_eq_getElem hk)]
  by_cases hlast : k + 1 = w.length
  · rw [if_pos hlast]
    rfl
  · rw [if_neg hlast]
    exact seek_drop (k + 1) (by omega)
termination_by w.length - k

/-- A text that the machine reads holds the word nowhere. -/
theorem not_infix_of_seek {a b : α} {q q' : Nat} (hw : a ∉ b :: w) (h : s.foldlM (seek (a :: b :: w)) q = some q') :
    ¬(a :: b :: w) <:+: s := by
  rintro ⟨pre, post, rfl⟩
  rw [List.append_assoc, List.foldlM_append] at h
  cases hpre : pre.foldlM (seek (a :: b :: w)) q with
  | none =>
      rw [hpre] at h
      cases h
  | some k =>
      have hhead : (a :: b :: w)[0]? = some a := rfl
      have hfirst : seek (a :: b :: w) k a = some 1 := by
        rw [seek]
        cases k with
        | zero => rw [if_pos hhead, if_neg (by simp)]
        | succ k =>
            have hother : (a :: b :: w)[k + 1]? ≠ some a := fun hget => hw (List.mem_of_getElem? hget)
            rw [if_neg hother, if_pos hhead]
      have hrest : (b :: w).foldlM (seek (a :: b :: w)) 1 = none := seek_drop (w := a :: b :: w) 1 (by simp)
      rw [hpre, List.cons_append, Option.bind_eq_bind, Option.bind_some, List.foldlM_cons, hfirst, Option.bind_eq_bind,
        Option.bind_some, List.foldlM_append, hrest] at h
      cases h

end Scan
