import Mathlib.Data.List.Induction
import Mathlib.Tactic.Common

/-! Runs of a labelled transition system, with the trace of the labels, and the two ways of carrying
something along a run: an invariant of the states, and a relation between the trace and the state it
leads to. -/

namespace Runs

variable {σ lab : Type}

/-- `Run step s trace t`: the steps of `trace`, in order, lead from `s` to `t`. -/
inductive Run (step : σ → lab → σ → Prop) (s : σ) : List lab → σ → Prop where
  | refl : Run step s [] s
  | snoc {trace : List lab} {t u : σ} {l : lab} (h : Run step s trace t) (hstep : step t l u) :
      Run step s (trace ++ [l]) u

variable {step : σ → lab → σ → Prop} {s t u : σ} {trace trace' : List lab}

theorem Run.append (h : Run step s trace t) (h' : Run step t trace' u) : Run step s (trace ++ trace') u := by
  induction h' with
  | refl => rwa [List.append_nil]
  | snoc _ hstep ih => rw [← List.append_assoc]; exact ih.snoc hstep

theorem Run.single {l : lab} (h : step s l t) : Run step s [l] t := by
  simpa using Run.refl.snoc h

/-- A run through `trace ++ trace'` passes a state that divides it. -/
theorem Run.split (h : Run step s (trace ++ trace') u) : ∃ t, Run step s trace t ∧ Run step t trace' u := by
  induction trace' using List.reverseRecOn generalizing u with
  | nil => exact ⟨u, by rwa [List.append_nil] at h, .refl⟩
  | append_singleton trace' l ih =>
      rw [← List.append_assoc] at h
      generalize hall : trace ++ trace' ++ [l] = all at h
      cases h with
      | refl => simp at hall
      | snoc hrun hstep =>
          obtain ⟨hinit, hlast⟩ := List.append_inj' hall rfl
          cases hlast
          rw [← hinit] at hrun
          obtain ⟨t, hleft, hright⟩ := ih hrun
          exact ⟨t, hleft, hright.snoc hstep⟩

theorem Run.nil_inv (h : Run step s [] t) : s = t := by
  generalize hnil : ([] : List lab) = all at h
  cases h with
  | refl => rfl
  | snoc => simp at hnil

theorem Run.cons_inv {l : lab} (h : Run step s (l :: trace) u) : ∃ t, step s l t ∧ Run step t trace u := by
  obtain ⟨t, hfirst, hrest⟩ : ∃ t, Run step s [l] t ∧ Run step t trace u := Run.split h
  generalize hall : [l] = all at hfirst
  cases hfirst with
  | refl => cases hall
  | snoc hrun hstep =>
      obtain ⟨hinit, hlast⟩ := List.append_inj' ((List.nil_append [l]).trans hall) rfl
      cases hlast
      rw [← hinit] at hrun
      rw [← hrun.nil_inv] at hstep
      exact ⟨t, hstep, hrest⟩

/-- The last step of a run. -/
theorem Run.snoc_inv {l : lab} (h : Run step s (trace ++ [l]) u) : ∃ t, Run step s trace t ∧ step t l u := by
  obtain ⟨t, hrun, hlast⟩ := h.split
  obtain ⟨u', hstep, hnil⟩ := hlast.cons_inv
  exact ⟨t, hrun, hnil.nil_inv ▸ hstep⟩

theorem Run.cons {l : lab} (hstep : step s l t) (h : Run step t trace u) : Run step s (l :: trace) u :=
  (Run.single hstep).append h

/-- Where a step has one outcome, so has a run. -/
theorem Run.det (h : Run step s trace t) (hstep : ∀ s l t u, step s l t → step s l u → t = u) (h' : Run step s trace u) :
    t = u := by
  induction h generalizing u with
  | refl => exact h'.nil_inv
  | snoc _ hs ih =>
      obtain ⟨v, hrun, hlast⟩ := h'.snoc_inv
      cases ih hrun
      exact hstep _ _ _ _ hs hlast

/-- What holds at the start and is kept by every step holds after every run. -/
theorem Run.invariant {I : σ → Prop} (h : Run step s trace t) (hinit : I s)
    (hstep : ∀ t l u, I t → step t l u → I u) : I t := by
  induction h with
  | refl => exact hinit
  | snoc _ hs ih => exact hstep _ _ _ ih hs

/-- A relation between the trace and the state it leads to, step by step. -/
theorem Run.history {P : List lab → σ → Prop} (h : Run step s trace t) (hinit : P [] s)
    (hstep : ∀ trace t l u, Run step s trace t → P trace t → step t l u → P (trace ++ [l]) u) : P trace t := by
  induction h with
  | refl => exact hinit
  | snoc hrun hs ih => exact hstep _ _ _ _ hrun ih hs

/-! ### Runs all of whose steps have a property -/

variable {I : σ → Prop} {A B : σ → lab → σ → Prop}

theorem Run.mono {step' : σ → lab → σ → Prop} (h : Run step s trace t) (hstep : ∀ t l u, step t l u → step' t l u) :
    Run step' s trace t := by
  induction h with
  | refl => exact .refl
  | snoc _ hs ih => exact ih.snoc (hstep _ _ _ hs)

/-- Where each step of a good state has `A` exactly if it has `B`, and `B` leads to a good state again, the runs with
`A` are the runs with `B`. -/
theorem Run.along_iff (hinit : I s) (hiff : ∀ t l u, I t → step t l u → (A t l u ↔ B t l u))
    (hkeep : ∀ t l u, I t → step t l u → B t l u → I u) :
    Run (fun t l u => step t l u ∧ A t l u) s trace t ↔ Run (fun t l u => step t l u ∧ B t l u) s trace t := by
  have hgood {C : σ → lab → σ → Prop} (hC : ∀ t l u, I t → step t l u → C t l u → B t l u) {trace : List lab} {t : σ}
      (h : Run (fun t l u => step t l u ∧ C t l u) s trace t) :
      I t ∧ Run (fun t l u => step t l u ∧ B t l u) s trace t := by
    induction h with
    | refl => exact ⟨hinit, .refl⟩
    | snoc _ hs ih =>
        have hB := hC _ _ _ ih.1 hs.1 hs.2
        exact ⟨hkeep _ _ _ ih.1 hs.1 hB, ih.2.snoc ⟨hs.1, hB⟩⟩
  constructor
  · exact fun h => (hgood (fun t l u hI hs => (hiff t l u hI hs).mp) h).2
  · intro h
    induction h with
    | refl => exact .refl
    | snoc hrun hs ih =>
        have hI := (hgood (fun _ _ _ _ _ hB => hB) hrun).1
        exact ih.snoc ⟨hs.1, (hiff _ _ _ hI hs.1).mpr hs.2⟩

/-- Where each step of a good state that has `B` has `A` and leads to a good state, the runs with `B` are runs with
`A`. -/
theorem Run.along (hinit : I s) (hstep : ∀ t l u, I t → step t l u → B t l u → A t l u ∧ I u)
    (h : Run (fun t l u => step t l u ∧ B t l u) s trace t) : I t ∧ Run (fun t l u => step t l u ∧ A t l u) s trace t := by
  induction h with
  | refl => exact ⟨hinit, .refl⟩
  | snoc _ hs ih =>
      obtain ⟨hA, hI⟩ := hstep _ _ _ ih.1 hs.1 hs.2
      exact ⟨hI, ih.2.snoc ⟨hs.1, hA⟩⟩

/-! ### What holds of every label and the trace in front of it -/

def Each (P : List lab → lab → Prop) (trace : List lab) : Prop := ∀ before l after, trace = before ++ l :: after → P before l

variable {P : List lab → lab → Prop} {l : lab}

theorem Each.nil : Each P [] := fun before l after h => absurd h.symm (by simp)

theorem Each.snoc (h : Each P trace) (hl : P trace l) : Each P (trace ++ [l]) := by
  intro before l' after hsplit
  rcases List.eq_nil_or_concat after with rfl | ⟨after, last, rfl⟩
  · obtain ⟨hbefore, hlast⟩ := List.append_inj' hsplit rfl
    cases hlast
    rwa [← hbefore]
  · rw [List.concat_eq_append, ← List.cons_append, ← List.append_assoc] at hsplit
    exact h before l' after (List.append_inj' hsplit rfl).1

/-- Some label of the trace starts, in view of the trace in front of it, and no label behind it ends. -/
def Since (starts : List lab → lab → Prop) (ends : lab → Prop) (trace : List lab) : Prop :=
  ∃ before l after, trace = before ++ l :: after ∧ starts before l ∧ ∀ k ∈ after, ¬ends k

variable {starts : List lab → lab → Prop} {ends : lab → Prop}

theorem not_since_nil : ¬Since starts ends [] := by
  rintro ⟨before, l, after, h, -, -⟩
  simp at h

theorem since_snoc : Since starts ends (trace ++ [l]) ↔ starts trace l ∨ (¬ends l ∧ Since starts ends trace) := by
  constructor
  · rintro ⟨before, k, after, hsplit, hstart, hends⟩
    rcases List.eq_nil_or_concat after with rfl | ⟨after, last, rfl⟩
    · obtain ⟨rfl, hlast⟩ := List.append_inj' hsplit rfl
      cases hlast
      exact Or.inl hstart
    · rw [List.concat_eq_append, ← List.cons_append, ← List.append_assoc] at hsplit
      obtain ⟨rfl, hlast⟩ := List.append_inj' hsplit rfl
      cases hlast
      rw [List.concat_eq_append, List.forall_mem_append, List.forall_mem_singleton] at hends
      exact Or.inr ⟨hends.2, before, k, after, rfl, hstart, hends.1⟩
  · rintro (hstart | ⟨hl, before, k, after, rfl, hstart, hends⟩)
    · exact ⟨trace, l, [], rfl, hstart, nofun⟩
    · refine ⟨before, k, after ++ [l], by rw [List.append_assoc, List.cons_append], hstart, ?_⟩
      exact List.forall_mem_append.mpr ⟨hends, List.forall_mem_singleton.mpr hl⟩

/-- A label that ends stands in front of what has held since, and is not the one that started it. -/
theorem Since.mem_behind (h : Since starts ends trace) {before after : List lab} {k : lab}
    (hsplit : trace = before ++ k :: after) (hk : ends k) (hstart : ∀ b, ¬starts b k) :
    ∃ b, ∃ l ∈ after, starts b l := by
  obtain ⟨b, l, c, hsince, hl, hends⟩ := h
  rw [hsplit] at hsince
  rcases List.append_eq_append_iff.mp hsince with ⟨d, -, hd⟩ | ⟨d, -, hd⟩
  · cases d with
    | nil =>
        cases hd
        exact absurd hl (hstart _)
    | cons x d =>
        cases hd
        exact ⟨b, l, List.mem_append_right _ List.mem_cons_self, hl⟩
  · cases d with
    | nil =>
        cases hd
        exact absurd hl (hstart _)
    | cons x d =>
        cases hd
        exact absurd hk (hends k (List.mem_append_right _ List.mem_cons_self))

theorem pairwise_snoc {R : lab → lab → Prop} (h : trace.Pairwise R) (hl : ∀ x ∈ trace, R x l) :
    (trace ++ [l]).Pairwise R := by
  rw [List.pairwise_append]
  refine ⟨h, List.pairwise_singleton R l, fun x hx y hy => ?_⟩
  rw [List.mem_singleton.mp hy]
  exact hl x hx

end Runs
