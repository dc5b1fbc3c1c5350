import Mathlib.Data.List.Nodup

/-! First occurrences. A pass over a list keeps an element that has a key if no element before it has the same key.
Each key is kept once, with the first element that has it, and the keys stand in the order in which they first
occur. -/

namespace Firsts

variable {α κ : Type} [DecidableEq κ] {key : α → Option κ} {before l : List α} {a : α} {k : κ}

/-- What is kept of a list behind the elements `before`. -/
def firsts (key : α → Option κ) (before : List α) : List α → List (α × κ)
  | [] => []
  | a :: rest =>
      match key a with
      | none => firsts key (before ++ [a]) rest
      | some k =>
          if k ∈ before.filterMap key then firsts key (before ++ [a]) rest
          else (a, k) :: firsts key (before ++ [a]) rest

/-- `kept` lists each of the values once, in the order in which they first occur. -/
structure Lists (values kept : List κ) : Prop where
  mem : ∀ v, v ∈ kept ↔ v ∈ values
  order : kept.Pairwise fun v v' => values.idxOf v < values.idxOf v'

theorem Lists.nodup {values kept : List κ} (h : Lists values kept) : kept.Nodup := by
  apply h.order.imp
  rintro v v' hlt rfl
  exact Nat.lt_irrefl _ hlt

theorem firsts_none {rest : List α} (h : key a = none) :
    firsts key before (a :: rest) = firsts key (before ++ [a]) rest := by
  rw [firsts, h]

theorem firsts_seen {rest : List α} (h : key a = some k) (hseen : k ∈ before.filterMap key) :
    firsts key before (a :: rest) = firsts key (before ++ [a]) rest := by
  simp only [firsts, h]
  exact if_pos hseen

theorem firsts_new {rest : List α} (h : key a = some k) (hnew : k ∉ before.filterMap key) :
    firsts key before (a :: rest) = (a, k) :: firsts key (before ++ [a]) rest := by
  simp only [firsts, h]
  exact if_neg hnew

/-- An element is passed over, or it is the first with its key. -/
theorem firsts_cases (key : α → Option κ) (before : List α) (a : α) (rest : List α) :
    firsts key before (a :: rest) = firsts key (before ++ [a]) rest ∧
        (∀ k, key a = some k → k ∈ before.filterMap key) ∨
      ∃ k, key a = some k ∧ k ∉ before.filterMap key ∧
        firsts key before (a :: rest) = (a, k) :: firsts key (before ++ [a]) rest := by
  cases hkey : key a with
  | none => exact Or.inl ⟨firsts_none hkey, fun k h => by cases h⟩
  | some k =>
      by_cases hseen : k ∈ before.filterMap key
      · refine Or.inl ⟨firsts_seen hkey hseen, fun k' h => ?_⟩
        cases h
        exact hseen
      · exact Or.inr ⟨k, rfl, hseen, firsts_new hkey hseen⟩

omit [DecidableEq κ] in
theorem mem_snoc (v : κ) : v ∈ (before ++ [a]).filterMap key ↔ v ∈ before.filterMap key ∨ key a = some v := by
  simp only [List.filterMap_append, List.mem_append, List.mem_filterMap, List.mem_singleton, exists_eq_left]

theorem mem_firsts (v : κ) :
    v ∈ (firsts key before l).map Prod.snd ↔ v ∈ l.filterMap key ∧ v ∉ before.filterMap key := by
  induction l generalizing before with
  | nil => simp [firsts]
  | cons a rest ih =>
      have hsplit : v ∈ (a :: rest).filterMap key ↔ key a = some v ∨ v ∈ rest.filterMap key := by
        simp only [List.mem_filterMap, List.mem_cons, exists_eq_or_imp]
      rw [hsplit]
      rcases firsts_cases key before a rest with ⟨hskip, hseen⟩ | ⟨k, hkey, hnew, hkeep⟩
      · rw [hskip, ih, mem_snoc, not_or]
        constructor
        · exact fun h => ⟨Or.inr h.1, h.2.1⟩
        · rintro ⟨hv | hv, hbefore⟩
          · exact absurd (hseen v hv) hbefore
          · exact ⟨hv, hbefore, fun h => hbefore (hseen v h)⟩
      · rw [hkeep, List.map_cons, List.mem_cons, ih, mem_snoc, not_or, hkey, Option.some.injEq]
        constructor
        · rintro (rfl | h)
          · exact ⟨Or.inl rfl, hnew⟩
          · exact ⟨Or.inr h.1, h.2.1⟩
        · rintro ⟨rfl | hv, hbefore⟩
          · exact Or.inl rfl
          · by_cases hk : v = k
            · exact Or.inl hk
            · exact Or.inr ⟨hv, hbefore, fun h => hk h.symm⟩

/-- By induction on the list: what is kept of the rest has no key of the elements before it. -/
theorem order_firsts : ((firsts key before l).map Prod.snd).Pairwise
    fun v v' => ((before ++ l).filterMap key).idxOf v < ((before ++ l).filterMap key).idxOf v' := by
  induction l generalizing before with
  | nil => exact .nil
  | cons a rest ih =>
      have hall : before ++ a :: rest = before ++ [a] ++ rest := by simp
      have htail := @ih (before ++ [a])
      rw [← hall] at htail
      rcases firsts_cases key before a rest with ⟨hskip, -⟩ | ⟨k, hkey, hnew, hkeep⟩
      · rw [hskip]
        exact htail
      · rw [hkeep, List.map_cons, List.pairwise_cons]
        refine ⟨fun v hv => ?_, htail⟩
        have hbehind := ((mem_firsts v).mp hv).2
        have hfront : k ∈ (before ++ [a]).filterMap key := (mem_snoc k).mpr (Or.inr hkey)
        rw [hall, List.filterMap_append, List.idxOf_append_of_mem hfront, List.idxOf_append_of_notMem hbehind]
        exact Nat.lt_of_lt_of_le (List.idxOf_lt_length_iff.mpr hfront) (Nat.le_add_right _ _)

theorem lists_firsts (key : α → Option κ) (l : List α) : Lists (l.filterMap key) ((firsts key [] l).map Prod.snd) where
  mem v := by
    rw [mem_firsts]
    exact and_iff_left List.not_mem_nil
  order := @order_firsts _ _ _ _ [] l

/-- What is kept for a key is the first element that has it. -/
theorem find_firsts (h : (a, k) ∈ firsts key before l) :
    key a = some k ∧ (before ++ l).find? (fun b => key b == some k) = some a := by
  induction l generalizing before with
  | nil => cases h
  | cons a' rest ih =>
      have hall : before ++ a' :: rest = before ++ [a'] ++ rest := by simp
      rcases firsts_cases key before a' rest with ⟨hskip, -⟩ | ⟨k', hkey, hnew, hkeep⟩
      · rw [hskip] at h
        rw [hall]
        exact ih h
      · rw [hkeep, List.mem_cons] at h
        rcases h with h | h
        · cases h
          refine ⟨hkey, ?_⟩
          have hbefore : before.find? (fun b => key b == some k) = none := by
            rw [List.find?_eq_none]
            intro b hb heq
            exact hnew (List.mem_filterMap.mpr ⟨b, hb, eq_of_beq heq⟩)
          rw [List.find?_append, hbefore, Option.none_or]
          exact List.find?_cons_of_pos (beq_iff_eq.mpr hkey)
        · rw [hall]
          exact ih h

section Map

variable {κ' : Type} [DecidableEq κ'] {values kept : List κ} {f : κ → κ'}

theorem idxOf_map (hf : Function.Injective f) (values : List κ) (v : κ) :
    (values.map f).idxOf (f v) = values.idxOf v := by
  induction values with
  | nil => rfl
  | cons u values ih =>
      by_cases h : u = v
      · rw [h, List.map_cons, List.idxOf_cons_self, List.idxOf_cons_self]
      · rw [List.map_cons, List.idxOf_cons_ne _ h, List.idxOf_cons_ne _ (hf.ne h), ih]

/-- Names that tell the values apart are listed as the values are. -/
theorem Lists.map (h : Lists values kept) (hf : Function.Injective f) : Lists (values.map f) (kept.map f) where
  mem v := by simp only [List.mem_map, h.mem]
  order := by
    rw [List.pairwise_map]
    apply h.order.imp
    intro v v' hlt
    rwa [idxOf_map hf, idxOf_map hf]

end Map

end Firsts
