import ZigKernel.KernelVfs
import ZigKernel.LibWalk

/-! Paths: what the tokens of a path are, and how the two ways of splitting a path, at each slash and at the last one,
fit together. -/

namespace Kernel.Vfs

open Zig

section Components

variable {name n : Bytes}

theorem components_nil : components [] = [] := rfl

/-- Components are neither empty nor do they contain a slash. -/
theorem ne_nil_of_mem_components (h : n ∈ components name) : n ≠ [] := of_decide_eq_true (List.mem_filter.mp h).2

theorem components_append_slash (a b : Bytes) : components (a ++ slash :: b) = components a ++ components b := by
  rw [components, List.splitOn_append_cons_self, List.filter_append]
  rfl

/-- A leading slash makes no difference. -/
theorem components_stripSlash (path : Bytes) : components (stripSlash path) = components path := by
  cases path with
  | nil => rfl
  | cons c rest =>
      rw [stripSlash]
      split
      · next hc =>
        rw [hc]
        exact (components_append_slash [] rest).symm
      · rfl

theorem components_of_notMem (hslash : slash ∉ name) (hne : name ≠ []) : components name = [name] := by
  rw [components, List.splitOn_eq_singleton hslash]
  exact List.filter_cons_of_pos (decide_eq_true hne)

/-- A path is one name, or a name in front of a slash and a path. -/
theorem path_induction {P : Bytes → Prop} (hname : ∀ n, slash ∉ n → P n)
    (hslash : ∀ n rest, slash ∉ n → P rest → P (n ++ slash :: rest)) (path : Bytes) : P path := by
  generalize hlen : path.length = k
  induction k using Nat.strong_induction_on generalizing path with
  | h k ih =>
      by_cases hmem : slash ∈ path
      · obtain ⟨n, rest, rfl, hn⟩ := List.eq_append_cons_of_mem hmem
        refine hslash n rest hn (ih rest.length ?_ rest rfl)
        rw [List.length_append, List.length_cons] at hlen
        omega
      · exact hname path hmem

theorem slash_notMem_of_mem_components (h : n ∈ components name) : slash ∉ n := by
  induction name using path_induction with
  | hname name hslash =>
      by_cases hne : name = []
      · rw [hne] at h
        cases h
      · rw [components_of_notMem hslash hne, List.mem_singleton] at h
        rwa [h]
  | hslash first rest hslash ih =>
      rw [components_append_slash] at h
      rcases List.mem_append.mp h with h | h
      · by_cases hne : first = []
        · rw [hne] at h
          cases h
        · rw [components_of_notMem hslash hne, List.mem_singleton] at h
          rwa [h]
      · exact ih h

/-- A component is a path of its own. -/
theorem components_of_mem (h : n ∈ components name) : components n = [n] :=
  components_of_notMem (slash_notMem_of_mem_components h) (ne_nil_of_mem_components h)

end Components

/-! ### The last slash -/

/-- The path without its last component, up to the last slash. -/
def parentPath (rel : Bytes) : Bytes :=
  match lastSlash rel with
  | none => []
  | some i => rel.take i

theorem idxOf?_append_cons {α : Type} [BEq α] [LawfulBEq α] {a : α} {front : List α} (h : a ∉ front) (back : List α) :
    (front ++ a :: back).idxOf? a = some front.length := by
  induction front with
  | nil => rw [List.nil_append, List.idxOf?_cons, if_pos (beq_self_eq_true a), List.length_nil]
  | cons b front ih =>
      rw [List.mem_cons, not_or] at h
      rw [List.cons_append, List.idxOf?_cons, if_neg fun heq => h.1 (eq_of_beq heq).symm, ih h.2]
      rfl

theorem lastSlash_append {front back : Bytes} (h : slash ∉ back) : lastSlash (front ++ slash :: back) = some front.length := by
  have hrev : (front ++ slash :: back).reverse = back.reverse ++ slash :: front.reverse := by
    rw [List.reverse_append, List.reverse_cons, List.append_assoc, List.singleton_append]
  rw [lastSlash, hrev, idxOf?_append_cons fun hmem => h (List.mem_reverse.mp hmem), Option.map_some, List.length_append,
    List.length_cons, List.length_reverse]
  congr 1
  omega

theorem lastSlash_of_notMem {rel : Bytes} (h : slash ∉ rel) : lastSlash rel = none := by
  rw [lastSlash, List.idxOf?_eq_none_iff.mpr fun hmem => h (List.mem_reverse.mp hmem)]
  rfl

theorem basename_append {front back : Bytes} (h : slash ∉ back) : basename (front ++ slash :: back) = back := by
  rw [basename, lastSlash_append h]
  have hdrop : (front ++ slash :: back).drop (front.length + 1) = back := by
    rw [List.drop_append, List.drop_of_length_le (Nat.le_succ _), List.nil_append, Nat.add_sub_cancel_left]
    rfl
  exact hdrop

theorem parentPath_append {front back : Bytes} (h : slash ∉ back) : parentPath (front ++ slash :: back) = front := by
  rw [parentPath, lastSlash_append h]
  exact List.take_left

/-- What the last slash divides. -/
theorem split_last (rel : Bytes) : slash ∉ rel ∨ ∃ front back, slash ∉ back ∧ rel = front ++ slash :: back := by
  by_cases hmem : slash ∈ rel
  · obtain ⟨back, front, hsplit, hback⟩ := List.eq_append_cons_of_mem (List.mem_reverse.mpr hmem)
    refine Or.inr ⟨front.reverse, back.reverse, fun h => hback (List.mem_reverse.mp h), ?_⟩
    rw [← List.reverse_reverse rel, hsplit, List.reverse_append, List.reverse_cons, List.append_assoc]
    rfl
  · exact Or.inl hmem

/-- A basename is the last component, unless the path ends with a slash. -/
theorem components_basename {rel : Bytes} (h : basename rel ≠ []) :
    components rel = components (parentPath rel) ++ [basename rel] := by
  rcases split_last rel with hslash | ⟨front, back, hback, rfl⟩
  · have hbase : basename rel = rel := by rw [basename, lastSlash_of_notMem hslash]
    rw [hbase] at h ⊢
    rw [parentPath, lastSlash_of_notMem hslash, components_of_notMem hslash h]
    rfl
  · rw [basename_append hback] at h ⊢
    rw [parentPath_append hback, components_append_slash, components_of_notMem hback h]

/-- The first name of a path that is cut off after `n` bytes, where no component is longer. -/
theorem components_take {rel : Bytes} {n : Nat} (hlen : ∀ c ∈ components rel, c.length ≤ n) (hne : rel.take n ≠ [])
    (hslash : slash ∉ rel.take n) : ∃ rest, components rel = rel.take n :: rest := by
  by_cases hmem : slash ∈ rel
  · obtain ⟨first, rest, rfl, hfirst⟩ := List.eq_append_cons_of_mem hmem
    have hge : n ≤ first.length := by
      by_contra hlt
      refine hslash ?_
      obtain ⟨m, hm⟩ : ∃ m, n - first.length = m + 1 := ⟨n - first.length - 1, by omega⟩
      rw [List.take_append, List.mem_append, hm, List.take_succ_cons]
      exact Or.inr List.mem_cons_self
    rw [List.take_append_of_le_length hge] at hne ⊢
    have hfne : first ≠ [] := by
      rintro rfl
      exact hne List.take_nil
    rw [components_append_slash, components_of_notMem hfirst hfne] at hlen ⊢
    have hle : first.length ≤ n := hlen first List.mem_cons_self
    rw [List.take_of_length_le hle]
    exact ⟨_, rfl⟩
  · have hrel : rel ≠ [] := by
      rintro rfl
      exact hne List.take_nil
    rw [components_of_notMem hmem hrel] at hlen ⊢
    rw [List.take_of_length_le (hlen rel List.mem_cons_self)]
    exact ⟨[], rfl⟩

/-! ### Lookups are walks -/

section Lookup

variable {v : Vfs} {r : Fin maxDentries}

theorem walk_eq (v : Vfs) (d : Fin maxDentries) (names : List Bytes) : v.walk d names = Walks.walk v.lookupChild d names := by
  induction names generalizing d with
  | nil => rfl
  | cons n names ih =>
      rw [walk, Walks.walk_cons]
      cases v.lookupChild d n with
      | none => rfl
      | some c => exact ih c

theorem lookupPath_eq (v : Vfs) (d : Fin maxDentries) (path : Bytes) :
    v.lookupPath d path = Walks.walk v.lookupChild d (components path) := by
  rw [lookupPath, ← components_stripSlash path, ← walk_eq]
  split
  · next h =>
    rw [h]
    rfl
  · rfl

theorem lookup_eq (h : v.rootDentry = some r) (path : Bytes) :
    v.lookup path = .ok (Walks.walk v.lookupChild r (components path)) := by
  rw [lookup, root, h, ← lookupPath_eq]
  rfl

/-- The parent that a file gets: the directory in front of its last slash, or else the root. -/
theorem parentOf_eq (h : v.rootDentry = some r) (rel : Bytes) :
    v.parentOf rel = .ok (some ((Walks.walk v.lookupChild r (components (parentPath rel))).getD r)) := by
  rw [parentOf, parentPath]
  cases lastSlash rel with
  | none => exact congrArg Outcome.ok h
  | some i =>
      dsimp only
      by_cases hnil : (rel.take i).length = 0
      · rw [if_pos hnil, List.eq_nil_of_length_eq_zero hnil]
        exact congrArg Outcome.ok h
      · rw [if_neg hnil, lookup_eq h, Outcome.ok_bind, h]
        cases Walks.walk v.lookupChild r (components (rel.take i)) <;> rfl

end Lookup

end Kernel.Vfs
