import Mathlib.Data.Fintype.Card
import Mathlib.Data.List.Induction
import Mathlib.Tactic.Common

/-! Walks along labels: from a node, one label after the other leads to a child. Where a child determines its parent and
its label, a node is reached along one list of labels only; and a new leaf changes the walks to itself and no others. -/

namespace Walks

variable {ν κ : Type}

def walk (child : ν → κ → Option ν) (s : ν) (labels : List κ) : Option ν := labels.foldlM child s

section Walk

variable {child child' : ν → κ → Option ν} {s d p root : ν} {n : κ} {labels labels' : List κ}

@[simp] theorem walk_nil : walk child s [] = some s := rfl

theorem walk_cons (l : κ) : walk child s (l :: labels) = (child s l).bind fun c => walk child c labels := rfl

theorem walk_concat (l : κ) : walk child s (labels ++ [l]) = (walk child s labels).bind fun c => child c l := by
  rw [walk, List.foldlM_append, walk]
  cases labels.foldlM child s with
  | none => rfl
  | some c =>
      change (child c l).bind some = child c l
      cases child c l <;> rfl

/-- The last step of a walk. -/
theorem walk_concat_eq_some {l : κ} (h : walk child s (labels ++ [l]) = some d) :
    ∃ c, walk child s labels = some c ∧ child c l = some d := by
  rw [walk_concat] at h
  exact Option.bind_eq_some_iff.mp h

/-- What holds of the start and passes from a node to its children holds at the end. -/
theorem walk_induction {P : ν → Prop} (hs : P s) (hchild : ∀ c l e, P c → child c l = some e → P e)
    (h : walk child s labels = some d) : P d := by
  induction labels using List.reverseRecOn generalizing d with
  | nil =>
      cases h
      exact hs
  | append_singleton labels l ih =>
      obtain ⟨c, hc, hd⟩ := walk_concat_eq_some h
      exact hchild c l d (ih hc) hd

/-- The walks from a node agree where the children of all that is met do. -/
theorem walk_congr {P : ν → Prop} (hs : P s) (hchild : ∀ c l e, P c → child c l = some e → P e)
    (hsame : ∀ c l, P c → child' c l = child c l) (labels : List κ) : walk child' s labels = walk child s labels := by
  induction labels using List.reverseRecOn with
  | nil => rfl
  | append_singleton labels l ih =>
      rw [walk_concat, walk_concat, ih]
      cases hwalk : walk child s labels with
      | none => rfl
      | some c => exact hsame c l (walk_induction hs hchild hwalk)

/-- Each child has one parent and one label, and the root is no child. -/
structure Rooted (child : ν → κ → Option ν) (root : ν) (parent : ν → Option ν) (label : ν → κ) : Prop where
  up : ∀ p l c, child p l = some c → parent c = some p
  named : ∀ p l c, child p l = some c → label c = l
  top : parent root = none

theorem Rooted.ne_root {parent : ν → Option ν} {label : ν → κ} (h : Rooted child root parent label) {l : κ}
    (hd : child p l = some d) : d ≠ root := by
  rintro rfl
  have hparent := h.up p l d hd
  rw [h.top] at hparent
  cases hparent

theorem Rooted.walk_inj {parent : ν → Option ν} {label : ν → κ} (h : Rooted child root parent label)
    (hd : walk child root labels = some d) (hd' : walk child root labels' = some d) : labels = labels' := by
  induction labels using List.reverseRecOn generalizing labels' d with
  | nil =>
      cases hd
      rcases List.eq_nil_or_concat labels' with rfl | ⟨init, l, rfl⟩
      · rfl
      · rw [List.concat_eq_append] at hd'
        obtain ⟨c, -, hc⟩ := walk_concat_eq_some hd'
        exact absurd rfl (h.ne_root hc)
  | append_singleton labels l ih =>
      obtain ⟨c, hc, hlast⟩ := walk_concat_eq_some hd
      rcases List.eq_nil_or_concat labels' with rfl | ⟨init, l', rfl⟩
      · cases hd'
        exact absurd rfl (h.ne_root hlast)
      · rw [List.concat_eq_append] at hd' ⊢
        obtain ⟨c', hc', hlast'⟩ := walk_concat_eq_some hd'
        have hparents := (h.up c l d hlast).symm.trans (h.up c' l' d hlast')
        cases Option.some.inj hparents
        rw [ih hc hc', ← h.named _ _ _ hlast, ← h.named _ _ _ hlast']

/-- The nodes along a walk from the root are different, so the walk is short. -/
theorem Rooted.length_lt_card [Fintype ν] {parent : ν → Option ν} {label : ν → κ}
    (h : Rooted child root parent label) (hd : walk child root labels = some d) : labels.length < Fintype.card ν := by
  have hprefix : ∀ i, ∃ c, walk child root (labels.take i) = some c := by
    intro i
    rw [walk, ← List.take_append_drop i labels, List.foldlM_append] at hd
    obtain ⟨c, hc, -⟩ := Option.bind_eq_some_iff.mp hd
    exact ⟨c, hc⟩
  choose node hnode using hprefix
  have hinj : Function.Injective fun i : Fin (labels.length + 1) => node i := by
    intro i j hij
    have htake := h.walk_inj (hnode i) ((hnode j).trans (congrArg some hij.symm))
    have hlen := congrArg List.length htake
    rw [List.length_take, List.length_take, min_eq_left (Nat.le_of_lt_succ i.isLt),
      min_eq_left (Nat.le_of_lt_succ j.isLt)] at hlen
    exact Fin.ext hlen
  have hcard := Fintype.card_le_of_injective _ hinj
  rw [Fintype.card_fin] at hcard
  exact hcard

/-! ### A new leaf -/

/-- `child'` has the leaf `d` below `p` with the label `n`, where `child` has nothing or another leaf. -/
structure Grafted (child child' : ν → κ → Option ν) (p : ν) (n : κ) (d : ν) : Prop where
  vacant : ∀ y l, child p n = some y → child y l = none
  new : child' p n = some d
  leaf : ∀ l, child' d l = none
  fresh : ∀ q l, child q l ≠ some d
  other : ∀ q l, q ≠ d → ¬(q = p ∧ l = n) → child' q l = child q l

theorem Grafted.ne_leaf (h : Grafted child child' p n d) {e : ν} (hs : s ≠ d) (hwalk : walk child s labels = some e) :
    e ≠ d := by
  refine walk_induction (P := fun e => e ≠ d) hs (fun c l e _ he => ?_) hwalk
  rintro rfl
  exact h.fresh c l he

section Grafted

variable {parent : ν → Option ν} {label : ν → κ}

/-- A step that does not go to the new leaf. -/
theorem Grafted.walk_step (h : Grafted child child' p n d) (hrooted : Rooted child root parent label) (hroot : root ≠ d)
    (hp : walk child root labels = some p) (hsame : walk child' root labels' = walk child root labels') {l : κ}
    (hne : ¬(labels' = labels ∧ l = n)) : walk child' root (labels' ++ [l]) = walk child root (labels' ++ [l]) := by
  rw [walk_concat, walk_concat, hsame]
  cases hwalk : walk child root labels' with
  | none => rfl
  | some c =>
      refine h.other c l (h.ne_leaf hroot hwalk) ?_
      rintro ⟨rfl, rfl⟩
      exact hne ⟨hrooted.walk_inj hwalk hp, rfl⟩

/-- A walk that is too short for the new leaf. -/
theorem Grafted.walk_short (h : Grafted child child' p n d) (hrooted : Rooted child root parent label) (hroot : root ≠ d)
    (hp : walk child root labels = some p) (hlen : labels'.length ≤ labels.length) :
    walk child' root labels' = walk child root labels' := by
  induction labels' using List.reverseRecOn with
  | nil => rfl
  | append_singleton init l ih =>
      rw [List.length_append, List.length_singleton] at hlen
      refine h.walk_step hrooted hroot hp (ih (Nat.le_of_succ_le hlen)) ?_
      rintro ⟨rfl, -⟩
      omega

/-- The new leaf is found along its labels. -/
theorem Grafted.walk_new (h : Grafted child child' p n d) (hrooted : Rooted child root parent label) (hroot : root ≠ d)
    (hp : walk child root labels = some p) : walk child' root (labels ++ [n]) = some d := by
  rw [walk_concat, h.walk_short hrooted hroot hp (Nat.le_refl _), hp]
  exact h.new

/-- Along all other labels the walks from the root are as they were. -/
theorem Grafted.walk_other (h : Grafted child child' p n d) (hrooted : Rooted child root parent label) (hroot : root ≠ d)
    (hp : walk child root labels = some p) (hne : labels' ≠ labels ++ [n]) :
    walk child' root labels' = walk child root labels' := by
  induction labels' using List.reverseRecOn with
  | nil => rfl
  | append_singleton init l ih =>
      by_cases hinit : init = labels ++ [n]
      · -- below the new leaf there is nothing, and there was nothing below what it replaces
        rw [walk_concat, walk_concat, hinit, h.walk_new hrooted hroot hp, walk_concat, hp, Option.bind_some, Option.bind_some,
          h.leaf l]
        cases hold : child p n with
        | none => rfl
        | some y => exact (h.vacant y l hold).symm
      · refine h.walk_step hrooted hroot hp (ih hinit) ?_
        rintro ⟨rfl, rfl⟩
        exact hne rfl

end Grafted

end Walk

end Walks
