import Mathlib.Algebra.Order.BigOperators.Group.List
import Mathlib.Algebra.Order.Ring.Nat
import Mathlib.Data.List.Basic
import Mathlib.Tactic.Common

/-! Paths as lists of segments: a segment stays where it is, goes up, or is a name. The normal form of a path is the
stack of the names that are left, and a path climbs when some prefix of it has gone up further than it came down. -/

namespace Lexical

inductive Kind where
  | stay
  | up
  | name
  deriving DecidableEq

variable {α : Type} (kind : α → Kind)

/-- The stack behind one more segment. -/
def push (stack : List α) (s : α) : List α :=
  match kind s with
  | .stay => stack
  | .up => stack.dropLast
  | .name => stack ++ [s]

/-- The stack behind a path. -/
def normal (stack segs : List α) : List α := segs.foldl (push kind) stack

/-- From so many levels down, a prefix of the path goes above the top. -/
def Climbs (depth : Nat) (segs : List α) : Prop :=
  ∃ p, p <+: segs ∧ depth + p.countP (kind · = .name) < p.countP (kind · = .up)

/-- The stack never gets higher than this. -/
def Within (bound : Nat) (stack segs : List α) : Prop := ∀ p, p <+: segs → (normal kind stack p).length ≤ bound

/-- The path is at `base` or below it, and so is each prefix of it that goes anywhere. -/
def Below (base segs : List α) : Prop :=
  base <+: normal kind [] segs ∧ ∀ p, p <+: segs → (∃ s ∈ p, kind s ≠ .stay) → base <+: normal kind [] p

variable {kind} {s w : α} {segs stack base lead rest : List α} {depth bound : Nat}

theorem push_stay (h : kind s = .stay) : push kind stack s = stack := by
  rw [push, h]

theorem push_up (h : kind s = .up) : push kind stack s = stack.dropLast := by
  rw [push, h]

theorem push_name (h : kind s = .name) : push kind stack s = stack ++ [s] := by
  rw [push, h]

@[simp] theorem normal_nil : normal kind stack [] = stack := rfl

@[simp] theorem normal_cons : normal kind stack (s :: segs) = normal kind (push kind stack s) segs := rfl

/-! ### Climbing -/

theorem not_climbs_nil : ¬Climbs kind depth [] := by
  rintro ⟨p, hp, hlt⟩
  rw [List.prefix_nil.mp hp] at hlt
  exact Nat.not_lt_zero _ hlt

/-- A prefix is empty, or it has the first segment in it. -/
theorem climbs_cons : Climbs kind depth (s :: segs) ↔
    ∃ p, p <+: segs ∧ depth + (s :: p).countP (kind · = .name) < (s :: p).countP (kind · = .up) := by
  constructor
  · rintro ⟨p, hp, hlt⟩
    rcases List.prefix_cons_iff.mp hp with rfl | ⟨t, rfl, ht⟩
    · exact absurd hlt (Nat.not_lt_zero _)
    · exact ⟨t, ht, hlt⟩
  · rintro ⟨p, hp, hlt⟩
    exact ⟨s :: p, (List.prefix_cons_inj s).mpr hp, hlt⟩

theorem climbs_stay (h : kind s = .stay) : Climbs kind depth (s :: segs) ↔ Climbs kind depth segs := by
  rw [climbs_cons]
  simp [Climbs, h]

theorem climbs_name (h : kind s = .name) : Climbs kind depth (s :: segs) ↔ Climbs kind (depth + 1) segs := by
  rw [climbs_cons]
  simp [Climbs, h, Nat.add_assoc, Nat.add_comm 1]

theorem climbs_up (h : kind s = .up) :
    Climbs kind depth (s :: segs) ↔ depth = 0 ∨ Climbs kind (depth - 1) segs := by
  rw [climbs_cons]
  simp only [Climbs, List.countP_cons, h, reduceCtorEq, decide_false, decide_true, Bool.false_eq_true, if_false, if_true,
    Nat.add_zero]
  constructor
  · rintro ⟨p, hp, hlt⟩
    by_cases hdepth : depth = 0
    · exact Or.inl hdepth
    · exact Or.inr ⟨p, hp, by omega⟩
  · rintro (rfl | ⟨p, hp, hlt⟩)
    · exact ⟨[], List.nil_prefix, by simp⟩
    · exact ⟨p, hp, by omega⟩

/-- A path without a segment that goes up does not climb. -/
theorem not_climbs_of_no_up (h : ∀ s ∈ segs, kind s ≠ .up) : ¬Climbs kind depth segs := by
  rintro ⟨p, hp, hlt⟩
  have hzero : p.countP (kind · = .up) = 0 := by
    refine List.countP_eq_zero.mpr fun s hs => ?_
    rw [decide_eq_true_eq]
    exact h s (hp.subset hs)
  omega

/-! ### The stack -/

theorem within_nil : Within kind bound stack [] ↔ stack.length ≤ bound := by
  constructor
  · exact fun h => h [] List.nil_prefix
  · intro h p hp
    rwa [List.prefix_nil.mp hp]

theorem within_cons :
    Within kind bound stack (s :: segs) ↔ stack.length ≤ bound ∧ Within kind bound (push kind stack s) segs := by
  constructor
  · intro h
    exact ⟨h [] List.nil_prefix, fun p hp => h (s :: p) ((List.prefix_cons_inj s).mpr hp)⟩
  · rintro ⟨hfirst, hrest⟩ p hp
    rcases List.prefix_cons_iff.mp hp with rfl | ⟨t, rfl, ht⟩
    · exact hfirst
    · exact hrest t ht

theorem Within.start (h : Within kind bound stack segs) : stack.length ≤ bound := h [] List.nil_prefix

theorem mem_push {x : α} (h : x ∈ push kind stack s) : x ∈ stack ∨ x = s ∧ kind s = .name := by
  rw [push] at h
  cases hs : kind s with
  | stay =>
      rw [hs] at h
      exact Or.inl h
  | up =>
      rw [hs] at h
      exact Or.inl ((List.dropLast_sublist stack).mem h)
  | name =>
      rw [hs] at h
      exact (List.mem_append.mp h).imp_right fun hx => ⟨List.mem_singleton.mp hx, rfl⟩

/-- On the stack are names of the path. -/
theorem mem_normal {x : α} (h : x ∈ normal kind stack segs) : x ∈ stack ∨ x ∈ segs ∧ kind x = .name := by
  induction segs generalizing stack with
  | nil => exact Or.inl h
  | cons s segs ih =>
      rcases ih h with hpush | ⟨hmem, hname⟩
      · rcases mem_push hpush with hold | ⟨rfl, hname⟩
        · exact Or.inl hold
        · exact Or.inr ⟨List.mem_cons_self, hname⟩
      · exact Or.inr ⟨List.mem_cons_of_mem _ hmem, hname⟩

/-- Names alone are put on the stack one after the other. -/
theorem normal_names (h : ∀ s ∈ segs, kind s = .name) : normal kind stack segs = stack ++ segs := by
  induction segs generalizing stack with
  | nil => rw [normal_nil, List.append_nil]
  | cons s segs ih =>
      rw [List.forall_mem_cons] at h
      rw [normal_cons, push_name h.1, ih h.2, List.append_assoc, List.singleton_append]

theorem within_names (h : ∀ s ∈ segs, kind s = .name) (hbound : (stack ++ segs).length ≤ bound) :
    Within kind bound stack segs := by
  intro p hp
  rw [normal_names fun s hs => h s (hp.subset hs), List.length_append]
  rw [List.length_append] at hbound
  have := hp.length_le
  omega

/-- Whatever a segment weighs, the stack weighs no more than the path. -/
theorem sum_normal_le (f : α → Nat) :
    ((normal kind stack segs).map f).sum ≤ (stack.map f).sum + (segs.map f).sum := by
  induction segs generalizing stack with
  | nil => simp
  | cons s segs ih =>
      have hpush : ((push kind stack s).map f).sum ≤ (stack.map f).sum + f s := by
        rw [push]
        cases kind s with
        | stay => exact Nat.le_add_right _ _
        | up =>
            have hsub := ((List.dropLast_sublist stack).map f).sum_le_sum fun _ _ => Nat.zero_le _
            exact hsub.trans (Nat.le_add_right _ _)
        | name => simp
      calc ((normal kind stack (s :: segs)).map f).sum
          ≤ ((push kind stack s).map f).sum + (segs.map f).sum := ih
        _ ≤ (stack.map f).sum + f s + (segs.map f).sum := Nat.add_le_add_right hpush _
        _ = (stack.map f).sum + ((s :: segs).map f).sum := by
          rw [List.map_cons, List.sum_cons, Nat.add_assoc]

/-! ### What lies below a directory -/

/-- From below `base` a path stays there exactly if it does not climb above where it started. -/
theorem prefix_normal_iff (hbase : base ≠ []) :
    (∀ p, p <+: segs → base <+: normal kind (base ++ stack) p) ↔ ¬Climbs kind stack.length segs := by
  induction segs generalizing stack with
  | nil =>
      refine iff_of_true (fun p hp => ?_) not_climbs_nil
      rw [List.prefix_nil.mp hp]
      exact List.prefix_append base stack
  | cons s segs ih =>
      have hcons : (∀ p, p <+: s :: segs → base <+: normal kind (base ++ stack) p) ↔
          ∀ p, p <+: segs → base <+: normal kind (push kind (base ++ stack) s) p := by
        constructor
        · exact fun h p hp => h (s :: p) ((List.prefix_cons_inj s).mpr hp)
        · intro h p hp
          rcases List.prefix_cons_iff.mp hp with rfl | ⟨t, rfl, ht⟩
          · exact List.prefix_append base stack
          · exact h t ht
      rw [hcons]
      cases hs : kind s with
      | stay => rw [push_stay hs, climbs_stay hs, ih]
      | name =>
          rw [push_name hs, climbs_name hs, List.append_assoc, ih, List.length_append, List.length_singleton]
      | up =>
          rw [push_up hs, climbs_up hs]
          rcases List.eq_nil_or_concat stack with rfl | ⟨init, x, rfl⟩
          · -- the last segment of `base` itself is gone
            refine iff_of_false (fun h => ?_) fun h => h (Or.inl rfl)
            have hle := (h [] List.nil_prefix).length_le
            rw [normal_nil, List.append_nil, List.length_dropLast] at hle
            have := List.length_pos_iff.mpr hbase
            omega
          · rw [List.concat_eq_append, ← List.append_assoc, List.dropLast_concat, ih]
            simp

theorem below_stay (h : kind s = .stay) : Below kind base (s :: segs) ↔ Below kind base segs := by
  rw [Below, Below, normal_cons, push_stay h]
  refine and_congr_right fun _ => ⟨fun hall p hp hsome => ?_, fun hall p hp hsome => ?_⟩
  · obtain ⟨x, hx, hmoves⟩ := hsome
    have := hall (s :: p) ((List.prefix_cons_inj s).mpr hp) ⟨x, List.mem_cons_of_mem _ hx, hmoves⟩
    rwa [normal_cons, push_stay h] at this
  · obtain ⟨x, hx, hmoves⟩ := hsome
    rcases List.prefix_cons_iff.mp hp with rfl | ⟨t, rfl, ht⟩
    · cases hx
    · rw [normal_cons, push_stay h]
      rcases List.mem_cons.mp hx with rfl | hx
      · exact absurd h hmoves
      · exact hall t ht ⟨x, hx, hmoves⟩

theorem below_cons (h : kind s ≠ .stay) :
    Below kind base (s :: segs) ↔ ∀ p, p <+: segs → base <+: normal kind (push kind [] s) p := by
  constructor
  · exact fun hbelow p hp => hbelow.2 (s :: p) ((List.prefix_cons_inj s).mpr hp) ⟨s, List.mem_cons_self, h⟩
  · refine fun hall => ⟨hall segs (List.prefix_refl _), fun p hp hsome => ?_⟩
    rcases List.prefix_cons_iff.mp hp with rfl | ⟨t, rfl, ht⟩
    · obtain ⟨x, hx, -⟩ := hsome
      cases hx
    · exact hall t ht

/-- Behind the directory's own name only the climbing counts. -/
theorem below_name (hw : kind w = .name) : Below kind [w] (w :: rest) ↔ ¬Climbs kind 0 rest := by
  have hiff : (∀ p, p <+: rest → [w] <+: normal kind ([w] ++ []) p) ↔ _ := prefix_normal_iff (by simp)
  rw [List.append_nil, List.length_nil] at hiff
  rw [below_cons (by rw [hw]; decide), push_name hw, List.nil_append, hiff]

/-- A path is below the directory `w` exactly if it gets there first and then does not climb. -/
theorem below_iff (hw : kind w = .name) : Below kind [w] segs ↔
    ∃ lead rest, segs = lead ++ w :: rest ∧ (∀ s ∈ lead, kind s = .stay) ∧ ¬Climbs kind 0 rest := by
  constructor
  · intro h
    induction segs with
    | nil => exact absurd h.1.length_le (by simp)
    | cons s segs ih =>
        by_cases hstay : kind s = .stay
        · rw [below_stay hstay] at h
          obtain ⟨lead, rest, rfl, hlead, hrest⟩ := ih h
          exact ⟨s :: lead, rest, rfl, List.forall_mem_cons.mpr ⟨hstay, hlead⟩, hrest⟩
        · by_cases hsw : s = w
          · rw [hsw, below_name hw] at h
            exact ⟨[], segs, by rw [hsw, List.nil_append], by simp, h⟩
          · -- the first step is to another name, or above the root, which is the root
            have hfirst := (below_cons hstay).mp h [] List.nil_prefix
            rw [normal_nil] at hfirst
            rcases mem_push (hfirst.subset (List.mem_singleton_self w)) with hnil | ⟨hws, -⟩
            · cases hnil
            · exact absurd hws.symm hsw
  · rintro ⟨lead, rest, rfl, hlead, hrest⟩
    induction lead with
    | nil => exact (below_name hw).mpr hrest
    | cons s lead ih =>
        rw [List.forall_mem_cons] at hlead
        rw [List.cons_append, below_stay hlead.1]
        exact ih hlead.2

end Lexical
