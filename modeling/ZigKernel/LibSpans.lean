import Mathlib.Algebra.BigOperators.Group.List.Basic
import Mathlib.Algebra.Ring.Nat
import Mathlib.Data.List.Pairwise
import Mathlib.Tactic.Common

/-! Labelled spans of a line, and painting. A list of spans tiles an interval if each starts where the one
before it ends; painting a span over a tiling cuts it out of the spans it meets, and the result is again a
tiling, longer by at most two spans. -/

namespace Spans

/-- The addresses `base .. base + size`, with a label. -/
structure Span (κ : Type) where
  base : Nat
  size : Nat
  kind : κ
  deriving DecidableEq, Repr

variable {κ : Type} {lo mid hi x : Nat} {o p : Span κ} {ps qs : List (Span κ)}

def Span.stop (s : Span κ) : Nat := s.base + s.size

def Span.Contains (s : Span κ) (x : Nat) : Prop := s.base ≤ x ∧ x < s.stop

instance (s : Span κ) (x : Nat) : Decidable (s.Contains x) := inferInstanceAs (Decidable (_ ∧ _))

/-! ### Tilings -/

/-- The spans fill `lo .. hi` in order, without gap, overlap or empty span. -/
def Tiles : Nat → Nat → List (Span κ) → Prop
  | lo, hi, [] => lo = hi
  | lo, hi, s :: rest => s.base = lo ∧ 0 < s.size ∧ Tiles s.stop hi rest

theorem Tiles.append (h : Tiles lo mid ps) (h' : Tiles mid hi qs) : Tiles lo hi (ps ++ qs) := by
  induction ps generalizing lo with
  | nil =>
      obtain rfl : lo = mid := h
      exact h'
  | cons s rest ih => exact ⟨h.1, h.2.1, ih h.2.2⟩

theorem Tiles.le (h : Tiles lo hi ps) : lo ≤ hi := by
  induction ps generalizing lo with
  | nil => exact Nat.le_of_eq h
  | cons s rest ih =>
      obtain ⟨rfl, -, hrest⟩ := h
      exact Nat.le_trans (Nat.le_add_right _ _) (ih hrest)

theorem Tiles.bounds (h : Tiles lo hi ps) : ∀ p ∈ ps, lo ≤ p.base ∧ 0 < p.size ∧ p.stop ≤ hi := by
  induction ps generalizing lo with
  | nil => exact fun p hp => absurd hp List.not_mem_nil
  | cons s rest ih =>
      obtain ⟨rfl, hsize, hrest⟩ := h
      refine List.forall_mem_cons.mpr ⟨⟨Nat.le_refl _, hsize, hrest.le⟩, fun p hp => ?_⟩
      obtain ⟨hbase, hp'⟩ := ih hrest p hp
      exact ⟨Nat.le_trans (Nat.le_add_right _ _) hbase, hp'⟩

theorem Tiles.pairwise (h : Tiles lo hi ps) : ps.Pairwise fun a b => a.stop ≤ b.base := by
  induction ps generalizing lo with
  | nil => exact .nil
  | cons s rest ih =>
      obtain ⟨-, -, hrest⟩ := h
      exact .cons (fun b hb => (hrest.bounds b hb).1) (ih hrest)

theorem Tiles.sum_size (h : Tiles lo hi ps) : lo + (ps.map Span.size).sum = hi := by
  induction ps generalizing lo with
  | nil => exact h
  | cons s rest ih =>
      obtain ⟨rfl, -, hrest⟩ := h
      rw [List.map_cons, List.sum_cons, ← Nat.add_assoc]
      exact ih hrest

/-- Every address of the interval lies in one span, and no other address in any. -/
theorem Tiles.count (h : Tiles lo hi ps) (x : Nat) :
    ps.countP (fun p => p.Contains x) = if lo ≤ x ∧ x < hi then 1 else 0 := by
  induction ps generalizing lo with
  | nil =>
      obtain rfl : lo = hi := h
      rw [if_neg (by omega), List.countP_nil]
  | cons s rest ih =>
      obtain ⟨rfl, hsize, hrest⟩ := h
      have hle := hrest.le
      have hstop : s.stop = s.base + s.size := rfl
      rw [List.countP_cons, ih hrest]
      by_cases hx : s.Contains x
      · obtain ⟨hbase, hlt⟩ := hx
        rw [if_neg (by omega), if_pos (decide_eq_true ⟨hbase, hlt⟩), if_pos (by omega)]
      · have hout : ¬(s.base ≤ x ∧ x < s.stop) := hx
        rw [if_neg (fun h => hx (of_decide_eq_true h)), Nat.add_zero]
        by_cases hrestx : s.stop ≤ x ∧ x < hi
        · rw [if_pos hrestx, if_pos (by omega)]
        · rw [if_neg hrestx, if_neg (by omega)]

/-! ### Painting -/

/-- What `o` leaves of `p`: the part in front of `o`, the part under it, and the part behind it. -/
def Span.cut (o p : Span κ) : List (Span κ) :=
  if o.stop ≤ p.base ∨ p.stop ≤ o.base then [p]
  else
    (if p.base < o.base then [{ base := p.base, size := o.base - p.base, kind := p.kind }] else []) ++
      [{ base := max o.base p.base, size := min o.stop p.stop - max o.base p.base, kind := o.kind }] ++
      if o.stop < p.stop then [{ base := o.stop, size := p.stop - o.stop, kind := p.kind }] else []

/-- `o` painted over the spans. -/
def paint (o : Span κ) (ps : List (Span κ)) : List (Span κ) := ps.flatMap o.cut

theorem paint_cons (o p : Span κ) (ps : List (Span κ)) : paint o (p :: ps) = o.cut p ++ paint o ps := rfl

theorem Span.tiles_cut (ho : 0 < o.size) (hp : 0 < p.size) : Tiles p.base p.stop (o.cut p) := by
  have hostop : o.stop = o.base + o.size := rfl
  have hpstop : p.stop = p.base + p.size := rfl
  rw [Span.cut]
  by_cases hmiss : o.stop ≤ p.base ∨ p.stop ≤ o.base
  · rw [if_pos hmiss]
    exact ⟨rfl, hp, rfl⟩
  rw [if_neg hmiss]
  have hfront : Tiles p.base (max o.base p.base)
      (if p.base < o.base then [{ base := p.base, size := o.base - p.base, kind := p.kind }] else []) := by
    split_ifs
    · exact ⟨rfl, by show 0 < o.base - p.base; omega, by show p.base + (o.base - p.base) = _; omega⟩
    · show p.base = _
      omega
  have hback : Tiles (min o.stop p.stop) p.stop
      (if o.stop < p.stop then [{ base := o.stop, size := p.stop - o.stop, kind := p.kind }] else []) := by
    split_ifs
    · exact ⟨by show o.stop = _; omega, by show 0 < p.stop - o.stop; omega, by show o.stop + (p.stop - o.stop) = _; omega⟩
    · show _ = p.stop
      omega
  refine (hfront.append ?_).append hback
  refine ⟨rfl, ?_, ?_⟩
  · show 0 < min o.stop p.stop - max o.base p.base
    omega
  · show max o.base p.base + (min o.stop p.stop - max o.base p.base) = min o.stop p.stop
    omega

theorem Tiles.paint (h : Tiles lo hi ps) (ho : 0 < o.size) : Tiles lo hi (Spans.paint o ps) := by
  induction ps generalizing lo with
  | nil => exact h
  | cons s rest ih =>
      obtain ⟨rfl, hsize, hrest⟩ := h
      exact (Span.tiles_cut ho hsize).append (ih hrest)

/-- A part of `p` shows the label of `o` where `o` lies, and that of `p` elsewhere. -/
theorem Span.kind_cut {q : Span κ} (hq : q ∈ o.cut p) (hx : q.Contains x) :
    p.Contains x ∧ q.kind = if o.Contains x then o.kind else p.kind := by
  have hostop : o.stop = o.base + o.size := rfl
  have hpstop : p.stop = p.base + p.size := rfl
  rw [Span.cut] at hq
  by_cases hmiss : o.stop ≤ p.base ∨ p.stop ≤ o.base
  · rw [if_pos hmiss, List.mem_singleton] at hq
    subst hq
    refine ⟨hx, (if_neg fun ho => ?_).symm⟩
    obtain ⟨hlo, hhi⟩ := hx
    obtain ⟨hlo', hhi'⟩ := ho
    omega
  rw [if_neg hmiss, List.mem_append, List.mem_append] at hq
  obtain ⟨hlo, hhi⟩ := hx
  rcases hq with (hq | hq) | hq
  · split_ifs at hq with hfront
    · rw [List.mem_singleton.mp hq] at hlo hhi ⊢
      simp only [Span.stop, Span.Contains] at *
      exact ⟨by omega, (if_neg (by omega)).symm⟩
    · exact absurd hq List.not_mem_nil
  · rw [List.mem_singleton.mp hq] at hlo hhi ⊢
    simp only [Span.stop, Span.Contains] at *
    exact ⟨by omega, (if_pos (by omega)).symm⟩
  · split_ifs at hq with hback
    · rw [List.mem_singleton.mp hq] at hlo hhi ⊢
      simp only [Span.stop, Span.Contains] at *
      exact ⟨by omega, (if_neg (by omega)).symm⟩
    · exact absurd hq List.not_mem_nil

/-- Every span of the list shows the label that `f` gives its addresses. -/
def Shows (f : Nat → κ) (ps : List (Span κ)) : Prop := ∀ p ∈ ps, ∀ x, p.Contains x → p.kind = f x

theorem Shows.paint {f : Nat → κ} (h : Shows f ps) :
    Shows (fun x => if o.Contains x then o.kind else f x) (Spans.paint o ps) := by
  intro q hq x hx
  obtain ⟨p, hp, hq⟩ := List.mem_flatMap.mp hq
  obtain ⟨hin, hkind⟩ := Span.kind_cut hq hx
  rw [hkind, h p hp x hin]

/-- A boundary strictly inside the interval. -/
def inner (lo hi a : Nat) : Nat := if lo < a ∧ a < hi then 1 else 0

theorem inner_le_one (lo hi a : Nat) : inner lo hi a ≤ 1 := by
  unfold inner
  split_ifs <;> omega

theorem inner_add_le (h : lo ≤ mid) (h' : mid ≤ hi) (a : Nat) : inner lo mid a + inner mid hi a ≤ inner lo hi a := by
  unfold inner
  split_ifs <;> omega

theorem Span.length_cut_le (o p : Span κ) :
    (o.cut p).length ≤ 1 + (inner p.base p.stop o.base + inner p.base p.stop o.stop) := by
  rw [Span.cut, inner, inner]
  by_cases hmiss : o.stop ≤ p.base ∨ p.stop ≤ o.base
  · rw [if_pos hmiss, List.length_singleton]
    omega
  rw [if_neg hmiss, List.length_append, List.length_append, List.length_singleton]
  have hfront : (if p.base < o.base then [({ base := p.base, size := o.base - p.base, kind := p.kind } : Span κ)]
      else []).length = if p.base < o.base then 1 else 0 := by split_ifs <;> rfl
  have hback : (if o.stop < p.stop then [({ base := o.stop, size := p.stop - o.stop, kind := p.kind } : Span κ)]
      else []).length = if o.stop < p.stop then 1 else 0 := by split_ifs <;> rfl
  rw [hfront, hback]
  split_ifs <;> omega

/-- Only the spans that hold an end of `o` strictly inside are cut in two. -/
theorem length_paint_le_inner (h : Tiles lo hi ps) (o : Span κ) :
    (paint o ps).length ≤ ps.length + (inner lo hi o.base + inner lo hi o.stop) := by
  induction ps generalizing lo with
  | nil => exact Nat.zero_le _
  | cons s rest ih =>
      obtain ⟨rfl, -, hrest⟩ := h
      have hle : s.base ≤ s.stop := Nat.le_add_right _ _
      have hcut := o.length_cut_le s
      have htail := ih hrest
      have hbase := inner_add_le hle hrest.le o.base
      have hstop := inner_add_le hle hrest.le o.stop
      rw [paint_cons, List.length_append, List.length_cons]
      omega

theorem length_paint_le (h : Tiles lo hi ps) (o : Span κ) : (paint o ps).length ≤ ps.length + 2 := by
  have hinner := length_paint_le_inner h o
  have hbase := inner_le_one lo hi o.base
  have hstop := inner_le_one lo hi o.stop
  omega

/-! ### Alignment -/

/-- Bases and sizes are multiples of `n`. -/
def Aligned (n : Nat) (ps : List (Span κ)) : Prop := ∀ p ∈ ps, n ∣ p.base ∧ n ∣ p.size

theorem Span.aligned_cut {n : Nat} (ho : n ∣ o.base ∧ n ∣ o.size) (hp : n ∣ p.base ∧ n ∣ p.size) : Aligned n (o.cut p) := by
  have hostop : n ∣ o.stop := Nat.dvd_add ho.1 ho.2
  have hpstop : n ∣ p.stop := Nat.dvd_add hp.1 hp.2
  have hmax : n ∣ max o.base p.base := by
    rcases Nat.le_total o.base p.base with hle | hle
    · rw [Nat.max_eq_right hle]
      exact hp.1
    · rw [Nat.max_eq_left hle]
      exact ho.1
  have hmin : n ∣ min o.stop p.stop := by
    rcases Nat.le_total o.stop p.stop with hle | hle
    · rw [Nat.min_eq_left hle]
      exact hostop
    · rw [Nat.min_eq_right hle]
      exact hpstop
  intro q hq
  rw [Span.cut] at hq
  by_cases hmiss : o.stop ≤ p.base ∨ p.stop ≤ o.base
  · rw [if_pos hmiss, List.mem_singleton] at hq
    rw [hq]
    exact hp
  rw [if_neg hmiss, List.mem_append, List.mem_append] at hq
  rcases hq with (hq | hq) | hq
  · split_ifs at hq
    · rw [List.mem_singleton.mp hq]
      exact ⟨hp.1, Nat.dvd_sub ho.1 hp.1⟩
    · exact absurd hq List.not_mem_nil
  · rw [List.mem_singleton.mp hq]
    exact ⟨hmax, Nat.dvd_sub hmin hmax⟩
  · split_ifs at hq
    · rw [List.mem_singleton.mp hq]
      exact ⟨hostop, Nat.dvd_sub hpstop hostop⟩
    · exact absurd hq List.not_mem_nil

theorem Aligned.paint {n : Nat} (h : Aligned n ps) (ho : n ∣ o.base ∧ n ∣ o.size) : Aligned n (Spans.paint o ps) := by
  intro q hq
  obtain ⟨p, hp, hq⟩ := List.mem_flatMap.mp hq
  exact Span.aligned_cut ho (h p hp) q hq

/-! ### The topmost label -/

/-- The label of the last span that holds the address, or the one underneath. -/
def topKind (os : List (Span κ)) (under : κ) (x : Nat) : κ :=
  ((os.filter fun o => o.Contains x).getLast?.map Span.kind).getD under

theorem topKind_cons (o : Span κ) (os : List (Span κ)) (under : κ) (x : Nat) :
    topKind (o :: os) under x = topKind os (if o.Contains x then o.kind else under) x := by
  rw [topKind, topKind]
  by_cases ho : o.Contains x
  · rw [List.filter_cons_of_pos (by simpa using ho), if_pos ho, List.getLast?_cons]
    cases (os.filter fun o => o.Contains x).getLast? <;> rfl
  · rw [List.filter_cons_of_neg (by simpa using ho), if_neg ho]

end Spans
