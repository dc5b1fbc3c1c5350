import Mathlib.Data.List.Nodup
import Mathlib.Order.Defs.LinearOrder
import Mathlib.Order.Basic
import Mathlib.Data.Nat.Basic
import Mathlib.Tactic.Common

/-! A reader that pages through a growing log by the number of the last entry it has seen. The log is sorted by
number and may lose its oldest entries; the reader gets no entry twice, and misses none that is retained. -/

namespace Cursor

variable {α : Type} {seq : α → Nat} {log log' : List α} {last n : Nat}

/-- What comes after the cursor. -/
def pending (seq : α → Nat) (log : List α) (last : Nat) : List α := log.filter fun e => last < seq e

/-- The front of it, as far as the buffer goes. -/
def page (seq : α → Nat) (log : List α) (last n : Nat) : List α := (pending seq log last).take n

structure Reader (α : Type) where
  last : Nat := 0
  received : List α := []

theorem mem_pending {e : α} : e ∈ pending seq log last ↔ e ∈ log ∧ last < seq e := by
  rw [pending, List.mem_filter, decide_eq_true_eq]

theorem pending_sorted (h : log.Pairwise fun a b => seq a < seq b) :
    (pending seq log last).Pairwise fun a b => seq a < seq b := h.filter _

namespace Reader

variable {r : Reader α}

/-- The reader keeps what it gets, and moves its cursor to the last entry of it. -/
def receive (r : Reader α) (seq : α → Nat) (evs : List α) : Reader α where
  last := (evs.getLast?.map seq).getD r.last
  received := r.received ++ evs

/-- One page for each buffer size, of a log that stays as it is. -/
def readPages (seq : α → Nat) (log : List α) : Reader α → List Nat → Reader α
  | r, [] => r
  | r, n :: sizes => readPages seq log (r.receive seq (page seq log r.last n)) sizes

/-- The reader has each entry of the log up to its cursor, and nothing twice. -/
structure UpToDate (r : Reader α) (seq : α → Nat) (log : List α) : Prop where
  increasing : r.received.Pairwise fun a b => seq a < seq b
  received_le : ∀ e ∈ r.received, seq e ≤ r.last
  complete : ∀ e ∈ log, seq e ≤ r.last → e ∈ r.received

/-- The cursor after a page: what was pending is on the page or behind the new cursor. -/
theorem pending_receive (hsorted : log.Pairwise fun a b => seq a < seq b) (n : Nat) :
    (∀ e ∈ page seq log r.last n, seq e ≤ (r.receive seq (page seq log r.last n)).last) ∧
      r.last ≤ (r.receive seq (page seq log r.last n)).last ∧
      pending seq log (r.receive seq (page seq log r.last n)).last = (pending seq log r.last).drop n := by
  have hpending : (pending seq log r.last).Pairwise _ := pending_sorted hsorted
  obtain hnil | ⟨front, e, hfront⟩ := List.eq_nil_or_concat (page seq log r.last n)
  · rw [hnil]
    refine ⟨fun e he => absurd he List.not_mem_nil, Nat.le_refl _, ?_⟩
    rcases List.take_eq_nil_iff.mp hnil with rfl | hempty
    · rfl
    · rw [hempty, List.drop_nil]
      exact hempty
  rw [List.concat_eq_append] at hfront
  have hlast : (r.receive seq (page seq log r.last n)).last = seq e := by
    rw [receive, hfront, List.getLast?_concat]
    rfl
  have hsplit : pending seq log r.last = front ++ [e] ++ (pending seq log r.last).drop n := by
    rw [← hfront, page, List.take_append_drop]
  rw [hsplit, List.pairwise_append, List.pairwise_append] at hpending
  obtain ⟨⟨-, -, hbefore⟩, -, hbehind⟩ := hpending
  have hcursor : r.last < seq e := by
    have hmem : e ∈ pending seq log r.last := by
      rw [hsplit]
      simp
    exact (mem_pending.mp hmem).2
  rw [hlast, hfront]
  refine ⟨fun x hx => ?_, hcursor.le, ?_⟩
  · rcases List.mem_append.mp hx with hx | hx
    · exact (hbefore x hx e (List.mem_singleton_self e)).le
    · rw [List.mem_singleton.mp hx]
  · -- behind the new cursor is what is behind it among what was pending
    have hagain : pending seq log (seq e) = (pending seq log r.last).filter fun x => seq e < seq x := by
      rw [pending, pending, List.filter_filter]
      refine List.filter_congr fun x _ => ?_
      by_cases hx : seq e < seq x
      · simp [hx, hcursor.trans hx]
      · simp [hx]
    rw [hagain, hsplit, List.filter_append]
    have hgone : (front ++ [e]).filter (fun x => seq e < seq x) = [] := by
      refine List.filter_eq_nil_iff.mpr fun x hx => ?_
      rw [decide_eq_true_eq, Nat.not_lt]
      rcases List.mem_append.mp hx with hx | hx
      · exact (hbefore x hx e (List.mem_singleton_self e)).le
      · rw [List.mem_singleton.mp hx]
    have hkept : ((pending seq log r.last).drop n).filter (fun x => seq e < seq x) = (pending seq log r.last).drop n :=
      List.filter_eq_self.mpr fun x hx =>
        decide_eq_true (hbehind e (List.mem_append_right _ (List.mem_singleton_self e)) x hx)
    rw [hgone, List.nil_append, hkept, ← hsplit]

theorem receive_last_lt {N : Nat} (hlast : r.last < N) (h : ∀ e ∈ log, seq e < N) (n : Nat) :
    (r.receive seq (page seq log r.last n)).last < N := by
  rw [receive]
  cases hpage : (page seq log r.last n).getLast? with
  | none => exact hlast
  | some e => exact h e (mem_pending.mp (List.mem_of_mem_take (List.mem_of_getLast? hpage))).1

/-- The log may lose entries, and gets new ones behind the cursor only. -/
theorem UpToDate.advance (h : r.UpToDate seq log) (hlog : ∀ e ∈ log', e ∈ log ∨ r.last < seq e) :
    r.UpToDate seq log' where
  increasing := h.increasing
  received_le := h.received_le
  complete e he hle := by
    rcases hlog e he with hold | hnew
    · exact h.complete e hold hle
    · exact absurd hle (Nat.not_le_of_lt hnew)

theorem UpToDate.receive (h : r.UpToDate seq log) (hsorted : log.Pairwise fun a b => seq a < seq b) (n : Nat) :
    (r.receive seq (page seq log r.last n)).UpToDate seq log := by
  obtain ⟨hpage, hle, hrest⟩ := pending_receive (r := r) hsorted n
  constructor
  · refine List.pairwise_append.mpr ⟨h.increasing, (pending_sorted hsorted).sublist (List.take_sublist _ _), ?_⟩
    intro a ha b hb
    exact Nat.lt_of_le_of_lt (h.received_le a ha) (mem_pending.mp (List.mem_of_mem_take hb)).2
  · intro e he
    rcases List.mem_append.mp he with he | he
    · exact (h.received_le e he).trans hle
    · exact hpage e he
  · intro e he hlast
    by_cases hold : seq e ≤ r.last
    · exact List.mem_append_left _ (h.complete e he hold)
    · have hmem : e ∈ pending seq log r.last := mem_pending.mpr ⟨he, Nat.lt_of_not_le hold⟩
      rw [← List.take_append_drop n (pending seq log r.last)] at hmem
      rcases List.mem_append.mp hmem with hmem | hmem
      · exact List.mem_append_right _ hmem
      · rw [← hrest] at hmem
        exact absurd hlast (Nat.not_le_of_lt (mem_pending.mp hmem).2)

theorem UpToDate.readPages (h : r.UpToDate seq log) (hsorted : log.Pairwise fun a b => seq a < seq b) (sizes : List Nat) :
    (r.readPages seq log sizes).UpToDate seq log := by
  induction sizes generalizing r with
  | nil => exact h
  | cons n sizes ih => exact ih (h.receive hsorted n)

/-- As many pages as there are entries behind the cursor, none of them empty, bring all of it. -/
theorem readPages_received (hsorted : log.Pairwise fun a b => seq a < seq b) (r : Reader α) (sizes : List Nat)
    (hsizes : ∀ n ∈ sizes, 0 < n) (henough : (pending seq log r.last).length ≤ sizes.length) :
    (r.readPages seq log sizes).received = r.received ++ pending seq log r.last ∧
      pending seq log (r.readPages seq log sizes).last = [] := by
  induction sizes generalizing r with
  | nil =>
      have hnil : pending seq log r.last = [] := List.length_eq_zero_iff.mp (Nat.le_zero.mp henough)
      exact ⟨by rw [Reader.readPages, hnil, List.append_nil], hnil⟩
  | cons n sizes ih =>
      rw [List.forall_mem_cons] at hsizes
      obtain ⟨-, -, hrest⟩ := pending_receive (r := r) hsorted n
      obtain ⟨hreceived, hnone⟩ := ih (r.receive seq (page seq log r.last n)) hsizes.2 (by
        rw [hrest, List.length_drop]
        rw [List.length_cons] at henough
        omega)
      refine ⟨?_, hnone⟩
      rw [Reader.readPages, hreceived, hrest, Reader.receive, page, List.append_assoc, List.take_append_drop]

/-- With nothing behind its cursor the reader has each entry of the log once. -/
theorem UpToDate.count_eq_one [BEq α] [LawfulBEq α] (h : r.UpToDate seq log) (hnone : pending seq log r.last = []) {e : α}
    (he : e ∈ log) : r.received.count e = 1 := by
  have hle : seq e ≤ r.last := by
    by_contra hlt
    have hmem : e ∈ pending seq log r.last := mem_pending.mpr ⟨he, Nat.lt_of_not_le hlt⟩
    rw [hnone] at hmem
    cases hmem
  have hnodup : r.received.Nodup := h.increasing.imp fun hlt heq => absurd (congrArg seq heq) hlt.ne
  exact List.count_eq_one_of_mem hnodup (h.complete e he hle)

end Reader

end Cursor
