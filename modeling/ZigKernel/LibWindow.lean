import ZigKernel.LibRing

/-! A window over a history: its latest `n` entries, oldest first. A register of distinct entries adds an entry only
where the window does not hold it. -/

namespace Zig.Window

open Zig.Ring (latest)

variable {α : Type} {n : Nat} {w h : List α} {x : α}

/-- One more entry, and the oldest one gone where there are more than `n`. -/
def push (n : Nat) (w : List α) (x : α) : List α := latest n (w ++ [x])

theorem push_of_lt (hw : w.length < n) : push n w x = w ++ [x] := by
  rw [push, Ring.latest_eq_self]
  rw [List.length_append, List.length_singleton]
  omega

theorem push_of_full [NeZero n] (hw : w.length = n) : push n w x = w.tail ++ [x] := by
  rw [push, Ring.latest_append w x (Nat.le_of_eq hw.symm), Ring.latest_eq_self (Nat.le_of_eq hw)]

theorem mem_push {y : α} (hy : y ∈ push n w x) : y ∈ w ∨ y = x := by
  have hmem := (Ring.latest_suffix (w ++ [x])).subset hy
  rwa [List.mem_append, List.mem_singleton] at hmem

theorem nodup_push (hw : w.Nodup) (hx : x ∉ w) : (push n w x).Nodup := by
  refine (Ring.latest_suffix (w ++ [x])).sublist.nodup ?_
  rw [List.nodup_append]
  refine ⟨hw, List.pairwise_singleton _ x, fun y hy z hz => ?_⟩
  rw [List.mem_singleton] at hz
  rintro rfl
  exact hx (hz ▸ hy)

/-- The window over a longer history. -/
theorem latest_append [NeZero n] (h : List α) (x : α) : latest n (h ++ [x]) = push n (latest n h) x := by
  by_cases hn : h.length < n
  · rw [push, Ring.latest_eq_self (Nat.le_of_lt hn)]
  · have hle := Nat.le_of_not_lt hn
    rw [Ring.latest_append h x hle, push_of_full]
    rw [Ring.latest_length, Nat.min_eq_left hle]

section Distinct

variable [DecidableEq α]

/-- The history with an entry that the window over it does not hold yet. -/
def register (n : Nat) (h : List α) (x : α) : List α := if x ∈ latest n h then h else h ++ [x]

theorem register_of_mem (hx : x ∈ latest n h) : register n h x = h := if_pos hx

theorem register_of_not_mem (hx : x ∉ latest n h) : register n h x = h ++ [x] := if_neg hx

end Distinct

end Zig.Window
