import Mathlib.Data.Fin.Basic
import Mathlib.Data.Nat.ModEq
import Mathlib.Logic.Function.Basic
import Mathlib.Tactic.Common

/-! A bounded log in a ring of `n` cells: a start index that moves, a count that stops at `n`, and the
oldest entry overwritten from then on. The log always shows the latest `n` entries of its history. -/

namespace Zig.Ring

variable {α : Type} {n : Nat} [NeZero n]

/-- The retained entries, oldest first. -/
def toList (cells : Fin n → α) (start count : Nat) : List α :=
  (List.range count).map fun i => cells (Fin.ofNat n (start + i))

/-- The last `n` entries of a history. -/
def latest (n : Nat) (history : List α) : List α := history.drop (history.length - n)

@[simp] theorem toList_length (cells : Fin n → α) (start count : Nat) :
    (toList cells start count).length = count := by
  simp [toList]

@[simp] theorem toList_zero (cells : Fin n → α) (start : Nat) : toList cells start 0 = [] := rfl

theorem getElem_toList (cells : Fin n → α) (start count i : Nat) (hi : i < (toList cells start count).length) :
    (toList cells start count)[i] = cells (Fin.ofNat n (start + i)) := by
  simp [toList]

theorem ofNat_mod_add (start i : Nat) : Fin.ofNat n ((start + 1) % n + i) = Fin.ofNat n (start + (i + 1)) := by
  apply Fin.ext
  show ((start + 1) % n + i) % n = (start + (i + 1)) % n
  rw [Nat.mod_add_mod, Nat.add_assoc, Nat.add_comm 1 i]

/-- The oldest entry, and the others. -/
theorem toList_succ (cells : Fin n → α) (start count : Nat) :
    toList cells start (count + 1) = cells (Fin.ofNat n start) :: toList cells ((start + 1) % n) count := by
  rw [toList, List.range_succ_eq_map, List.map_cons, List.map_map, toList, Nat.add_zero]
  congr 1
  apply List.map_congr_left
  intro i _
  rw [Function.comp_apply, ofNat_mod_add]

theorem ofNat_add_inj (start : Nat) {i j : Nat} (hi : i < n) (hj : j < n)
    (h : Fin.ofNat n (start + i) = Fin.ofNat n (start + j)) : i = j := by
  have hval : (start + i) % n = (start + j) % n := congrArg Fin.val h
  have hmod : i % n = j % n := Nat.ModEq.add_left_cancel' start hval
  rwa [Nat.mod_eq_of_lt hi, Nat.mod_eq_of_lt hj] at hmod

/-- Below capacity a new entry is appended. -/
theorem toList_append (cells : Fin n → α) (start count : Nat) (x : α) (hcount : count < n) :
    toList (Function.update cells (Fin.ofNat n (start + count)) x) start (count + 1) =
      toList cells start count ++ [x] := by
  rw [toList, List.range_succ, List.map_append]
  congr 1
  · apply List.map_congr_left
    intro i hi
    have hlt : i < count := List.mem_range.mp hi
    apply Function.update_of_ne
    intro heq
    have := ofNat_add_inj start (hlt.trans hcount) hcount heq
    omega
  · simp

/-- The others do not see what becomes of the cell of the oldest entry. -/
theorem toList_update_front (cells : Fin n → α) (start count : Nat) (x : α) (hcount : count < n) :
    toList (Function.update cells (Fin.ofNat n start) x) ((start + 1) % n) count = toList cells ((start + 1) % n) count := by
  apply List.map_congr_left
  intro i hi
  have hlt : i < count := List.mem_range.mp hi
  apply Function.update_of_ne
  rw [ofNat_mod_add]
  intro heq
  have := ofNat_add_inj start (Nat.lt_of_le_of_lt hlt hcount) (Nat.zero_lt_of_lt hcount) heq
  omega

/-- At capacity it takes the place of the oldest one. -/
theorem toList_overwrite (cells : Fin n → α) (start : Nat) (x : α) :
    toList (Function.update cells (Fin.ofNat n start) x) ((start + 1) % n) n =
      (toList cells start n).tail ++ [x] := by
  have hn : 0 < n := Nat.pos_of_ne_zero (NeZero.ne n)
  apply List.ext_getElem
  · simp only [toList_length, List.length_append, List.length_tail, List.length_singleton]
    omega
  intro i hi _
  rw [toList_length] at hi
  rw [getElem_toList, ofNat_mod_add]
  by_cases hlast : i + 1 = n
  · have hzero : Fin.ofNat n (start + (i + 1)) = Fin.ofNat n start := by
      apply Fin.ext
      show (start + (i + 1)) % n = start % n
      rw [hlast, Nat.add_mod_right]
    rw [hzero, Function.update_self, List.getElem_append_right (by simp; omega)]
    simp
  · have hne : Fin.ofNat n (start + (i + 1)) ≠ Fin.ofNat n start := by
      intro heq
      have hsucc := ofNat_add_inj start (show i + 1 < n by omega) hn heq
      omega
    rw [Function.update_of_ne hne, List.getElem_append_left (by simp; omega), List.getElem_tail,
      getElem_toList]

omit [NeZero n] in
theorem latest_eq_self {history : List α} (h : history.length ≤ n) : latest n history = history := by
  rw [latest, Nat.sub_eq_zero_of_le h, List.drop_zero]

omit [NeZero n] in
theorem latest_length (history : List α) : (latest n history).length = min n history.length := by
  rw [latest, List.length_drop]
  omega

theorem latest_append (history : List α) (x : α) (hn : n ≤ history.length) :
    latest n (history ++ [x]) = (latest n history).tail ++ [x] := by
  have hpos : 0 < n := Nat.pos_of_ne_zero (NeZero.ne n)
  rw [latest, latest, List.tail_drop, List.length_append, List.length_singleton,
    List.drop_append_of_le_length (by omega)]
  congr 2
  omega

omit [NeZero n] in
theorem latest_suffix (history : List α) : latest n history <:+ history := List.drop_suffix _ _

omit [NeZero n] in
/-- What is retained after an append was retained before it, or is new. -/
theorem mem_latest_append {history added : List α} {x : α} (h : x ∈ latest n (history ++ added)) :
    x ∈ latest n history ∨ x ∈ added := by
  rw [latest, List.drop_append, List.length_append] at h
  rcases List.mem_append.mp h with h | h
  · left
    have hsplit : history.length + added.length - n =
        (history.length - n) + (history.length + added.length - n - (history.length - n)) := by omega
    rw [hsplit, ← List.drop_drop] at h
    exact List.mem_of_mem_drop h
  · exact Or.inr (List.mem_of_mem_drop h)

/-- The retained log takes a new entry: below capacity it is appended, at capacity it replaces the
oldest one. -/
theorem toList_push (cells : Fin n → α) (start count : Nat) (x : α) {history : List α}
    (hretained : toList cells start count = latest n history) (hcount : count = min n history.length) :
    (if count < n then toList (Function.update cells (Fin.ofNat n (start + count)) x) start (count + 1)
      else toList (Function.update cells (Fin.ofNat n start) x) ((start + 1) % n) count) =
      latest n (history ++ [x]) := by
  by_cases hroom : count < n
  · have hshort : history.length < n := by omega
    rw [if_pos hroom, toList_append cells start count x hroom, hretained, latest_eq_self hshort.le,
      latest_eq_self (by simpa using Nat.succ_le_of_lt hshort)]
  · have hfull : count = n := by omega
    rw [if_neg hroom, hfull, toList_overwrite, latest_append history x (by omega), ← hretained, hfull]

end Zig.Ring
