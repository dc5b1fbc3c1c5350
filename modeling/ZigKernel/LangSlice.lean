import ZigKernel.LangInt

/-! Slices as lists. `a[lo..hi]` traps unless the bounds are in order and inside the slice; a write through
a slice keeps its length. -/

namespace Zig

variable {ε α : Type} {a src : List α} {lo hi : Nat}

/-- `a[lo..hi]` -/
def slice (a : List α) (lo hi : Nat) : Outcome ε (List α) :=
  if lo ≤ hi ∧ hi ≤ a.length then .ok ((a.drop lo).take (hi - lo)) else .trap

/-- `a[i]` -/
def index (a : List α) (i : Nat) : Outcome ε α :=
  match a[i]? with
  | some x => .ok x
  | none => .trap

/-- `a` with `src` in the place of what stands at `lo`. -/
def overwrite (a : List α) (lo : Nat) (src : List α) : List α := a.take lo ++ src ++ a.drop (lo + src.length)

/-- `@memcpy(a[lo..hi], src)` -/
def memcpy (a : List α) (lo hi : Nat) (src : List α) : Outcome ε (List α) :=
  if lo ≤ hi ∧ hi ≤ a.length ∧ src.length = hi - lo then .ok (overwrite a lo src) else .trap

/-- `@memset(a[lo..hi], v)` -/
def memset (a : List α) (lo hi : Nat) (v : α) : Outcome ε (List α) :=
  if lo ≤ hi ∧ hi ≤ a.length then .ok (overwrite a lo (List.replicate (hi - lo) v)) else .trap

/-- `@memcpy(a[dst..dst + len], a[src..src + len])`, whose two windows must be apart. -/
def copyWithin (a : List α) (dst src len : Nat) : Outcome ε (List α) :=
  if dst + len ≤ a.length ∧ src + len ≤ a.length ∧ (dst + len ≤ src ∨ src + len ≤ dst) then
    .ok (overwrite a dst ((a.drop src).take len))
  else .trap

theorem slice_of_le (h : lo ≤ hi) (h' : hi ≤ a.length) : (slice a lo hi : Outcome ε (List α)) = .ok ((a.drop lo).take (hi - lo)) :=
  if_pos ⟨h, h'⟩

theorem memcpy_of_le (h : lo ≤ hi) (h' : hi ≤ a.length) (hsrc : src.length = hi - lo) :
    (memcpy a lo hi src : Outcome ε (List α)) = .ok (overwrite a lo src) := if_pos ⟨h, h', hsrc⟩

theorem memset_of_le (h : lo ≤ hi) (h' : hi ≤ a.length) (v : α) :
    (memset a lo hi v : Outcome ε (List α)) = .ok (overwrite a lo (List.replicate (hi - lo) v)) := if_pos ⟨h, h'⟩

theorem index_eq_ok {i : Nat} {x : α} : (index a i : Outcome ε α) = .ok x ↔ a[i]? = some x := by
  rw [index]
  cases a[i]? with
  | some y => simp only [Outcome.ok.injEq, Option.some.injEq]
  | none => simp only [reduceCtorEq]

theorem length_slice (h : lo ≤ hi) (h' : hi ≤ a.length) : ((a.drop lo).take (hi - lo)).length = hi - lo := by
  rw [List.length_take, List.length_drop]
  omega

theorem getElem?_slice {i : Nat} (hi' : i < hi - lo) : ((a.drop lo).take (hi - lo))[i]? = a[lo + i]? := by
  rw [List.getElem?_take_of_lt hi', List.getElem?_drop]

theorem length_overwrite (h : lo + src.length ≤ a.length) : (overwrite a lo src).length = a.length := by
  rw [overwrite, List.length_append, List.length_append, List.length_take, List.length_drop]
  omega

theorem take_overwrite_of_le {m : Nat} (hm : m ≤ lo) (h : lo ≤ a.length) : (overwrite a lo src).take m = a.take m := by
  have hlength : m ≤ (a.take lo).length := by
    rw [List.length_take]
    omega
  rw [overwrite, List.append_assoc, List.take_append_of_le_length hlength, List.take_take, Nat.min_eq_left hm]

theorem take_overwrite (h : lo ≤ a.length) : (overwrite a lo src).take (lo + src.length) = a.take lo ++ src := by
  have hlength : (a.take lo ++ src).length = lo + src.length := by
    rw [List.length_append, List.length_take_of_le h]
  rw [overwrite, List.take_left' hlength]

/-- Two writes one behind the other are one write. -/
theorem overwrite_overwrite {next : List α} (h : lo ≤ a.length) :
    overwrite (overwrite a lo src) (lo + src.length) next = overwrite a lo (src ++ next) := by
  have hfront : (a.take lo ++ src).length = lo + src.length := by
    rw [List.length_append, List.length_take_of_le h]
  rw [overwrite, overwrite, ← hfront, List.take_left, List.drop_append, List.drop_eq_nil_of_le (Nat.le_add_right _ _),
    List.nil_append, Nat.add_sub_cancel_left, List.drop_drop, hfront, overwrite, List.length_append]
  simp only [List.append_assoc, Nat.add_assoc]

/-- Inside the window stands the source, and outside it what was there. -/
theorem getElem?_overwrite (h : lo + src.length ≤ a.length) (i : Nat) :
    (overwrite a lo src)[i]? = if lo ≤ i ∧ i < lo + src.length then src[i - lo]? else a[i]? := by
  have htake : (a.take lo).length = lo := by
    rw [List.length_take]
    omega
  rw [overwrite, List.append_assoc]
  by_cases hbefore : i < lo
  · rw [List.getElem?_append_left (by omega), List.getElem?_take_of_lt hbefore, if_neg (by omega)]
  · rw [List.getElem?_append_right (by omega), htake]
    by_cases hinside : i < lo + src.length
    · rw [List.getElem?_append_left (by omega), if_pos (by omega)]
    · rw [List.getElem?_append_right (by omega), List.getElem?_drop, if_neg (by omega)]
      congr 1
      omega

/-- A buffer filled from the front on: what is written so far stands before the rest of `a`. -/
theorem memcpy_front {pre : List α} (hlo : lo = pre.length) (hhi : hi = lo + src.length) (h : hi ≤ a.length) :
    (memcpy (pre ++ a.drop lo) lo hi src : Outcome ε (List α)) = .ok (pre ++ src ++ a.drop hi) := by
  subst hlo hhi
  have hroom : pre.length + src.length ≤ (pre ++ a.drop pre.length).length := by
    rw [List.length_append, List.length_drop]
    omega
  rw [memcpy_of_le (Nat.le_add_right _ _) hroom (Nat.add_sub_cancel_left _ _).symm, overwrite, List.take_left,
    List.drop_append, List.drop_eq_nil_of_le (Nat.le_add_right _ _), List.nil_append, Nat.add_sub_cancel_left,
    List.drop_drop]

theorem memcpy_zero (hhi : hi = src.length) (h : hi ≤ a.length) :
    (memcpy a 0 hi src : Outcome ε (List α)) = .ok (src ++ a.drop hi) := by
  subst hhi
  rw [memcpy_of_le (Nat.zero_le _) h (Nat.sub_zero _).symm, overwrite, List.take_zero, List.nil_append, Nat.zero_add]

/-- A copy to the front leaves the back of a front in its place. -/
theorem take_copyWithin {n m : Nat} (h : n + m ≤ a.length) (hm : m ≤ n) :
    ∃ b, (copyWithin a 0 n m : Outcome ε (List α)) = .ok b ∧ b.length = a.length ∧ b.take m = (a.take (n + m)).drop n := by
  have hlength : ((a.drop n).take m).length = m := by
    rw [List.length_take, List.length_drop]
    omega
  refine ⟨_, if_pos ⟨by omega, h, Or.inl (by omega)⟩, length_overwrite (by omega), ?_⟩
  rw [overwrite, List.take_zero, List.nil_append, List.take_left' hlength, List.drop_take, Nat.add_sub_cancel_left]

theorem copyWithin_trap {n m : Nat} (hm : 0 < m) (h : n < m) : (copyWithin a 0 n m : Outcome ε (List α)) = .trap := by
  refine if_neg ?_
  rintro ⟨-, -, hbefore | hbehind⟩ <;> omega

/-! ### What stands where

`Stands a lo s`: the elements of `s` are those of `a` from `lo` on. -/

def Stands (a : List α) (lo : Nat) (s : List α) : Prop := ∃ pre post, a = pre ++ s ++ post ∧ pre.length = lo

variable {s t : List α}

theorem Stands.length_le (h : Stands a lo s) : lo + s.length ≤ a.length := by
  obtain ⟨pre, post, rfl, rfl⟩ := h
  rw [List.length_append, List.length_append]
  exact Nat.le_add_right _ _

theorem stands_nil : Stands a lo [] ↔ lo ≤ a.length := by
  refine ⟨fun h => h.length_le, fun hle => ⟨a.take lo, a.drop lo, ?_, List.length_take_of_le hle⟩⟩
  rw [List.append_nil, List.take_append_drop]

theorem stands_append : Stands a lo (s ++ t) ↔ Stands a lo s ∧ Stands a (lo + s.length) t := by
  constructor
  · rintro ⟨pre, post, rfl, rfl⟩
    refine ⟨⟨pre, t ++ post, ?_, rfl⟩, pre ++ s, post, ?_, List.length_append⟩
    · simp only [List.append_assoc]
    · simp only [List.append_assoc]
  · rintro ⟨⟨pre, post, rfl, rfl⟩, pre', post', hsame, hlength⟩
    rw [← List.length_append] at hlength
    obtain ⟨hpre, hpost⟩ := List.append_inj (hsame.trans (List.append_assoc ..)) hlength.symm
    refine ⟨pre, post', ?_, rfl⟩
    rw [hpost]
    simp only [List.append_assoc]

/-- A slice is what stands there. -/
theorem slice_eq_ok : (slice a lo hi : Outcome ε (List α)) = .ok s ↔ lo + s.length = hi ∧ Stands a lo s := by
  rw [slice]
  constructor
  · intro h
    split_ifs at h with hbounds
    obtain ⟨hle, hle'⟩ := hbounds
    cases h
    rw [length_slice hle hle']
    refine ⟨Nat.add_sub_cancel' hle, a.take lo, a.drop hi, ?_, ?_⟩
    · have hdrop : a.drop lo = (a.drop lo).take (hi - lo) ++ a.drop hi := by
        conv_lhs => rw [← List.take_append_drop (hi - lo) (a.drop lo), List.drop_drop, Nat.add_sub_cancel' hle]
      rw [List.append_assoc, ← hdrop, List.take_append_drop]
    · rw [List.length_take]
      omega
  · rintro ⟨rfl, pre, post, rfl, rfl⟩
    have hbounds : pre.length ≤ pre.length + s.length ∧ pre.length + s.length ≤ (pre ++ s ++ post).length := by
      rw [List.length_append, List.length_append]
      exact ⟨Nat.le_add_right _ _, Nat.le_add_right _ _⟩
    rw [if_pos hbounds, Nat.add_sub_cancel_left, List.append_assoc, List.drop_left, List.take_left]

/-- What stands at the front, and what is behind it. -/
theorem Stands.eq_append_drop (h : Stands a 0 s) : a = s ++ a.drop s.length := by
  obtain ⟨pre, post, rfl, hpre⟩ := h
  rw [List.length_eq_zero_iff.mp hpre, List.nil_append, List.drop_left]

theorem stands_iff : Stands a lo s ↔ lo + s.length ≤ a.length ∧ ∀ i < s.length, a[lo + i]? = s[i]? := by
  constructor
  · intro h
    refine ⟨h.length_le, fun i hi => ?_⟩
    obtain ⟨pre, post, rfl, rfl⟩ := h
    rw [List.append_assoc, List.getElem?_append_right (Nat.le_add_right _ _), Nat.add_sub_cancel_left,
      List.getElem?_append_left hi]
  · rintro ⟨hlength, hget⟩
    have hmid : (a.drop lo).take s.length = s := by
      apply List.ext_getElem?
      intro i
      by_cases hi : i < s.length
      · rw [List.getElem?_take_of_lt hi, List.getElem?_drop, hget i hi]
      · rw [List.getElem?_eq_none (by rw [List.length_take]; omega), List.getElem?_eq_none (by omega)]
    refine ⟨a.take lo, (a.drop lo).drop s.length, ?_, List.length_take_of_le (by omega)⟩
    conv_lhs => rw [← List.take_append_drop lo a, ← List.take_append_drop s.length (a.drop lo), hmid]
    rw [List.append_assoc]

/-- What stands there does not change by a write beside it. -/
theorem stands_overwrite_of_apart {pos : Nat} (h : Stands a lo s) (hroom : pos + t.length ≤ a.length)
    (hapart : pos + t.length ≤ lo ∨ lo + s.length ≤ pos) : Stands (overwrite a pos t) lo s := by
  obtain ⟨hlength, hget⟩ := stands_iff.mp h
  refine stands_iff.mpr ⟨(length_overwrite hroom).symm ▸ hlength, fun i hi => ?_⟩
  rw [getElem?_overwrite hroom, if_neg (by omega), hget i hi]

theorem stands_overwrite {pos : Nat} (hroom : pos + t.length ≤ a.length) : Stands (overwrite a pos t) pos t :=
  ⟨a.take pos, a.drop (pos + t.length), rfl, List.length_take_of_le (by omega)⟩

end Zig
