import Mathlib.Tactic.Common

/-! One bit of a word: how it is tested, set and cleared with a mask. -/

namespace Bits

variable {w : Nat} (x : BitVec w) {j k : Nat}

/-- `1 << k` -/
def mask (w k : Nat) : BitVec w := 1#w <<< k

theorem mask_eq (w k : Nat) : mask w k = BitVec.twoPow w k := rfl

theorem and_mask (hk : k < w) : (x &&& mask w k != 0) = x.getLsbD k := by
  rw [mask_eq, BitVec.and_twoPow]
  cases x.getLsbD k with
  | false => rfl
  | true =>
      have hne : BitVec.twoPow w k ≠ 0 := fun heq => by
        have hbit := congrArg (fun v : BitVec w => v.getLsbD k) heq
        rw [BitVec.getLsbD_twoPow, decide_eq_true hk, decide_eq_true rfl] at hbit
        simp at hbit
      simpa using hne

theorem getLsbD_or_mask (hj : j < w) : (x ||| mask w k).getLsbD j = (x.getLsbD j || decide (k = j)) := by
  rw [mask_eq, BitVec.getLsbD_or, BitVec.getLsbD_twoPow]
  by_cases hkj : k = j
  · rw [hkj, decide_eq_true hj, Bool.true_and]
  · rw [decide_eq_false hkj, Bool.and_false]

theorem getLsbD_and_not_mask (hj : j < w) : (x &&& ~~~mask w k).getLsbD j = (x.getLsbD j && !decide (k = j)) := by
  rw [mask_eq, BitVec.getLsbD_and, BitVec.getLsbD_not, BitVec.getLsbD_twoPow, decide_eq_true hj, Bool.true_and]
  by_cases hkj : k = j
  · rw [hkj, decide_eq_true hj, Bool.true_and]
  · rw [decide_eq_false hkj, Bool.and_false]

end Bits
