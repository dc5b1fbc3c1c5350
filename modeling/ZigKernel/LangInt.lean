import ZigKernel.LangAct

/-! Fixed-width arithmetic on naturals. An unchecked operator traps outside the width, a wrapping
operator (`+%`) reduces modulo it, and `std.math.add` reports the overflow to its caller. -/

namespace Zig

variable {ε : Type}

/-- One past the largest `u64`. -/
def u64Bound : Nat := 2 ^ 64

def maxU64 : Nat := u64Bound - 1

/-- A `u64` argument. -/
abbrev U64 := Fin u64Bound

instance : NeZero u64Bound := ⟨by decide⟩

/-- One past the largest `u32`. -/
def u32Bound : Nat := 2 ^ 32

/-- A `u32` argument. -/
abbrev U32 := Fin u32Bound

instance : NeZero u32Bound := ⟨by decide⟩

/-- `a + b` -/
def addU64 (a b : Nat) : Outcome ε Nat := if a + b < u64Bound then .ok (a + b) else .trap

/-- `a - b` -/
def subU64 (a b : Nat) : Outcome ε Nat := if b ≤ a then .ok (a - b) else .trap

/-- `a * b` -/
def mulU64 (a b : Nat) : Outcome ε Nat := if a * b < u64Bound then .ok (a * b) else .trap

/-- `@intCast` to a `u32`. -/
def castU32 (a : Nat) : Outcome ε U32 := if h : a < u32Bound then .ok ⟨a, h⟩ else .trap

/-- `a +% b` -/
def wrapAddU64 (a b : Nat) : Nat := (a + b) % u64Bound

/-- `~a` -/
def notU64 (a : Nat) : Nat := maxU64 - a

/-- `~a` in 32 bits -/
def notU32 (a : Nat) : Nat := u32Bound - 1 - a

/-- `std.math.add(u64, a, b)` -/
def mathAdd (a b : Nat) : Option Nat := if a + b < u64Bound then some (a + b) else none

/-- `std.math.mul(u64, a, b)` -/
def mathMul (a b : Nat) : Option Nat := if a * b < u64Bound then some (a * b) else none

/-- `std.math.add(u64, a, b) catch std.math.maxInt(u64)` -/
def saturatingAdd (a b : Nat) : Nat := (mathAdd a b).getD maxU64

/-- `std.math.mul(u64, a, b) catch std.math.maxInt(u64)` -/
def saturatingMul (a b : Nat) : Nat := (mathMul a b).getD maxU64

theorem addU64_eq_ok {a b c : Nat} : (addU64 a b : Outcome ε Nat) = .ok c ↔ a + b < u64Bound ∧ a + b = c := by
  unfold addU64
  split_ifs with h <;> simp [h]

theorem addU64_ne_error {a b : Nat} {e : ε} : (addU64 a b : Outcome ε Nat) ≠ .error e := by
  unfold addU64
  split_ifs <;> simp

theorem addU64_of_lt {a b : Nat} (h : a + b < u64Bound) : (addU64 a b : Outcome ε Nat) = .ok (a + b) :=
  if_pos h

theorem mulU64_eq_ok {a b c : Nat} : (mulU64 a b : Outcome ε Nat) = .ok c ↔ a * b < u64Bound ∧ a * b = c := by
  unfold mulU64
  split_ifs with h <;> simp [h]

theorem subU64_eq_ok {a b c : Nat} : (subU64 a b : Outcome ε Nat) = .ok c ↔ b ≤ a ∧ a - b = c := by
  unfold subU64
  split_ifs with h <;> simp [h]

theorem mulU64_of_lt {a b : Nat} (h : a * b < u64Bound) : (mulU64 a b : Outcome ε Nat) = .ok (a * b) :=
  if_pos h

theorem subU64_of_le {a b : Nat} (h : b ≤ a) : (subU64 a b : Outcome ε Nat) = .ok (a - b) :=
  if_pos h

theorem castU32_of_lt {a : Nat} (h : a < u32Bound) : (castU32 a : Outcome ε U32) = .ok ⟨a, h⟩ :=
  dif_pos h

theorem mathAdd_eq_some {a b c : Nat} : mathAdd a b = some c ↔ a + b < u64Bound ∧ a + b = c := by
  unfold mathAdd
  split_ifs with h <;> simp [h]

theorem mathMul_eq_some {a b c : Nat} : mathMul a b = some c ↔ a * b < u64Bound ∧ a * b = c := by
  unfold mathMul
  split_ifs with h <;> simp [h]

theorem addU64_ne_trap {a b : Nat} (h : a + b < u64Bound) : (addU64 a b : Outcome ε Nat) ≠ .trap := by
  rw [addU64, if_pos h]
  nofun

/-- Clearing the low `k` bits. -/
theorem and_notU64 {a k : Nat} (ha : a < u64Bound) (hk : k ≤ 64) : a &&& notU64 (2 ^ k - 1) = a / 2 ^ k * 2 ^ k := by
  have hmask : notU64 (2 ^ k - 1) = (2 ^ (64 - k) - 1) <<< k := by
    have hpow : 2 ^ (64 - k) * 2 ^ k = u64Bound := by
      rw [← Nat.pow_add, Nat.sub_add_cancel hk, u64Bound]
    have hpos := Nat.two_pow_pos k
    rw [notU64, maxU64, Nat.shiftLeft_eq, Nat.sub_mul, hpow]
    omega
  rw [hmask, ← Nat.shiftLeft_eq, ← Nat.shiftRight_eq_div_pow]
  refine Nat.eq_of_testBit_eq fun i => ?_
  rw [Nat.testBit_and, Nat.testBit_shiftLeft, Nat.testBit_shiftLeft, Nat.testBit_two_pow_sub_one,
    Nat.testBit_shiftRight]
  by_cases hlow : i ≥ k
  · rw [decide_eq_true hlow, Bool.true_and, Bool.true_and, Nat.add_sub_cancel' hlow]
    rcases Nat.lt_or_ge i 64 with hi | hi
    · rw [decide_eq_true (by omega), Bool.and_true]
    · have hzero : a.testBit i = false :=
        Nat.testBit_lt_two_pow (Nat.lt_of_lt_of_le ha (Nat.pow_le_pow_right (by decide) hi))
      rw [hzero, Bool.false_and]
  · rw [decide_eq_false hlow, Bool.false_and, Bool.false_and, Bool.and_false]

/-- A positive amount never saturates to zero. -/
theorem saturatingAdd_pos {a b : Nat} (h : 0 < b) : 0 < saturatingAdd a b := by
  unfold saturatingAdd mathAdd
  split_ifs
  · rw [Option.getD_some]
    omega
  · exact by decide

end Zig
