import ZigKernel.LangInt

/-! Signed numbers, and casts between the widths. A cast traps where the number does not fit, an unchecked operator
where the result does not, and a pointer is neither null nor misaligned. -/

namespace Zig

variable {ε : Type}

/-- One past the largest `i64` and the largest `isize`. -/
def i64Bound : Nat := 2 ^ 63

def i32Bound : Nat := 2 ^ 31

/-- `@intCast` of an unsigned number to an `i32`. -/
def castI32 (a : Nat) : Outcome ε Int := if a < i32Bound then .ok a else .trap

/-- `a + b` in an `i32` -/
def addI32 (a b : Int) : Outcome ε Int := if -(i32Bound : Int) ≤ a + b ∧ a + b < i32Bound then .ok (a + b) else .trap

/-- `@intCast` of an unsigned number to an `i64` or an `isize`. -/
def castI64 (a : Nat) : Outcome ε Int := if a < i64Bound then .ok a else .trap

/-- `@intCast` of a signed number to a `usize` or a `u64`. -/
def castUsize (a : Int) : Outcome ε Nat := if 0 ≤ a then .ok a.toNat else .trap

def InI64 (a : Int) : Prop := -(i64Bound : Int) ≤ a ∧ a < i64Bound

instance (a : Int) : Decidable (InI64 a) := inferInstanceAs (Decidable (_ ∧ _))

/-- The number if an `i64` holds it. -/
def fitI64 (a : Int) : Outcome ε Int := if InI64 a then .ok a else .trap

/-- `a + b` in an `i64` -/
def addI64 (a b : Int) : Outcome ε Int := fitI64 (a + b)

/-- `a - b` in an `i64` -/
def subI64 (a b : Int) : Outcome ε Int := fitI64 (a - b)

/-- `a * b` in an `i64` -/
def mulI64 (a b : Int) : Outcome ε Int := fitI64 (a * b)

/-- `@as(*T, @ptrFromInt(a))` for a `T` of this alignment. -/
def ptrFromInt (align a : Nat) : Outcome ε Nat := if a ≠ 0 ∧ a % align = 0 then .ok a else .trap

variable {a : Nat} {i : Int}

/-- A pointer is the address that it was made from. -/
theorem ptrFromInt_eq_ok {align p : Nat} (h : (ptrFromInt align a : Outcome ε Nat) = .ok p) : p = a := by
  rw [ptrFromInt] at h
  split at h
  · exact (Outcome.ok.inj h).symm
  · cases h

theorem addI32_eq_ok {a b c : Int} :
    (addI32 a b : Outcome ε Int) = .ok c ↔ (-(i32Bound : Int) ≤ a + b ∧ a + b < i32Bound) ∧ a + b = c := by
  unfold addI32
  split_ifs with h <;> simp only [h, and_self, true_and, false_and, Outcome.ok.injEq]

theorem addI32_ne_error {a b : Int} {e : ε} : (addI32 a b : Outcome ε Int) ≠ .error e := by
  unfold addI32
  split_ifs <;> simp

theorem castI32_of_lt (h : a < i32Bound) : (castI32 a : Outcome ε Int) = .ok a := if_pos h
theorem castUsize_of_nonneg (h : 0 ≤ i) : (castUsize i : Outcome ε Nat) = .ok i.toNat := if_pos h
theorem fitI64_of (h : InI64 i) : (fitI64 i : Outcome ε Int) = .ok i := if_pos h
theorem fitI64_of_not (h : ¬InI64 i) : (fitI64 i : Outcome ε Int) = .trap := if_neg h

/-- A pointer to bytes. -/
theorem ptrFromInt_byte (h : a ≠ 0) : (ptrFromInt 1 a : Outcome ε Nat) = .ok a := if_pos ⟨h, Nat.mod_one a⟩

theorem addU64_of_le {b : Nat} (h : u64Bound ≤ a + b) : (addU64 a b : Outcome ε Nat) = .trap :=
  if_neg (Nat.not_lt.mpr h)

theorem castU32_of_le (h : u32Bound ≤ a) : (castU32 a : Outcome ε U32) = .trap := dif_neg (Nat.not_lt.mpr h)

theorem castU32_val {b : U32} (h : (castU32 a : Outcome ε U32) = .ok b) : b.val = a := by
  unfold castU32 at h
  split at h
  · cases h
    rfl
  · cases h

theorem castI64_ok (h : (castI64 a : Outcome ε Int) = .ok i) : (a : Int) = i := by
  unfold castI64 at h
  split at h
  · exact Outcome.ok.inj h
  · cases h

theorem castUsize_ok (h : (castUsize i : Outcome ε Nat) = .ok a) : (a : Int) = i := by
  unfold castUsize at h
  split at h
  · next hle =>
    rw [← Outcome.ok.inj h]
    exact Int.toNat_of_nonneg hle
  · cases h

end Zig
