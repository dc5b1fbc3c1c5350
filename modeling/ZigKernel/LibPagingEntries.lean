import ZigKernel.LibPaging

/-! What an entry of a page table says, and how it changes when a bit of it is set or cleared. -/

namespace Paging

def globalBit : Nat := 8

/-- Where an entry leads, and its flags. -/
structure Entry where
  frame : Nat
  large : Bool
  user : Bool
  writable : Bool
  noExecute : Bool

/-- The entry is there and says so. -/
structure Encodes (e : Nat) (d : Entry) : Prop where
  addr : addr e = d.frame
  present : e.testBit presentBit = true
  large : e.testBit largeBit = d.large
  user : e.testBit userBit = d.user
  writable : e.testBit writableBit = d.writable
  noExecute : e.testBit noExecuteBit = d.noExecute
  local_ : e.testBit globalBit = false

variable {e e' frame flags i : Nat} {d : Entry}

/-- A test with a mask of one bit. -/
theorem and_bit_eq_zero : e &&& 1 <<< i = 0 ↔ e.testBit i = false := by
  rw [Nat.one_shiftLeft, Nat.and_two_pow]
  cases h : e.testBit i with
  | false => simp
  | true => simp

theorem and_bit_ne_zero : e &&& 1 <<< i ≠ 0 ↔ e.testBit i = true := by
  rw [ne_eq, and_bit_eq_zero, Bool.not_eq_false]

/-- A number below `2 ^ (k + w)` that is a multiple of `2 ^ k` lies in the field of `w` bits from bit `k` on. -/
theorem and_field {n k w : Nat} (haligned : n % 2 ^ k = 0) (hbound : n < 2 ^ (k + w)) : n &&& (2 ^ w - 1) <<< k = n := by
  have hshift : n = (n >>> k) <<< k := by
    rw [Nat.shiftRight_eq_div_pow, Nat.shiftLeft_eq, Nat.div_mul_cancel (Nat.dvd_of_mod_eq_zero haligned)]
  have hlow : n >>> k < 2 ^ w := by
    rw [Nat.shiftRight_eq_div_pow]
    exact Nat.div_lt_of_lt_mul (by rwa [← Nat.pow_add])
  rw [hshift, ← Nat.shiftLeft_and_distrib, Nat.and_two_pow_sub_one_eq_mod, Nat.mod_eq_of_lt hlow]

/-- The address is read from the bits 12 to 51. -/
theorem addr_congr (h : ∀ i, 12 ≤ i → i < 52 → e'.testBit i = e.testBit i) : addr e' = addr e := by
  have hmask : addrMask = (2 ^ 40 - 1) <<< 12 := by decide
  refine Nat.eq_of_testBit_eq fun i => ?_
  rw [addr, addr, Nat.testBit_and, Nat.testBit_and, hmask, Nat.testBit_shiftLeft, Nat.testBit_two_pow_sub_one]
  by_cases hi : 12 ≤ i ∧ i < 52
  · rw [h i hi.1 hi.2]
  · have hout : (decide (i ≥ 12) && decide (i - 12 < 40)) = false := by
      rw [Bool.and_eq_false_iff, decide_eq_false_iff_not, decide_eq_false_iff_not]
      omega
    rw [hout, Bool.and_false, Bool.and_false]

namespace Encodes

/-- A frame with flags. -/
theorem of_flags (hframe : Frame frame) (hflags : flags &&& addrMask = 0) (hpresent : flags.testBit presentBit = true)
    (hlocal : flags.testBit globalBit = false) :
    Encodes (frame ||| flags)
      { frame, large := flags.testBit largeBit, user := flags.testBit userBit, writable := flags.testBit writableBit
        noExecute := flags.testBit noExecuteBit } where
  addr := addr_entry hframe hflags
  present := (testBit_entry hframe (Or.inl (by decide))).trans hpresent
  large := testBit_entry hframe (Or.inl (by decide))
  user := testBit_entry hframe (Or.inl (by decide))
  writable := testBit_entry hframe (Or.inl (by decide))
  noExecute := testBit_entry hframe (Or.inr (by decide))
  local_ := (testBit_entry hframe (Or.inl (by decide))).trans hlocal

/-- The bits that are read. -/
def Read (i : Nat) : Prop :=
  i = presentBit ∨ i = writableBit ∨ i = userBit ∨ i = largeBit ∨ i = globalBit ∨ i = noExecuteBit ∨ 12 ≤ i ∧ i < 52

theorem congr (h : Encodes e d) (hsame : ∀ i, Read i → e'.testBit i = e.testBit i) : Encodes e' d where
  addr := (addr_congr fun i hlo hhi => hsame i (by unfold Read; tauto)).trans h.addr
  present := (hsame _ (by unfold Read; tauto)).trans h.present
  large := (hsame _ (by unfold Read; tauto)).trans h.large
  user := (hsame _ (by unfold Read; tauto)).trans h.user
  writable := (hsame _ (by unfold Read; tauto)).trans h.writable
  noExecute := (hsame _ (by unfold Read; tauto)).trans h.noExecute
  local_ := (hsame _ (by unfold Read; tauto)).trans h.local_

/-- Another bit is set. -/
theorem or_bit (h : Encodes e d) (hi : ¬Read i) : Encodes (e ||| 1 <<< i) d := by
  refine h.congr fun j hj => ?_
  have hne : i ≠ j := fun heq => hi (heq ▸ hj)
  rw [Nat.testBit_or, Nat.one_shiftLeft, Nat.testBit_two_pow_of_ne hne, Bool.or_false]

theorem of_noExecute (h : Encodes e d) : Encodes (e ||| 1 <<< noExecuteBit) { d with noExecute := true } := by
  have hbit (j : Nat) (hj : noExecuteBit ≠ j) : (e ||| 1 <<< noExecuteBit).testBit j = e.testBit j := by
    rw [Nat.testBit_or, Nat.one_shiftLeft, Nat.testBit_two_pow_of_ne hj, Bool.or_false]
  refine ⟨(addr_congr fun i _ hi => hbit i ?_).trans h.addr, (hbit _ (by decide)).trans h.present,
    (hbit _ (by decide)).trans h.large, (hbit _ (by decide)).trans h.user, (hbit _ (by decide)).trans h.writable, ?_,
    (hbit _ (by decide)).trans h.local_⟩
  · exact Nat.ne_of_gt (Nat.lt_trans hi (by decide))
  · rw [Nat.testBit_or, Nat.one_shiftLeft, Nat.testBit_two_pow_self, Bool.or_true]

/-- The writable bit is cleared with the complement of its mask. -/
theorem of_readOnly {mask : Nat} (h : Encodes e d) (hmask : ∀ i < 64, mask.testBit i = !decide (i = writableBit)) :
    Encodes (e &&& mask) { d with writable := false } := by
  have hbit (j : Nat) (hj : j < 64) (hne : j ≠ writableBit) : (e &&& mask).testBit j = e.testBit j := by
    rw [Nat.testBit_and, hmask j hj, decide_eq_false hne, Bool.not_false, Bool.and_true]
  refine ⟨(addr_congr fun i hlo hi => hbit i (Nat.lt_trans hi (by decide)) ?_).trans h.addr,
    (hbit _ (by decide) (by decide)).trans h.present, (hbit _ (by decide) (by decide)).trans h.large,
    (hbit _ (by decide) (by decide)).trans h.user, ?_, (hbit _ (by decide) (by decide)).trans h.noExecute,
    (hbit _ (by decide) (by decide)).trans h.local_⟩
  · exact Nat.ne_of_gt (Nat.lt_of_lt_of_le (by decide) hlo)
  · rw [Nat.testBit_and, hmask _ (by decide), decide_eq_true rfl, Bool.not_true, Bool.and_false]

end Encodes

end Paging
