import Mathlib.Data.Nat.Bitwise
import Mathlib.Tactic.Common

/-! Four-level page tables. `entry table i` is entry `i` of the table in frame `table`; an address is
looked up from the root down, and `tableAt entry root va depth` is the table that the lookup reads
after `depth` links, if the links on the way are there. A link is an entry that is present and does
not map a large page. -/

namespace Paging

/-- Bits of an entry. -/
def presentBit : Nat := 0
def writableBit : Nat := 1
def userBit : Nat := 2
def largeBit : Nat := 7
def noExecuteBit : Nat := 63

/-- The frame address in an entry, bits 12 to 51. -/
def addrMask : Nat := 0x000ffffffffff000

def addr (e : Nat) : Nat := e &&& addrMask

def IsLink (e : Nat) : Prop := e.testBit presentBit = true ∧ e.testBit largeBit = false

instance (e : Nat) : Decidable (IsLink e) := inferInstanceAs (Decidable (_ ∧ _))

/-- The table index of an address at a depth; depth 0 is the root. -/
def index (depth va : Nat) : Nat := va / 2 ^ (39 - 9 * depth) % 512

def tableAt (entry : Nat → Nat → Nat) (root va : Nat) : Nat → Option Nat
  | 0 => some root
  | depth + 1 =>
      match tableAt entry root va depth with
      | none => none
      | some table =>
          if IsLink (entry table (index depth va)) then some (addr (entry table (index depth va))) else none

/-- The entry that the lookup reads at a depth. The one at depth 3 maps the page. -/
def entryAt (entry : Nat → Nat → Nat) (root va depth : Nat) : Option Nat :=
  (tableAt entry root va depth).map fun table => entry table (index depth va)

variable {entry : Nat → Nat → Nat} {root va depth table e : Nat}

theorem entryAt_of_tableAt (h : tableAt entry root va depth = some table) :
    entryAt entry root va depth = some (entry table (index depth va)) := by
  rw [entryAt, h, Option.map_some]

theorem tableAt_succ_of_link (h : tableAt entry root va depth = some table)
    (hlink : IsLink (entry table (index depth va))) :
    tableAt entry root va (depth + 1) = some (addr (entry table (index depth va))) := by
  rw [tableAt, h]
  exact if_pos hlink

/-! ### Entries of a frame and flags -/

/-- A frame address an entry can hold. -/
structure Frame (frame : Nat) : Prop where
  aligned : frame % 2 ^ 12 = 0
  bounded : frame < 2 ^ 52

theorem Frame.testBit_low {frame i : Nat} (h : Frame frame) (hi : i < 12) : frame.testBit i = false := by
  have hlow : (frame % 2 ^ 12).testBit i = frame.testBit i := by
    rw [Nat.testBit_mod_two_pow, decide_eq_true hi, Bool.true_and]
  rw [← hlow, h.aligned, Nat.zero_testBit]

theorem Frame.and_low {frame m : Nat} (h : Frame frame) (hm : m < 2 ^ 12) : frame &&& m = 0 := by
  refine Nat.eq_of_testBit_eq fun i => ?_
  rw [Nat.testBit_and, Nat.zero_testBit]
  rcases Nat.lt_or_ge i 12 with hi | hi
  · rw [h.testBit_low hi, Bool.false_and]
  · rw [Nat.testBit_lt_two_pow (Nat.lt_of_lt_of_le hm (Nat.pow_le_pow_right (by decide) hi)), Bool.and_false]

theorem Frame.and_addrMask {frame : Nat} (h : Frame frame) : frame &&& addrMask = frame := by
  have hmask : addrMask = (2 ^ 40 - 1) <<< 12 := by decide
  have hframe : frame = (frame >>> 12) <<< 12 := by
    rw [Nat.shiftRight_eq_div_pow, Nat.shiftLeft_eq, Nat.div_mul_cancel (Nat.dvd_of_mod_eq_zero h.aligned)]
  have hpage : frame >>> 12 < 2 ^ 40 := by
    rw [Nat.shiftRight_eq_div_pow]
    exact Nat.div_lt_of_lt_mul h.bounded
  rw [hframe, hmask, ← Nat.shiftLeft_and_distrib, Nat.and_two_pow_sub_one_eq_mod, Nat.mod_eq_of_lt hpage]

theorem Frame.testBit_high {frame i : Nat} (h : Frame frame) (hi : 52 ≤ i) : frame.testBit i = false :=
  Nat.testBit_lt_two_pow (Nat.lt_of_lt_of_le h.bounded (Nat.pow_le_pow_right (by decide) hi))

/-- The bits of an entry outside the address field are those of the flags. -/
theorem testBit_entry {frame flags i : Nat} (h : Frame frame) (hi : i < 12 ∨ 52 ≤ i) :
    (frame ||| flags).testBit i = flags.testBit i := by
  rw [Nat.testBit_or]
  rcases hi with hi | hi
  · rw [h.testBit_low hi, Bool.false_or]
  · rw [h.testBit_high hi, Bool.false_or]

theorem addr_entry {frame flags : Nat} (h : Frame frame) (hflags : flags &&& addrMask = 0) :
    addr (frame ||| flags) = frame := by
  rw [addr, Nat.and_or_distrib_right, h.and_addrMask, hflags, Nat.or_zero]

end Paging
