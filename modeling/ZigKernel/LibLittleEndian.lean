import Mathlib.Algebra.Ring.Nat
import Mathlib.Tactic.Common

/-! Little-endian numbers in a byte memory, and an array of such numbers of one width. A memory is a
function from offsets to bytes. -/

namespace LittleEndian

/-- The number in the `n` bytes from offset 0 on. -/
def decode (byte : Nat → UInt8) : Nat → Nat
  | 0 => 0
  | n + 1 => decode byte n + 256 ^ n * (byte n).toNat

/-- Byte `i` of `v`. -/
def encode (v i : Nat) : UInt8 := UInt8.ofNat (v / 256 ^ i)

theorem decode_congr {byte byte' : Nat → UInt8} {n : Nat} (h : ∀ i < n, byte i = byte' i) :
    decode byte n = decode byte' n := by
  induction n with
  | zero => rfl
  | succ n ih => rw [decode, decode, ih fun i hi => h i (Nat.lt_succ_of_lt hi), h n (Nat.lt_succ_self n)]

theorem decode_lt (byte : Nat → UInt8) (n : Nat) : decode byte n < 256 ^ n := by
  induction n with
  | zero => exact Nat.one_pos
  | succ n ih =>
      have hbyte : (byte n).toNat + 1 ≤ 256 := (byte n).toNat_lt
      calc decode byte n + 256 ^ n * (byte n).toNat
          < 256 ^ n + 256 ^ n * (byte n).toNat := Nat.add_lt_add_right ih _
        _ = 256 ^ n * ((byte n).toNat + 1) := by rw [Nat.mul_add, Nat.mul_one, Nat.add_comm]
        _ ≤ 256 ^ n * 256 := Nat.mul_le_mul_left _ hbyte
        _ = 256 ^ (n + 1) := (Nat.pow_succ ..).symm

theorem decode_encode (v n : Nat) : decode (encode v) n = v % 256 ^ n := by
  induction n with
  | zero => rw [decode, Nat.pow_zero, Nat.mod_one]
  | succ n ih =>
      rw [decode, ih, encode, UInt8.toNat_ofNat']
      exact (Nat.mod_pow_succ ..).symm

theorem decode_zero {byte : Nat → UInt8} {n : Nat} (h : ∀ i < n, byte i = 0) : decode byte n = 0 := by
  induction n with
  | zero => rfl
  | succ n ih => rw [decode, ih fun i hi => h i (Nat.lt_succ_of_lt hi), h n (Nat.lt_succ_self n)]; rfl

/-! ### Arrays of `width`-byte numbers -/

/-- Element `index`. -/
def load (width : Nat) (byte : Nat → UInt8) (index : Nat) : Nat :=
  decode (fun i => byte (index * width + i)) width

/-- Writes element `index`. -/
def store (width : Nat) (byte : Nat → UInt8) (index v : Nat) : Nat → UInt8 := fun offset =>
  if index * width ≤ offset ∧ offset < index * width + width then encode v (offset - index * width)
  else byte offset

variable {width : Nat} {byte : Nat → UInt8} {index other v : Nat}

@[simp] theorem load_store_self : load width (store width byte index v) index = v % 256 ^ width := by
  rw [load, ← decode_encode]
  refine decode_congr fun i hi => ?_
  rw [store, if_pos ⟨Nat.le_add_right _ _, Nat.add_lt_add_left hi _⟩, Nat.add_sub_cancel_left]

@[simp] theorem load_store_of_ne (h : other ≠ index) :
    load width (store width byte index v) other = load width byte other := by
  refine decode_congr fun i hi => if_neg ?_
  rintro ⟨hstart, hstop⟩
  rcases Nat.lt_or_gt_of_ne h with hlt | hlt
  · have := Nat.mul_le_mul_right width hlt
    rw [Nat.succ_mul] at this
    omega
  · have := Nat.mul_le_mul_right width hlt
    rw [Nat.succ_mul] at this
    omega

theorem load_zero : load width (fun _ => 0) index = 0 := decode_zero fun _ _ => rfl

/-! ### Lists of bytes -/

/-- The lowest `n` bytes of `v`. -/
def toBytes : Nat → Nat → List UInt8
  | 0, _ => []
  | n + 1, v => UInt8.ofNat v :: toBytes n (v / 256)

def ofBytes : List UInt8 → Nat
  | [] => 0
  | b :: bs => b.toNat + 256 * ofBytes bs

@[simp] theorem length_toBytes (n v : Nat) : (toBytes n v).length = n := by
  induction n generalizing v with
  | zero => rfl
  | succ n ih => rw [toBytes, List.length_cons, ih]

theorem ofBytes_toBytes (n v : Nat) : ofBytes (toBytes n v) = v % 256 ^ n := by
  induction n generalizing v with
  | zero => rw [toBytes, ofBytes, Nat.pow_zero, Nat.mod_one]
  | succ n ih =>
      rw [toBytes, ofBytes, ih, UInt8.toNat_ofNat', Nat.pow_succ' (m := 256)]
      exact Nat.mod_mul.symm

theorem toBytes_ofBytes {n : Nat} {bs : List UInt8} (h : bs.length = n) : toBytes n (ofBytes bs) = bs := by
  subst h
  induction bs with
  | nil => rfl
  | cons b bs ih =>
      have hlow : UInt8.ofNat (b.toNat + 256 * ofBytes bs) = b := by
        apply UInt8.toNat.inj
        rw [UInt8.toNat_ofNat', Nat.add_mul_mod_self_left, Nat.mod_eq_of_lt b.toNat_lt]
      have hhigh : (b.toNat + 256 * ofBytes bs) / 256 = ofBytes bs := by
        rw [Nat.add_mul_div_left _ _ (by decide), Nat.div_eq_of_lt b.toNat_lt, Nat.zero_add]
      rw [List.length_cons, ofBytes, toBytes, hlow, hhigh, ih]

end LittleEndian
