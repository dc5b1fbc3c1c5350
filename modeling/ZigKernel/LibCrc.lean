import Mathlib.Algebra.Field.ZMod
import Mathlib.Algebra.Polynomial.FieldDivision

/-! Cyclic redundancy checks in the reflected bit order. A list of bits is the polynomial over the field of two elements
whose first bit stands at the highest power, and a register is the list of its bits from the least significant one on.
Shifting a register is multiplying it by `X` modulo the generator, which makes the check of a message a remainder, and a
generator with a constant term divides no burst of errors shorter than itself. -/

namespace Crc

open Polynomial

/-! ### Lists of bits as polynomials -/

def bit (b : Bool) : ZMod 2 := if b then 1 else 0

@[simp] theorem bit_false : bit false = 0 := rfl

@[simp] theorem bit_true : bit true = 1 := rfl

theorem bit_xor (a b : Bool) : bit (a ^^ b) = bit a + bit b := by
  cases a <;> cases b <;> decide

theorem bit_injective : Function.Injective bit := by decide

noncomputable def ofBits : List Bool → (ZMod 2)[X]
  | [] => 0
  | b :: bs => C (bit b) * X ^ bs.length + ofBits bs

variable {bs bs' : List Bool}

theorem ofBits_append (bs bs' : List Bool) : ofBits (bs ++ bs') = ofBits bs * X ^ bs'.length + ofBits bs' := by
  induction bs with
  | nil => simp [ofBits]
  | cons b bs ih =>
      rw [List.cons_append, ofBits, ofBits, ih, List.length_append, pow_add]
      ring

@[simp] theorem ofBits_replicate (n : Nat) : ofBits (List.replicate n false) = 0 := by
  induction n with
  | zero => rfl
  | succ n ih => simp [List.replicate_succ, ofBits, ih]

theorem ofBits_map_xor {ι : Type} (f g : ι → Bool) (is : List ι) :
    ofBits (is.map fun i => f i ^^ g i) = ofBits (is.map f) + ofBits (is.map g) := by
  induction is with
  | nil => simp [ofBits]
  | cons i is ih =>
      simp only [List.map_cons, ofBits, List.length_map, ih, bit_xor, C_add]
      ring

theorem degree_ofBits_lt (bs : List Bool) : (ofBits bs).degree < bs.length := by
  induction bs with
  | nil => simp [ofBits]
  | cons b bs ih =>
      rw [ofBits, List.length_cons]
      apply lt_of_le_of_lt (degree_add_le _ _)
      apply max_lt
      · apply lt_of_le_of_lt (degree_C_mul_X_pow_le _ _)
        exact_mod_cast Nat.lt_succ_self _
      · apply ih.trans
        exact_mod_cast Nat.lt_succ_self _

theorem coeff_ofBits_cons (b : Bool) (bs : List Bool) : (ofBits (b :: bs)).coeff bs.length = bit b := by
  rw [ofBits, coeff_add, coeff_C_mul, coeff_X_pow_self, mul_one, coeff_eq_zero_of_degree_lt (degree_ofBits_lt bs),
    add_zero]

theorem ofBits_injective (hlength : bs.length = bs'.length) (h : ofBits bs = ofBits bs') : bs = bs' := by
  induction bs generalizing bs' with
  | nil => rw [List.length_eq_zero_iff.mp hlength.symm]
  | cons b bs ih =>
      cases bs' with
      | nil => cases hlength
      | cons b' bs' =>
          have hrest : bs.length = bs'.length := Nat.succ.inj hlength
          have hbit : bit b = bit b' := by
            calc bit b = (ofBits (b :: bs)).coeff bs.length := (coeff_ofBits_cons b bs).symm
              _ = (ofBits (b' :: bs')).coeff bs'.length := by rw [h, hrest]
              _ = bit b' := coeff_ofBits_cons b' bs'
          rw [ofBits, ofBits, hbit, hrest] at h
          rw [bit_injective hbit, ih hrest (add_left_cancel h)]

theorem coeff_zero_ofBits (bs : List Bool) (b : Bool) : (ofBits (bs ++ [b])).coeff 0 = bit b := by
  rw [ofBits_append]
  simp [ofBits]

/-! ### Registers -/

section Registers

variable {w n : Nat}

def lsbs (r : BitVec w) : List Bool := (List.range w).map r.getLsbD

noncomputable def reg (r : BitVec w) : (ZMod 2)[X] := ofBits (lsbs r)

@[simp] theorem length_lsbs (r : BitVec w) : (lsbs r).length = w := by simp [lsbs]

theorem lsbs_injective {r s : BitVec w} (h : lsbs r = lsbs s) : r = s := by
  apply BitVec.eq_of_getLsbD_eq
  intro i hi
  exact List.map_inj_left.mp h i (List.mem_range.mpr hi)

theorem degree_reg_lt (r : BitVec w) : (reg r).degree < w := by
  have h := degree_ofBits_lt (lsbs r)
  rwa [length_lsbs] at h

theorem reg_xor (r s : BitVec w) : reg (r ^^^ s) = reg r + reg s := by
  have hbits : lsbs (r ^^^ s) = (List.range w).map fun i => r.getLsbD i ^^ s.getLsbD i := by
    apply List.map_congr_left
    simp
  rw [reg, hbits, ofBits_map_xor]
  rfl

/-- A narrower register stands at the high powers of a wider one. -/
theorem reg_setWidth (hw : n ≤ w) (b : BitVec n) : reg (b.setWidth w) = reg b * X ^ (w - n) := by
  have hbits : lsbs (b.setWidth w) = lsbs b ++ List.replicate (w - n) false := by
    apply List.ext_getElem
    · simp [hw]
    · intro i hi _
      have hi' : i < w := by simpa using hi
      by_cases hin : i < n
      · simp [lsbs, hin, hi']
      · simp [lsbs, Nat.le_of_not_lt hin]
  rw [reg, reg, hbits, ofBits_append, ofBits_replicate, add_zero, List.length_replicate]

/-- One turn of the shift register with feedback `g`. -/
def step (g r : BitVec w) : BitVec w := if r.getLsbD 0 then (r >>> 1) ^^^ g else r >>> 1

/-- The generator that the feedback `g` stands for. -/
noncomputable def generator (g : BitVec w) : (ZMod 2)[X] := X ^ w + reg g

variable (g : BitVec w)

theorem monic_generator : (generator g).Monic := monic_X_pow_add (degree_reg_lt g)

theorem degree_generator : (generator g).degree = w := by
  rw [generator, degree_add_eq_left_of_degree_lt (by rw [degree_X_pow]; exact degree_reg_lt g), degree_X_pow]

theorem reg_modByMonic (r : BitVec w) : reg r %ₘ generator g = reg r := by
  rw [modByMonic_eq_self_iff (monic_generator g), degree_generator]
  exact degree_reg_lt r

theorem mod_mod (p : (ZMod 2)[X]) : (p %ₘ generator g) %ₘ generator g = p %ₘ generator g := by
  rw [modByMonic_eq_self_iff (monic_generator g)]
  exact degree_modByMonic_lt p (monic_generator g)

theorem mod_mul (p q : (ZMod 2)[X]) : ((p %ₘ generator g) * q) %ₘ generator g = (p * q) %ₘ generator g := by
  rw [mul_modByMonic, mod_mod, ← mul_modByMonic]

/-- The bit that is shifted out of a register stood at the highest power. -/
theorem reg_mul_X (r : BitVec w) : reg r * X = C (bit (r.getLsbD 0)) * X ^ w + reg (r >>> 1) := by
  cases w with
  | zero => simp [reg, lsbs, ofBits]
  | succ n =>
      set tail := (List.range n).map fun i => r.getLsbD (i + 1) with htail
      have hbits : lsbs r = r.getLsbD 0 :: tail := by
        simp [lsbs, List.range_succ_eq_map, htail, Function.comp_def]
      have hshifted : lsbs (r >>> 1) = tail ++ [false] := by
        simp [lsbs, List.range_succ, htail, Nat.add_comm]
      have hlength : tail.length = n := by simp [htail]
      rw [reg, reg, hbits, hshifted, ofBits_append, ofBits, hlength]
      simp only [ofBits, List.length_cons, List.length_nil, bit_false, C_0]
      ring

/-- A turn of the register multiplies it by `X` modulo the generator. -/
theorem reg_step (r : BitVec w) : reg (step g r) = (reg r * X) %ₘ generator g := by
  have hdivides : reg r * X = generator g * C (bit (r.getLsbD 0)) + reg (step g r) := by
    rw [reg_mul_X, step, generator]
    cases r.getLsbD 0 with
    | false => simp
    | true =>
        have htwice : reg g + reg g = 0 := CharTwo.add_self_eq_zero _
        calc C (bit true) * X ^ w + reg (r >>> 1)
            = X ^ w + (reg g + reg g) + reg (r >>> 1) := by rw [htwice, bit_true, C_1, one_mul, add_zero]
          _ = (X ^ w + reg g) * C (bit true) + reg ((r >>> 1) ^^^ g) := by
            rw [bit_true, C_1, mul_one, reg_xor]
            ring
  rw [hdivides, add_modByMonic, self_mul_modByMonic (monic_generator g), zero_add, reg_modByMonic]

theorem reg_iterate (m : Nat) (r : BitVec w) : reg ((step g)^[m] r) = (reg r * X ^ m) %ₘ generator g := by
  induction m with
  | zero => rw [Function.iterate_zero_apply, pow_zero, mul_one, reg_modByMonic]
  | succ m ih =>
      rw [Function.iterate_succ_apply', reg_step, ih, mod_mul, pow_succ, mul_assoc]

/-! ### Messages of `n`-bit symbols -/

/-- The register after one symbol. -/
def feed (r : BitVec w) (b : BitVec n) : BitVec w := (step g)^[n] (r ^^^ b.setWidth w)

def crc (first last : BitVec w) (message : List (BitVec n)) : BitVec w := message.foldl (feed g) first ^^^ last

def bits (message : List (BitVec n)) : List Bool := message.flatMap lsbs

@[simp] theorem length_bits (message : List (BitVec n)) : (bits message).length = n * message.length := by
  induction message with
  | nil => rfl
  | cons b message ih =>
      have hcons : bits (b :: message) = lsbs b ++ bits message := rfl
      rw [hcons, List.length_append, ih, length_lsbs, List.length_cons, Nat.mul_succ, Nat.add_comm]

theorem bits_injective {message message' : List (BitVec n)} (hlength : message.length = message'.length)
    (h : bits message = bits message') : message = message' := by
  induction message generalizing message' with
  | nil => rw [List.length_eq_zero_iff.mp hlength.symm]
  | cons b message ih =>
      cases message' with
      | nil => cases hlength
      | cons b' message' =>
          change lsbs b ++ bits message = lsbs b' ++ bits message' at h
          obtain ⟨hfirst, hrest⟩ := List.append_inj h (by simp)
          rw [lsbs_injective hfirst, ih (Nat.succ.inj hlength) hrest]

theorem reg_feed (hn : n ≤ w) (r : BitVec w) (b : BitVec n) :
    reg (feed g r b) = (reg r * X ^ n + reg b * X ^ w) %ₘ generator g := by
  have hpower : (X : (ZMod 2)[X]) ^ (w - n) * X ^ n = X ^ w := by rw [← pow_add, Nat.sub_add_cancel hn]
  rw [feed, reg_iterate, reg_xor, reg_setWidth hn, add_mul, mul_assoc, hpower]

/-- The check of a message is the remainder of the message, moved up by a register's width, on top of the register it
starts with. -/
theorem reg_foldl (hn : n ≤ w) (message : List (BitVec n)) (r : BitVec w) : reg (message.foldl (feed g) r) =
    (reg r * X ^ (n * message.length) + ofBits (bits message) * X ^ w) %ₘ generator g := by
  induction message generalizing r with
  | nil => simp [bits, ofBits, reg_modByMonic]
  | cons b message ih =>
      have hcons : bits (b :: message) = lsbs b ++ bits message := rfl
      set p := (X : (ZMod 2)[X]) ^ (n * message.length) with hp
      have hmove : (reg (feed g r b) * p) %ₘ generator g = ((reg r * X ^ n + reg b * X ^ w) * p) %ₘ generator g := by
        rw [reg_feed g hn, mod_mul]
      have hlength : (X : (ZMod 2)[X]) ^ (n * (b :: message).length) = X ^ n * p := by
        rw [hp, ← pow_add, List.length_cons, Nat.mul_succ, Nat.add_comm]
      calc reg ((b :: message).foldl (feed g) r)
          = (reg (feed g r b) * p + ofBits (bits message) * X ^ w) %ₘ generator g := ih (feed g r b)
        _ = ((reg r * X ^ n + reg b * X ^ w) * p + ofBits (bits message) * X ^ w) %ₘ generator g := by
          rw [add_modByMonic, hmove, ← add_modByMonic]
        _ = (reg r * X ^ (n * (b :: message).length) + ofBits (bits (b :: message)) * X ^ w) %ₘ generator g := by
          rw [hlength, hcons, ofBits_append, length_bits, ← hp, ← reg]
          congr 1
          ring

theorem reg_crc (hn : n ≤ w) (first last : BitVec w) (message : List (BitVec n)) : reg (crc g first last message) =
    (reg first * X ^ (n * message.length) + ofBits (bits message) * X ^ w) %ₘ generator g + reg last := by
  rw [crc, reg_xor, reg_foldl g hn]

/-! ### Errors -/

/-- A message with its check behind it leaves a remainder that depends on its length only. -/
theorem codeword_modByMonic (hn : n ≤ w) (first last : BitVec w) (message : List (BitVec n)) :
    ofBits (bits message ++ lsbs (crc g first last message)) %ₘ generator g =
      (reg first * X ^ (n * message.length)) %ₘ generator g + reg last := by
  have htwice : ∀ p : (ZMod 2)[X], p + p = 0 := CharTwo.add_self_eq_zero
  rw [ofBits_append, length_lsbs, ← reg, reg_crc g hn, add_modByMonic, add_modByMonic _ (reg last), mod_mod,
    reg_modByMonic, add_modByMonic]
  set p := (ofBits (bits message) * X ^ w) %ₘ generator g
  set q := (reg first * X ^ (n * message.length)) %ₘ generator g
  calc p + (q + p + reg last) = p + p + (q + reg last) := by ring
    _ = q + reg last := by rw [htwice, zero_add]

variable {g}

/-- The bits that differ all lie within `w` consecutive ones. -/
def Burst (w : Nat) (bs bs' : List Bool) : Prop := ∃ k, ∀ i, bs[i]? ≠ bs'[i]? → k ≤ i ∧ i < k + w

/-- Lists that differ in a burst are the same in front of it and behind it. -/
theorem Burst.split (h : Burst w bs bs') (hlength : bs.length = bs'.length) :
    ∃ front m m' back, bs = front ++ (m ++ back) ∧ bs' = front ++ (m' ++ back) ∧ m.length = m'.length ∧ m.length ≤ w := by
  obtain ⟨k, hk⟩ := h
  have hsame : ∀ i, ¬(k ≤ i ∧ i < k + w) → bs[i]? = bs'[i]? := fun i hi => by
    by_contra hne
    exact hi (hk i hne)
  have hfront : bs.take k = bs'.take k := by
    apply List.ext_getElem?
    intro i
    simp only [List.getElem?_take]
    split_ifs with hi
    · exact hsame i (by omega)
    · rfl
  have hback : (bs.drop k).drop w = (bs'.drop k).drop w := by
    apply List.ext_getElem?
    intro i
    simp only [List.getElem?_drop]
    exact hsame _ (by omega)
  refine ⟨bs.take k, (bs.drop k).take w, (bs'.drop k).take w, (bs.drop k).drop w, ?_, ?_, ?_, ?_⟩
  · rw [List.take_append_drop, List.take_append_drop]
  · rw [hfront, hback, List.take_append_drop, List.take_append_drop]
  · simp [hlength]
  · simp

/-- A generator with a constant term shares no factor with a power of `X`. -/
theorem isCoprime_generator (hg : (reg g).coeff 0 ≠ 0) (hw : 0 < w) (m : Nat) : IsCoprime (generator g) (X ^ m) := by
  have hconstant : (generator g).coeff 0 ≠ 0 := by
    rw [generator, coeff_add, coeff_X_pow, if_neg hw.ne, zero_add]
    exact hg
  have hX : ¬X ∣ generator g := fun h => hconstant (X_dvd_iff.mp h)
  have hirreducible : Irreducible (X : (ZMod 2)[X]) := irreducible_X
  exact (hirreducible.coprime_iff_not_dvd.mpr hX).symm.pow_right

/-- Lists that differ in a burst differ modulo the generator. -/
theorem Burst.modByMonic_ne (h : Burst w bs bs') (hg : (reg g).coeff 0 ≠ 0) (hw : 0 < w)
    (hlength : bs.length = bs'.length) (hne : bs ≠ bs') : ofBits bs %ₘ generator g ≠ ofBits bs' %ₘ generator g := by
  intro heq
  obtain ⟨front, m, m', back, rfl, rfl, hm, hmw⟩ := h.split hlength
  have hdifference : ofBits (front ++ (m ++ back)) - ofBits (front ++ (m' ++ back)) =
      (ofBits m - ofBits m') * X ^ back.length := by
    simp only [ofBits_append, List.length_append, hm]
    ring
  have hdvd : generator g ∣ (ofBits m - ofBits m') * X ^ back.length := by
    rw [← hdifference, ← modByMonic_eq_zero_iff_dvd (monic_generator g), sub_modByMonic, heq, sub_self]
  have hburst : generator g ∣ ofBits m - ofBits m' := (isCoprime_generator hg hw _).dvd_of_dvd_mul_right hdvd
  have hdegree : (ofBits m - ofBits m').degree < (generator g).degree := by
    rw [degree_generator]
    apply lt_of_le_of_lt (degree_sub_le _ _)
    apply max_lt
    · exact (degree_ofBits_lt m).trans_le (by exact_mod_cast hmw)
    · exact (degree_ofBits_lt m').trans_le (by exact_mod_cast hm ▸ hmw)
  have hzero : ofBits m - ofBits m' = 0 := by
    by_contra hne
    exact (monic_generator g).not_dvd_of_degree_lt hne hdegree hburst
  exact hne (by rw [ofBits_injective hm (sub_eq_zero.mp hzero)])

end Registers

end Crc
