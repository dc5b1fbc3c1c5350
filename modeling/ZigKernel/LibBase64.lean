import Mathlib.Algebra.Ring.Nat
import Mathlib.Tactic.Common

/-! Standard base64 with padding. Four characters make three bytes, and the padding of the last four says how many
bytes they make; the bits that none of them takes are zero in what an encoder writes, and a decoder may ask
for that or not. -/

namespace Base64

def pad : UInt8 := 0x3d

/-- `+` and `/` are the last two of the alphabet. -/
def value (c : UInt8) : Option Nat :=
  if 0x41 ≤ c ∧ c ≤ 0x5a then some (c.toNat - 0x41)
  else if 0x61 ≤ c ∧ c ≤ 0x7a then some (c.toNat - 0x61 + 26)
  else if 0x30 ≤ c ∧ c ≤ 0x39 then some (c.toNat - 0x30 + 52)
  else if c = 0x2b then some 62
  else if c = 0x2f then some 63
  else none

/-- The last four characters when two of them are padding. -/
def oneByte (strict : Bool) (a b : UInt8) : Option (List UInt8) := do
  let va ← value a
  let vb ← value b
  if strict ∧ vb % 16 ≠ 0 then none else some [UInt8.ofNat (va * 4 + vb / 16)]

/-- The last four characters when one of them is padding. -/
def twoBytes (strict : Bool) (a b c : UInt8) : Option (List UInt8) := do
  let va ← value a
  let vb ← value b
  let vc ← value c
  if strict ∧ vc % 4 ≠ 0 then none
  else some [UInt8.ofNat (va * 4 + vb / 16), UInt8.ofNat (vb % 16 * 16 + vc / 4)]

def threeBytes (a b c d : UInt8) : Option (List UInt8) := do
  let va ← value a
  let vb ← value b
  let vc ← value c
  let vd ← value d
  some [UInt8.ofNat (va * 4 + vb / 16), UInt8.ofNat (vb % 16 * 16 + vc / 4), UInt8.ofNat (vc % 4 * 64 + vd)]

/-- A strict decoder refuses bits that no byte takes. -/
def decode (strict : Bool) : List UInt8 → Option (List UInt8)
  | [] => some []
  | a :: b :: c :: d :: rest =>
    if rest = [] ∧ d = pad then (if c = pad then oneByte strict a b else twoBytes strict a b c)
    else do
      let head ← threeBytes a b c d
      let tail ← decode strict rest
      some (head ++ tail)
  | _ => none

/-- The bits that no byte takes. -/
def unusedBits : List UInt8 → Nat
  | _ :: b :: c :: d :: rest =>
    if rest = [] ∧ d = pad then (if c = pad then (value b).getD 0 % 16 else (value c).getD 0 % 4)
    else unusedBits rest
  | _ => 0

/-- The number of bytes, from the length and the padding alone. -/
def size (s : List UInt8) : Nat :=
  s.length / 4 * 3 - (if s.getLast? = some pad then 1 else 0) - (if s.dropLast.getLast? = some pad then 1 else 0)

/-- Fours of characters, padded at the end only. -/
inductive Standard : List UInt8 → Prop
  | nil : Standard []
  | one {a b} (ha : (value a).isSome) (hb : (value b).isSome) : Standard [a, b, pad, pad]
  | two {a b c} (ha : (value a).isSome) (hb : (value b).isSome) (hc : (value c).isSome) : Standard [a, b, c, pad]
  | three {a b c d rest} (ha : (value a).isSome) (hb : (value b).isSome) (hc : (value c).isSome)
      (hd : (value d).isSome) (h : Standard rest) : Standard (a :: b :: c :: d :: rest)

variable {s : List UInt8} {c : UInt8}

theorem value_pad : value pad = none := by decide

theorem ne_pad (h : (value c).isSome) : c ≠ pad := by
  rintro rfl
  rw [value_pad] at h
  cases h

theorem Standard.length (h : Standard s) : 4 ∣ s.length := by
  induction h with
  | nil => exact ⟨0, rfl⟩
  | one => exact ⟨1, rfl⟩
  | two => exact ⟨1, rfl⟩
  | three _ _ _ _ _ ih =>
      simp only [List.length_cons]
      omega

theorem size_cons {a b c d : UInt8} (h : Standard s) (hc : (value c).isSome) (hd : (value d).isSome) :
    size (a :: b :: c :: d :: s) = 3 + size s := by
  obtain ⟨k, hk⟩ := h.length
  cases s with
  | nil => simp [size, ne_pad hc, ne_pad hd]
  | cons e s =>
      cases s with
      | nil =>
          simp only [List.length_singleton] at hk
          omega
      | cons f s =>
          have hlast : (a :: b :: c :: d :: e :: f :: s).getLast? = (e :: f :: s).getLast? := by
            simp only [List.getLast?_cons_cons]
          have hlast' : (a :: b :: c :: d :: e :: f :: s).dropLast.getLast? = (e :: f :: s).dropLast.getLast? := by
            simp only [List.dropLast_cons_cons, List.getLast?_cons_cons]
          rw [size, size, hlast, hlast']
          simp only [List.length_cons] at hk ⊢
          split_ifs <;> omega

theorem threeBytes_of_isSome {a b c d : UInt8} (ha : (value a).isSome) (hb : (value b).isSome) (hc : (value c).isSome)
    (hd : (value d).isSome) : ∃ head, threeBytes a b c d = some head ∧ head.length = 3 := by
  obtain ⟨va, hva⟩ := Option.isSome_iff_exists.mp ha
  obtain ⟨vb, hvb⟩ := Option.isSome_iff_exists.mp hb
  obtain ⟨vc, hvc⟩ := Option.isSome_iff_exists.mp hc
  obtain ⟨vd, hvd⟩ := Option.isSome_iff_exists.mp hd
  exact ⟨[UInt8.ofNat (va * 4 + vb / 16), UInt8.ofNat (vb % 16 * 16 + vc / 4), UInt8.ofNat (vc % 4 * 64 + vd)],
    by simp [threeBytes, hva, hvb, hvc, hvd], rfl⟩

/-- A lenient decoder takes what is standard, and its size is known beforehand. -/
theorem decode_standard (h : Standard s) : ∃ raw, decode false s = some raw ∧ raw.length = size s := by
  induction h with
  | nil => exact ⟨[], rfl, rfl⟩
  | one ha hb =>
      obtain ⟨va, hva⟩ := Option.isSome_iff_exists.mp ha
      obtain ⟨vb, hvb⟩ := Option.isSome_iff_exists.mp hb
      refine ⟨[UInt8.ofNat (va * 4 + vb / 16)], ?_, by simp [size]⟩
      simp [decode, oneByte, hva, hvb]
  | two ha hb hc =>
      obtain ⟨va, hva⟩ := Option.isSome_iff_exists.mp ha
      obtain ⟨vb, hvb⟩ := Option.isSome_iff_exists.mp hb
      obtain ⟨vc, hvc⟩ := Option.isSome_iff_exists.mp hc
      refine ⟨[UInt8.ofNat (va * 4 + vb / 16), UInt8.ofNat (vb % 16 * 16 + vc / 4)], ?_, ?_⟩
      · simp [decode, twoBytes, hva, hvb, hvc, ne_pad hc]
      · simp [size, ne_pad hc]
  | three ha hb hc hd h ih =>
      obtain ⟨head, hhead, hthree⟩ := threeBytes_of_isSome ha hb hc hd
      obtain ⟨raw, hraw, hlength⟩ := ih
      refine ⟨head ++ raw, ?_, ?_⟩
      · simp [decode, hhead, hraw, ne_pad hd]
      · rw [size_cons h hc hd, List.length_append, hthree, hlength]

/-- A strict decoder takes it if nothing is left over. -/
theorem decode_strict (s : List UInt8) (h : Standard s) :
    decode true s = if unusedBits s = 0 then decode false s else none := by
  induction h with
  | nil => rfl
  | one ha hb =>
      obtain ⟨va, hva⟩ := Option.isSome_iff_exists.mp ha
      obtain ⟨vb, hvb⟩ := Option.isSome_iff_exists.mp hb
      by_cases hbits : vb % 16 = 0 <;> simp [decode, oneByte, unusedBits, hva, hvb, hbits]
  | two ha hb hc =>
      obtain ⟨va, hva⟩ := Option.isSome_iff_exists.mp ha
      obtain ⟨vb, hvb⟩ := Option.isSome_iff_exists.mp hb
      obtain ⟨vc, hvc⟩ := Option.isSome_iff_exists.mp hc
      by_cases hbits : vc % 4 = 0 <;> simp [decode, twoBytes, unusedBits, hva, hvb, hvc, hbits, ne_pad hc]
  | three ha hb hc hd h ih =>
      rename_i a b c d rest
      have hmore : ¬ (rest = [] ∧ d = pad) := fun hlast => ne_pad hd hlast.2
      simp only [decode, unusedBits, if_neg hmore]
      rw [ih]
      split_ifs
      · rfl
      · cases threeBytes a b c d <;> rfl

end Base64
