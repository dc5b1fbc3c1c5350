import ZigKernel.LibUtf8

/-! Texts, as lists of characters, and their bytes in UTF-8. A byte below 0x80 stands for one character, and every
other character has bytes from 0x80 on only. -/

namespace Utf8

variable {s : List Char} {c n : Nat}

def bytes (s : List Char) : List UInt8 := s.flatMap fun c => encode c.toNat

def Ascii (s : List Char) : Prop := ∀ c ∈ s, c.toNat < 0x80

/-- The byte of an ASCII character. -/
def asciiByte (c : Char) : UInt8 := UInt8.ofNat c.toNat

theorem encode_ascii (h : c < 0x80) : encode c = [UInt8.ofNat c] := if_pos h

theorem encode_ne_nil (c : Nat) : encode c ≠ [] := by
  unfold encode
  split_ifs <;> exact List.cons_ne_nil _ _

theorem ofNat_high (h : 0x80 ≤ n) (h' : n < 0x100) : 0x80 ≤ UInt8.ofNat n := by
  rw [UInt8.le_iff_toNat_le, UInt8.toNat_ofNat', Nat.mod_eq_of_lt h']
  exact h

theorem encode_high (h : 0x80 ≤ c) (hmax : c < 0x110000) : ∀ b ∈ encode c, 0x80 ≤ b := by
  unfold encode
  rw [if_neg (Nat.not_lt_of_le h)]
  split_ifs <;> simp only [List.forall_mem_cons, List.not_mem_nil, false_implies, implies_true, and_true]
  · exact ⟨ofNat_high (by omega) (by omega), ofNat_high (by omega) (by omega)⟩
  · exact ⟨ofNat_high (by omega) (by omega), ofNat_high (by omega) (by omega), ofNat_high (by omega) (by omega)⟩
  · exact ⟨ofNat_high (by omega) (by omega), ofNat_high (by omega) (by omega), ofNat_high (by omega) (by omega),
      ofNat_high (by omega) (by omega)⟩

theorem char_lt (c : Char) : c.toNat < 0x110000 := by
  rcases c.valid with h | h
  · exact Nat.lt_trans h (by decide)
  · exact h.2

theorem bytes_cons (c : Char) (s : List Char) : bytes (c :: s) = encode c.toNat ++ bytes s := List.flatMap_cons

theorem bytes_ascii (h : Ascii s) : bytes s = s.map asciiByte := by
  induction s with
  | nil => rfl
  | cons c s ih =>
      rw [Ascii, List.forall_mem_cons] at h
      rw [bytes_cons, encode_ascii h.1, ih h.2]
      rfl

theorem exists_high (h : ¬ Ascii s) : ∃ b ∈ bytes s, 0x80 ≤ b := by
  simp only [Ascii, not_forall] at h
  obtain ⟨c, hc, hhigh⟩ := h
  obtain ⟨b, hb⟩ := List.exists_mem_of_ne_nil _ (encode_ne_nil c.toNat)
  exact ⟨b, List.mem_flatMap.mpr ⟨c, hc, hb⟩, encode_high (Nat.le_of_not_lt hhigh) (char_lt c) b hb⟩

/-- A text whose bytes are ASCII is ASCII. -/
theorem ascii_of_bytes (h : ∀ b ∈ bytes s, b < 0x80) : Ascii s := by
  by_contra hs
  obtain ⟨b, hb, hhigh⟩ := exists_high hs
  exact absurd (h b hb) (UInt8.not_lt.mpr hhigh)

section AsciiByte

variable {a b : Char}

theorem toNat_asciiByte (h : a.toNat < 0x80) : (asciiByte a).toNat = a.toNat := by
  rw [asciiByte, UInt8.toNat_ofNat', Nat.mod_eq_of_lt (by omega)]

theorem asciiByte_le (ha : a.toNat < 0x80) (hb : b.toNat < 0x80) : asciiByte a ≤ asciiByte b ↔ a ≤ b := by
  rw [UInt8.le_iff_toNat_le, toNat_asciiByte ha, toNat_asciiByte hb, Char.le_def, UInt32.le_iff_toNat_le]
  rfl

theorem asciiByte_inj (ha : a.toNat < 0x80) (hb : b.toNat < 0x80) : asciiByte a = asciiByte b ↔ a = b := by
  rw [← UInt8.toNat_inj, toNat_asciiByte ha, toNat_asciiByte hb, Char.toNat_inj]

end AsciiByte

theorem bytes_eq_nil : bytes s = [] ↔ s = [] := by
  cases s with
  | nil => exact iff_of_true rfl rfl
  | cons c s =>
      rw [bytes_cons]
      exact iff_of_false (fun h => encode_ne_nil _ (List.append_eq_nil_iff.mp h).1) (List.cons_ne_nil c s)

/-- A zero byte is the zero character. -/
theorem zero_mem_bytes : 0 ∈ bytes s ↔ (Char.ofNat 0) ∈ s := by
  rw [bytes, List.mem_flatMap]
  constructor
  · rintro ⟨c, hc, hzero⟩
    by_cases hlow : c.toNat < 0x80
    · rw [encode_ascii hlow, List.mem_singleton] at hzero
      have hnat := congrArg UInt8.toNat hzero
      rw [UInt8.toNat_ofNat', Nat.mod_eq_of_lt (by omega)] at hnat
      have hchar : c = Char.ofNat 0 := Char.ext (UInt32.toNat.inj hnat.symm)
      exact hchar ▸ hc
    · have hhigh := encode_high (Nat.le_of_not_lt hlow) (char_lt c) 0 hzero
      exact absurd hhigh (by decide)
  · exact fun h => ⟨_, h, by decide⟩

end Utf8
