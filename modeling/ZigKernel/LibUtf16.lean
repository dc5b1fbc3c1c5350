import ZigKernel.LibText

/-! Texts and their UTF-16 code units. A unit below 0x80 stands for one character, and every other character has units
from 0x80 on only. -/

namespace Utf16

open Utf8

/-- The units of a code point: itself, or a pair of surrogates. -/
def encode (c : Nat) : List UInt16 :=
  if c < 0x10000 then [UInt16.ofNat c]
  else [UInt16.ofNat (0xD800 + (c - 0x10000) / 0x400), UInt16.ofNat (0xDC00 + (c - 0x10000) % 0x400)]

def units (s : List Char) : List UInt16 := s.flatMap fun c => encode c.toNat

variable {s : List Char} {c n : Nat}

theorem toNat_ofNat (h : n < 0x10000) : (UInt16.ofNat n).toNat = n := by
  rw [UInt16.toNat_ofNat', Nat.mod_eq_of_lt h]

theorem units_ascii (h : Ascii s) : (units s).map UInt16.toNat = s.map Char.toNat := by
  induction s with
  | nil => rfl
  | cons c s ih =>
      rw [Ascii, List.forall_mem_cons] at h
      have hunit : encode c.toNat = [UInt16.ofNat c.toNat] := if_pos (by omega)
      rw [units, List.flatMap_cons, hunit, List.map_append, List.map_singleton, toNat_ofNat (by omega), List.map_cons]
      exact congrArg _ (ih h.2)

/-- A character that is not ASCII has a high unit. -/
theorem exists_high (h : ¬Ascii s) : ∃ u ∈ units s, 0x80 ≤ u.toNat := by
  simp only [Ascii, not_forall] at h
  obtain ⟨c, hc, hhigh⟩ := h
  have hmax := char_lt c
  have hunit : ∃ u ∈ encode c.toNat, 0x80 ≤ u.toNat := by
    rw [encode]
    split_ifs with hplane
    · refine ⟨_, List.mem_cons_self, ?_⟩
      rw [toNat_ofNat hplane]
      omega
    · refine ⟨_, List.mem_cons_self, ?_⟩
      rw [toNat_ofNat (by omega)]
      omega
  obtain ⟨u, hu, hle⟩ := hunit
  exact ⟨u, List.mem_flatMap.mpr ⟨c, hc, hu⟩, hle⟩

end Utf16
