import ZigKernel.LibScan

/-! UTF-8. A lead byte fixes how many bytes follow it and in which ranges; overlong forms, surrogates and
what lies above the last code point are left out by the range of the second byte. -/

namespace Utf8

/-- The ranges of the bytes that are still to come. -/
abbrev Pending := List (UInt8 × UInt8)

/-- What follows a lead byte. -/
def tails (b : UInt8) : Option Pending :=
  let tail := (0x80, 0xbf)
  if b < 0x80 then some []
  else if b < 0xc2 then none
  else if b < 0xe0 then some [tail]
  else if b = 0xe0 then some [(0xa0, 0xbf), tail]
  else if b = 0xed then some [(0x80, 0x9f), tail]
  else if b < 0xf0 then some [tail, tail]
  else if b = 0xf0 then some [(0x90, 0xbf), tail, tail]
  else if b < 0xf4 then some [tail, tail, tail]
  else if b = 0xf4 then some [(0x80, 0x8f), tail, tail]
  else none

def step (pending : Pending) (b : UInt8) : Option Pending :=
  match pending with
  | [] => tails b
  | (lo, hi) :: rest => if lo ≤ b ∧ b ≤ hi then some rest else none

def Valid (s : List UInt8) : Prop := s.foldlM step [] = some []

instance (s : List UInt8) : Decidable (Valid s) := inferInstanceAs (Decidable (_ = _))

/-- The bytes of a code point. -/
def encode (c : Nat) : List UInt8 :=
  if c < 0x80 then [UInt8.ofNat c]
  else if c < 0x800 then [UInt8.ofNat (0xc0 + c / 0x40), UInt8.ofNat (0x80 + c % 0x40)]
  else if c < 0x10000 then
    [UInt8.ofNat (0xe0 + c / 0x1000), UInt8.ofNat (0x80 + c / 0x40 % 0x40), UInt8.ofNat (0x80 + c % 0x40)]
  else
    [UInt8.ofNat (0xf0 + c / 0x40000), UInt8.ofNat (0x80 + c / 0x1000 % 0x40), UInt8.ofNat (0x80 + c / 0x40 % 0x40),
      UInt8.ofNat (0x80 + c % 0x40)]

variable {s t : List UInt8}

theorem valid_iff_passes : Valid s ↔ Scan.Passes step (· = []) s (· = []) := by
  constructor
  · rintro h _ rfl
    exact ⟨[], h, rfl⟩
  · intro h
    obtain ⟨_, hrun, rfl⟩ := h [] rfl
    exact hrun

theorem Valid.append (h : Valid s) (h' : Valid t) : Valid (s ++ t) := by
  rw [valid_iff_passes] at h h' ⊢
  exact h.append h'

theorem tails_ascii {b : UInt8} (h : b < 0x80) : tails b = some [] := if_pos h

theorem valid_ascii (h : ∀ b ∈ s, b < 0x80) : Valid s := by
  rw [valid_iff_passes]
  refine .each fun b hb => ?_
  rintro _ rfl
  exact ⟨[], by simp [step, tails_ascii (h b hb)], rfl⟩

/-- The bytes that follow a lead byte are not ASCII. -/
def High (pending : Pending) : Prop := ∀ r ∈ pending, 0x80 ≤ r.1

theorem high_tails {b : UInt8} {pending : Pending} (h : tails b = some pending) : High pending := by
  unfold tails at h
  simp only at h
  split_ifs at h <;> cases h <;> simp only [High, List.forall_mem_cons, List.not_mem_nil, false_implies, implies_true] <;>
    decide

/-- An ASCII byte stands between the code points. -/
theorem step_cases {pending pending' : Pending} {b : UInt8} (hhigh : High pending) (h : step pending b = some pending') :
    High pending' ∧ (b < 0x80 → pending = [] ∧ pending' = []) := by
  cases pending with
  | nil =>
      refine ⟨high_tails h, fun hb => ⟨rfl, ?_⟩⟩
      rw [step, tails_ascii hb] at h
      cases h
      rfl
  | cons r rest =>
      rw [High, List.forall_mem_cons] at hhigh
      rw [step] at h
      split_ifs at h with hrange
      cases h
      exact ⟨hhigh.2, fun hb => absurd hb (UInt8.not_lt.mpr (UInt8.le_trans hhigh.1 hrange.1))⟩

/-- Replacing ASCII bytes by ASCII texts. -/
theorem Valid.flatMap {f : UInt8 → List UInt8} (hascii : ∀ b < 0x80, ∀ c ∈ f b, c < 0x80)
    (hother : ∀ b, ¬b < 0x80 → f b = [b]) (h : Valid s) : Valid (s.flatMap f) := by
  refine Scan.foldlM_flatMap (P := High) (fun pending b pending' hhigh hstep => ?_) (fun r hr => by cases hr) h
  obtain ⟨hhigh', hbetween⟩ := step_cases hhigh hstep
  refine ⟨?_, hhigh'⟩
  by_cases hb : b < 0x80
  · obtain ⟨rfl, rfl⟩ := hbetween hb
    exact valid_ascii (hascii b hb)
  · rw [hother b hb, List.foldlM_cons, hstep]
    rfl

end Utf8
