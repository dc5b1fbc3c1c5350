import ZigKernel.LibDecimal
import ZigKernel.LibUtf16
import ZigKernel.SchemaGateAgree

/-! `packages/zig-sandbox-client/src/types.ts`: the check of a decimal field, on the code units of a string. The check of
the client, the parser of the contract and the one of the schema gate take the same texts, each the numeral of its
value. -/

namespace Client

/-- `BigInt(value)` for a string of decimal digits. -/
def bigInt (value : List UInt16) : Nat := value.foldl (fun n c => n * 10 + (c.toNat - 48)) 0

def isCanonicalDecimalU64 (value : List UInt16) : Bool :=
  if value.length = 0 ∨ value.length > 20 then false
  else if value.head? = some 48 then value.length = 1
  else if value.any fun c => c < 48 || c > 57 then false
  else
    let n := bigInt value
    decide (n ≥ 0) && decide (n ≤ 18446744073709551615)

end Client

namespace Supervisor.Contract

open Zig Json Decimal

variable {s : Bytes} {v n : Nat}

theorem isDigit_iff {c : UInt8} : isDigit c = true ↔ IsDigit c.toNat := by
  rw [isDigit, Bool.and_eq_true, decide_eq_true_eq, decide_eq_true_eq, UInt8.le_iff_toNat_le, UInt8.le_iff_toNat_le]
  rfl

/-- The digit loop computes the value of the digits, and stops where it gets too large. -/
theorem parseDecimalDigits_iff (hn : n < u64Bound) : parseDecimalDigits n s = some v ↔
    (∀ c ∈ s.map UInt8.toNat, IsDigit c) ∧ valueFrom n ((s.map UInt8.toNat).map (· - 48)) = v ∧ v < u64Bound := by
  induction s generalizing n with
  | nil =>
      rw [parseDecimalDigits, Option.some.injEq]
      constructor
      · rintro rfl
        exact ⟨by simp, rfl, hn⟩
      · exact fun h => h.2.1
  | cons c s ih =>
      simp only [parseDecimalDigits, Option.bind_eq_bind, SchemaGate.math_step, List.map_cons, List.forall_mem_cons,
        valueFrom_cons, isDigit_iff]
      have hmax : u64Bound = SchemaGate.u64Max + 1 := by decide
      by_cases hdigit : IsDigit c.toNat
      swap
      · rw [if_pos hdigit]
        exact iff_of_false (Option.some_ne_none v).symm fun h => hdigit h.1.1
      rw [if_neg (not_not.mpr hdigit), and_iff_right hdigit]
      by_cases hover : n * 10 + (c.toNat - 0x30) > SchemaGate.u64Max
      · rw [if_pos hover]
        refine iff_of_false (Option.some_ne_none v).symm ?_
        rintro ⟨-, rfl, hlt⟩
        have hle := le_valueFrom (n * 10 + (c.toNat - 48)) ((s.map UInt8.toNat).map (· - 48))
        omega
      · rw [if_neg hover]
        exact ih (by omega)

/-- What the three checks have in common: the length, the leading zero and the digits in front of the bound. -/
theorem spells_iff {codes : List Nat} (hlength : ¬(codes.length = 0 ∨ codes.length > 20)) (hzero : codes.head? ≠ some 48) :
    Spells codes v ↔ (∀ c ∈ codes, IsDigit c) ∧ valueFrom 0 (codes.map (· - 48)) = v := by
  constructor
  · exact fun h => ⟨h.digits, h.worth⟩
  · rintro ⟨hdigits, hworth⟩
    refine ⟨hdigits, fun hnil => hlength (Or.inl ?_), fun h => absurd h hzero, hworth⟩
    rw [hnil, List.length_nil]

theorem not_spells_of_length {codes : List Nat} (hlength : codes.length = 0 ∨ codes.length > 20) :
    ¬(Spells codes v ∧ v < u64Bound) := by
  rintro ⟨h, hlt⟩
  have hle := h.length_le (k := 20) (by decide) (hlt.trans (by decide))
  have hpos := List.length_pos_iff.mpr h.nonempty
  omega

/-- Behind a leading zero nothing may stand. -/
theorem spells_zero {codes : List Nat} (hzero : codes.head? = some 48) :
    Spells codes v ∧ v < u64Bound ↔ codes.length = 1 ∧ v = 0 := by
  constructor
  · rintro ⟨h, -⟩
    have hone := h.leading hzero
    obtain ⟨c, rfl⟩ := List.length_eq_one_iff.mp hone
    cases hzero
    exact ⟨rfl, h.worth.symm⟩
  · rintro ⟨hone, rfl⟩
    obtain ⟨c, rfl⟩ := List.length_eq_one_iff.mp hone
    cases hzero
    exact ⟨⟨by decide, by simp, fun _ => rfl, rfl⟩, by decide⟩

theorem head?_map_eq {α : Type} {f : α → Nat} (hf : Function.Injective f) {s : List α} {a : α} :
    (s.map f).head? = some (f a) ↔ s.head? = some a := by
  cases s with
  | nil => simp
  | cons b s => simp [hf.eq_iff]

theorem parseDecimalU64_iff (s : Bytes) (v : Nat) :
    parseDecimalU64 s = some v ↔ Spells (s.map UInt8.toNat) v ∧ v < u64Bound := by
  have hhead : (s.map UInt8.toNat).head? = some 48 ↔ s.head? = some zero :=
    head?_map_eq (a := zero) fun _ _ h => UInt8.toNat_inj.mp h
  have hlen : (s.map UInt8.toNat).length = s.length := List.length_map ..
  rw [parseDecimalU64]
  by_cases hlength : s.length = 0 ∨ s.length > 20
  · rw [if_pos hlength]
    exact iff_of_false (Option.some_ne_none v).symm (not_spells_of_length (by rwa [hlen]))
  rw [if_neg hlength]
  by_cases hzero : s.head? = some zero
  · rw [if_pos hzero, spells_zero (hhead.mpr hzero), hlen]
    split_ifs with hone
    · exact iff_of_false not_false fun h => hone h.1
    · rw [Option.some.injEq, and_iff_right (not_not.mp hone), eq_comm]
  · rw [if_neg hzero, parseDecimalDigits_iff (by decide), spells_iff (by rwa [hlen]) fun h => hzero (hhead.mp h), and_assoc]

/-- A value is written as its numeral, which fits in the buffer. -/
theorem formatDecimalU64_eq {ε : Type} (h : v < u64Bound) :
    (formatDecimalU64 v : Outcome ε Bytes) = .ok ((Nat.toDigits 10 v).map fun c => UInt8.ofNat c.toNat) := by
  have hlength : (Nat.toDigits 10 v).length ≤ 20 :=
    (Nat.length_toDigits_le_iff (by decide) (by decide)).mpr (h.trans (by decide))
  rw [formatDecimalU64]
  exact if_neg (by rw [List.length_map]; omega)

/-- The bytes of a numeral. -/
theorem bytes_of_spells (h : Spells (s.map UInt8.toNat) v) : s = (Nat.toDigits 10 v).map fun c => UInt8.ofNat c.toNat := by
  have hcodes := congrArg (List.map UInt8.ofNat) h.eq
  rw [List.map_map, List.map_map] at hcodes
  refine Eq.trans ?_ hcodes
  exact ((List.map_congr_left fun c _ => UInt8.ofNat_toNat).trans (List.map_id s)).symm

end Supervisor.Contract

namespace Client

open Zig Decimal Supervisor

variable {value : List UInt16}

theorem any_out_iff : (value.any fun c => c < 48 || c > 57) = true ↔ ¬∀ c ∈ value.map UInt16.toNat, IsDigit c := by
  simp only [List.any_eq_true, Bool.or_eq_true, decide_eq_true_eq, List.forall_mem_map, not_forall, IsDigit, gt_iff_lt,
    UInt16.lt_iff_toNat_lt, exists_prop]
  refine exists_congr fun c => and_congr_right fun _ => ?_
  show c.toNat < 48 ∨ 57 < c.toNat ↔ _
  omega

theorem bigInt_eq (value : List UInt16) : bigInt value = valueFrom 0 ((value.map UInt16.toNat).map (· - 48)) := by
  rw [bigInt, valueFrom, List.foldl_map, List.foldl_map]

theorem isCanonicalDecimalU64_iff (value : List UInt16) :
    isCanonicalDecimalU64 value = true ↔ ∃ v, Spells (value.map UInt16.toNat) v ∧ v < u64Bound := by
  have hhead : (value.map UInt16.toNat).head? = some 48 ↔ value.head? = some 48 :=
    Contract.head?_map_eq (a := 48) fun _ _ h => UInt16.toNat_inj.mp h
  have hlen : (value.map UInt16.toNat).length = value.length := List.length_map ..
  have hmax : u64Bound = 18446744073709551615 + 1 := by decide
  rw [isCanonicalDecimalU64]
  by_cases hlength : value.length = 0 ∨ value.length > 20
  · rw [if_pos hlength]
    refine iff_of_false Bool.false_ne_true ?_
    rintro ⟨v, h⟩
    exact Contract.not_spells_of_length (by rwa [hlen]) h
  rw [if_neg hlength]
  by_cases hzero : value.head? = some 48
  · simp only [if_pos hzero, decide_eq_true_eq, Contract.spells_zero (hhead.mpr hzero), hlen, exists_eq_right]
  rw [if_neg hzero]
  have hspells (v : Nat) : Spells (value.map UInt16.toNat) v ↔ _ :=
    Contract.spells_iff (by rwa [hlen]) fun h => hzero (hhead.mp h)
  simp only [hspells]
  by_cases hout : (value.any fun c => c < 48 || c > 57) = true
  · rw [if_pos hout]
    refine iff_of_false Bool.false_ne_true ?_
    rintro ⟨v, ⟨hdigits, -⟩, -⟩
    exact any_out_iff.mp hout hdigits
  · rw [if_neg hout, Bool.and_eq_true, decide_eq_true_eq, decide_eq_true_eq, bigInt_eq]
    constructor
    · exact fun h => ⟨_, ⟨not_not.mp fun hnot => hout (any_out_iff.mpr hnot), rfl⟩, by omega⟩
    · rintro ⟨v, ⟨-, rfl⟩, hlt⟩
      exact ⟨Nat.zero_le _, by omega⟩

/-! ### One spelling -/

open Utf8 SchemaGate in
/-- The codes of a text are the same in each of its encodings, as far as digits go. -/
theorem spells_text (t : Text) (v : Nat) : (Spells ((raw t).map UInt8.toNat) v ↔ Spells (t.map Char.toNat) v) ∧
    (Spells ((Utf16.units t).map UInt16.toNat) v ↔ Spells (t.map Char.toNat) v) := by
  by_cases hascii : Ascii t
  · have hbytes : (raw t).map UInt8.toNat = t.map Char.toNat := by
      rw [raw, bytes_ascii hascii, List.map_map]
      exact List.map_congr_left fun c hc => toNat_asciiByte (hascii c hc)
    rw [hbytes, Utf16.units_ascii hascii]
    exact ⟨Iff.rfl, Iff.rfl⟩
  · have hhigh {codes : List Nat} (h : ∃ c ∈ codes, 0x80 ≤ c) : ¬Spells codes v := by
      intro hspells
      obtain ⟨c, hc, hle⟩ := h
      have hdigit := (hspells.digits c hc).2
      omega
    have htext : ¬Spells (t.map Char.toNat) v := by
      simp only [Ascii, not_forall] at hascii
      obtain ⟨c, hc, hle⟩ := hascii
      exact hhigh ⟨c.toNat, List.mem_map_of_mem hc, Nat.le_of_not_lt hle⟩
    obtain ⟨b, hb, hbyte⟩ := exists_high hascii
    obtain ⟨u, hu, hunit⟩ := Utf16.exists_high hascii
    exact ⟨iff_of_false (hhigh ⟨_, List.mem_map_of_mem hb, UInt8.le_iff_toNat_le.mp hbyte⟩) htext,
      iff_of_false (hhigh ⟨_, List.mem_map_of_mem hu, hunit⟩) htext⟩

/-- The numeral of a number as a text. -/
theorem ascii_toDigits (v : Nat) : Utf8.Ascii (Nat.toDigits 10 v) := by
  intro c hc
  have hdigit := (spells_toDigits v).digits c.toNat (List.mem_map_of_mem hc)
  have hhigh := hdigit.2
  omega

/-- The three checks accept the numerals below 2^64, each for its own value, and the formatter writes them. -/
theorem decimal_one_spelling :
    (∀ (s : Bytes) (v : Nat), Contract.parseDecimalU64 s = some v ↔ Spells (s.map UInt8.toNat) v ∧ v < 2 ^ 64) ∧
      (∀ (s : Bytes) (v : Nat), Contract.parseDecimalU64 s = some v →
        (Contract.formatDecimalU64 v : Outcome Empty Bytes) = .ok s) ∧
      (∀ v : UInt64, ∃ s, (Contract.formatDecimalU64 v.toNat : Outcome Empty Bytes) = .ok s ∧
        Contract.parseDecimalU64 s = some v.toNat) ∧
      (∀ (t : SchemaGate.Text) (v : Nat),
        SchemaGate.parseDecimalU64 t = .ok v ↔ Contract.parseDecimalU64 (SchemaGate.raw t) = some v) ∧
      (∀ t : SchemaGate.Text,
        isCanonicalDecimalU64 (Utf16.units t) = Contract.isCanonicalDecimalU64 (SchemaGate.raw t)) ∧
      (∀ s : Bytes, Contract.isCanonicalDecimalU64 s = true → ∃ t, SchemaGate.raw t = s) ∧
      ∀ value : List UInt16, isCanonicalDecimalU64 value = true → ∃ t, Utf16.units t = value := by
  refine ⟨Contract.parseDecimalU64_iff, fun s v h => ?_, fun v => ?_, fun t v => (SchemaGate.decimal_agree t v).symm,
    fun t => ?_, fun s h => ?_, fun value h => ?_⟩
  · obtain ⟨hspells, hlt⟩ := (Contract.parseDecimalU64_iff s v).mp h
    rw [Contract.formatDecimalU64_eq hlt, ← Contract.bytes_of_spells hspells]
  · have hlt : v.toNat < u64Bound := v.toNat_lt
    refine ⟨_, Contract.formatDecimalU64_eq hlt, (Contract.parseDecimalU64_iff _ _).mpr ⟨?_, hlt⟩⟩
    have hcodes : ((Nat.toDigits 10 v.toNat).map fun c => UInt8.ofNat c.toNat).map UInt8.toNat =
        (Nat.toDigits 10 v.toNat).map Char.toNat := by
      rw [List.map_map]
      exact List.map_congr_left fun c hc => Utf8.toNat_asciiByte (ascii_toDigits _ c hc)
    rw [hcodes]
    exact spells_toDigits _
  · rw [Bool.eq_iff_iff, isCanonicalDecimalU64_iff, Contract.isCanonicalDecimalU64, Option.isSome_iff_exists]
    simp only [Contract.parseDecimalU64_iff, spells_text]
  · obtain ⟨v, hv⟩ := Option.isSome_iff_exists.mp h
    refine ⟨Nat.toDigits 10 v, ?_⟩
    rw [SchemaGate.raw, Utf8.bytes_ascii (ascii_toDigits v)]
    exact (Contract.bytes_of_spells ((Contract.parseDecimalU64_iff s v).mp hv).1).symm
  · obtain ⟨v, hspells, -⟩ := (isCanonicalDecimalU64_iff value).mp h
    refine ⟨Nat.toDigits 10 v, List.map_injective_iff.mpr (fun _ _ h => UInt16.toNat_inj.mp h) ?_⟩
    rw [Utf16.units_ascii (ascii_toDigits v), hspells.eq]

end Client
