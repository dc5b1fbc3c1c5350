import ZigKernel.SchemaGate
import ZigKernel.SupervisorCanonicalSound
import ZigKernel.SupervisorExecution

/-! The two validators of a request to create an execution. Each check of the one is compared with the check of the
other on the bytes of the same text; a text that is not ASCII fails the checks that look at characters on both
sides. -/

namespace SchemaGate

open Zig Utf8 Supervisor

variable {s : Text} {c : Char} {v : Nat}

/-! ### Numbers -/

theorem isDigit_asciiByte (h : c.toNat < 0x80) : Json.isDigit (asciiByte c) = true ↔ '0' ≤ c ∧ c ≤ '9' := by
  show (decide (asciiByte '0' ≤ asciiByte c) && decide (asciiByte c ≤ asciiByte '9')) = true ↔ _
  rw [Bool.and_eq_true, decide_eq_true_eq, decide_eq_true_eq, asciiByte_le (by decide) h, asciiByte_le h (by decide)]

theorem ascii_of_le {d : Char} (h : c ≤ d) (hd : d.toNat < 0x80) : c.toNat < 0x80 := by
  rw [Char.le_def, UInt32.le_iff_toNat_le] at h
  exact Nat.lt_of_le_of_lt h hd

/-- What the loop asks of a character. -/
theorem not_out : ¬ (c < '0' ∨ c > '9') ↔ '0' ≤ c ∧ c ≤ '9' := by
  rw [not_or, Char.not_lt, gt_iff_lt, Char.not_lt]

theorem ascii_of_decimalLoop {value : Nat} (h : parseDecimalLoop value s = .ok v) : Ascii s := by
  induction s generalizing value with
  | nil => exact fun c hc => by cases hc
  | cons c s ih =>
      simp only [parseDecimalLoop, raise] at h
      split_ifs at h with hdigit hmax
      exact List.forall_mem_cons.mpr ⟨ascii_of_le (not_out.mp hdigit).2 (by decide), ih h⟩

theorem ascii_of_decimal (h : parseDecimalU64 s = .ok v) : Ascii s := by
  simp only [parseDecimalU64, raise] at h
  split_ifs at h with hlength hzero hone
  · obtain ⟨c, rfl⟩ := List.length_eq_one_iff.mp (not_not.mp hone)
    rw [Option.some.inj hzero]
    exact List.forall_mem_singleton.mpr (by decide)
  · exact ascii_of_decimalLoop h

/-- Two checked operations are one bound on their result. -/
theorem math_step (value d : Nat) {f : Nat → Option Nat} :
    ((mathMul value 10).bind fun n => (mathAdd n d).bind f) = if value * 10 + d > u64Max then none else f (value * 10 + d) := by
  have hmax : u64Bound = u64Max + 1 := by decide
  rw [mathMul]
  split_ifs with hmul hbound hbound
  · rw [Option.bind_some, mathAdd, if_neg (by omega)]
    rfl
  · rw [Option.bind_some, mathAdd, if_pos (by omega)]
    rfl
  · rfl
  · omega

theorem decimalLoop_agree (h : Ascii s) (value : Nat) :
    Contract.parseDecimalDigits value (s.map asciiByte) = some v ↔ parseDecimalLoop value s = .ok v := by
  induction s generalizing value with
  | nil => simp [Contract.parseDecimalDigits, parseDecimalLoop]
  | cons c s ih =>
      rw [Ascii, List.forall_mem_cons] at h
      simp only [List.map_cons, Contract.parseDecimalDigits, parseDecimalLoop, raise, isDigit_asciiByte h.1, ← not_out,
        not_not, toNat_asciiByte h.1, Option.bind_eq_bind, math_step]
      by_cases hout : c < '0' ∨ c > '9'
      · simp only [if_pos hout, reduceCtorEq]
      · rw [if_neg hout, if_neg hout]
        by_cases hmax : value * 10 + (c.toNat - 0x30) > u64Max
        · rw [if_pos hmax, if_pos hmax]
          simp only [reduceCtorEq]
        · rw [if_neg hmax, if_neg hmax]
          exact ih h.2 _

theorem decimal_agree (s : Text) (v : Nat) : Contract.parseDecimalU64 (raw s) = some v ↔ parseDecimalU64 s = .ok v := by
  by_cases hascii : Ascii s
  · have hnil : s.length = 0 ↔ s = [] := List.length_eq_zero_iff
    have hhead : (s.map asciiByte).head? = some Json.zero ↔ s.head? = some '0' := by
      cases s with
      | nil => simp
      | cons c s =>
          rw [Ascii, List.forall_mem_cons] at hascii
          rw [List.map_cons, List.head?_cons, List.head?_cons, Option.some.injEq, Option.some.injEq]
          show asciiByte c = asciiByte '0' ↔ c = '0'
          exact asciiByte_inj hascii.1 (by decide)
    rw [raw, bytes_ascii hascii]
    simp only [Contract.parseDecimalU64, parseDecimalU64, raise, List.length_map, hnil, hhead]
    split_ifs
    · simp
    · simp
    · simp
    · exact decimalLoop_agree hascii 0
  · refine iff_of_false (fun h => hascii ?_) fun h => hascii (ascii_of_decimal h)
    refine ascii_of_bytes fun b hb => ?_
    have hdigit := Contract.digits_of_decimal h b hb
    rw [Json.isDigit, Bool.and_eq_true, decide_eq_true_eq, decide_eq_true_eq] at hdigit
    exact UInt8.lt_of_le_of_lt hdigit.2 (by decide)

/-! ### Guest paths -/

theorem indexOfPos_eq (bs : List UInt8) (b : UInt8) (start : Nat) : Contract.indexOfPos bs start b = index bs b start := by
  induction start using Contract.indexOfPos.induct bs b with
  | case1 start hlt hfound =>
      rw [Contract.indexOfPos, dif_pos hlt, if_pos hfound, index, List.drop_eq_getElem_cons hlt, List.findIdx?_cons, hfound]
      simp
  | case2 start hlt hfound ih =>
      rw [Contract.indexOfPos, dif_pos hlt, if_neg hfound, ih, index, index, List.drop_eq_getElem_cons hlt, List.findIdx?_cons,
        beq_eq_false_iff_ne.mpr hfound, if_neg Bool.false_ne_true, Option.map_map]
      congr 1
      funext i
      simp only [Function.comp]
      omega
  | case3 start hge =>
      rw [Contract.indexOfPos, dif_neg hge, index, List.drop_eq_nil_of_le (Nat.le_of_not_lt hge)]
      rfl

theorem guestPathLoop_eq (bs : List UInt8) (start : Nat) : Contract.guestPathLoop bs start = guestPathLoop bs start := by
  induction hn : bs.length + 1 - start using Nat.strong_induction_on generalizing start with
  | _ n ih =>
      rw [Contract.guestPathLoop, guestPathLoop]
      by_cases hle : start ≤ bs.length
      · have hstop := le_index (b := 0x2f) hle
        have hnext := ih (bs.length + 1 - ((index bs 0x2f start).getD bs.length + 1)) (by omega) _ rfl
        rw [dif_pos hle, dif_pos hle]
        simp only [Contract.slash, indexOfPos_eq, hnext, Contract.dot]
      · rw [dif_neg hle, dif_neg hle]

theorem guestPath_agree (s : Text) : Contract.isGuestPath (raw s) = isGuestPath s := by
  rw [Contract.isGuestPath, isGuestPath, guestPathLoop_eq]
  by_cases hnil : raw s = []
  · simp [hnil]
  · have hzero : (raw s).contains 0 = decide (0 ∈ raw s) := List.contains_eq_mem _ _
    have hback : (raw s).contains Json.backslash = decide (0x5c ∈ raw s) := List.contains_eq_mem _ _
    simp only [List.length_eq_zero_iff, hzero, hback, decide_eq_true_eq]
    by_cases hmem : 0 ∈ raw s
    · simp [hmem]
    · simp [hmem, Contract.slash, Contract.maxPathBytes, maxPathBytes]

/-! ### The environment -/

theorem isLetter_iff (b : UInt8) : Contract.isLetter b = true ↔ (65 ≤ b ∧ b ≤ 90) ∨ (97 ≤ b ∧ b ≤ 122) := by
  rw [Contract.isLetter, Bool.or_eq_true, Bool.and_eq_true, Bool.and_eq_true]
  simp only [decide_eq_true_eq]

theorem isDigit_iff (b : UInt8) : Json.isDigit b = true ↔ 48 ≤ b ∧ b ≤ 57 := by
  rw [Json.isDigit, Bool.and_eq_true, decide_eq_true_eq, decide_eq_true_eq]

theorem envName_agree (s : Text) : Contract.isEnvName (raw s) = isEnvName s := by
  rw [Contract.isEnvName.eq_def, isEnvName]
  cases raw s with
  | nil => rfl
  | cons c0 rest =>
      simp only [Bool.or_eq_true, isLetter_iff, beq_iff_eq, or_assoc]
      congr 1
      apply congrArg (List.all rest)
      funext c
      rw [Bool.eq_iff_iff, decide_eq_true_eq]
      simp only [Bool.or_eq_true, isLetter_iff, isDigit_iff, beq_iff_eq, or_assoc]

/-! ### Standard input -/

/-- A character of the alphabet. -/
theorem alphabet_asciiByte (h : c.toNat < 0x80) :
    (Contract.isLetter (asciiByte c) || Json.isDigit (asciiByte c) || asciiByte c == 0x2b || asciiByte c == 0x2f) = true ↔
      ('A' ≤ c ∧ c ≤ 'Z') ∨ ('a' ≤ c ∧ c ≤ 'z') ∨ ('0' ≤ c ∧ c ≤ '9') ∨ c ∈ ['+', '/'] := by
  have hletter : Contract.isLetter (asciiByte c) = true ↔ ('A' ≤ c ∧ c ≤ 'Z') ∨ ('a' ≤ c ∧ c ≤ 'z') := by
    rw [isLetter_iff, ← asciiByte_le (by decide : 'A'.toNat < 0x80) h, ← asciiByte_le h (by decide : 'Z'.toNat < 0x80),
      ← asciiByte_le (by decide : 'a'.toNat < 0x80) h, ← asciiByte_le h (by decide : 'z'.toNat < 0x80)]
    rfl
  have hplus : asciiByte c = 0x2b ↔ c = '+' := asciiByte_inj h (by decide : '+'.toNat < 0x80)
  have hslash : asciiByte c = 0x2f ↔ c = '/' := asciiByte_inj h (by decide : '/'.toNat < 0x80)
  simp only [Bool.or_eq_true, hletter, isDigit_asciiByte h, beq_iff_eq, hplus, hslash, List.mem_cons, List.not_mem_nil,
    or_false, or_assoc]

theorem base64Loop_agree (h : Ascii s) (pad : Nat) :
    Contract.standardBase64Loop pad (s.map asciiByte) = standardBase64Loop pad s := by
  induction s generalizing pad with
  | nil => rfl
  | cons c s ih =>
      rw [Ascii, List.forall_mem_cons] at h
      have hpad : asciiByte c = Base64.pad ↔ c = '=' := asciiByte_inj h.1 (by decide : '='.toNat < 0x80)
      rw [List.map_cons, Contract.standardBase64Loop, standardBase64Loop, ih h.2, ih h.2]
      simp only [hpad, alphabet_asciiByte h.1]

theorem ascii_of_base64Loop {pad : Nat} (h : standardBase64Loop pad s = true) : Ascii s := by
  induction s generalizing pad with
  | nil => exact fun c hc => by cases hc
  | cons c s ih =>
      rw [standardBase64Loop] at h
      split_ifs at h with hpad hmany hafter halphabet
      · exact List.forall_mem_cons.mpr ⟨hpad ▸ by decide, ih h⟩
      · refine List.forall_mem_cons.mpr ⟨?_, ih h⟩
        rcases halphabet with hin | hin | hin | hin
        · exact ascii_of_le hin.2 (by decide)
        · exact ascii_of_le hin.2 (by decide)
        · exact ascii_of_le hin.2 (by decide)
        · rw [List.mem_cons, List.mem_singleton] at hin
          rcases hin with rfl | rfl <;> decide

theorem alphabet_value (b : UInt8) :
    (Contract.isLetter b || Json.isDigit b || b == 0x2b || b == 0x2f) = true ↔ (Base64.value b).isSome := by
  simp only [Bool.or_eq_true, isLetter_iff, isDigit_iff, beq_iff_eq, Base64.value]
  split_ifs <;> simp_all

theorem low_of_value {b : UInt8} (h : (Base64.value b).isSome) : b < 0x80 := by
  rw [← alphabet_value] at h
  simp only [Bool.or_eq_true, isLetter_iff, isDigit_iff, beq_iff_eq, or_assoc] at h
  rcases h with h | h | h | rfl | rfl
  · exact UInt8.lt_of_le_of_lt h.2 (by decide)
  · exact UInt8.lt_of_le_of_lt h.2 (by decide)
  · exact UInt8.lt_of_le_of_lt h.2 (by decide)
  · decide
  · decide

/-- A turn of Zig's loop. -/
theorem base64Loop_cons {pad : Nat} {b : UInt8} {bs : List UInt8} (h : Contract.standardBase64Loop pad (b :: bs) = true) :
    (b = Base64.pad ∧ pad + 1 ≤ 2 ∧ Contract.standardBase64Loop (pad + 1) bs = true) ∨
      (pad = 0 ∧ (Base64.value b).isSome ∧ Contract.standardBase64Loop 0 bs = true) := by
  rw [Contract.standardBase64Loop] at h
  split_ifs at h with hpad hmany hafter halphabet
  · exact Or.inl ⟨hpad, Nat.le_of_not_lt hmany, h⟩
  · have hzero := not_not.mp hafter
    exact Or.inr ⟨hzero, (alphabet_value b).mp halphabet, hzero ▸ h⟩

theorem low_of_base64Loop {pad : Nat} {bs : List UInt8} (h : Contract.standardBase64Loop pad bs = true) :
    ∀ b ∈ bs, b < 0x80 := by
  induction bs generalizing pad with
  | nil => exact fun b hb => by cases hb
  | cons b bs ih =>
      rcases base64Loop_cons h with ⟨rfl, -, hrest⟩ | ⟨-, hvalue, hrest⟩
      · exact List.forall_mem_cons.mpr ⟨by decide, ih hrest⟩
      · exact List.forall_mem_cons.mpr ⟨low_of_value hvalue, ih hrest⟩

/-- Behind the padding stands at most one more. -/
theorem base64Loop_one {bs : List UInt8} (h : Contract.standardBase64Loop 1 bs = true) : bs = [] ∨ bs = [Base64.pad] := by
  cases bs with
  | nil => exact Or.inl rfl
  | cons b bs =>
      rcases base64Loop_cons h with ⟨rfl, -, hrest⟩ | ⟨hzero, -⟩
      · cases bs with
        | nil => exact Or.inr rfl
        | cons b' bs =>
            rcases base64Loop_cons hrest with ⟨-, hmany, -⟩ | ⟨hzero, -⟩
            · omega
            · cases hzero
      · cases hzero

theorem standard_of_loop : ∀ bs : List UInt8, bs.length % 4 = 0 → Contract.standardBase64Loop 0 bs = true →
    Base64.Standard bs
  | [], _, _ => .nil
  | [_], hlength, _ => by simp at hlength
  | [_, _], hlength, _ => by simp at hlength
  | [_, _, _], hlength, _ => by simp at hlength
  | a :: b :: c :: d :: rest, hlength, h => by
      have hrest : rest.length % 4 = 0 := by
        simp only [List.length_cons] at hlength
        omega
      rcases base64Loop_cons h with ⟨-, -, h⟩ | ⟨-, ha, h⟩
      · rcases base64Loop_one h with h | h <;> simp at h
      rcases base64Loop_cons h with ⟨-, -, h⟩ | ⟨-, hb, h⟩
      · rcases base64Loop_one h with h | h <;> simp at h
      rcases base64Loop_cons h with ⟨rfl, -, h⟩ | ⟨-, hc, h⟩
      · rcases base64Loop_one h with h | h
        · cases h
        · cases h
          exact .one ha hb
      rcases base64Loop_cons h with ⟨rfl, -, h⟩ | ⟨-, hd, h⟩
      · rcases base64Loop_one h with rfl | rfl
        · exact .two ha hb hc
        · simp at hrest
      · exact .three ha hb hc hd (standard_of_loop rest hrest h)

/-- Zig's check accepts what is standard. -/
theorem standard_of_check {bs : List UInt8} (h : Contract.isStandardBase64 bs = true) : Base64.Standard bs := by
  rw [Contract.isStandardBase64] at h
  split_ifs at h with hnil hlength
  · rw [List.length_eq_zero_iff.mp hnil]
    exact .nil
  · exact standard_of_loop bs (not_not.mp hlength) h

theorem ascii_of_check (h : isStandardBase64 s = true) : Ascii s := by
  rw [isStandardBase64] at h
  split_ifs at h with hnil hlength
  · exact hnil ▸ fun c hc => by cases hc
  · exact ascii_of_base64Loop h

theorem base64_agree (s : Text) : Contract.isStandardBase64 (raw s) = isStandardBase64 s := by
  by_cases hascii : Ascii s
  · rw [raw, bytes_ascii hascii, Contract.isStandardBase64, isStandardBase64, List.length_map, base64Loop_agree hascii]
    simp only [List.length_eq_zero_iff]
  · have hzig : Contract.isStandardBase64 (raw s) ≠ true := by
      intro h
      rw [Contract.isStandardBase64] at h
      split_ifs at h with hnil hlength
      · rw [List.length_eq_zero_iff, raw, bytes_eq_nil] at hnil
        exact hascii (hnil ▸ fun c hc => by cases hc)
      · exact hascii (ascii_of_bytes (low_of_base64Loop h))
    have hpython : isStandardBase64 s ≠ true := fun h => hascii (ascii_of_check h)
    rw [Bool.eq_false_iff.mpr hzig, Bool.eq_false_iff.mpr hpython]

theorem zig_decodedStdinLen (s : Text) (n : Nat) : Contract.decodedStdinLen (raw s) = .ok n ↔
    isStandardBase64 s = true ∧ Base64.size (raw s) ≤ maxStringBytes ∧ Base64.unusedBits (raw s) = 0 ∧
      Base64.size (raw s) = n := by
  rw [Contract.decodedStdinLen, base64_agree]
  by_cases hcheck : isStandardBase64 s = true
  · have hstandard := standard_of_check ((base64_agree s).trans hcheck)
    obtain ⟨bytes, hdecode, -⟩ := Base64.decode_standard hstandard
    have hsize : Contract.calcSizeForSlice (raw s) = some (Base64.size (raw s)) :=
      if_neg (not_not.mpr (Nat.mod_eq_zero_of_dvd hstandard.length))
    rw [if_neg (not_not.mpr hcheck), hsize]
    simp only [hcheck, true_and]
    by_cases hnil : (raw s).length = 0
    · rw [if_pos hnil, List.length_eq_zero_iff.mp hnil]
      simp [Base64.size, Base64.unusedBits]
    · rw [if_neg hnil, Base64.decode_strict _ hstandard, hdecode]
      show (if Base64.size (raw s) > maxStringBytes then _ else _) = _ ↔ _
      by_cases hmax : Base64.size (raw s) ≤ maxStringBytes
      · rw [if_neg (Nat.not_lt_of_le hmax)]
        by_cases hbits : Base64.unusedBits (raw s) = 0 <;> simp [hbits, hmax]
      · rw [if_pos (Nat.lt_of_not_le hmax)]
        simp [hmax]
  · rw [if_pos hcheck]
    simp [hcheck]

theorem python_decodedStdinLen (s : Text) (n : Nat) : decodedStdinLen s = .ok n ↔
    isStandardBase64 s = true ∧ Base64.size (raw s) ≤ maxStringBytes ∧ Base64.size (raw s) = n := by
  rw [decodedStdinLen, raise, raise, raise]
  by_cases hcheck : isStandardBase64 s = true
  · have hstandard := standard_of_check ((base64_agree s).trans hcheck)
    have hascii : Ascii s := ascii_of_check hcheck
    have hall : s.all (·.toNat < 0x80) = true := List.all_eq_true.mpr fun c hc => decide_eq_true (hascii c hc)
    obtain ⟨bytes, hdecode, hlength⟩ := Base64.decode_standard hstandard
    rw [raw, bytes_ascii hascii] at hdecode
    rw [if_neg (not_not.mpr hcheck), b64decode, if_pos hall, hdecode]
    simp only [hcheck, true_and]
    by_cases hnil : s = []
    · rw [if_pos hnil, hnil]
      simp [Base64.size, raw, Utf8.bytes]
    · rw [if_neg hnil]
      show (if bytes.length > maxStringBytes then _ else _) = _ ↔ _
      rw [hlength]
      by_cases hmax : Base64.size (raw s) ≤ maxStringBytes
      · rw [if_neg (Nat.not_lt_of_le hmax)]
        simp [hmax]
      · rw [if_pos (Nat.lt_of_not_le hmax)]
        simp [hmax]
  · rw [if_pos hcheck]
    simp [hcheck]

/-! ### The request -/

/-- The request as the JSON parser hands it to the other side. -/
def Instance.json (b : Instance) : Contract.ExecutionCreateJson where
  generation := raw b.generation
  argv := b.argv.map raw
  cwd := b.cwd.map raw
  env := b.env.map fun env => .object (env.map fun e => (raw e.1, .string (raw e.2)))
  timeoutMs := b.timeoutMs.map raw
  stdinBase64 := b.stdinBase64.map raw

/-- What both sides ask of a request. -/
structure Instance.Shared (b : Instance) : Prop where
  generation : ∃ g, parseDecimalU64 b.generation = .ok g ∧ 1 ≤ g
  argv : b.argv ≠ [] ∧ b.argv.length ≤ maxArgv
  args : ∀ arg ∈ b.argv, arg ≠ [] ∧ Char.ofNat 0 ∉ arg ∧ utf8Bytes arg ≤ maxStringBytes
  cwd : ∀ cwd ∈ b.cwd, isGuestPath cwd = true
  timeoutMs : ∀ ts ∈ b.timeoutMs, ∃ t, parseDecimalU64 ts = .ok t
  env : ∀ env ∈ b.env, env.length ≤ maxEnv ∧ ∀ e ∈ env, isEnvName e.1 = true ∧ Char.ofNat 0 ∉ e.2
  stdinBase64 : ∀ s ∈ b.stdinBase64, isStandardBase64 s = true ∧ Base64.size (raw s) ≤ maxStringBytes

/-- Names and values of the environment within the bound for a string. -/
def Instance.EnvBounded (b : Instance) : Prop :=
  ∀ env ∈ b.env, ∀ e ∈ env, utf8Bytes e.1 ≤ maxStringBytes ∧ utf8Bytes e.2 ≤ maxStringBytes

/-- No bit of the standard input is left over. -/
def Instance.NothingUnused (b : Instance) : Prop := ∀ s ∈ b.stdinBase64, Base64.unusedBits (raw s) = 0

theorem whenIn_eq_ok {α : Type} {o : Option α} {f : α → Except SemanticError Unit} :
    whenIn o f = .ok () ↔ ∀ a ∈ o, f a = .ok () := by
  cases o with
  | none => simp [whenIn]
  | some a => simp [whenIn]

theorem zero_mem_raw : 0 ∈ raw s ↔ Char.ofNat 0 ∈ s := zero_mem_bytes

theorem contains_zero (s : Text) : (raw s).contains 0 = true ↔ Char.ofNat 0 ∈ s := by
  rw [List.contains_iff_mem, zero_mem_raw]

theorem validateArgv_eq_ok {argv : List Text} : Contract.validateArgv (argv.map raw) = .ok () ↔
    ∀ arg ∈ argv, arg ≠ [] ∧ Char.ofNat 0 ∉ arg ∧ utf8Bytes arg ≤ maxStringBytes := by
  induction argv with
  | nil => simp [Contract.validateArgv]
  | cons arg argv ih =>
      have hempty : (raw arg).length = 0 ↔ arg = [] := List.length_eq_zero_iff.trans bytes_eq_nil
      rw [List.map_cons, Contract.validateArgv, List.forall_mem_cons, ← ih]
      simp only [hempty, contains_zero]
      by_cases hitem : arg = [] ∨ Char.ofNat 0 ∈ arg
      · rw [if_pos hitem]
        simp only [reduceCtorEq, false_iff]
        tauto
      · rw [if_neg hitem]
        rw [not_or] at hitem
        by_cases hlength : utf8Bytes arg ≤ maxStringBytes
        · have hcopy : Contract.copyBounded Contract.maxStringBytes (raw arg) = .ok (raw arg) :=
            if_neg (Nat.not_lt_of_le hlength)
          rw [hcopy, Outcome.ok_bind]
          simp only [hitem, hlength, not_false_eq_true, ne_eq, true_and]
        · have hcopy : Contract.copyBounded Contract.maxStringBytes (raw arg) = .error .tooLarge :=
            if_pos (Nat.lt_of_not_le hlength)
          rw [hcopy, Outcome.error_bind]
          simp only [hlength, reduceCtorEq, and_false, false_and]

theorem semanticArgv_eq_ok {argv : List Text} : semanticArgv argv = .ok () ↔
    ∀ arg ∈ argv, arg ≠ [] ∧ Char.ofNat 0 ∉ arg ∧ utf8Bytes arg ≤ maxStringBytes := by
  induction argv with
  | nil => simp [semanticArgv]
  | cons arg argv ih =>
      rw [semanticArgv, List.forall_mem_cons, ← ih, raise, raise]
      by_cases hitem : arg = [] ∨ Char.ofNat 0 ∈ arg
      · rw [if_pos hitem]
        simp only [reduceCtorEq, false_iff]
        tauto
      · rw [if_neg hitem]
        rw [not_or] at hitem
        by_cases hlength : utf8Bytes arg ≤ maxStringBytes
        · rw [if_neg (Nat.not_lt_of_le hlength)]
          simp only [hitem, hlength, not_false_eq_true, ne_eq, true_and]
        · rw [if_pos (Nat.lt_of_not_le hlength)]
          simp only [hlength, reduceCtorEq, and_false, false_and]

theorem validateEnvEntries_eq_ok {env : List (Text × Text)} :
    Contract.validateEnvEntries (env.map fun e => (raw e.1, .string (raw e.2))) = .ok () ↔
      ∀ e ∈ env, isEnvName e.1 = true ∧ Char.ofNat 0 ∉ e.2 := by
  induction env with
  | nil => simp [Contract.validateEnvEntries]
  | cons e env ih =>
      rw [List.map_cons, Contract.validateEnvEntries, envName_agree, List.forall_mem_cons, ← ih]
      by_cases hname : isEnvName e.1 = true
      · by_cases hvalue : Char.ofNat 0 ∈ e.2
        · simp [hname, zero_mem_raw, hvalue]
        · simp [hname, zero_mem_raw, hvalue]
      · simp [hname]

theorem semanticEnv_eq_ok {env : List (Text × Text)} : semanticEnv env = .ok () ↔
    ∀ e ∈ env, (isEnvName e.1 = true ∧ Char.ofNat 0 ∉ e.2) ∧
      utf8Bytes e.1 ≤ maxStringBytes ∧ utf8Bytes e.2 ≤ maxStringBytes := by
  induction env with
  | nil => simp [semanticEnv]
  | cons e env ih =>
      rw [semanticEnv.eq_def, List.forall_mem_cons, ← ih]
      simp only [raise]
      by_cases hname : isEnvName e.1 = true
      · by_cases hvalue : Char.ofNat 0 ∈ e.2
        · simp [hname, hvalue]
        · by_cases hbytes : utf8Bytes e.1 > maxStringBytes ∨ utf8Bytes e.2 > maxStringBytes
          · rw [if_neg (not_not.mpr hname), if_neg hvalue, if_pos hbytes]
            simp only [reduceCtorEq, false_iff]
            omega
          · rw [if_neg (not_not.mpr hname), if_neg hvalue, if_neg hbytes]
            rw [not_or, gt_iff_lt, gt_iff_lt, Nat.not_lt, Nat.not_lt] at hbytes
            simp [hname, hvalue, hbytes]
      · simp [hname]

theorem isCanonicalDecimal_iff {s : Text} : Contract.isCanonicalDecimalU64 (raw s) = true ↔ ∃ t, parseDecimalU64 s = .ok t := by
  rw [Contract.isCanonicalDecimalU64, Option.isSome_iff_exists]
  simp only [decimal_agree]

theorem guestPath_bound {s : Text} (h : isGuestPath s = true) : utf8Bytes s ≤ maxPathBytes := by
  rw [isGuestPath] at h
  split_ifs at h with hlength
  rw [not_or] at hlength
  exact Nat.le_of_not_lt hlength.2

theorem seq_eq_ok {m : Except SemanticError Unit} {k : Unit → Except SemanticError Unit} :
    (m >>= k) = .ok () ↔ m = .ok () ∧ k () = .ok () := by
  cases m with
  | error e => simp [bind, Except.bind]
  | ok u => simp [bind, Except.bind]

theorem raise_or_eq_ok {p : Prop} [Decidable p] {message : String} {k : Except SemanticError Unit} :
    (if p then raise message else k) = .ok () ↔ ¬p ∧ k = .ok () := by
  rw [raise]
  split_ifs with h <;> simp [h]

theorem discard_eq_ok {α : Type} {m : Except SemanticError α} :
    (m >>= fun _ => pure ()) = (.ok () : Except SemanticError Unit) ↔ ∃ a, m = .ok a := by
  cases m with
  | error e => simp [bind, Except.bind]
  | ok a => simp [bind, Except.bind, pure, Except.pure]

theorem semanticGeneration_eq_ok : semanticGeneration s = .ok () ↔ ∃ g, parseDecimalU64 s = .ok g ∧ 1 ≤ g := by
  rw [semanticGeneration]
  cases parseDecimalU64 s with
  | error e => simp [bind, Except.bind]
  | ok g =>
      show (if g < 1 then raise "generation" else .ok ()) = _ ↔ _
      rw [raise_or_eq_ok, Nat.not_lt]
      simp

/-- The contract gate accepts what passes the shared checks and has a bounded environment. -/
theorem semantic_iff (b : Instance) : semanticExecutionCreate b = .ok () ↔ b.Shared ∧ b.EnvBounded := by
  simp only [semanticExecutionCreate, seq_eq_ok, raise_or_eq_ok, whenIn_eq_ok, semanticGeneration_eq_ok,
    semanticArgv_eq_ok, semanticDecimal, discard_eq_ok, semanticEnv_eq_ok, python_decodedStdinLen]
  constructor
  · rintro ⟨hgeneration, hargv, hargs, hcwd, htimeout, henv, hstdin⟩
    rw [not_or] at hargv
    refine ⟨⟨hgeneration, ⟨hargv.1, Nat.le_of_not_lt hargv.2⟩, hargs, ?_, htimeout, ?_, ?_⟩, ?_⟩
    · exact fun cwd h => not_not.mp (hcwd cwd h).1
    · exact fun env h => ⟨Nat.le_of_not_lt (henv env h).1, fun e he => ((henv env h).2 e he).1⟩
    · intro s h
      obtain ⟨n, hcheck, hsize, -⟩ := hstdin s h
      exact ⟨hcheck, hsize⟩
    · exact fun env h e he => ((henv env h).2 e he).2
  · rintro ⟨⟨hgeneration, hargv, hargs, hcwd, htimeout, henv, hstdin⟩, hbounded⟩
    refine ⟨hgeneration, ?_, hargs, ?_, htimeout, ?_, ?_⟩
    · rw [not_or]
      exact ⟨hargv.1, Nat.not_lt_of_le hargv.2⟩
    · exact fun cwd h => ⟨not_not.mpr (hcwd cwd h), Nat.not_lt_of_le (guestPath_bound (hcwd cwd h)), trivial⟩
    · exact fun env h => ⟨Nat.not_lt_of_le (henv env h).1, fun e he => ⟨(henv env h).2 e he, hbounded env h e he⟩⟩
    · exact fun s h => ⟨_, (hstdin s h).1, (hstdin s h).2, rfl⟩

theorem validateEnv_eq_ok {env : List (Text × Text)} :
    Contract.validateEnvValue (.object (env.map fun e => (raw e.1, .string (raw e.2)))) = .ok () ↔
      env.length ≤ maxEnv ∧ ∀ e ∈ env, isEnvName e.1 = true ∧ Char.ofNat 0 ∉ e.2 := by
  rw [Contract.validateEnvValue, Outcome.ite_error_eq_ok_iff, validateEnvEntries_eq_ok, List.length_map, gt_iff_lt, Nat.not_lt]
  rfl

theorem whenSome_map {α β : Type} {o : Option α} {g : α → β} {f : β → Outcome Contract.JsonError Unit} :
    Contract.whenSome (o.map g) f = .ok () ↔ ∀ a ∈ o, f (g a) = .ok () := by
  cases o with
  | none => simp [Contract.whenSome]
  | some a => simp [Contract.whenSome]

theorem unit_bind_eq_ok {α : Type} {m : Outcome Contract.JsonError Unit} {k : Unit → Outcome Contract.JsonError α} {a : α} :
    (m >>= k) = .ok a ↔ m = .ok () ∧ k () = .ok a := by
  rw [Outcome.bind_eq_ok_iff]
  exact ⟨fun ⟨_, h⟩ => h, fun h => ⟨(), h⟩⟩

theorem validate_eq_ok {b : Instance} {v : Contract.ValidatedExecutionCreate} :
    Contract.validateExecutionCreate b.json = .ok v ↔
      ∃ g, parseDecimalU64 b.generation = .ok g ∧ 1 ≤ g ∧ (b.argv ≠ [] ∧ b.argv.length ≤ maxArgv) ∧
        (∀ arg ∈ b.argv, arg ≠ [] ∧ Char.ofNat 0 ∉ arg ∧ utf8Bytes arg ≤ maxStringBytes) ∧
        (∀ cwd ∈ b.cwd, isGuestPath cwd = true) ∧ (∀ ts ∈ b.timeoutMs, ∃ t, parseDecimalU64 ts = .ok t) ∧
        (∀ env ∈ b.env, env.length ≤ maxEnv ∧ ∀ e ∈ env, isEnvName e.1 = true ∧ Char.ofNat 0 ∉ e.2) ∧
        Contract.withStdin g b.argv.length (b.stdinBase64.map raw) = .ok v := by
  cases hparse : Contract.parseDecimalU64 (raw b.generation) with
  | none =>
      refine iff_of_false (fun h => ?_) ?_
      · obtain ⟨copy, hcopy, h⟩ := Outcome.bind_eq_ok h
        rw [Contract.copyBounded, Outcome.ite_error_eq_ok_iff] at hcopy
        cases hcopy.2
        simp only [Instance.json, hparse] at h
        cases h
      · rintro ⟨g, hg, -⟩
        rw [← decimal_agree, hparse] at hg
        cases hg
  | some g =>
      have hlength : (raw b.generation).length ≤ 20 := by
        rw [Contract.parseDecimalU64] at hparse
        split_ifs at hparse <;> omega
      have hcopy : Contract.copyBounded 20 (raw b.generation) = .ok (raw b.generation) := if_neg (Nat.not_lt_of_le hlength)
      have hg := (decimal_agree b.generation g).mp hparse
      simp only [Contract.validateExecutionCreate, Instance.json]
      rw [hcopy, Outcome.ok_bind, hparse]
      simp only [Outcome.ite_error_eq_ok_iff, unit_bind_eq_ok, whenSome_map, validateArgv_eq_ok, validateEnv_eq_ok,
        guestPath_agree, isCanonicalDecimal_iff, List.length_map, hg, Except.ok.injEq, exists_eq_left', not_not,
        and_true, gt_iff_lt, Nat.not_lt, List.length_eq_zero_iff, and_assoc, ne_eq]
      rfl

theorem withStdin_accepts {g n : Nat} {o : Option Text} : (∃ v, Contract.withStdin g n (o.map raw) = .ok v) ↔
    ∀ s ∈ o, isStandardBase64 s = true ∧ Base64.size (raw s) ≤ maxStringBytes ∧ Base64.unusedBits (raw s) = 0 := by
  cases o with
  | none => exact iff_of_true ⟨_, rfl⟩ (by simp)
  | some s =>
      simp only [Contract.withStdin, Option.map_some, Outcome.bind_eq_ok_iff, zig_decodedStdinLen, Option.mem_some_iff,
        forall_eq']
      constructor
      · rintro ⟨_, _, ⟨hcheck, hsize, hbits, -⟩, -⟩
        exact ⟨hcheck, hsize, hbits⟩
      · rintro ⟨hcheck, hsize, hbits⟩
        exact ⟨_, _, ⟨hcheck, hsize, hbits, rfl⟩, rfl⟩

theorem withStdin_bytes {g n : Nat} {o : Option Text} {v : Contract.ValidatedExecutionCreate}
    (h : Contract.withStdin g n (o.map raw) = .ok v) :
    (o = none → v.stdinBytes = 0) ∧ ∀ s ∈ o, decodedStdinLen s = .ok v.stdinBytes := by
  cases o with
  | none =>
      cases h
      exact ⟨fun _ => rfl, by simp⟩
  | some s =>
      obtain ⟨bytes, hbytes, h⟩ := Outcome.bind_eq_ok h
      cases h
      obtain ⟨hcheck, hsize, -, hlength⟩ := (zig_decodedStdinLen s bytes).mp hbytes
      refine ⟨by simp, fun s' hs' => ?_⟩
      cases hs'
      exact (python_decodedStdinLen s bytes).mpr ⟨hcheck, hsize, hlength⟩

/-- The request validator accepts what passes the shared checks and has nothing unused. -/
theorem validate_iff (b : Instance) :
    (∃ v, Contract.validateExecutionCreate b.json = .ok v) ↔ b.Shared ∧ b.NothingUnused := by
  simp only [validate_eq_ok]
  constructor
  · rintro ⟨v, g, hg, hpos, hargv, hargs, hcwd, htimeout, henv, hstdin⟩
    have haccepts := withStdin_accepts.mp ⟨v, hstdin⟩
    exact ⟨⟨⟨g, hg, hpos⟩, hargv, hargs, hcwd, htimeout, henv, fun s hs => ⟨(haccepts s hs).1, (haccepts s hs).2.1⟩⟩,
      fun s hs => (haccepts s hs).2.2⟩
  · rintro ⟨⟨⟨g, hg, hpos⟩, hargv, hargs, hcwd, htimeout, henv, hstdin⟩, hunused⟩
    obtain ⟨v, hv⟩ := withStdin_accepts.mpr fun s hs => ⟨(hstdin s hs).1, (hstdin s hs).2, hunused s hs⟩
    exact ⟨v, g, hg, hpos, hargv, hargs, hcwd, htimeout, henv, hv⟩

/-- Both sides accept the request or both refuse it, and the standard input has one length for both. -/
def Instance.Agreed (b : Instance) : Prop :=
  ((∃ v, Contract.validateExecutionCreate b.json = .ok v) ↔ semanticExecutionCreate b = .ok ()) ∧
    ∀ v, Contract.validateExecutionCreate b.json = .ok v →
      (b.stdinBase64 = none → v.stdinBytes = 0) ∧ ∀ s ∈ b.stdinBase64, decodedStdinLen s = .ok v.stdinBytes

/-- The two validators agree on a request exactly if, when it passes what both of them check, its standard input has
no bits left over just when the strings of its environment are within the bound. -/
theorem execution_create_agreed_iff (b : Instance) : b.Agreed ↔ (b.Shared → (b.NothingUnused ↔ b.EnvBounded)) := by
  rw [Instance.Agreed, validate_iff, semantic_iff]
  constructor
  · rintro ⟨hiff, -⟩ hshared
    rw [and_iff_right hshared, and_iff_right hshared] at hiff
    exact hiff
  · intro hiff
    refine ⟨and_congr_right hiff, fun v hv => ?_⟩
    obtain ⟨g, -, -, -, -, -, -, -, hstdin⟩ := validate_eq_ok.mp hv
    exact withStdin_bytes hstdin

/-- A value of the environment one byte above the bound. -/
def longValue : Instance := ⟨['1'], [['a']], none, some [(['A'], List.replicate 4097 'x')], none, none⟩

/-- Base64 whose last character has bits left over. -/
def looseBits : Instance := ⟨['1'], [['a']], none, none, none, some ['Q', 'R', '=', '=']⟩

theorem longValue_bytes : utf8Bytes (List.replicate 4097 'x') = 4097 := by
  have hascii : Ascii (List.replicate 4097 'x') := fun c hc => List.eq_of_mem_replicate hc ▸ by decide
  rw [utf8Bytes, raw, bytes_ascii hascii, List.length_map, List.length_replicate]

theorem shared_of_argument (b : Instance) (hgeneration : b.generation = ['1']) (hargv : b.argv = [['a']])
    (hcwd : b.cwd = none) (htimeout : b.timeoutMs = none)
    (henv : ∀ env ∈ b.env, env.length ≤ maxEnv ∧ ∀ e ∈ env, isEnvName e.1 = true ∧ Char.ofNat 0 ∉ e.2)
    (hstdin : ∀ s ∈ b.stdinBase64, isStandardBase64 s = true ∧ Base64.size (raw s) ≤ maxStringBytes) : b.Shared where
  generation := ⟨1, by rw [hgeneration]; rfl, Nat.le_refl 1⟩
  argv := by rw [hargv]; exact ⟨by simp, by decide⟩
  args := by
    rw [hargv, List.forall_mem_singleton]
    exact ⟨by simp, by decide, by decide⟩
  cwd := by simp [hcwd]
  timeoutMs := by simp [htimeout]
  env := henv
  stdinBase64 := hstdin

/-- The one is refused by the gate only, and the other by the validator only. -/
theorem execution_create_disagreed :
    ((∃ v, Contract.validateExecutionCreate longValue.json = .ok v) ∧ semanticExecutionCreate longValue ≠ .ok () ∧
      ¬ longValue.Agreed) ∧
    ((¬ ∃ v, Contract.validateExecutionCreate looseBits.json = .ok v) ∧ semanticExecutionCreate looseBits = .ok () ∧
      ¬ looseBits.Agreed) := by
  have hlong : longValue.Shared := by
    refine shared_of_argument longValue rfl rfl rfl rfl (fun env henv => ?_) fun s hs => by cases hs
    cases henv
    refine ⟨by decide, List.forall_mem_singleton.mpr ⟨by decide, fun h => ?_⟩⟩
    exact absurd (List.eq_of_mem_replicate h) (by decide)
  have hunbounded : ¬ longValue.EnvBounded := by
    intro h
    have hvalue := (h _ rfl _ List.mem_cons_self).2
    rw [longValue_bytes] at hvalue
    exact absurd hvalue (by decide)
  have hloose : looseBits.Shared := by
    refine shared_of_argument looseBits rfl rfl rfl rfl (by simp [looseBits]) fun s hs => ?_
    cases hs
    exact ⟨by decide, by decide⟩
  have hused : ¬ looseBits.NothingUnused := fun h => absurd (h _ rfl) (by decide)
  have haccepted := (validate_iff longValue).mpr ⟨hlong, fun s hs => by cases hs⟩
  have hrefused : semanticExecutionCreate longValue ≠ .ok () := fun h => hunbounded ((semantic_iff _).mp h).2
  have haccepted' := (semantic_iff looseBits).mpr ⟨hloose, fun env henv => by cases henv⟩
  have hrefused' : ¬ ∃ v, Contract.validateExecutionCreate looseBits.json = .ok v :=
    fun h => hused ((validate_iff _).mp h).2
  exact ⟨⟨haccepted, hrefused, fun h => hrefused (h.1.mp haccepted)⟩,
    hrefused', haccepted', fun h => hrefused' (h.1.mpr haccepted')⟩

end SchemaGate
