import ZigKernel.LibJsonSound
import ZigKernel.SupervisorCanonical

/-! Canonical errors are injection-safe. What the writer returns is the text of one object, whose members are
the fields of the error as they were given: the strings are escaped or hold nothing to escape, and no byte of
a caller ends a string or starts a diagnostic envelope. -/

namespace Supervisor

open Zig Json

namespace Contract

/-! ### What is written -/

def escapeByte (c : UInt8) : Bytes :=
  if c = quote then ascii "\\\""
  else if c = backslash then ascii "\\\\"
  else if c = 0x0a then ascii "\\n"
  else if c = 0x0d then ascii "\\r"
  else if c = 0x09 then ascii "\\t"
  else if c = 0x08 then ascii "\\b"
  else if c = 0x0c then ascii "\\f"
  else if c < 0x20 then ascii "\\u00" ++ [hex.getD (c >>> 4).toNat 0, hex.getD (c &&& 0x0f).toNat 0]
  else [c]

def quoted (s : Bytes) : Bytes := quote :: (s.flatMap escapeByte ++ [quote])

def CanonicalDetailValue.text : CanonicalDetailValue → Bytes
  | .string s => quoted s
  | .boolean b => if b then ascii "true" else ascii "false"
  | .decimal d => quoted d
  | .null => ascii "null"

def CanonicalDetailEntry.text (e : CanonicalDetailEntry) : Bytes := quoted e.name ++ (ascii ":" ++ e.value.text)

/-- The entries behind the first. -/
def moreText (rest : List CanonicalDetailEntry) : Bytes := rest.flatMap fun e => ascii "," ++ e.text

def detailText : List CanonicalDetailEntry → Bytes
  | [] => []
  | e :: rest => ascii ",\"detail\":\x7b" ++ (e.text ++ (moreText rest ++ ascii "\x7d"))

def CanonicalError.text (err : CanonicalError) : Bytes :=
  ascii "\x7b\"code\":\"" ++ (err.code.text ++ (ascii "\",\"message\":\"" ++ (err.message ++
    (ascii "\",\"request_id\":\"" ++ (err.requestId ++ (ascii "\",\"retryable\":" ++
      ((if err.retryable then ascii "true" else ascii "false") ++ (detailText err.detail ++ ascii "\x7d"))))))))

/-- Where the action returns, it has written the text behind what was there. -/
def Writes (m : Append Unit) (text : Bytes) : Prop :=
  ∀ w w', m w = (.ok (), w') → w.n ≤ w.buf.length → w'.n ≤ w'.buf.length ∧ w'.buf.take w'.n = w.buf.take w.n ++ text

variable {s t : Bytes}

theorem Writes.pure : Writes (pure ()) [] := by
  intro w w' h hn
  cases h
  exact ⟨hn, (List.append_nil _).symm⟩

theorem Writes.bind {m m' : Append Unit} (h : Writes m s) (h' : Writes m' t) : Writes (m >>= fun _ => m') (s ++ t) := by
  intro w w' hrun hn
  obtain ⟨_, w₁, hfirst, hsecond⟩ := Act.bind_run_eq_ok hrun
  obtain ⟨hn₁, htext⟩ := h w w₁ hfirst hn
  obtain ⟨hn', htext'⟩ := h' w₁ w' hsecond hn₁
  refine ⟨hn', ?_⟩
  rw [htext', htext, List.append_assoc]

/-- An action that puts the text behind what is written. -/
theorem writes_overwrite {m : Append Unit} (h : ∀ w w', m w = (.ok (), w') →
    w.n + s.length ≤ w.buf.length ∧ w' = { buf := overwrite w.buf w.n s, n := w.n + s.length }) : Writes m s := by
  intro w w' hrun hn
  obtain ⟨hfits, rfl⟩ := h w w' hrun
  have hlength : (w.buf.take w.n ++ s).length = w.n + s.length := by
    rw [List.length_append, List.length_take_of_le hn]
  refine ⟨?_, ?_⟩
  · rw [length_overwrite hfits]
    exact hfits
  · simp only [overwrite]
    rw [← hlength, List.take_left]

theorem writes_slice (s : Bytes) : Writes (appendSlice s) s := by
  refine writes_overwrite fun w w' h => ?_
  rw [appendSlice, Act.get_bind_run] at h
  obtain ⟨stop, hadd, h⟩ := Act.lift_bind_run_eq_ok h
  obtain ⟨-, rfl⟩ := addU64_eq_ok.mp hadd
  by_cases hfits : w.n + s.length > w.buf.length
  · rw [if_pos hfits] at h
    cases h
  rw [if_neg hfits] at h
  obtain ⟨buf, hcopy, h⟩ := Act.lift_bind_run_eq_ok h
  rw [memcpy_of_le (Nat.le_add_right _ _) (Nat.le_of_not_lt hfits) (Nat.add_sub_cancel_left ..).symm] at hcopy
  cases hcopy
  cases h
  exact ⟨Nat.le_of_not_lt hfits, rfl⟩

theorem writes_byte (c : UInt8) : Writes (appendByte c) [c] := by
  refine writes_overwrite fun w w' h => ?_
  rw [appendByte, Act.get_bind_run] at h
  by_cases hfits : w.n ≥ w.buf.length
  · rw [if_pos hfits] at h
    cases h
  rw [if_neg hfits] at h
  obtain ⟨n, hadd, h⟩ := Act.lift_bind_run_eq_ok h
  obtain ⟨-, rfl⟩ := addU64_eq_ok.mp hadd
  cases h
  refine ⟨Nat.lt_of_not_le hfits, ?_⟩
  rw [overwrite, List.set_eq_take_append_cons_drop, if_pos (Nat.lt_of_not_le hfits)]
  simp

theorem Writes.ite {p : Prop} [Decidable p] {m m' : Append Unit} (h : Writes m s) (h' : Writes m' t) :
    Writes (if p then m else m') (if p then s else t) := by
  by_cases hp : p
  · rw [if_pos hp, if_pos hp]
    exact h
  · rw [if_neg hp, if_neg hp]
    exact h'

theorem Writes.index {a : Bytes} {i : Nat} {f : UInt8 → Append Unit} (h : Writes (f (a.getD i 0)) s) :
    Writes (Act.lift (index a i) >>= f) s := by
  intro w w' hrun hn
  obtain ⟨x, hindex, hrun⟩ := Act.lift_bind_run_eq_ok hrun
  have hget : a.getD i 0 = x := by rw [List.getD_eq_getElem?_getD, index_eq_ok.mp hindex, Option.getD_some]
  rw [hget] at h
  exact h w w' hrun hn

theorem writes_jsonByte (c : UInt8) : Writes (appendJsonByte c) (escapeByte c) :=
  .ite (writes_slice _) (.ite (writes_slice _) (.ite (writes_slice _) (.ite (writes_slice _) (.ite (writes_slice _)
    (.ite (writes_slice _) (.ite (writes_slice _) (.ite (.index (.index (writes_slice _))) (writes_byte c))))))))

theorem writes_jsonBytes (s : Bytes) : Writes (appendJsonBytes s) (s.flatMap escapeByte) := by
  induction s with
  | nil => exact .pure
  | cons c rest ih =>
      rw [List.flatMap_cons]
      exact (writes_jsonByte c).bind ih

theorem writes_jsonString (s : Bytes) : Writes (appendJsonString s) (quoted s) :=
  (writes_byte quote).bind ((writes_jsonBytes s).bind (writes_byte quote))

theorem writes_value (v : CanonicalDetailValue) : Writes (appendValue v) v.text := by
  cases v with
  | string s => exact writes_jsonString s
  | boolean b => exact writes_slice _
  | decimal d => exact writes_jsonString d
  | null => exact writes_slice _

theorem writes_entry (e : CanonicalDetailEntry) {m : Append Unit} (h : Writes m t) :
    Writes (do
      appendJsonString e.name
      appendSlice (ascii ":")
      appendValue e.value
      m) (e.text ++ t) := by
  rw [CanonicalDetailEntry.text, List.append_assoc, List.append_assoc]
  exact (writes_jsonString _).bind ((writes_slice _).bind ((writes_value _).bind h))

theorem writes_more (rest : List CanonicalDetailEntry) (i : Nat) :
    Writes (appendEntries (i + 1) rest) (moreText rest) := by
  induction rest generalizing i with
  | nil => exact .pure
  | cons e rest ih =>
      rw [appendEntries, moreText, List.flatMap_cons, List.append_assoc]
      exact (writes_slice _).bind (writes_entry e (ih _))

theorem writes_detail (detail : List CanonicalDetailEntry) : Writes (appendDetail detail) (detailText detail) := by
  cases detail with
  | nil => exact .pure
  | cons e rest =>
      have hentries : Writes (appendEntries 0 (e :: rest)) (e.text ++ moreText rest) :=
        writes_entry e (writes_more rest 0)
      have hrest := hentries.bind (writes_slice (ascii "\x7d"))
      rw [List.append_assoc] at hrest
      exact (writes_slice _).bind hrest

theorem writes_error (err : CanonicalError) : Writes (appendError err) err.text :=
  (writes_slice _).bind ((writes_slice _).bind ((writes_slice _).bind ((writes_slice _).bind ((writes_slice _).bind
    ((writes_slice _).bind ((writes_slice _).bind ((writes_slice _).bind ((writes_detail _).bind (writes_slice _)))))))))

/-! ### What the checks give -/

/-- Bytes that stand for themselves in a string. -/
def Plain (s : Bytes) : Prop := ∀ c ∈ s, isPlain c = true ∧ c < 0x80

def CanonicalDetailValue.Valid : CanonicalDetailValue → Prop
  | .string s => Utf8.Valid s
  | .decimal d => Plain d
  | .boolean _ | .null => True

structure CanonicalDetailEntry.Valid (e : CanonicalDetailEntry) : Prop where
  name : Plain e.name
  value : e.value.Valid

theorem plain_idByte {c : UInt8} (h : isIdByte c = true) : isPlain c = true ∧ c < 0x80 := by
  rw [isPlain_iff]
  simp only [isIdByte, isLetter, isDigit, Bool.or_eq_true, Bool.and_eq_true, decide_eq_true_eq, beq_iff_eq,
    UInt8.le_iff_toNat_le, ← UInt8.toNat_inj, UInt8.reduceToNat] at h
  simp only [quote, backslash, ne_eq, UInt8.le_iff_toNat_le, UInt8.lt_iff_toNat_lt, ← UInt8.toNat_inj, UInt8.reduceToNat]
  omega

theorem isIdByte_of_letter {c : UInt8} (h : isLetter c = true ∨ isDigit c = true ∨ c = 0x5f) : isIdByte c = true := by
  unfold isIdByte
  rcases h with h | h | rfl
  · simp [h]
  · simp [h]
  · decide

theorem plain_of_ids (h : ∀ c ∈ s, isIdByte c = true) : Plain s := fun c hc => plain_idByte (h c hc)
theorem plain_of_all (h : s.all isIdByte = true) : Plain s := plain_of_ids (List.all_eq_true.mp h)

theorem plain_code (code : CanonicalCode) : Plain code.text := by
  refine plain_of_all ?_
  cases code <;> decide

theorem plain_message (h : isJsonSafeAscii s = true) : Plain s := by
  intro c hc
  have hsafe := of_decide_eq_true (List.all_eq_true.mp h c hc)
  rw [not_or, not_or, not_or] at hsafe
  obtain ⟨hlow, hhigh, hquote, hback⟩ := hsafe
  exact ⟨isPlain_iff.mpr ⟨UInt8.not_lt.mp hlow, hquote, hback⟩, UInt8.lt_of_le_of_lt (UInt8.not_lt.mp hhigh) (by decide)⟩

theorem opaqueLoop_bytes {allDigits : Bool} (h : opaqueLoop allDigits s = true) : ∀ c ∈ s, isIdByte c = true := by
  induction s generalizing allDigits with
  | nil => exact fun c hc => by cases hc
  | cons c rest ih =>
      rw [opaqueLoop] at h
      split_ifs at h with hc hdigit
      · exact List.forall_mem_cons.mpr ⟨hc, ih h⟩
      · exact List.forall_mem_cons.mpr ⟨hc, ih h⟩

theorem plain_requestId (h : isOpaqueId s = true) : Plain s := by
  rw [isOpaqueId] at h
  split_ifs at h
  exact plain_of_ids (opaqueLoop_bytes h)

theorem plain_key (h : isDetailKey s = true) : Plain s := by
  cases s with
  | nil => cases h
  | cons c0 rest =>
      rw [isDetailKey] at h
      split_ifs at h with hlength hfirst
      rw [Bool.or_eq_true, beq_iff_eq] at hfirst
      refine plain_of_ids (List.forall_mem_cons.mpr ⟨isIdByte_of_letter (hfirst.imp_right Or.inr), fun c hc => ?_⟩)
      have hc := List.all_eq_true.mp h c hc
      rw [Bool.or_eq_true, Bool.or_eq_true, beq_iff_eq, or_assoc] at hc
      exact isIdByte_of_letter hc

theorem parseDecimalDigits_digits {value value' : Nat} (h : parseDecimalDigits value s = some value') :
    ∀ c ∈ s, isDigit c = true := by
  induction s generalizing value with
  | nil => exact fun c hc => by cases hc
  | cons c rest ih =>
      rw [parseDecimalDigits] at h
      split_ifs at h with hc
      simp only [Option.bind_eq_bind, Option.bind_eq_some_iff] at h
      obtain ⟨_, -, _, -, h⟩ := h
      exact List.forall_mem_cons.mpr ⟨hc, ih h⟩

theorem digits_of_decimal {value : Nat} (h : parseDecimalU64 s = some value) : ∀ c ∈ s, isDigit c = true := by
  rw [parseDecimalU64] at h
  split_ifs at h with hlength hzero hone
  · obtain ⟨c, rfl⟩ := List.length_eq_one_iff.mp (not_not.mp hone)
    rintro c' hc'
    rw [List.mem_singleton.mp hc', Option.some.inj hzero]
    exact zero_digit
  · exact parseDecimalDigits_digits h

theorem plain_decimal (h : isCanonicalDecimalU64 s = true) : Plain s := by
  obtain ⟨value, hrun⟩ := Option.isSome_iff_exists.mp h
  exact plain_of_ids fun c hc => isIdByte_of_letter (Or.inr (Or.inl (digits_of_decimal hrun c hc)))

theorem valid_value {v : CanonicalDetailValue} (h : ¬badValue v = true) : v.Valid := by
  cases v with
  | string s =>
      rw [badValue, Bool.not_eq_true', Bool.not_eq_false, isJsonUtf8Scalar] at h
      split_ifs at h
      exact of_decide_eq_true (p := Utf8.Valid s) h
  | decimal d =>
      rw [badValue, Bool.not_eq_true', Bool.not_eq_false] at h
      exact plain_decimal h
  | _ => trivial

theorem validateEntries_ok {seen rest : List CanonicalDetailEntry} (h : validateEntries seen rest = .ok ()) :
    (∀ e ∈ rest, e.Valid) ∧ ((seen.map (·.name)).Nodup → ((seen ++ rest).map (·.name)).Nodup) := by
  induction rest generalizing seen with
  | nil =>
      rw [List.append_nil]
      exact ⟨fun e he => (by cases he), id⟩
  | cons entry rest ih =>
      rw [validateEntries] at h
      split_ifs at h with hkey hfresh hvalue
      obtain ⟨hrest, hnodup⟩ := ih h
      have hvalid : entry.Valid := ⟨plain_key hkey, valid_value hvalue⟩
      refine ⟨List.forall_mem_cons.mpr ⟨hvalid, hrest⟩, fun hseen => ?_⟩
      rw [List.append_cons]
      refine hnodup ?_
      rw [List.map_append, List.map_singleton, List.nodup_append]
      refine ⟨hseen, List.pairwise_singleton _ _, fun a ha b hb hab => hfresh ?_⟩
      obtain ⟨e, he, rfl⟩ := List.mem_map.mp ha
      rw [List.mem_singleton] at hb
      exact List.any_eq_true.mpr ⟨e, he, beq_iff_eq.mpr (hab.trans hb)⟩

/-- An error that is printed has passed the checks. -/
theorem write_ok {err : CanonicalError} {buf out buf' : Bytes} (h : writeCanonicalError err buf = (.ok out, buf')) :
    Plain err.message ∧ Plain err.requestId ∧ (∀ e ∈ err.detail, e.Valid) ∧ (err.detail.map (·.name)).Nodup ∧
      out = err.text := by
  rw [writeCanonicalError] at h
  by_cases hfields : ¬isJsonSafeAscii err.message = true ∨ ¬isOpaqueId err.requestId = true
  · rw [if_pos hfields] at h
    cases h
  rw [if_neg hfields] at h
  obtain ⟨hmessage, hid⟩ := not_or.mp hfields
  rw [not_not] at hmessage hid
  rcases hrun : printError err { buf, n := 0 } with ⟨o, w⟩
  rw [hrun] at h
  cases h
  obtain ⟨_, hdetail, hrun⟩ := Act.lift_bind_run_eq_ok hrun
  rw [validateCanonicalDetail] at hdetail
  split_ifs at hdetail
  obtain ⟨hvalid, hnodup⟩ := validateEntries_ok hdetail
  obtain ⟨_, w', herror, hrun⟩ := Act.bind_run_eq_ok hrun
  obtain ⟨hn, htext⟩ := writes_error err _ w' herror (Nat.zero_le _)
  obtain ⟨hslice, -⟩ := Prod.mk.inj hrun
  rw [slice_of_le (Nat.zero_le _) hn] at hslice
  refine ⟨plain_message hmessage, plain_requestId hid, hvalid, hnodup List.nodup_nil, ?_⟩
  rw [← Outcome.ok.inj hslice, List.drop_zero, Nat.sub_zero, htext]
  rfl

/-! ### What the text means -/

theorem escapeByte_plain {c : UInt8} (h : isPlain c = true) : escapeByte c = [c] := by
  obtain ⟨hlow, hquote, hback⟩ := isPlain_iff.mp h
  have hne {b : UInt8} (hb : b < 0x20) : c ≠ b := by
    rintro rfl
    exact UInt8.not_le.mpr hb hlow
  rw [escapeByte, if_neg hquote, if_neg hback, if_neg (hne (by decide)), if_neg (hne (by decide)),
    if_neg (hne (by decide)), if_neg (hne (by decide)), if_neg (hne (by decide)), if_neg (UInt8.not_lt.mpr hlow)]

theorem forall_control {p : UInt8 → Prop} (h : ∀ n < 0x20, p (UInt8.ofNat n)) {c : UInt8} (hc : c < 0x20) : p c := by
  have hp := h c.toNat (UInt8.lt_iff_toNat_lt.mp hc)
  rwa [UInt8.ofNat_toNat] at hp

/-- A property of every byte, from the plain ones and the few that are escaped. -/
theorem forall_byte {p : UInt8 → Prop} (hplain : ∀ c, isPlain c = true → p c) (hquote : p quote) (hback : p backslash)
    (hcontrol : ∀ n < 0x20, p (UInt8.ofNat n)) (c : UInt8) : p c := by
  by_cases hc : isPlain c = true
  · exact hplain c hc
  by_cases hlow : 0x20 ≤ c
  · by_cases hcq : c = quote
    · exact hcq ▸ hquote
    by_cases hcb : c = backslash
    · exact hcb ▸ hback
    exact absurd (isPlain_iff.mpr ⟨hlow, hcq, hcb⟩) hc
  · exact forall_control hcontrol (UInt8.not_le.mp hlow)

/-- The escape of a control character names it. -/
theorem control {c : UInt8} (h : c < 0x20) :
    codeUnit 0x30 0x30 (hex.getD (c >>> 4).toNat 0) (hex.getD (c &&& 0x0f).toNat 0) = some c.toNat ∧
      ¬IsHigh c.toNat ∧ ¬IsLow c.toNat ∧ Utf8.encode c.toNat = [c] :=
  forall_control (p := fun c =>
    codeUnit 0x30 0x30 (hex.getD (c >>> 4).toNat 0) (hex.getD (c &&& 0x0f).toNat 0) = some c.toNat ∧
      ¬IsHigh c.toNat ∧ ¬IsLow c.toNat ∧ Utf8.encode c.toNat = [c]) (by decide +kernel) h

def CanonicalDetailValue.json : CanonicalDetailValue → Value
  | .string s => .string s
  | .boolean b => .bool b
  | .decimal d => .string d
  | .null => .null

def CanonicalError.members (err : CanonicalError) : List (Bytes × Value) :=
  [(ascii "code", .string err.code.text), (ascii "message", .string err.message),
    (ascii "request_id", .string err.requestId), (ascii "retryable", .bool err.retryable)] ++
    if err.detail = [] then [] else [(ascii "detail", .object (err.detail.map fun e => (e.name, e.value.json)))]

theorem chars_byte (c : UInt8) (h : Chars t s) : Chars (escapeByte c ++ t) (c :: s) := by
  unfold escapeByte
  split_ifs with hquote hback hn hr ht hb hf hlow
  · exact hquote ▸ .short (e := quote) rfl h
  · exact hback ▸ .short (e := backslash) rfl h
  · exact hn ▸ .short (e := 0x6e) rfl h
  · exact hr ▸ .short (e := 0x72) rfl h
  · exact ht ▸ .short (e := 0x74) rfl h
  · exact hb ▸ .short (e := 0x62) rfl h
  · exact hf ▸ .short (e := 0x66) rfl h
  · obtain ⟨hunit, hhigh, hlow, hencode⟩ := control hlow
    have hmeans := Chars.unit hunit hhigh hlow h
    rw [hencode] at hmeans
    exact hmeans
  · exact .plain (isPlain_iff.mpr ⟨UInt8.not_lt.mp hlow, hquote, hback⟩) h

theorem chars_escape (s : Bytes) : Chars (s.flatMap escapeByte) s := by
  induction s with
  | nil => exact .nil
  | cons c rest ih => exact chars_byte c ih

theorem escape_plain (h : Plain s) : s.flatMap escapeByte = s := by
  induction s with
  | nil => rfl
  | cons c rest ih =>
      obtain ⟨hc, hrest⟩ := List.forall_mem_cons.mp h
      rw [List.flatMap_cons, escapeByte_plain hc.1, ih hrest]
      rfl

theorem chars_plain (h : Plain s) : Chars s s := by
  have hchars := chars_escape s
  rwa [escape_plain h] at hchars

theorem derives_bool (b : Bool) : Derives (if b then ascii "true" else ascii "false") (.value (.bool b)) := by
  cases b with
  | true => exact .true
  | false => exact .false

theorem derives_value (v : CanonicalDetailValue) : Derives v.text (.value v.json) := by
  cases v with
  | string s => exact .string (chars_escape s)
  | boolean b => exact derives_bool b
  | decimal d => exact .string (chars_escape d)
  | null => exact .null

theorem ws_nil : Ws [] := fun b hb => by cases hb

/-- A member without white space, and the members behind it. -/
theorem derives_member {n : Bytes} {v : Value} {t' : Bytes} {ms : List (Bytes × Value)} (hn : Chars n s)
    (h : Derives t (.value v)) (h' : Derives t' (.members ms)) :
    Derives (quote :: (n ++ quote :: colon :: (t ++ comma :: t'))) (.members ((s, v) :: ms)) :=
  .member ws_nil ws_nil ws_nil ws_nil hn h h'

theorem derives_last {n : Bytes} {v : Value} (hn : Chars n s) (h : Derives t (.value v)) :
    Derives (quote :: (n ++ quote :: colon :: t)) (.members [(s, v)]) := by
  have hlast := Derives.lastMember ws_nil ws_nil ws_nil ws_nil hn h
  rwa [List.append_nil] at hlast

theorem entry_append (e : CanonicalDetailEntry) (t : Bytes) :
    e.text ++ t = quote :: (e.name.flatMap escapeByte ++ quote :: colon :: (e.value.text ++ t)) := by
  simp only [CanonicalDetailEntry.text, quoted, List.append_assoc, List.cons_append, List.nil_append]
  rfl

theorem derives_entries (e : CanonicalDetailEntry) (rest : List CanonicalDetailEntry) :
    Derives (e.text ++ moreText rest) (.members ((e :: rest).map fun e => (e.name, e.value.json))) := by
  induction rest generalizing e with
  | nil =>
      rw [entry_append, moreText, List.flatMap_nil, List.append_nil]
      exact derives_last (chars_escape e.name) (derives_value e.value)
  | cons e' rest ih =>
      have hmore : moreText (e' :: rest) = comma :: (e'.text ++ moreText rest) := by
        rw [moreText, List.flatMap_cons, List.append_assoc]
        rfl
      rw [entry_append, hmore]
      exact derives_member (chars_escape e.name) (derives_value e.value) (ih e')

theorem derives_plain (h : Plain s) : Derives (quote :: (s ++ [quote])) (.value (.string s)) := .string (chars_plain h)

/-- The members behind the request id. -/
theorem derives_tail (err : CanonicalError) : ∃ t ms,
    ascii "\",\"retryable\":" ++
        ((if err.retryable then ascii "true" else ascii "false") ++ (detailText err.detail ++ ascii "\x7d")) =
        quote :: comma :: (t ++ [closeBrace]) ∧
      Derives t (.members ms) ∧
      err.members = (ascii "code", .string err.code.text) :: (ascii "message", .string err.message) ::
        (ascii "request_id", .string err.requestId) :: ms := by
  have hname : Chars (ascii "retryable") (ascii "retryable") := chars_plain (plain_of_all (by decide))
  have hflag := derives_bool err.retryable
  unfold CanonicalError.members
  cases err.detail with
  | nil =>
      refine ⟨_, _, ?_, derives_last hname hflag, rfl⟩
      simp only [detailText, List.nil_append, List.cons_append, List.append_assoc]
      rfl
  | cons e rest =>
      have hobject := derives_last (s := ascii "detail") (chars_plain (plain_of_all (by decide)))
        (Derives.object (derives_entries e rest))
      refine ⟨_, _, ?_, derives_member hname hflag hobject, rfl⟩
      simp only [detailText, List.nil_append, List.cons_append, List.append_assoc]
      rfl

theorem derives_error {err : CanonicalError} (hmessage : Plain err.message) (hid : Plain err.requestId) :
    Derives err.text (.value (.object err.members)) := by
  obtain ⟨t, ms, htext, htail, hmembers⟩ := derives_tail err
  have hid := derives_member (s := ascii "request_id") (chars_plain (plain_of_all (by decide))) (derives_plain hid) htail
  have hmessage := derives_member (s := ascii "message") (chars_plain (plain_of_all (by decide)))
    (derives_plain hmessage) hid
  have hcode := derives_member (s := ascii "code") (chars_plain (plain_of_all (by decide)))
    (derives_plain (plain_code err.code)) hmessage
  have hobject := Derives.object hcode
  rw [CanonicalError.text, htext, hmembers]
  simp only [List.nil_append, List.cons_append, List.append_assoc] at hobject
  exact hobject

/-! ### What the text holds -/

theorem Plain.utf8 (h : Plain s) : Utf8.Valid s := Utf8.valid_ascii fun c hc => (h c hc).2

theorem escapeByte_ascii (c : UInt8) (h : c < 0x80) : ∀ b ∈ escapeByte c, b < 0x80 := by
  have hall : c < 0x80 → (escapeByte c).all (· < 0x80) = true := by
    refine forall_byte (p := fun c => c < 0x80 → (escapeByte c).all (· < 0x80) = true) (fun c hc hascii => ?_)
      (by decide) (by decide) (by decide) c
    rw [escapeByte_plain hc, List.all_cons, List.all_nil, Bool.and_true]
    exact decide_eq_true hascii
  exact fun b hb => of_decide_eq_true (List.all_eq_true.mp (hall h) b hb)

theorem escapeByte_other (c : UInt8) (h : ¬c < 0x80) : escapeByte c = [c] := by
  have hlow := UInt8.not_lt.mp h
  refine escapeByte_plain (isPlain_iff.mpr ⟨UInt8.le_trans (by decide) hlow, ?_, ?_⟩)
  · rintro rfl
    exact h (by decide)
  · rintro rfl
    exact h (by decide)

theorem utf8_quoted (h : Utf8.Valid s) : Utf8.Valid (quoted s) :=
  .append (s := [quote]) (by decide) ((h.flatMap escapeByte_ascii escapeByte_other).append (by decide))

theorem utf8_value {v : CanonicalDetailValue} (h : v.Valid) : Utf8.Valid v.text := by
  cases v with
  | string s => exact utf8_quoted h
  | boolean b => cases b <;> decide
  | decimal d => exact utf8_quoted (Plain.utf8 h)
  | null => decide

theorem utf8_entry {e : CanonicalDetailEntry} (h : e.Valid) : Utf8.Valid e.text :=
  (utf8_quoted h.name.utf8).append (.append (by decide) (utf8_value h.value))

theorem utf8_more {rest : List CanonicalDetailEntry} (h : ∀ e ∈ rest, e.Valid) : Utf8.Valid (moreText rest) := by
  induction rest with
  | nil => decide
  | cons e rest ih =>
      rw [List.forall_mem_cons] at h
      rw [moreText, List.flatMap_cons]
      exact .append (.append (by decide) (utf8_entry h.1)) (ih h.2)

theorem utf8_detail {detail : List CanonicalDetailEntry} (h : ∀ e ∈ detail, e.Valid) :
    Utf8.Valid (detailText detail) := by
  cases detail with
  | nil => decide
  | cons e rest =>
      rw [List.forall_mem_cons] at h
      exact .append (by decide) ((utf8_entry h.1).append ((utf8_more h.2).append (by decide)))

theorem utf8_error {err : CanonicalError} (hmessage : Plain err.message) (hid : Plain err.requestId)
    (hdetail : ∀ e ∈ err.detail, e.Valid) : Utf8.Valid err.text := by
  have hflag : Utf8.Valid (if err.retryable then ascii "true" else ascii "false") := by
    cases err.retryable <;> decide
  exact .append (by decide) ((plain_code err.code).utf8.append (.append (by decide) (hmessage.utf8.append
    (.append (by decide) (hid.utf8.append (.append (by decide) (hflag.append ((utf8_detail hdetail).append
      (by decide)))))))))

/-- What stands in front of the inner object of a diagnostic envelope, and in no canonical one: the name of an
object ends with another letter there. The bytes of `r`, the quote, the colon and the brace. -/
def mark : Bytes := [0x72, quote, colon, openBrace]

/-- The text holds no mark where the states are in front of it, and leaves one of the states behind it. -/
abbrev Clear (before : List Nat) (text : Bytes) (behind : List Nat) : Prop :=
  Scan.Passes (Scan.seek mark) (· ∈ before) text (· ∈ behind)

/-- A letter that is no quote finds at most the first letter of the mark. -/
theorem clear_byte {c : UInt8} (h : c ≠ quote) : Clear [0, 1] [c] [0, 1] := by
  by_cases hc : c = 0x72
  · rw [hc]
    decide
  have hfirst : mark[0]? ≠ some c := fun heq => hc (Option.some.inj heq).symm
  have hsecond : mark[1]? ≠ some c := fun heq => h (Option.some.inj heq).symm
  intro q hq
  refine ⟨0, ?_, List.mem_cons_self⟩
  rw [List.mem_cons, List.mem_singleton] at hq
  rcases hq with rfl | rfl
  · rw [List.foldlM_cons, Scan.seek, if_neg hfirst, if_neg hfirst]
    rfl
  · rw [List.foldlM_cons, Scan.seek, if_neg hsecond, if_neg hfirst]
    rfl

theorem clear_plain (h : Plain s) : Clear [0, 1] s [0, 1] :=
  .each fun c hc => clear_byte (isPlain_iff.mp (h c hc).1).2.1

/-- An escaped quote stands behind a backslash. -/
theorem clear_escapeByte (c : UInt8) : Clear [0, 1] (escapeByte c) [0, 1] := by
  refine forall_byte (p := fun c => Clear [0, 1] (escapeByte c) [0, 1]) (fun c hc => ?_)
    (by decide) (by decide) (by decide) c
  rw [escapeByte_plain hc]
  exact clear_byte (isPlain_iff.mp hc).2.1

theorem clear_escape (s : Bytes) : Clear [0, 1] (s.flatMap escapeByte) [0, 1] := by
  induction s with
  | nil => exact .nil
  | cons c rest ih => exact (clear_escapeByte c).append ih

/-- Where no name ends, the letter in front of a quote is not that of the mark. -/
theorem clear_quoted (s : Bytes) : Clear [0, 3] (quoted s) [0, 2] :=
  Scan.Passes.append (s := [quote]) (Q := (· ∈ [0, 1])) (by decide)
    ((clear_escape s).append (by decide))

theorem clear_value (v : CanonicalDetailValue) : Clear [0, 3] v.text [0, 2] := by
  cases v with
  | string s => exact clear_quoted s
  | boolean b => cases b <;> decide
  | decimal d => exact clear_quoted d
  | null => decide

theorem clear_entry (e : CanonicalDetailEntry) : Clear [0] e.text [0, 2] := by
  have hname : Clear [0] (quoted e.name) [0, 2] :=
    (clear_quoted e.name).mono fun q hq => List.mem_cons.mpr (Or.inl (List.mem_singleton.mp hq))
  exact hname.append (.append (Q := (· ∈ [0, 3])) (by decide) (clear_value e.value))

theorem clear_more (rest : List CanonicalDetailEntry) : Clear [0, 2] (moreText rest) [0, 2] := by
  induction rest with
  | nil => exact .nil
  | cons e rest ih =>
      rw [moreText, List.flatMap_cons]
      exact .append (.append (Q := (· ∈ [0])) (by decide) (clear_entry e)) ih

theorem clear_detail (detail : List CanonicalDetailEntry) : Clear [0] (detailText detail) [0] := by
  cases detail with
  | nil => exact .nil
  | cons e rest =>
      exact .append (Q := (· ∈ [0])) (by decide) ((clear_entry e).append
        ((clear_more rest).append (by decide)))

theorem clear_error {err : CanonicalError} (hmessage : Plain err.message) (hid : Plain err.requestId) :
    Clear [0] err.text [0] := by
  have hflag : Clear [0] (if err.retryable then ascii "true" else ascii "false") [0] := by
    cases err.retryable <;> decide
  have hfirst : Clear [0] (ascii "\x7b\"code\":\"") [0, 1] := by decide
  have hsecond : Clear [0, 1] (ascii "\",\"message\":\"") [0, 1] := by decide
  have hthird : Clear [0, 1] (ascii "\",\"request_id\":\"") [0, 1] := by decide
  have hfourth : Clear [0, 1] (ascii "\",\"retryable\":") [0] := by decide
  have hlast : Clear [0] (ascii "\x7d") [0] := by decide
  exact hfirst.append ((clear_plain (plain_code err.code)).append (hsecond.append ((clear_plain hmessage).append
    (hthird.append ((clear_plain hid).append (hfourth.append (hflag.append ((clear_detail err.detail).append hlast))))))))

theorem not_mark {err : CanonicalError} (hmessage : Plain err.message) (hid : Plain err.requestId) :
    ¬mark <:+: err.text := by
  obtain ⟨q, hrun, _⟩ := clear_error hmessage hid 0 (List.mem_singleton.mpr rfl)
  exact Scan.not_infix_of_seek (by decide) hrun

theorem not_diagnostic {err : CanonicalError} (hmessage : Plain err.message) (hid : Plain err.requestId) :
    isDiagnosticEnvelope err.text = false := by
  rw [isDiagnosticEnvelope, holds, decide_eq_false_iff_not]
  intro hdiagnostic
  have hmark : mark <:+: ascii "\x7b\"error\":\x7b\"code\":" := ⟨ascii "\x7b\"erro", ascii "\"code\":", rfl⟩
  exact not_mark hmessage hid (hmark.trans hdiagnostic)

theorem canonical_error {err : CanonicalError} (hmessage : Plain err.message) (hid : Plain err.requestId) :
    isCanonicalEnvelope err.text = true := by
  have hbehind (part t t' : Bytes) (h : part <:+: t') : part <:+: t ++ t' := h.trans (List.suffix_append _ _).isInfix
  have hrequestId : ascii "\"request_id\"" <:+: err.text := by
    have hpart : ascii "\"request_id\"" <:+: ascii "\",\"request_id\":\"" := ⟨ascii "\",", ascii ":\"", rfl⟩
    unfold CanonicalError.text
    exact hbehind _ _ _ (hbehind _ _ _ (hbehind _ _ _ (hbehind _ _ _ (hpart.trans (List.prefix_append _ _).isInfix))))
  have hretryable : ascii "\"retryable\"" <:+: err.text := by
    have hpart : ascii "\"retryable\"" <:+: ascii "\",\"retryable\":" := ⟨ascii "\",", ascii ":", rfl⟩
    unfold CanonicalError.text
    exact hbehind _ _ _ (hbehind _ _ _ (hbehind _ _ _ (hbehind _ _ _ (hbehind _ _ _ (hbehind _ _ _
      (hpart.trans (List.prefix_append _ _).isInfix))))))
  rw [isCanonicalEnvelope, not_diagnostic hmessage hid, holds, holds, decide_eq_true hrequestId,
    decide_eq_true hretryable]
  rfl

/-- Canonical errors are injection-safe: the bytes are a document that means an object of the fields as they
were given, and the envelope searches tell it for what it is. -/
theorem canonical_error_exact (err : CanonicalError) (buf out : Bytes) (h : (writeCanonicalError err buf).1 = .ok out) :
    Document out (.object err.members) ∧ parse out = some (.object err.members) ∧ (err.members.map Prod.fst).Nodup ∧
      (err.detail.map (·.name)).Nodup ∧ isCanonicalEnvelope out = true ∧ isDiagnosticEnvelope out = false := by
  obtain ⟨hmessage, hid, hdetail, hnames, rfl⟩ := write_ok (Prod.ext h rfl)
  have hderives := derives_error hmessage hid
  have hdocument : Document err.text (.object err.members) := by
    refine ⟨utf8_error hmessage hid hdetail, [], err.text, [], ?_, ws_nil, ws_nil, hderives⟩
    rw [List.nil_append, List.append_nil]
  refine ⟨hdocument, parse_eq_some.mpr hdocument, ?_, hnames, canonical_error hmessage hid, not_diagnostic hmessage hid⟩
  have hfive : [ascii "code", ascii "message", ascii "request_id", ascii "retryable", ascii "detail"].Nodup := by
    repeat rw [ascii_ofList]
    decide +kernel
  unfold CanonicalError.members
  cases err.detail with
  | nil => exact hfive.sublist (List.sublist_append_left _ [ascii "detail"])
  | cons e rest => exact hfive

/-- An error whose detail tries to close the string and to forge a code. -/
def injected : CanonicalError where
  code := .invalidRequest
  message := ascii "invalid field"
  requestId := ascii "req_detail1"
  retryable := false
  detail := [⟨ascii "field", .string (ascii "\"\x7d,\"code\":\"forged")⟩]

theorem canonical_error_exact_injected :
    (writeCanonicalError injected (List.replicate 144 0)).1 = .ok injected.text ∧
      parse injected.text = some (.object injected.members) ∧ isDiagnosticEnvelope injected.text = false := by
  have hrun : (writeCanonicalError injected (List.replicate 144 0)).1 = .ok injected.text := by decide +kernel
  have hexact := canonical_error_exact injected (List.replicate 144 0) injected.text hrun
  exact ⟨hrun, hexact.2.1, hexact.2.2.2.2.2⟩

end Contract

end Supervisor
