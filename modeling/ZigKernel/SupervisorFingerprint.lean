import ZigKernel.LangSlice
import ZigKernel.LibDelimited
import ZigKernel.LibJson
import ZigKernel.LibSha256
import ZigKernel.SupervisorSession

/-! `supervisor/contract.zig`: the fingerprint of a mutation. The fields of a request go into one hash, each with a
line break behind it, and the hash of the body in hexadecimal goes last. -/

namespace Supervisor

open Zig Json Delimited

namespace Contract

structure FingerprintInput where
  principal : Bytes
  method : Bytes
  canonicalRoute : Bytes
  canonicalQuery : Bytes
  expectedGeneration : Bytes
  contentType : Bytes
  body : Bytes
  deriving DecidableEq

def lineFeed : UInt8 := 10

def hexDigits : Bytes := ascii "0123456789abcdef"

/-- The loop of `hexLower` from index `i` on. -/
def hexLoop {ε : Type} (out : Bytes) (i : Nat) : Bytes → Outcome ε Bytes
  | [] => .ok out
  | b :: bs => do
    let out ← memcpy out (i * 2) (i * 2 + 1) [← index hexDigits (b >>> 4).toNat]
    let out ← memcpy out (i * 2 + 1) (i * 2 + 2) [← index hexDigits (b &&& 0x0f).toNat]
    hexLoop out (i + 1) bs

/-- The digits, a slice of `out`. -/
def hexLower {ε : Type} (out bytes : Bytes) : Outcome ε Bytes := do
  let out ← hexLoop out 0 bytes
  slice out 0 (bytes.length * 2)

/-- Successive calls of `update` hash what they are given one after the other. -/
def mutationFingerprint {ε : Type} (input : FingerprintInput) : Outcome ε Bytes := do
  let bodyHash := Sha256.hash input.body
  let bodyHex ← hexLower (List.replicate 64 0xaa) bodyHash
  .ok (Sha256.hash (input.principal ++ [lineFeed] ++ input.method ++ [lineFeed] ++ input.canonicalRoute ++ [lineFeed] ++
    input.canonicalQuery ++ [lineFeed] ++ input.expectedGeneration ++ [lineFeed] ++ input.contentType ++ [lineFeed] ++
    bodyHex))

def sameFingerprintConflict (a b : Bytes) : Bool := !decide (a = b)

/-! ### The stream that is hashed -/

/-- Digit `i`. -/
def hexDigit (i : Nat) : UInt8 := hexDigits.getD i 0

def hexByte (b : UInt8) : Bytes := [hexDigit (b >>> 4).toNat, hexDigit (b &&& 0x0f).toNat]

def hexText (bytes : Bytes) : Bytes := bytes.flatMap hexByte

theorem toNat_high (b : UInt8) : (b >>> 4).toNat = b.toNat / 16 := by
  rw [UInt8.toNat_shiftRight, Nat.shiftRight_eq_div_pow]
  rfl

theorem toNat_low (b : UInt8) : (b &&& 0x0f).toNat = b.toNat % 16 := by
  rw [UInt8.toNat_and]
  exact Nat.and_two_pow_sub_one_eq_mod b.toNat 4

theorem high_lt (b : UInt8) : (b >>> 4).toNat < 16 := by
  have hbyte := b.toNat_lt
  rw [toNat_high]
  omega

theorem low_lt (b : UInt8) : (b &&& 0x0f).toNat < 16 := by
  rw [toNat_low]
  omega

theorem index_hexDigits {ε : Type} {i : Nat} (h : i < 16) : (index hexDigits i : Outcome ε UInt8) = .ok (hexDigit i) := by
  have hlength : hexDigits.length = 16 := by decide
  rw [index_eq_ok, hexDigit, List.getD_eq_getElem?_getD, List.getElem?_eq_getElem (hlength ▸ h), Option.getD_some]

theorem hexDigit_ne_lineFeed {i : Nat} (h : i < 16) : hexDigit i ≠ lineFeed := by
  have hall : ∀ i : Fin 16, hexDigit i ≠ lineFeed := by decide
  exact hall ⟨i, h⟩

theorem hexDigit_inj {i j : Nat} (hi : i < 16) (hj : j < 16) (h : hexDigit i = hexDigit j) : i = j := by
  have hall : ∀ i j : Fin 16, hexDigit i = hexDigit j → i = j := by decide
  exact congrArg Fin.val (hall ⟨i, hi⟩ ⟨j, hj⟩ h)

theorem hexByte_inj {b c : UInt8} (h : hexByte b = hexByte c) : b = c := by
  obtain ⟨hhigh, hlow⟩ := List.cons.inj h
  have hhigh := hexDigit_inj (high_lt b) (high_lt c) hhigh
  have hlow := hexDigit_inj (low_lt b) (low_lt c) (List.cons.inj hlow).1
  rw [toNat_high, toNat_high] at hhigh
  rw [toNat_low, toNat_low] at hlow
  apply UInt8.toNat.inj
  omega

theorem hexText_cons (b : UInt8) (bs : Bytes) : hexText (b :: bs) = hexByte b ++ hexText bs := List.flatMap_cons

theorem length_hexText (bytes : Bytes) : (hexText bytes).length = bytes.length * 2 := by
  induction bytes with
  | nil => rfl
  | cons b bs ih =>
      rw [hexText_cons, List.length_append, ih, List.length_cons]
      simp only [hexByte, List.length_cons, List.length_nil]
      omega

theorem hexText_inj {bs cs : Bytes} (h : hexText bs = hexText cs) : bs = cs := by
  induction bs generalizing cs with
  | nil =>
      have hlength := congrArg List.length h
      rw [length_hexText, length_hexText, List.length_nil] at hlength
      exact (List.length_eq_zero_iff.mp (by omega)).symm
  | cons b bs ih =>
      cases cs with
      | nil => cases h
      | cons c cs =>
          rw [hexText_cons, hexText_cons] at h
          obtain ⟨hbyte, hrest⟩ := List.append_inj h rfl
          rw [hexByte_inj hbyte, ih hrest]

theorem lineFeed_notMem_hexText (bytes : Bytes) : lineFeed ∉ hexText bytes := by
  intro hmem
  obtain ⟨b, -, hb⟩ := List.mem_flatMap.mp hmem
  rw [hexByte, List.mem_cons, List.mem_singleton] at hb
  rcases hb with hb | hb
  · exact hexDigit_ne_lineFeed (high_lt b) hb.symm
  · exact hexDigit_ne_lineFeed (low_lt b) hb.symm

theorem hexLoop_ok {ε : Type} {pre out bytes : Bytes} {i : Nat} (hpre : pre.length = i * 2)
    (hroom : (i + bytes.length) * 2 ≤ out.length) :
    (hexLoop (pre ++ out.drop (i * 2)) i bytes : Outcome ε Bytes) =
      .ok (pre ++ hexText bytes ++ out.drop ((i + bytes.length) * 2)) := by
  induction bytes generalizing pre i with
  | nil => rw [hexLoop, hexText, List.flatMap_nil, List.append_nil, List.length_nil, Nat.add_zero]
  | cons b bs ih =>
      rw [List.length_cons] at hroom
      have hhigh : (memcpy (pre ++ out.drop (i * 2)) (i * 2) (i * 2 + 1) [hexDigit (b >>> 4).toNat] :
          Outcome ε Bytes) = .ok (pre ++ [hexDigit (b >>> 4).toNat] ++ out.drop (i * 2 + 1)) :=
        memcpy_front hpre.symm rfl (by omega)
      have hlow : (memcpy (pre ++ [hexDigit (b >>> 4).toNat] ++ out.drop (i * 2 + 1)) (i * 2 + 1) (i * 2 + 2)
          [hexDigit (b &&& 0x0f).toNat] : Outcome ε Bytes) =
            .ok (pre ++ [hexDigit (b >>> 4).toNat] ++ [hexDigit (b &&& 0x0f).toNat] ++ out.drop (i * 2 + 2)) :=
        memcpy_front (by rw [List.length_append, hpre]; rfl) rfl (by omega)
      rw [hexLoop, index_hexDigits (high_lt b), Outcome.ok_bind, hhigh, Outcome.ok_bind, index_hexDigits (low_lt b),
        Outcome.ok_bind, hlow, Outcome.ok_bind, show i * 2 + 2 = (i + 1) * 2 by omega, ih]
      · rw [hexText_cons, hexByte, List.length_cons, Nat.add_assoc, Nat.add_comm 1]
        simp only [List.append_assoc, List.cons_append, List.nil_append]
      · rw [List.length_append, List.length_append, hpre]
        simp only [List.length_singleton]
        omega
      · omega

theorem hexLower_ok {ε : Type} {out bytes : Bytes} (hroom : bytes.length * 2 ≤ out.length) :
    (hexLower out bytes : Outcome ε Bytes) = .ok (hexText bytes) := by
  have hloop : (hexLoop out 0 bytes : Outcome ε Bytes) = .ok (hexText bytes ++ out.drop (bytes.length * 2)) := by
    have h : (hexLoop ([] ++ out.drop (0 * 2)) 0 bytes : Outcome ε Bytes) = _ :=
      hexLoop_ok rfl (by rw [Nat.zero_add]; exact hroom)
    rwa [Nat.zero_add] at h
  rw [hexLower, hloop, Outcome.ok_bind]
  exact slice_eq_ok.mpr ⟨by rw [length_hexText, Nat.zero_add], [], _, rfl, rfl⟩

namespace FingerprintInput

variable {a b : FingerprintInput}

/-- The fields before the body. -/
def fields (a : FingerprintInput) : List Bytes :=
  [a.principal, a.method, a.canonicalRoute, a.canonicalQuery, a.expectedGeneration, a.contentType]

/-- What the outer hash is given. -/
def stream (a : FingerprintInput) : Bytes := terminated lineFeed a.fields ++ hexText (Sha256.hash a.body)

theorem length_fields (a : FingerprintInput) : a.fields.length = 6 := rfl

theorem exists_of_fields {fs : List Bytes} (body : Bytes) (h : fs.length = 6) :
    ∃ b : FingerprintInput, b.fields = fs ∧ b.body = body := by
  refine ⟨⟨fs.getD 0 [], fs.getD 1 [], fs.getD 2 [], fs.getD 3 [], fs.getD 4 [], fs.getD 5 [], body⟩, ?_, rfl⟩
  apply List.ext_getElem ((length_fields _).trans h.symm)
  intro i hi hi'
  have hlt : i < 6 := hi
  have hcases : i = 0 ∨ i = 1 ∨ i = 2 ∨ i = 3 ∨ i = 4 ∨ i = 5 := by omega
  rcases hcases with rfl | rfl | rfl | rfl | rfl | rfl <;> simp [fields, hi']

theorem fields_inj (hfields : a.fields = b.fields) (hbody : a.body = b.body) : a = b := by
  cases a with
  | mk p m r q g c body =>
      cases b with
      | mk p' m' r' q' g' c' body' =>
          simp only [fields, List.cons.injEq, and_true] at hfields
          obtain ⟨rfl, rfl, rfl, rfl, rfl, rfl⟩ := hfields
          cases hbody
          rfl

theorem mutationFingerprint_eq {ε : Type} (a : FingerprintInput) :
    (mutationFingerprint a : Outcome ε Bytes) = .ok (Sha256.hash a.stream) := by
  simp only [mutationFingerprint]
  rw [hexLower_ok (by rw [Sha256.length_hash]; decide), Outcome.ok_bind, stream, fields]
  simp only [terminated, List.flatMap_cons, List.flatMap_nil, List.append_assoc, List.append_nil]

/-- The hash tells apart what it is given for two requests. -/
structure NoCollision (a b : FingerprintInput) : Prop where
  body (h : Sha256.hash a.body = Sha256.hash b.body) : a.body = b.body
  stream (h : Sha256.hash a.stream = Sha256.hash b.stream) : a.stream = b.stream

/-- The fingerprints of two requests are in conflict. -/
def Conflict (a b : FingerprintInput) : Prop :=
  ∃ x y : Bytes, (mutationFingerprint a : Outcome Empty Bytes) = .ok x ∧
    (mutationFingerprint b : Outcome Empty Bytes) = .ok y ∧ sameFingerprintConflict x y = true

theorem conflict_iff : Conflict a b ↔ Sha256.hash a.stream ≠ Sha256.hash b.stream := by
  simp [Conflict, mutationFingerprint_eq, sameFingerprintConflict]

end FingerprintInput

open FingerprintInput

/-- A request is told from every other request exactly if no field before its body has a line break in it. -/
theorem fingerprint_separates_iff (a : FingerprintInput) :
    (∀ b, NoCollision a b → a ≠ b → a.stream ≠ b.stream ∧ Conflict a b) ↔ ∀ f ∈ a.fields, lineFeed ∉ f := by
  constructor
  · intro hseparates
    by_contra hfields
    obtain ⟨gs, hlength, hne, heq⟩ := exists_terminated_eq (length_fields a ▸ by decide) hfields
    obtain ⟨b, rfl, hbody⟩ := exists_of_fields a.body (hlength.trans (length_fields a))
    have hstream : a.stream = b.stream := by rw [stream, stream, hbody, heq]
    have hcollision : NoCollision a b := ⟨fun _ => hbody.symm, fun _ => hstream⟩
    exact (hseparates b hcollision fun h => hne (h ▸ rfl)).1 hstream
  · intro hfields b hcollision hne
    have hstream : a.stream ≠ b.stream := by
      intro h
      have hlength : a.fields.length = b.fields.length := (length_fields a).trans (length_fields b).symm
      obtain ⟨hsame, hhex⟩ := terminated_inj hlength hfields (lineFeed_notMem_hexText _) h
      exact hne (fields_inj hsame (hcollision.body (hexText_inj hhex)))
    exact ⟨hstream, conflict_iff.mpr fun h => hstream (hcollision.stream h)⟩

/-- A line break moves from the route to the query. -/
theorem fingerprint_shift :
    let a : FingerprintInput := ⟨ascii "a", ascii "POST", ascii "/v1/sandboxes\nx", [], [], ascii "application/json", []⟩
    let b : FingerprintInput := ⟨ascii "a", ascii "POST", ascii "/v1/sandboxes", ascii "x\n", [], ascii "application/json", []⟩
    NoCollision a b ∧ a ≠ b ∧ a.stream = b.stream ∧ ¬ Conflict a b := by
  intro a b
  have hfields : terminated lineFeed a.fields = terminated lineFeed b.fields := by decide
  have hstream : a.stream = b.stream := congrArg (· ++ hexText (Sha256.hash [])) hfields
  refine ⟨⟨fun _ => rfl, fun _ => hstream⟩, by decide, hstream, fun hconflict => ?_⟩
  exact conflict_iff.mp hconflict (congrArg Sha256.hash hstream)

end Contract

end Supervisor
