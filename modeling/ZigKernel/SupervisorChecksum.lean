import ZigKernel.LibCrc
import ZigKernel.SupervisorFrame

/-! The checksum of a frame. `crc32` is the check of the generator behind the reflected polynomial `0xEDB88320`, the
four bytes behind the payload are its bits in the order in which they are sent, and so no burst of errors that is as
long as the checksum or shorter goes unnoticed. -/

namespace Supervisor

open Zig LittleEndian Polynomial

namespace Frame

/-- The reflected polynomial. -/
def polynomial : BitVec 32 := 0xEDB88320

/-- The initial value of the register, and the mask that complements the final one. -/
def allOnes : BitVec 32 := 0xFFFFFFFF

/-- The bits of a list of bytes in the order in which they are sent. -/
def transmitted (bytes : List UInt8) : List Bool := Crc.bits (bytes.map UInt8.toBitVec)

/-! ### The loop -/

theorem and_one_ne_zero_iff (crc : UInt32) : crc &&& 1 ≠ 0 ↔ crc.toBitVec.getLsbD 0 = true := by
  have hlow : (crc &&& 1).toNat = crc.toNat % 2 := Nat.and_one_is_mod crc.toNat
  have hbit : crc.toBitVec.getLsbD 0 = decide (crc.toNat % 2 = 1) := Nat.testBit_zero crc.toNat
  rw [ne_eq, ← UInt32.toNat_inj, hlow, hbit, decide_eq_true_iff]
  exact Nat.mod_two_ne_zero

theorem toBitVec_crcBit (crc : UInt32) : (crcBit crc).toBitVec = Crc.step polynomial crc.toBitVec := by
  by_cases hbit : crc &&& 1 ≠ 0
  · rw [crcBit, if_pos hbit, Crc.step, if_pos ((and_one_ne_zero_iff crc).mp hbit)]
    rfl
  · rw [crcBit, if_neg hbit, Crc.step, if_neg fun h => hbit ((and_one_ne_zero_iff crc).mpr h)]
    rfl

theorem toBitVec_crcByte (crc : UInt32) (b : UInt8) :
    (crcBit^[8] (crc ^^^ b.toUInt32)).toBitVec = Crc.feed polynomial crc.toBitVec b.toBitVec := by
  have hiterate : ∀ (m : Nat) (crc : UInt32), (crcBit^[m] crc).toBitVec = (Crc.step polynomial)^[m] crc.toBitVec := by
    intro m
    induction m with
    | zero => exact fun crc => rfl
    | succ m ih =>
        intro crc
        rw [Function.iterate_succ_apply', Function.iterate_succ_apply', toBitVec_crcBit, ih]
  rw [hiterate, Crc.feed, UInt32.toBitVec_xor, UInt8.toBitVec_toUInt32]

theorem toBitVec_crc32 (data : List UInt8) :
    (crc32 data).toBitVec = Crc.crc polynomial allOnes allOnes (data.map UInt8.toBitVec) := by
  have hfold : ∀ crc : UInt32, (data.foldl (fun crc b => crcBit^[8] (crc ^^^ b.toUInt32)) crc).toBitVec =
      (data.map UInt8.toBitVec).foldl (Crc.feed polynomial) crc.toBitVec := by
    induction data with
    | nil => exact fun crc => rfl
    | cons b data ih =>
        intro crc
        rw [List.foldl_cons, ih, toBitVec_crcByte, List.map_cons, List.foldl_cons]
  rw [crc32, UInt32.toBitVec_xor, hfold, Crc.crc]
  rfl

/-- `crc32` is the remainder of the message, moved up by 32 and with the first 32 bits complemented, and the
complement of that. -/
theorem crc32_division (data : List UInt8) : Crc.reg (crc32 data).toBitVec =
    (Crc.reg allOnes * X ^ (8 * data.length) + Crc.ofBits (transmitted data) * X ^ 32) %ₘ Crc.generator polynomial +
      Crc.reg allOnes := by
  rw [toBitVec_crc32, Crc.reg_crc polynomial (by decide), List.length_map, transmitted]

/-! ### The checksum on the wire -/

theorem transmitted_append (bytes bytes' : List UInt8) :
    transmitted (bytes ++ bytes') = transmitted bytes ++ transmitted bytes' := by
  simp [transmitted, Crc.bits]

theorem length_transmitted (bytes : List UInt8) : (transmitted bytes).length = 8 * bytes.length := by
  rw [transmitted, Crc.length_bits, List.length_map]

theorem transmitted_injective {bytes bytes' : List UInt8} (hlength : bytes.length = bytes'.length)
    (h : transmitted bytes = transmitted bytes') : bytes = bytes' := by
  have hmap := Crc.bits_injective (by simp [hlength]) h
  exact List.map_injective_iff.mpr (fun _ _ => UInt8.toBitVec_inj.mp) hmap

/-- Little-endian bytes are sent in the order of their bits. -/
theorem transmitted_toBytes (n v : Nat) : transmitted (toBytes n v) = (List.range (8 * n)).map v.testBit := by
  induction n generalizing v with
  | zero => rfl
  | succ n ih =>
      have hcons : transmitted (toBytes (n + 1) v) =
          Crc.lsbs (UInt8.ofNat v).toBitVec ++ transmitted (toBytes n (v / 256)) := rfl
      have hbyte : Crc.lsbs (UInt8.ofNat v).toBitVec = (List.range 8).map v.testBit := by
        apply List.map_congr_left
        intro i hi
        show (BitVec.ofNat 8 v).getLsbD i = v.testBit i
        rw [BitVec.getLsbD_ofNat, decide_eq_true (List.mem_range.mp hi), Bool.true_and]
      have hhigh : (v / 256).testBit = fun i => v.testBit (8 + i) := by
        funext i
        rw [show 256 = 2 ^ 8 from rfl, Nat.testBit_div_two_pow, Nat.add_comm]
      rw [hcons, hbyte, ih, hhigh, Nat.mul_succ, Nat.add_comm, List.range_add, List.map_append, List.map_map]
      rfl

/-- A payload with its checksum, as it is sent. -/
theorem transmitted_checked (payload : List UInt8) : transmitted (payload ++ toBytes 4 (crc32 payload).toNat) =
    Crc.bits (payload.map UInt8.toBitVec) ++ Crc.lsbs (Crc.crc polynomial allOnes allOnes (payload.map UInt8.toBitVec)) := by
  rw [transmitted_append, transmitted_toBytes, ← toBitVec_crc32]
  rfl

theorem polynomial_constant : (Crc.reg polynomial).coeff 0 ≠ 0 := by
  have hbits : Crc.lsbs polynomial = (Crc.lsbs polynomial).dropLast ++ [true] := by decide
  rw [Crc.reg, hbits, Crc.coeff_zero_ofBits]
  decide

/-! ### Bursts -/

variable {ty : MsgType} {payload out out' changed : List UInt8} {n : Nat}

/-- Two payloads of one length with their checksums do not differ in a burst. -/
theorem checked_ne_of_burst {payload' : List UInt8} (hlength : payload.length = payload'.length)
    (hne : payload ++ toBytes 4 (crc32 payload).toNat ≠ payload' ++ toBytes 4 (crc32 payload').toNat) :
    ¬Crc.Burst 32 (transmitted (payload ++ toBytes 4 (crc32 payload).toNat))
      (transmitted (payload' ++ toBytes 4 (crc32 payload').toNat)) := by
  intro hburst
  have hsame : (payload ++ toBytes 4 (crc32 payload).toNat).length = (payload' ++ toBytes 4 (crc32 payload').toNat).length := by
    simp [hlength]
  apply hburst.modByMonic_ne polynomial_constant (by decide) (by rw [length_transmitted, length_transmitted, hsame])
    fun h => hne (transmitted_injective hsame h)
  rw [transmitted_checked, transmitted_checked, Crc.codeword_modByMonic polynomial (by decide),
    Crc.codeword_modByMonic polynomial (by decide), List.length_map, List.length_map, hlength]

/-- What `encode` writes behind the header. -/
theorem encode_fields (hencode : encode ty payload out = .ok (n, out')) : payload.length ≤ maxPayload ∧
    n = 13 + payload.length ∧ ∃ rest, out' = toBytes 4 magic ++ [ty.code] ++ toBytes 4 payload.length ++
      (payload ++ toBytes 4 (crc32 payload).toNat ++ rest) := by
  by_cases hmax : payload.length ≤ maxPayload
  swap
  · rw [encode, if_pos (Nat.lt_of_not_le hmax)] at hencode
    cases hencode
  by_cases hroom : (wire ty payload).length ≤ out.length
  swap
  · rw [length_wire] at hroom
    rw [encode, if_neg (Nat.not_lt_of_le hmax)] at hencode
    simp only [if_pos (show out.length < 4 + 1 + 4 + payload.length + 4 by omega)] at hencode
    cases hencode
  rw [encode_ok hmax hroom] at hencode
  cases hencode
  exact ⟨hmax, length_wire, _, wire_append _⟩

/-- Every change of the payload and the checksum of a frame whose changed bits lie within 32 consecutive ones is a bad
checksum to the decoder, and the checksum is a remainder. -/
theorem burst_detected (hencode : encode ty payload out = .ok (n, out'))
    (hlength : changed.length = n - 9) (hne : changed ≠ (out'.take n).drop 9)
    (hburst : Crc.Burst 32 (transmitted ((out'.take n).drop 9)) (transmitted changed)) (rest : List UInt8) :
    decode (out'.take 9 ++ changed ++ rest) = .error .badCrc ∧
      ∀ data, Crc.reg (crc32 data).toBitVec =
        (Crc.reg allOnes * X ^ (8 * data.length) + Crc.ofBits (transmitted data) * X ^ 32) %ₘ Crc.generator polynomial +
          Crc.reg allOnes := by
  refine ⟨?_, crc32_division⟩
  obtain ⟨hmax, rfl, rest', rfl⟩ := encode_fields hencode
  set header := toBytes 4 magic ++ [ty.code] ++ toBytes 4 payload.length with hheader
  set checked := payload ++ toBytes 4 (crc32 payload).toNat with hchecked
  have hheaderLength : header.length = 9 := by simp [hheader]
  have hcheckedLength : checked.length = payload.length + 4 := by simp [hchecked]
  have hfront : (header ++ (checked ++ rest')).take 9 = header := List.take_left' hheaderLength
  have hback : ((header ++ (checked ++ rest')).take (13 + payload.length)).drop 9 = checked := by
    rw [← List.append_assoc, List.take_left' (by rw [List.length_append, hheaderLength, hcheckedLength]; omega),
      List.drop_left' hheaderLength]
  rw [hback] at hne hburst
  have hlength' : changed.length = payload.length + 4 := by omega
  -- a changed frame that passes is a payload with its checksum
  have hcrc : (crc32 ((changed ++ rest).take payload.length)).toNat ≠
      ofBytes (((changed ++ rest).drop payload.length).take 4) := by
    rw [List.take_append_of_le_length (by omega), List.drop_append_of_le_length (by omega),
      List.take_left' (by rw [List.length_drop]; omega)]
    intro heq
    have hsum : toBytes 4 (crc32 (changed.take payload.length)).toNat = changed.drop payload.length := by
      rw [heq, toBytes_ofBytes (by rw [List.length_drop]; omega)]
    have hchanged : changed.take payload.length ++ toBytes 4 (crc32 (changed.take payload.length)).toNat = changed := by
      rw [hsum, List.take_append_drop]
    rw [← hchanged] at hne hburst
    exact checked_ne_of_burst (by rw [List.length_take_of_le (by omega)]) hne.symm hburst
  rw [hfront, List.append_assoc, hheader, decode_fields (length_toBytes 4 _) (length_toBytes 4 _) (by simp; omega),
    ofBytes_four (Nat.lt_of_le_of_lt hmax maxPayload_lt), if_neg (by rw [ofBytes_four (by decide)]; simp),
    if_neg (Nat.not_lt_of_le hmax), if_neg (by simp; omega), if_pos hcrc]

/-- A burst over the last byte of a payload and the first three bytes of its checksum. -/
theorem burst_detected_hi :
    decode ([66, 83, 75, 90, 5, 2, 0, 0, 0] ++ [104, 106, 172, 42, 146, 216] ++ []) = .error .badCrc := by
  have hencode : encode .stdio [104, 105] (List.replicate 15 0) =
      .ok (15, [66, 83, 75, 90, 5, 2, 0, 0, 0, 104, 105, 172, 42, 147, 216]) := by decide +kernel
  have hwithin : ∀ i < 48, (transmitted [104, 105, 172, 42, 147, 216])[i]? ≠ (transmitted [104, 106, 172, 42, 146, 216])[i]? →
      8 ≤ i ∧ i < 8 + 32 := by decide +kernel
  refine (burst_detected hencode rfl (by decide) ⟨8, fun i hi => ?_⟩ []).1
  by_cases hlt : i < 48
  · exact hwithin i hlt hi
  · refine absurd ?_ hi
    have hnone : ∀ bytes : List UInt8, bytes.length = 6 → (transmitted bytes)[i]? = none := fun bytes hbytes =>
      List.getElem?_eq_none (by rw [length_transmitted]; omega)
    exact (hnone _ rfl).trans (hnone _ rfl).symm

end Frame

end Supervisor
