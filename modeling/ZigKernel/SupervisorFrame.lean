import ZigKernel.LangSlice
import ZigKernel.LibFraming
import ZigKernel.LibLittleEndian

/-! `supervisor/frame.zig`: the frames of the control channel. A frame is a magic number, a type, the length of
its payload, the payload, and a checksum of the payload. -/

namespace Supervisor

open Zig LittleEndian Framing

namespace Frame

/-- 'ZK SB' -/
def magic : Nat := 0x5A4B5342

def maxPayload : Nat := 1 <<< 20

/-- An enumeration over every byte, of which some have a name. -/
structure MsgType where
  code : UInt8
  deriving DecidableEq

namespace MsgType

def hello : MsgType := ⟨1⟩
def ready : MsgType := ⟨2⟩
def exec : MsgType := ⟨3⟩
def started : MsgType := ⟨4⟩
def stdio : MsgType := ⟨5⟩
def exit : MsgType := ⟨6⟩
def filePut : MsgType := ⟨7⟩
def fileGet : MsgType := ⟨8⟩
def fileData : MsgType := ⟨9⟩
def err : MsgType := ⟨255⟩

end MsgType

inductive Error where
  | tooBig
  | noSpace
  | short
  | badMagic
  | badCrc
  deriving DecidableEq

def crcBit (crc : UInt32) : UInt32 := if crc &&& 1 ≠ 0 then (crc >>> 1) ^^^ 0xEDB88320 else crc >>> 1

def crc32 (data : List UInt8) : UInt32 :=
  data.foldl (fun crc b => crcBit^[8] (crc ^^^ b.toUInt32)) 0xFFFFFFFF ^^^ 0xFFFFFFFF

/-- The bytes used, and the buffer after the call. -/
def encode (ty : MsgType) (payload out : List UInt8) : Outcome Error (Nat × List UInt8) :=
  if maxPayload < payload.length then .error .tooBig
  else
    let need := 4 + 1 + 4 + payload.length + 4
    if out.length < need then .error .noSpace
    else do
      let out ← memcpy out 0 4 (toBytes 4 magic)
      let out ← memcpy out 4 5 [ty.code]
      let out ← memcpy out 5 9 (toBytes 4 payload.length)
      let out ← memcpy out 9 (9 + payload.length) payload
      let out ← memcpy out (9 + payload.length) (9 + payload.length + 4) (toBytes 4 (crc32 payload).toNat)
      .ok (need, out)

structure Decoded where
  ty : MsgType
  payload : List UInt8
  consumed : Nat
  deriving DecidableEq

def decode (buf : List UInt8) : Outcome Error Decoded :=
  if buf.length < 13 then .error .short
  else do
    let start ← slice buf 0 4
    if ofBytes start ≠ magic then .error .badMagic
    else
      let ty ← index buf 4
      let len := ofBytes (← slice buf 5 9)
      if maxPayload < len then .error .tooBig
      else if buf.length < 13 + len then .error .short
      else
        let payload ← slice buf 9 (9 + len)
        let want := ofBytes (← slice buf (9 + len) (9 + len + 4))
        if (crc32 payload).toNat ≠ want then .error .badCrc
        else .ok ⟨⟨ty⟩, payload, 13 + len⟩

/-! ### The bytes of a frame -/

/-- What a frame looks like on the wire. -/
def wire (ty : MsgType) (payload : List UInt8) : List UInt8 :=
  toBytes 4 magic ++ [ty.code] ++ toBytes 4 payload.length ++ payload ++ toBytes 4 (crc32 payload).toNat

variable {ty : MsgType} {payload out buf : List UInt8} {d : Decoded} {e : Error}

@[simp] theorem length_wire : (wire ty payload).length = 13 + payload.length := by
  simp only [wire, List.length_append, length_toBytes, List.length_cons, List.length_nil]
  omega

theorem maxPayload_lt : maxPayload < 256 ^ 4 := by decide

/-- The encoder writes a frame at the front of the buffer and leaves the rest of it. -/
theorem encode_ok (hmax : payload.length ≤ maxPayload) (hroom : (wire ty payload).length ≤ out.length) :
    encode ty payload out = .ok ((wire ty payload).length, wire ty payload ++ out.drop (wire ty payload).length) := by
  rw [length_wire] at hroom ⊢
  have hstart : (memcpy out 0 4 (toBytes 4 magic) : Outcome Error _) = .ok (toBytes 4 magic ++ out.drop 4) :=
    memcpy_zero rfl (by omega)
  rw [encode, if_neg (Nat.not_lt_of_le hmax)]
  simp only []
  rw [if_neg (by omega), hstart, Outcome.ok_bind, memcpy_front (by rfl) (by rfl) (by omega), Outcome.ok_bind,
    memcpy_front (by rfl) (by rfl) (by omega), Outcome.ok_bind, memcpy_front (by rfl) (by rfl) (by omega),
    Outcome.ok_bind, memcpy_front (by simp; omega) (by rw [length_toBytes]) (by omega), Outcome.ok_bind, wire]
  have hneed : 4 + 1 + 4 + payload.length + 4 = 13 + payload.length := by omega
  simp only [hneed]

variable {m l rest : List UInt8} {code : UInt8}

/-- A buffer that is long enough for an empty frame has all fields of the header. -/
theorem exists_fields (h : 13 ≤ buf.length) : ∃ m code l rest,
    buf = m ++ [code] ++ l ++ rest ∧ m.length = 4 ∧ l.length = 4 ∧ 4 ≤ rest.length := by
  have hcode : buf.drop 4 = [buf[4]] ++ buf.drop 5 := List.drop_eq_getElem_cons (by omega)
  refine ⟨buf.take 4, buf[4], (buf.drop 5).take 4, buf.drop 9, ?_, ?_, ?_, ?_⟩
  · have hlen : (buf.drop 5).take 4 ++ buf.drop 9 = buf.drop 5 := by
      have hdrop : buf.drop 9 = (buf.drop 5).drop 4 := by rw [List.drop_drop]
      rw [hdrop, List.take_append_drop]
    rw [List.append_assoc, hlen, List.append_assoc, ← hcode, List.take_append_drop]
  · rw [List.length_take]
    omega
  · rw [List.length_take, List.length_drop]
    omega
  · rw [List.length_drop]
    omega

/-- The checks of the decoder in their order, on the fields of a buffer. -/
theorem decode_fields (hm : m.length = 4) (hl : l.length = 4) (hrest : 4 ≤ rest.length) :
    decode (m ++ [code] ++ l ++ rest) =
      if ofBytes m ≠ magic then .error .badMagic
      else if maxPayload < ofBytes l then .error .tooBig
      else if rest.length < ofBytes l + 4 then .error .short
      else if (crc32 (rest.take (ofBytes l))).toNat ≠ ofBytes ((rest.drop (ofBytes l)).take 4) then .error .badCrc
      else .ok ⟨⟨code⟩, rest.take (ofBytes l), 13 + ofBytes l⟩ := by
  have hlength : (m ++ [code] ++ l ++ rest).length = 9 + rest.length := by
    simp only [List.length_append, List.length_singleton, hm, hl]
  have hstart : (slice (m ++ [code] ++ l ++ rest) 0 4 : Outcome Error _) = .ok m :=
    slice_eq_ok.mpr ⟨by omega, [], [code] ++ l ++ rest, by simp, rfl⟩
  have hcode : (index (m ++ [code] ++ l ++ rest) 4 : Outcome Error _) = .ok code := by
    rw [index_eq_ok, ← hm]
    simp
  have hlen : (slice (m ++ [code] ++ l ++ rest) 5 9 : Outcome Error _) = .ok l :=
    slice_eq_ok.mpr ⟨by omega, m ++ [code], rest, rfl, by simp [hm]⟩
  rw [decode, if_neg (by omega), hstart, Outcome.ok_bind, hcode, Outcome.ok_bind, hlen, Outcome.ok_bind]
  simp only [hlength]
  by_cases hfull : rest.length < ofBytes l + 4
  · have hfull' : 9 + rest.length < 13 + ofBytes l := by omega
    rw [if_pos hfull', if_pos hfull]
  · have hfull' : ¬ 9 + rest.length < 13 + ofBytes l := by omega
    have htake : (rest.take (ofBytes l)).length = ofBytes l := List.length_take_of_le (by omega)
    have hpayload : (slice (m ++ [code] ++ l ++ rest) 9 (9 + ofBytes l) : Outcome Error _) =
        .ok (rest.take (ofBytes l)) := by
      refine slice_eq_ok.mpr ⟨by omega, m ++ [code] ++ l, rest.drop (ofBytes l), ?_, by simp [hm, hl]⟩
      rw [List.append_assoc _ (rest.take _), List.take_append_drop]
    have hcrc : (slice (m ++ [code] ++ l ++ rest) (9 + ofBytes l) (9 + ofBytes l + 4) : Outcome Error _) =
        .ok ((rest.drop (ofBytes l)).take 4) := by
      have htail : ((rest.drop (ofBytes l)).take 4).length = 4 := by
        rw [List.length_take, List.length_drop]
        omega
      refine slice_eq_ok.mpr ⟨by omega, m ++ [code] ++ l ++ rest.take (ofBytes l), rest.drop (ofBytes l + 4), ?_, ?_⟩
      · rw [List.append_assoc _ ((rest.drop _).take _), ← List.drop_drop, List.take_append_drop,
          List.append_assoc _ (rest.take _), List.take_append_drop]
      · simp only [List.length_append, List.length_singleton, hm, hl, htake]
    rw [if_neg hfull', if_neg hfull, hpayload, Outcome.ok_bind, hcrc, Outcome.ok_bind]

/-- The fields of a frame, with more behind it. -/
theorem wire_append (rest : List UInt8) : wire ty payload ++ rest =
    toBytes 4 magic ++ [ty.code] ++ toBytes 4 payload.length ++ (payload ++ toBytes 4 (crc32 payload).toNat ++ rest) := by
  simp only [wire, List.append_assoc]

theorem ofBytes_four {v : Nat} (h : v < 256 ^ 4) : ofBytes (toBytes 4 v) = v := by
  rw [ofBytes_toBytes, Nat.mod_eq_of_lt h]

theorem crc32_lt : (crc32 payload).toNat < 256 ^ 4 := (crc32 payload).toNat_lt

/-- A frame at the front of a buffer is decoded. -/
theorem decode_wire (ty : MsgType) (hmax : payload.length ≤ maxPayload) (rest : List UInt8) :
    decode (wire ty payload ++ rest) = .ok ⟨ty, payload, 13 + payload.length⟩ := by
  have hlen : ofBytes (toBytes 4 payload.length) = payload.length := ofBytes_four (Nat.lt_of_le_of_lt hmax maxPayload_lt)
  rw [wire_append, decode_fields (length_toBytes 4 _) (length_toBytes 4 _) (by simp; omega), hlen,
    if_neg (by rw [ofBytes_four (by decide)]; simp), if_neg (Nat.not_lt_of_le hmax), if_neg (by simp)]
  rw [List.append_assoc, List.take_left, List.drop_left, List.take_left' (length_toBytes 4 _), ofBytes_four crc32_lt]
  rw [if_neg (by simp)]

/-- What is decoded stands at the front of the buffer. -/
theorem wire_of_decode (h : decode buf = .ok d) :
    wire d.ty d.payload <+: buf ∧ d.payload.length ≤ maxPayload ∧ d.consumed = 13 + d.payload.length := by
  by_cases hshort : buf.length < 13
  · rw [decode, if_pos hshort] at h
    cases h
  obtain ⟨m, code, l, rest, rfl, hm, hl, hrest⟩ := exists_fields (Nat.le_of_not_lt hshort)
  rw [decode_fields hm hl hrest] at h
  split_ifs at h with hmagic hmax hfull hcheck
  cases h
  have htake : (rest.take (ofBytes l)).length = ofBytes l := List.length_take_of_le (by omega)
  have hcrc : ((rest.drop (ofBytes l)).take 4).length = 4 := by
    rw [List.length_take, List.length_drop]
    omega
  rw [not_ne_iff] at hmagic hcheck
  refine ⟨⟨(rest.drop (ofBytes l)).drop 4, ?_⟩, Nat.le_trans (Nat.le_of_eq htake) (Nat.le_of_not_lt hmax), by rw [htake]⟩
  rw [wire_append, htake, hcheck, ← hmagic, toBytes_ofBytes hm, toBytes_ofBytes hl, toBytes_ofBytes hcrc,
    List.append_assoc (rest.take _), List.take_append_drop, List.take_append_drop]

theorem decode_ne_trap : decode buf ≠ .trap := by
  by_cases hshort : buf.length < 13
  · rw [decode, if_pos hshort]
    simp
  obtain ⟨m, code, l, rest, rfl, hm, hl, hrest⟩ := exists_fields (Nat.le_of_not_lt hshort)
  rw [decode_fields hm hl hrest]
  split_ifs <;> simp

/-- Every error but the one for want of bytes stands whatever comes behind. -/
theorem decode_error_append (h : decode buf = .error e) (hne : e ≠ .short) (t : List UInt8) :
    decode (buf ++ t) = .error e := by
  by_cases hshort : buf.length < 13
  · rw [decode, if_pos hshort] at h
    cases h
    exact absurd rfl hne
  obtain ⟨m, code, l, rest, rfl, hm, hl, hrest⟩ := exists_fields (Nat.le_of_not_lt hshort)
  rw [decode_fields hm hl hrest] at h
  rw [List.append_assoc, decode_fields hm hl (by rw [List.length_append]; omega), List.length_append]
  split_ifs at h with hmagic hmax hfull hcheck
  · rw [if_pos hmagic, h]
  · rw [if_neg hmagic, if_pos hmax, h]
  · cases h
    exact absurd rfl hne
  · rw [if_neg hmagic, if_neg hmax, if_neg (by omega), List.take_append_of_le_length (by omega),
      List.drop_append_of_le_length (by omega), List.take_append_of_le_length (by rw [List.length_drop]; omega),
      if_pos hcheck, h]

/-- A part of a frame is too short. -/
theorem decode_part (hmax : payload.length ≤ maxPayload) (hp : buf <+: wire ty payload) (hne : buf ≠ wire ty payload) :
    decode buf = .error .short := by
  have hlt : buf.length < (wire ty payload).length :=
    Nat.lt_of_le_of_ne hp.length_le fun heq => hne (hp.eq_of_length heq)
  obtain ⟨t, ht⟩ := hp
  -- the whole frame is decoded, and neither a frame nor another error would have changed with the rest of it
  have hwhole := decode_wire ty hmax []
  rw [List.append_nil, ← ht] at hwhole
  cases hdecode : decode buf with
  | ok d =>
      obtain ⟨⟨t', rfl⟩, hmax', hconsumed⟩ := wire_of_decode hdecode
      rw [List.append_assoc, decode_wire d.ty hmax'] at hwhole
      cases d with
      | mk ty' payload' consumed =>
          cases hwhole
          rw [List.length_append] at hlt
          omega
  | error e =>
      by_cases hshort : e = .short
      · rw [hshort]
      · rw [decode_error_append hdecode hshort] at hwhole
        cases hwhole
  | trap => exact absurd hdecode decode_ne_trap

/-! ### Streams of frames -/

/-- What the decoder says of the front of a stream. -/
def verdict (buf : List UInt8) : Verdict (Option Error) Decoded :=
  match decode buf with
  | .ok d => .item d d.consumed
  | .error .short => .more
  | .error e => .bad (some e)
  | .trap => .bad none

theorem verdict_eq_item {n : Nat} (h : verdict buf = .item d n) : decode buf = .ok d ∧ d.consumed = n := by
  rw [verdict] at h
  split at h
  · rename_i hdecode
    cases h
    exact ⟨hdecode, rfl⟩
  all_goals cases h

theorem verdict_eq_bad {o : Option Error} (h : verdict buf = .bad o) : ∃ e, o = some e ∧ e ≠ .short ∧ decode buf = .error e := by
  rw [verdict] at h
  split at h
  · cases h
  · cases h
  · rename_i e hshort hdecode
    cases h
    exact ⟨e, rfl, hshort, hdecode⟩
  · rename_i hdecode
    exact absurd hdecode decode_ne_trap

/-- The frames of the control channel as a codec. -/
def codec : Codec (Option Error) UInt8 Decoded where
  read := verdict
  write d := wire d.ty d.payload
  Fits d := d.payload.length ≤ maxPayload ∧ d.consumed = 13 + d.payload.length
  item_fits h := by
    obtain ⟨hdecode, rfl⟩ := verdict_eq_item h
    obtain ⟨hwire, -, hconsumed⟩ := wire_of_decode hdecode
    have := hwire.length_le
    rw [length_wire] at this
    omega
  item_stands h t := by
    obtain ⟨hdecode, rfl⟩ := verdict_eq_item h
    obtain ⟨⟨rest, rfl⟩, hmax, hconsumed⟩ := wire_of_decode hdecode
    rw [verdict, List.append_assoc, decode_wire _ hmax, ← hconsumed]
  bad_stands h t := by
    obtain ⟨e, rfl, hshort, hdecode⟩ := verdict_eq_bad h
    rw [verdict, decode_error_append hdecode hshort]
    cases e <;> simp_all
  read_write h := by
    rename_i d
    have hdecode := decode_wire d.ty h.1 []
    rw [List.append_nil] at hdecode
    rw [verdict, hdecode, length_wire, ← h.2]
  read_part h hp hne := by rw [verdict, decode_part h.1 hp hne]

/-- `decode` called again and again on what is left of a buffer, as long as it returns a frame: the frames, and
what is left. -/
def decodeAll (buf : List UInt8) : List Decoded × List UInt8 := codec.drain buf

/-- Frames written one after the other are decoded to the same frames, a part of a frame is too short, and what
is decoded is what the encoder writes. -/
theorem stream_roundtrip :
    (∀ ty payload out, payload.length ≤ maxPayload → (wire ty payload).length ≤ out.length →
      encode ty payload out = .ok ((wire ty payload).length, wire ty payload ++ out.drop (wire ty payload).length)) ∧
    (∀ frames : List (MsgType × List UInt8), (∀ f ∈ frames, f.2.length ≤ maxPayload) →
      ∃ ds, decodeAll (frames.flatMap fun f => wire f.1 f.2) = (ds, []) ∧
        ds.map (fun d => (d.ty, d.payload)) = frames ∧
        (ds.map Decoded.consumed).sum = (frames.flatMap fun f => wire f.1 f.2).length) ∧
    (∀ ty payload p, payload.length ≤ maxPayload → p <+: wire ty payload → p ≠ wire ty payload →
      decode p = .error .short) ∧
    ∀ buf d, decode buf = .ok d → d.consumed ≤ buf.length ∧ d.payload.length ≤ maxPayload ∧
      ∀ out, d.consumed ≤ out.length →
        encode d.ty d.payload out = .ok (d.consumed, buf.take d.consumed ++ out.drop d.consumed) := by
  refine ⟨fun ty payload out => encode_ok, ?_, fun ty payload p => decode_part, ?_⟩
  · intro frames hframes
    have hstream : codec.stream (frames.map fun f => ⟨f.1, f.2, 13 + f.2.length⟩) =
        frames.flatMap fun f => wire f.1 f.2 := List.flatMap_map ..
    refine ⟨frames.map fun f => ⟨f.1, f.2, 13 + f.2.length⟩, ?_, ?_, ?_⟩
    · rw [decodeAll, ← hstream]
      refine Codec.drain_stream (fun d hd => ?_) rfl
      obtain ⟨f, hf, rfl⟩ := List.mem_map.mp hd
      exact ⟨hframes f hf, rfl⟩
    · rw [List.map_map]
      exact List.map_id frames
    · simp only [List.map_map, List.length_flatMap, length_wire]
      rfl
  · intro buf d hdecode
    obtain ⟨⟨rest, rfl⟩, hmax, hconsumed⟩ := wire_of_decode hdecode
    have hlength : (wire d.ty d.payload).length = d.consumed := length_wire.trans hconsumed.symm
    refine ⟨?_, hmax, fun out hroom => ?_⟩
    · rw [List.length_append]
      omega
    · rw [encode_ok hmax (hlength ▸ hroom), hlength, ← hlength, List.take_left]

theorem stream_roundtrip_sample :
    ∃ ds, decodeAll (wire .hello [97] ++ (wire .ready [98] ++ [])) = (ds, []) ∧
      ds.map (fun d => (d.ty, d.payload)) = [(.hello, [97]), (.ready, [98])] :=
  have ⟨ds, hdrain, hframes, _⟩ := stream_roundtrip.2.1 [(.hello, [97]), (.ready, [98])] (by simp [maxPayload])
  ⟨ds, hdrain, hframes⟩

example : crc32 [0x31, 0x32, 0x33, 0x34, 0x35, 0x36, 0x37, 0x38, 0x39] = 0xCBF43926 := by decide +kernel

end Frame

end Supervisor
