import ZigKernel.LangSlice
import ZigKernel.LibFraming
import ZigKernel.LibLittleEndian

/-! The pipe between the SDK and its helper: `supervisor/sdk_helper.zig` writes a length before each payload, and
the decoder of `transports/helper.ts` takes the payloads out of the chunks that the pipe delivers. -/

namespace Helper

open Zig LittleEndian Framing

/-- `MAX_JSON_BYTES`, of both sides. -/
def maxJsonBytes : Nat := 64 * 1024

def bigEndian (n v : Nat) : List UInt8 := (toBytes n v).reverse

/-! ### The helper's side -/

def maxFrameBytes : Nat := maxJsonBytes
def headerBytes : Nat := 4

inductive FrameError where
  | frameTooLarge
  | bufferTooSmall
  deriving DecidableEq

/-- The header of `dest` after the write. -/
def writeFrameHeader (payloadLen : U32) : List UInt8 := bigEndian 4 payloadLen

/-- The frame, and the buffer it is a slice of after the call. -/
def encodeFrame (dest payload : List UInt8) : Outcome FrameError (List UInt8 × List UInt8) :=
  if maxFrameBytes < payload.length then .error .frameTooLarge
  else if dest.length < headerBytes + payload.length then .error .bufferTooSmall
  else do
    let dest ← memcpy dest 0 headerBytes (writeFrameHeader (← castU32 payload.length))
    let dest ← memcpy dest headerBytes (headerBytes + payload.length) payload
    .ok (← slice dest 0 (headerBytes + payload.length), dest)

/-! ### The client's side -/

structure HelperProtocolError where
  code : String
  message : String
  deriving DecidableEq

namespace Client

def encodeFrame (payload : List UInt8) (maxFrame : Nat) : Except HelperProtocolError (List UInt8) :=
  if payload.length = 0 ∨ maxFrame < payload.length then
    .error ⟨"payload_too_large", s!"frame payload {payload.length} is outside 1..{maxFrame}"⟩
  else .ok (bigEndian 4 payload.length ++ payload)

def concatBytes (a b : List UInt8) : List UInt8 := a ++ b

structure FrameDecoder where
  maxStdout : Nat
  maxFrame : Nat
  buffer : List UInt8
  stdoutBytes : Nat

namespace FrameDecoder

/-- `new FrameDecoder(maxStdout, maxFrame)` -/
def new (maxStdout maxFrame : Nat) : FrameDecoder := ⟨maxStdout, maxFrame, [], 0⟩

def pending (d : FrameDecoder) : Nat := d.buffer.length

def invalidLength (len : Nat) : HelperProtocolError := ⟨"oversize", s!"invalid helper frame length {len}"⟩

/-- One turn of the loop of `push`: a frame, the end of the loop, or what it throws. -/
def turn (maxFrame : Nat) (buffer : List UInt8) : Verdict HelperProtocolError (List UInt8) :=
  if 4 ≤ buffer.length then
    let len := ofBytes (buffer.take 4).reverse
    if len = 0 ∨ maxFrame < len then .bad (invalidLength len)
    else if buffer.length < 4 + len then .more
    else .item ((buffer.drop 4).take len) (4 + len)
  else .more

variable {maxFrame n : Nat} {buffer frame payload : List UInt8} {e : HelperProtocolError}

theorem turn_eq_item : turn maxFrame buffer = .item frame n ↔
    4 ≤ buffer.length ∧ (ofBytes (buffer.take 4).reverse ≠ 0 ∧ ofBytes (buffer.take 4).reverse ≤ maxFrame) ∧
      4 + ofBytes (buffer.take 4).reverse ≤ buffer.length ∧
      (buffer.drop 4).take (ofBytes (buffer.take 4).reverse) = frame ∧ 4 + ofBytes (buffer.take 4).reverse = n := by
  simp only [turn]
  split_ifs with hheader hlen hfull
  · simp only [false_iff, not_and]
    omega
  · simp only [false_iff, not_and]
    omega
  · rw [not_or, Nat.not_lt] at hlen
    simp only [Verdict.item.injEq, hheader, hlen, Nat.le_of_not_lt hfull, true_and, ne_eq, not_false_eq_true]
  · simp only [false_iff, not_and]
    omega

theorem turn_eq_bad : turn maxFrame buffer = .bad e ↔
    4 ≤ buffer.length ∧ (ofBytes (buffer.take 4).reverse = 0 ∨ maxFrame < ofBytes (buffer.take 4).reverse) ∧
      invalidLength (ofBytes (buffer.take 4).reverse) = e := by
  simp only [turn]
  split_ifs with hheader hlen hfull
  · simp [hheader, hlen]
  · simp [hlen]
  · simp [hlen]
  · simp [hheader]

/-- The loop of `push` as a reader of the stream. -/
def reader (maxFrame : Nat) : Reader HelperProtocolError UInt8 (List UInt8) where
  read := turn maxFrame
  item_fits h := by
    obtain ⟨-, -, hfull, -, rfl⟩ := turn_eq_item.mp h
    omega
  item_stands h t := by
    obtain ⟨hheader, hlen, hfull, rfl, rfl⟩ := turn_eq_item.mp h
    rw [turn_eq_item, List.take_append_of_le_length hheader, List.drop_append_of_le_length hheader,
      List.take_append_of_le_length (by rw [List.length_drop]; omega), List.length_append]
    exact ⟨by omega, hlen, by omega, rfl, rfl⟩
  bad_stands h t := by
    obtain ⟨hheader, hlen, rfl⟩ := turn_eq_bad.mp h
    rw [turn_eq_bad, List.take_append_of_le_length hheader, List.length_append]
    exact ⟨by omega, hlen, rfl⟩

/-- The frames or what is thrown, and the decoder after the call. -/
def push (d : FrameDecoder) (chunk : List UInt8) : Except HelperProtocolError (List (List UInt8)) × FrameDecoder :=
  let d := { d with stdoutBytes := d.stdoutBytes + chunk.length }
  if d.maxStdout < d.stdoutBytes then (.error ⟨"flood", "helper stdout exceeded bound"⟩, d)
  else
    let (frames, rest) := (reader d.maxFrame).drain (concatBytes d.buffer chunk)
    let d := { d with buffer := rest }
    match turn d.maxFrame rest with
    | .bad e => (.error e, d)
    | _ => (.ok frames, d)

/-- Successive calls. -/
def pushes (d : FrameDecoder) : List (List UInt8) → List (Except HelperProtocolError (List (List UInt8))) × FrameDecoder
  | [] => ([], d)
  | chunk :: chunks =>
    let (result, d) := d.push chunk
    let (results, d) := d.pushes chunks
    (result :: results, d)

end FrameDecoder

end Client

/-! ### Both ends -/

/-- What a payload looks like on the pipe. -/
def wire (payload : List UInt8) : List UInt8 := bigEndian 4 payload.length ++ payload

variable {payload dest p : List UInt8} {maxFrame : Nat}

@[simp] theorem length_bigEndian (n v : Nat) : (bigEndian n v).length = n := by
  rw [bigEndian, List.length_reverse, length_toBytes]

@[simp] theorem length_wire : (wire payload).length = 4 + payload.length := by
  rw [wire, List.length_append, length_bigEndian]

theorem encodeFrame_ok (hmax : payload.length ≤ maxJsonBytes) (hroom : (wire payload).length ≤ dest.length) :
    encodeFrame dest payload = .ok (wire payload, wire payload ++ dest.drop (wire payload).length) := by
  rw [length_wire] at hroom ⊢
  have hcast : payload.length < u32Bound := Nat.lt_of_le_of_lt hmax (by decide)
  have hheader : (memcpy dest 0 4 (bigEndian 4 payload.length) : Outcome FrameError _) =
      .ok (bigEndian 4 payload.length ++ dest.drop 4) := memcpy_zero (by simp) (by omega)
  have hpayload : (memcpy (bigEndian 4 payload.length ++ dest.drop 4) 4 (4 + payload.length) payload :
      Outcome FrameError _) = .ok (wire payload ++ dest.drop (4 + payload.length)) :=
    memcpy_front (by simp) rfl hroom
  have hslice : (slice (wire payload ++ dest.drop (4 + payload.length)) 0 (4 + payload.length) :
      Outcome FrameError _) = .ok (wire payload) := slice_eq_ok.mpr ⟨by simp, [], _, rfl, rfl⟩
  rw [encodeFrame, maxFrameBytes, if_neg (Nat.not_lt_of_le hmax), headerBytes, if_neg (Nat.not_lt_of_le hroom), castU32_of_lt hcast,
    Outcome.ok_bind, writeFrameHeader, hheader, Outcome.ok_bind, hpayload, Outcome.ok_bind, hslice, Outcome.ok_bind]

theorem Client.encodeFrame_ok (hpos : 1 ≤ payload.length) (hmax : payload.length ≤ maxFrame) :
    Client.encodeFrame payload maxFrame = .ok (wire payload) := by
  rw [Client.encodeFrame, if_neg (by omega), wire]

namespace Client.FrameDecoder

/-- A header announces its payload. -/
theorem header_append (h : payload.length < 256 ^ 4) (t : List UInt8) :
    ofBytes ((wire payload ++ t).take 4).reverse = payload.length := by
  rw [wire, List.append_assoc, List.take_left' (length_bigEndian 4 _), bigEndian, List.reverse_reverse,
    ofBytes_toBytes, Nat.mod_eq_of_lt h]

/-- The frames of the pipe as a codec. -/
def codec (maxFrame : Nat) : Codec HelperProtocolError UInt8 (List UInt8) where
  toReader := reader maxFrame
  write := wire
  Fits payload := (1 ≤ payload.length ∧ payload.length ≤ maxFrame) ∧ payload.length < 256 ^ 4
  read_write h := by
    rename_i payload
    have hheader := header_append h.2 []
    rw [List.append_nil] at hheader
    show turn maxFrame (wire payload) = _
    rw [turn_eq_item, hheader, length_wire]
    refine ⟨by omega, by omega, Nat.le_refl _, ?_, rfl⟩
    rw [wire, List.drop_left' (length_bigEndian 4 _), List.take_length]
  read_part h hp hne := by
    rename_i payload p
    have hlt : p.length < (wire payload).length :=
      Nat.lt_of_le_of_ne hp.length_le fun heq => hne (hp.eq_of_length heq)
    rw [length_wire] at hlt
    show turn maxFrame p = .more
    by_cases hshort : 4 ≤ p.length
    · obtain ⟨t, ht⟩ := hp
      have hheader := header_append h.2 []
      rw [List.append_nil, ← ht, List.take_append_of_le_length hshort] at hheader
      simp only [turn]
      rw [if_pos hshort, hheader, if_neg (by omega), if_pos hlt]
    · rw [turn, if_neg hshort]

/-- What a decoder holds after the chunks of a stream. -/
structure Holds (d : FrameDecoder) (s : List UInt8) : Prop where
  buffer : d.buffer = ((reader d.maxFrame).drain s).2
  stdoutBytes : d.stdoutBytes = s.length
  bounded : s.length ≤ d.maxStdout
  sound : ¬ (reader d.maxFrame).Fails s

/-- A stream on which a decoder throws. -/
def Throws (maxStdout maxFrame : Nat) (s : List UInt8) : Prop := maxStdout < s.length ∨ (reader maxFrame).Fails s

variable {d : FrameDecoder} {s chunk : List UInt8} {chunks : List (List UInt8)} {maxStdout : Nat}

theorem Throws.append (h : Throws maxStdout maxFrame s) (t : List UInt8) : Throws maxStdout maxFrame (s ++ t) := by
  rcases h with hflood | hfails
  · left
    rw [List.length_append]
    omega
  · exact Or.inr (hfails.append t)

theorem push_flood (h : d.maxStdout < d.stdoutBytes + chunk.length) :
    (d.push chunk).1 = .error ⟨"flood", "helper stdout exceeded bound"⟩ := by
  simp only [push, if_pos h]

theorem push_bad {e : HelperProtocolError} (h : d.stdoutBytes + chunk.length ≤ d.maxStdout)
    (hbad : turn d.maxFrame ((reader d.maxFrame).drain (d.buffer ++ chunk)).2 = .bad e) :
    (d.push chunk).1 = .error e := by
  simp only [push, if_neg (Nat.not_lt_of_le h), concatBytes, hbad]

theorem push_ok (h : d.stdoutBytes + chunk.length ≤ d.maxStdout)
    (hok : ∀ e, turn d.maxFrame ((reader d.maxFrame).drain (d.buffer ++ chunk)).2 ≠ .bad e) :
    d.push chunk = (.ok ((reader d.maxFrame).drain (d.buffer ++ chunk)).1,
      { d with stdoutBytes := d.stdoutBytes + chunk.length,
               buffer := ((reader d.maxFrame).drain (d.buffer ++ chunk)).2 }) := by
  simp only [push, if_neg (Nat.not_lt_of_le h), concatBytes]

/-- A call throws on a stream to throw on. -/
theorem push_throws (h : Holds d s) (ht : Throws d.maxStdout d.maxFrame (s ++ chunk)) :
    ∃ e, (d.push chunk).1 = .error e := by
  have hlength : d.stdoutBytes + chunk.length = (s ++ chunk).length := by rw [List.length_append, h.stdoutBytes]
  by_cases hflood : d.maxStdout < (s ++ chunk).length
  · exact ⟨_, push_flood (hlength ▸ hflood)⟩
  · obtain ⟨e, he⟩ := ht.resolve_left hflood
    rw [Reader.drain_append, ← h.buffer] at he
    exact ⟨e, push_bad (by omega) he⟩

/-- Otherwise it returns the frames that the chunk completes. -/
theorem push_returns (h : Holds d s) (ht : ¬ Throws d.maxStdout d.maxFrame (s ++ chunk)) :
    ∃ frames d', d.push chunk = (.ok frames, d') ∧ Holds d' (s ++ chunk) ∧
      d'.maxStdout = d.maxStdout ∧ d'.maxFrame = d.maxFrame ∧
      ((reader d.maxFrame).drain s).1 ++ frames = ((reader d.maxFrame).drain (s ++ chunk)).1 := by
  rw [Throws, not_or, Nat.not_lt] at ht
  have hlength : d.stdoutBytes + chunk.length = (s ++ chunk).length := by rw [List.length_append, h.stdoutBytes]
  have hdrain := (reader d.maxFrame).drain_append s chunk
  rw [← h.buffer] at hdrain
  refine ⟨_, _, push_ok (hlength ▸ ht.1) fun e he => ht.2 ⟨e, ?_⟩, ⟨?_, hlength, ht.1, ht.2⟩, rfl, rfl, ?_⟩
  · rw [hdrain]
    exact he
  · rw [hdrain]
  · rw [hdrain]

theorem pushes_cons : d.pushes (chunk :: chunks) =
    ((d.push chunk).1 :: ((d.push chunk).2.pushes chunks).1, ((d.push chunk).2.pushes chunks).2) := rfl

/-- Some call throws on a stream to throw on, wherever it is cut. -/
theorem pushes_throws (h : Holds d s) (ht : Throws d.maxStdout d.maxFrame (s ++ chunks.flatten)) :
    ∃ e, .error e ∈ (d.pushes chunks).1 := by
  induction chunks generalizing d s with
  | nil =>
      rw [List.flatten_nil, List.append_nil] at ht
      exact absurd (ht.resolve_left (Nat.not_lt_of_le h.bounded)) h.sound
  | cons chunk chunks ih =>
      rw [pushes_cons]
      by_cases hfirst : Throws d.maxStdout d.maxFrame (s ++ chunk)
      · obtain ⟨e, he⟩ := push_throws h hfirst
        exact ⟨e, he ▸ List.mem_cons_self⟩
      · obtain ⟨frames, d', hpush, hholds, hmax, hframe, -⟩ := push_returns h hfirst
        rw [List.flatten_cons, ← List.append_assoc, ← hmax, ← hframe] at ht
        obtain ⟨e, he⟩ := ih hholds ht
        rw [hpush]
        exact ⟨e, List.mem_cons_of_mem _ he⟩

/-- And no call throws on any other stream: the frames are those of the stream. -/
theorem pushes_returns (h : Holds d s) (ht : ¬ Throws d.maxStdout d.maxFrame (s ++ chunks.flatten)) :
    ∃ (outs : List (List (List UInt8))) (d' : FrameDecoder), d.pushes chunks = (outs.map .ok, d') ∧ d'.buffer = ((reader d.maxFrame).drain (s ++ chunks.flatten)).2 ∧
      ((reader d.maxFrame).drain s).1 ++ outs.flatten = ((reader d.maxFrame).drain (s ++ chunks.flatten)).1 := by
  induction chunks generalizing d s with
  | nil =>
      rw [List.flatten_nil, List.append_nil]
      exact ⟨[], d, rfl, h.buffer, List.append_nil _⟩
  | cons chunk chunks ih =>
      have hfirst : ¬ Throws d.maxStdout d.maxFrame (s ++ chunk) := by
        intro hthrows
        rw [List.flatten_cons, ← List.append_assoc] at ht
        exact ht (hthrows.append _)
      obtain ⟨frames, d', hpush, hholds, hmax, hframe, hframes⟩ := push_returns h hfirst
      rw [List.flatten_cons, ← List.append_assoc] at ht ⊢
      obtain ⟨outs, d'', hpushes, hbuffer, houts⟩ := ih hholds (by rw [hmax, hframe]; exact ht)
      refine ⟨frames :: outs, d'', ?_, by rw [hbuffer, hframe], ?_⟩
      · rw [pushes_cons, hpush, hpushes]
        rfl
      · rw [List.flatten_cons, ← List.append_assoc, hframes, ← hframe, houts]

theorem holds_new (maxStdout maxFrame : Nat) : Holds (new maxStdout maxFrame) [] := by
  have hmore : (reader maxFrame).read [] = .more := rfl
  refine ⟨?_, rfl, Nat.zero_le _, ?_⟩
  · show [] = ((reader maxFrame).drain []).2
    rw [Reader.drain_more hmore]
  · rintro ⟨e, he⟩
    have hnil : (reader maxFrame).drain [] = ([], []) := Reader.drain_more hmore
    rw [show (new maxStdout maxFrame).maxFrame = maxFrame from rfl, hnil, hmore] at he
    cases he

/-- Whether some call throws depends on the stream alone. -/
theorem pushes_throws_iff : (∃ e, .error e ∈ ((new maxStdout maxFrame).pushes chunks).1) ↔
    Throws maxStdout maxFrame chunks.flatten := by
  constructor
  · rintro ⟨e, he⟩
    by_contra ht
    obtain ⟨outs, d', hpushes, -⟩ := pushes_returns (holds_new maxStdout maxFrame) ht
    rw [hpushes] at he
    obtain ⟨frames, -, hframes⟩ := List.mem_map.mp he
    cases hframes
  · exact fun ht => pushes_throws (holds_new maxStdout maxFrame) ht

theorem fits_of_le {payloads : List (List UInt8)} (hframe : maxFrame ≤ maxJsonBytes)
    (h : ∀ payload ∈ payloads, 1 ≤ payload.length ∧ payload.length ≤ maxFrame) :
    ∀ payload ∈ payloads, (codec maxFrame).Fits payload := by
  intro payload hp
  have hmax : maxJsonBytes < 256 ^ 4 := by decide
  have hle := (h payload hp).2
  exact ⟨h payload hp, by omega⟩

end Client.FrameDecoder

open Client FrameDecoder

/-- The client gets the payloads that the helper writes, wherever the pipe cuts their frames; of a part of the
stream it gets the payloads that are complete in it. Both ends write the same frames, and whether the client
refuses a stream does not depend on how it is cut. -/
theorem pipe_roundtrip :
    (∀ maxFrame payload dest, maxFrame ≤ maxJsonBytes → 1 ≤ payload.length → payload.length ≤ maxFrame →
      (wire payload).length ≤ dest.length →
      encodeFrame dest payload = .ok (wire payload, wire payload ++ dest.drop (wire payload).length) ∧
        Client.encodeFrame payload maxFrame = .ok (wire payload)) ∧
    (∀ maxStdout maxFrame payloads, maxFrame ≤ maxJsonBytes →
      (∀ payload ∈ payloads, 1 ≤ payload.length ∧ payload.length ≤ maxFrame) →
      (payloads.flatMap wire).length ≤ maxStdout → ∀ chunks : List (List UInt8),
      (chunks.flatten = payloads.flatMap wire →
        ∃ outs d, (new maxStdout maxFrame).pushes chunks = (List.map .ok outs, d) ∧
          outs.flatten = payloads ∧ d.pending = 0) ∧
      (chunks.flatten <+: payloads.flatMap wire → chunks.flatten ≠ payloads.flatMap wire →
        ∃ outs d complete payload later left, (new maxStdout maxFrame).pushes chunks = (List.map .ok outs, d) ∧
          payloads = complete ++ payload :: later ∧ chunks.flatten = complete.flatMap wire ++ left ∧
          left.length < (wire payload).length ∧ outs.flatten = complete ∧ d.pending = left.length)) ∧
    ∀ maxStdout maxFrame (chunks chunks' : List (List UInt8)), chunks.flatten = chunks'.flatten →
      ((∃ e, .error e ∈ ((new maxStdout maxFrame).pushes chunks).1) ↔
        ∃ e, .error e ∈ ((new maxStdout maxFrame).pushes chunks').1) := by
  refine ⟨?_, ?_, ?_⟩
  · intro maxFrame payload dest hframe hpos hmax hroom
    exact ⟨Helper.encodeFrame_ok (Nat.le_trans hmax hframe) hroom, Client.encodeFrame_ok hpos hmax⟩
  · intro maxStdout maxFrame payloads hframe hpayloads htotal chunks
    have hfits := fits_of_le hframe hpayloads
    have hnil : ((reader maxFrame).drain []) = ([], []) := Reader.drain_more rfl
    -- the frames of a stream that is read to `left`
    have hreturns : ∀ complete left, chunks.flatten.length ≤ maxStdout →
        (reader maxFrame).drain chunks.flatten = (complete, left) → (reader maxFrame).read left = .more →
        ∃ outs d, (new maxStdout maxFrame).pushes chunks = (List.map .ok outs, d) ∧ outs.flatten = complete ∧
          d.pending = left.length := by
      intro complete left hlength hdrain hmore
      have hsound : ¬ Throws maxStdout maxFrame chunks.flatten := by
        rintro (hflood | ⟨e, he⟩)
        · omega
        · rw [hdrain, hmore] at he
          cases he
      obtain ⟨outs, d, hpushes, hbuffer, houts⟩ := pushes_returns (holds_new maxStdout maxFrame) hsound
      rw [List.nil_append, show (new maxStdout maxFrame).maxFrame = maxFrame from rfl, hdrain] at hbuffer houts
      rw [hnil] at houts
      exact ⟨outs, d, hpushes, houts, congrArg List.length hbuffer⟩
    constructor
    · intro hflatten
      have hdrain : (reader maxFrame).drain chunks.flatten = (payloads, []) := by
        rw [hflatten]
        exact (codec maxFrame).drain_stream hfits rfl
      exact hreturns payloads [] (hflatten ▸ htotal) hdrain rfl
    · intro hpart hne
      obtain ⟨complete, payload, later, left, rfl, hflatten, hleft, hleftne, hdrain, hmore⟩ :=
        (codec maxFrame).drain_part hfits hpart hne
      obtain ⟨outs, d, hpushes, houts, hpending⟩ :=
        hreturns complete left (Nat.le_trans hpart.length_le htotal) hdrain hmore
      have hlt : left.length < (wire payload).length :=
        Nat.lt_of_le_of_ne hleft.length_le fun heq => hleftne (hleft.eq_of_length heq)
      exact ⟨outs, d, complete, payload, later, left, hpushes, rfl, hflatten, hlt, houts, hpending⟩
  · intro maxStdout maxFrame chunks chunks' heq
    rw [pushes_throws_iff, pushes_throws_iff, heq]

/-- A frame whose header is cut. -/
theorem pipe_roundtrip_sample : ∃ outs d, (new 16 8).pushes [[0, 0], [], [0, 1, 97]] = (List.map .ok outs, d) ∧
    outs.flatten = [[97]] ∧ d.pending = 0 :=
  (pipe_roundtrip.2.1 16 8 [[97]] (by decide) (by simp) (by decide) [[0, 0], [], [0, 1, 97]]).1 rfl

end Helper
