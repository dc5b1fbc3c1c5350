import ZigKernel.LangSlice
import ZigKernel.LibJson
import ZigKernel.SupervisorSession
import Mathlib.Data.List.Infix

/-! `supervisor/contract.zig`: the canonical error envelope. The writer checks the fields of an error and
prints them into the buffer of its caller, and two substring searches tell the envelopes apart. A write that
does not fit leaves in the buffer what was already written. -/

namespace Supervisor

open Zig Json

namespace Contract

def maxIdBytes : Nat := 128
def maxDetailEntries : Nat := 8
def maxDetailKeyBytes : Nat := 32

inductive CanonicalCode where
  | invalidRequest
  | unauthenticated
  | forbidden
  | notFound
  | conflict
  | staleGeneration
  | idempotencyConflict
  | limit
  | payloadTooLarge
  | cursorExpired
  | unsupportedHost
  | unsupportedImage
  | unsupported
  | capacity
  | guestFailure
  | resourceLimit
  | deadline
  | unavailable
  | internal
  deriving DecidableEq

/-- `@tagName` -/
def CanonicalCode.text : CanonicalCode → Bytes
  | .invalidRequest => ascii "invalid_request"
  | .unauthenticated => ascii "unauthenticated"
  | .forbidden => ascii "forbidden"
  | .notFound => ascii "not_found"
  | .conflict => ascii "conflict"
  | .staleGeneration => ascii "stale_generation"
  | .idempotencyConflict => ascii "idempotency_conflict"
  | .limit => ascii "limit"
  | .payloadTooLarge => ascii "payload_too_large"
  | .cursorExpired => ascii "cursor_expired"
  | .unsupportedHost => ascii "unsupported_host"
  | .unsupportedImage => ascii "unsupported_image"
  | .unsupported => ascii "unsupported"
  | .capacity => ascii "capacity"
  | .guestFailure => ascii "guest_failure"
  | .resourceLimit => ascii "resource_limit"
  | .deadline => ascii "deadline"
  | .unavailable => ascii "unavailable"
  | .internal => ascii "internal"

inductive CanonicalDetailValue where
  | string (s : Bytes)
  | boolean (b : Bool)
  | decimal (d : Bytes)
  | null

structure CanonicalDetailEntry where
  name : Bytes
  value : CanonicalDetailValue

structure CanonicalError where
  code : CanonicalCode
  message : Bytes
  requestId : Bytes
  retryable : Bool
  /-- `detail.entries` -/
  detail : List CanonicalDetailEntry := []

inductive CanonicalWriteError where
  | invalidCanonicalError
  | noSpaceLeft
  deriving DecidableEq

def isLetter (c : UInt8) : Bool := (0x41 ≤ c && c ≤ 0x5a) || (0x61 ≤ c && c ≤ 0x7a)

/-- The letters, digits and marks of an id. -/
def isIdByte (c : UInt8) : Bool := isLetter c || isDigit c || c == 0x2e || c == 0x5f || c == 0x2d || c == 0x3a

def isDetailKey : Bytes → Bool
  | [] => false
  | c0 :: rest =>
      if rest.length + 1 > maxDetailKeyBytes then false
      else if ¬(isLetter c0 || c0 == 0x5f) then false
      else rest.all fun c => isLetter c || isDigit c || c == 0x5f

def isJsonUtf8Scalar (s : Bytes) : Bool := if s.contains 0 then false else decide (Utf8.Valid s)

def isJsonSafeAscii (s : Bytes) : Bool := s.all fun c => ¬(c < 0x20 ∨ c > 0x7e ∨ c = quote ∨ c = backslash)

/-- The digit loop of `parseDecimalU64`. -/
def parseDecimalDigits (value : Nat) : Bytes → Option Nat
  | [] => some value
  | c :: rest =>
      if ¬isDigit c then none
      else do
        let value ← mathMul value 10
        let value ← mathAdd value (c.toNat - 0x30)
        parseDecimalDigits value rest

def parseDecimalU64 (s : Bytes) : Option Nat :=
  if s.length = 0 ∨ s.length > 20 then none
  else if s.head? = some zero then (if s.length ≠ 1 then none else some 0)
  else parseDecimalDigits 0 s

/-- `formatDecimalU64`, with a buffer of twenty bytes: `unreachable` where the digits do not fit. -/
def formatDecimalU64 {ε : Type} (value : Nat) : Outcome ε Bytes :=
  let text := (Nat.toDigits 10 value).map fun c => UInt8.ofNat c.toNat
  if text.length > 20 then .trap else .ok text

def isCanonicalDecimalU64 (s : Bytes) : Bool := (parseDecimalU64 s).isSome

/-- The loop of `isOpaqueId`. -/
def opaqueLoop (allDigits : Bool) : Bytes → Bool
  | [] => !allDigits
  | c :: rest => if ¬isIdByte c then false else opaqueLoop (if ¬isDigit c then false else allDigits) rest

def isOpaqueId (s : Bytes) : Bool := if s.length < 1 ∨ s.length > maxIdBytes then false else opaqueLoop true s

/-- The switch of `validateCanonicalDetail`. -/
def badValue : CanonicalDetailValue → Bool
  | .string s => !isJsonUtf8Scalar s
  | .decimal d => !isCanonicalDecimalU64 d
  | .boolean _ | .null => false

/-- The loop of `validateCanonicalDetail`; `seen` is `entries[0..i]`. -/
def validateEntries (seen : List CanonicalDetailEntry) : List CanonicalDetailEntry → Outcome CanonicalWriteError Unit
  | [] => .ok ()
  | entry :: rest =>
      if ¬isDetailKey entry.name then .error .invalidCanonicalError
      else if seen.any fun e => e.name == entry.name then .error .invalidCanonicalError
      else if badValue entry.value then .error .invalidCanonicalError
      else validateEntries (seen ++ [entry]) rest

def validateCanonicalDetail (detail : List CanonicalDetailEntry) : Outcome CanonicalWriteError Unit :=
  if detail.length > maxDetailEntries then .error .invalidCanonicalError else validateEntries [] detail

/-- The buffer, and how much of it is written. -/
structure Writer where
  buf : Bytes
  n : Nat

abbrev Append (α : Type) := Act Writer CanonicalWriteError α

def appendSlice (s : Bytes) : Append Unit := do
  let w ← Act.get
  let stop ← Act.lift (addU64 w.n s.length)
  if stop > w.buf.length then Act.fail .noSpaceLeft
  else
    let buf ← Act.lift (memcpy w.buf w.n stop s)
    Act.modify fun _ => { buf, n := stop }

def appendByte (c : UInt8) : Append Unit := do
  let w ← Act.get
  if w.n ≥ w.buf.length then Act.fail .noSpaceLeft
  else
    let n ← Act.lift (addU64 w.n 1)
    Act.modify fun _ => { buf := w.buf.set w.n c, n }

def hex : Bytes := ascii "0123456789abcdef"

/-- The switch of `appendJsonString`. -/
def appendJsonByte (c : UInt8) : Append Unit :=
  if c = quote then appendSlice (ascii "\\\"")
  else if c = backslash then appendSlice (ascii "\\\\")
  else if c = 0x0a then appendSlice (ascii "\\n")
  else if c = 0x0d then appendSlice (ascii "\\r")
  else if c = 0x09 then appendSlice (ascii "\\t")
  else if c = 0x08 then appendSlice (ascii "\\b")
  else if c = 0x0c then appendSlice (ascii "\\f")
  else if c < 0x20 then do
    let high ← Act.lift (index hex (c >>> 4).toNat)
    let low ← Act.lift (index hex (c &&& 0x0f).toNat)
    appendSlice (ascii "\\u00" ++ [high, low])
  else appendByte c

def appendJsonBytes : Bytes → Append Unit
  | [] => pure ()
  | c :: rest => do
      appendJsonByte c
      appendJsonBytes rest

def appendJsonString (s : Bytes) : Append Unit := do
  appendByte quote
  appendJsonBytes s
  appendByte quote

def appendValue : CanonicalDetailValue → Append Unit
  | .string s => appendJsonString s
  | .boolean b => appendSlice (if b then ascii "true" else ascii "false")
  | .decimal d => appendJsonString d
  | .null => appendSlice (ascii "null")

/-- The entry loop of `writeCanonicalError`, from entry `i` on. -/
def appendEntries (i : Nat) : List CanonicalDetailEntry → Append Unit
  | [] => pure ()
  | entry :: rest => do
      if i ≠ 0 then appendSlice (ascii ",")
      appendJsonString entry.name
      appendSlice (ascii ":")
      appendValue entry.value
      appendEntries (i + 1) rest

def appendDetail (detail : List CanonicalDetailEntry) : Append Unit := do
  if detail.length ≠ 0 then do
    appendSlice (ascii ",\"detail\":\x7b")
    appendEntries 0 detail
    appendSlice (ascii "\x7d")

def appendError (err : CanonicalError) : Append Unit := do
  appendSlice (ascii "\x7b\"code\":\"")
  appendSlice err.code.text
  appendSlice (ascii "\",\"message\":\"")
  appendSlice err.message
  appendSlice (ascii "\",\"request_id\":\"")
  appendSlice err.requestId
  appendSlice (ascii "\",\"retryable\":")
  appendSlice (if err.retryable then ascii "true" else ascii "false")
  appendDetail err.detail
  appendSlice (ascii "\x7d")

/-- `writeCanonicalError` behind the check of the fields. -/
def printError (err : CanonicalError) : Append Bytes := do
  Act.lift (validateCanonicalDetail err.detail)
  appendError err
  let w ← Act.get
  Act.lift (slice w.buf 0 w.n)

/-- Prints an error into the caller's buffer and returns the bytes printed. -/
def writeCanonicalError (err : CanonicalError) : Act Bytes CanonicalWriteError Bytes := fun buf =>
  if ¬isJsonSafeAscii err.message ∨ ¬isOpaqueId err.requestId then (.error .invalidCanonicalError, buf)
  else
    let (out, w) := printError err { buf, n := 0 }
    (out, w.buf)

/-- `std.mem.indexOf(u8, bytes, needle) != null` -/
def holds (bytes needle : Bytes) : Bool := decide (needle <:+: bytes)

def isDiagnosticEnvelope (bytes : Bytes) : Bool := holds bytes (ascii "\x7b\"error\":\x7b\"code\":")

def isCanonicalEnvelope (bytes : Bytes) : Bool :=
  holds bytes (ascii "\"request_id\"") && holds bytes (ascii "\"retryable\"") && !isDiagnosticEnvelope bytes

end Contract

end Supervisor
