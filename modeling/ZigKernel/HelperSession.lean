import ZigKernel.HelperPipe
import ZigKernel.SupervisorBootstrap
import ZigKernel.SupervisorCanonicalSound

/-! `supervisor/sdk_helper.zig`: the dispatcher behind the pipe. A session answers one payload after the other; it
remembers the latest ids, whether hello was answered and whether it is shutting down. How a payload decodes into a
request, or into the name of an error, is a parameter. -/

namespace SdkHelper

open Zig Json Supervisor

/-! ### Requests and responses -/

def protocolVersion : Bytes := ascii "sdk-helper/1"
def helperName : Bytes := ascii "zig-sandbox-helper"
def helperVersion : Bytes := ascii "0.1.0-ts0"
def contractVersion : Bytes := ascii "1"
def apiVersion : Bytes := ascii "v1"
def maxSeenIds : Nat := 32

inductive Method where
  | hello
  | diagnostics
  | createUnavailable
  | shutdown
  deriving DecidableEq

def Method.parse (s : Bytes) : Option Method :=
  if s = ascii "hello" then some .hello
  else if s = ascii "diagnostics" then some .diagnostics
  else if s = ascii "create-unavailable" then some .createUnavailable
  else if s = ascii "shutdown" then some .shutdown
  else none

structure Params where
  definition : Option Value

structure Request where
  v : Bytes
  id : Bytes
  method : Bytes
  params : Option Params

structure Outcome where
  payload : Bytes := []
  shutdown : Bool := false
  failClosed : Bool := false
  stderrNote : Bytes := []
  deriving DecidableEq

def jsonErrorCode (name : Bytes) : Bytes :=
  if name = ascii "UnknownField" then ascii "unknown_field"
  else if name = ascii "DuplicateField" then ascii "duplicate_field"
  else if name = ascii "MissingField" then ascii "missing_field"
  else if name = ascii "TrailingData" then ascii "trailing_data"
  else if name = ascii "ValueTooLong" ∨ name = ascii "Overflow" ∨ name = ascii "OutOfMemory" then
    ascii "payload_too_large"
  else ascii "malformed"

def stripTrailingNewline (s : Bytes) : Bytes := if s.getLast? = some 0x0a then s.dropLast else s

def echoId (id : Bytes) : Bytes := if Contract.isOpaqueId id then id else ascii "invalid"

/-- The digits of `{d}`. -/
def decimal (n : Nat) : Bytes := ascii (toString n)

/-- `std.json.Stringify` of bytes: a string where they are UTF-8, an array of numbers elsewhere. -/
def stringify (s : Bytes) : Bytes :=
  if Utf8.Valid s then Contract.quoted s
  else openBracket :: ((s.map fun b => decimal b.toNat).intersperse [comma]).flatten ++ [closeBracket]

/-- `std.json.Stringify` of the document of `writeError`. -/
def errorText (id code message : Bytes) : Bytes :=
  ascii "\x7b\"v\":" ++ (stringify protocolVersion ++ (ascii ",\"id\":" ++ (stringify (echoId id) ++
    (ascii ",\"ok\":false,\"error\":\x7b\"code\":" ++ (stringify code ++ (ascii ",\"message\":" ++
      (stringify message ++ ascii "\x7d\x7d")))))))

/-- The text in a buffer of `buf` bytes, if it fits. -/
def bufPrint (buf : Nat) (text : Bytes) : Option Bytes := if text.length ≤ buf then some text else none

def writeError (buf : Nat) (id code message : Bytes) : Bytes := (bufPrint buf (errorText id code message)).getD []

def fail (buf : Nat) (id code message note : Bytes) : Outcome :=
  { payload := writeError buf id code message, failClosed := true, stderrNote := note }

/-- What the four formats begin and end with. -/
def okText (id result : Bytes) : Bytes :=
  ascii "\x7b\"v\":\"" ++ (protocolVersion ++ (ascii "\",\"id\":\"" ++ (id ++
    (ascii "\",\"ok\":true,\"result\":" ++ (result ++ ascii "\x7d")))))

def helloResult : Bytes :=
  ascii "\x7b\"protocol\":\"" ++ protocolVersion ++ ascii "\",\"contract_version\":\"" ++ contractVersion ++
    ascii "\",\"api_version\":\"" ++ apiVersion ++ ascii "\",\"helper\":\"" ++ helperName ++
    ascii "\",\"helper_version\":\"" ++ helperVersion ++ ascii "\"\x7d"

def hello (buf : Nat) (id : Bytes) : Outcome :=
  match bufPrint buf (okText id helloResult) with
  | some payload => { payload }
  | none => fail buf id (ascii "internal") (ascii "hello response exceeded buffer") (ascii "hello_overflow")

def diagnosticsResult (health ready caps : Bootstrap.Response) : Bytes :=
  ascii "\x7b\"health\":" ++ (stripTrailingNewline health.body ++ (ascii ",\"ready\":" ++
    (stripTrailingNewline ready.body ++ (ascii ",\"capabilities\":" ++ (stripTrailingNewline caps.body ++
      (ascii ",\"http\":\x7b\"health\":" ++ (decimal health.status ++ (ascii ",\"ready\":" ++
        (decimal ready.status ++ (ascii ",\"capabilities\":" ++ (decimal caps.status ++ ascii "\x7d\x7d")))))))))))

def diagnostics (buf : Nat) (id : Bytes) : Outcome :=
  let health := Bootstrap.route .get (ascii "/healthz") none
  let ready := Bootstrap.route .get (ascii "/readyz") none
  let caps := Bootstrap.route .get (ascii "/v1/capabilities") none
  match bufPrint buf (okText id (diagnosticsResult health ready caps)) with
  | some payload => { payload }
  | none => fail buf id (ascii "internal") (ascii "diagnostics response exceeded buffer") (ascii "diagnostics_overflow")

def createResult (created : Bootstrap.Response) : Bytes :=
  ascii "\x7b\"status\":" ++ (decimal created.status ++ (ascii ",\"body\":" ++
    (stripTrailingNewline created.body ++ ascii "\x7d")))

def createUnavailable (buf : Nat) (id : Bytes) : Outcome :=
  let created := Bootstrap.route .post (ascii "/v1/sandboxes") none
  match bufPrint buf (okText id (createResult created)) with
  | some payload => { payload }
  | none =>
      fail buf id (ascii "internal") (ascii "create-unavailable response exceeded buffer") (ascii "create_overflow")

/-! ### The session -/

structure IdSlot where
  /-- `[MAX_ID_BYTES]u8` -/
  bytes : Bytes
  len : Nat
  deriving DecidableEq

def IdSlot.slice {ε : Type} (slot : IdSlot) : Zig.Outcome ε Bytes := Zig.slice slot.bytes 0 slot.len

structure Session where
  /-- `[MAX_SEEN_IDS]IdSlot` -/
  seen : List IdSlot
  seenLen : Nat
  shuttingDown : Bool
  helloDone : Bool
  deriving DecidableEq

/-- `Session{}`; the bytes of the slots are undefined. -/
structure Session.Fresh (s : Session) : Prop where
  length : s.seen.length = maxSeenIds
  slots : ∀ slot ∈ s.seen, slot.bytes.length = Contract.maxIdBytes
  seenLen : s.seenLen = 0
  shuttingDown : s.shuttingDown = false
  helloDone : s.helloDone = false

inductive RememberError where
  | duplicateId
  | tooManyIds
  deriving DecidableEq

/-- The scan of `rememberId`: `n` slots from `i` on. -/
def scanSeen (seen : List IdSlot) (id : Bytes) (i : Nat) : Nat → Zig.Outcome RememberError Unit
  | 0 => .ok ()
  | n + 1 => do
      let slot ← index seen i
      if (← slot.slice) = id then .error .duplicateId else scanSeen seen id (i + 1) n

/-- The shift of `rememberId`: `seen[j - 1] = seen[j]` for `n` slots from `j` on. -/
def shiftSeen (seen : List IdSlot) (j : Nat) : Nat → Zig.Outcome RememberError (List IdSlot)
  | 0 => .ok seen
  | n + 1 => do
      let slot ← index seen j
      shiftSeen (seen.set (j - 1) slot) (j + 1) n

/-- The write of `rememberId`. -/
def storeSeen (session : Session) (id : Bytes) : Zig.Outcome RememberError Session := do
  let slot ← index session.seen session.seenLen
  let bytes ← memcpy slot.bytes 0 id.length id
  .ok { session with seen := session.seen.set session.seenLen ⟨bytes, id.length⟩, seenLen := session.seenLen + 1 }

def rememberId (session : Session) (id : Bytes) : Zig.Outcome RememberError Session := do
  scanSeen session.seen id 0 session.seenLen
  if session.seenLen = maxSeenIds then do
    let seen ← shiftSeen session.seen 1 (maxSeenIds - 1)
    storeSeen { session with seen, seenLen := maxSeenIds - 1 } id
  else storeSeen session id

def shutdown (session : Session) (buf : Nat) (id : Bytes) : Session × Outcome :=
  let session := { session with shuttingDown := true }
  match bufPrint buf (okText id (ascii "\x7b\"shutdown\":true\x7d")) with
  | some payload => (session, { payload, shutdown := true })
  | none =>
      (session, fail buf id (ascii "internal") (ascii "shutdown response exceeded buffer") (ascii "shutdown_overflow"))

/-- The last switch of `handlePayload`. -/
def perform (session : Session) (buf : Nat) (id : Bytes) : Method → Session × Outcome
  | .hello => ({ session with helloDone := true }, hello buf id)
  | .diagnostics => (session, diagnostics buf id)
  | .createUnavailable => (session, createUnavailable buf id)
  | .shutdown => shutdown session buf id

/-- `handlePayload` from the method on; the id is remembered by then. -/
def dispatch (session : Session) (buf : Nat) (req : Request) : Session × Outcome :=
  match Method.parse req.method with
  | none =>
      (session, fail buf req.id (ascii "unknown_method") (ascii "method is not in the helper allowlist")
        (ascii "unknown_method"))
  | some method =>
      if session.shuttingDown then
        (session, fail buf req.id (ascii "shutdown") (ascii "session already shutting down") (ascii "already_shutdown"))
      else if method = .hello ∧ session.helloDone then
        (session, fail buf req.id (ascii "unexpected_hello") (ascii "hello already completed") (ascii "repeated_hello"))
      else if method ≠ .hello ∧ ¬session.helloDone then
        (session, fail buf req.id (ascii "hello_required") (ascii "first request must be hello")
          (ascii "hello_required"))
      else if method ≠ .createUnavailable ∧ req.params.isSome then
        (session, fail buf req.id (ascii "unknown_field") (ascii "params are not allowed for this method")
          (ascii "unexpected_params"))
      else perform session buf req.id method

/-- `handlePayload` behind the decoder. -/
def handleRequest (session : Session) (buf : Nat) (req : Request) : Zig.Outcome Empty (Session × Outcome) :=
  if ¬Contract.isOpaqueId req.id then
    .ok (session, fail buf (ascii "invalid") (ascii "invalid_id") (ascii "request id is not a bounded opaque id")
      (ascii "invalid_id"))
  else if req.v ≠ protocolVersion then
    .ok (session, fail buf req.id (ascii "version_mismatch") (ascii "helper protocol version mismatch")
      (ascii "version_mismatch"))
  else
    match rememberId session req.id with
    | .trap => .trap
    | .error .duplicateId =>
        .ok (session, fail buf req.id (ascii "duplicate_id") (ascii "request id was already used")
          (ascii "duplicate_id"))
    | .error .tooManyIds =>
        .ok (session, fail buf req.id (ascii "limit") (ascii "too many helper request ids") (ascii "too_many_ids"))
    | .ok session => .ok (dispatch session buf req)

/-- `parseFromSlice` gives the request, or the name of its error. -/
def handlePayload (parseFromSlice : Bytes → Except Bytes Request) (session : Session) (buf : Nat) (payload : Bytes) :
    Zig.Outcome Empty (Session × Outcome) :=
  if payload.length = 0 ∨ payload.length > Helper.maxFrameBytes then
    .ok (session, fail buf (ascii "invalid") (ascii "payload_too_large") (ascii "frame exceeds helper limit")
      (ascii "oversize_or_empty"))
  else if ¬Utf8.Valid payload then
    .ok (session, fail buf (ascii "invalid") (ascii "malformed") (ascii "payload is not valid utf-8")
      (ascii "malformed_utf8"))
  else
    match parseFromSlice payload with
    | .error name =>
        .ok (session, fail buf (ascii "invalid") (jsonErrorCode name) (ascii "request json rejected")
          (jsonErrorCode name))
    | .ok req => handleRequest session buf req

end SdkHelper
