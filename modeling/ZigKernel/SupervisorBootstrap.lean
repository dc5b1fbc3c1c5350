import ZigKernel.LibJsonPrint
import ZigKernel.SupervisorSession

/-! `supervisor/bootstrap.zig`: the routes that answer while no backend is composed, with the documents of
`contract.zig` that they serve. -/

namespace Supervisor

open Json

namespace Contract

/-- `diagnostic_empty_capabilities_json` -/
def diagnosticEmptyCapabilitiesJson : Bytes :=
  ascii "\x7b\"backends\":[],\"guest_abis\":[],\"images\":[],\"features\":\x7b\"execution\":false,\"network_modes\":[],\"snapshots\":false,\"forks\":false,\"sse\":false\x7d,\"ceilings\":\x7b\x7d\x7d\n"

def diagnosticHealthJson : Bytes := ascii "\x7b\"status\":\"ok\"\x7d\n"

def diagnosticNotReadyJson : Bytes :=
  ascii "\x7b\"status\":\"not_ready\",\"reason\":\"execution_unavailable\"\x7d\n"

def diagnosticExecutionUnavailableJson : Bytes :=
  ascii "\x7b\"error\":\x7b\"code\":\"execution_unavailable\",\"message\":\"sandbox execution is not implemented in this bootstrap\"\x7d\x7d\n"

def diagnosticPayloadTooLargeJson : Bytes :=
  ascii "\x7b\"error\":\x7b\"code\":\"payload_too_large\",\"message\":\"request body exceeds bootstrap limit\"\x7d\x7d\n"

def diagnosticNotFoundJson : Bytes :=
  ascii "\x7b\"error\":\x7b\"code\":\"not_found\",\"message\":\"route not found\"\x7d\x7d\n"

def diagnosticMethodNotAllowedJson : Bytes :=
  ascii "\x7b\"error\":\x7b\"code\":\"method_not_allowed\",\"message\":\"method not allowed\"\x7d\x7d\n"

inductive PathClass where
  | health
  | ready
  | capabilities
  | sandbox
  | exports
  | operations
  | images
  | callbacks
  | metrics
  | unknown
  deriving DecidableEq

/-- The root itself, or a path below it; `0x2f` is the slash. -/
def prefixMatch (path root : Bytes) : Bool :=
  path == root || (root.isPrefixOf path && decide (path.length > root.length) && path[root.length]? == some 0x2f)

def classifyPath (target : Bytes) : PathClass :=
  -- up to the question mark
  let path := target.takeWhile (· != 0x3f)
  if path = ascii "/healthz" then .health
  else if path = ascii "/readyz" then .ready
  else if path = ascii "/metrics" then .metrics
  else if path = ascii "/v1/capabilities" then .capabilities
  else if prefixMatch path (ascii "/v1/sandboxes") then .sandbox
  else if prefixMatch path (ascii "/v1/exports") then .exports
  else if prefixMatch path (ascii "/v1/operations") then .operations
  else if prefixMatch path (ascii "/v1/images") then .images
  else if prefixMatch path (ascii "/v1/callbacks") then .callbacks
  else .unknown

end Contract

namespace Bootstrap

open Contract

def maxRequestBodyBytes : Nat := 1024 * 1024

/-- `std.http.Method` -/
inductive Method where
  | get
  | head
  | post
  | put
  | delete
  | connect
  | options
  | trace
  | patch
  deriving DecidableEq

structure Response where
  status : Nat
  allow : Option Bytes := none
  body : Bytes
  deriving DecidableEq

/-- The three routes that only read. -/
def readRoute (method : Method) (status : Nat) (body : Bytes) : Response :=
  if method = .get ∨ method = .head then { status, body }
  else { status := 405, allow := some (ascii "GET, HEAD"), body := diagnosticMethodNotAllowedJson }

/-- `route`; the backend is not read. -/
def route (method : Method) (target : Bytes) (contentLength : Option Nat) : Response :=
  if ∃ n ∈ contentLength, n > maxRequestBodyBytes then { status := 413, body := diagnosticPayloadTooLargeJson }
  else
    match classifyPath target with
    | .health => readRoute method 200 diagnosticHealthJson
    | .ready => readRoute method 503 diagnosticNotReadyJson
    | .capabilities => readRoute method 200 diagnosticEmptyCapabilitiesJson
    | .sandbox => { status := 501, body := diagnosticExecutionUnavailableJson }
    | .exports | .operations | .images | .callbacks | .metrics | .unknown =>
        { status := 404, body := diagnosticNotFoundJson }

/-- A document and the new line behind it. -/
def IsDocument (body : Bytes) : Prop := ∃ v, plain v = true ∧ body = print v ++ [0x0a]

def errorDocument (code message : String) : Value :=
  .object [(ascii "error", .object [(ascii "code", .string (ascii code)), (ascii "message", .string (ascii message))])]

/-- What `diagnosticEmptyCapabilitiesJson` means. -/
def emptyCapabilities : Value :=
  .object [(ascii "backends", .array []), (ascii "guest_abis", .array []), (ascii "images", .array []),
    (ascii "features", .object [(ascii "execution", .bool false), (ascii "network_modes", .array []),
      (ascii "snapshots", .bool false), (ascii "forks", .bool false), (ascii "sse", .bool false)]),
    (ascii "ceilings", .object [])]

theorem isDocument_methodNotAllowed : IsDocument diagnosticMethodNotAllowedJson := by
  refine ⟨errorDocument "method_not_allowed" "method not allowed", by decide, ?_⟩
  rw [diagnosticMethodNotAllowedJson, errorDocument]
  repeat rw [ascii_ofList]
  decide +kernel

theorem isDocument_notFound : IsDocument diagnosticNotFoundJson := by
  refine ⟨errorDocument "not_found" "route not found", by decide, ?_⟩
  rw [diagnosticNotFoundJson, errorDocument]
  repeat rw [ascii_ofList]
  decide +kernel

theorem isDocument_executionUnavailable : IsDocument diagnosticExecutionUnavailableJson := by
  refine ⟨errorDocument "execution_unavailable" "sandbox execution is not implemented in this bootstrap", by decide, ?_⟩
  rw [diagnosticExecutionUnavailableJson, errorDocument]
  repeat rw [ascii_ofList]
  decide +kernel

theorem isDocument_payloadTooLarge : IsDocument diagnosticPayloadTooLargeJson := by
  refine ⟨errorDocument "payload_too_large" "request body exceeds bootstrap limit", by decide, ?_⟩
  rw [diagnosticPayloadTooLargeJson, errorDocument]
  repeat rw [ascii_ofList]
  decide +kernel

theorem isDocument_health : IsDocument diagnosticHealthJson :=
  ⟨.object [(ascii "status", .string (ascii "ok"))], by decide, by decide +kernel⟩

theorem isDocument_notReady : IsDocument diagnosticNotReadyJson := by
  refine ⟨.object [(ascii "status", .string (ascii "not_ready")),
    (ascii "reason", .string (ascii "execution_unavailable"))], by decide, ?_⟩
  rw [diagnosticNotReadyJson]
  repeat rw [ascii_ofList]
  decide +kernel

theorem isDocument_emptyCapabilities : IsDocument diagnosticEmptyCapabilitiesJson := by
  refine ⟨emptyCapabilities, by decide, ?_⟩
  rw [diagnosticEmptyCapabilitiesJson, emptyCapabilities]
  repeat rw [ascii_ofList]
  decide +kernel

theorem isDocument_readRoute {method : Method} {status : Nat} {body : Bytes} (h : IsDocument body) :
    IsDocument (readRoute method status body).body := by
  rw [readRoute]
  split
  · exact h
  · exact isDocument_methodNotAllowed

/-- Every route answers with a document. -/
theorem isDocument_route (method : Method) (target : Bytes) (contentLength : Option Nat) :
    IsDocument (route method target contentLength).body := by
  rw [route]
  split
  · exact isDocument_payloadTooLarge
  · cases classifyPath target with
    | health => exact isDocument_readRoute isDocument_health
    | ready => exact isDocument_readRoute isDocument_notReady
    | capabilities => exact isDocument_readRoute isDocument_emptyCapabilities
    | sandbox => exact isDocument_executionUnavailable
    | exports | operations | images | callbacks | metrics | unknown => exact isDocument_notFound

end Bootstrap

end Supervisor
