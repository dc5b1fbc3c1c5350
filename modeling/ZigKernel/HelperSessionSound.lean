import ZigKernel.HelperSessionMemory

/-! What `handlePayload` does with one payload: every response is a document with the id of its request, and the
session moves in four ways. -/

namespace SdkHelper

open Zig Json Supervisor
open Zig.Window (push register)
open Zig.Ring (latest)

variable {s s' t : Session} {id code message note : Bytes} {out : Outcome} {req : Request}

/-! ### What a response says -/

def okValue (id : Bytes) (result : Value) : Value :=
  .object [(ascii "v", .string protocolVersion), (ascii "id", .string id), (ascii "ok", .bool true),
    (ascii "result", result)]

def errorValue (id code message : Bytes) : Value :=
  .object [(ascii "v", .string protocolVersion), (ascii "id", .string id), (ascii "ok", .bool false),
    (ascii "error", .object [(ascii "code", .string code), (ascii "message", .string message)])]

/-- The response is `ok` with this id. -/
def Grants (out : Outcome) (id : Bytes) : Prop :=
  ∃ result, plain (okValue id result) = true ∧ out.payload = print (okValue id result)

/-- The response is an error with this id and code. -/
def Refuses (out : Outcome) (id code : Bytes) : Prop :=
  ∃ message, plain (errorValue id code message) = true ∧ out.payload = print (errorValue id code message)

/-- Texts of an error that need no escape and leave room for an id. -/
abbrev Short (code message : Bytes) : Prop :=
  plainText code = true ∧ plainText message = true ∧ code.length + message.length ≤ 200

theorem plainText_iff : plainText id = true ↔ Contract.Plain id := by
  rw [plainText, List.all_eq_true]
  simp only [Bool.and_eq_true, decide_eq_true_eq]
  rfl

theorem plainText_requestId (h : Contract.isOpaqueId id = true) : plainText id = true :=
  plainText_iff.mpr (Contract.plain_requestId h)

theorem length_requestId (h : Contract.isOpaqueId id = true) : id.length ≤ Contract.maxIdBytes := by
  rw [Contract.isOpaqueId] at h
  split_ifs at h with hlength
  omega

theorem stringify_plain (h : plainText id = true) : stringify id = quote :: (id ++ [quote]) := by
  rw [stringify, if_pos (utf8_plain h), Contract.quoted, Contract.escape_plain (plainText_iff.mp h)]

theorem okText_eq (id : Bytes) (result : Value) : okText id (print result) = print (okValue id result) := by
  simp only [okText, okValue, print, printMembers, List.append_assoc, List.cons_append, List.nil_append]
  rfl

theorem errorText_eq (hid : Contract.isOpaqueId id = true) (h : Short code message) :
    errorText id code message = print (errorValue id code message) := by
  rw [errorText, echoId, if_pos hid, stringify_plain (plainText_requestId hid), stringify_plain h.1,
    stringify_plain h.2.1, stringify_plain (show plainText protocolVersion = true by decide)]
  simp only [errorValue, print, printMembers, List.append_assoc, List.cons_append, List.nil_append]
  rfl

theorem bufPrint_ok {result : Bytes} (hid : Contract.isOpaqueId id = true) (hresult : result.length ≤ 60000) :
    bufPrint Helper.maxJsonBytes (okText id result) = some (okText id result) := by
  have hlength : (okText id result).length = (okText [] []).length + id.length + result.length := by
    simp only [okText, List.length_append, List.length_nil]
    omega
  have hfixed : (okText [] []).length ≤ 100 := by decide
  have hbound : id.length ≤ 128 := length_requestId hid
  refine if_pos ?_
  rw [hlength, Helper.maxJsonBytes]
  omega

theorem bufPrint_error (hid : Contract.isOpaqueId id = true) (h : Short code message) :
    bufPrint Helper.maxJsonBytes (errorText id code message) = some (print (errorValue id code message)) := by
  have hlength : (print (errorValue id code message)).length =
      (print (errorValue [] [] [])).length + id.length + code.length + message.length := by
    simp only [errorValue, print, printMembers, List.length_append, List.length_cons, List.length_nil]
    omega
  have hfixed : (print (errorValue [] [] [])).length ≤ 100 := by decide
  have hbound : id.length ≤ 128 := length_requestId hid
  have htexts := h.2.2
  rw [errorText_eq hid h]
  refine if_pos ?_
  rw [hlength, Helper.maxJsonBytes]
  omega

theorem plain_errorValue (hid : plainText id = true) (h : Short code message) :
    plain (errorValue id code message) = true := by
  simp only [errorValue, plain, plainMembers, hid, h.1, h.2.1, Bool.and_true]
  decide

theorem plain_okValue {result : Value} (hid : plainText id = true) (h : plain result = true) :
    plain (okValue id result) = true := by
  simp only [okValue, plain, plainMembers, hid, h, Bool.and_true]
  decide

theorem refuses_fail (hid : Contract.isOpaqueId id = true) (h : Short code message) :
    Refuses (fail Helper.maxJsonBytes id code message note) id code := by
  refine ⟨message, plain_errorValue (plainText_requestId hid) h, ?_⟩
  rw [fail, writeError, bufPrint_error hid h]
  rfl

theorem grants_print {result : Value} (hid : Contract.isOpaqueId id = true) (h : plain result = true)
    (hout : out.payload = okText id (print result)) : Grants out id :=
  ⟨result, plain_okValue (plainText_requestId hid) h, hout.trans (okText_eq id result)⟩

/-! ### The four methods -/

theorem strip_document {body : Bytes} (h : Bootstrap.IsDocument body) :
    ∃ v, plain v = true ∧ stripTrailingNewline body = print v := by
  obtain ⟨v, hv, rfl⟩ := h
  refine ⟨v, hv, ?_⟩
  rw [stripTrailingNewline, List.getLast?_append, List.getLast?_singleton, Option.some_or, if_pos rfl,
    List.dropLast_concat]

section Routes

open Supervisor.Contract Supervisor.Bootstrap

theorem route_health : route .get (ascii "/healthz") none = { status := 200, body := diagnosticHealthJson } := by
  have hclass : classifyPath (ascii "/healthz") = .health := by
    rw [classifyPath]
    repeat rw [ascii_ofList]
    decide +kernel
  rw [route, if_neg (by simp), hclass]
  rfl

theorem route_ready : route .get (ascii "/readyz") none = { status := 503, body := diagnosticNotReadyJson } := by
  have hclass : classifyPath (ascii "/readyz") = .ready := by
    rw [classifyPath]
    repeat rw [ascii_ofList]
    decide +kernel
  rw [route, if_neg (by simp), hclass]
  rfl

theorem route_capabilities :
    route .get (ascii "/v1/capabilities") none = { status := 200, body := diagnosticEmptyCapabilitiesJson } := by
  have hclass : classifyPath (ascii "/v1/capabilities") = .capabilities := by
    rw [classifyPath]
    repeat rw [ascii_ofList]
    decide +kernel
  rw [route, if_neg (by simp), hclass]
  rfl

theorem route_sandboxes :
    route .post (ascii "/v1/sandboxes") none = { status := 501, body := diagnosticExecutionUnavailableJson } := by
  have hclass : classifyPath (ascii "/v1/sandboxes") = .sandbox := by
    rw [classifyPath]
    repeat rw [ascii_ofList]
    decide +kernel
  rw [route, if_neg (by simp), hclass]

end Routes

theorem grants_hello (hid : Contract.isOpaqueId id = true) : Grants (hello Helper.maxJsonBytes id) id := by
  have hresult : helloResult = print (.object [(ascii "protocol", .string protocolVersion),
      (ascii "contract_version", .string contractVersion), (ascii "api_version", .string apiVersion),
      (ascii "helper", .string helperName), (ascii "helper_version", .string helperVersion)]) := by
    decide +kernel
  rw [hello, bufPrint_ok hid (by decide +kernel), hresult]
  exact grants_print hid (by decide) rfl

theorem grants_diagnostics (hid : Contract.isOpaqueId id = true) : Grants (diagnostics Helper.maxJsonBytes id) id := by
  obtain ⟨health, hhealth, hhealthText⟩ := strip_document Bootstrap.isDocument_health
  obtain ⟨ready, hready, hreadyText⟩ := strip_document Bootstrap.isDocument_notReady
  obtain ⟨caps, hcaps, hcapsText⟩ := strip_document Bootstrap.isDocument_emptyCapabilities
  have hresult : diagnosticsResult { status := 200, body := Contract.diagnosticHealthJson }
      { status := 503, body := Contract.diagnosticNotReadyJson }
      { status := 200, body := Contract.diagnosticEmptyCapabilitiesJson } =
      print (.object [(ascii "health", health), (ascii "ready", ready), (ascii "capabilities", caps),
        (ascii "http", .object [(ascii "health", .number (decimal 200)), (ascii "ready", .number (decimal 503)),
          (ascii "capabilities", .number (decimal 200))])]) := by
    rw [diagnosticsResult, hhealthText, hreadyText, hcapsText]
    simp only [print, printMembers, List.append_assoc, List.cons_append, List.nil_append]
    rfl
  have hlength : (diagnosticsResult { status := 200, body := Contract.diagnosticHealthJson }
      { status := 503, body := Contract.diagnosticNotReadyJson }
      { status := 200, body := Contract.diagnosticEmptyCapabilitiesJson }).length ≤ 60000 := by
    rw [diagnosticsResult, Contract.diagnosticHealthJson, Contract.diagnosticNotReadyJson,
      Contract.diagnosticEmptyCapabilitiesJson]
    repeat rw [ascii_ofList]
    decide +kernel
  rw [diagnostics, route_health, route_ready, route_capabilities, bufPrint_ok hid hlength, hresult]
  refine grants_print hid ?_ rfl
  simp only [plain, plainMembers, hhealth, hready, hcaps, Bool.and_true]
  decide

theorem grants_createUnavailable (hid : Contract.isOpaqueId id = true) :
    Grants (createUnavailable Helper.maxJsonBytes id) id := by
  obtain ⟨body, hbody, htext⟩ := strip_document Bootstrap.isDocument_executionUnavailable
  have hresult : createResult { status := 501, body := Contract.diagnosticExecutionUnavailableJson } =
      print (.object [(ascii "status", .number (decimal 501)), (ascii "body", body)]) := by
    rw [createResult, htext]
    simp only [print, printMembers, List.append_assoc, List.cons_append]
    rfl
  have hlength : (createResult { status := 501, body := Contract.diagnosticExecutionUnavailableJson }).length ≤ 60000 := by
    rw [createResult, Contract.diagnosticExecutionUnavailableJson]
    repeat rw [ascii_ofList]
    decide +kernel
  rw [createUnavailable, route_sandboxes, bufPrint_ok hid hlength, hresult]
  refine grants_print hid ?_ rfl
  simp only [plain, plainMembers, hbody, Bool.and_true]
  decide

theorem shutdown_eq (hid : Contract.isOpaqueId id = true) :
    (shutdown s Helper.maxJsonBytes id).1 = { s with shuttingDown := true } ∧
      Grants (shutdown s Helper.maxJsonBytes id).2 id := by
  have hresult : ascii "\x7b\"shutdown\":true\x7d" = print (.object [(ascii "shutdown", .bool true)]) := by decide
  rw [shutdown, bufPrint_ok hid (by decide), hresult]
  exact ⟨rfl, grants_print hid (by decide) rfl⟩

/-! ### One payload -/

/-- What `dispatch` does with a request that was remembered. -/
inductive Served (s : Session) (req : Request) : Session → Outcome → Prop where
  | refused {code : Bytes} {out : Outcome} (h : Refuses out req.id code) (hcode : code ≠ ascii "duplicate_id") : Served s req s out
  | hello {out : Outcome} (h : Grants out req.id) (hmethod : Method.parse req.method = some .hello)
      (hopen : s.shuttingDown = false) (hdone : s.helloDone = false) : Served s req { s with helloDone := true } out
  | read {method : Method} {out : Outcome} (h : Grants out req.id) (hmethod : Method.parse req.method = some method)
      (hhello : method ≠ .hello) (hshutdown : method ≠ .shutdown) (hopen : s.shuttingDown = false)
      (hdone : s.helloDone = true) : Served s req s out
  | shutdown {out : Outcome} (h : Grants out req.id) (hmethod : Method.parse req.method = some .shutdown)
      (hopen : s.shuttingDown = false) (hdone : s.helloDone = true) :
      Served s req { s with shuttingDown := true } out

theorem served_fail (hid : Contract.isOpaqueId req.id = true) (h : Short code message)
    (hcode : code ≠ ascii "duplicate_id") :
    Served s req s (fail Helper.maxJsonBytes req.id code message note) :=
  .refused (refuses_fail hid h) hcode

theorem dispatch_served (hid : Contract.isOpaqueId req.id = true) :
    Served s req (dispatch s Helper.maxJsonBytes req).1 (dispatch s Helper.maxJsonBytes req).2 := by
  rw [dispatch]
  cases hmethod : Method.parse req.method with
  | none => exact served_fail hid (by decide) (by decide)
  | some method =>
      dsimp only
      split_ifs with hopen hagain hfirst hparams
      · exact served_fail hid (by decide) (by decide)
      · exact served_fail hid (by decide) (by decide)
      · exact served_fail hid (by decide) (by decide)
      · exact served_fail hid (by decide) (by decide)
      rw [Bool.not_eq_true] at hopen
      have hdone : method ≠ .hello → s.helloDone = true := fun hne => not_not.mp fun hdone => hfirst ⟨hne, hdone⟩
      cases method with
      | hello =>
          have hnew : s.helloDone = false := Bool.eq_false_iff.mpr fun hdone => hagain ⟨rfl, hdone⟩
          exact .hello (grants_hello hid) hmethod hopen hnew
      | diagnostics =>
          exact .read (grants_diagnostics hid) hmethod (by decide) (by decide) hopen (hdone (by decide))
      | createUnavailable =>
          exact .read (grants_createUnavailable hid) hmethod (by decide) (by decide) hopen (hdone (by decide))
      | shutdown =>
          rw [perform, (shutdown_eq hid).1]
          exact .shutdown (shutdown_eq hid).2 hmethod hopen (hdone (by decide))

/-- The request of a payload that passes the checks in front of the memory. -/
def wellFormed (decode : Bytes → Except Bytes Request) (payload : Bytes) : Option Request :=
  if payload.length = 0 ∨ payload.length > Helper.maxFrameBytes ∨ ¬Utf8.Valid payload then none
  else
    match decode payload with
    | .error _ => none
    | .ok req => if Contract.isOpaqueId req.id ∧ req.v = protocolVersion then some req else none

variable {decode : Bytes → Except Bytes Request} {payload : Bytes}

/-- What `handlePayload` does. -/
inductive Handled (decode : Bytes → Except Bytes Request) (s : Session) (payload : Bytes) : Session → Outcome → Prop where
  | malformed {id code : Bytes} {out : Outcome} (hwell : wellFormed decode payload = none) (h : Refuses out id code)
      (hid : id = ascii "invalid" ∨ ∃ req, decode payload = .ok req ∧ id = req.id) : Handled decode s payload s out
  | duplicate {req : Request} {out : Outcome} (hwell : wellFormed decode payload = some req) (hseen : req.id ∈ s.ids)
      (h : Refuses out req.id (ascii "duplicate_id")) : Handled decode s payload s out
  | served {req : Request} {t s' : Session} {out : Outcome} (hwell : wellFormed decode payload = some req)
      (hseen : req.id ∉ s.ids) (ht : Remembers s t (push maxSeenIds s.ids req.id)) (h : Served t req s' out) : Handled decode s payload s' out

theorem wellFormed_eq_some (h : wellFormed decode payload = some req) :
    decode payload = .ok req ∧ Contract.isOpaqueId req.id = true := by
  rw [wellFormed] at h
  split_ifs at h
  cases hdecode : decode payload with
  | error name =>
      rw [hdecode] at h
      cases h
  | ok found =>
      rw [hdecode] at h
      dsimp only at h
      split_ifs at h with hchecks
      cases h
      exact ⟨rfl, hchecks.1⟩

theorem short_jsonErrorCode (name : Bytes) : Short (jsonErrorCode name) (ascii "request json rejected") := by
  rw [jsonErrorCode]
  split_ifs <;> decide

/-- A request that passed both checks is remembered or known. -/
theorem handleRequest_handled (h : s.Sized) (hwell : wellFormed decode payload = some req)
    (hid : Contract.isOpaqueId req.id = true) (hv : req.v = protocolVersion) :
    ∃ s' out, handleRequest s Helper.maxJsonBytes req = .ok (s', out) ∧ Handled decode s payload s' out := by
  rw [handleRequest, if_neg (not_not.mpr hid), if_neg (not_not.mpr hv)]
  rcases rememberId_eq h (length_requestId hid) with ⟨hseen, hrun⟩ | ⟨hseen, t, hrun, ht⟩
  · rw [hrun]
    exact ⟨_, _, rfl, .duplicate hwell hseen (refuses_fail hid (by decide))⟩
  · rw [hrun]
    exact ⟨_, _, rfl, .served hwell hseen ht (dispatch_served hid)⟩

theorem handlePayload_handled (h : s.Sized) (decode : Bytes → Except Bytes Request) (payload : Bytes) :
    ∃ s' out, handlePayload decode s Helper.maxJsonBytes payload = .ok (s', out) ∧ Handled decode s payload s' out := by
  have hinvalid : Contract.isOpaqueId (ascii "invalid") = true := by decide
  rw [handlePayload]
  by_cases hlength : payload.length = 0 ∨ payload.length > Helper.maxFrameBytes
  · have hwell : wellFormed decode payload = none := if_pos (or_assoc.mp (Or.inl hlength))
    rw [if_pos hlength]
    exact ⟨_, _, rfl, .malformed hwell (refuses_fail hinvalid (by decide)) (Or.inl rfl)⟩
  rw [if_neg hlength]
  by_cases hutf8 : Utf8.Valid payload
  · have hpass : ¬(payload.length = 0 ∨ payload.length > Helper.maxFrameBytes ∨ ¬Utf8.Valid payload) :=
      fun hfails => (or_assoc.mpr hfails).elim hlength fun hnot => hnot hutf8
    rw [if_neg (not_not.mpr hutf8)]
    cases hdecode : decode payload with
    | error name =>
        have hwell : wellFormed decode payload = none := by rw [wellFormed, if_neg hpass, hdecode]
        exact ⟨_, _, rfl, .malformed hwell (refuses_fail hinvalid (short_jsonErrorCode name)) (Or.inl rfl)⟩
    | ok req =>
        have hwell : wellFormed decode payload =
            if Contract.isOpaqueId req.id ∧ req.v = protocolVersion then some req else none := by
          rw [wellFormed, if_neg hpass, hdecode]
        by_cases hid : Contract.isOpaqueId req.id = true
        · by_cases hv : req.v = protocolVersion
          · exact handleRequest_handled h (hwell.trans (if_pos ⟨hid, hv⟩)) hid hv
          · dsimp only
            rw [handleRequest, if_neg (not_not.mpr hid), if_pos hv]
            exact ⟨_, _, rfl, .malformed (hwell.trans (if_neg fun hboth => hv hboth.2)) (refuses_fail hid (by decide))
              (Or.inr ⟨req, hdecode, rfl⟩)⟩
        · dsimp only
          rw [handleRequest, if_pos hid]
          exact ⟨_, _, rfl, .malformed (hwell.trans (if_neg fun hboth => hid hboth.1))
            (refuses_fail hinvalid (by decide)) (Or.inl rfl)⟩
  · have hwell : wellFormed decode payload = none := if_pos (Or.inr (Or.inr hutf8))
    rw [if_pos hutf8]
    exact ⟨_, _, rfl, .malformed hwell (refuses_fail hinvalid (by decide)) (Or.inl rfl)⟩

end SdkHelper
