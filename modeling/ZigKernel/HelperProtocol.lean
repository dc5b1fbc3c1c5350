import ZigKernel.HelperSessionSound
import ZigKernel.LibRuns

/-! The protocol of a session over any sequence of payloads: hello first and once, nothing behind a shutdown, every
response a document with the id of its request, and a memory that holds the latest ids. -/

namespace SdkHelper

open Zig Json Supervisor Runs
open Zig.Window (push register)
open Zig.Ring (latest)

/-! ### Read off a response -/

/-- A response with `ok` true. -/
def Succeeds (out : Outcome) : Prop :=
  ∃ ms, parse out.payload = some (.object ms) ∧ (ascii "ok", .bool true) ∈ ms

def RejectsWith (out : Outcome) (code : Bytes) : Prop :=
  ∃ ms es, parse out.payload = some (.object ms) ∧ (ascii "ok", .bool false) ∈ ms ∧
    (ascii "error", .object es) ∈ ms ∧ (ascii "code", .string code) ∈ es

/-- A document with one id. -/
def Answers (out : Outcome) (id : Bytes) : Prop :=
  ∃ ms, parse out.payload = some (.object ms) ∧ ∀ v, (ascii "id", v) ∈ ms ↔ v = .string id

section Response

variable {out : Outcome} {id code code' : Bytes}

theorem Grants.succeeds (h : Grants out id) : Succeeds out := by
  obtain ⟨result, hplain, hout⟩ := h
  rw [Succeeds, hout, parse_print hplain]
  exact ⟨_, rfl, by simp⟩

theorem Grants.answers (h : Grants out id) : Answers out id := by
  obtain ⟨result, hplain, hout⟩ := h
  rw [Answers, hout, parse_print hplain]
  refine ⟨_, rfl, fun v => ?_⟩
  have hv : ascii "id" ≠ ascii "v" := by decide
  have hok : ascii "id" ≠ ascii "ok" := by decide
  have hresult : ascii "id" ≠ ascii "result" := by decide
  simp [hv, hok, hresult]

theorem Grants.not_rejects (h : Grants out id) : ¬RejectsWith out code := by
  obtain ⟨result, hplain, hout⟩ := h
  rw [RejectsWith, hout, parse_print hplain]
  rintro ⟨ms, es, hms, hok, -⟩
  cases hms
  have hv : ascii "ok" ≠ ascii "v" := by decide
  have hid : ascii "ok" ≠ ascii "id" := by decide
  have hresult : ascii "ok" ≠ ascii "result" := by decide
  simp [hv, hid, hresult] at hok

theorem Refuses.not_succeeds (h : Refuses out id code) : ¬Succeeds out := by
  obtain ⟨message, hplain, hout⟩ := h
  rw [Succeeds, hout, parse_print hplain]
  rintro ⟨ms, hms, hok⟩
  cases hms
  have hv : ascii "ok" ≠ ascii "v" := by decide
  have hid : ascii "ok" ≠ ascii "id" := by decide
  have herror : ascii "ok" ≠ ascii "error" := by decide
  simp [hv, hid, herror] at hok

theorem Refuses.answers (h : Refuses out id code) : Answers out id := by
  obtain ⟨message, hplain, hout⟩ := h
  rw [Answers, hout, parse_print hplain]
  refine ⟨_, rfl, fun v => ?_⟩
  have hv : ascii "id" ≠ ascii "v" := by decide
  have hok : ascii "id" ≠ ascii "ok" := by decide
  have herror : ascii "id" ≠ ascii "error" := by decide
  simp [hv, hok, herror]

theorem Refuses.rejects_iff (h : Refuses out id code) : RejectsWith out code' ↔ code' = code := by
  obtain ⟨message, hplain, hout⟩ := h
  rw [RejectsWith, hout, parse_print hplain]
  have hv : ascii "error" ≠ ascii "v" := by decide
  have hid : ascii "error" ≠ ascii "id" := by decide
  have hok : ascii "error" ≠ ascii "ok" := by decide
  have hmessage : ascii "code" ≠ ascii "message" := by decide
  constructor
  · rintro ⟨ms, es, hms, -, herror, hcode⟩
    cases hms
    have hes : es = [(ascii "code", .string code), (ascii "message", .string message)] := by
      simpa [hv, hid, hok] using herror
    subst hes
    simpa [hmessage] using hcode
  · rintro rfl
    exact ⟨_, [(ascii "code", .string code'), (ascii "message", .string message)], rfl, by simp, by simp, by simp⟩

end Response

/-! ### Runs -/

/-- A payload and the outcome. -/
abbrev Exchange : Type := Bytes × Outcome

variable (decode : Bytes → Except Bytes Request)

def Step (s : Session) (x : Exchange) (s' : Session) : Prop :=
  handlePayload decode s Helper.maxJsonBytes x.1 = .ok (s', x.2)

def Asks (method : Method) (payload : Bytes) : Prop :=
  ∃ req, decode payload = .ok req ∧ Method.parse req.method = some method

/-- The method was asked for, and succeeded. -/
def Did (method : Method) (x : Exchange) : Prop := Asks decode method x.1 ∧ Succeeds x.2

/-- The ids remembered, in arrival order; a well-formed request adds its id unless it is among the latest. -/
def remembered (payloads : List Bytes) : List Bytes :=
  payloads.foldl (fun ids payload => (wellFormed decode payload).elim ids fun req => register maxSeenIds ids req.id) []

/-- The protocol, for a run with this trace that ends in `s`. -/
structure Protocol (trace : List Exchange) (s : Session) : Prop where
  greeted : Each (fun before x => Succeeds x.2 → ¬Asks decode .hello x.1 → ∃ y ∈ before, Did decode .hello y) trace
  once : trace.Pairwise fun x y => ¬(Did decode .hello x ∧ Did decode .hello y)
  closed : trace.Pairwise fun x y => Did decode .shutdown x → ¬Succeeds y.2
  answered : ∀ x ∈ trace, ∃ id, Answers x.2 id ∧
    (id = ascii "invalid" ∨ ∃ req, decode x.1 = .ok req ∧ id = req.id)
  duplicates : Each (fun before x => ∀ req, wellFormed decode x.1 = some req →
    (RejectsWith x.2 (ascii "duplicate_id") ↔
      req.id ∈ latest maxSeenIds (remembered decode (before.map Prod.fst)))) trace
  window : s.ids = latest maxSeenIds (remembered decode (trace.map Prod.fst))
  nodup : s.ids.Nodup

/-- What a run keeps, with the flags as the successes so far. -/
structure Keeps (trace : List Exchange) (s : Session) : Prop extends Protocol decode trace s where
  sized : s.Sized
  helloDone : s.helloDone = true ↔ ∃ x ∈ trace, Did decode .hello x
  shuttingDown : s.shuttingDown = true ↔ ∃ x ∈ trace, Did decode .shutdown x

section Step

variable {decode} {s s' t : Session} {payload : Bytes} {out : Outcome} {trace : List Exchange} {req : Request}
  {method method' : Method}

theorem Asks.unique (h : Asks decode method payload) (h' : Asks decode method' payload) : method = method' := by
  obtain ⟨req, hdecode, hmethod⟩ := h
  obtain ⟨req', hdecode', hmethod'⟩ := h'
  rw [hdecode] at hdecode'
  cases hdecode'
  rw [hmethod] at hmethod'
  exact Option.some.inj hmethod'

/-- What one exchange says about the flags: nothing, or a success of a method that was due. -/
theorem Served.flags (h : Served s req s' out) (hdecode : decode payload = .ok req) :
    (¬Succeeds out ∧ s'.helloDone = s.helloDone ∧ s'.shuttingDown = s.shuttingDown) ∨
      ∃ method, Asks decode method payload ∧ Succeeds out ∧ s.shuttingDown = false ∧ s'.helloDone = true ∧
        (method = .hello ↔ s.helloDone = false) ∧ (s'.shuttingDown = true ↔ method = .shutdown) := by
  cases h with
  | refused h hcode => exact Or.inl ⟨h.not_succeeds, rfl, rfl⟩
  | hello h hmethod hopen hdone =>
      exact Or.inr ⟨.hello, ⟨req, hdecode, hmethod⟩, h.succeeds, hopen, rfl, by simp [hdone], by simp [hopen]⟩
  | read h hmethod hhello hshutdown hopen hdone =>
      exact Or.inr ⟨_, ⟨req, hdecode, hmethod⟩, h.succeeds, hopen, hdone, by simp [hdone, hhello],
        by simp [hopen, hshutdown]⟩
  | shutdown h hmethod hopen hdone =>
      exact Or.inr ⟨.shutdown, ⟨req, hdecode, hmethod⟩, h.succeeds, hopen, hdone, by simp [hdone], by simp⟩

theorem Served.memory (h : Served s req s' out) : s'.ids = s.ids ∧ (s.Sized → s'.Sized) := by
  cases h with
  | refused => exact ⟨rfl, id⟩
  | hello => exact ⟨rfl, fun h => ⟨h.length, h.seenLen, h.slots, h.lens⟩⟩
  | read => exact ⟨rfl, id⟩
  | shutdown => exact ⟨rfl, fun h => ⟨h.length, h.seenLen, h.slots, h.lens⟩⟩

theorem Served.answers (h : Served s req s' out) :
    Answers out req.id ∧ ¬RejectsWith out (ascii "duplicate_id") := by
  cases h with
  | refused h hcode => exact ⟨h.answers, fun hrejects => hcode (h.rejects_iff.mp hrejects).symm⟩
  | hello h => exact ⟨h.answers, h.not_rejects⟩
  | read h => exact ⟨h.answers, h.not_rejects⟩
  | shutdown h => exact ⟨h.answers, h.not_rejects⟩

theorem Handled.flags (h : Handled decode s payload s' out) :
    (¬Succeeds out ∧ s'.helloDone = s.helloDone ∧ s'.shuttingDown = s.shuttingDown) ∨
      ∃ method, Asks decode method payload ∧ Succeeds out ∧ s.shuttingDown = false ∧ s'.helloDone = true ∧
        (method = .hello ↔ s.helloDone = false) ∧ (s'.shuttingDown = true ↔ method = .shutdown) := by
  cases h with
  | malformed _ h => exact Or.inl ⟨h.not_succeeds, rfl, rfl⟩
  | duplicate _ _ h => exact Or.inl ⟨h.not_succeeds, rfl, rfl⟩
  | served hwell _ ht h =>
      have hflags := h.flags (wellFormed_eq_some hwell).1
      rwa [ht.helloDone, ht.shuttingDown] at hflags

theorem Handled.sized (h : Handled decode s payload s' out) (hs : s.Sized) : s'.Sized := by
  cases h with
  | malformed => exact hs
  | duplicate => exact hs
  | served _ _ ht h => exact h.memory.2 ht.sized

theorem Handled.answered (h : Handled decode s payload s' out) :
    ∃ id, Answers out id ∧ (id = ascii "invalid" ∨ ∃ req, decode payload = .ok req ∧ id = req.id) := by
  cases h with
  | malformed _ h hid => exact ⟨_, h.answers, hid⟩
  | duplicate hwell _ h => exact ⟨_, h.answers, Or.inr ⟨_, (wellFormed_eq_some hwell).1, rfl⟩⟩
  | served hwell _ _ h => exact ⟨_, h.answers.1, Or.inr ⟨_, (wellFormed_eq_some hwell).1, rfl⟩⟩

theorem Handled.duplicates (h : Handled decode s payload s' out) (hwell : wellFormed decode payload = some req) :
    RejectsWith out (ascii "duplicate_id") ↔ req.id ∈ s.ids := by
  cases h with
  | malformed hnone =>
      rw [hnone] at hwell
      cases hwell
  | duplicate hsome hseen h =>
      rw [hsome] at hwell
      cases hwell
      exact iff_of_true (h.rejects_iff.mpr rfl) hseen
  | served hsome hseen _ h =>
      rw [hsome] at hwell
      cases hwell
      exact iff_of_false h.answers.2 hseen

instance : NeZero maxSeenIds := ⟨by decide⟩

theorem remembered_snoc (payloads : List Bytes) (payload : Bytes) :
    remembered decode (payloads ++ [payload]) = (wellFormed decode payload).elim (remembered decode payloads)
      fun req => register maxSeenIds (remembered decode payloads) req.id := by
  rw [remembered, List.foldl_append]
  rfl

/-- The memory follows the ids remembered. -/
theorem Handled.window {payloads : List Bytes} (h : Handled decode s payload s' out)
    (hs : s.ids = latest maxSeenIds (remembered decode payloads)) :
    s'.ids = latest maxSeenIds (remembered decode (payloads ++ [payload])) := by
  rw [remembered_snoc]
  cases h with
  | malformed hnone => rw [hnone, Option.elim_none, hs]
  | duplicate hsome hseen =>
      rw [hs] at hseen
      rw [hsome, Option.elim_some, Window.register_of_mem hseen, hs]
  | served hsome hseen ht h =>
      rw [h.memory.1, ht.ids]
      rw [hs] at hseen ⊢
      rw [hsome, Option.elim_some, Window.register_of_not_mem hseen, Window.latest_append]

theorem Handled.nodup (h : Handled decode s payload s' out) (hs : s.ids.Nodup) : s'.ids.Nodup := by
  cases h with
  | malformed => exact hs
  | duplicate => exact hs
  | served _ hseen ht h =>
      rw [h.memory.1, ht.ids]
      exact Window.nodup_push hs hseen

theorem exists_mem_snoc {p : Exchange → Prop} {x : Exchange} :
    (∃ y ∈ trace ++ [x], p y) ↔ (∃ y ∈ trace, p y) ∨ p x := by
  simp [or_and_right, exists_or]

/-- A success finds the session open, and hello done unless it is hello. -/
theorem Keeps.snoc (h : Keeps decode trace s) (hstep : Handled decode s payload s' out) :
    Keeps decode (trace ++ [(payload, out)]) s' := by
  have hmap : (trace ++ [(payload, out)]).map Prod.fst = trace.map Prod.fst ++ [payload] := List.map_append
  have hshared : Each (fun before x => ∀ req, wellFormed decode x.1 = some req →
      (RejectsWith x.2 (ascii "duplicate_id") ↔
        req.id ∈ latest maxSeenIds (remembered decode (before.map Prod.fst)))) (trace ++ [(payload, out)]) := by
    refine h.duplicates.snoc fun req hwell => ?_
    rw [hstep.duplicates hwell, h.window]
  have hanswered : ∀ x ∈ trace ++ [(payload, out)], ∃ id, Answers x.2 id ∧
      (id = ascii "invalid" ∨ ∃ req, decode x.1 = .ok req ∧ id = req.id) := by
    intro x hx
    rcases List.mem_append.mp hx with hx | hx
    · exact h.answered x hx
    · rw [List.mem_singleton.mp hx]
      exact hstep.answered
  have hwindow := hstep.window h.window
  rw [← hmap] at hwindow
  rcases hstep.flags with ⟨hfails, hhello, hshutdown⟩ | ⟨method, hasks, hout, hopen, hdone, hhello, hshutdown⟩
  · have hnot : ∀ m, ¬Did decode m (payload, out) := fun m hdid => hfails hdid.2
    refine ⟨⟨h.greeted.snoc fun hout => absurd hout hfails, ?_, ?_, hanswered, hshared, hwindow, hstep.nodup h.nodup⟩,
      hstep.sized h.sized, ?_, ?_⟩
    · exact pairwise_snoc h.once fun x _ hboth => hnot _ hboth.2
    · exact pairwise_snoc h.closed fun x _ _ => hfails
    · rw [hhello, h.helloDone, exists_mem_snoc, or_iff_left (hnot _)]
    · rw [hshutdown, h.shuttingDown, exists_mem_snoc, or_iff_left (hnot _)]
  · have hopened : ¬∃ x ∈ trace, Did decode .shutdown x := by
      rw [← h.shuttingDown, hopen]
      exact Bool.false_ne_true
    have hgreeted : ¬Asks decode .hello payload → ∃ x ∈ trace, Did decode .hello x := by
      intro hnot
      rw [← h.helloDone, ← Bool.not_eq_false]
      exact fun hnew => hnot (hhello.mpr hnew ▸ hasks)
    refine ⟨⟨h.greeted.snoc fun _ => hgreeted, ?_, ?_, hanswered, hshared, hwindow, hstep.nodup h.nodup⟩,
      hstep.sized h.sized, ?_, ?_⟩
    · refine pairwise_snoc h.once fun x hx hboth => ?_
      have hnew : s.helloDone = false := hhello.mp (hasks.unique hboth.2.1)
      exact Bool.false_ne_true (hnew.symm.trans (h.helloDone.mpr ⟨x, hx, hboth.1⟩))
    · exact pairwise_snoc h.closed fun x hx hdid => absurd ⟨x, hx, hdid⟩ hopened
    · refine iff_of_true hdone (exists_mem_snoc.mpr ?_)
      by_cases hasked : Asks decode .hello payload
      · exact Or.inr ⟨hasked, hout⟩
      · exact Or.inl (hgreeted hasked)
    · rw [hshutdown, exists_mem_snoc, or_iff_right hopened]
      exact ⟨fun hmethod => ⟨hmethod ▸ hasks, hout⟩, fun hdid => hasks.unique hdid.1⟩

theorem Keeps.init (h : s.Fresh) : Keeps decode [] s := by
  refine ⟨⟨.nil, .nil, .nil, fun x hx => absurd hx List.not_mem_nil, .nil, h.ids, ?_⟩, h.sized, ?_, ?_⟩
  · rw [h.ids]
    exact List.nodup_nil
  · simp [h.helloDone]
  · simp [h.shuttingDown]

end Step

/-- Every run of a fresh session follows the protocol, and no payload stops it. -/
theorem session_protocol {s₀ s : Session} {trace : List Exchange} (hfresh : s₀.Fresh)
    (hrun : Run (Step decode) s₀ trace s) :
    Protocol decode trace s ∧ ∀ payload, ∃ out s', Step decode s (payload, out) s' := by
  have hkeeps : Keeps decode trace s := by
    refine hrun.history (P := Keeps decode) (Keeps.init hfresh) fun trace t x u _ ht hstep => ?_
    obtain ⟨u', out, hhandled, hcases⟩ := handlePayload_handled ht.sized decode x.1
    rw [Step, hhandled] at hstep
    cases hstep
    exact ht.snoc hcases
  refine ⟨hkeeps.toProtocol, fun payload => ?_⟩
  obtain ⟨s', out, hhandled, -⟩ := handlePayload_handled hkeeps.sized decode payload
  exact ⟨out, s', hhandled⟩

def sampleSession : Session := ⟨List.replicate maxSeenIds ⟨List.replicate Contract.maxIdBytes 0, 0⟩, 0, false, false⟩

def samplePayload : Bytes := ascii "\x7b\"v\":\"sdk-helper/1\",\"id\":\"req_1\",\"method\":\"hello\"\x7d"

/-- The decoder on the sample payload. -/
def sampleDecode (payload : Bytes) : Except Bytes Request :=
  if payload = samplePayload then .ok ⟨ascii "sdk-helper/1", ascii "req_1", ascii "hello", none⟩
  else .error (ascii "SyntaxError")

def sampleSlot : IdSlot := ⟨ascii "req_1" ++ List.replicate 123 0, 5⟩

def sampleAfter : Session := ⟨sampleSession.seen.set 0 sampleSlot, 1, false, true⟩

def sampleHello : Outcome := { payload := okText (ascii "req_1") helloResult }

def sampleDuplicate : Outcome :=
  fail Helper.maxJsonBytes (ascii "req_1") (ascii "duplicate_id") (ascii "request id was already used")
    (ascii "duplicate_id")

theorem session_protocol_sample :
    Protocol sampleDecode [(samplePayload, sampleHello), (samplePayload, sampleDuplicate)] sampleAfter := by
  have hfresh : sampleSession.Fresh := ⟨rfl, fun slot hslot => by rw [List.eq_of_mem_replicate hslot]; rfl, rfl, rfl, rfl⟩
  have hhello : Step sampleDecode sampleSession (samplePayload, sampleHello) sampleAfter := by
    rw [Step]
    decide +kernel
  have hduplicate : Step sampleDecode sampleAfter (samplePayload, sampleDuplicate) sampleAfter := by
    rw [Step]
    decide +kernel
  exact (session_protocol sampleDecode hfresh (.cons hhello (.single hduplicate))).1

end SdkHelper
