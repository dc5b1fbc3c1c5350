import Mathlib.Algebra.Group.Nat.Defs
import Mathlib.Tactic.Common

/-! `transports/helper.ts`: the client's end of the pipe, `OwnedHelperTransport`. Its methods run up to the next
`await` without interruption, so these pieces are the steps here, and nothing is said of the order in which they
come: a caller, a frame, a timer, an abort, the exit of the helper and the pieces behind an `await` may be next
whenever they are due. The values that the helper sends are not looked into. -/

namespace Helper.Transport

variable {V : Type}

/-- `HELPER_ID_REPLAY_WINDOW` -/
def helperIdReplayWindow : Nat := 32

/-- `Number.MAX_SAFE_INTEGER` -/
def maxRequestSequence : Nat := 2 ^ 53 - 1

inductive LocalRuntimeState where
  | starting
  /-- `"open"` -/
  | opened
  | closing
  | closed
  | failed
  deriving DecidableEq

/-- Who sends a request: `open` its hello, `request` what its caller asks for, and `close` the shutdown. -/
inductive Origin where
  | opening
  | requesting
  | closing
  deriving DecidableEq

/-- How a promise settles; of an error its code is kept. -/
inductive Settled (V : Type) where
  | fulfilled (v : V)
  | rejected (code : String)
  deriving DecidableEq

inductive HelperResponse (V : Type) where
  | ok (id : String) (result : V)
  | error (id code message : String)

def HelperResponse.id : HelperResponse V → String
  | .ok id _ => id
  | .error id _ _ => id

def HelperResponse.settled : HelperResponse V → Settled V
  | .ok _ result => .fulfilled result
  | .error _ code _ => .rejected code

/-- A frame as `parseHelperResponse` takes it: a response, or the code of the error thrown. -/
abbrev Frame (V : Type) : Type := Except String (HelperResponse V)

/-- One call of `requestWithTimeout` that got an id, with its deferred objects. -/
structure Request (V : Type) where
  /-- The call of `open` it belongs to. -/
  session : Nat
  seq : Nat
  origin : Origin
  reply : Option (Settled V) := none
  cancel : Option String := none
  write : Option (Except String Unit) := none
  /-- `Promise.race` -/
  race : Option (Settled V) := none
  /-- The piece behind the race has run, and waits for the cleanup. -/
  joining : Bool := false
  /-- The promise of the call. -/
  outcome : Option (Settled V) := none
  /-- The caller has seen the outcome. -/
  returned : Bool := false

def Request.id (r : Request V) : String := "req_" ++ toString r.seq

/-- `OnceDeferred` -/
def Request.settleReply (r : Request V) (x : Settled V) : Request V := { r with reply := r.reply.or (some x) }

def Request.rejectCancel (r : Request V) (code : String) : Request V := { r with cancel := r.cancel.or (some code) }

/-- How the reply and the write settle `Promise.all`. -/
def Request.io (r : Request V) : Option (Settled V) :=
  match r.write, r.reply with
  | some (.error code), _ => some (.rejected code)
  | _, some (.rejected code) => some (.rejected code)
  | some (.ok ()), some (.fulfilled v) => some (.fulfilled v)
  | _, _ => none

/-- The two closures of the source settle the reply of the request. -/
structure Pending where
  id : String
  request : Nat
  deriving DecidableEq

inductive Cleanup where
  | idle
  | running
  | finished
  deriving DecidableEq

/-- Where `closeInner` waits. -/
inductive Closing where
  | idle
  /-- For the shutdown request, or for the error of a request that could not start. -/
  | shutdown (request : Option Nat)
  | cleanup (wasFailed : Bool)
  deriving DecidableEq

structure OwnedHelperTransport (V : Type) where
  state : LocalRuntimeState := .closed
  owned : Bool := false
  exitConfirmed : Bool := false
  /-- `stdoutReader` -/
  reading : Bool := false
  /-- `abortCleanup` -/
  listening : Bool := false
  /-- The frames of the chunks read and not dispatched yet. -/
  inFlight : List (Frame V) := []
  pending : Option Pending := none
  inflight : Option Nat := none
  seq : Nat := 0
  seenCompletions : List String := []
  failError : Option String := none
  cleanupTask : Cleanup := .idle
  closePromise : Closing := .idle
  requestCancel : Option Nat := none
  /-- Calls of `open` that wait for an earlier cleanup. -/
  waitingOpens : Nat := 0
  /-- The number of sessions so far. -/
  session : Nat := 0
  /-- Every request so far. -/
  requests : List (Request V) := []

namespace OwnedHelperTransport

/-! ### Synchronous parts -/

def update (s : OwnedHelperTransport V) (i : Nat) (f : Request V → Request V) : OwnedHelperTransport V :=
  { s with requests := s.requests.modify i f }

def rejectPending (s : OwnedHelperTransport V) (code : String) : OwnedHelperTransport V :=
  match s.pending with
  | none => s
  | some p => { s with pending := none }.update p.request fun r => r.settleReply (.rejected code)

/-- `runCleanup` up to its first `await`; the reader is cancelled. -/
def runCleanup (s : OwnedHelperTransport V) : OwnedHelperTransport V :=
  let s := { s with listening := false }.rejectPending (s.failError.getD "failed")
  { s with reading := false, cleanupTask := .running }

def startCleanup (s : OwnedHelperTransport V) : OwnedHelperTransport V :=
  if s.cleanupTask ≠ .idle then s else s.runCleanup

/-- `this.requestCancel?.reject(err)` -/
def rejectCancel (s : OwnedHelperTransport V) (code : String) : OwnedHelperTransport V :=
  match s.requestCancel with
  | none => s
  | some i => s.update i fun r => r.rejectCancel code

/-- The state that `signalFailure` leaves. -/
def failedState : LocalRuntimeState → LocalRuntimeState
  | .closing => .closing
  | .starting | .opened | .closed | .failed => .failed

def signalFailure (s : OwnedHelperTransport V) (code : String) : OwnedHelperTransport V :=
  let s := s.rejectCancel code
  if s.state = .closed ∧ ¬s.owned then s.rejectPending code
  else
    let s := { s with state := failedState s.state, failError := s.failError.or (some code) }
    (s.rejectPending code).startCleanup

/-- `if (this.state === "open" || this.state === "starting") this.signalFailure(…)` -/
def failIfLive (s : OwnedHelperTransport V) (code : String) : OwnedHelperTransport V :=
  if s.state = .opened ∨ s.state = .starting then s.signalFailure code else s

/-- The push of `dispatchFrame`, and its shift. -/
def complete (seen : List String) (id : String) : List String :=
  if (seen ++ [id]).length > helperIdReplayWindow then (seen ++ [id]).tail else seen ++ [id]

def dispatchFrame (s : OwnedHelperTransport V) (frame : Frame V) : OwnedHelperTransport V :=
  match frame with
  | .error code => s.signalFailure code
  | .ok response =>
      match s.pending with
      | none => s.signalFailure "unexpected"
      | some p =>
          if response.id ≠ p.id then s.signalFailure "wrong_id"
          else if response.id ∈ s.seenCompletions then s.signalFailure "duplicate_id"
          else
            { s with seenCompletions := complete s.seenCompletions response.id, pending := none }.update p.request
              fun r => r.settleReply response.settled

/-- `requestWithTimeout` up to its race, with the request if there is one; else it throws. `aborted` says that the
signal is, `fits` that the frame is within `maxFrame`. -/
def requestWithTimeout (s : OwnedHelperTransport V) (origin : Origin) (aborted fits : Bool) :
    Option Nat × OwnedHelperTransport V :=
  if s.pending.isSome ∨ aborted ∨ ¬s.owned ∨ s.seq ≥ maxRequestSequence then (none, s)
  else if ¬fits then (none, { s with seq := s.seq + 1 })
  else
    let request : Request V := { session := s.session, seq := s.seq + 1, origin }
    (some s.requests.length,
      { s with
        seq := s.seq + 1
        pending := some ⟨request.id, s.requests.length⟩
        requestCancel := some s.requests.length
        requests := s.requests ++ [request] })

/-- The `finally` of `requestWithTimeout`, and the outcome of the call. -/
def finish (s : OwnedHelperTransport V) (i : Nat) (x : Settled V) : OwnedHelperTransport V :=
  { s with requestCancel := if s.requestCancel = some i then none else s.requestCancel }.update i fun r =>
    { r.rejectCancel "closed" with joining := false, outcome := some x }

/-- What `open` meets before it talks to the helper. -/
inductive Launch where
  /-- `assertTrustedHelperPath` throws. -/
  | untrusted
  /-- The directory, the signal or the spawn refuses. -/
  | refused
  | spawned (fits : Bool)

def resetSession (s : OwnedHelperTransport V) : OwnedHelperTransport V :=
  { s with
    failError := none
    seq := 0
    seenCompletions := []
    pending := none
    inflight := none
    closePromise := .idle
    cleanupTask := .idle
    exitConfirmed := false
    requestCancel := none }

def beginSession (s : OwnedHelperTransport V) : OwnedHelperTransport V :=
  { s.resetSession with session := s.session + 1, state := .starting }

/-- The helper is spawned, and its readers are there. -/
def attach (s : OwnedHelperTransport V) : OwnedHelperTransport V :=
  { s with owned := true, exitConfirmed := false, reading := true, listening := true }

/-- The hello of `open`, or the `catch` behind it. -/
def sayHello (s : OwnedHelperTransport V) (fits : Bool) : OwnedHelperTransport V :=
  match s.requestWithTimeout .opening false fits with
  | (some _, s) => s
  | (none, s) => (s.signalFailure "payload_too_large").startCleanup

/-- `open` from `resetSession` on. -/
def openSession (s : OwnedHelperTransport V) : Launch → OwnedHelperTransport V
  | .untrusted => s.beginSession
  | .refused => { s.beginSession with state := .failed }
  | .spawned fits => s.beginSession.attach.sayHello fits

/-- `closeInner` waits. -/
def waitIn (s : OwnedHelperTransport V) (c : Closing) : OwnedHelperTransport V := { s with closePromise := c }

/-- The end of `closeInner` behind the shutdown. -/
def reap (s : OwnedHelperTransport V) (wasFailed : Bool) : OwnedHelperTransport V :=
  (s.rejectPending "closing").startCleanup.waitIn (.cleanup wasFailed)

/-- `if (this.state !== "failed") this.state = "closing"` -/
def closingState : LocalRuntimeState → LocalRuntimeState
  | .failed => .failed
  | .starting | .opened | .closing | .closed => .closing

/-- The start of `closeInner`. -/
def beginClose (s : OwnedHelperTransport V) : OwnedHelperTransport V :=
  { s with state := closingState s.state, listening := false }

/-- `closeInner` up to its first `await`; `alive` says that the exit code is `null`. -/
def closeInner (s : OwnedHelperTransport V) (alive fits : Bool) : OwnedHelperTransport V :=
  let wasFailed := decide (s.state = .failed) || s.failError.isSome
  let s := s.beginClose.rejectPending "closing"
  if ¬wasFailed ∧ s.owned ∧ alive then
    let next := s.requestWithTimeout .closing false fits
    next.2.waitIn (.shutdown next.1)
  else s.reap wasFailed

/-! ### Steps -/

inductive Label (V : Type) where
  /-- `open`, `request` and `close` are called. -/
  | openCall (launch : Launch)
  | request (aborted fits : Bool)
  | close (alive fits : Bool)
  /-- A read of stdout returns a chunk; the frames of a chunk are dispatched later. -/
  | read (frames : List (Frame V))
  | frame
  /-- The decoder or the stream throws, and stdout ends. -/
  | streamError (code : String)
  | eof
  | stderrFlood
  | exit (known : Bool)
  /-- The signal of `open`, and of one request. -/
  | abort
  | abortRequest (i : Nat)
  /-- The write of a request ends. -/
  | write (i : Nat) (result : Except String Unit)
  /-- The race of a request is settled by its reply and write, by its cancel or by its timer. -/
  | io (i : Nat)
  | cancelled (i : Nat)
  | timeout (i : Nat)
  /-- What is behind an `await`: of the race, of the cleanup after an error, of the earlier cleanup and of the hello
  in `open`, of the request in `request`. -/
  | resume (i : Nat)
  | joined (i : Nat)
  | openContinue (launch : Launch)
  | openResume (i : Nat) (accepted : Bool)
  | requestResume (i : Nat)
  | cleanupDone (confirmed : Bool)
  | closeResume
  | closeFinish

/-- The race of request `i` is settled, if it was open and there is something to settle it. -/
def settleRace (s : OwnedHelperTransport V) (i : Nat) (winner : Request V → Option (Settled V)) :
    Option (OwnedHelperTransport V) := do
  let r ← s.requests[i]?
  if r.race.isSome then none
  else do
    let x ← winner r
    some (s.update i fun r => { r with race := some x })

/-- The reply of request `i` is rejected, and the slot cleared if it has the id. -/
def abandon (s : OwnedHelperTransport V) (i : Nat) (id code : String) : OwnedHelperTransport V :=
  let s := s.update i fun r => r.settleReply (.rejected code)
  if s.pending.any (fun p => p.id == id) then { s with pending := none } else s

/-- The failure of request `i` is the failure of a live transport. -/
def propagate (s : OwnedHelperTransport V) (i : Nat) (code : String) : OwnedHelperTransport V :=
  if s.state = .opened ∨ s.state = .starting then s.signalFailure code
  else s.update i fun r => r.rejectCancel code

/-- The `catch` of `requestWithTimeout` for the error of a race. -/
def catchRace (s : OwnedHelperTransport V) (i : Nat) (id code : String) : OwnedHelperTransport V :=
  let s := (s.abandon i id code).propagate i code
  if s.cleanupTask ≠ .idle then s.update i fun r => { r with joining := true } else s.finish i (.rejected code)

/-- `requestWithTimeout` behind its race. -/
def resume (s : OwnedHelperTransport V) (i : Nat) : Option (OwnedHelperTransport V) := do
  let r ← s.requests[i]?
  if r.joining ∨ r.outcome.isSome then none
  else
    match ← r.race with
    | .fulfilled v => some (s.finish i (.fulfilled v))
    | .rejected code => some (s.catchRace i r.id code)

/-- `requestWithTimeout` behind the cleanup. -/
def joined (s : OwnedHelperTransport V) (i : Nat) : Option (OwnedHelperTransport V) := do
  let r ← s.requests[i]?
  if ¬r.joining then none
  else
    match ← r.race with
    | .fulfilled _ => none
    | .rejected code => some (s.finish i (.rejected code))

/-- The caller of request `i` sees its outcome. -/
def takeOutcome (s : OwnedHelperTransport V) (i : Nat) (origin : Origin) :
    Option (Settled V × OwnedHelperTransport V) := do
  let r ← s.requests[i]?
  if r.returned ∨ r.origin ≠ origin then none
  else do
    let x ← r.outcome
    some (x, s.update i fun r => { r with returned := true })

/-- `open` behind its hello. -/
def openResume (s : OwnedHelperTransport V) (i : Nat) (accepted : Bool) : Option (OwnedHelperTransport V) := do
  let (x, s) ← s.takeOutcome i .opening
  match x with
  | .fulfilled _ =>
      if accepted then some { s with state := .opened }
      else some (s.signalFailure "version_mismatch").startCleanup
  | .rejected code => some (s.signalFailure code).startCleanup

def requestResume (s : OwnedHelperTransport V) (i : Nat) : Option (OwnedHelperTransport V) := do
  let (_, s) ← s.takeOutcome i .requesting
  some (if s.inflight = some i then { s with inflight := none } else s)

/-- `runCleanup` behind the join of its readers: the exit is known, comes in time (`confirmed`) or does not. -/
def cleanupDone (s : OwnedHelperTransport V) (confirmed : Bool) : OwnedHelperTransport V :=
  if s.owned ∧ (s.exitConfirmed ∨ confirmed) then
    { s with exitConfirmed := true, owned := false, cleanupTask := .finished }
  else { s with cleanupTask := .finished }

/-- The end of `closeInner`. -/
def closedState (s : OwnedHelperTransport V) (wasFailed : Bool) : LocalRuntimeState :=
  if s.owned ∧ ¬s.exitConfirmed then .failed
  else if ¬s.owned then .closed
  else if wasFailed ∨ s.failError.isSome then .failed
  else .closed

/-- The shutdown request of `closeInner` has an outcome. -/
def shutdownDone (s : OwnedHelperTransport V) : Option Nat → Bool
  | none => true
  | some i => (s.requests[i]?.bind Request.outcome).isSome

def step (s : OwnedHelperTransport V) : Label V → Option (OwnedHelperTransport V)
  | .openCall launch =>
      if s.owned ∨ s.state ≠ .closed then none
      else if s.cleanupTask ≠ .idle then some { s with waitingOpens := s.waitingOpens + 1 }
      else some (s.openSession launch)
  | .openContinue launch =>
      if s.waitingOpens = 0 ∨ s.cleanupTask = .running then none
      else
        let s := { s with waitingOpens := s.waitingOpens - 1 }
        some (if s.owned then s else s.openSession launch)
  | .request aborted fits =>
      if s.state ≠ .opened ∨ s.inflight.isSome then none
      else
        let next := s.requestWithTimeout .requesting aborted fits
        some { next.2 with inflight := next.1 }
  | .close alive fits =>
      if (s.state = .closed ∧ ¬s.owned) ∨ s.closePromise ≠ .idle then none else some (s.closeInner alive fits)
  | .read frames => if s.reading then some { s with inFlight := s.inFlight ++ frames } else none
  | .frame =>
      match s.inFlight with
      | [] => none
      | f :: rest => some ({ s with inFlight := rest }.dispatchFrame f)
  | .streamError code => some (s.failIfLive code)
  | .eof => some (if s.pending.isSome then s.signalFailure "eof" else s.failIfLive "eof")
  | .stderrFlood => some (s.signalFailure "stderr_flood")
  | .exit known => some ({ s with exitConfirmed := s.exitConfirmed || known }.failIfLive "helper_exit")
  | .abort => if s.listening then some (s.signalFailure "aborted") else none
  | .abortRequest i => do
      let r ← s.requests[i]?
      if r.outcome.isSome then none else some (s.signalFailure "aborted")
  | .write i result => do
      let r ← s.requests[i]?
      if r.write.isSome then none else some (s.update i fun r => { r with write := some result })
  | .io i => s.settleRace i Request.io
  | .cancelled i => s.settleRace i fun r => r.cancel.map .rejected
  | .timeout i => s.settleRace i fun _ => some (.rejected "deadline")
  | .resume i => s.resume i
  | .joined i => s.joined i
  | .openResume i accepted => s.openResume i accepted
  | .requestResume i => s.requestResume i
  | .cleanupDone confirmed => if s.cleanupTask = .running then some (s.cleanupDone confirmed) else none
  | .closeResume =>
      match s.closePromise with
      | .shutdown i => if s.shutdownDone i then some (s.reap false) else none
      | .idle | .cleanup _ => none
  | .closeFinish =>
      match s.closePromise with
      | .cleanup wasFailed =>
          if s.cleanupTask = .finished then some { s with state := s.closedState wasFailed, closePromise := .idle }
          else none
      | .idle | .shutdown _ => none

end OwnedHelperTransport

end Helper.Transport
