import ZigKernel.LibRing
import ZigKernel.LibRuns
import ZigKernel.LibTable
import ZigKernel.SupervisorWorkspace

/-! `supervisor/api.zig`: the session service. Every operation is translated in the order of the
source, so a check that fails late leaves behind whatever the lines above it have written. A fixed
buffer with a length (`argv0`, `owner`, `path`) is the list of its live bytes. -/

namespace Supervisor

open Zig

def maxSessions : Nat := 8
def maxExecs : Nat := 16
def maxEvents : Nat := 1024
def maxFiles : Nat := 64
def maxIdemKeys : Nat := 64

/-- `s.owner.len` -/
def ownerCap : Nat := 64
/-- `e.argv0.len` -/
def argv0Cap : Nat := 128
/-- `f.path.len` -/
def pathCap : Nat := 256

instance : NeZero maxEvents := ⟨by decide⟩

inductive Term where
  | exited | cancelled | timeout | resourceLimit | outputLimit | guestFailure
  deriving DecidableEq, Repr

inductive ExecState where
  | queued | running | cancelling | done
  deriving DecidableEq, Repr

/-- `id = 0` marks a free entry. -/
structure Exec where
  id : Nat := 0
  sessionId : Nat := 0
  generation : Nat := 0
  argv0 : Bytes := []
  state : ExecState := .queued
  term : Option Term := none
  exitCode : Option Int := none
  outputBytes : Nat := 0
  cancelRequested : Bool := false
  deriving DecidableEq, Repr

inductive EventType where
  | stdout | stderr | lifecycle | exit
  deriving DecidableEq, Repr

structure Event where
  seq : Nat := 0
  generation : Nat := 0
  execId : Nat := 0
  ty : EventType := .lifecycle
  dataLen : Nat := 0
  deriving DecidableEq, Repr

structure FileEntry where
  path : Bytes := []
  size : Nat := 0
  sha : Bytes := []
  used : Bool := false
  deriving DecidableEq, Repr

structure SessionSlot where
  used : Bool := false
  owner : Bytes := []
  sess : Session := { id := 0 }
  ws : Workspace := { capBytes := 0 }
  files : Fin maxFiles → FileEntry := fun _ => {}
  events : Fin maxEvents → Event := fun _ => {}
  eventStart : Nat := 0
  eventCount : Nat := 0
  nextSeq : Nat := 1
  execs : Fin maxExecs → Exec := fun _ => {}
  nextExecId : Nat := 1
  auditCount : Nat := 0

structure Tombstone where
  id : Nat := 0
  owner : Bytes := []
  deriving DecidableEq, Repr

structure Service where
  adm : Admission := {}
  slots : Fin maxSessions → SessionSlot := fun _ => {}
  nextSessionId : Nat := 1
  idemKeys : Fin maxIdemKeys → Nat := fun _ => 0
  idemBody : Fin maxIdemKeys → Nat := fun _ => 0
  idemUsed : Fin maxIdemKeys → Bool := fun _ => false
  destroyed : Fin maxSessions → Tombstone := fun _ => {}

namespace SessionSlot

/-- The session of the slot. -/
def onSess {α : Type} (m : Act Session Error α) : Act SessionSlot Error α :=
  Act.zoom SessionSlot.sess (fun sess s => { s with sess }) m

/-- The workspace of the slot. -/
def onWs {α : Type} (m : Act Workspace Error α) : Act SessionSlot Error α :=
  Act.zoom SessionSlot.ws (fun ws s => { s with ws }) m

def setExec (k : Fin maxExecs) (e : Exec) (s : SessionSlot) : SessionSlot :=
  { s with execs := Function.update s.execs k e }

def setFile (k : Fin maxFiles) (f : FileEntry) (s : SessionSlot) : SessionSlot :=
  { s with files := Function.update s.files k f }

def checkOwner (owner : Bytes) : Act SessionSlot Error Unit := do
  let slot ← Act.get
  if slot.owner.length ≠ owner.length then Act.fail .notFound
  else if slot.owner ≠ owner then Act.fail .notFound
  else pure ()

def pushEvent (execId : Nat) (ty : EventType) (dataLen : Nat) : Act SessionSlot Error Unit := do
  let s ← Act.get
  let ev : Event := { seq := s.nextSeq, generation := s.sess.generation, execId, ty, dataLen }
  let nextSeq ← Act.lift (addU64 s.nextSeq 1)
  Act.modify fun s => { s with nextSeq }
  if s.eventCount < maxEvents then
    Act.modify fun s =>
      { s with
        events := Function.update s.events (Fin.ofNat maxEvents (s.eventStart + s.eventCount)) ev
        eventCount := s.eventCount + 1 }
  else
    Act.modify fun s =>
      { s with
        events := Function.update s.events (Fin.ofNat maxEvents s.eventStart) ev
        eventStart := (s.eventStart + 1) % maxEvents }

def guestReady : Act SessionSlot Error Unit := do
  onSess Session.onGuestReady
  pushEvent 0 .lifecycle 0

/-- The exec-slot loop of `startExec`. -/
def placeExec (id generation : Nat) (argv0 : Bytes) : Act SessionSlot Error Nat := do
  let s ← Act.get
  match Table.find? s.execs fun e => e.id == 0 with
  | some k => do
      Act.modify (setExec k
        { id := s.nextExecId, sessionId := id, generation, argv0 := argv0.take argv0Cap, state := .running })
      let nextExecId ← Act.lift (addU64 s.nextExecId 1)
      Act.modify fun s => { s with nextExecId }
      pushEvent s.nextExecId .lifecycle 0
      return s.nextExecId
  | none => do
      -- no free exec slot: roll the session back to ready
      Act.modify fun s => { s with sess := { s.sess with state := .ready } }
      Act.modify fun s => { s with sess := { s.sess with execDeadlineMs := 0 } }
      Act.fail .limit

def startExec (id generation : Nat) (argv0 : Bytes) (nowMs : Nat) : Act SessionSlot Error Nat := do
  onSess (Session.startExec generation nowMs)
  Act.errdefer (fun s => { s with sess := { s.sess with state := .ready } }) (placeExec id generation argv0)

def findExec (s : SessionSlot) (execId : Nat) : Option (Fin maxExecs) :=
  Table.find? s.execs fun e => e.id == execId && e.id != 0

def cancelExec (execId : Nat) : Act SessionSlot Error Unit := do
  let s ← Act.get
  match s.findExec execId with
  | none => Act.fail .notFound
  | some k =>
      if (s.execs k).generation ≠ s.sess.generation then Act.fail .gone
      else if (s.execs k).state = .done then pure ()
      else
        Act.modify (setExec k
          { s.execs k with
            cancelRequested := true
            state := if (s.execs k).state = .running then .cancelling else (s.execs k).state })

/-- One turn of the exec loop of `tick`; returns how many execs it has force-finished. -/
def tickExec (nowMs : Nat) (k : Fin maxExecs) : Act SessionSlot Error Nat := do
  let s ← Act.get
  let e := s.execs k
  if e.id = 0 ∨ e.state = .done then pure 0
  else if e.generation ≠ s.sess.generation then pure 0
  else
    let timedOut := s.sess.execTimedOut nowMs
    if e.cancelRequested ∨ timedOut then do
      Act.modify (setExec k
        { e with
          state := .done
          term := if e.cancelRequested then some .cancelled else some .timeout
          exitCode := none })
      (pushEvent e.id .exit 0).catchError fun _ => pure ()
      Act.modify fun s => { s with sess := { s.sess with state := .ready } }
      Act.modify fun s => { s with sess := { s.sess with execDeadlineMs := 0 } }
      return 1
    else pure 0

def tickExecs (nowMs : Nat) : List (Fin maxExecs) → Act SessionSlot Error Nat
  | [] => pure 0
  | k :: rest => do
      let killed ← tickExec nowMs k
      let more ← tickExecs nowMs rest
      return killed + more

def tick (nowMs : Nat) : Act SessionSlot Error Nat := do
  let s ← Act.get
  if s.used then tickExecs nowMs (List.finRange maxExecs) else pure 0

def finishExec (execId : Nat) (term : Term) (code : Option Int) : Act SessionSlot Error Unit := do
  let s ← Act.get
  match s.findExec execId with
  | none => Act.fail .notFound
  | some k =>
      if (s.execs k).generation ≠ s.sess.generation then Act.fail .gone
      else if (s.execs k).state = .done then Act.fail .conflict
      else do
        Act.modify (setExec k { s.execs k with state := .done, term := some term, exitCode := code })
        onSess (Session.finishExec (s.execs k).generation)
        pushEvent (s.execs k).id .exit 0

def findFile (s : SessionSlot) (path : Bytes) : Option (Fin maxFiles) :=
  Table.find? s.files fun f => f.used && f.path == path

/-- The overwrite branch of `putFile`: the old size is released first, and charged again if the new
one does not fit. -/
def overwriteFile (k : Fin maxFiles) (size : Nat) (sha : Bytes) : Act SessionSlot Error Unit := do
  Act.modify fun s => { s with ws := s.ws.release (s.files k).size }
  (onWs (Workspace.charge size)).catchError fun _ => do
    let s ← Act.get
    (onWs (Workspace.charge (s.files k).size)).catchError fun _ => pure ()
    Act.fail .limit
  Act.modify fun s => setFile k { s.files k with size } s
  Act.modify fun s => setFile k { s.files k with sha } s
  pushEvent 0 .lifecycle 0

/-- The free-entry loop of `putFile`. -/
def placeFile (r : Bytes) (size : Nat) (sha : Bytes) : Act SessionSlot Error Unit := do
  let s ← Act.get
  match Table.find? s.files fun f => !f.used with
  | some k =>
      if r.length > pathCap then Act.fail .badRequest else do
        Act.modify (setFile k { path := r, size, sha, used := true })
        pushEvent 0 .lifecycle 0
  | none => Act.fail .limit

def putFile (generation : Nat) (path : Bytes) (size : U64) (sha : Bytes) : Act SessionSlot Error Unit := do
  let s ← Act.get
  if generation ≠ s.sess.generation then Act.fail .gone
  else if s.sess.state = .destroyed ∨ s.sess.state = .destroying then Act.fail .gone
  else do
    let r ← (Act.lift (Workspace.resolve path Workspace.maxPath)).orFail .badRequest
    match s.findFile r with
    | some k => overwriteFile k size.val sha
    | none => do
        (onWs (Workspace.charge size.val)).orFail .limit
        Act.errdefer (fun s => { s with ws := s.ws.release size.val }) (placeFile r size.val sha)

def getFile (generation : Nat) (path : Bytes) : Act SessionSlot Error FileEntry := do
  let s ← Act.get
  if generation ≠ s.sess.generation then Act.fail .gone
  else do
    let r ← (Act.lift (Workspace.resolve path Workspace.maxPath)).orFail .badRequest
    match s.findFile r with
    | some k => return s.files k
    | none => Act.fail .notFound

/-- The copying loop of `events` over the ring indices that are left; `out` is `out[0..n]`. -/
def copyEvents (s : SessionSlot) (after outLen : Nat) : List Nat → List Event → List Event
  | [], out => out
  | i :: rest, out =>
      if out.length < outLen then
        let ev := s.events (Fin.ofNat maxEvents (s.eventStart + i))
        if ev.seq > after then copyEvents s after outLen rest (out ++ [ev]) else copyEvents s after outLen rest out
      else out

def eventsAfter (after outLen : Nat) : Act SessionSlot Error (List Event) := do
  let s ← Act.get
  return copyEvents s after outLen (List.range s.eventCount) []

def reset : Act SessionSlot Error Nat := do
  onSess Session.beginReset
  Act.modify fun s => { s with execs := fun _ => {} }
  Act.modify fun s => { s with files := fun k => { s.files k with used := false } }
  Act.modify fun s => { s with ws := s.ws.reset }
  Act.modify fun s => { s with eventStart := 0, eventCount := 0 }
  onSess Session.finishReset
  pushEvent 0 .lifecycle 0
  let s ← Act.get
  return s.sess.generation

end SessionSlot

namespace Service

def slotOf (svc : Service) (id : Nat) : Option (Fin maxSessions) :=
  Table.find? svc.slots fun s => s.used && s.sess.id == id

def setSlot (i : Fin maxSessions) (s : SessionSlot) (svc : Service) : Service :=
  { svc with slots := Function.update svc.slots i s }

def onSlot {α : Type} (i : Fin maxSessions) (m : Act SessionSlot Error α) : Act Service Error α :=
  Act.zoom (fun svc => svc.slots i) (setSlot i) m

/-- The common head of the owner-taking operations: `slotOf`, `checkOwner`, then the slot's own part. -/
def owned {α : Type} (owner : Bytes) (id : Nat) (m : Act SessionSlot Error α) : Act Service Error α := do
  let self ← Act.get
  match self.slotOf id with
  | none => Act.fail .notFound
  | some i => onSlot i do
      SessionSlot.checkOwner owner
      m

def idemBegin (key body : Nat) : Act Service Error Bool := do
  let self ← Act.get
  if key = 0 then return true
  else
    match (List.finRange maxIdemKeys).find? fun i => self.idemUsed i && self.idemKeys i == key with
    | some i => if self.idemBody i ≠ body then Act.fail .conflict else return false
    | none =>
        match Table.find? self.idemUsed (!·) with
        | some i => do
            Act.modify fun svc => { svc with idemUsed := Function.update svc.idemUsed i true }
            Act.modify fun svc => { svc with idemKeys := Function.update svc.idemKeys i key }
            Act.modify fun svc => { svc with idemBody := Function.update svc.idemBody i body }
            return true
        | none => Act.fail .limit

def create (owner : Bytes) (limits : Limits) (nowMs : Nat) : Act Service Error Nat := do
  Act.lift limits.validate
  (Act.zoom Service.adm (fun adm svc => { svc with adm }) (Admission.tryAdmit limits)).orFail .noCapacity
  Act.errdefer (fun svc => { svc with adm := svc.adm.release limits }) do
    let self ← Act.get
    match Table.find? self.slots fun s => !s.used with
    | some i => do
        Act.modify (setSlot i { used := true, owner := owner.take ownerCap })
        let sess ← Act.lift (Session.init self.nextSessionId limits nowMs)
        onSlot i (Act.modify fun s => { s with sess })
        let nextSessionId ← Act.lift (addU64 self.nextSessionId 1)
        Act.modify fun svc => { svc with nextSessionId }
        onSlot i (Act.modify fun s => { s with ws := Workspace.init limits.workspaceMib })
        onSlot i (Act.modify fun s => { s with auditCount := s.auditCount + 1 })
        return sess.id
    | none => do
        Act.modify fun svc => { svc with adm := svc.adm.release limits }
        Act.fail .noCapacity

def tickSlots (nowMs : Nat) : List (Fin maxSessions) → Act Service Error Nat
  | [] => pure 0
  | i :: rest => do
      let killed ← onSlot i (SessionSlot.tick nowMs)
      let more ← tickSlots nowMs rest
      return killed + more

/-- Host tick: deadlines and cancels over every slot. -/
def tick (nowMs : Nat) : Act Service Error Nat := tickSlots nowMs (List.finRange maxSessions)

def destroy (owner : Bytes) (id : Nat) : Act Service Error Unit := do
  let self ← Act.get
  -- idempotent DELETE: replay success for a known-destroyed (id, owner)
  match Table.find? self.destroyed fun t => t.id == id && t.owner == owner with
  | some _ => pure ()
  | none =>
      match self.slotOf id with
      | none => Act.fail .notFound
      | some i => do
          onSlot i (SessionSlot.checkOwner owner)
          let sess := (self.slots i).sess
          if sess.state = .destroyed then pure ()
          else do
            if sess.state ≠ .destroying then onSlot i (SessionSlot.onSess Session.beginDestroy) else pure ()
            onSlot i (SessionSlot.onSess Session.finishDestroy)
            onSlot i (Act.modify fun s => { s with used := false })
            Act.modify fun svc => { svc with adm := svc.adm.release sess.limits }
            match Table.find? self.destroyed fun t => t.id == 0 with
            | some t => Act.modify fun svc =>
                { svc with destroyed := Function.update svc.destroyed t { id, owner := owner.take ownerCap } }
            | none => pure ()

/-! ### Calls -/

inductive Op where
  | idemBegin (key body : Nat)
  | create (owner : Bytes) (limits : Limits) (nowMs : Nat)
  | guestReady (owner : Bytes) (id : Nat)
  | startExec (owner : Bytes) (id generation : Nat) (argv0 : Bytes) (nowMs : Nat)
  | cancelExec (owner : Bytes) (id execId : Nat)
  | tick (nowMs : Nat)
  | finishExec (owner : Bytes) (id execId : Nat) (term : Term) (code : Option Int)
  | putFile (owner : Bytes) (id generation : Nat) (path : Bytes) (size : U64) (sha : Bytes)
  | getFile (owner : Bytes) (id generation : Nat) (path : Bytes)
  | events (owner : Bytes) (id after outLen : Nat)
  | reset (owner : Bytes) (id : Nat)
  | destroy (owner : Bytes) (id : Nat)
  deriving DecidableEq

inductive Reply where
  | unit
  | flag (b : Bool)
  | number (n : Nat)
  | file (f : FileEntry)
  | events (evs : List Event)
  deriving DecidableEq

def exec : Op → Act Service Error Reply
  | .idemBegin key body => do return .flag (← idemBegin key body)
  | .create owner limits nowMs => do return .number (← create owner limits nowMs)
  | .guestReady owner id => do
      owned owner id SessionSlot.guestReady
      return .unit
  | .startExec owner id generation argv0 nowMs => do
      return .number (← owned owner id (SessionSlot.startExec id generation argv0 nowMs))
  | .cancelExec owner id execId => do
      owned owner id (SessionSlot.cancelExec execId)
      return .unit
  | .tick nowMs => do return .number (← tick nowMs)
  | .finishExec owner id execId term code => do
      owned owner id (SessionSlot.finishExec execId term code)
      return .unit
  | .putFile owner id generation path size sha => do
      owned owner id (SessionSlot.putFile generation path size sha)
      return .unit
  | .getFile owner id generation path => do
      return .file (← owned owner id (SessionSlot.getFile generation path))
  | .events owner id after outLen => do
      return .events (← owned owner id (SessionSlot.eventsAfter after outLen))
  | .reset owner id => do return .number (← owned owner id SessionSlot.reset)
  | .destroy owner id => do
      destroy owner id
      return .unit

/-- A call and what it returned. -/
structure Call where
  op : Op
  reply : Outcome Error Reply
  deriving DecidableEq

/-- The service takes a call. A call that traps does not return. -/
def Step (svc : Service) (c : Call) (svc' : Service) : Prop :=
  exec c.op svc = (c.reply, svc') ∧ c.reply ≠ .trap

/-- A run of calls. -/
abbrev Run := Runs.Run Step

/-- `Service{}` -/
def initial : Service := {}

/-- Makes the calls in order. -/
def play (svc : Service) : List Op → List Call × Service
  | [] => ([], svc)
  | op :: rest =>
      let (calls, svc') := play (exec op svc).2 rest
      (⟨op, (exec op svc).1⟩ :: calls, svc')

theorem play_run (ops : List Op) (svc : Service) (h : ∀ c ∈ (svc.play ops).1, c.reply ≠ .trap) :
    Run svc (svc.play ops).1 (svc.play ops).2 := by
  induction ops generalizing svc with
  | nil => exact .refl
  | cons op rest ih =>
      have hstep : Step svc ⟨op, (exec op svc).1⟩ (exec op svc).2 := ⟨rfl, h _ List.mem_cons_self⟩
      exact Runs.Run.cons hstep (ih _ fun c hc => h c (List.mem_cons_of_mem _ hc))

end Service

end Supervisor
