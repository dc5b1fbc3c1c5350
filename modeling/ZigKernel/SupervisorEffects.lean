import ZigKernel.SupervisorApi

/-! What a call does to its slot. For every operation there is a guard and the slot it leaves behind
(`Effect`); the inversion theorems say that on a coherent slot the translated code either refuses and
has written nothing, or performs exactly that effect. Later modules reason about effects only. -/

open Finset

namespace Supervisor

open Zig

/-- An exec that has been started and has not finished. -/
def Exec.Live (e : Exec) : Prop := e.id ≠ 0 ∧ e.state ≠ .done

instance (e : Exec) : Decidable e.Live := inferInstanceAs (Decidable (_ ∧ _))

namespace SessionSlot

/-! ### The slots that calls leave behind -/

def setState (state : State) (s : SessionSlot) : SessionSlot := { s with sess := { s.sess with state } }

/-- After `pushEvent`. -/
def pushed (s : SessionSlot) (execId : Nat) (ty : EventType) (dataLen : Nat) : SessionSlot :=
  let ev : Event := { seq := s.nextSeq, generation := s.sess.generation, execId, ty, dataLen }
  if s.eventCount < maxEvents then
    { s with
      nextSeq := s.nextSeq + 1
      events := Function.update s.events (Fin.ofNat maxEvents (s.eventStart + s.eventCount)) ev
      eventCount := s.eventCount + 1 }
  else
    { s with
      nextSeq := s.nextSeq + 1
      events := Function.update s.events (Fin.ofNat maxEvents s.eventStart) ev
      eventStart := (s.eventStart + 1) % maxEvents }

def readied (s : SessionSlot) : SessionSlot := (s.setState .ready).pushed 0 .lifecycle 0

/-- The session is busy until its deadline. -/
def begun (s : SessionSlot) (nowMs : Nat) : SessionSlot :=
  { s with
    sess :=
      { s.sess with
        state := .busy
        execDeadlineMs := saturatingAdd nowMs s.sess.limits.executionTimeoutMs } }

/-- The exec record is in place and announced. -/
def placed (s : SessionSlot) (k : Fin maxExecs) (id generation : Nat) (argv0 : Bytes) : SessionSlot :=
  { setExec k
      { id := s.nextExecId, sessionId := id, generation, argv0 := argv0.take argv0Cap, state := .running } s with
    nextExecId := s.nextExecId + 1 }.pushed s.nextExecId .lifecycle 0

def started (s : SessionSlot) (k : Fin maxExecs) (id generation : Nat) (argv0 : Bytes) (nowMs : Nat) :
    SessionSlot :=
  (s.begun nowMs).placed k id generation argv0

def cancelled (s : SessionSlot) (k : Fin maxExecs) : SessionSlot :=
  setExec k
    { s.execs k with
      cancelRequested := true
      state := if (s.execs k).state = .running then .cancelling else (s.execs k).state } s

def killed (s : SessionSlot) (k : Fin maxExecs) : SessionSlot :=
  let s' := (setExec k
    { s.execs k with
      state := .done
      term := if (s.execs k).cancelRequested then some .cancelled else some .timeout
      exitCode := none } s).pushed (s.execs k).id .exit 0
  { s' with sess := { s'.sess with state := .ready, execDeadlineMs := 0 } }

def finished (s : SessionSlot) (k : Fin maxExecs) (term : Term) (code : Option Int) : SessionSlot :=
  { setExec k { s.execs k with state := .done, term := some term, exitCode := code } s with
    sess := { s.sess with state := .ready, execDeadlineMs := 0 } }.pushed (s.execs k).id .exit 0

/-- The entry at `k` becomes `f`, and the quota trades the old size for the new one. -/
def stored (s : SessionSlot) (k : Fin maxFiles) (f : FileEntry) (old : Nat) : SessionSlot :=
  { setFile k f s with
    ws := { s.ws with usedBytes := s.ws.usedBytes - old + f.size } }.pushed 0 .lifecycle 0

def wiped (s : SessionSlot) : SessionSlot :=
  { s with
    execs := fun _ => {}
    files := fun k => { s.files k with used := false }
    ws := s.ws.reset
    eventStart := 0
    eventCount := 0
    sess :=
      { s.sess with
        generation := s.sess.generation + 1
        execDeadlineMs := 0
        state := .ready } }.pushed 0 .lifecycle 0

/-- A live exec that `tick` at `nowMs` will finish: cancel requested, or past the deadline. -/
def Due (s : SessionSlot) (nowMs : Nat) (k : Fin maxExecs) : Prop :=
  (s.execs k).Live ∧ (s.execs k).generation = s.sess.generation ∧
    ((s.execs k).cancelRequested = true ∨ s.sess.execTimedOut nowMs = true)

/-! ### Coherence of the exec table and the quota -/

/-- The exec table and the session agree on what is running. -/
structure Coherent (s : SessionSlot) : Prop where
  state : s.sess.state = .creating ∨ s.sess.state = .ready ∨ s.sess.state = .busy
  live_busy : ∀ k, (s.execs k).Live → s.sess.state = .busy ∧ (s.execs k).generation = s.sess.generation
  busy_live : s.sess.state = .busy → ∃ k, (s.execs k).Live
  live_unique : ∀ j k, (s.execs j).Live → (s.execs k).Live → j = k
  deadline : s.sess.execDeadlineMs ≠ 0 ↔ s.sess.state = .busy
  timeout : 0 < s.sess.limits.executionTimeoutMs
  execId_lt : ∀ k, (s.execs k).id < s.nextExecId
  execId_unique : ∀ j k, (s.execs j).id ≠ 0 → (s.execs j).id = (s.execs k).id → j = k

/-- The bytes the used entries stand for. -/
def fileBytes (s : SessionSlot) : Nat := ∑ k, if (s.files k).used then (s.files k).size else 0

/-- The file table is a map, and the quota is what it stores. -/
structure FilesOk (s : SessionSlot) : Prop where
  unique : ∀ j k, (s.files j).used = true → (s.files k).used = true → (s.files j).path = (s.files k).path → j = k
  usedBytes : s.ws.usedBytes = s.fileBytes
  within : s.ws.usedBytes ≤ s.ws.capBytes
  cap_lt : s.ws.capBytes < u64Bound
  size_lt : ∀ k, (s.files k).size < u64Bound

/-! ### Effects -/

/-- What a successful call does to the slot it addresses. -/
inductive Effect (s : SessionSlot) : Service.Op → Service.Reply → SessionSlot → Prop where
  | guestReady (owner : Bytes) (id : Nat) (hstate : s.sess.state = .creating ∨ s.sess.state = .resetting) :
      Effect s (.guestReady owner id) .unit s.readied
  | startExec (owner : Bytes) (id : Nat) (argv0 : Bytes) (nowMs : Nat) (k : Fin maxExecs)
      (hready : s.sess.state = .ready) (hfree : (s.execs k).id = 0) :
      Effect s (.startExec owner id s.sess.generation argv0 nowMs) (.number s.nextExecId)
        (s.started k id s.sess.generation argv0 nowMs)
  | cancelExec (owner : Bytes) (id : Nat) (k : Fin maxExecs) (hlive : (s.execs k).Live)
      (hgen : (s.execs k).generation = s.sess.generation) :
      Effect s (.cancelExec owner id (s.execs k).id) .unit (s.cancelled k)
  | finishExec (owner : Bytes) (id : Nat) (term : Term) (code : Option Int) (k : Fin maxExecs)
      (hlive : (s.execs k).Live) (hgen : (s.execs k).generation = s.sess.generation)
      (hbusy : s.sess.state = .busy) :
      Effect s (.finishExec owner id (s.execs k).id term code) .unit (s.finished k term code)
  | overwrite (owner : Bytes) (id : Nat) (path : Bytes) (size : U64) (sha : Bytes) (k : Fin maxFiles)
      (hpath : Workspace.resolve path Workspace.maxPath = .ok (s.files k).path)
      (hused : (s.files k).used = true)
      (hfits : s.ws.usedBytes - (s.files k).size + size.val ≤ s.ws.capBytes) :
      Effect s (.putFile owner id s.sess.generation path size sha) .unit
        (s.stored k { s.files k with size := size.val, sha } (s.files k).size)
  | store (owner : Bytes) (id : Nat) (path : Bytes) (size : U64) (sha : Bytes) (r : Bytes) (k : Fin maxFiles)
      (hpath : Workspace.resolve path Workspace.maxPath = .ok r) (hshort : r.length ≤ pathCap)
      (hnew : ∀ j, (s.files j).used = true → (s.files j).path ≠ r) (hfree : (s.files k).used = false)
      (hfits : s.ws.usedBytes + size.val ≤ s.ws.capBytes) :
      Effect s (.putFile owner id s.sess.generation path size sha) .unit
        (s.stored k { path := r, size := size.val, sha, used := true } 0)
  | reset (owner : Bytes) (id : Nat) (hstate : s.sess.state = .ready ∨ s.sess.state = .busy) :
      Effect s (.reset owner id) (.number (s.sess.generation + 1)) s.wiped

/-- What `tick` does to a slot: nothing, or the one live exec is finished. -/
inductive Ticked (nowMs : Nat) (s : SessionSlot) : SessionSlot → Prop where
  | idle (h : s.used = true → ∀ k, ¬s.Due nowMs k) : Ticked nowMs s s
  | kill (k : Fin maxExecs) (hused : s.used = true) (hdue : s.Due nowMs k) : Ticked nowMs s (s.killed k)

/-! ### Runs of the slot's code -/

theorem pushEvent_run (s : SessionSlot) (execId : Nat) (ty : EventType) (dataLen : Nat) :
    pushEvent execId ty dataLen s =
      if s.nextSeq + 1 < u64Bound then (.ok (), s.pushed execId ty dataLen) else (.trap, s) := by
  by_cases hseq : s.nextSeq + 1 < u64Bound
  · by_cases hcount : s.eventCount < maxEvents <;>
      simp [pushEvent, Act.bind_run, addU64, hseq, hcount, pushed]
  · simp [pushEvent, Act.bind_run, addU64, hseq]

/-- Whatever pushes an event last either performs the push or traps. -/
theorem pushEvent_cases (s : SessionSlot) (execId : Nat) (ty : EventType) (dataLen : Nat) :
    pushEvent execId ty dataLen s = (.ok (), s.pushed execId ty dataLen) ∨
      pushEvent execId ty dataLen s = (.trap, s) := by
  rw [pushEvent_run]
  split_ifs
  · exact Or.inl rfl
  · exact Or.inr rfl

@[simp] theorem onSess_run {α : Type} (m : Act Session Error α) (s : SessionSlot) :
    onSess m s = ((m s.sess).1, { s with sess := (m s.sess).2 }) := rfl

@[simp] theorem onWs_run {α : Type} (m : Act Workspace Error α) (s : SessionSlot) :
    onWs m s = ((m s.ws).1, { s with ws := (m s.ws).2 }) := rfl

/-- How a call on a slot can end: refused with nothing written, done with the effect, or trapped. -/
def Ends {α : Type} (m : Act SessionSlot Error α) (s : SessionSlot) (done : α → SessionSlot → Prop) : Prop :=
  (∃ e, m s = (.error e, s)) ∨ (∃ a s', m s = (.ok a, s') ∧ done a s') ∨ (m s).1 = .trap

theorem guestReady_ends (s : SessionSlot) (owner : Bytes) (id : Nat) :
    Ends guestReady s fun _ s' => Effect s (.guestReady owner id) .unit s' := by
  by_cases hstate : s.sess.state = .creating ∨ s.sess.state = .resetting
  · have hcond : ¬(s.sess.state ≠ .creating ∧ s.sess.state ≠ .resetting) := by tauto
    have hsess : onSess Session.onGuestReady s = (.ok (), s.setState .ready) := by
      rw [onSess_run, Session.onGuestReady, Act.get_bind_run, if_neg hcond]
      rfl
    rcases pushEvent_cases (s.setState .ready) 0 .lifecycle 0 with hpush | hpush
    · refine Or.inr (Or.inl ⟨(), s.readied, ?_, .guestReady owner id hstate⟩)
      rw [guestReady, Act.bind_ok_run hsess, hpush]
      rfl
    · exact Or.inr (Or.inr (by rw [guestReady, Act.bind_ok_run hsess, hpush]))
  · have hcond : s.sess.state ≠ .creating ∧ s.sess.state ≠ .resetting := by tauto
    refine Or.inl ⟨.badState, ?_⟩
    have hsess : onSess Session.onGuestReady s = (.error .badState, s) := by
      rw [onSess_run, Session.onGuestReady, Act.get_bind_run, if_pos hcond]
      rfl
    rw [guestReady, Act.bind_error_run hsess]

theorem session_startExec_run (sess : Session) (generation nowMs : Nat) :
    (∃ e, Session.startExec generation nowMs sess = (.error e, sess)) ∨
      (sess.state = .ready ∧ generation = sess.generation ∧
        Session.startExec generation nowMs sess =
          (.ok (), { sess with
            state := .busy
            execDeadlineMs := saturatingAdd nowMs sess.limits.executionTimeoutMs })) := by
  by_cases hready : sess.state = .ready
  · by_cases hgen : generation = sess.generation
    · refine Or.inr ⟨hready, hgen, ?_⟩
      simp [Session.startExec, hready, hgen]
    · exact Or.inl ⟨.staleGeneration, by simp [Session.startExec, hready, hgen]⟩
  · exact Or.inl ⟨.badState, by simp [Session.startExec, hready]⟩

theorem placeExec_cases (s : SessionSlot) (id generation : Nat) (argv0 : Bytes) :
    ((∀ k, (s.execs k).id ≠ 0) ∧ placeExec id generation argv0 s =
        (.error .limit, { s with sess := { s.sess with state := .ready, execDeadlineMs := 0 } })) ∨
      (∃ k, (s.execs k).id = 0 ∧
        placeExec id generation argv0 s = (.ok s.nextExecId, s.placed k id generation argv0)) ∨
      (placeExec id generation argv0 s).1 = .trap := by
  rw [placeExec, Act.get_bind_run]
  cases hfind : Table.find? s.execs fun e => e.id == 0 with
  | none => exact Or.inl ⟨by simpa using Table.find?_none.mp hfind, rfl⟩
  | some k =>
      have hfree : (s.execs k).id = 0 := by simpa using Table.find?_some hfind
      by_cases hid : s.nextExecId + 1 < u64Bound
      · simp only [Act.modify_bind_run, addU64_of_lt hid, Act.lift_ok_bind_run]
        rcases pushEvent_cases { setExec k
            { id := s.nextExecId, sessionId := id, generation, argv0 := argv0.take argv0Cap, state := .running } s
            with nextExecId := s.nextExecId + 1 } s.nextExecId .lifecycle 0 with hpush | hpush
        · exact Or.inr (Or.inl ⟨k, hfree, Act.bind_ok_run hpush⟩)
        · exact Or.inr (Or.inr (by rw [Act.bind_trap_run hpush]))
      · refine Or.inr (Or.inr ?_)
        simp only [Act.modify_bind_run, addU64, if_neg hid, Act.lift_trap_bind_run]

/-- A full exec table is the late failure of `startExec`. The session then goes back to ready with no
deadline, which is where it was, since a ready session has none. -/
theorem startExec_ends (s : SessionSlot) (hcoherent : s.Coherent) (owner : Bytes) (id generation : Nat)
    (argv0 : Bytes) (nowMs : Nat) :
    Ends (startExec id generation argv0 nowMs) s fun n s' =>
      Effect s (.startExec owner id generation argv0 nowMs) (.number n) s' := by
  rcases session_startExec_run s.sess generation nowMs with ⟨e, herr⟩ | ⟨hready, hgen, hok⟩
  · refine Or.inl ⟨e, ?_⟩
    have hsess : onSess (Session.startExec generation nowMs) s = (.error e, s) := by
      rw [onSess_run, herr]
    rw [startExec, Act.bind_error_run hsess]
  subst hgen
  have hsess : onSess (Session.startExec s.sess.generation nowMs) s = (.ok (), s.begun nowMs) := by
    rw [onSess_run, hok]
    rfl
  rw [Ends, startExec, Act.bind_ok_run hsess]
  rcases placeExec_cases (s.begun nowMs) id s.sess.generation argv0 with ⟨-, hplace⟩ | ⟨k, hfree, hplace⟩ | hplace
  · have hdeadline : s.sess.execDeadlineMs = 0 := by
      by_contra hne
      have := hcoherent.deadline.mp hne
      rw [hready] at this
      cases this
    refine Or.inl ⟨.limit, ?_⟩
    rw [Act.errdefer_error_run hplace]
    simp only [begun, ← hready, ← hdeadline]
  · refine Or.inr (Or.inl ⟨s.nextExecId, s.started k id s.sess.generation argv0 nowMs, ?_, ?_⟩)
    · rw [Act.errdefer_ok_run hplace]
      rfl
    · exact .startExec owner id argv0 nowMs k hready hfree
  · exact Or.inr (Or.inr (Act.errdefer_traps hplace))

theorem findExec_some {s : SessionSlot} {execId : Nat} {k : Fin maxExecs} (h : s.findExec execId = some k) :
    (s.execs k).id = execId ∧ (s.execs k).id ≠ 0 := by
  simpa using Table.find?_some h

/-- Cancelling a finished exec succeeds without effect. -/
theorem cancelExec_ends (s : SessionSlot) (owner : Bytes) (id execId : Nat) :
    Ends (cancelExec execId) s fun _ s' =>
      s' = s ∨ Effect s (.cancelExec owner id execId) .unit s' := by
  rw [Ends, cancelExec, Act.get_bind_run]
  cases hfind : s.findExec execId with
  | none => exact Or.inl ⟨.notFound, rfl⟩
  | some k =>
      obtain ⟨hid, hne⟩ := findExec_some hfind
      by_cases hgen : (s.execs k).generation = s.sess.generation
      · by_cases hdone : (s.execs k).state = .done
        · refine Or.inr (Or.inl ⟨(), s, ?_, Or.inl rfl⟩)
          simp only [if_neg (not_not.mpr hgen), if_pos hdone, Act.pure_run]
        · refine Or.inr (Or.inl ⟨(), s.cancelled k, ?_, Or.inr ?_⟩)
          · simp only [if_neg (not_not.mpr hgen), if_neg hdone, Act.modify_run, cancelled]
          · rw [← hid]
            exact .cancelExec owner id k ⟨hne, hdone⟩ hgen
      · exact Or.inl ⟨.gone, by simp only [if_pos (show (s.execs k).generation ≠ s.sess.generation from hgen), Act.fail_run]⟩

theorem session_finishExec_run {sess : Session} (hbusy : sess.state = .busy) :
    Session.finishExec sess.generation sess =
      (.ok (), { sess with state := .ready, execDeadlineMs := 0 }) := by
  simp [Session.finishExec, hbusy]

/-- `finishExec` marks the exec done before it asks the session; on a coherent slot the session cannot
refuse, because a live exec of the current generation is what makes it busy. -/
theorem finishExec_ends (s : SessionSlot) (hcoherent : s.Coherent) (owner : Bytes) (id execId : Nat)
    (term : Term) (code : Option Int) :
    Ends (finishExec execId term code) s fun _ s' =>
      Effect s (.finishExec owner id execId term code) .unit s' := by
  rw [Ends, finishExec, Act.get_bind_run]
  cases hfind : s.findExec execId with
  | none => exact Or.inl ⟨.notFound, rfl⟩
  | some k =>
      obtain ⟨hid, hne⟩ := findExec_some hfind
      by_cases hgen : (s.execs k).generation = s.sess.generation
      swap
      · exact Or.inl ⟨.gone, by simp only [if_pos (show (s.execs k).generation ≠ s.sess.generation from hgen), Act.fail_run]⟩
      by_cases hdone : (s.execs k).state = .done
      · refine Or.inl ⟨.conflict, ?_⟩
        simp only [if_neg (not_not.mpr hgen), if_pos hdone, Act.fail_run]
      have hlive : (s.execs k).Live := ⟨hne, hdone⟩
      have hbusy := (hcoherent.live_busy k hlive).1
      set marked := setExec k { s.execs k with state := .done, term := some term, exitCode := code } s with hmarked
      have hsess : onSess (Session.finishExec (s.execs k).generation) marked =
          (.ok (), { marked with sess := { s.sess with state := .ready, execDeadlineMs := 0 } }) := by
        rw [hgen, onSess_run, show marked.sess = s.sess from rfl, session_finishExec_run hbusy]
      simp only [if_neg (not_not.mpr hgen), if_neg hdone, Act.modify_bind_run]
      rw [← hmarked, Act.bind_ok_run hsess]
      rcases pushEvent_cases { marked with sess := { s.sess with state := .ready, execDeadlineMs := 0 } }
          (s.execs k).id .exit 0 with hpush | hpush
      · refine Or.inr (Or.inl ⟨(), s.finished k term code, hpush, ?_⟩)
        rw [← hid]
        exact .finishExec owner id term code k hlive hgen hbusy
      · exact Or.inr (Or.inr (by rw [hpush]))

/-! ### Files -/

theorem findFile_some {s : SessionSlot} {r : Bytes} {k : Fin maxFiles} (h : s.findFile r = some k) :
    (s.files k).used = true ∧ (s.files k).path = r := by
  simpa using Table.find?_some h

theorem findFile_none {s : SessionSlot} {r : Bytes} (h : s.findFile r = none) (k : Fin maxFiles)
    (hused : (s.files k).used = true) : (s.files k).path ≠ r := by
  have := Table.find?_none.mp h k
  simpa [hused] using this

/-- A used entry's size is part of the total. -/
theorem FilesOk.size_le {s : SessionSlot} (h : s.FilesOk) {k : Fin maxFiles} (hused : (s.files k).used = true) :
    (s.files k).size ≤ s.ws.usedBytes := by
  have := Table.le_sum s.files (fun f => if f.used then f.size else 0) k
  rw [h.usedBytes]
  simpa [hused, fileBytes] using this

theorem overwriteFile_run (s : SessionSlot) (hfiles : s.FilesOk) {k : Fin maxFiles}
    (hused : (s.files k).used = true) (size : U64) (sha : Bytes) :
    (s.ws.usedBytes - (s.files k).size + size.val ≤ s.ws.capBytes ∧
        (overwriteFile k size.val sha s = (.ok (), s.stored k { s.files k with size := size.val, sha } (s.files k).size) ∨
          (overwriteFile k size.val sha s).1 = .trap)) ∨
      (¬s.ws.usedBytes - (s.files k).size + size.val ≤ s.ws.capBytes ∧
        overwriteFile k size.val sha s = (.error .limit, s)) := by
  have hle := hfiles.size_le hused
  have hwithin := hfiles.within
  set released : SessionSlot :=
    { s with ws := { s.ws with usedBytes := s.ws.usedBytes - (s.files k).size } } with hreleased
  have hcharge := Workspace.charge_run released.ws (n := size.val) (by show _ - _ ≤ s.ws.capBytes; omega)
    hfiles.cap_lt size.isLt
  rw [overwriteFile, Act.modify_bind_run, Workspace.release_eq, ← hreleased]
  by_cases hfits : s.ws.usedBytes - (s.files k).size + size.val ≤ s.ws.capBytes
  · refine Or.inl ⟨hfits, ?_⟩
    have hok : Workspace.charge size.val released.ws =
        (.ok (), { released.ws with usedBytes := s.ws.usedBytes - (s.files k).size + size.val }) :=
      hcharge.trans (if_pos hfits)
    have hcatch : ((onWs (Workspace.charge size.val)).catchError fun _ => do
        let s ← Act.get
        (onWs (Workspace.charge (s.files k).size)).catchError fun _ => pure ()
        Act.fail Error.limit) released =
          (.ok (), { released with
            ws := { released.ws with usedBytes := s.ws.usedBytes - (s.files k).size + size.val } }) := by
      rw [Act.catchError, onWs_run, hok]
    rw [Act.bind_ok_run hcatch, Act.modify_bind_run, Act.modify_bind_run]
    rcases pushEvent_cases (setFile k { s.files k with size := size.val, sha }
        { s with ws := { s.ws with usedBytes := s.ws.usedBytes - (s.files k).size + size.val } })
        0 .lifecycle 0 with hpush | hpush
    · left
      simp only [setFile, Function.update_self, Function.update_idem] at hpush ⊢
      exact hpush
    · right
      simp only [setFile, Function.update_self, Function.update_idem] at hpush ⊢
      rw [hpush]
  · refine Or.inr ⟨hfits, ?_⟩
    have herr : Workspace.charge size.val released.ws = (.error .quotaExceeded, released.ws) :=
      hcharge.trans (if_neg hfits)
    have hback : Workspace.charge (s.files k).size released.ws = (.ok (), s.ws) := by
      have hsum : s.ws.usedBytes - (s.files k).size + (s.files k).size = s.ws.usedBytes := Nat.sub_add_cancel hle
      have := Workspace.charge_run released.ws (n := (s.files k).size) (by show _ - _ ≤ s.ws.capBytes; omega)
        hfiles.cap_lt (hfiles.size_lt k)
      rw [this, if_pos (by show s.ws.usedBytes - _ + _ ≤ s.ws.capBytes; omega)]
      simp only [hreleased, hsum]
    apply Act.bind_error_run
    rw [Act.catchError, onWs_run, herr]
    show (Act.get >>= _) released = _
    rw [Act.get_bind_run]
    have hcatch : ((onWs (Workspace.charge (s.files k).size)).catchError fun _ => (pure () : Act SessionSlot Error Unit))
        released = (.ok (), s) := by
      rw [Act.catchError, onWs_run, hback]
    exact Act.bind_ok_run hcatch

theorem placeFile_cases (s : SessionSlot) (r : Bytes) (size : Nat) (sha : Bytes) :
    (∃ k, (s.files k).used = false ∧ r.length ≤ pathCap ∧
        placeFile r size sha s =
          (.ok (), (setFile k { path := r, size, sha, used := true } s).pushed 0 .lifecycle 0)) ∨
      ((∃ k, (s.files k).used = false) ∧ pathCap < r.length ∧ placeFile r size sha s = (.error .badRequest, s)) ∨
      ((∀ k, (s.files k).used = true) ∧ placeFile r size sha s = (.error .limit, s)) ∨
      ((∃ k, (s.files k).used = false) ∧ (placeFile r size sha s).1 = .trap) := by
  rw [placeFile, Act.get_bind_run]
  cases hfind : Table.find? s.files fun f => !f.used with
  | none =>
      refine Or.inr (Or.inr (Or.inl ⟨fun k => ?_, rfl⟩))
      simpa using Table.find?_none.mp hfind k
  | some k =>
      have hfree : (s.files k).used = false := by simpa using Table.find?_some hfind
      by_cases hlong : r.length > pathCap
      · exact Or.inr (Or.inl ⟨⟨k, hfree⟩, hlong, by simp only [if_pos hlong, Act.fail_run]⟩)
      · simp only [if_neg hlong, Act.modify_bind_run]
        rcases pushEvent_cases (setFile k { path := r, size, sha, used := true } s) 0 .lifecycle 0 with hpush | hpush
        · exact Or.inl ⟨k, hfree, Nat.not_lt.mp hlong, hpush⟩
        · exact Or.inr (Or.inr (Or.inr ⟨⟨k, hfree⟩, by rw [hpush]⟩))

/-- Past its guards and the path resolution, `putFile` overwrites or places. -/
theorem putFile_run {s : SessionSlot} {generation : Nat} {path r : Bytes} (size : U64) (sha : Bytes)
    (hgen : generation = s.sess.generation)
    (halive : ¬(s.sess.state = .destroyed ∨ s.sess.state = .destroying))
    (hpath : Workspace.resolve path Workspace.maxPath = .ok r) :
    putFile generation path size sha s =
      (match s.findFile r with
      | some k => overwriteFile k size.val sha
      | none => do
          (onWs (Workspace.charge size.val)).orFail .limit
          Act.errdefer (fun s => { s with ws := s.ws.release size.val }) (placeFile r size.val sha)) s := by
  rw [putFile, Act.get_bind_run, if_neg (not_not.mpr hgen), if_neg halive, hpath]
  rfl

/-- A new path is charged first; when no entry can take it the charge is released again. -/
theorem putFile_new_cases (s : SessionSlot) (hfiles : s.FilesOk) (r : Bytes) (size : U64) (sha : Bytes) :
    let m : Act SessionSlot Error Unit := do
      (onWs (Workspace.charge size.val)).orFail .limit
      Act.errdefer (fun s => { s with ws := s.ws.release size.val }) (placeFile r size.val sha)
    (∃ k, (s.files k).used = false ∧ r.length ≤ pathCap ∧ s.ws.usedBytes + size.val ≤ s.ws.capBytes ∧
        m s = (.ok (), s.stored k { path := r, size := size.val, sha, used := true } 0)) ∨
      ((∃ k, (s.files k).used = false) ∧ s.ws.usedBytes + size.val ≤ s.ws.capBytes ∧
        m s = (.error .badRequest, s)) ∨
      ((s.ws.capBytes < s.ws.usedBytes + size.val ∨ ∀ k, (s.files k).used = true) ∧ m s = (.error .limit, s)) ∨
      ((∃ k, (s.files k).used = false) ∧ s.ws.usedBytes + size.val ≤ s.ws.capBytes ∧ (m s).1 = .trap) := by
  intro m
  have hcharge := Workspace.charge_run s.ws hfiles.within hfiles.cap_lt size.isLt
  by_cases hfits : s.ws.usedBytes + size.val ≤ s.ws.capBytes
  swap
  · refine Or.inr (Or.inr (Or.inl ⟨Or.inl (Nat.lt_of_not_le hfits), ?_⟩))
    apply Act.bind_error_run
    rw [Act.orFail, Act.catchError, onWs_run, hcharge, if_neg hfits]
    rfl
  set charged : SessionSlot := { s with ws := { s.ws with usedBytes := s.ws.usedBytes + size.val } } with hcharged
  have hfirst : ((onWs (Workspace.charge size.val)).orFail Error.limit) s = (.ok (), charged) := by
    rw [Act.orFail, Act.catchError, onWs_run, hcharge, if_pos hfits]
  have hundo : { charged with ws := charged.ws.release size.val } = s := by
    rw [Workspace.release_eq]
    simp [hcharged]
  have hm : m s = Act.errdefer (fun s => { s with ws := s.ws.release size.val }) (placeFile r size.val sha) charged :=
    Act.bind_ok_run hfirst
  rw [hm]
  rcases placeFile_cases charged r size.val sha with
    ⟨k, hfree, hshort, hplace⟩ | ⟨hfree, -, hplace⟩ | ⟨hfull, hplace⟩ | ⟨hfree, hplace⟩
  · exact Or.inl ⟨k, hfree, hshort, hfits, Act.errdefer_ok_run hplace⟩
  · exact Or.inr (Or.inl ⟨hfree, hfits, (Act.errdefer_error_run hplace).trans (by rw [hundo])⟩)
  · exact Or.inr (Or.inr (Or.inl ⟨Or.inr hfull, (Act.errdefer_error_run hplace).trans (by rw [hundo])⟩))
  · exact Or.inr (Or.inr (Or.inr ⟨hfree, hfits, Act.errdefer_traps hplace⟩))

/-- Every late failure of `putFile` puts the quota back. -/
theorem putFile_ends (s : SessionSlot) (hfiles : s.FilesOk) (owner : Bytes) (id generation : Nat) (path : Bytes)
    (size : U64) (sha : Bytes) :
    Ends (putFile generation path size sha) s fun _ s' =>
      Effect s (.putFile owner id generation path size sha) .unit s' := by
  by_cases hgen : generation = s.sess.generation
  swap
  · exact Or.inl ⟨.gone, by rw [putFile, Act.get_bind_run, if_pos hgen, Act.fail_run]⟩
  by_cases halive : s.sess.state = .destroyed ∨ s.sess.state = .destroying
  · exact Or.inl ⟨.gone, by rw [putFile, Act.get_bind_run, if_neg (not_not.mpr hgen), if_pos halive, Act.fail_run]⟩
  cases hpath : Workspace.resolve path Workspace.maxPath with
  | error e =>
      refine Or.inl ⟨.badRequest, ?_⟩
      rw [putFile, Act.get_bind_run, if_neg (not_not.mpr hgen), if_neg halive, hpath]
      rfl
  | trap =>
      refine Or.inr (Or.inr ?_)
      rw [putFile, Act.get_bind_run, if_neg (not_not.mpr hgen), if_neg halive, hpath]
      rfl
  | ok r =>
      rw [Ends, putFile_run size sha hgen halive hpath]
      subst hgen
      cases hfind : s.findFile r with
      | some k =>
          obtain ⟨hused, hr⟩ := findFile_some hfind
          rcases overwriteFile_run s hfiles hused size sha with ⟨hfits, hrun | hrun⟩ | ⟨-, hrun⟩
          · refine Or.inr (Or.inl ⟨(), _, hrun, ?_⟩)
            exact .overwrite owner id path size sha k (by rw [hpath, hr]) hused hfits
          · exact Or.inr (Or.inr hrun)
          · exact Or.inl ⟨.limit, hrun⟩
      | none =>
          rcases putFile_new_cases s hfiles r size sha with
            ⟨k, hfree, hshort, hfits, hrun⟩ | ⟨-, -, hrun⟩ | ⟨-, hrun⟩ | ⟨-, -, hrun⟩
          · refine Or.inr (Or.inl ⟨(), _, hrun, ?_⟩)
            exact .store owner id path size sha r k hpath hshort (findFile_none hfind) hfree hfits
          · exact Or.inl ⟨.badRequest, hrun⟩
          · exact Or.inl ⟨.limit, hrun⟩
          · exact Or.inr (Or.inr hrun)

/-! ### Reset -/

theorem session_beginReset_run (sess : Session) :
    Session.beginReset sess = (.error .badState, sess) ∨
      ((sess.state = .ready ∨ sess.state = .busy ∨ sess.state = .expired) ∧
        Session.beginReset sess = (.ok (), { sess with state := .resetting })) := by
  by_cases hstate : sess.state = .ready ∨ sess.state = .busy ∨ sess.state = .expired
  · have hcond : ¬(sess.state ≠ .ready ∧ sess.state ≠ .busy ∧ sess.state ≠ .expired) := by tauto
    refine Or.inr ⟨hstate, ?_⟩
    rw [Session.beginReset, Act.get_bind_run, if_neg hcond, Act.modify_run]
  · have hcond : sess.state ≠ .ready ∧ sess.state ≠ .busy ∧ sess.state ≠ .expired := by tauto
    refine Or.inl ?_
    rw [Session.beginReset, Act.get_bind_run, if_pos hcond, Act.fail_run]

theorem session_finishReset_run {sess : Session} (hstate : sess.state = .resetting) :
    Session.finishReset sess = (.ok (), { sess with
        generation := sess.generation + 1, execDeadlineMs := 0, state := .ready }) ∨
      (Session.finishReset sess).1 = .trap := by
  rw [Session.finishReset, Act.get_bind_run, if_neg (not_not.mpr hstate)]
  by_cases hgen : sess.generation + 1 < u64Bound
  · left
    simp only [addU64_of_lt hgen, Act.lift_ok_bind_run, Act.modify_bind_run, Act.modify_run]
  · right
    simp only [addU64, if_neg hgen, Act.lift_trap_bind_run]

theorem reset_ends (s : SessionSlot) (hcoherent : s.Coherent) (owner : Bytes) (id : Nat) :
    Ends reset s fun n s' => Effect s (.reset owner id) (.number n) s' := by
  rcases session_beginReset_run s.sess with hbegin | ⟨hstate, hbegin⟩
  · refine Or.inl ⟨.badState, ?_⟩
    have hsess : onSess Session.beginReset s = (.error .badState, s) := by rw [onSess_run, hbegin]
    rw [reset, Act.bind_error_run hsess]
  have hready : s.sess.state = .ready ∨ s.sess.state = .busy := by
    rcases hcoherent.state with h | h | h
    · rw [h] at hstate
      simp at hstate
    · exact Or.inl h
    · exact Or.inr h
  have hsess : onSess Session.beginReset s = (.ok (), s.setState .resetting) := by
    rw [onSess_run, hbegin]
    rfl
  set cleared : SessionSlot :=
    { s.setState .resetting with
      execs := fun _ => {}
      files := fun k => { s.files k with used := false }
      ws := s.ws.reset
      eventStart := 0
      eventCount := 0 } with hcleared
  rw [Ends, reset, Act.bind_ok_run hsess]
  simp only [Act.modify_bind_run]
  change (∃ e, (onSess Session.finishReset >>= _) cleared = _) ∨
    (∃ a s', (onSess Session.finishReset >>= _) cleared = _ ∧ _) ∨
    ((onSess Session.finishReset >>= _) cleared).1 = _
  rcases session_finishReset_run (show cleared.sess.state = .resetting from rfl) with hfinish | hfinish
  · have hdone : onSess Session.finishReset cleared = (.ok (), { cleared with sess := { s.sess with
        generation := s.sess.generation + 1, execDeadlineMs := 0, state := .ready } }) := by
      rw [onSess_run, hfinish]
      rfl
    rw [Act.bind_ok_run hdone]
    rcases pushEvent_cases { cleared with sess := { s.sess with
        generation := s.sess.generation + 1, execDeadlineMs := 0, state := .ready } } 0 .lifecycle 0
        with hpush | hpush
    · refine Or.inr (Or.inl ⟨s.sess.generation + 1, s.wiped, ?_, .reset owner id hready⟩)
      rw [Act.bind_ok_run hpush]
      rfl
    · exact Or.inr (Or.inr (Act.bind_traps (by rw [hpush])))
  · exact Or.inr (Or.inr (Act.bind_traps hfinish))

end SessionSlot

end Supervisor
