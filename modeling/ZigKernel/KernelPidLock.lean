import ZigKernel.KernelProc

/-! The discipline of `pid_lock`: a call never waits for the lock while it holds it, gives it back once for every time
that it took it, and leaves it free. Some calls keep to it in every state; the others only where they take no path on
which a helper takes the lock again or a release is made twice. -/

namespace Kernel.Proc

open Zig

/-- The lock after these uses of it, unless one of them breaks the discipline. -/
def track : Bool → List LockOp → Option Bool
  | held, [] => some held
  | false, .acquire :: ops => track true ops
  | true, .release :: ops => track false ops
  | _, _ => none

/-- The call uses the lock so that it ends in `held`; there is none if the discipline is broken. -/
def Uses {α : Type} (m : Run α) (p : Procs) (held : Option Bool) : Prop :=
  ∃ ops, (m p).2.lockOps = p.lockOps ++ ops ∧ track p.pidLock ops = held ∧
    ∀ b, held = some b → (m p).2.pidLock = b

/-- Started with a free lock, the call takes and gives it back in turn and leaves it free. -/
def Disciplined {α : Type} (m : Run α) (p : Procs) : Prop := Uses m p (some false)

/-- What the discipline does not look at. -/
def lockOf (p : Procs) : Bool × List LockOp := (p.pidLock, p.lockOps)

section Rules

variable {α β : Type} {m : Run α} {p : Procs} {held held' : Option Bool} {b : Bool}

theorem track_append (h : Bool) (ops ops' : List LockOp) :
    track h (ops ++ ops') = (track h ops).bind fun b => track b ops' := by
  induction ops generalizing h with
  | nil => rfl
  | cons op ops ih => cases h <;> cases op <;> first | rfl | exact ih _

theorem Uses.unique (h : Uses m p held) (h' : Uses m p held') : held = held' := by
  obtain ⟨ops, hops, htrack, -⟩ := h
  obtain ⟨ops', hops', htrack', -⟩ := h'
  rw [hops] at hops'
  rw [← htrack, ← htrack', List.append_cancel_left hops']

/-- A part that leaves the lock alone. -/
theorem Uses.of_fixes (h : Act.Fixes lockOf m) (p : Procs) : Uses m p (some p.pidLock) := by
  have hp := h p
  refine ⟨[], ?_, rfl, fun b hb => ?_⟩
  · rw [List.append_nil]
    exact congrArg Prod.snd hp
  · cases hb
    exact congrArg Prod.fst hp

theorem Uses.of_held (h : Act.Fixes lockOf m) {p : Procs} (hlock : p.pidLock = true) : Uses m p (some true) := by
  have huses := Uses.of_fixes h p
  rwa [hlock] at huses

theorem Uses.bind {f : α → Run β} {a : α} {t : Procs} (h : Uses m p (some b)) (hrun : m p = (.ok a, t))
    (hf : Uses (f a) t held) : Uses (m >>= f) p held := by
  obtain ⟨ops, hops, htrack, hlock⟩ := h
  obtain ⟨ops', hops', htrack', hlock'⟩ := hf
  rw [hrun] at hops hlock
  refine ⟨ops ++ ops', ?_, ?_, ?_⟩
  · rw [Act.bind_ok_run hrun, hops', hops, List.append_assoc]
  · rw [track_append, htrack, Option.bind_some, ← hlock b rfl]
    exact htrack'
  · rw [Act.bind_ok_run hrun]
    exact hlock'

/-- Nothing follows a part that does not return. -/
theorem Uses.bind_stop {f : α → Run β} (h : Uses m p held) (hstop : ∀ a, (m p).1 ≠ .ok a) : Uses (m >>= f) p held := by
  have hsame : ((m >>= f) p).2 = (m p).2 := by
    rw [Act.bind_run]
    rcases hm : m p with ⟨a | e | _, t⟩
    · rw [hm] at hstop
      exact absurd rfl (hstop a)
    · rfl
    · rfl
  obtain ⟨ops, hops, htrack, hlock⟩ := h
  exact ⟨ops, by rw [hsame]; exact hops, htrack, by rw [hsame]; exact hlock⟩

theorem Uses.get_bind {f : Procs → Run β} (h : Uses (f p) p held) : Uses (Act.get >>= f) p held := h

end Rules

/-! ### Taking the lock -/

section Lock

variable {α β : Type} {m : Run α} {p : Procs} {held : Option Bool}

/-- The state in which the lock has just been taken. -/
def taken (p : Procs) : Procs := { p with pidLock := true, lockOps := p.lockOps ++ [.acquire] }

theorem acquire_run (h : p.pidLock = false) : acquire false p = (.ok (), taken p) := by
  rw [acquire, Act.get_bind_run, h]
  rfl

theorem uses_acquire (h : p.pidLock = false) : Uses (acquire false) p (some true) := by
  rw [Uses, acquire_run h, h]
  exact ⟨[.acquire], rfl, rfl, fun b hb => by cases hb; rfl⟩

/-- Who holds the lock already waits forever. -/
theorem acquire_blocks (h : p.pidLock = true) :
    acquire false p = (.error .spins, { p with pidLock := true, lockOps := p.lockOps ++ [.blocked] }) := by
  rw [acquire, Act.get_bind_run, h]
  rfl

theorem uses_acquire_blocks (h : p.pidLock = true) : Uses (acquire false) p none := by
  rw [Uses, acquire_blocks h, h]
  exact ⟨[.blocked], rfl, rfl, fun b hb => by cases hb⟩

theorem uses_release (p : Procs) : Uses release p (track p.pidLock [.release]) := by
  refine ⟨[.release], rfl, rfl, fun b hb => ?_⟩
  cases h : p.pidLock <;> rw [h] at hb <;> cases hb
  rfl

/-- How a scope that ends with a release leaves the lock. -/
def closing (held : Option Bool) : Option Bool := held.bind fun b => track b [.release]

theorem uses_locked (hfree : p.pidLock = false) {a : α} {t : Procs} (hrun : m (taken p) = (.ok a, t))
    (h : Uses m (taken p) held) : Uses (locked false m) p (closing held) := by
  refine (uses_acquire hfree).bind (acquire_run hfree) ?_
  obtain ⟨ops, hops, htrack, -⟩ := h
  rw [hrun] at hops
  refine ⟨ops ++ [.release], ?_, ?_, fun b hb => ?_⟩
  · rw [Act.bind_ok_run hrun, release, lockOp, Act.modify_bind_run, Act.pure_run, hops, List.append_assoc]
  · rw [track_append, htrack]
    rfl
  · rw [Act.bind_ok_run hrun]
    cases held with
    | none => cases hb
    | some h => cases h <;> cases hb; rfl

theorem uses_locked_stop (hfree : p.pidLock = false) (h : Uses m (taken p) held) (hstop : ∀ a, (m (taken p)).1 ≠ .ok a) :
    Uses (locked false m) p held :=
  (uses_acquire hfree).bind (acquire_run hfree) (h.bind_stop hstop)

/-- A scope whose body leaves the lock alone and returns. -/
theorem disciplined_locked (hfree : p.pidLock = false) (hfixes : Act.Fixes lockOf m) {a : α} {t : Procs}
    (hrun : m (taken p) = (.ok a, t)) : Disciplined (locked false m) p :=
  uses_locked hfree hrun (.of_fixes hfixes (taken p))

theorem disciplined_returns (hfree : p.pidLock = false) (hfixes : Act.Fixes lockOf m)
    (hrun : ∃ a t, m (taken p) = (.ok a, t)) : Disciplined (locked false m) p := by
  obtain ⟨a, t, hrun⟩ := hrun
  exact disciplined_locked hfree hfixes hrun

theorem locked_run (hfree : p.pidLock = false) {a : α} {t : Procs} (hrun : m (taken p) = (.ok a, t)) :
    locked false m p = (.ok a, { t with pidLock := false, lockOps := t.lockOps ++ [.release] }) := by
  rw [locked, Act.bind_ok_run (acquire_run hfree), Act.bind_ok_run hrun]
  rfl

theorem uses_locked_blocks (h : p.pidLock = true) : Uses (locked false m) p none :=
  (uses_acquire_blocks h).bind_stop fun a ha => by
    rw [acquire_blocks h] at ha
    cases ha

theorem locked_blocks (h : p.pidLock = true) (a : α) : (locked false m p).1 ≠ .ok a := by
  rw [locked, Act.bind_error_run (acquire_blocks h)]
  exact fun heq => by cases heq

end Lock

/-! ### The helpers -/

/-- No process and no thread has the id, so that the helpers do not look it up. -/
def NoId (pid : Nat) : Prop := pid = 0 ∨ pid ≥ maxPid

section Helpers

variable {p : Procs} {pid : Nat}

theorem fixes_setProcess (pid : Nat) (i : Option (Fin maxProcesses)) : Act.Fixes lockOf (setProcess pid i) :=
  .modify fun _ => rfl

theorem fixes_setThread (tid : Nat) (i : Option (Fin maxThreads)) : Act.Fixes lockOf (setThread tid i) :=
  .modify fun _ => rfl

theorem fixes_updateProcess (i : Fin maxProcesses) (f : Process → Process) : Act.Fixes lockOf (updateProcess i f) :=
  .modify fun _ => rfl

theorem fixes_get_pure {α : Type} (f : Procs → α) : Act.Fixes lockOf (do let p ← Act.get; pure (f p) : Run α) := fun _ => rfl

/-- A call that leaves the lock alone. -/
theorem disciplined_quiet {α : Type} {m : Run α} (h : p.pidLock = false) (hfixes : Act.Fixes lockOf m) :
    Disciplined m p := by
  have huses := Uses.of_fixes hfixes p
  rwa [h] at huses

theorem freePid_id (hid : ¬NoId pid) : freePid false pid = locked false (setProcess pid none) := if_neg hid

theorem processAt_noId (hid : NoId pid) : processAt false pid = pure none := if_pos hid

theorem processAt_id (hid : ¬NoId pid) : processAt false pid = locked false (do
    let p ← Act.get
    pure (p.processes pid)) := if_neg hid

theorem freePid_disciplined (h : p.pidLock = false) (pid : Nat) : Disciplined (freePid false pid) p := by
  rw [freePid]
  split
  · exact disciplined_quiet h (.pure ())
  · exact disciplined_locked h (fixes_setProcess pid none) rfl

/-- A helper that is called with the lock held. -/
theorem freePid_blocks (h : p.pidLock = true) (hid : ¬NoId pid) : Uses (freePid false pid) p none := by
  rw [freePid_id hid]
  exact uses_locked_blocks h

theorem processAt_disciplined (h : p.pidLock = false) (pid : Nat) : Disciplined (processAt false pid) p := by
  rw [processAt]
  split
  · exact disciplined_quiet h (.pure none)
  · exact disciplined_locked h (fixes_get_pure fun p => p.processes pid) rfl

/-- `processAt` looks a pid up and leaves the tables as they are. -/
theorem processAt_run (h : p.pidLock = false) (pid : Nat) :
    ∃ lockOps, processAt false pid p = (.ok (p.processAt pid), { p with lockOps }) := by
  by_cases hid : NoId pid
  · refine ⟨p.lockOps, ?_⟩
    have hnone : p.processAt pid = none := if_pos hid
    rw [processAt_noId hid, hnone]
    rfl
  · have hbody : (do
        let p ← Act.get
        pure (p.processes pid) : Run _) (taken p) = (.ok (p.processes pid), taken p) := rfl
    refine ⟨p.lockOps ++ [.acquire] ++ [.release], ?_⟩
    have hsome : p.processAt pid = p.processes pid := if_neg hid
    rw [processAt_id hid, locked_run h hbody, hsome]
    cases p
    cases h
    rfl

theorem processAt_blocks (h : p.pidLock = true) (hid : ¬NoId pid) : Uses (processAt false pid) p none := by
  rw [processAt_id hid]
  exact uses_locked_blocks h

theorem processAt_blocked (h : p.pidLock = true) (hid : ¬NoId pid) (i : Option (Fin maxProcesses)) :
    (processAt false pid p).1 ≠ .ok i := by
  rw [processAt_id hid]
  exact locked_blocks h i

theorem threadByTid_disciplined (h : p.pidLock = false) (tid : Nat) : Disciplined (threadByTid false tid) p := by
  rw [threadByTid]
  split
  · exact disciplined_quiet h (.pure none)
  · exact disciplined_locked h (fixes_get_pure fun p => p.threadsByTid tid) rfl

theorem bindTid_disciplined (h : p.pidLock = false) (tid : Nat) (thread : Fin maxThreads) :
    Disciplined (bindTid false tid thread) p := by
  rw [bindTid]
  split
  · exact disciplined_quiet h (.pure ())
  · exact disciplined_locked h (fixes_setThread tid (some thread)) rfl

theorem bindTid_id {tid : Nat} {thread : Fin maxThreads} (hid : ¬NoId tid) :
    bindTid false tid thread = locked false (setThread tid (some thread)) := if_neg hid

theorem bindTid_blocks (h : p.pidLock = true) {tid : Nat} (hid : ¬NoId tid) (thread : Fin maxThreads) :
    Uses (bindTid false tid thread) p none := by
  rw [bindTid_id hid]
  exact uses_locked_blocks h

theorem freeTid_disciplined (h : p.pidLock = false) (tid : Nat) : Disciplined (freeTid false tid) p := by
  rw [freeTid]
  split
  · exact disciplined_quiet h (.pure ())
  · exact disciplined_locked h (fixes_setThread tid none) rfl

theorem allocatePid_disciplined (h : p.pidLock = false) (i : Fin maxProcesses) : Disciplined (allocatePid false i) p := by
  refine disciplined_returns h (Act.Fixes.get.bind fun q => ?_) ?_
  · cases freePidOf q with
    | none => exact .pure none
    | some k => exact (fixes_setProcess _ _).bind fun _ => (fixes_updateProcess _ _).bind fun _ => .pure _
  · rw [Act.get_bind_run]
    cases freePidOf (taken p) with
    | none => exact ⟨none, _, rfl⟩
    | some k => exact ⟨some k, _, rfl⟩

/-- The search for the current process leaves the tables as they are and gives the lock back. -/
theorem currentProcess_uses (h : p.pidLock = false) : Disciplined (currentProcess false) p ∧
    ∃ lockOps, currentProcess false p = (p.currentProcess, { p with lockOps }) := by
  obtain ⟨ops, hrun⟩ := processAt_run h p.currentPid
  have hfree : { p with lockOps := ops }.pidLock = false := h
  obtain ⟨ops', hrun'⟩ := processAt_run hfree 1
  have huses := processAt_disciplined h p.currentPid
  rw [Procs.currentProcess]
  cases hfound : p.processAt p.currentPid with
  | some i =>
      rw [hfound] at hrun
      refine ⟨Uses.get_bind (huses.bind hrun (disciplined_quiet h (.pure i))), ops, ?_⟩
      rw [currentProcess, Act.get_bind_run, Act.bind_ok_run hrun]
      rfl
  | none =>
      rw [hfound] at hrun
      have hinit := processAt_disciplined hfree 1
      have hsame : { p with lockOps := ops }.processAt 1 = p.processAt 1 := rfl
      rw [hsame] at hrun'
      cases hfirst : p.processAt 1 with
      | some i =>
          rw [hfirst] at hrun'
          refine ⟨Uses.get_bind (huses.bind hrun (hinit.bind hrun' (disciplined_quiet h (.pure i)))), ops', ?_⟩
          rw [currentProcess, Act.get_bind_run, Act.bind_ok_run hrun]
          dsimp only
          rw [Act.bind_ok_run hrun']
          rfl
      | none =>
          rw [hfirst] at hrun'
          refine ⟨Uses.get_bind (huses.bind hrun (hinit.bind hrun' (disciplined_quiet h (.lift .trap)))), ops', ?_⟩
          rw [currentProcess, Act.get_bind_run, Act.bind_ok_run hrun]
          dsimp only
          rw [Act.bind_ok_run hrun']
          rfl

end Helpers

/-! ### Parts that leave the lock alone -/

section Quiet

variable {p : Procs}

theorem fixes_allocProcess : Act.Fixes lockOf allocProcess := by
  refine Act.Fixes.get.bind fun p => ?_
  split
  · exact .pure none
  · exact .modify_bind (fun _ => rfl) fun _ => .pure _

theorem fixes_allocThread (i : Fin maxProcesses) : Act.Fixes lockOf (allocThread i) := by
  refine Act.Fixes.get.bind fun p => ?_
  split
  · exact .pure none
  · exact .modify_bind (fun _ => rfl) fun _ => .pure _

theorem allocProcess_returns (p : Procs) : ∃ r t, allocProcess p = (.ok r, t) := by
  rw [allocProcess, Act.get_bind_run]
  cases Table.find? p.processUsed fun used => !used with
  | none => exact ⟨_, _, rfl⟩
  | some i => exact ⟨_, _, rfl⟩

/-- `allocThread` in the two cases of the search. -/
theorem allocThread_none {p : Procs} (i : Fin maxProcesses) (h : Table.find? p.threadUsed (fun used => !used) = none) :
    allocThread i p = (.ok none, p) := by
  rw [allocThread, Act.get_bind_run, h]
  rfl

theorem allocThread_some {p : Procs} (i : Fin maxProcesses) {t : Fin maxThreads}
    (h : Table.find? p.threadUsed (fun used => !used) = some t) :
    allocThread i p = (.ok (some t), { p with
      threadUsed := Function.update p.threadUsed t true
      threads := Function.update p.threads t { process := some i } }) := by
  rw [allocThread, Act.get_bind_run, h]
  rfl

theorem allocThread_returns (i : Fin maxProcesses) (p : Procs) : ∃ r t, allocThread i p = (.ok r, t) := by
  cases h : Table.find? p.threadUsed fun used => !used with
  | none => exact ⟨_, _, allocThread_none i h⟩
  | some t => exact ⟨_, _, allocThread_some i h⟩

theorem fixes_addChild (parent child : Fin maxProcesses) : Act.Fixes lockOf (addChild parent child) := by
  refine Act.Fixes.get.bind fun p => ?_
  split
  · exact .pure ()
  · exact fixes_updateProcess _ _

theorem addChild_returns (parent child : Fin maxProcesses) (p : Procs) : ∃ t, addChild parent child p = (.ok (), t) := by
  rw [addChild, Act.get_bind_run]
  cases freeChildOf (p.storage parent) with
  | none => exact ⟨_, rfl⟩
  | some j => exact ⟨_, rfl⟩

theorem fixes_forkPid (parent child : Fin maxProcesses) : Act.Fixes lockOf (forkPid parent child) := by
  refine Act.Fixes.get.bind fun p => ?_
  split
  · exact .pure 0
  · refine (fixes_setProcess _ _).bind fun _ => (fixes_updateProcess _ _).bind fun _ => ?_
    refine (fixes_allocThread _).bind fun thread => ?_
    cases thread with
    | none => exact .pure 0
    | some thread =>
        refine .modify_bind (fun _ => rfl) fun _ => (fixes_setThread _ _).bind fun _ => ?_
        exact (fixes_addChild _ _).bind fun _ => .pure _

theorem forkPid_returns (parent child : Fin maxProcesses) (p : Procs) : ∃ r t, forkPid parent child p = (.ok r, t) := by
  rw [forkPid, Act.get_bind_run]
  cases freePidOf p with
  | none => exact ⟨_, _, rfl⟩
  | some pid =>
      dsimp only
      rw [setProcess, Act.modify_bind_run, updateProcess, Act.modify_bind_run]
      obtain ⟨thread, t, hthread⟩ := allocThread_returns child
        { p with
          processes := Function.update p.processes pid (some child)
          storage := Function.update p.storage child { p.storage child with pid } }
      rw [Act.bind_ok_run hthread]
      cases thread with
      | none => exact ⟨_, _, rfl⟩
      | some thread =>
          dsimp only
          rw [Act.modify_bind_run, setThread, Act.modify_bind_run]
          obtain ⟨t', hadd⟩ := addChild_returns parent child
            { t with
              threads := Function.update t.threads thread { t.threads thread with tid := pid }
              threadsByTid := Function.update t.threadsByTid pid (some thread) }
          rw [Act.bind_ok_run hadd]
          exact ⟨_, _, rfl⟩

theorem fixes_forkFrom (parent : Fin maxProcesses) : Act.Fixes lockOf (forkFrom parent) := by
  refine fixes_allocProcess.bind fun child => ?_
  cases child with
  | none => exact .pure 0
  | some child => exact Act.Fixes.get.bind fun p => (fixes_updateProcess _ _).bind fun _ => fixes_forkPid _ _

theorem forkFrom_returns (parent : Fin maxProcesses) (p : Procs) : ∃ r t, forkFrom parent p = (.ok r, t) := by
  obtain ⟨child, t, hchild⟩ := allocProcess_returns p
  rw [forkFrom, Act.bind_ok_run hchild]
  cases child with
  | none => exact ⟨_, _, rfl⟩
  | some child => exact forkPid_returns parent child _

end Quiet

/-! ### The calls -/

section Calls

variable {α β : Type} {p : Procs} {S : Prop}

/-- The call keeps to the discipline where `S` holds, and breaks it where `S` does not. -/
def Decides (m : Run α) (p : Procs) (S : Prop) : Prop := ∃ held, Uses m p held ∧ (held = some false ↔ S)

theorem Decides.iff {m : Run α} (h : Decides m p S) : Disciplined m p ↔ S := by
  obtain ⟨held, huses, hheld⟩ := h
  rw [← hheld]
  refine ⟨fun hd => huses.unique hd, ?_⟩
  rintro rfl
  exact huses

theorem Decides.of_disciplined {m : Run α} (h : Disciplined m p) (hS : S) : Decides m p S :=
  ⟨some false, h, fun _ => hS, fun _ => rfl⟩

theorem Decides.of_breaks {m : Run α} {held : Option Bool} (h : Uses m p held) (hne : held ≠ some false) (hS : ¬S) :
    Decides m p S :=
  ⟨held, h, fun heq => absurd heq hne, fun hs => absurd hs hS⟩

theorem Decides.bind {m : Run α} {f : α → Run β} {a : α} {t : Procs} (h : Disciplined m p) (hrun : m p = (.ok a, t))
    (hf : Decides (f a) t S) : Decides (m >>= f) p S := by
  obtain ⟨held, huses, hheld⟩ := hf
  exact ⟨held, h.bind hrun huses, hheld⟩

/-- How the body of a scope has to leave the lock, which the scope takes before it and gives back after it. -/
def Inner (m : Run α) (p : Procs) (S : Prop) : Prop :=
  (S → Uses m p (some true) ∧ ∃ a t, m p = (.ok a, t)) ∧
    (¬S → ∃ held, Uses m p held ∧ ((∃ a t, m p = (.ok a, t)) → held ≠ some true) ∧
      ((∀ a, (m p).1 ≠ .ok a) → held ≠ some false))

theorem Inner.decides {m : Run α} (hfree : p.pidLock = false) (h : Inner m (taken p) S) :
    Decides (locked false m) p S := by
  by_cases hS : S
  · obtain ⟨huses, a, t, hrun⟩ := h.1 hS
    exact .of_disciplined (uses_locked hfree hrun huses) hS
  · obtain ⟨held, huses, hreturned, hstopped⟩ := h.2 hS
    by_cases hstop : ∀ a, (m (taken p)).1 ≠ .ok a
    · exact .of_breaks (uses_locked_stop hfree huses hstop) (hstopped hstop) hS
    · push Not at hstop
      obtain ⟨a, ha⟩ := hstop
      have hrun : m (taken p) = (.ok a, (m (taken p)).2) := Prod.ext ha rfl
      refine .of_breaks (uses_locked hfree hrun huses) (fun heq => ?_) hS
      rcases held with _ | held | held
      · cases heq
      · cases heq
      · exact hreturned ⟨a, _, hrun⟩ rfl

theorem Inner.congr {m : Run α} {S' : Prop} (h : Inner m p S) (hS : S ↔ S') : Inner m p S' := by
  rwa [propext hS] at h

theorem Inner.of_returns {m : Run α} (h : Uses m p (some true)) {a : α} {t : Procs} (hrun : m p = (.ok a, t))
    (hS : S) : Inner m p S :=
  ⟨fun _ => ⟨h, a, t, hrun⟩, fun hn => absurd hS hn⟩

/-- A body that waits for the lock that its scope holds. -/
theorem Inner.of_blocks {m : Run α} (h : Uses m p none) (hS : ¬S) : Inner m p S :=
  ⟨fun hs => absurd hs hS, fun _ => ⟨none, h, fun _ => (Option.some_ne_none true).symm, fun _ => (Option.some_ne_none false).symm⟩⟩

/-- A body that stops while its scope holds the lock. -/
theorem Inner.of_stop {m : Run α} (h : Uses m p (some true)) (hstop : ∀ a, (m p).1 ≠ .ok a) (hS : ¬S) : Inner m p S := by
  refine ⟨fun hs => absurd hs hS, fun _ => ⟨some true, h, ?_, fun _ => by decide⟩⟩
  rintro ⟨a, t, hrun⟩
  rw [hrun] at hstop
  exact absurd rfl (hstop a)

/-- A body that gives the lock back itself. -/
theorem Inner.of_released {m : Run α} (h : Uses m p (some false)) {a : α} {t : Procs} (hrun : m p = (.ok a, t))
    (hS : ¬S) : Inner m p S := by
  refine ⟨fun hs => absurd hs hS, fun _ => ⟨some false, h, fun _ => by decide, fun hstop => ?_⟩⟩
  rw [hrun] at hstop
  exact absurd rfl (hstop a)

theorem Inner.after {m : Run α} {f : α → Run β} {a : α} {t : Procs} {b : Bool} (huses : Uses m p (some b))
    (hrun : m p = (.ok a, t)) (hf : Inner (f a) t S) : Inner (m >>= f) p S := by
  refine ⟨fun hs => ?_, fun hs => ?_⟩
  · obtain ⟨hu, b, u, hb⟩ := hf.1 hs
    exact ⟨huses.bind hrun hu, b, u, by rw [Act.bind_ok_run hrun, hb]⟩
  · obtain ⟨held, hu, hreturned, hstopped⟩ := hf.2 hs
    refine ⟨held, huses.bind hrun hu, ?_⟩
    rw [Act.bind_ok_run hrun]
    exact ⟨hreturned, hstopped⟩

/-- After a part that leaves the lock alone. -/
theorem Inner.bind {m : Run α} {f : α → Run β} {a : α} {t : Procs} (hlock : p.pidLock = true)
    (h : Act.Fixes lockOf m) (hrun : m p = (.ok a, t)) (hf : Inner (f a) t S) : Inner (m >>= f) p S :=
  .after (.of_held h hlock) hrun hf

/-- What comes after the search for the current process. -/
theorem decides_current {f : Fin maxProcesses → Run β} {S : Fin maxProcesses → Prop} (hfree : p.pidLock = false)
    (h : ∀ i lockOps, p.currentProcess = .ok i → Decides (f i) { p with lockOps } (S i)) :
    Decides (currentProcess false >>= f) p (∀ i, p.currentProcess = .ok i → S i) := by
  obtain ⟨huses, ops, hrun⟩ := currentProcess_uses hfree
  cases hcurrent : p.currentProcess with
  | ok i =>
      rw [hcurrent] at hrun
      obtain ⟨held, hu, hheld⟩ := h i ops hcurrent
      refine ⟨held, huses.bind hrun hu, hheld.trans ⟨fun hS j hj => ?_, fun hS => hS i rfl⟩⟩
      cases hj
      exact hS
  | error e =>
      rw [hcurrent] at hrun
      refine .of_disciplined (huses.bind_stop fun a ha => ?_) fun j hj => by cases hj
      rw [hrun] at ha
      cases ha
  | trap =>
      rw [hcurrent] at hrun
      refine .of_disciplined (huses.bind_stop fun a ha => ?_) fun j hj => by cases hj
      rw [hrun] at ha
      cases ha

/-! ### fork, newThread, kill and exit -/

theorem decides_fork (h : p.pidLock = false) : Decides (fork false) p (p.currentPid < maxPid) := by
  refine Inner.decides h (.bind (t := taken p) (a := taken p) rfl .get rfl ?_)
  by_cases hpid : (taken p).currentPid ≥ maxPid
  · rw [if_pos hpid]
    refine .of_stop (.of_fixes (.lift .trap) (taken p)) (fun a ha => ?_) (Nat.not_lt.mpr hpid)
    cases ha
  · rw [if_neg hpid]
    have hlt := Nat.not_le.mp hpid
    cases ((taken p).processes (taken p).currentPid).or ((taken p).processes 1) with
    | none => exact .of_returns (.of_fixes (.pure 0) (taken p)) rfl hlt
    | some parent =>
        obtain ⟨r, t, hrun⟩ := forkFrom_returns parent (taken p)
        exact .of_returns (.of_fixes (fixes_forkFrom parent) (taken p)) hrun hlt

theorem freeTidOf_id {p : Procs} {tid : Nat} (h : freeTidOf p = some tid) : ¬NoId tid := by
  have hmem : tid ∈ pids := List.mem_of_find?_eq_some h
  obtain ⟨hle, hlt⟩ := List.mem_range'_1.mp hmem
  rintro (hzero | hge)
  · rw [hzero] at hle
    exact absurd hle (by decide)
  · exact absurd hge (Nat.not_le.mpr hlt)

/-- `newThread` keeps to the discipline where it makes no thread: binding the tid takes the lock again. -/
theorem decides_newThread (h : p.pidLock = false) : Decides (newThread false) p
    (∀ i, p.currentProcess = .ok i → Table.find? p.threadUsed (fun used => !used) = none ∨ freeTidOf p = none) := by
  refine decides_current h fun i ops _ => Inner.decides h ?_
  cases hthread : Table.find? p.threadUsed fun used => !used with
  | none =>
      refine .bind rfl (fixes_allocThread i) (allocThread_none i hthread) ?_
      exact .of_returns (.of_fixes (.pure 0) _) rfl (Or.inl rfl)
  | some t =>
      refine .bind rfl (fixes_allocThread i) (allocThread_some i hthread) ?_
      dsimp only
      refine .bind rfl .get rfl ?_
      have hsame : ∀ q : Procs, q.threadsByTid = p.threadsByTid → freeTidOf q = freeTidOf p := by
        intro q hq
        rw [freeTidOf, hq]
        rfl
      rw [hsame]
      · cases htid : freeTidOf p with
        | none => exact .of_returns (.of_fixes (.pure 0) _) rfl (Or.inr rfl)
        | some tid =>
            dsimp only
            refine .bind rfl (.modify fun _ => rfl) rfl ?_
            refine .of_blocks ((bindTid_blocks rfl (freeTidOf_id htid) t).bind_stop fun a ha => ?_) ?_
            · rw [bindTid_id (freeTidOf_id htid)] at ha
              exact locked_blocks rfl _ ha
            · rintro (hnone | hnone)
              · cases hnone
              · cases hnone
      · rfl

theorem decides_kill (h : p.pidLock = false) (pid : Int) (sig : Nat) :
    Decides (kill false pid sig) p (sig = 0 ∨ sig > sigkillMax ∨ 0 ≤ pid ∧ NoId pid.toNat) := by
  rw [kill]
  split
  · next hsig => exact .of_disciplined (disciplined_quiet h (.pure 0)) (Or.inl hsig)
  split
  · next hsig => exact .of_disciplined (disciplined_quiet h (.pure (-22))) (Or.inr (Or.inl hsig))
  next hzero hmax =>
    have hacquire := uses_acquire h
    have hrun := acquire_run h
    have hnot {Q : Prop} (hQ : ¬Q) : ¬(sig = 0 ∨ sig > sigkillMax ∨ Q) := by tauto
    by_cases hpid : 0 ≤ pid
    · rw [castUsize_of_nonneg hpid]
      by_cases hid : NoId pid.toNat
      · refine .of_disciplined (hacquire.bind hrun ?_) (Or.inr (Or.inr ⟨hpid, hid⟩))
        refine (Uses.of_fixes (.lift _) (taken p)).bind rfl ?_
        rw [processAt_noId hid]
        refine (Uses.of_fixes (.pure none) (taken p)).bind rfl ?_
        exact (uses_release (taken p)).bind rfl (Uses.of_fixes (.pure _) _)
      · refine .of_breaks (show Uses _ p none from hacquire.bind hrun ?_) (by decide) (hnot fun hand => hid hand.2)
        refine (Uses.of_fixes (.lift _) (taken p)).bind rfl ?_
        exact (processAt_blocks rfl hid).bind_stop (processAt_blocked rfl hid)
    · refine .of_breaks (show Uses _ p (some true) from hacquire.bind hrun ?_) (by decide) (hnot fun hand => hpid hand.1)
      rw [castUsize, if_neg hpid]
      exact (Uses.of_fixes (.lift .trap) (taken p)).bind_stop fun a ha => by cases ha

theorem decides_exit (h : p.pidLock = false) (code : Int) :
    Decides (exit false code) p (∀ i, p.currentProcess = .ok i → NoId (p.storage i).pid) := by
  refine decides_current h fun i ops _ => ?_
  have hfree : ({ p with lockOps := ops } : Procs).pidLock = false := h
  set q : Procs := { taken { p with lockOps := ops } with
    storage := Function.update p.storage i { p.storage i with status := realCode code, exiting := true } } with hq
  have hpid : (q.storage i).pid = (p.storage i).pid := by
    have hself : q.storage i = _ := Function.update_self i _ p.storage
    rw [hself]
  have hquiet := Uses.of_fixes (fixes_updateProcess i fun process =>
    { process with status := realCode code, exiting := true }) (taken { p with lockOps := ops })
  by_cases hid : NoId (p.storage i).pid
  · refine .of_disciplined ((uses_acquire hfree).bind (acquire_run hfree) (hquiet.bind (t := q) rfl ?_)) hid
    refine Uses.get_bind ?_
    rw [hpid, processAt_noId hid]
    refine (Uses.of_fixes (.pure none) q).bind rfl ((uses_release q).bind rfl ?_)
    exact .of_fixes (.fail .spins) _
  · refine .of_breaks (show Uses _ _ none from
      (uses_acquire hfree).bind (acquire_run hfree) (hquiet.bind (t := q) rfl ?_)) (by decide) hid
    refine Uses.get_bind ?_
    rw [hpid]
    exact (processAt_blocks rfl hid).bind_stop (processAt_blocked rfl hid)

/-! ### waitpid -/

/-- The status can be written where the caller asks for it. -/
def StatusWritable (wstatus : Nat) (status : Int) : Prop := wstatus = 0 ∨ wstatus % 4 = 0 ∧ 0 ≤ status

theorem writeStatus_ok {wstatus : Nat} {status : Int} (h : StatusWritable wstatus status) :
    writeStatus wstatus status = .ok () := by
  rw [writeStatus]
  split
  · rfl
  next hne =>
    obtain ⟨halign, hstatus⟩ := h.resolve_left hne
    rw [ptrFromInt, if_pos ⟨hne, halign⟩, castUsize_of_nonneg hstatus]
    rfl

theorem writeStatus_trap {wstatus : Nat} {status : Int} (h : ¬StatusWritable wstatus status) :
    writeStatus wstatus status = .trap := by
  rw [StatusWritable, not_or, not_and_or] at h
  rw [writeStatus, if_neg h.1, ptrFromInt]
  rcases h.2 with halign | hstatus
  · rw [if_neg fun hand => halign hand.2]
    rfl
  · rw [castUsize, if_neg hstatus]
    split <;> rfl

/-- A child that `reap` does not take the lock again for. -/
def Reapable (child : Process) (wstatus : Nat) : Prop := StatusWritable wstatus child.status ∧ NoId child.pid

theorem inner_reap {p : Procs} (hlock : p.pidLock = true) (current : Fin maxProcesses) (slot : Fin maxChildren)
    (child : Fin maxProcesses) (wstatus : Nat) :
    Inner (reap false current slot child wstatus) p (Reapable (p.storage child) wstatus) := by
  refine .bind hlock (fixes_updateProcess _ _) rfl (.bind hlock .get rfl ?_)
  set q : Procs := { p with storage := Function.update p.storage current { p.storage current with
    children := Function.update (p.storage current).children slot none } } with hq
  have hsame : (q.storage child).status = (p.storage child).status ∧ (q.storage child).pid = (p.storage child).pid := by
    by_cases heq : child = current
    · subst heq
      have hself : q.storage child = _ := Function.update_self child _ p.storage
      rw [hself]
      exact ⟨rfl, rfl⟩
    · have hother : q.storage child = p.storage child := Function.update_of_ne heq _ p.storage
      rw [hother]
      exact ⟨rfl, rfl⟩
  rw [hsame.1]
  by_cases hwrite : StatusWritable wstatus (p.storage child).status
  · rw [writeStatus_ok hwrite]
    refine .bind hlock (.lift _) rfl ?_
    rw [hsame.2]
    by_cases hid : NoId (p.storage child).pid
    · have hnone : freePid false (p.storage child).pid = pure () := if_pos hid
      rw [hnone]
      refine .bind hlock (.pure ()) rfl (.bind hlock .get rfl ?_)
      exact .of_returns (.of_held (.pure _) hlock) rfl ⟨hwrite, hid⟩
    · refine .of_blocks ((freePid_blocks (p := q) hlock hid).bind_stop fun a ha => ?_) fun hand => hid hand.2
      rw [freePid_id hid] at ha
      exact locked_blocks (p := q) hlock a ha
  · rw [writeStatus_trap hwrite]
    have huses : Uses (Act.lift .trap : Run Unit) q (some true) := .of_held (.lift .trap) hlock
    exact .of_stop (huses.bind_stop fun a ha => by cases ha) (fun a ha => by cases ha) fun hand => hwrite hand.1

/-- The tables when a waiting call gets the lock back. -/
def resumed (others : Procs → Procs) (p : Procs) : Procs := others { p with pidLock := false, lockOps := [] }

/-- A child that runs: the call returns at once, or the child has not exited meanwhile, or it can be reaped. -/
def Waitable (others : Procs → Procs) (p : Procs) (child : Fin maxProcesses) (wstatus options : Nat) : Prop :=
  options &&& wnohang ≠ 0 ∨
    (((resumed others p).storage child).status ≠ (p.storage child).status ∧
      ((resumed others p).storage child).exiting → Reapable ((resumed others p).storage child) wstatus)

theorem inner_waitRunning {p : Procs} (hlock : p.pidLock = true) (others : Procs → Procs) (current : Fin maxProcesses)
    (slot : Fin maxChildren) (child : Fin maxProcesses) (wstatus options : Nat) :
    Inner (waitRunning false others current slot child wstatus options) p
      (Waitable others p child wstatus options) := by
  refine .bind hlock .get rfl ?_
  by_cases hnohang : options &&& wnohang ≠ 0
  · rw [if_pos hnohang]
    exact .of_returns (.of_held (.pure 0) hlock) rfl (Or.inl hnohang)
  · rw [if_neg hnohang]
    have hreleased := uses_release p
    rw [hlock] at hreleased
    refine .after hreleased rfl (.after (b := false) (.of_fixes (.modify fun _ => rfl) _) rfl ?_)
    refine .after (uses_acquire rfl) (acquire_run rfl) (.bind rfl .get rfl ?_)
    split
    next hexited =>
      refine (inner_reap rfl current slot child wstatus).congr ⟨fun h => Or.inr fun _ => h, fun h => ?_⟩
      exact h.resolve_left hnohang hexited
    next hexited => exact .of_returns (.of_held (.pure (-11)) rfl) rfl (Or.inr fun h => absurd h hexited)

/-- What `waitpid` finds: a child that has exited and can be reaped, or one that runs and can be waited for. -/
def Found (others : Procs → Procs) (p : Procs) (current : Fin maxProcesses) (pid : Int) (wstatus options : Nat) : Prop :=
  ∃ slot child, findChild p current pid = some (slot, child) ∧
    if (p.storage child).exiting then Reapable (p.storage child) wstatus else Waitable others p child wstatus options

theorem inner_waitChild {p : Procs} (hlock : p.pidLock = true) (others : Procs → Procs) (current : Fin maxProcesses)
    (pid : Int) (wstatus options : Nat) :
    Inner (waitChild false others current pid wstatus options) p (Found others p current pid wstatus options) := by
  refine .bind hlock .get rfl ?_
  cases hfound : findChild p current pid with
  | none =>
      have hreleased := uses_release p
      rw [hlock] at hreleased
      refine .of_released (show Uses _ _ (some false) from hreleased.bind rfl (.of_fixes (.pure (-10)) _)) rfl ?_
      rintro ⟨slot, child, hsome, -⟩
      rw [hfound] at hsome
      cases hsome
  | some found =>
      have hiff : Found others p current pid wstatus options ↔
          if (p.storage found.2).exiting then Reapable (p.storage found.2) wstatus
          else Waitable others p found.2 wstatus options := by
        refine ⟨?_, fun h => ⟨found.1, found.2, hfound, h⟩⟩
        rintro ⟨slot, child, hsome, h⟩
        rw [hfound] at hsome
        cases hsome
        exact h
      dsimp only
      split
      next hexiting =>
        refine (inner_reap hlock current found.1 found.2 wstatus).congr ?_
        rw [hiff, if_pos hexiting]
      next hexiting =>
        refine (inner_waitRunning hlock others current found.1 found.2 wstatus options).congr ?_
        rw [hiff, if_neg hexiting]

theorem decides_waitpid (h : p.pidLock = false) (others : Procs → Procs) (pid : Int) (wstatus options : Nat) :
    Decides (waitpid false others pid wstatus options) p
      (∀ i, p.currentProcess = .ok i → Found others p i pid wstatus options) :=
  decides_current h fun i _ _ => Inner.decides h (inner_waitChild rfl others i pid wstatus options)

end Calls

/-! ### Every call -/

/-- A call that uses `pid_lock`, with its arguments. While `waitpid` lets the lock go, `others` may run. -/
inductive Call where
  | allocatePid (process : Fin maxProcesses)
  | freePid (pid : Nat)
  | processAt (pid : Nat)
  | threadByTid (tid : Nat)
  | bindTid (tid : Nat) (thread : Fin maxThreads)
  | freeTid (tid : Nat)
  | fork
  | exit (code : Int)
  | waitpid (others : Procs → Procs) (pid : Int) (wstatus options : Nat)
  | newThread
  | kill (pid : Int) (sig : Nat)

namespace Call

/-- The call never takes the lock while it holds it, gives it back once for every time it took it, and ends without it. -/
def KeepsDiscipline : Call → Procs → Prop
  | allocatePid i => Disciplined (Proc.allocatePid false i)
  | freePid pid => Disciplined (Proc.freePid false pid)
  | processAt pid => Disciplined (Proc.processAt false pid)
  | threadByTid tid => Disciplined (Proc.threadByTid false tid)
  | bindTid tid thread => Disciplined (Proc.bindTid false tid thread)
  | freeTid tid => Disciplined (Proc.freeTid false tid)
  | fork => Disciplined (Proc.fork false)
  | exit code => Disciplined (Proc.exit false code)
  | waitpid others pid wstatus options => Disciplined (Proc.waitpid false others pid wstatus options)
  | newThread => Disciplined (Proc.newThread false)
  | kill pid sig => Disciplined (Proc.kill false pid sig)

/-- The call takes no path on which a helper is called with the lock held, or on which it is given back twice. -/
def LockSafe (p : Procs) : Call → Prop
  | fork => p.currentPid < maxPid
  | exit _ => ∀ i, p.currentProcess = .ok i → NoId (p.storage i).pid
  | waitpid others pid wstatus options => ∀ i, p.currentProcess = .ok i → Found others p i pid wstatus options
  | newThread => ∀ i, p.currentProcess = .ok i →
      Table.find? p.threadUsed (fun used => !used) = none ∨ freeTidOf p = none
  | kill pid sig => sig = 0 ∨ sig > sigkillMax ∨ 0 ≤ pid ∧ NoId pid.toNat
  | _ => True

end Call

/-- `pid_lock` is used as a lock that is not reentrant must be, exactly on the paths of `LockSafe`. -/
theorem pid_lock_discipline (c : Call) (p : Procs) (hfree : p.pidLock = false) : c.KeepsDiscipline p ↔ c.LockSafe p := by
  cases c with
  | allocatePid i => exact iff_of_true (allocatePid_disciplined hfree i) True.intro
  | freePid pid => exact iff_of_true (freePid_disciplined hfree pid) True.intro
  | processAt pid => exact iff_of_true (processAt_disciplined hfree pid) True.intro
  | threadByTid tid => exact iff_of_true (threadByTid_disciplined hfree tid) True.intro
  | bindTid tid thread => exact iff_of_true (bindTid_disciplined hfree tid thread) True.intro
  | freeTid tid => exact iff_of_true (freeTid_disciplined hfree tid) True.intro
  | fork => exact (decides_fork hfree).iff
  | exit code => exact (decides_exit hfree code).iff
  | waitpid others pid wstatus options => exact (decides_waitpid hfree others pid wstatus options).iff
  | newThread => exact (decides_newThread hfree).iff
  | kill pid sig => exact (decides_kill hfree pid sig).iff

theorem pid_lock_discipline_boot : Call.fork.KeepsDiscipline booted ↔ Call.fork.LockSafe booted :=
  pid_lock_discipline .fork booted rfl

/-- A signal to the init process is never sent: the call waits for the lock that it has taken. -/
theorem kill_waits_for_itself :
    (kill false 1 9 booted).1 = .error .spins ∧ ¬(Call.kill 1 9).KeepsDiscipline booted := by
  refine ⟨rfl, fun h => ?_⟩
  have hsafe := (decides_kill (p := booted) rfl 1 9).iff.mp h
  revert hsafe
  simp [NoId, sigkillMax, maxPid]

end Kernel.Proc
