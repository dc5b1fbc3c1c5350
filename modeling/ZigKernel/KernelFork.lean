import ZigKernel.KernelPidLock

/-! What `fork` does to the tables when it returns: it refuses, or it stops halfway with what it has taken, or it makes
a child. -/

namespace Kernel.Proc

open Zig

section Locked

variable {α : Type} {m : Run α} {p : Procs}

theorem acquire_always (p : Procs) : acquire true p = (.ok (), taken p) := by
  rw [acquire, Act.get_bind_run, if_neg fun h => h.2 rfl]
  rfl

theorem locked_always {a : α} {t : Procs} (h : m (taken p) = (.ok a, t)) :
    locked true m p = (.ok a, { t with pidLock := false, lockOps := t.lockOps ++ [.release] }) := by
  rw [locked, Act.bind_ok_run (acquire_always p), Act.bind_ok_run h]
  rfl

end Locked

/-- The tables, with the lock left out. -/
def tables (p : Procs) : Procs := { p with pidLock := false, lockOps := [] }

def SameTables (p t : Procs) : Prop := tables t = tables p

/-- Whatever does not look at the lock is the same. -/
theorem SameTables.congr {α : Sort*} {p t : Procs} (h : SameTables p t) (f : Procs → α) (hf : ∀ p, f (tables p) = f p) :
    f t = f p := by
  rw [← hf t, ← hf p]
  exact congrArg f h

/-- The parent with the child in its children array, if there is room. -/
def withChild (parent : Process) (child : Fin maxProcesses) : Process :=
  match freeChildOf parent with
  | none => parent
  | some j => { parent with children := Function.update parent.children j (some child) }

/-- A new child in slot `c`, with the id `k` and the main thread `th`. -/
structure Forked (p : Procs) (parent c : Fin maxProcesses) (k : Nat) (th : Fin maxThreads) (t : Procs) : Prop where
  processes : t.processes = Function.update p.processes k (some c)
  threadsByTid : t.threadsByTid = Function.update p.threadsByTid k (some th)
  processUsed : t.processUsed = Function.update p.processUsed c true
  threadUsed : t.threadUsed = Function.update p.threadUsed th true
  currentPid : t.currentPid = p.currentPid
  child : t.storage c =
    { pid := k, ppid := (p.storage parent).pid, pgid := (p.storage parent).pgid, fds := (p.storage parent).fds }
  forking : t.storage parent = withChild (p.storage parent) c
  other : ∀ i, i ≠ c → i ≠ parent → t.storage i = p.storage i
  thread : t.threads th = { tid := k, process := some c }
  otherThread : ∀ i, i ≠ th → t.threads i = p.threads i

def freeProcess (p : Procs) : Option (Fin maxProcesses) := Table.find? p.processUsed fun used => !used
def freeThread (p : Procs) : Option (Fin maxThreads) := Table.find? p.threadUsed fun used => !used

/-- How `fork` of this parent ends. -/
inductive ForkResult (p : Procs) (parent : Fin maxProcesses) : Nat → Procs → Prop where
  | refused {t : Procs} (hfull : freeProcess p = none) (h : SameTables p t) : ForkResult p parent 0 t
  | leaked {t : Procs} {c : Fin maxProcesses} (hc : freeProcess p = some c)
      (h : freePidOf p = none ∨ freeThread p = none) (hused : t.processUsed c = true) : ForkResult p parent 0 t
  | forked {t : Procs} {c : Fin maxProcesses} {k : Nat} {th : Fin maxThreads} (hc : freeProcess p = some c)
      (hk : freePidOf p = some k) (hth : freeThread p = some th) (h : Forked p parent c k th t) :
      ForkResult p parent k t

section Fork

variable {p : Procs} {parent : Fin maxProcesses}

theorem freePidOf_some {k : Nat} (h : freePidOf p = some k) :
    k ≠ 0 ∧ k < maxPid ∧ p.processes k = none ∧ p.threadsByTid k = none := by
  have hmem : k ∈ pids := List.mem_of_find?_eq_some h
  have hfree := List.find?_some h
  rw [Bool.and_eq_true, Option.isNone_iff_eq_none, Option.isNone_iff_eq_none] at hfree
  obtain ⟨hone, hlt⟩ := List.mem_range'_1.mp hmem
  exact ⟨Nat.one_le_iff_ne_zero.mp hone, hlt, hfree⟩

theorem allocProcess_none (h : freeProcess p = none) : allocProcess p = (.ok none, p) := by
  rw [freeProcess] at h
  rw [allocProcess, Act.get_bind_run, h]
  rfl

theorem allocProcess_some {c : Fin maxProcesses} (h : freeProcess p = some c) : allocProcess p = (.ok (some c), { p with
    processUsed := Function.update p.processUsed c true, storage := Function.update p.storage c {} }) := by
  rw [freeProcess] at h
  rw [allocProcess, Act.get_bind_run, h]
  rfl

theorem addChild_run (parent child : Fin maxProcesses) : addChild parent child p =
    (.ok (), { p with storage := Function.update p.storage parent (withChild (p.storage parent) child) }) := by
  rw [addChild, Act.get_bind_run, withChild]
  cases freeChildOf (p.storage parent) with
  | none =>
      dsimp only
      rw [Function.update_eq_self]
      rfl
  | some j => rfl

/-- `forkPid` in a state in which the child's slot has been taken. -/
theorem forkPid_none {c : Fin maxProcesses} (h : freePidOf p = none) : forkPid parent c p = (.ok 0, p) := by
  rw [forkPid, Act.get_bind_run, h]
  rfl

/-- The child's entry once it has its pid. -/
def withPid (p : Procs) (c : Fin maxProcesses) (k : Nat) : Procs := { p with
  processes := Function.update p.processes k (some c)
  storage := Function.update p.storage c { p.storage c with pid := k } }

theorem forkPid_pid {c : Fin maxProcesses} {k : Nat} (h : freePidOf p = some k) : forkPid parent c p = (do
    let thread ← allocThread c
    match thread with
    | none => pure 0
    | some thread => do
        Act.modify fun p => { p with
          threads := Function.update p.threads thread { p.threads thread with tid := k } }
        setThread k (some thread)
        addChild parent c
        pure k : Run Nat) (withPid p c k) := by
  rw [forkPid, Act.get_bind_run, h]
  rfl

theorem forkPid_noThread {c : Fin maxProcesses} {k : Nat} (h : freePidOf p = some k) (hth : freeThread p = none) :
    forkPid parent c p = (.ok 0, withPid p c k) := by
  have hrun : allocThread c (withPid p c k) = (.ok none, withPid p c k) := allocThread_none c hth
  rw [forkPid_pid h, Act.bind_ok_run hrun]
  rfl

/-- The tables with the child and its thread. -/
def withThread (p : Procs) (c : Fin maxProcesses) (k : Nat) (th : Fin maxThreads) : Procs := { withPid p c k with
  threadUsed := Function.update p.threadUsed th true
  threads := Function.update p.threads th { tid := k, process := some c }
  threadsByTid := Function.update p.threadsByTid k (some th) }

theorem forkPid_thread {c : Fin maxProcesses} {k : Nat} {th : Fin maxThreads} (h : freePidOf p = some k)
    (hth : freeThread p = some th) : forkPid parent c p = (.ok k, { withThread p c k th with
      storage := Function.update (withPid p c k).storage parent (withChild ((withPid p c k).storage parent) c) }) := by
  have hrun : allocThread c (withPid p c k) = (.ok (some th), { withPid p c k with
      threadUsed := Function.update p.threadUsed th true
      threads := Function.update p.threads th { process := some c } }) := allocThread_some c hth
  have htid : Function.update (Function.update p.threads th { process := some c }) th
      { Function.update p.threads th { process := some c } th with tid := k } =
      Function.update p.threads th { tid := k, process := some c } := by
    rw [Function.update_idem, Function.update_self]
  rw [forkPid_pid h, Act.bind_ok_run hrun]
  dsimp only
  rw [Act.modify_bind_run, setThread, Act.modify_bind_run]
  dsimp only
  rw [htid, Act.bind_ok_run (addChild_run parent c)]
  rfl

theorem freeProcess_unused {c : Fin maxProcesses} (h : freeProcess p = some c) : p.processUsed c = false := by
  simpa using Table.find?_some h

/-- The tables with the child's slot filled in. -/
def withSlot (p : Procs) (parent c : Fin maxProcesses) : Procs := { p with
  processUsed := Function.update p.processUsed c true
  storage := Function.update p.storage c
    { ppid := (p.storage parent).pid, pgid := (p.storage parent).pgid, fds := (p.storage parent).fds } }

theorem forkFrom_none (h : freeProcess p = none) : forkFrom parent p = (.ok 0, p) := by
  rw [forkFrom, Act.bind_ok_run (allocProcess_none h)]
  rfl

theorem forkFrom_slot {c : Fin maxProcesses} (h : freeProcess p = some c) (hne : parent ≠ c) :
    forkFrom parent p = forkPid parent c (withSlot p parent c) := by
  rw [forkFrom, Act.bind_ok_run (allocProcess_some h)]
  dsimp only
  rw [Act.get_bind_run, updateProcess, Act.modify_bind_run]
  dsimp only
  rw [Function.update_idem, Function.update_self, Function.update_of_ne hne]
  rfl

/-- `fork` once the lock is taken and a parent is found. -/
theorem forkFrom_spec (hused : p.processUsed parent = true) :
    ∃ r t, forkFrom parent p = (.ok r, t) ∧ ForkResult p parent r t := by
  cases hc : freeProcess p with
  | none => exact ⟨0, p, forkFrom_none hc, .refused hc rfl⟩
  | some c =>
      have hne : parent ≠ c := by
        rintro rfl
        rw [freeProcess_unused hc] at hused
        cases hused
      have htaken : Function.update p.processUsed c true c = true := Function.update_self _ _ _
      rw [forkFrom_slot hc hne]
      cases hk : freePidOf p with
      | none => exact ⟨0, _, forkPid_none hk, .leaked hc (Or.inl hk) htaken⟩
      | some k =>
          cases hth : freeThread p with
          | none => exact ⟨0, _, forkPid_noThread hk hth, .leaked hc (Or.inr hth) htaken⟩
          | some th =>
              refine ⟨k, _, forkPid_thread hk hth, .forked hc hk hth ?_⟩
              have hparent : (withPid (withSlot p parent c) c k).storage parent = p.storage parent :=
                (Function.update_of_ne hne _ _).trans (Function.update_of_ne hne _ _)
              have hchild : (withPid (withSlot p parent c) c k).storage c = { (withSlot p parent c).storage c with pid := k } :=
                Function.update_self _ _ _
              have hslot : (withSlot p parent c).storage c = _ := Function.update_self c _ p.storage
              refine ⟨rfl, rfl, rfl, rfl, rfl, ?_, ?_, fun i hc hp => ?_, Function.update_self _ _ _,
                fun i hi => Function.update_of_ne hi _ _⟩
              · refine (Function.update_of_ne (Ne.symm hne) _ _).trans (hchild.trans ?_)
                rw [hslot]
              · refine (Function.update_self _ _ _).trans ?_
                rw [hparent]
              · exact (Function.update_of_ne hp _ _).trans
                  ((Function.update_of_ne hc _ _).trans (Function.update_of_ne hc _ _))

/-- What the result says does not depend on the lock. -/
theorem ForkResult.unlocked {r : Nat} {t : Procs} (h : ForkResult (taken p) parent r t) (lock : Bool) (ops : List LockOp) :
    ForkResult p parent r { t with pidLock := lock, lockOps := ops } := by
  cases h with
  | refused hfull h => exact .refused hfull h
  | leaked hc h hused => exact .leaked hc h hused
  | forked hc hk hth h =>
      exact .forked hc hk hth ⟨h.processes, h.threadsByTid, h.processUsed, h.threadUsed, h.currentPid, h.child,
        h.forking, h.other, h.thread, h.otherThread⟩

/-- `fork` is `forkFrom` of the parent, with the lock around it. -/
theorem fork_run {r : Nat} {t : Procs} (hcurrent : p.currentPid < maxPid)
    (hparent : (p.processes p.currentPid).or (p.processes 1) = some parent) (hrun : forkFrom parent (taken p) = (.ok r, t)) :
    fork true p = (.ok r, { t with pidLock := false, lockOps := t.lockOps ++ [.release] }) := by
  refine locked_always ?_
  have hnot : ¬(taken p).currentPid ≥ maxPid := Nat.not_le.mpr hcurrent
  have hfound : ((taken p).processes (taken p).currentPid).or ((taken p).processes 1) = some parent := hparent
  rw [Act.get_bind_run, if_neg hnot, hfound]
  exact hrun

/-- `fork` of a parent that is in use. -/
theorem fork_spec (hcurrent : p.currentPid < maxPid)
    (hparent : (p.processes p.currentPid).or (p.processes 1) = some parent) (hused : p.processUsed parent = true) :
    ∃ r t, fork true p = (.ok r, t) ∧ ForkResult p parent r t := by
  obtain ⟨r, t, hrun, hresult⟩ := forkFrom_spec (p := taken p) hused
  exact ⟨r, _, fork_run hcurrent hparent hrun, hresult.unlocked _ _⟩

end Fork

end Kernel.Proc
