import ZigKernel.KernelState

/-! Processes, threads and their ids (`src/proc/proc.zig`), with `pid_lock`. The lock is not reentrant: a call that
finds it held waits forever. With `always` it is taken as always available. -/

namespace Kernel.Proc

open Zig

abbrev Run (α : Type) := Act Procs Spins α

def sigkillMax : Nat := 31
def wnohang : Nat := 1

def lockOp (op : LockOp) (held : Bool) : Run Unit :=
  Act.modify fun p => { p with pidLock := held, lockOps := p.lockOps ++ [op] }

def release : Run Unit := lockOp .release false

def updateProcess (i : Fin maxProcesses) (f : Process → Process) : Run Unit :=
  Act.modify fun p => { p with storage := Function.update p.storage i (f (p.storage i)) }

def allocProcess : Run (Option (Fin maxProcesses)) := do
  let p ← Act.get
  match Table.find? p.processUsed (fun used => !used) with
  | none => pure none
  | some i => do
      Act.modify fun p => { p with
        processUsed := Function.update p.processUsed i true, storage := Function.update p.storage i {} }
      pure (some i)

def allocThread (process : Fin maxProcesses) : Run (Option (Fin maxThreads)) := do
  let p ← Act.get
  match Table.find? p.threadUsed (fun used => !used) with
  | none => pure none
  | some i => do
      Act.modify fun p => { p with
        threadUsed := Function.update p.threadUsed i true
        threads := Function.update p.threads i { process := some process } }
      pure (some i)

/-- The ids that the tables have. -/
def pids : List Nat := List.range' 1 (maxPid - 1)

/-- The first id that neither a process nor a thread has. -/
def freePidOf (p : Procs) : Option Nat := pids.find? fun k => (p.processes k).isNone && (p.threadsByTid k).isNone

/-- `allocateTidOnly` -/
def freeTidOf (p : Procs) : Option Nat := pids.find? fun k => (p.threadsByTid k).isNone

def setProcess (pid : Nat) (i : Option (Fin maxProcesses)) : Run Unit :=
  Act.modify fun p => { p with processes := Function.update p.processes pid i }

def setThread (tid : Nat) (i : Option (Fin maxThreads)) : Run Unit :=
  Act.modify fun p => { p with threadsByTid := Function.update p.threadsByTid tid i }

section Locked

variable (always : Bool)

def acquire : Run Unit := do
  let p ← Act.get
  if p.pidLock ∧ ¬always then do
    lockOp .blocked true
    Act.fail .spins
  else lockOp .acquire true

/-- A scope with a deferred release. -/
def locked {α : Type} (m : Run α) : Run α := do
  acquire always
  let r ← m
  release
  pure r

def allocatePid (i : Fin maxProcesses) : Run (Option Nat) := locked always do
  let p ← Act.get
  match freePidOf p with
  | none => pure none
  | some k => do
      setProcess k (some i)
      updateProcess i fun process => { process with pid := k }
      pure (some k)

def freePid (pid : Nat) : Run Unit :=
  if pid = 0 ∨ pid ≥ maxPid then pure () else locked always (setProcess pid none)

def processAt (pid : Nat) : Run (Option (Fin maxProcesses)) :=
  if pid = 0 ∨ pid ≥ maxPid then pure none
  else locked always do
    let p ← Act.get
    pure (p.processes pid)

def threadByTid (tid : Nat) : Run (Option (Fin maxThreads)) :=
  if tid = 0 ∨ tid ≥ maxPid then pure none
  else locked always do
    let p ← Act.get
    pure (p.threadsByTid tid)

def bindTid (tid : Nat) (thread : Fin maxThreads) : Run Unit :=
  if tid = 0 ∨ tid ≥ maxPid then pure () else locked always (setThread tid (some thread))

def freeTid (tid : Nat) : Run Unit :=
  if tid = 0 ∨ tid ≥ maxPid then pure () else locked always (setThread tid none)

/-- Without an init process the kernel panics. -/
def currentProcess : Run (Fin maxProcesses) := do
  let p ← Act.get
  let current ← processAt always p.currentPid
  match current with
  | some i => pure i
  | none => do
      let init ← processAt always 1
      match init with
      | some i => pure i
      | none => Act.lift .trap

/-- The table with the init process. -/
def init : Run Unit := do
  Act.modify fun p => { pidLock := p.pidLock, lockOps := p.lockOps }
  let process ← allocProcess
  match process with
  | none => pure ()
  | some i => do
      updateProcess i fun process => { process with ppid := 0, pgid := 1 }
      let _ ← allocatePid always i
      pure ()

/-! ### fork -/

/-- The slot that a parent's children array has for a new child. -/
def freeChildOf (process : Process) : Option (Fin maxChildren) := Table.find? process.children (·.isNone)

/-- Puts a child into the children array, if it has room. -/
def addChild (parent child : Fin maxProcesses) : Run Unit := do
  let p ← Act.get
  match freeChildOf (p.storage parent) with
  | none => pure ()
  | some j =>
      updateProcess parent fun process => { process with children := Function.update process.children j (some child) }

/-- `fork` from the search for a pid on. -/
def forkPid (parent child : Fin maxProcesses) : Run Nat := do
  let p ← Act.get
  match freePidOf p with
  | none => pure 0
  | some pid => do
      setProcess pid (some child)
      updateProcess child fun process => { process with pid }
      let thread ← allocThread child
      match thread with
      | none => pure 0
      | some thread => do
          Act.modify fun p => { p with
            threads := Function.update p.threads thread { p.threads thread with tid := pid } }
          setThread pid (some thread)
          addChild parent child
          pure pid

/-- `fork` of a parent. -/
def forkFrom (parent : Fin maxProcesses) : Run Nat := do
  let child ← allocProcess
  match child with
  | none => pure 0
  | some child => do
      let p ← Act.get
      let from' := p.storage parent
      updateProcess child fun process => { process with ppid := from'.pid, pgid := from'.pgid, fds := from'.fds }
      forkPid parent child

def fork : Run Nat := locked always do
  let p ← Act.get
  if p.currentPid ≥ maxPid then Act.lift .trap
  else
    match (p.processes p.currentPid).or (p.processes 1) with
    | none => pure 0
    | some parent => forkFrom parent

/-! ### exit and waitpid -/

/-- `real_code` of `exit` -/
def realCode (code : Int) : Int := if code % 256 = 0 then code / 256 % 256 else code % 128

/-- `exit` does not return: what stands behind its last line is an endless loop. -/
def exit (code : Int) : Run Unit := do
  let i ← currentProcess always
  acquire always
  updateProcess i fun process => { process with status := realCode code, exiting := true }
  let p ← Act.get
  let zombie ← processAt always (p.storage i).pid
  match zombie with
  | none => pure ()
  | some z => updateProcess z fun process => { process with status := ((realCode code).toNat ||| 0x7f : Nat) }
  release
  Act.fail .spins

/-- The children that `waitpid` waits for. -/
def waitsFor (p : Procs) (current : Process) (pid : Int) (child : Option (Fin maxProcesses)) : Bool :=
  match child with
  | none => false
  | some i => pid == -1 || pid == (p.storage i).pid || (pid == 0 && (p.storage i).pgid == current.pgid)

/-- The status that `waitpid` writes where the caller asks for it. -/
def writeStatus (wstatus : Nat) (status : Int) : Outcome Spins Unit :=
  if wstatus = 0 then .ok ()
  else do
    let _ ← ptrFromInt 4 wstatus
    let _ ← castUsize status
    pure ()

/-- A child that has exited is taken out of the children array, and its pid is freed. -/
def reap (current : Fin maxProcesses) (slot : Fin maxChildren) (child : Fin maxProcesses) (wstatus : Nat) : Run Int := do
  updateProcess current fun process => { process with children := Function.update process.children slot none }
  let p ← Act.get
  Act.lift (writeStatus wstatus (p.storage child).status)
  freePid always (p.storage child).pid
  let p ← Act.get
  pure (p.storage child).pid

/-- `waitpid` of a child that runs: the lock is let go, and others may come in. -/
def waitRunning (others : Procs → Procs) (current : Fin maxProcesses) (slot : Fin maxChildren)
    (child : Fin maxProcesses) (wstatus options : Nat) : Run Int := do
  let p ← Act.get
  if options &&& wnohang ≠ 0 then pure 0
  else do
    let oldStatus := (p.storage child).status
    release
    Act.modify fun p =>
      { others { p with pidLock := false, lockOps := [] } with pidLock := p.pidLock, lockOps := p.lockOps }
    acquire always
    let p ← Act.get
    if (p.storage child).status ≠ oldStatus ∧ (p.storage child).exiting then reap always current slot child wstatus
    else pure (-11)

/-- The child that `waitpid` finds first, and its place. -/
def findChild (p : Procs) (current : Fin maxProcesses) (pid : Int) : Option (Fin maxChildren × Fin maxProcesses) := do
  let slot ← Table.find? (p.storage current).children (waitsFor p (p.storage current) pid)
  let child ← (p.storage current).children slot
  pure (slot, child)

/-- `waitpid` inside its scope, which lets the lock go itself where there is no child. -/
def waitChild (others : Procs → Procs) (current : Fin maxProcesses) (pid : Int) (wstatus options : Nat) : Run Int := do
  let p ← Act.get
  match findChild p current pid with
  | none => do
      release
      pure (-10)
  | some found =>
      if (p.storage found.2).exiting then reap always current found.1 found.2 wstatus
      else waitRunning always others current found.1 found.2 wstatus options

def waitpid (others : Procs → Procs) (pid : Int) (wstatus options : Nat) : Run Int := do
  let current ← currentProcess always
  locked always (waitChild always others current pid wstatus options)

/-! ### Threads and signals -/

def newThread : Run Nat := do
  let i ← currentProcess always
  locked always do
    let thread ← allocThread i
    match thread with
    | none => pure 0
    | some thread => do
        let p ← Act.get
        match freeTidOf p with
        | none => pure 0
        | some tid => do
            Act.modify fun p => { p with
              threads := Function.update p.threads thread { p.threads thread with tid, pid := (p.storage i).pid } }
            bindTid always tid thread
            pure tid

def kill (pid : Int) (sig : Nat) : Run Int :=
  if sig = 0 then pure 0
  else if sig > sigkillMax then pure (-22)
  else do
    acquire always
    let pid ← Act.lift (castUsize pid)
    let target ← processAt always pid
    release
    pure (if target.isSome then 0 else -3)

end Locked

/-- The process table once the kernel has started. -/
def booted : Procs := (init false {}).2

end Kernel.Proc
