import ZigKernel.KernelVfs

/-! The state of the kernel: the process table of `src/proc/proc.zig`, the captured streams of `src/proc/capture.zig`
and the clocks of `src/time/time.zig` next to the memory areas and the file system, and the memory of the user. User
memory is apart from what the kernel holds itself, and every access to it is noted. -/

namespace Kernel

open Zig

def maxPid : Nat := 65536
def maxProcesses : Nat := 64
def maxFd : Nat := 256
def maxThreads : Nat := 256
def maxChildren : Nat := 16

structure Process where
  pid : Nat := 0
  ppid : Nat := 0
  pgid : Nat := 0
  fds : Fin maxFd → Option (Fin Vfs.maxOpenFiles) := fun _ => none
  children : Fin maxChildren → Option (Fin maxProcesses) := fun _ => none
  status : Int := 0
  exiting : Bool := false

structure Thread where
  tid : Nat := 0
  pid : Nat := 0
  process : Option (Fin maxProcesses) := none

/-- What happens to `pid_lock`; who finds it held waits forever. -/
inductive LockOp where
  | acquire
  | release
  | blocked
  deriving DecidableEq

structure Procs where
  /-- `processes` and `threads_by_tid`, which are read below `maxPid`. -/
  processes : Nat → Option (Fin maxProcesses) := fun _ => none
  threadsByTid : Nat → Option (Fin maxThreads) := fun _ => none
  storage : Fin maxProcesses → Process := fun _ => {}
  threads : Fin maxThreads → Thread := fun _ => {}
  processUsed : Fin maxProcesses → Bool := fun _ => false
  threadUsed : Fin maxThreads → Bool := fun _ => false
  currentPid : Nat := 1
  pidLock : Bool := false
  /-- The uses of `pid_lock` so far. -/
  lockOps : List LockOp := []

namespace Procs

abbrev Run (α : Type) := Act Procs Spins α

def processAt (p : Procs) (pid : Nat) : Option (Fin maxProcesses) :=
  if pid = 0 ∨ pid ≥ maxPid then none else p.processes pid

/-- Without an init process the kernel panics. -/
def currentProcess (p : Procs) : Outcome Spins (Fin maxProcesses) :=
  match p.processAt p.currentPid with
  | some proc => .ok proc
  | none =>
      match p.processAt 1 with
      | some proc => .ok proc
      | none => .trap

def getpid (p : Procs) : Outcome Spins Nat := do
  let proc ← p.currentProcess
  pure (p.storage proc).pid

def fdAt (p : Procs) (fd : Nat) : Outcome Spins (Option (Fin Vfs.maxOpenFiles)) := do
  let proc ← p.currentProcess
  if h : fd < maxFd then pure ((p.storage proc).fds ⟨fd, h⟩) else pure none

/-- Puts a file, or nothing, at a descriptor of a process. -/
def setFd (p : Procs) (proc : Fin maxProcesses) (fd : Fin maxFd) (file : Option (Fin Vfs.maxOpenFiles)) : Procs :=
  let process := p.storage proc
  { p with storage := Function.update p.storage proc { process with fds := Function.update process.fds fd file } }

def closeFd (fd : Nat) : Run Unit := do
  if h : fd < maxFd then do
    let p ← Act.get
    let proc ← Act.lift p.currentProcess
    Act.modify fun p => p.setFd proc ⟨fd, h⟩ none
  else pure ()

/-- The descriptors of a process from 3 on, where the standard ones end. -/
def freeFd (process : Process) : Option (Fin maxFd) :=
  (List.finRange maxFd).find? fun i => decide (3 ≤ i.val) && (process.fds i).isNone

def allocFd (file : Fin Vfs.maxOpenFiles) : Run (Option Nat) := do
  let p ← Act.get
  let proc ← Act.lift p.currentProcess
  match freeFd (p.storage proc) with
  | none => pure none
  | some fd => do
      Act.modify fun p => p.setFd proc fd (some file)
      pure (some fd.val)

/-- `exit` marks the process and then waits for a lock that it holds itself. -/
def exit (code : Int) : Run Int := do
  let p ← Act.get
  let proc ← Act.lift p.currentProcess
  let status := if code % 256 = 0 then code / 256 % 256 else code % 128
  Act.modify fun p => { p with
    storage := Function.update p.storage proc { p.storage proc with status, exiting := true } }
  Act.fail .spins

end Procs

namespace Capture

def cap : Nat := 64 * 2 ^ 10
def maxProcs : Nat := 64

/-- One stream of one process. -/
structure Stream where
  /-- `buf[0..len]` -/
  text : Bytes := []
  dropped : Nat := 0

end Capture

structure Capture where
  out : Fin Capture.maxProcs → Capture.Stream := fun _ => {}
  err : Fin Capture.maxProcs → Capture.Stream := fun _ => {}

namespace Capture

def slot (pid : Nat) : Fin maxProcs := ⟨pid % maxProcs, Nat.mod_lt pid (by decide)⟩

/-- The bytes of `len` that still fit. -/
def Stream.fits (stream : Stream) (len : Nat) : Nat := min (cap - stream.text.length) len

/-- The stream after a write of which `data` fits and `rest` more bytes do not. -/
def Stream.write (stream : Stream) (data : Bytes) (rest : Nat) : Outcome Spins Stream := do
  if stream.text.length + data.length > cap then .trap
  else do
    let dropped ← addU64 stream.dropped rest
    pure { text := stream.text ++ data, dropped }

end Capture

structure TimeSpec where
  sec : Int := 0
  nsec : Int := 0

namespace TimeSpec

def add (self interval : TimeSpec) : Outcome Spins TimeSpec := do
  let sum ← addI64 self.nsec interval.nsec
  if sum > 999999999 then do
    let diff ← subI64 sum 1000000000
    let sec ← addI64 self.sec 1
    let sec ← addI64 sec interval.sec
    pure { sec, nsec := diff }
  else do
    let sec ← addI64 self.sec interval.sec
    pure { sec, nsec := sum }

/-- The borrow of `sub`: the seconds after it, and whether they are used up. -/
def borrow (self interval : TimeSpec) : Outcome Spins (TimeSpec × Bool) := do
  if interval.nsec > self.nsec then do
    let diff ← subI64 interval.nsec self.nsec
    let nsec ← subI64 999999999 diff
    if self.sec = 0 then pure ({ sec := 0, nsec := 0 }, true)
    else do
      let sec ← subI64 self.sec 1
      pure ({ sec, nsec }, false)
  else do
    let nsec ← subI64 self.nsec interval.nsec
    pure ({ self with nsec }, false)

/-- Whether nothing remains after an interval. -/
def sub (self interval : TimeSpec) : Outcome Spins Bool := do
  let (left, gone) ← borrow self interval
  if gone then pure true
  else if interval.sec > left.sec then pure true
  else do
    let sec ← subI64 left.sec interval.sec
    pure (sec == 0 && left.nsec == 0)

end TimeSpec

structure Timer where
  when : TimeSpec := {}
  fired : Bool := false

structure Clock where
  monotonic : TimeSpec := {}
  realtime : TimeSpec := {}
  /-- The armed timers. -/
  timers : List Timer := []

namespace Clock

abbrev Run (α : Type) := Act Clock Spins α

def monotonicNs (c : Clock) : Outcome Spins Nat :=
  if c.monotonic.sec < 0 ∨ c.monotonic.nsec < 0 then .ok 0
  else do
    let seconds ← castUsize c.monotonic.sec
    let whole ← mulU64 seconds 1000000000
    let rest ← castUsize c.monotonic.nsec
    addU64 whole rest

/-- The timer loop of `advanceClocks`. -/
def fireTimers (interval : TimeSpec) : List Timer → Outcome Spins (List Timer)
  | [] => pure []
  | timer :: rest =>
      if timer.fired then do
        let rest ← fireTimers interval rest
        pure (timer :: rest)
      else do
        let gone ← timer.when.sub interval
        let rest ← fireTimers interval rest
        pure ({ timer with fired := gone } :: rest)

/-- `advanceClocks` without the tick hooks, which are the scheduler's. -/
def advanceClocks (interval : TimeSpec) : Run Unit := do
  let c ← Act.get
  let monotonic ← Act.lift (c.monotonic.add interval)
  Act.modify fun c => { c with monotonic }
  let realtime ← Act.lift (c.realtime.add interval)
  Act.modify fun c => { c with realtime }
  let timers ← Act.lift (fireTimers interval c.timers)
  Act.modify fun c => { c with timers }

def nsleep (ns : Int) : Run Unit := advanceClocks { sec := ns.tdiv 1000000000, nsec := ns.tmod 1000000000 }

end Clock

/-- One byte of user memory that the kernel reads or writes. -/
structure Access where
  addr : Nat
  write : Bool
  deriving DecidableEq

structure State where
  mm : Mm := {}
  vfs : Vfs := {}
  procs : Procs := {}
  capture : Capture := {}
  clock : Clock := {}
  /-- `path_buf` of `src/syscall.zig` -/
  pathBuf : Bytes := List.replicate 512 0
  /-- The memory of the user, by address. -/
  user : Nat → UInt8 := fun _ => 0
  /-- The accesses to it so far. -/
  trace : List Access := []

abbrev Run (α : Type) := Act State Spins α

def onMm {α : Type} (m : Mm.Run α) : Run α := Act.zoom State.mm (fun mm s => { s with mm }) m
def onVfs {α : Type} (m : Vfs.Run α) : Run α := Act.zoom State.vfs (fun vfs s => { s with vfs }) m
def onProcs {α : Type} (m : Procs.Run α) : Run α := Act.zoom State.procs (fun procs s => { s with procs }) m
def onClock {α : Type} (m : Clock.Run α) : Run α := Act.zoom State.clock (fun clock s => { s with clock }) m

/-! ### User memory -/

/-- The accesses to the `n` bytes from `addr` on. -/
def accesses (write : Bool) (addr n : Nat) : List Access := (List.range n).map fun i => { addr := addr + i, write }

/-- Reads `n` bytes of the user. -/
def readUser (addr n : Nat) : Run Bytes := do
  Act.modify fun s => { s with trace := s.trace ++ accesses false addr n }
  let s ← Act.get
  pure ((List.range n).map fun i => s.user (addr + i))

/-- Writes bytes to the user. -/
def writeUser (addr : Nat) (bytes : Bytes) : Run Unit :=
  Act.modify fun s => { s with
    trace := s.trace ++ accesses true addr bytes.length
    user := fun a => if addr ≤ a ∧ a < addr + bytes.length then bytes.getD (a - addr) 0 else s.user a }

end Kernel
