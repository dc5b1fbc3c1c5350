import Mathlib.Data.List.Infix
import ZigKernel.LangAct
import ZigKernel.LangInt

/-! The scheduler of `src/sched/sched.zig`: the table of tasks, the queue, and the choice of the next task. A task is named
by its place in the table. Its name, its entry and its signals are left out: the entries of the kernel do not call the
scheduler. -/

namespace Kernel.Sched

open Zig

inductive TaskState where
  | running
  | runnable
  | sleeping
  | stopped
  | zombie
  deriving DecidableEq

def maxTasks : Nat := 32
def maxRunqueue : Nat := 32
def defaultSlice : Nat := 3

structure Task where
  pid : Nat
  state : TaskState := .runnable
  /-- a `u8`, least first -/
  priority : Fin 256 := 120
  ticks : Nat := 0
  scheduledAtNs : Nat := 0
  cpuTimeNs : Nat := 0
  sliceRemaining : Nat := 0
  vruntime : Nat := 0
  needResched : Bool := false
  deriving DecidableEq

structure Scheduler where
  tasks : List Task := []
  nextPid : Nat := 1
  current : Nat := 0
  runqueue : List Nat := []

abbrev Run (α : Type) := Act Scheduler Empty α

def Scheduler.edit (i : Nat) (f : Task → Task) (s : Scheduler) : Scheduler := { s with tasks := s.tasks.modify i f }

def addU32 (a b : Nat) : Outcome Empty Nat := if a + b < u32Bound then .ok (a + b) else .trap
def mulU32 (a b : Nat) : Outcome Empty Nat := if a * b < u32Bound then .ok (a * b) else .trap

/-- `w = w * num / den`, so many times. -/
def scale (num den : Nat) : Nat → Nat → Outcome Empty Nat
  | 0, w => .ok w
  | n + 1, w => do
      let product ← mulU32 w num
      scale num den n (product / den)

def niceWeight (prio : Fin 256) : Outcome Empty Nat := do
  let w ← if prio.val < 120 then scale 5 4 (120 - prio.val) 1024 else scale 4 5 (prio.val - 120) 1024
  pure (if w = 0 then 1 else w)

/-! ### The choice of the next task -/

def Task.eligible (t : Task) : Bool := t.state == .runnable || t.state == .running

/-- Of better priority, or of the same and with less virtual runtime. -/
def Task.outranks (t b : Task) : Bool := t.priority < b.priority || (t.priority == b.priority && t.vruntime < b.vruntime)

/-- The test in the loop of `cfs_pick_next`: task `i` is better than the best so far. -/
def prefers (tasks : List Task) (best : Option Nat) (i : Nat) : Bool :=
  match tasks[i]? with
  | none => false
  | some t => t.eligible && (match best.bind fun b => tasks[b]? with
    | none => true
    | some b => t.outranks b)

/-- The loop of `cfs_pick_next`. -/
def scan (tasks : List Task) (queue : List Nat) : Option Nat :=
  queue.foldl (fun best i => if prefers tasks best i then some i else best) none

/-- The task becomes the running one, with a new slice if the last is used up. -/
def Task.start (t : Task) : Task :=
  { t with state := .running, sliceRemaining := if t.sliceRemaining = 0 then defaultSlice else t.sliceRemaining }

def cfsPickNext : Run (Option Nat) := do
  let s ← Act.get
  match scan s.tasks s.runqueue with
  | none => pure none
  | some i => do
      Act.modify (Scheduler.edit i Task.start)
      pure (some i)

/-- Whether the queue has a task with this `pid`, and where. -/
def queued (s : Scheduler) (pid : Nat) : Option Nat := s.runqueue.findIdx? fun q => s.tasks[q]?.any (·.pid = pid)

/-- The task joins the queue. -/
def Task.join (t : Task) : Task :=
  { t with state := .runnable, sliceRemaining := if t.sliceRemaining = 0 then defaultSlice else t.sliceRemaining }

/-- `cfs_enqueue` of the task at `i` of the table. -/
def cfsEnqueue (i : Nat) : Run Unit := do
  let s ← Act.get
  match s.tasks[i]? with
  | none => Act.lift .trap
  | some t =>
      if maxRunqueue ≤ s.runqueue.length then pure ()
      else if (queued s t.pid).isSome then pure ()
      else do
        Act.modify fun s => { s with runqueue := s.runqueue ++ [i] }
        Act.modify (Scheduler.edit i Task.join)

/-- `cfs_dequeue`: the last of the queue takes the place of the task. -/
def cfsDequeue (i : Nat) : Run Unit := do
  let s ← Act.get
  match s.tasks[i]? with
  | none => Act.lift .trap
  | some t =>
      match queued s t.pid with
      | none => pure ()
      | some k => do
          Act.modify fun s => { s with runqueue := (s.runqueue.set k (s.runqueue.getLastD i)).dropLast }
          Act.modify (Scheduler.edit i fun t => { t with state := .stopped })

def createWithPrio (prio : Fin 256) : Run (Option Nat) := do
  let s ← Act.get
  if maxTasks ≤ s.tasks.length then pure none
  else do
    let nextPid ← Act.lift (addU32 s.nextPid 1)
    let t : Task := { pid := s.nextPid, priority := prio, sliceRemaining := defaultSlice }
    Act.modify fun s => { s with tasks := s.tasks ++ [t], nextPid }
    cfsEnqueue s.tasks.length
    pure (some s.tasks.length)

def schedule : Run (Option Nat) := cfsPickNext

/-- The credit of one tick. -/
def credit (prio : Fin 256) : Outcome Empty Nat := do
  let w ← niceWeight prio
  pure (1024 * 1024 / w)

/-- A queued task that forces `t` to give way. -/
def preempts (s : Scheduler) (t : Task) : Bool :=
  s.runqueue.any fun i => s.tasks[i]?.any fun q => q.pid != t.pid && q.priority < t.priority && q.eligible

def schedTick : Run Bool := do
  let s ← Act.get
  match s.tasks[s.current]? with
  | none => pure false
  | some t =>
      if t.state ≠ .running then pure false
      else do
        let t := { t with sliceRemaining := t.sliceRemaining - 1 }
        Act.modify (Scheduler.edit s.current fun _ => t)
        let gain ← Act.lift (credit t.priority)
        let vruntime ← Act.lift (addU64 t.vruntime gain)
        let t := { t with vruntime }
        Act.modify (Scheduler.edit s.current fun _ => t)
        if t.sliceRemaining = 0 ∨ preempts s t then do
          Act.modify (Scheduler.edit s.current fun t => { t with needResched := true })
          pure true
        else pure false

def chargeCpuTime (t : Task) (nowNs : Nat) : Outcome Empty Task :=
  let started := t.scheduledAtNs
  let t := { t with scheduledAtNs := 0 }
  if started = 0 ∨ nowNs ≤ started then .ok t
  else do
    let cpuTimeNs ← addU64 t.cpuTimeNs (nowNs - started)
    pure { t with cpuTimeNs }

/-- The end of the turn: the slice of the task is one tick shorter. -/
def Task.finish (t : Task) : Task :=
  let left := t.sliceRemaining - 1
  { t with sliceRemaining := left, state := if left = 0 then .runnable else t.state }

/-- The charge in front of `runNext`, for the task that was running. -/
def chargeCurrent (nowNs : Nat) : Run Unit := do
  let s ← Act.get
  match s.tasks[s.current]? with
  | none => pure ()
  | some t =>
      if t.state = .running then do
        let t ← Act.lift (chargeCpuTime t nowNs)
        Act.modify (Scheduler.edit s.current fun _ => t)
      else pure ()

/-- The turn of task `i`. -/
def takeTurn (i beginNs : Nat) : Run Unit := do
  let s ← Act.get
  match s.tasks[i]? with
  | none => Act.lift .trap
  | some t => do
      let current := (s.tasks.findIdx? (·.pid = t.pid)).getD s.current
      Act.modify fun s => { s with current }
      Act.modify (Scheduler.edit i fun t => { t with state := .running, needResched := false, scheduledAtNs := beginNs })
      let ticks ← Act.lift (addU32 t.ticks 1)
      Act.modify (Scheduler.edit i fun t => Task.finish { t with ticks })

/-- `runNext`, with what the clock shows when the last task is charged and when the next one begins. The result is the task
whose turn it was, which the source prints. -/
def runNext (nowNs beginNs : Nat) : Run (Option Nat) := do
  chargeCurrent nowNs
  let next ← schedule
  match next with
  | none => pure none
  | some i => do
      takeTurn i beginNs
      pure (some i)

end Kernel.Sched
