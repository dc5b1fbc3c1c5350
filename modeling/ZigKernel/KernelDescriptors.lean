import ZigKernel.KernelSyscall
import ZigKernel.KernelFork
import ZigKernel.KernelStore
import ZigKernel.LibRuns

/-! Descriptors: the system calls that make, inherit and close them (`src/syscall.zig`), pipes included
(`src/drivers/pipe.zig`, `src/vfs/vfs.zig`), and what each of them does to the descriptors of the processes and to the
table of open files. -/

namespace Kernel

open Zig

namespace Vfs

def allocPipe : Run (Option (Fin maxPipes)) := do
  let v ← Act.get
  match Table.find? v.pipeUsed (fun used => !used) with
  | none => pure none
  | some p => do
      Act.modify fun v => { v with
        pipeUsed := Function.update v.pipeUsed p true, pipes := Function.update v.pipes p {} }
      pure (some p)

/-- The open file `f` gets a slot. -/
def takeFile (f : Fin maxOpenFiles) (file : File) (v : Vfs) : Vfs :=
  { v with openUsed := Function.update v.openUsed f true, openFiles := Function.update v.openFiles f file }

/-- The file of an end of a pipe. -/
def endOf (p : Fin maxPipes) (isReadEnd : Bool) : File := { ops := some .pipe, data := some p, pipeReadEnd := isReadEnd }

def openFileFromPipe (p : Fin maxPipes) (isReadEnd : Bool) : Run (Option (Fin maxOpenFiles)) := do
  let v ← Act.get
  match Table.find? v.openUsed (fun used => !used) with
  | none => pure none
  | some f => do
      Act.modify (takeFile f (endOf p isReadEnd))
      pure (some f)

/-- The slots from 3 on. -/
def freeCopy (v : Vfs) : Option (Fin maxOpenFiles) :=
  (List.finRange maxOpenFiles).find? fun i => decide (3 ≤ i.val) && !v.openUsed i

/-- `vfs.allocFd`, which copies the file into a slot of its own. -/
def allocFd (file : Fin maxOpenFiles) : Run (Option (Fin maxOpenFiles)) := do
  let v ← Act.get
  match freeCopy v with
  | none => pure none
  | some i => do
      Act.modify (takeFile i (v.openFiles file))
      pure (some i)

/-- `pipe` of `src/drivers/pipe.zig`: the two descriptors, or `-EMFILE`. -/
def pipe : Run (Option (Fin maxOpenFiles × Fin maxOpenFiles)) := do
  let p ← allocPipe
  match p with
  | none => pure none
  | some p => do
      let readFile ← openFileFromPipe p true
      match readFile with
      | none => pure none
      | some readFile => do
          let writeFile ← openFileFromPipe p false
          match writeFile with
          | none => pure none
          | some writeFile => do
              let readFd ← allocFd readFile
              match readFd with
              | none => pure none
              | some readFd => do
                  let writeFd ← allocFd writeFile
                  match writeFd with
                  | none => pure none
                  | some writeFd => pure (some (readFd, writeFd))

end Vfs

/-- The bytes of an `i32` that is not negative. -/
def i32Bytes (n : Nat) : Bytes := (List.range 4).map (LittleEndian.encode n)

def sysPipe (pipefdPtr flags : Nat) : Run Int := do
  let pipefd ← Act.lift (ptrFromInt 4 pipefdPtr)
  let _ ← Act.lift (castU32 flags)
  let fds ← onVfs Vfs.pipe
  match fds with
  | none => pure emfile
  | some (readFd, writeFd) => do
      writeUser pipefd (i32Bytes readFd.val)
      writeUser (pipefd + 4) (i32Bytes writeFd.val)
      pure 0

def sysFork : Run Int := do
  let pid ← onProcs (Proc.fork true)
  Act.lift (castI64 pid)

namespace Descriptors

open Vfs Procs

/-! ### Calls -/

inductive Call where
  | openat (dirfd pathPtr flags mode : Nat)
  | pipe (pipefdPtr flags : Nat)
  | fork
  | read (fd bufPtr len : Nat)
  | write (fd bufPtr len : Nat)
  | close (fd : Nat)

def Call.run : Call → Run Int
  | .openat dirfd pathPtr flags mode => sysOpenat dirfd pathPtr flags mode
  | .pipe pipefdPtr flags => sysPipe pipefdPtr flags
  | .fork => sysFork
  | .read fd bufPtr len => sysRead fd bufPtr len
  | .write fd bufPtr len => sysWrite fd bufPtr len
  | .close fd => sysClose fd

/-- A call of a process, with the state of everything else (the memory, its areas, what the allocator has), and what it
returns. -/
structure Event where
  pid : Nat
  rest : State
  call : Call
  result : Int

/-- The process runs, with the files and the processes as they are. -/
def resumed (s : State) (pid : Nat) (rest : State) : State :=
  { rest with
    procs := { s.procs with currentPid := pid }
    vfs := { s.vfs with available := rest.vfs.available } }

/-- A process makes a call, and the call returns. -/
structure Step (s : State) (e : Event) (t : State) : Prop where
  alive : (s.procs.processAt e.pid).isSome = true
  returns : e.call.run (resumed s e.pid e.rest) = (.ok e.result, t)

/-! ### The tables of the processes -/

/-- The descriptors of a process. -/
def table (p : Procs) (pid : Nat) : Option (Fin maxFd → Option (Fin maxOpenFiles)) :=
  (p.processAt pid).map fun c => (p.storage c).fds

/-- `fdAt` in a process. -/
def entry (p : Procs) (pid fd : Nat) : Option (Fin maxOpenFiles) :=
  (table p pid).bind fun fds => if h : fd < maxFd then fds ⟨fd, h⟩ else none

/-- Every process has a slot of its own, and no process has a descriptor below 3. -/
structure Seated (p : Procs) : Prop where
  used : ∀ pid c, p.processes pid = some c → p.processUsed c = true
  one : ∀ pid pid' c, p.processes pid = some c → p.processes pid' = some c → pid = pid'
  standard : ∀ c fd, fd.val < 3 → (p.storage c).fds fd = none

section Tables

variable {p : Procs} {pid : Nat} {c : Fin maxProcesses}

theorem processAt_some (h : p.processAt pid = some c) : p.processes pid = some c ∧ pid ≠ 0 ∧ pid < maxPid := by
  rw [processAt] at h
  split at h
  · cases h
  · next hnot =>
    push Not at hnot
    exact ⟨h, hnot.1, hnot.2⟩

theorem entry_of (h : p.processAt pid = some c) (fd : Nat) :
    entry p pid fd = if hfd : fd < maxFd then (p.storage c).fds ⟨fd, hfd⟩ else none := by
  rw [entry, table, h]
  rfl

theorem entry_none (h : p.processAt pid = none) (fd : Nat) : entry p pid fd = none := by
  rw [entry, table, h]
  rfl

theorem entry_some {fd : Nat} {f : Fin maxOpenFiles} (h : entry p pid fd = some f) :
    ∃ c hfd, p.processAt pid = some c ∧ (p.storage c).fds ⟨fd, hfd⟩ = some f := by
  cases hc : p.processAt pid with
  | none =>
      rw [entry_none hc] at h
      cases h
  | some c =>
      rw [entry_of hc] at h
      split at h
      · next hfd => exact ⟨c, hfd, rfl, h⟩
      · cases h

theorem currentProcess_of (h : p.processAt p.currentPid = some c) : p.currentProcess = .ok c := by
  rw [currentProcess, h]

theorem fdAt_of (h : p.processAt p.currentPid = some c) (fd : Nat) : p.fdAt fd = .ok (entry p p.currentPid fd) := by
  rw [Procs.fdAt, currentProcess_of h, Outcome.ok_bind, entry_of h]
  split <;> rfl

theorem entry_congr {t : Procs} (h : table t = table p) (pid fd : Nat) : entry t pid fd = entry p pid fd := by
  rw [entry, h, entry]

/-- A descriptor is put into the table of a process. -/
theorem entry_setFd (hseat : Seated p) (h : p.processAt pid = some c) (fd : Fin maxFd) (file : Option (Fin maxOpenFiles))
    (pid' fd' : Nat) :
    entry (p.setFd c fd file) pid' fd' = if pid' = pid ∧ fd' = fd.val then file else entry p pid' fd' := by
  cases hc' : p.processAt pid' with
  | none =>
      have hne : ¬(pid' = pid ∧ fd' = fd.val) := by
        rintro ⟨rfl, -⟩
        rw [h] at hc'
        cases hc'
      have hnone : (p.setFd c fd file).processAt pid' = none := hc'
      rw [if_neg hne, entry_none hnone, entry_none hc']
  | some c' =>
      have hsome : (p.setFd c fd file).processAt pid' = some c' := hc'
      rw [entry_of hsome, entry_of hc']
      by_cases hpid : pid' = pid
      · subst hpid
        rw [h] at hc'
        cases hc'
        have hself : (p.setFd c fd file).storage c =
            { p.storage c with fds := Function.update (p.storage c).fds fd file } := Function.update_self _ _ _
        rw [hself]
        by_cases hfd : fd' = fd.val
        · subst hfd
          rw [dif_pos fd.isLt, if_pos ⟨rfl, rfl⟩]
          exact Function.update_self _ _ _
        · rw [if_neg fun hboth => hfd hboth.2]
          split
          · exact Function.update_of_ne (fun heq => hfd (congrArg Fin.val heq)) _ _
          · rfl
      · have hne : c' ≠ c := by
          rintro rfl
          exact hpid (hseat.one _ _ _ (processAt_some hc').1 (processAt_some h).1)
        have hother : (p.setFd c fd file).storage c' = p.storage c' := Function.update_of_ne hne _ _
        rw [hother, if_neg fun hboth => hpid hboth.1]

theorem Seated.setFd (h : Seated p) (c : Fin maxProcesses) {fd : Fin maxFd} (file : Option (Fin maxOpenFiles))
    (hfd : 3 ≤ fd.val ∨ file = none) : Seated (p.setFd c fd file) := by
  refine ⟨h.used, h.one, fun c' fd' hlt => ?_⟩
  by_cases hc : c' = c
  · subst hc
    have hself : (p.setFd c' fd file).storage c' =
        { p.storage c' with fds := Function.update (p.storage c').fds fd file } := Function.update_self _ _ _
    rw [hself]
    dsimp only
    by_cases heq : fd' = fd
    · subst heq
      rw [Function.update_self]
      exact hfd.resolve_left (Nat.not_le_of_lt hlt)
    · rw [Function.update_of_ne heq]
      exact h.standard c' fd' hlt
  · have hother : (p.setFd c fd file).storage c' = p.storage c' := Function.update_of_ne hc _ _
    rw [hother]
    exact h.standard c' fd' hlt

theorem freeFd_some {process : Process} {fd : Fin maxFd} (h : freeFd process = some fd) :
    3 ≤ fd.val ∧ process.fds fd = none := by
  have hfound := List.find?_some h
  rw [Bool.and_eq_true, decide_eq_true_iff, Option.isNone_iff_eq_none] at hfound
  exact hfound

end Tables

/-! ### A new process -/

section Fork

variable {p t : Procs} {c c' : Fin maxProcesses} {k : Nat}

/-- A slot that was free is filled with the descriptors of another process, and perhaps listed under a new id. -/
structure Spawns (p : Procs) (c' : Fin maxProcesses) (k : Nat) (t : Procs) : Prop where
  free : p.processUsed c' = false
  listed : ∀ pid i, t.processes pid = some i → p.processes pid = some i ∨ pid = k ∧ i = c'
  used : t.processUsed = Function.update p.processUsed c' true
  fds : ∀ i, ∃ j, (t.storage i).fds = (p.storage j).fds

theorem Seated.not_free (h : Seated p) (hfree : p.processUsed c' = false) (pid : Nat) : p.processes pid ≠ some c' := by
  intro hpid
  rw [h.used pid c' hpid] at hfree
  cases hfree

theorem Seated.spawns (h : Seated p) (hs : Spawns p c' k t) : Seated t := by
  refine ⟨fun pid i hi => ?_, fun pid pid' i hi hi' => ?_, fun i fd hfd => ?_⟩
  · rw [hs.used]
    rcases hs.listed pid i hi with hi | ⟨-, rfl⟩
    · by_cases hne : i = c'
      · rw [hne, Function.update_self]
      · rw [Function.update_of_ne hne]
        exact h.used pid i hi
    · exact Function.update_self _ _ _
  · rcases hs.listed pid i hi with hi | ⟨rfl, rfl⟩
    · rcases hs.listed pid' i hi' with hi' | ⟨-, rfl⟩
      · exact h.one pid pid' i hi hi'
      · exact absurd hi (h.not_free hs.free pid)
    · rcases hs.listed pid' i hi' with hi' | ⟨rfl, -⟩
      · exact absurd hi' (h.not_free hs.free pid')
      · rfl
  · obtain ⟨j, hj⟩ := hs.fds i
    rw [hj]
    exact h.standard j fd hfd

/-- The tables with the new process. -/
theorem table_born {fds : Fin maxFd → Option (Fin maxOpenFiles)} (hseat : Seated p) (hfree : p.processUsed c' = false)
    (hk : k ≠ 0 ∧ k < maxPid) (hprocesses : t.processes = Function.update p.processes k (some c'))
    (hchild : (t.storage c').fds = fds) (hother : ∀ i, i ≠ c' → (t.storage i).fds = (p.storage i).fds) :
    table t = Function.update (table p) k (some fds) := by
  funext pid
  rw [table, Procs.processAt, hprocesses]
  by_cases hpid : pid = k
  · subst hpid
    rw [if_neg (by omega), Function.update_self, Function.update_self, Option.map_some, hchild]
  · rw [Function.update_of_ne hpid, Function.update_of_ne hpid, table, Procs.processAt]
    split
    · rfl
    · cases hi : p.processes pid with
      | none => rfl
      | some i =>
          rw [Option.map_some, Option.map_some, hother i]
          rintro rfl
          exact hseat.not_free hfree pid hi

/-- The tables where no process is listed anew. -/
theorem table_same (hseat : Seated p) (hfree : p.processUsed c' = false) (hprocesses : t.processes = p.processes)
    (hother : ∀ i, i ≠ c' → (t.storage i).fds = (p.storage i).fds) : table t = table p := by
  funext pid
  rw [table, table, Procs.processAt, Procs.processAt, hprocesses]
  split
  · rfl
  · cases hi : p.processes pid with
    | none => rfl
    | some i =>
        rw [Option.map_some, Option.map_some, hother i]
        rintro rfl
        exact hseat.not_free hfree pid hi

theorem withChild_fds (parent : Process) (child : Fin maxProcesses) : (Proc.withChild parent child).fds = parent.fds := by
  rw [Proc.withChild]
  split <;> rfl

/-- How `fork` ends in terms of descriptors: no process is listed, or one with the descriptors of its parent, which runs
if there is a thread. -/
inductive ForkEnds (p : Procs) (c : Fin maxProcesses) : Nat → Procs → Prop where
  | refused {t : Procs} (hno : Proc.freeProcess p = none ∨ Proc.freePidOf p = none) (htable : table t = table p) :
      ForkEnds p c 0 t
  | halfway {t : Procs} {k : Nat} (hroom : Proc.freeProcess p ≠ none) (hk : Proc.freePidOf p = some k)
      (hthread : Proc.freeThread p = none) (htable : table t = Function.update (table p) k (some (p.storage c).fds)) :
      ForkEnds p c 0 t
  | forked {t : Procs} {k : Nat} (hk : Proc.freePidOf p = some k) (hthread : Proc.freeThread p ≠ none)
      (htable : table t = Function.update (table p) k (some (p.storage c).fds)) : ForkEnds p c k t

/-- The slot of the child once the descriptors have been copied. -/
theorem withSlot_fds (i : Fin maxProcesses) :
    ((Proc.withSlot p c c').storage i).fds = if i = c' then (p.storage c).fds else (p.storage i).fds := by
  rw [Proc.withSlot]
  dsimp only
  by_cases hi : i = c'
  · rw [if_pos hi, hi, Function.update_self]
  · rw [if_neg hi, Function.update_of_ne hi]

theorem withPid_fds (i : Fin maxProcesses) : ((Proc.withPid p c' k).storage i).fds = (p.storage i).fds := by
  rw [Proc.withPid]
  dsimp only
  by_cases hi : i = c'
  · rw [hi, Function.update_self]
  · rw [Function.update_of_ne hi]

theorem fork_ends (hseat : Seated p) (hc : p.processAt p.currentPid = some c) :
    ∃ r t, Proc.fork true p = (.ok r, t) ∧ ForkEnds p c r t ∧ Seated t := by
  obtain ⟨hlisted, -, hlt⟩ := processAt_some hc
  have hparent : (p.processes p.currentPid).or (p.processes 1) = some c := by rw [hlisted, Option.some_or]
  have hused := hseat.used _ _ hlisted
  cases hroom : Proc.freeProcess p with
  | none =>
      have hrun : Proc.forkFrom c (Proc.taken p) = (.ok 0, Proc.taken p) := Proc.forkFrom_none hroom
      exact ⟨0, _, Proc.fork_run hlt hparent hrun, .refused (Or.inl hroom) rfl, hseat.used, hseat.one, hseat.standard⟩
  | some c' =>
      have hfree := Proc.freeProcess_unused hroom
      have hne : c ≠ c' := by
        rintro rfl
        rw [hused] at hfree
        cases hfree
      have hslot := Proc.forkFrom_slot (p := Proc.taken p) hroom hne
      have hsome : ∀ i, ∃ j, ((Proc.withSlot (Proc.taken p) c c').storage i).fds = (p.storage j).fds := by
        intro i
        rw [withSlot_fds]
        by_cases hi : i = c'
        · exact ⟨c, if_pos hi⟩
        · exact ⟨i, if_neg hi⟩
      have hother : ∀ i, i ≠ c' → ((Proc.withSlot (Proc.taken p) c c').storage i).fds = (p.storage i).fds := by
        intro i hi
        rw [withSlot_fds, if_neg hi]
        rfl
      cases hk : Proc.freePidOf p with
      | none =>
          rw [Proc.forkPid_none (p := Proc.withSlot (Proc.taken p) c c') hk] at hslot
          refine ⟨0, _, Proc.fork_run hlt hparent hslot, .refused (Or.inr hk) (table_same hseat hfree rfl hother), ?_⟩
          exact hseat.spawns (k := 0) ⟨hfree, fun _ _ hi => Or.inl hi, rfl, hsome⟩
      | some k =>
          obtain ⟨hzero, hbound, -⟩ := Proc.freePidOf_some hk
          have hself : ((Proc.withSlot (Proc.taken p) c c').storage c').fds = (p.storage c).fds := by
            rw [withSlot_fds, if_pos rfl]
            rfl
          have hlists : ∀ pid i, Function.update p.processes k (some c') pid = some i → p.processes pid = some i ∨ pid = k ∧ i = c' := by
            intro pid i hi
            by_cases hpid : pid = k
            · rw [hpid, Function.update_self] at hi
              exact Or.inr ⟨hpid, (Option.some.inj hi).symm⟩
            · rw [Function.update_of_ne hpid] at hi
              exact Or.inl hi
          cases hth : Proc.freeThread p with
          | none =>
              rw [Proc.forkPid_noThread (p := Proc.withSlot (Proc.taken p) c c') hk hth] at hslot
              refine ⟨0, _, Proc.fork_run hlt hparent hslot, .halfway (by rw [hroom]; nofun) hk hth ?_, ?_⟩
              · exact table_born hseat hfree ⟨hzero, hbound⟩ rfl ((withPid_fds c').trans hself) fun i hi =>
                  (withPid_fds i).trans (hother i hi)
              · refine hseat.spawns (k := k) ⟨hfree, hlists, rfl, fun i => ?_⟩
                obtain ⟨j, hj⟩ := hsome i
                exact ⟨j, (withPid_fds i).trans hj⟩
          | some th =>
              rw [Proc.forkPid_thread (p := Proc.withSlot (Proc.taken p) c c') hk hth] at hslot
              have hfds (i : Fin maxProcesses) : (Function.update (Proc.withPid (Proc.withSlot (Proc.taken p) c c') c' k).storage c
                  (Proc.withChild ((Proc.withPid (Proc.withSlot (Proc.taken p) c c') c' k).storage c) c') i).fds =
                  ((Proc.withSlot (Proc.taken p) c c').storage i).fds := by
                by_cases hi : i = c
                · rw [hi, Function.update_self, withChild_fds]
                  exact withPid_fds c
                · rw [Function.update_of_ne hi]
                  exact withPid_fds i
              refine ⟨k, _, Proc.fork_run hlt hparent hslot, .forked hk (by rw [hth]; nofun) ?_, ?_⟩
              · exact table_born hseat hfree ⟨hzero, hbound⟩ rfl ((hfds c').trans hself) fun i hi => (hfds i).trans (hother i hi)
              · refine hseat.spawns (k := k) ⟨hfree, hlists, rfl, fun i => ?_⟩
                obtain ⟨j, hj⟩ := hsome i
                exact ⟨j, (hfds i).trans hj⟩

end Fork

/-! ### A new pipe -/

/-- The open files that are in use stay as they are. -/
def Keeps (v w : Vfs) : Prop := ∀ f, v.openUsed f = true → w.openUsed f = true ∧ w.openFiles f = v.openFiles f

/-- A pipe has been made, and slots that were free hold its ends. -/
structure MakesPipe (v : Vfs) (p : Fin maxPipes) (w : Vfs) : Prop where
  free : v.pipeUsed p = false
  pipes : w.pipes = Function.update v.pipes p {}
  pipeUsed : w.pipeUsed = Function.update v.pipeUsed p true
  kept : Keeps v w
  files : ∀ f, w.openFiles f = v.openFiles f ∨ ∃ isReadEnd, w.openFiles f = endOf p isReadEnd

/-- How `pipe` ends: there is no pipe, or no open file, or slots have been taken. -/
inductive PipeResult (v : Vfs) : Option (Fin maxOpenFiles × Fin maxOpenFiles) → Vfs → Prop where
  | noPipe (h : ∀ p, v.pipeUsed p = true) : PipeResult v none v
  | noFile {p : Fin maxPipes} {w : Vfs} (hmade : MakesPipe v p w) (hused : w.openUsed = v.openUsed)
      (hfiles : w.openFiles = v.openFiles) (hfull : ∀ f, v.openUsed f = true) : PipeResult v none w
  | took {p : Fin maxPipes} {w : Vfs} {r : Option (Fin maxOpenFiles × Fin maxOpenFiles)} {f : Fin maxOpenFiles}
      (hmade : MakesPipe v p w) (hfree : v.openUsed f = false) (hused : w.openUsed f = true) : PipeResult v r w

section NewPipe

variable {v w : Vfs} {p : Fin maxPipes} {f : Fin maxOpenFiles}

theorem takeFile_self (file : File) : (takeFile f file v).openUsed f = true ∧ (takeFile f file v).openFiles f = file :=
  ⟨Function.update_self _ _ _, Function.update_self _ _ _⟩

theorem takeFile_other {g : Fin maxOpenFiles} (hg : g ≠ f) (file : File) :
    (takeFile f file v).openUsed g = v.openUsed g ∧ (takeFile f file v).openFiles g = v.openFiles g :=
  ⟨Function.update_of_ne hg _ _, Function.update_of_ne hg _ _⟩

/-- A used slot is not the free one. -/
theorem takeFile_used {g : Fin maxOpenFiles} (hf : v.openUsed f = false) (hg : v.openUsed g = true) (file : File) :
    (takeFile f file v).openUsed g = true ∧ (takeFile f file v).openFiles g = v.openFiles g := by
  have hne : g ≠ f := by
    rintro rfl
    rw [hf] at hg
    cases hg
  rw [(takeFile_other hne file).1, (takeFile_other hne file).2]
  exact ⟨hg, rfl⟩

theorem MakesPipe.take (h : MakesPipe v p w) (hf : w.openUsed f = false) (isReadEnd : Bool) :
    MakesPipe v p (takeFile f (endOf p isReadEnd) w) := by
  refine ⟨h.free, h.pipes, h.pipeUsed, fun g hg => ?_, fun g => ?_⟩
  · obtain ⟨hused, hfile⟩ := h.kept g hg
    obtain ⟨hused', hfile'⟩ := takeFile_used hf hused (endOf p isReadEnd)
    exact ⟨hused', hfile'.trans hfile⟩
  · by_cases hg : g = f
    · rw [hg, (takeFile_self _).2]
      exact Or.inr ⟨isReadEnd, rfl⟩
    · rw [(takeFile_other hg _).2]
      exact h.files g

theorem openFileFromPipe_cases {isReadEnd : Bool} {r : Option (Fin maxOpenFiles)}
    (h : openFileFromPipe p isReadEnd v = (.ok r, w)) : r = none ∧ w = v ∧ (∀ f, v.openUsed f = true) ∨
      ∃ f, r = some f ∧ v.openUsed f = false ∧ w = takeFile f (endOf p isReadEnd) v := by
  rw [openFileFromPipe, Act.get_bind_run] at h
  cases hfind : Table.find? v.openUsed fun used => !used with
  | none =>
      rw [hfind] at h
      cases h
      exact Or.inl ⟨rfl, rfl, fun f => by simpa using Table.find?_none.mp hfind f⟩
  | some f =>
      rw [hfind] at h
      cases h
      exact Or.inr ⟨f, rfl, by simpa using Table.find?_some hfind, rfl⟩

theorem copy_cases {file : Fin maxOpenFiles} {r : Option (Fin maxOpenFiles)} (h : Vfs.allocFd file v = (.ok r, w)) :
    r = none ∧ w = v ∨ ∃ f, r = some f ∧ v.openUsed f = false ∧ w = takeFile f (v.openFiles file) v := by
  rw [Vfs.allocFd, Act.get_bind_run] at h
  cases hfind : freeCopy v with
  | none =>
      rw [hfind] at h
      cases h
      exact Or.inl ⟨rfl, rfl⟩
  | some f =>
      rw [hfind] at h
      cases h
      have hfree := List.find?_some hfind
      rw [Bool.and_eq_true, Bool.not_eq_true'] at hfree
      exact Or.inr ⟨f, rfl, hfree.2, rfl⟩

/-- An end is opened behind the others. -/
theorem MakesPipe.openEnd {w' : Vfs} {isReadEnd : Bool} (h : MakesPipe v p w)
    (hopen : openFileFromPipe p isReadEnd w = (.ok (some f), w')) :
    MakesPipe v p w' ∧ w.openUsed f = false ∧ w'.openUsed f = true ∧ w'.openFiles f = endOf p isReadEnd ∧ Keeps w w' := by
  rcases openFileFromPipe_cases hopen with ⟨hr, -⟩ | ⟨g, hr, hg, rfl⟩
  · cases hr
  · cases hr
    obtain ⟨hused, hfile⟩ := takeFile_self (v := w) (f := f) (endOf p isReadEnd)
    exact ⟨h.take hg isReadEnd, hg, hused, hfile, fun g hused => takeFile_used hg hused _⟩

/-- An end is copied. -/
theorem MakesPipe.copy {w' : Vfs} {isReadEnd : Bool} {r : Option (Fin maxOpenFiles)} (h : MakesPipe v p w)
    (hcopy : Vfs.allocFd f w = (.ok r, w')) (hfile : w.openFiles f = endOf p isReadEnd) : MakesPipe v p w' ∧ Keeps w w' := by
  rcases copy_cases hcopy with ⟨rfl, rfl⟩ | ⟨g, rfl, hg, rfl⟩
  · exact ⟨h, fun _ hused => ⟨hused, rfl⟩⟩
  · rw [hfile]
    exact ⟨h.take hg isReadEnd, fun g hused => takeFile_used hg hused _⟩

theorem pipe_cases {r : Option (Fin maxOpenFiles × Fin maxOpenFiles)} (h : Vfs.pipe v = (.ok r, w)) : PipeResult v r w := by
  rw [Vfs.pipe] at h
  obtain ⟨p, v₁, halloc, h₁⟩ := Act.bind_run_eq_ok h
  rw [allocPipe, Act.get_bind_run] at halloc
  cases hfind : Table.find? v.pipeUsed fun used => !used with
  | none =>
      rw [hfind] at halloc
      cases halloc
      cases h₁
      exact .noPipe fun p => by simpa using Table.find?_none.mp hfind p
  | some q =>
      rw [hfind] at halloc
      cases halloc
      have hfree : v.pipeUsed q = false := by simpa using Table.find?_some hfind
      have hmade : MakesPipe v q { v with
          pipeUsed := Function.update v.pipeUsed q true, pipes := Function.update v.pipes q {} } :=
        ⟨hfree, rfl, rfl, fun _ hf => ⟨hf, rfl⟩, fun _ => Or.inl rfl⟩
      obtain ⟨readFile, v₂, hread, h₂⟩ := Act.bind_run_eq_ok h₁
      cases readFile with
      | none =>
          rcases openFileFromPipe_cases hread with ⟨-, hv, hfull⟩ | ⟨f, hr, -⟩
          · cases h₂
            rw [hv]
            exact .noFile hmade rfl rfl hfull
          · cases hr
      | some f =>
          obtain ⟨hmade, hf, hused, hfile, -⟩ := hmade.openEnd hread
          obtain ⟨writeFile, v₃, hwrite, h₃⟩ := Act.bind_run_eq_ok h₂
          cases writeFile with
          | none =>
              rcases openFileFromPipe_cases hwrite with ⟨-, hv, -⟩ | ⟨g, hr, -⟩
              · cases h₃
                rw [hv]
                exact .took hmade hf hused
              · cases hr
          | some g =>
              obtain ⟨hmade, -, hused', hfile', hkept⟩ := hmade.openEnd hwrite
              obtain ⟨hused, hfile⟩ := (hkept f hused).imp_right fun heq => heq.trans hfile
              obtain ⟨readFd, v₄, hcopy, h₄⟩ := Act.bind_run_eq_ok h₃
              obtain ⟨hmade, hkept⟩ := hmade.copy hcopy hfile
              obtain ⟨hused', hfile'⟩ := (hkept g hused').imp_right fun heq => heq.trans hfile'
              have hused := (hkept f hused).1
              cases readFd with
              | none =>
                  cases h₄
                  exact .took hmade hf hused
              | some a =>
                  obtain ⟨writeFd, v₅, hcopy, h₅⟩ := Act.bind_run_eq_ok h₄
                  obtain ⟨hmade, hkept⟩ := hmade.copy hcopy hfile'
                  have hused := (hkept f hused).1
                  cases writeFd with
                  | none | some b =>
                      cases h₅
                      exact .took hmade hf hused

end NewPipe

/-! ### Each call -/

section Calls

variable {x t : State} {r : Int} {c : Fin maxProcesses}

theorem onVfs_returns {α : Type} {m : Vfs.Run α} {a : α} (h : onVfs m x = (.ok a, t)) :
    m x.vfs = (.ok a, t.vfs) ∧ t.procs = x.procs := by
  obtain ⟨hval, rfl⟩ := Prod.mk.inj h
  exact ⟨Prod.ext hval rfl, rfl⟩

theorem onProcs_returns {α : Type} {m : Procs.Run α} {a : α} (h : onProcs m x = (.ok a, t)) :
    m x.procs = (.ok a, t.procs) ∧ t.vfs = x.vfs := by
  obtain ⟨hval, rfl⟩ := Prod.mk.inj h
  exact ⟨Prod.ext hval rfl, rfl⟩

theorem sysPipe_cases {ptr flags : Nat} (h : sysPipe ptr flags x = (.ok r, t)) : ∃ fds, PipeResult x.vfs fds t.vfs ∧
    t.procs = x.procs ∧ (fds = none ∧ r = emfile ∨ fds.isSome = true ∧ r = 0) := by
  obtain ⟨pipefd, -, h₁⟩ := Act.lift_bind_run_eq_ok h
  obtain ⟨_, -, h₂⟩ := Act.lift_bind_run_eq_ok h₁
  obtain ⟨fds, y, hpipe, h₃⟩ := Act.bind_run_eq_ok h₂
  obtain ⟨hpipe, hprocs⟩ := onVfs_returns hpipe
  have hresult := pipe_cases hpipe
  cases fds with
  | none =>
      cases h₃
      exact ⟨none, hresult, hprocs, Or.inl ⟨rfl, rfl⟩⟩
  | some ab =>
      cases h₃
      exact ⟨some ab, hresult, hprocs, Or.inr ⟨rfl, rfl⟩⟩

/-- The part of `sys_openat` that opens a file. -/
def opening (dirfd pathPtr flags mode : Nat) : Run (Option (Fin maxOpenFiles)) := do
  let path ← userPath pathPtr
  match path with
  | none => pure none
  | some path => do
      let dirfd ← Act.lift (castI32 dirfd)
      let flags ← Act.lift (castU32 flags)
      let mode ← Act.lift (castU32 mode)
      onVfs (Vfs.openat dirfd path flags mode)

/-- A file is opened, whether or not there is a descriptor for it. -/
def Opens (x : State) (dirfd pathPtr flags mode : Nat) : Prop :=
  ∃ f y, opening dirfd pathPtr flags mode x = (.ok (some f), y)

/-- The pipes of the file system. -/
def pipesOf (v : Vfs) : (Fin maxPipes → Pipe) × (Fin maxPipes → Bool) := (v.pipes, v.pipeUsed)

/-- How `sys_openat` ends: no file is opened, or there is no descriptor for it, or it has one. -/
inductive OpenatResult (x : State) (c : Fin maxProcesses) (opens : Prop) : Int → State → Prop where
  | refused {r : Int} {t : State} (hr : r < 0) (hnot : ¬opens) (hprocs : t.procs = x.procs)
      (hused : t.vfs.openUsed = x.vfs.openUsed) (hfiles : t.vfs.openFiles = x.vfs.openFiles) : OpenatResult x c opens r t
  | leaked {t : State} {f : Fin maxOpenFiles} {file : File} (hopens : opens) (hfull : freeFd (x.procs.storage c) = none)
      (hprocs : t.procs = x.procs) (hfree : x.vfs.openUsed f = false)
      (hused : t.vfs.openUsed = Function.update x.vfs.openUsed f true)
      (hfiles : t.vfs.openFiles = Function.update x.vfs.openFiles f file) (hfile : file.data = none ∧ file.ops = none) :
      OpenatResult x c opens emfile t
  | opened {t : State} {f : Fin maxOpenFiles} {file : File} {fd : Fin maxFd} (hfd : freeFd (x.procs.storage c) = some fd)
      (hprocs : t.procs = x.procs.setFd c fd (some f)) (hfree : x.vfs.openUsed f = false)
      (hused : t.vfs.openUsed = Function.update x.vfs.openUsed f true)
      (hfiles : t.vfs.openFiles = Function.update x.vfs.openFiles f file) (hfile : file.data = none ∧ file.ops = none) :
      OpenatResult x c opens fd.val t

theorem fixes_copyLoop {vma : Option Mm.VmArea} {src : Nat} (n i : Nat) :
    Act.Fixes (fun s : State => (s.vfs, s.procs)) (Uaccess.copyLoop vma src i n) := by
  induction n generalizing i with
  | zero => exact .pure _
  | succ n ih =>
      refine .ite (.pure _) ((Act.Fixes.lift _).bind fun addr => Act.Fixes.bind ?_ fun bytes => ?_)
      · exact .modify_bind (fun _ => rfl) fun _ => Act.Fixes.get.bind fun _ => .pure _
      · exact .modify_bind (fun _ => rfl) fun _ => .ite (.pure _) (ih _)

theorem fixes_userPath (ptr : Nat) : Act.Fixes (fun s : State => (s.vfs, s.procs)) (userPath ptr) := by
  refine (Act.Fixes.get.bind fun s => fixes_copyLoop _ _).bind fun n => ?_
  cases n with
  | none => exact .pure _
  | some n => exact Act.Fixes.get.bind fun s => (Act.Fixes.lift _).bind fun path => .pure _

theorem allocFd_run (hc : x.procs.processAt x.procs.currentPid = some c) (f : Fin maxOpenFiles) :
    onProcs (Procs.allocFd f) x = match freeFd (x.procs.storage c) with
      | none => (.ok none, x)
      | some fd => (.ok (some fd.val), { x with procs := x.procs.setFd c fd (some f) }) := by
  have hrun : Procs.allocFd f x.procs = match freeFd (x.procs.storage c) with
      | none => (.ok none, x.procs)
      | some fd => (.ok (some fd.val), x.procs.setFd c fd (some f)) := by
    rw [Procs.allocFd, Act.get_bind_run, currentProcess_of hc, Act.lift_ok_bind_run]
    cases freeFd (x.procs.storage c) <;> rfl
  rw [onProcs, Act.zoom, hrun]
  cases freeFd (x.procs.storage c) <;> rfl

theorem openat_tables {v w : Vfs} {dirfd : Int} {path : Bytes} {flags mode : Nat} {found : Option (Fin maxOpenFiles)}
    (h : Vfs.openat dirfd path flags mode v = (.ok found, w)) :
    found = none ∧ w.openUsed = v.openUsed ∧ w.openFiles = v.openFiles ∨
      ∃ f file, found = some f ∧ v.openUsed f = false ∧ w.openUsed = Function.update v.openUsed f true ∧
        w.openFiles = Function.update v.openFiles f file ∧ file.data = none ∧ file.ops = none := by
  have hopened := openat_store h
  generalize hstore : w.store = s at hopened
  have hused : w.openUsed = s.openUsed := congrArg Store.openUsed hstore
  have hfiles : w.openFiles = s.openFiles := congrArg Store.openFiles hstore
  cases hopened with
  | none hmade =>
      obtain ⟨hfiles', hused'⟩ := hmade.openUsed
      exact Or.inl ⟨rfl, hused.trans hused', hfiles.trans hfiles'⟩
  | @some made u hmade f hfree d i flags =>
      obtain ⟨hfiles', hused'⟩ := hmade.openUsed
      refine Or.inr ⟨f, { dentry := d, inode := i, flags }, rfl, hfree, hused.trans ?_, hfiles.trans ?_, rfl, rfl⟩
      · rw [Store.opened]
        dsimp only
        rw [hused']
        rfl
      · rw [Store.opened]
        dsimp only
        rw [hfiles']
        rfl

theorem sysOpenat_cases {dirfd pathPtr flags mode : Nat} (h : sysOpenat dirfd pathPtr flags mode x = (.ok r, t))
    (hc : x.procs.processAt x.procs.currentPid = some c) : OpenatResult x c (Opens x dirfd pathPtr flags mode) r t := by
  rw [sysOpenat] at h
  obtain ⟨path, u, hpath, h₁⟩ := Act.bind_run_eq_ok h
  have hsame := (fixes_userPath pathPtr).run hpath
  have hvfs : u.vfs = x.vfs := congrArg Prod.fst hsame
  have hprocs : u.procs = x.procs := congrArg Prod.snd hsame
  have hopening : opening dirfd pathPtr flags mode x = _ := Act.bind_ok_run hpath
  cases path with
  | none =>
      cases h₁
      refine .refused (by decide) ?_ hprocs (congrArg Vfs.openUsed hvfs) (congrArg Vfs.openFiles hvfs)
      rintro ⟨f, y, hopens⟩
      rw [hopening] at hopens
      cases hopens
  | some path =>
      obtain ⟨dirfd', hdirfd, h₂⟩ := Act.lift_bind_run_eq_ok h₁
      obtain ⟨flags', hflags, h₃⟩ := Act.lift_bind_run_eq_ok h₂
      obtain ⟨mode', hmode, h₄⟩ := Act.lift_bind_run_eq_ok h₃
      obtain ⟨found, y, hfound, h₅⟩ := Act.bind_run_eq_ok h₄
      dsimp only at hopening
      rw [hdirfd, Act.lift_ok_bind_run, hflags, Act.lift_ok_bind_run, hmode, Act.lift_ok_bind_run, hfound] at hopening
      obtain ⟨hrun, hprocs'⟩ := onVfs_returns hfound
      rw [hvfs] at hrun
      rcases openat_tables hrun with ⟨rfl, hused, hfiles⟩ | ⟨f, file, rfl, hfree, hused, hfiles, hfile⟩
      · cases h₅
        refine .refused (by decide) ?_ (hprocs'.trans hprocs) hused hfiles
        rintro ⟨f, y, hopens⟩
        rw [hopening] at hopens
        cases hopens
      · have hprocs := hprocs'.trans hprocs
        dsimp only at h₅
        obtain ⟨fd, z, halloc, h₆⟩ := Act.bind_run_eq_ok h₅
        rw [allocFd_run (c := c) (by rw [hprocs]; exact hc), hprocs] at halloc
        cases hfd : freeFd (x.procs.storage c) with
        | none =>
            rw [hfd] at halloc
            cases halloc
            cases h₆
            exact .leaked ⟨f, _, hopening⟩ hfd hprocs hfree hused hfiles hfile
        | some fd =>
            rw [hfd] at halloc
            cases halloc
            obtain ⟨hr, rfl⟩ := Prod.mk.inj h₆
            rw [← castI64_ok hr]
            exact .opened hfd rfl hfree hused hfiles hfile

theorem fdAt_run (hc : x.procs.processAt x.procs.currentPid = some c) (fd : Nat) :
    Kernel.fdAt fd x = (.ok (entry x.procs x.procs.currentPid fd), x) := by
  rw [Kernel.fdAt, Act.get_bind_run, fdAt_of hc]
  rfl

/-- How `sys_read` ends: it is refused, or it reads from the file of the descriptor. -/
theorem sysRead_cases {fd buf len : Nat} (h : sysRead fd buf len x = (.ok r, t))
    (hc : x.procs.processAt x.procs.currentPid = some c) :
    r < 0 ∧ t = x ∧ (Uaccess.validate x.mm buf len true = true → entry x.procs x.procs.currentPid fd = none) ∨
      ∃ f, entry x.procs x.procs.currentPid fd = some f ∧ Uaccess.validate x.mm buf len true = true ∧
        Vfs.read f buf len x = (.ok r, t) := by
  rw [sysRead, Act.get_bind_run] at h
  cases hvalid : Uaccess.validate x.mm buf len true with
  | false =>
      rw [hvalid, if_pos Bool.false_ne_true] at h
      cases h
      exact Or.inl ⟨by decide, rfl, fun htrue => by cases htrue⟩
  | true =>
      rw [hvalid, if_neg fun hnot => hnot rfl, Act.bind_ok_run (fdAt_run hc fd)] at h
      cases hentry : entry x.procs x.procs.currentPid fd with
      | none =>
          rw [hentry] at h
          cases h
          exact Or.inl ⟨by decide, rfl, fun _ => rfl⟩
      | some f =>
          rw [hentry] at h
          obtain ⟨addr, haddr, h⟩ := Act.lift_bind_run_eq_ok h
          rw [ptrFromInt_eq_ok haddr] at h
          exact Or.inr ⟨f, rfl, rfl, h⟩

/-- What goes to the captured streams. -/
theorem captureWrite_keeps {read : Capture → Fin Capture.maxProcs → Capture.Stream}
    {write : (Fin Capture.maxProcs → Capture.Stream) → Capture → Capture} {buf len : Nat}
    (h : captureWrite read write buf len x = (.ok r, t)) : t.vfs = x.vfs ∧ t.procs = x.procs := by
  have hfixes : Act.Fixes (fun s : State => (s.vfs, s.procs)) (captureWrite read write buf len) := by
    refine Act.Fixes.get.bind fun s => (Act.Fixes.lift _).bind fun pid => Act.Fixes.bind ?_ fun bytes => ?_
    · exact .modify_bind (fun _ => rfl) fun _ => Act.Fixes.get.bind fun _ => .pure _
    · exact (Act.Fixes.lift _).bind fun stream => .modify_bind (fun _ => rfl) fun _ => .lift _
  have hsame := hfixes.run h
  exact ⟨congrArg Prod.fst hsame, congrArg Prod.snd hsame⟩

/-- How `sys_write` ends: it goes to a captured stream or is refused, or it writes into the file of the descriptor. -/
theorem sysWrite_cases {fd buf len : Nat} (h : sysWrite fd buf len x = (.ok r, t))
    (hc : x.procs.processAt x.procs.currentPid = some c) :
    t.vfs = x.vfs ∧ t.procs = x.procs ∧ (Uaccess.validate x.mm buf len false = true → fd = 1 ∨ fd = 2 ∨
        entry x.procs x.procs.currentPid fd = none) ∨
      ∃ f, entry x.procs x.procs.currentPid fd = some f ∧ Uaccess.validate x.mm buf len false = true ∧
        Vfs.write f buf len x = (.ok r, t) := by
  rw [sysWrite, Act.get_bind_run] at h
  cases hvalid : Uaccess.validate x.mm buf len false with
  | false =>
      rw [hvalid, if_pos Bool.false_ne_true] at h
      cases h
      exact Or.inl ⟨rfl, rfl, fun htrue => by cases htrue⟩
  | true =>
      rw [hvalid, if_neg fun hnot => hnot rfl] at h
      obtain ⟨addr, haddr, h⟩ := Act.lift_bind_run_eq_ok h
      rw [ptrFromInt_eq_ok haddr] at h
      by_cases hout : fd = 1
      · rw [if_pos hout] at h
        obtain ⟨hvfs, hprocs⟩ := captureWrite_keeps h
        exact Or.inl ⟨hvfs, hprocs, fun _ => Or.inl hout⟩
      by_cases herr : fd = 2
      · rw [if_neg hout, if_pos herr] at h
        obtain ⟨hvfs, hprocs⟩ := captureWrite_keeps h
        exact Or.inl ⟨hvfs, hprocs, fun _ => Or.inr (Or.inl herr)⟩
      rw [if_neg hout, if_neg herr, Act.bind_ok_run (fdAt_run hc fd)] at h
      cases hentry : entry x.procs x.procs.currentPid fd with
      | none =>
          rw [hentry] at h
          cases h
          exact Or.inl ⟨rfl, rfl, fun _ => Or.inr (Or.inr rfl)⟩
      | some f =>
          rw [hentry] at h
          exact Or.inr ⟨f, rfl, rfl, h⟩

/-- How `sys_close` ends: there is no such descriptor, or it is taken away with its slot. -/
theorem sysClose_cases {fd : Nat} (h : sysClose fd x = (.ok r, t))
    (hc : x.procs.processAt x.procs.currentPid = some c) :
    entry x.procs x.procs.currentPid fd = none ∧ r < 0 ∧ t = x ∨ ∃ f, ∃ hfd : fd < maxFd, entry x.procs x.procs.currentPid fd = some f ∧ r = 0 ∧
      t.procs = x.procs.setFd c ⟨fd, hfd⟩ none ∧
      t.vfs = { x.vfs with openUsed := Function.update x.vfs.openUsed f false } := by
  rw [sysClose, Act.bind_ok_run (fdAt_run hc fd)] at h
  cases hentry : entry x.procs x.procs.currentPid fd with
  | none =>
      rw [hentry] at h
      cases h
      exact Or.inl ⟨rfl, by decide, rfl⟩
  | some f =>
      rw [hentry] at h
      obtain ⟨c', hfd, hc', -⟩ := entry_some hentry
      rw [hc] at hc'
      cases hc'
      obtain ⟨⟨⟩, y, hclose, h⟩ := Act.bind_run_eq_ok h
      obtain ⟨⟨⟩, z, hfds, h⟩ := Act.bind_run_eq_ok h
      cases h
      obtain ⟨hvfs, hprocs⟩ := onVfs_returns hclose
      obtain ⟨hrun, hvfs'⟩ := onProcs_returns hfds
      rw [hprocs, closeFd, dif_pos hfd, Act.get_bind_run, currentProcess_of hc, Act.lift_ok_bind_run] at hrun
      exact Or.inr ⟨f, hfd, rfl, rfl, (Prod.mk.inj hrun).2.symm, hvfs'.trans (Prod.mk.inj hvfs).2.symm⟩

theorem sysFork_cases (h : sysFork x = (.ok r, t)) (hseat : Seated x.procs)
    (hc : x.procs.processAt x.procs.currentPid = some c) :
    ∃ k : Nat, r = k ∧ t.vfs = x.vfs ∧ ForkEnds x.procs c k t.procs ∧ Seated t.procs := by
  obtain ⟨k, p, hrun, hends, hseat'⟩ := fork_ends hseat hc
  obtain ⟨k', y, hfork, hcast⟩ := Act.bind_run_eq_ok h
  obtain ⟨hfork, hvfs⟩ := onProcs_returns hfork
  obtain ⟨hr, hy⟩ := Prod.mk.inj hcast
  rw [hrun] at hfork
  obtain ⟨hk, hp⟩ := Prod.mk.inj hfork
  rw [← Outcome.ok.inj hk] at hr
  rw [← hy, ← hp]
  exact ⟨k, (castI64_ok hr).symm, hvfs, hends, hseat'⟩

/-- The open files are the same, but for a position that has moved. -/
structure Moved (v w : Vfs) : Prop where
  used : w.openUsed = v.openUsed
  files : ∀ f, { w.openFiles f with pos := 0 } = { v.openFiles f with pos := 0 }

theorem moved_seek {s : Store} {f : Fin maxOpenFiles} {pos : Nat} (g : Fin maxOpenFiles) :
    { (s.seek f pos).openFiles g with pos := 0 } = { s.openFiles g with pos := 0 } := by
  rw [Store.seek]
  dsimp only
  by_cases hg : g = f
  · rw [hg, Function.update_self]
  · rw [Function.update_of_ne hg]

/-- The processes are beside the files. -/
theorem apart_procs : Apart fun _ : Vfs => () := ⟨fun _ _ => rfl, fun _ _ => rfl, fun _ _ => rfl, fun _ _ => rfl, fun _ _ _ => rfl⟩

theorem read_moved {f : Fin maxOpenFiles} {buf len : Nat} (h : Vfs.read f buf len x = (.ok r, t)) :
    t.procs = x.procs ∧ Moved x.vfs t.vfs ∧ (r < 0 → t.vfs.openFiles = x.vfs.openFiles) := by
  have hprocs := congrArg Prod.snd ((apart_procs.read (fun _ _ => rfl) f buf len).run h)
  refine ⟨hprocs, ?_⟩
  have hread := read_store h
  generalize hs : t.vfs.store = s at hread
  have hused : t.vfs.openUsed = s.openUsed := congrArg Store.openUsed hs
  have hfiles : t.vfs.openFiles = s.openFiles := congrArg Store.openFiles hs
  generalize bytesAt t buf r.toNat = bytes at hread
  cases hread with
  | refused _ | device _ | empty _ _ => exact ⟨⟨hused, fun g => by rw [hfiles]; rfl⟩, fun _ => hfiles⟩
  | some _ _ _ =>
      refine ⟨⟨hused, fun g => ?_⟩, fun hneg => absurd hneg (Int.not_lt.mpr (Int.natCast_nonneg _))⟩
      rw [hfiles, moved_seek]
      rfl

theorem bytesAt_length (s : State) (addr n : Nat) : (bytesAt s addr n).length = n := by
  rw [bytesAt, List.length_map, List.length_range]

theorem write_moved {f : Fin maxOpenFiles} {buf len : Nat} (h : Vfs.write f buf len x = (.ok r, t)) :
    t.procs = x.procs ∧ Moved x.vfs t.vfs ∧ (r < 0 → t.vfs.openFiles = x.vfs.openFiles) := by
  have hprocs := congrArg Prod.snd ((apart_procs.write (fun _ _ => rfl) f buf len).run h)
  refine ⟨hprocs, ?_⟩
  have hdata : bytesAt x buf (bytesAt x buf len).length = bytesAt x buf len := by rw [bytesAt_length]
  have hwritten := write_store hdata (by rw [bytesAt_length]; exact h)
  generalize hs : t.vfs.store = s at hwritten
  have hused : t.vfs.openUsed = s.openUsed := congrArg Store.openUsed hs
  have hfiles : t.vfs.openFiles = s.openFiles := congrArg Store.openFiles hs
  have hcount (n : Nat) : ¬((n : Int) < 0) := Int.not_lt.mpr (Int.natCast_nonneg n)
  cases hwritten with
  | refused _ _ | device _ => exact ⟨⟨hused, fun g => by rw [hfiles]; rfl⟩, fun _ => hfiles⟩
  | inPlace _ _ _ _ =>
      refine ⟨⟨hused, fun g => ?_⟩, fun hneg => absurd hneg (hcount _)⟩
      rw [hfiles, moved_seek]
      rfl
  | @grown i _ _ _ _ _ =>
      obtain ⟨-, -, hfiles', hused'⟩ := x.vfs.store.discard_kept i
      refine ⟨⟨hused.trans hused', fun g => ?_⟩, fun hneg => absurd hneg (hcount _)⟩
      rw [hfiles, moved_seek]
      exact congrArg (fun file : File => { file with pos := 0 }) (congrFun hfiles' g)

end Calls

end Descriptors

end Kernel
