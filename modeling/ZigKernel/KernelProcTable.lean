import ZigKernel.KernelFork
import ZigKernel.LangReturns
import ZigKernel.LibRuns

/-! The accounting of the process table over histories of `fork`, exits and `waitpid`. As long as no fork stops halfway,
no children array is full and no child that has exited is waited for, the tables stay in step; each of the three breaks
them at once, since nothing gives a slot, a tid or a thread back. -/

namespace Kernel.Proc

open Zig

/-! ### What waitpid returns -/

/-- Either nothing is taken out, or a child that has exited is, and then only its pid is given back. -/
inductive WaitResult (p : Procs) (current : Fin maxProcesses) (pid : Int) : Int → Procs → Prop where
  | nothing {r : Int} {t : Procs} (hr : r ≤ 0) (h : SameTables p t)
      (hfound : ∀ slot child, findChild p current pid = some (slot, child) → (p.storage child).exiting = false) :
      WaitResult p current pid r t
  | reaped {t : Procs} {slot : Fin maxChildren} {child : Fin maxProcesses}
      (hfound : findChild p current pid = some (slot, child)) (hexiting : (p.storage child).exiting = true)
      (hused : t.processUsed = p.processUsed) : WaitResult p current pid (p.storage child).pid t

section Wait

variable {p : Procs}

/-- `processAt` with the lock always available. -/
theorem processAt_always (pid : Nat) : ∃ t, processAt true pid p = (.ok (p.processAt pid), t) ∧ SameTables p t := by
  rw [processAt, Procs.processAt]
  split
  · exact ⟨p, rfl, rfl⟩
  · have hbody : (do
        let p ← Act.get
        pure (p.processes pid) : Run _) (taken p) = (.ok (p.processes pid), taken p) := rfl
    exact ⟨_, locked_always hbody, rfl⟩

theorem currentProcess_always : ∃ t, currentProcess true p = (p.currentProcess, t) ∧ SameTables p t := by
  obtain ⟨t, hrun, hsame⟩ := processAt_always (p := p) p.currentPid
  rw [currentProcess, Act.get_bind_run, Act.bind_ok_run hrun, Procs.currentProcess]
  cases p.processAt p.currentPid with
  | some i => exact ⟨t, rfl, hsame⟩
  | none =>
      obtain ⟨u, hrun', hsame'⟩ := processAt_always (p := t) 1
      have hone : t.processAt 1 = p.processAt 1 := hsame.congr (fun p => p.processAt 1) fun _ => rfl
      dsimp only
      rw [Act.bind_ok_run hrun', hone]
      cases p.processAt 1 with
      | some i => exact ⟨u, rfl, hsame'.trans hsame⟩
      | none => exact ⟨u, rfl, hsame'.trans hsame⟩

/-- `reap` where it returns. -/
theorem reap_ensures (current : Fin maxProcesses) (slot : Fin maxChildren) (child : Fin maxProcesses) (wstatus : Nat) :
    Act.Ensures (reap true current slot child wstatus) p
      (fun r t => r = (p.storage child).pid ∧ t.processUsed = p.processUsed) (fun _ _ => True) True := by
  have hfree {q : Procs} {pid : Nat} : Act.Ensures (freePid true pid) q
      (fun _ t => t.storage = q.storage ∧ t.processUsed = q.processUsed) (fun _ _ => True) True := by
    rw [freePid]
    split
    · exact ⟨rfl, rfl⟩
    · have hbody : setProcess pid none (taken q) = (.ok (), { taken q with
        processes := Function.update q.processes pid none }) := rfl
      rw [Act.Ensures, locked_always hbody]
      exact ⟨rfl, rfl⟩
  rw [reap, updateProcess]
  refine Act.Ensures.modify_bind (Act.Ensures.get_bind ?_)
  refine Act.Ensures.bind (Act.Ensures.lift (Q := fun _ t => t = _) (fun _ _ => rfl) (fun _ _ => True.intro)
    fun _ => True.intro) ?_
  rintro _ t rfl
  refine hfree.bind fun _ t ht => Act.Ensures.get_bind (Act.Ensures.pure ?_)
  rw [ht.1, ht.2]
  refine ⟨?_, rfl⟩
  have hpid : (Function.update p.storage current { p.storage current with
      children := Function.update (p.storage current).children slot none } child).pid = (p.storage child).pid := by
    by_cases heq : child = current
    · rw [heq, Function.update_self]
    · rw [Function.update_of_ne heq]
  exact congrArg Nat.cast hpid

/-- A child that runs has not exited when the call gets the lock back, since no other call comes in between. -/
theorem waitRunning_ensures (current : Fin maxProcesses) (slot : Fin maxChildren) (child : Fin maxProcesses)
    (wstatus options : Nat) : Act.Ensures (waitRunning true id current slot child wstatus options) p
      (fun r t => r ≤ 0 ∧ SameTables p t) (fun _ _ => True) True := by
  rw [waitRunning]
  refine Act.Ensures.get_bind (Act.Ensures.ite (fun _ => ⟨Int.le_refl 0, rfl⟩) fun _ => ?_)
  rw [release, lockOp]
  refine Act.Ensures.modify_bind (Act.Ensures.modify_bind (.run_bind (acquire_always _) (Act.Ensures.get_bind ?_)))
  refine Act.Ensures.ite (fun h => absurd rfl h.1) fun _ => ⟨by decide, rfl⟩

theorem locked_ensures {α : Type} {m : Run α} {Q : α → Procs → Prop}
    (h : Act.Ensures m (taken p) Q (fun _ _ => True) True) :
    Act.Ensures (locked true m) p (fun a t => ∃ u, Q a u ∧ SameTables u t) (fun _ _ => True) True := by
  refine .run_bind (acquire_always p) (h.bind fun a u hu => ?_)
  rw [release, lockOp]
  exact Act.Ensures.modify_bind (Act.Ensures.pure ⟨u, hu, rfl⟩)

theorem WaitResult.unlocked {current : Fin maxProcesses} {pid r : Int} {q t u : Procs} (hq : SameTables p q)
    (h : WaitResult q current pid r t) (hu : SameTables t u) : WaitResult p current pid r u := by
  have hfind : findChild q current pid = findChild p current pid :=
    hq.congr (fun p => findChild p current pid) fun _ => rfl
  have hstorage : q.storage = p.storage := hq.congr Procs.storage fun _ => rfl
  cases h with
  | nothing hr h hfound =>
      rw [hfind, hstorage] at hfound
      exact .nothing hr (hu.trans (h.trans hq)) hfound
  | reaped hfound hexiting hused =>
      rw [hfind] at hfound
      rw [hstorage] at hexiting ⊢
      have hsame : q.processUsed = p.processUsed := hq.congr Procs.processUsed fun _ => rfl
      exact .reaped hfound hexiting ((hu.congr Procs.processUsed fun _ => rfl).trans (hused.trans hsame))

theorem waitChild_ensures (current : Fin maxProcesses) (pid : Int) (wstatus options : Nat) :
    Act.Ensures (waitChild true id current pid wstatus options) p (WaitResult p current pid) (fun _ _ => True) True := by
  rw [waitChild]
  refine Act.Ensures.get_bind ?_
  cases hfound : findChild p current pid with
  | none =>
      refine WaitResult.nothing (by decide) rfl fun slot child hsome => ?_
      rw [hfound] at hsome
      cases hsome
  | some found =>
      refine Act.Ensures.ite (fun hexiting => ?_) fun hexiting => ?_
      · refine (reap_ensures current found.1 found.2 wstatus).mono ?_ (fun _ _ _ => True.intro) fun _ => True.intro
        rintro r t ⟨rfl, hused⟩
        exact .reaped hfound hexiting hused
      · refine (waitRunning_ensures current found.1 found.2 wstatus options).mono ?_ (fun _ _ _ => True.intro)
          fun _ => True.intro
        rintro r t ⟨hr, hsame⟩
        refine .nothing hr hsame fun slot child hsome => ?_
        rw [hfound] at hsome
        cases hsome
        exact Bool.eq_false_iff.mpr hexiting

/-- `waitpid` where it returns. -/
theorem waitpid_ensures (pid : Int) (wstatus options : Nat) : Act.Ensures (waitpid true id pid wstatus options) p
    (fun r t => ∃ i, p.currentProcess = .ok i ∧ WaitResult p i pid r t) (fun _ _ => True) True := by
  obtain ⟨q, hrun, hsame⟩ := currentProcess_always (p := p)
  cases hcurrent : p.currentProcess with
  | ok i =>
      rw [hcurrent] at hrun
      refine .run_bind hrun ((locked_ensures (waitChild_ensures i pid wstatus options)).mono ?_
        (fun _ _ _ => True.intro) fun _ => True.intro)
      rintro r t ⟨u, hu, hut⟩
      exact ⟨i, rfl, hu.unlocked (q := taken q) hsame hut⟩
  | error e =>
      rw [hcurrent] at hrun
      rw [Act.Ensures, waitpid, Act.bind_error_run hrun]
      exact True.intro
  | trap =>
      rw [hcurrent] at hrun
      rw [Act.Ensures, waitpid, Act.bind_trap_run hrun]
      exact True.intro

end Wait

/-! ### Histories -/

/-- A step of a history; each call is of the process that runs then. -/
inductive Op where
  | switch (pid : Nat)
  | fork
  | exits (process : Fin maxProcesses) (status : Int)
  | waitpid (pid : Int) (wstatus options : Nat)

namespace Op

def run : Op → Run Int
  | switch pid => do
      Act.modify fun p => { p with currentPid := pid }
      pure 0
  | fork => do
      let pid ← Proc.fork true
      pure pid
  | exits i status => do
      updateProcess i fun process => { process with status, exiting := true }
      pure 0
  | waitpid pid wstatus options => Proc.waitpid true id pid wstatus options

end Op

/-- The step returns, and leaves these tables. -/
def Step (p : Procs) (op : Op) (t : Procs) : Prop := ∃ r, op.run p = (.ok r, t)

/-- The parent that `fork` finds. -/
def parentOf (p : Procs) : Option (Fin maxProcesses) := (p.processes p.currentPid).or (p.processes 1)

/-- The process is in the children array of its parent, if it has one. -/
def Listed (p : Procs) (c : Fin maxProcesses) : Prop := (p.storage c).ppid = 0 ∨
  ∃ parent j, p.processUsed parent = true ∧ (p.storage parent).pid = (p.storage c).ppid ∧
    (p.storage parent).children j = some c

/-- A fork that returns 0 leaves the tables as they are. -/
structure Unchanged (p t : Procs) : Prop where
  processUsed : t.processUsed = p.processUsed
  threadUsed : t.threadUsed = p.threadUsed
  processes : t.processes = p.processes
  threadsByTid : t.threadsByTid = p.threadsByTid
  children : ∀ i, (t.storage i).children = (p.storage i).children

/-- A fork that returns a pid puts a child with that pid, which no process or thread has, in the children array. -/
structure Born (p : Procs) (pid : Nat) (t : Procs) : Prop where
  child : ∃ parent c j, parentOf p = some parent ∧ t.processes pid = some c ∧ p.processUsed c = false ∧
    (t.storage c).pid = pid ∧ (t.storage parent).children j = some c
  process : ∀ i, p.processUsed i = true → (p.storage i).pid ≠ pid
  thread : ∀ i, p.threadUsed i = true → (p.threads i).tid ≠ pid

/-- Once its pid has been returned, nothing of a child is left. -/
structure Gone (p : Procs) (pid : Nat) (t : Procs) : Prop where
  process : ∀ i, p.processUsed i = true → (p.storage i).pid = pid → t.processUsed i = false
  thread : ∀ i, p.threadsByTid pid = some i → t.threadUsed i = false
  noPid : t.processes pid = none
  noTid : t.threadsByTid pid = none

/-- What is expected of a step. -/
def Accounted (p : Procs) (op : Op) (t : Procs) : Prop := (∀ c, t.processUsed c = true → Listed t c) ∧
  match op with
  | .fork => ∀ pid : Nat, op.run p = (.ok (pid : Int), t) → if pid = 0 then Unchanged p t else Born p pid t
  | .waitpid _ _ _ => ∀ pid : Nat, op.run p = (.ok (pid : Int), t) → pid ≠ 0 → Gone p pid t
  | _ => True

/-- A fork finds a pid, a thread and room in the children array if it finds a slot, and no child that has exited is
waited for. -/
def Clean (p : Procs) : Op → Prop
  | .fork => freeProcess p = none ∨ (freePidOf p).isSome ∧ (freeThread p).isSome ∧
      ∀ parent, parentOf p = some parent → (freeChildOf (p.storage parent)).isSome
  | .waitpid pid _ _ => ∀ i, p.currentProcess = .ok i → ∀ slot child, findChild p i pid = some (slot, child) →
      (p.storage child).exiting = false
  | _ => True

/-- The tables are in step. -/
structure Good (p : Procs) : Prop where
  listed : ∀ k i, p.processes k = some i → p.processUsed i = true
  used : ∀ i, p.processUsed i = true → p.processes (p.storage i).pid = some i ∧ (p.storage i).pid ≠ 0
  thread : ∀ i, p.threadUsed i = true → p.threadsByTid (p.threads i).tid = some i
  init : ∃ i, p.processes 1 = some i
  children : ∀ i j c, (p.storage i).children j = some c → p.processUsed c = true
  parents : ∀ c, p.processUsed c = true → Listed p c

section Steps

variable {p t : Procs}

theorem Good.parent (h : Good p) : ∃ parent, parentOf p = some parent ∧ p.processUsed parent = true := by
  obtain ⟨i, hi⟩ := h.init
  rw [parentOf]
  cases hcurrent : p.processes p.currentPid with
  | none => exact ⟨i, hi, h.listed _ _ hi⟩
  | some j => exact ⟨j, rfl, h.listed _ _ hcurrent⟩

/-- The lock and the process that runs play no part in it. -/
theorem Good.congr (h : Good p) (pid : Nat) (hsame : SameTables { p with currentPid := pid } t) : Good t := by
  have hp : Good { p with currentPid := pid } :=
    ⟨h.listed, h.used, h.thread, h.init, h.children, h.parents⟩
  have ht : Good (tables { p with currentPid := pid }) :=
    ⟨hp.listed, hp.used, hp.thread, hp.init, hp.children, hp.parents⟩
  rw [← hsame] at ht
  exact ⟨ht.listed, ht.used, ht.thread, ht.init, ht.children, ht.parents⟩

/-- An exit changes only what the tables say about how the process ended. -/
theorem Good.exits (h : Good p) (i : Fin maxProcesses) (status : Int) :
    Good { p with storage := Function.update p.storage i { p.storage i with status, exiting := true } } := by
  have hpid {j : Fin maxProcesses} {α : Type} (f : Process → α)
      (hf : f { p.storage i with status, exiting := true } = f (p.storage i)) :
      f (Function.update p.storage i { p.storage i with status, exiting := true } j) = f (p.storage j) := by
    by_cases hj : j = i
    · rw [hj, Function.update_self]
      exact hf
    · rw [Function.update_of_ne hj]
  refine ⟨h.listed, fun j hj => ?_, h.thread, h.init, fun a j c hc => ?_, fun c hc => ?_⟩
  · have hsame := hpid (j := j) Process.pid rfl
    dsimp only
    rw [hsame]
    exact h.used j hj
  · have hsame := hpid (j := a) Process.children rfl
    dsimp only at hc
    rw [hsame] at hc
    exact h.children a j c hc
  · rcases h.parents c hc with hzero | ⟨parent, j, hused, hpp, hlist⟩
    · exact Or.inl ((hpid Process.ppid rfl).trans hzero)
    · refine Or.inr ⟨parent, j, hused, ?_, ?_⟩
      · exact (hpid Process.pid rfl).trans (hpp.trans (hpid Process.ppid rfl).symm)
      · exact (congrFun (hpid Process.children rfl) j).trans hlist

/-! ### fork -/

theorem withChild_pid (parent : Process) (c : Fin maxProcesses) : (withChild parent c).pid = parent.pid := by
  rw [withChild]
  cases freeChildOf parent <;> rfl

theorem withChild_ppid (parent : Process) (c : Fin maxProcesses) : (withChild parent c).ppid = parent.ppid := by
  rw [withChild]
  cases freeChildOf parent <;> rfl

/-- The entries that the children array had are still there. -/
theorem withChild_keeps {parent : Process} {c x : Fin maxProcesses} {j : Fin maxChildren}
    (h : parent.children j = some x) : (withChild parent c).children j = some x := by
  rw [withChild]
  cases hfree : freeChildOf parent with
  | none => exact h
  | some j' =>
      have hnone : (parent.children j').isNone = true := Table.find?_some hfree
      have hne : j ≠ j' := by
        rintro rfl
        rw [h] at hnone
        cases hnone
      exact (Function.update_of_ne hne _ _).trans h

/-- An entry is the new child or was there before. -/
theorem withChild_entry {parent : Process} {c x : Fin maxProcesses} {j : Fin maxChildren}
    (h : (withChild parent c).children j = some x) : x = c ∨ parent.children j = some x := by
  rw [withChild] at h
  cases hfree : freeChildOf parent with
  | none =>
      rw [hfree] at h
      exact Or.inr h
  | some j' =>
      rw [hfree] at h
      by_cases hj : j = j'
      · rw [hj] at h
        exact Or.inl (Option.some.inj ((Function.update_self j' (some c) parent.children).symm.trans h)).symm
      · exact Or.inr ((Function.update_of_ne hj (some c) parent.children).symm.trans h)

theorem withChild_room {parent : Process} {c : Fin maxProcesses} (h : (freeChildOf parent).isSome = true) :
    ∃ j, (withChild parent c).children j = some c := by
  obtain ⟨j, hj⟩ := Option.isSome_iff_exists.mp h
  refine ⟨j, ?_⟩
  rw [withChild, hj]
  exact Function.update_self j (some c) parent.children

section Forked

variable {parent c : Fin maxProcesses} {k : Nat} {th : Fin maxThreads}

theorem Forked.pid (h : Forked p parent c k th t) {i : Fin maxProcesses} (hi : i ≠ c) :
    (t.storage i).pid = (p.storage i).pid ∧ (t.storage i).ppid = (p.storage i).ppid := by
  by_cases hp : i = parent
  · rw [hp, h.forking]
    exact ⟨withChild_pid _ _, withChild_ppid _ _⟩
  · rw [h.other i hi hp]
    exact ⟨rfl, rfl⟩

theorem Forked.children (h : Forked p parent c k th t) {i x : Fin maxProcesses} (hi : i ≠ c) {j : Fin maxChildren}
    (hx : (p.storage i).children j = some x) : (t.storage i).children j = some x := by
  by_cases hp : i = parent
  · rw [hp] at hx ⊢
    rw [h.forking]
    exact withChild_keeps hx
  · rwa [h.other i hi hp]

theorem Forked.entry (h : Forked p parent c k th t) {i x : Fin maxProcesses} {j : Fin maxChildren}
    (hx : (t.storage i).children j = some x) : x = c ∨ (p.storage i).children j = some x := by
  by_cases hc : i = c
  · rw [hc, h.child] at hx
    cases hx
  by_cases hp : i = parent
  · rw [hp, h.forking] at hx
    rw [hp]
    exact withChild_entry hx
  · rw [h.other i hc hp] at hx
    exact Or.inr hx

theorem Forked.used (h : Forked p parent c k th t) {i : Fin maxProcesses} (hi : p.processUsed i = true) :
    t.processUsed i = true := by
  rw [h.processUsed]
  by_cases hc : i = c
  · rw [hc, Function.update_self]
  · rwa [Function.update_of_ne hc]

theorem Forked.used_iff (h : Forked p parent c k th t) {i : Fin maxProcesses} (hi : t.processUsed i = true) :
    i = c ∨ p.processUsed i = true := by
  by_cases hc : i = c
  · exact Or.inl hc
  · rw [h.processUsed, Function.update_of_ne hc] at hi
    exact Or.inr hi

theorem Good.listed_forked (hgood : Good p) (h : Forked p parent c k th t) (hc : p.processUsed c = false)
    {x : Fin maxProcesses} (hx : p.processUsed x = true) : Listed t x := by
  have hxc : x ≠ c := by
    rintro rfl
    rw [hx] at hc
    cases hc
  rcases hgood.parents x hx with hzero | ⟨q, j, hused, hpp, hlist⟩
  · exact Or.inl ((h.pid hxc).2.trans hzero)
  · have hqc : q ≠ c := by
      rintro rfl
      rw [hused] at hc
      cases hc
    refine Or.inr ⟨q, j, h.used hused, ?_, h.children hqc hlist⟩
    rw [(h.pid hqc).1, (h.pid hxc).2, hpp]

theorem Good.forked (hgood : Good p) (h : Forked p parent c k th t) (hparent : p.processUsed parent = true)
    (hc : p.processUsed c = false) (hk : freePidOf p = some k)
    (hroom : (freeChildOf (p.storage parent)).isSome = true) : Good t := by
  obtain ⟨hzero, -, hnone, htid⟩ := freePidOf_some hk
  have hself : t.processUsed c = true := by
    rw [h.processUsed, Function.update_self]
  have hne {i : Fin maxProcesses} (hi : p.processUsed i = true) : i ≠ c := by
    rintro rfl
    rw [hi] at hc
    cases hc
  refine ⟨fun k' i hi => ?_, fun i hi => ?_, fun i hi => ?_, ?_, fun i j x hx => ?_, fun x hx => ?_⟩
  · rw [h.processes] at hi
    by_cases hk' : k' = k
    · rw [hk', Function.update_self] at hi
      rw [← Option.some.inj hi]
      exact hself
    · rw [Function.update_of_ne hk'] at hi
      exact h.used (hgood.listed k' i hi)
  · rw [h.processes]
    rcases h.used_iff hi with rfl | hold
    · rw [h.child]
      exact ⟨Function.update_self _ _ _, hzero⟩
    · obtain ⟨hlisted, hid⟩ := hgood.used i hold
      rw [(h.pid (hne hold)).1]
      refine ⟨?_, hid⟩
      rw [Function.update_of_ne]
      · exact hlisted
      · rintro heq
        rw [heq, hnone] at hlisted
        cases hlisted
  · rw [h.threadsByTid]
    by_cases hi' : i = th
    · rw [hi', h.thread]
      exact Function.update_self _ _ _
    · rw [h.threadUsed, Function.update_of_ne hi'] at hi
      have hbound := hgood.thread i hi
      rw [h.otherThread i hi', Function.update_of_ne]
      · exact hbound
      · rintro heq
        rw [heq, htid] at hbound
        cases hbound
  · obtain ⟨i, hi⟩ := hgood.init
    refine ⟨i, ?_⟩
    rw [h.processes, Function.update_of_ne]
    · exact hi
    · rintro rfl
      rw [hnone] at hi
      cases hi
  · rcases h.entry hx with rfl | hold
    · exact hself
    · exact h.used (hgood.children i j x hold)
  · rcases h.used_iff hx with rfl | hold
    · obtain ⟨j, hj⟩ := withChild_room (c := x) hroom
      refine Or.inr ⟨parent, j, h.used hparent, ?_, ?_⟩
      · rw [(h.pid (hne hparent)).1, h.child]
      · rw [h.forking]
        exact hj
    · exact hgood.listed_forked h hc hold

end Forked

/-- A fork that returns found a parent. -/
theorem Good.fork_result (hgood : Good p) {r : Int} (h : Op.fork.run p = (.ok r, t)) :
    ∃ parent pid, parentOf p = some parent ∧ p.processUsed parent = true ∧ r = (pid : Nat) ∧
      ForkResult p parent pid t := by
  obtain ⟨pid, u, hrun, hpure⟩ := Act.bind_run_eq_ok h
  cases hpure
  obtain ⟨parent, hparent, hused⟩ := hgood.parent
  refine ⟨parent, pid, hparent, hused, rfl, ?_⟩
  by_cases hcurrent : p.currentPid < maxPid
  · obtain ⟨r', t', hrun', hresult⟩ := fork_spec hcurrent hparent hused
    rw [hrun] at hrun'
    cases hrun'
    exact hresult
  · have htrap : (fork true p).1 = .trap := by
      have hge : (taken p).currentPid ≥ maxPid := Nat.not_lt.mp hcurrent
      rw [fork, locked, Act.bind_ok_run (acquire_always p)]
      refine Act.bind_traps ?_
      rw [Act.get_bind_run, if_pos hge]
      rfl
    rw [hrun] at htrap
    cases htrap

theorem SameTables.unchanged (h : SameTables p t) : Unchanged p t :=
  ⟨h.congr Procs.processUsed fun _ => rfl, h.congr Procs.threadUsed fun _ => rfl,
    h.congr Procs.processes fun _ => rfl, h.congr Procs.threadsByTid fun _ => rfl,
    fun i => h.congr (fun p => (p.storage i).children) fun _ => rfl⟩

/-- The ids that processes and threads have are not free. -/
theorem Good.born (hgood : Good p) {parent c : Fin maxProcesses} {k : Nat} {th : Fin maxThreads}
    (h : Forked p parent c k th t) (hparent : parentOf p = some parent) (hc : p.processUsed c = false)
    (hk : freePidOf p = some k) (hroom : (freeChildOf (p.storage parent)).isSome = true) : Born p k t := by
  obtain ⟨-, -, hnone, htid⟩ := freePidOf_some hk
  obtain ⟨j, hj⟩ := withChild_room (c := c) hroom
  refine ⟨⟨parent, c, j, hparent, ?_, hc, ?_, ?_⟩, fun i hi heq => ?_, fun i hi heq => ?_⟩
  · rw [h.processes]
    exact Function.update_self _ _ _
  · rw [h.child]
  · rw [h.forking]
    exact hj
  · have hlisted := (hgood.used i hi).1
    rw [heq, hnone] at hlisted
    cases hlisted
  · have hbound := hgood.thread i hi
    rw [heq, htid] at hbound
    cases hbound

/-- The children array of the parent has the child only if it had room. -/
theorem Good.born_room (hgood : Good p) {parent c : Fin maxProcesses} {k : Nat} {th : Fin maxThreads}
    (h : Forked p parent c k th t) (hparent : parentOf p = some parent) (hc : p.processUsed c = false)
    (hborn : Born p k t) : (freeChildOf (p.storage parent)).isSome = true := by
  obtain ⟨q, x, j, hq, hx, -, -, hj⟩ := hborn.child
  have hqp : q = parent := Option.some.inj (hq.symm.trans hparent)
  have hxc : x = c := by
    rw [h.processes, Function.update_self] at hx
    exact (Option.some.inj hx).symm
  rw [hqp, hxc] at hj
  by_contra hfull
  rw [Bool.not_eq_true, Option.isSome_eq_false_iff, Option.isNone_iff_eq_none] at hfull
  have hsame : withChild (p.storage parent) c = p.storage parent := by
    rw [withChild, hfull]
  rw [h.forking, hsame] at hj
  have hused := hgood.children parent j c hj
  rw [hc] at hused
  cases hused

theorem Good.fork_iff (hgood : Good p) {r : Int} (hrun : Op.fork.run p = (.ok r, t)) :
    (Accounted p .fork t ↔ Clean p .fork) ∧ (Clean p .fork → Good t) := by
  obtain ⟨parent, pid, hparent, hused, rfl, hresult⟩ := hgood.fork_result hrun
  have hpid {n : Nat} (h : Op.fork.run p = (.ok (n : Int), t)) : n = pid := by
    rw [hrun] at h
    exact (Int.ofNat.inj (Outcome.ok.inj (Prod.mk.inj h).1)).symm
  cases hresult with
  | refused hfull h =>
      have ht : Good t := hgood.congr p.currentPid h
      refine ⟨iff_of_true ⟨ht.parents, fun n hn => ?_⟩ (Or.inl hfull), fun _ => ht⟩
      rw [if_pos (hpid hn)]
      exact h.unchanged
  | leaked hc h hleak =>
      have hunused := freeProcess_unused hc
      have hnot : ¬Clean p .fork := by
        rintro (hfull | ⟨hsome, hthread, -⟩)
        · rw [hc] at hfull
          cases hfull
        · rcases h with h | h
          · rw [h] at hsome
            cases hsome
          · rw [h] at hthread
            cases hthread
      refine ⟨iff_of_false (fun hacc => ?_) hnot, fun hclean => absurd hclean hnot⟩
      have hsame := (if_pos rfl).mp (hacc.2 0 hrun)
      rw [hsame.processUsed, hunused] at hleak
      cases hleak
  | forked hc hk hth h =>
      have hunused := freeProcess_unused hc
      obtain ⟨hzero, -⟩ := freePidOf_some hk
      have hclean : Clean p .fork ↔ (freeChildOf (p.storage parent)).isSome = true := by
        refine ⟨?_, fun hroom => Or.inr ⟨?_, ?_, fun q hq => ?_⟩⟩
        · rintro (hfull | ⟨-, -, hroom⟩)
          · rw [hc] at hfull
            cases hfull
          · exact hroom parent hparent
        · rw [hk]
          rfl
        · rw [hth]
          rfl
        · rwa [Option.some.inj (hq.symm.trans hparent)]
      rw [hclean]
      refine ⟨⟨fun hacc => ?_, fun hroom => ?_⟩, fun hroom => hgood.forked h hused hunused hk hroom⟩
      · exact hgood.born_room h hparent hunused ((if_neg hzero).mp (hacc.2 _ hrun))
      · refine ⟨(hgood.forked h hused hunused hk hroom).parents, fun n hn => ?_⟩
        rw [hpid hn, if_neg hzero]
        exact hgood.born h hparent hunused hk hroom

/-! ### waitpid -/

theorem findChild_listed {i child : Fin maxProcesses} {pid : Int} {slot : Fin maxChildren}
    (h : findChild p i pid = some (slot, child)) : (p.storage i).children slot = some child := by
  obtain ⟨j, -, hj⟩ := Option.bind_eq_some_iff.mp h
  obtain ⟨x, hx, heq⟩ := Option.bind_eq_some_iff.mp hj
  cases heq
  exact hx

theorem Good.waitpid_iff (hgood : Good p) {r : Int} {pid : Int} {wstatus options : Nat}
    (hrun : (Op.waitpid pid wstatus options).run p = (.ok r, t)) :
    (Accounted p (.waitpid pid wstatus options) t ↔ Clean p (.waitpid pid wstatus options)) ∧
      (Clean p (.waitpid pid wstatus options) → Good t) := by
  obtain ⟨i, hcurrent, hresult⟩ := (waitpid_ensures pid wstatus options).of_ok hrun
  cases hresult with
  | nothing hr h hfound =>
      have ht : Good t := hgood.congr p.currentPid h
      refine ⟨iff_of_true ⟨ht.parents, fun n hn hzero => ?_⟩ fun j hj => ?_, fun _ => ht⟩
      · rw [hrun] at hn
        have heq : r = n := Outcome.ok.inj (Prod.mk.inj hn).1
        omega
      · rw [hcurrent] at hj
        cases hj
        exact hfound
  | reaped hfound hexiting hsame =>
      have hused := hgood.children _ _ _ (findChild_listed hfound)
      have hnot : ¬Clean p (.waitpid pid wstatus options) := fun hclean => by
        rw [hclean i hcurrent _ _ hfound] at hexiting
        cases hexiting
      refine ⟨iff_of_false (fun hacc => ?_) hnot, fun hclean => absurd hclean hnot⟩
      have hgone := (hacc.2 _ hrun (hgood.used _ hused).2).process _ hused rfl
      rw [hsame, hused] at hgone
      cases hgone

/-- Every step of tables that are in step is accounted for exactly if it is clean, and then they are in step after it. -/
theorem Good.step_iff (hgood : Good p) {op : Op} (h : Step p op t) :
    (Accounted p op t ↔ Clean p op) ∧ (Clean p op → Good t) := by
  obtain ⟨r, hrun⟩ := h
  cases op with
  | switch pid =>
      cases hrun
      have ht : Good { p with currentPid := pid } := hgood.congr pid rfl
      exact ⟨iff_of_true ⟨ht.parents, True.intro⟩ True.intro, fun _ => ht⟩
  | fork => exact hgood.fork_iff hrun
  | exits i status =>
      cases hrun
      have ht := hgood.exits i status
      exact ⟨iff_of_true ⟨ht.parents, True.intro⟩ True.intro, fun _ => ht⟩
  | waitpid pid wstatus options => exact hgood.waitpid_iff hrun

end Steps

/-! ### The tables after the start -/

def initSlot : Fin maxProcesses := ⟨0, by decide⟩

theorem booted_processes : booted.processes = Function.update (fun _ => none) 1 (some initSlot) := rfl
theorem booted_processUsed : booted.processUsed = Function.update (fun _ => false) initSlot true := rfl

theorem booted_storage : booted.storage = Function.update (fun _ => {}) initSlot { pid := 1, pgid := 1 } := by
  have hsteps : booted.storage = Function.update (Function.update (Function.update (fun _ => {}) initSlot {}) initSlot
    { ppid := 0, pgid := 1 }) initSlot { pid := 1, pgid := 1 } := rfl
  rw [hsteps, Function.update_idem, Function.update_idem]

theorem good_booted : Good booted := by
  have hinit : booted.storage initSlot = { pid := 1, pgid := 1 } := by
    rw [booted_storage, Function.update_self]
  have hother {i : Fin maxProcesses} (hi : i ≠ initSlot) : booted.storage i = {} := by
    rw [booted_storage, Function.update_of_ne hi]
  have hused {i : Fin maxProcesses} (hi : booted.processUsed i = true) : i = initSlot := by
    by_contra hne
    rw [booted_processUsed, Function.update_of_ne hne] at hi
    cases hi
  have hone : booted.processes 1 = some initSlot := rfl
  refine ⟨fun k i hi => ?_, fun i hi => ?_, fun i hi => ?_, ⟨initSlot, hone⟩, fun i j c hc => ?_, fun c hc => ?_⟩
  · by_cases hk : k = 1
    · rw [hk, hone] at hi
      rw [← Option.some.inj hi]
      rfl
    · rw [booted_processes, Function.update_of_ne hk] at hi
      cases hi
  · rw [hused hi, hinit]
    exact ⟨hone, Nat.one_ne_zero⟩
  · cases hi
  · by_cases hi : i = initSlot
    · rw [hi, hinit] at hc
      cases hc
    · rw [hother hi] at hc
      cases hc
  · refine Or.inl ?_
    rw [hused hc, hinit]

/-- A history accounts for every process in every step exactly if every step is clean. -/
theorem process_table_accounting (history : List Op) (t : Procs) :
    Runs.Run (fun p op t => Step p op t ∧ Accounted p op t) booted history t ↔
      Runs.Run (fun p op t => Step p op t ∧ Clean p op) booted history t :=
  Runs.Run.along_iff (I := Good) (B := fun p op _ => Clean p op) good_booted
    (fun _ _ _ hgood hstep => (hgood.step_iff hstep).1) fun _ _ _ hgood hstep hclean => (hgood.step_iff hstep).2 hclean

def childSlot : Fin maxProcesses := ⟨1, by decide⟩

/-- `fork` once, the child exits, and it is waited for. -/
def reaped : List Op := [.fork, .exits childSlot 0, .waitpid (-1) 0 0]

def afterFork : Procs := (Op.fork.run booted).2
def afterExit : Procs := ((Op.exits childSlot 0).run afterFork).2
def afterWait : Procs := ((Op.waitpid (-1) 0 0).run afterExit).2

theorem reaped_run : Runs.Run Step booted reaped afterWait := by
  have hfork : Op.fork.run booted = (.ok 2, afterFork) := rfl
  have hwait : (Op.waitpid (-1) 0 0).run afterExit = (.ok 2, afterWait) := rfl
  exact .cons ⟨2, hfork⟩ (.cons ⟨0, rfl⟩ (.cons ⟨2, hwait⟩ .refl))

/-- A child that has exited and been waited for keeps its slot. -/
theorem reaped_child_keeps_slot : ¬∀ history t, Runs.Run Step booted history t →
    Runs.Run (fun p op t => Step p op t ∧ Accounted p op t) booted history t := by
  intro h
  obtain ⟨p, ⟨⟨r, hfork⟩, -⟩, hrest⟩ := (h reaped afterWait reaped_run).cons_inv
  have hp : p = afterFork := (congrArg Prod.snd hfork).symm
  subst hp
  obtain ⟨q, ⟨⟨r', hexit⟩, -⟩, hrest⟩ := hrest.cons_inv
  have hq : q = afterExit := (congrArg Prod.snd hexit).symm
  subst hq
  obtain ⟨t, ⟨⟨r'', hwait⟩, hacc⟩, -⟩ := hrest.cons_inv
  have ht : t = afterWait := (congrArg Prod.snd hwait).symm
  subst ht
  have hgone : afterWait.processUsed childSlot = false := (hacc.2 2 rfl (by decide)).process childSlot rfl rfl
  cases hgone

end Kernel.Proc
