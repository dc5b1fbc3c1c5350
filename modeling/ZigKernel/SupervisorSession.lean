import ZigKernel.LangInt

/-! `supervisor/policy.zig` and `supervisor/session.zig`: the limits a client may ask for, admission
against a session count and a memory budget, and the lifecycle of one session. -/

namespace Supervisor

open Zig

abbrev Bytes := List UInt8

/-- The errors of the policy, session, workspace and API functions below. -/
inductive Error where
  | badLimits | noCapacity
  | badState | staleGeneration
  | badPath | escape | quotaExceeded
  | badRequest | notFound | conflict | gone | limit
  deriving DecidableEq, Repr

structure Limits where
  vcpus : Nat := 1
  memoryMib : Nat := 128
  workspaceMib : Nat := 32
  processes : Nat := 16
  executionTimeoutMs : Nat := 60000
  sessionTtlSeconds : Nat := 900
  outputBytes : Nat := 1 <<< 20
  deriving DecidableEq, Repr

namespace Limits

def ceilings : Limits where
  vcpus := 8
  memoryMib := 4096
  workspaceMib := 1024
  processes := 64
  executionTimeoutMs := 600000
  sessionTtlSeconds := 86400
  outputBytes := 16 <<< 20

def floors : Limits where
  vcpus := 1
  memoryMib := 32
  workspaceMib := 8
  processes := 1
  executionTimeoutMs := 1000
  sessionTtlSeconds := 60
  outputBytes := 64 <<< 10

def validate (l : Limits) : Outcome Error Unit :=
  if l.vcpus < floors.vcpus ∨ l.vcpus > ceilings.vcpus then .error .badLimits
  else if l.memoryMib < floors.memoryMib ∨ l.memoryMib > ceilings.memoryMib then .error .badLimits
  else if l.workspaceMib < floors.workspaceMib ∨ l.workspaceMib > ceilings.workspaceMib then .error .badLimits
  else if l.processes < floors.processes ∨ l.processes > ceilings.processes then .error .badLimits
  else if l.executionTimeoutMs < floors.executionTimeoutMs ∨
      l.executionTimeoutMs > ceilings.executionTimeoutMs then .error .badLimits
  else if l.sessionTtlSeconds < floors.sessionTtlSeconds ∨
      l.sessionTtlSeconds > ceilings.sessionTtlSeconds then .error .badLimits
  else if l.outputBytes < floors.outputBytes ∨ l.outputBytes > ceilings.outputBytes then .error .badLimits
  else .ok ()

/-- Every limit lies between its floor and its ceiling. -/
structure Valid (l : Limits) : Prop where
  vcpus : 1 ≤ l.vcpus ∧ l.vcpus ≤ 8
  memoryMib : 32 ≤ l.memoryMib ∧ l.memoryMib ≤ 4096
  workspaceMib : 8 ≤ l.workspaceMib ∧ l.workspaceMib ≤ 1024
  processes : 1 ≤ l.processes ∧ l.processes ≤ 64
  executionTimeoutMs : 1000 ≤ l.executionTimeoutMs ∧ l.executionTimeoutMs ≤ 600000
  sessionTtlSeconds : 60 ≤ l.sessionTtlSeconds ∧ l.sessionTtlSeconds ≤ 86400
  outputBytes : 64 <<< 10 ≤ l.outputBytes ∧ l.outputBytes ≤ 16 <<< 20

theorem valid_of_validate {l : Limits} (h : l.validate = .ok ()) : l.Valid := by
  obtain ⟨hvcpus, h⟩ := Outcome.ite_error_eq_ok h
  obtain ⟨hmemory, h⟩ := Outcome.ite_error_eq_ok h
  obtain ⟨hworkspace, h⟩ := Outcome.ite_error_eq_ok h
  obtain ⟨hprocesses, h⟩ := Outcome.ite_error_eq_ok h
  obtain ⟨htimeout, h⟩ := Outcome.ite_error_eq_ok h
  obtain ⟨httl, h⟩ := Outcome.ite_error_eq_ok h
  obtain ⟨houtput, -⟩ := Outcome.ite_error_eq_ok h
  simp only [floors, ceilings, not_or, Nat.not_lt] at *
  exact ⟨hvcpus, hmemory, hworkspace, hprocesses, htimeout, httl, houtput⟩

theorem validate_of_valid {l : Limits} (h : l.Valid) : l.validate = .ok () := by
  obtain ⟨hvcpus, hmemory, hworkspace, hprocesses, htimeout, httl, houtput⟩ := h
  have hwithin {n lo hi : Nat} (hn : lo ≤ n ∧ n ≤ hi) : ¬(n < lo ∨ n > hi) := by omega
  rw [validate, floors, ceilings, if_neg (hwithin hvcpus), if_neg (hwithin hmemory), if_neg (hwithin hworkspace),
    if_neg (hwithin hprocesses), if_neg (hwithin htimeout), if_neg (hwithin httl), if_neg (hwithin houtput)]

theorem validate_cases (l : Limits) : l.validate = .ok () ∨ l.validate = .error .badLimits := by
  unfold validate
  split_ifs <;> simp

end Limits

structure Admission where
  maxSessions : Nat := 8
  memBudgetMib : Nat := 8192
  active : Nat := 0
  memUsedMib : Nat := 0
  deriving DecidableEq, Repr

namespace Admission

def tryAdmit (l : Limits) : Act Admission Error Unit := do
  Act.lift l.validate
  let adm ← Act.get
  if adm.active ≥ adm.maxSessions then Act.fail .noCapacity else do
    let want ← Act.lift (addU64 adm.memUsedMib l.memoryMib)
    if want > adm.memBudgetMib then Act.fail .noCapacity else do
      let active ← Act.lift (addU64 adm.active 1)
      Act.modify fun a => { a with active }
      Act.modify fun a => { a with memUsedMib := want }

def release (adm : Admission) (l : Limits) : Admission :=
  { adm with
    active := if adm.active > 0 then adm.active - 1 else adm.active
    memUsedMib := if adm.memUsedMib > l.memoryMib then adm.memUsedMib - l.memoryMib else 0 }

/-- The books after admitting a session with these limits. -/
def admitted (adm : Admission) (l : Limits) : Admission :=
  { adm with active := adm.active + 1, memUsedMib := adm.memUsedMib + l.memoryMib }

/-- There is room for a session with these limits in both budgets. -/
def Grants (adm : Admission) (l : Limits) : Prop :=
  l.Valid ∧ adm.active < adm.maxSessions ∧ adm.memUsedMib + l.memoryMib ≤ adm.memBudgetMib

/-- Admission is granted within both budgets and writes nothing otherwise. -/
theorem tryAdmit_run (adm : Admission) (l : Limits) :
    (adm.Grants l ∧ tryAdmit l adm = (.ok (), adm.admitted l)) ∨
      (∃ e, ¬adm.Grants l ∧ tryAdmit l adm = (.error e, adm)) ∨ tryAdmit l adm = (.trap, adm) := by
  rcases l.validate_cases with hvalid | hvalid
  · by_cases hactive : adm.active ≥ adm.maxSessions
    · refine Or.inr (Or.inl ⟨.noCapacity, fun h => absurd h.2.1 (Nat.not_lt.mpr hactive), ?_⟩)
      simp [tryAdmit, Act.bind_run, hvalid, hactive]
    by_cases hfits : adm.memUsedMib + l.memoryMib < u64Bound
    swap
    · exact Or.inr (Or.inr (by simp [tryAdmit, Act.bind_run, hvalid, hactive, addU64, hfits]))
    by_cases hbudget : adm.memUsedMib + l.memoryMib > adm.memBudgetMib
    · refine Or.inr (Or.inl ⟨.noCapacity, fun h => absurd h.2.2 (Nat.not_le.mpr hbudget), ?_⟩)
      simp [tryAdmit, Act.bind_run, hvalid, hactive, addU64, hfits, hbudget]
    by_cases hcount : adm.active + 1 < u64Bound
    · refine Or.inl ⟨⟨Limits.valid_of_validate hvalid, by omega, by omega⟩, ?_⟩
      simp [tryAdmit, Act.bind_run, hvalid, hactive, addU64, hfits, hbudget, hcount, admitted]
    · exact Or.inr (Or.inr (by simp [tryAdmit, Act.bind_run, hvalid, hactive, addU64, hfits, hbudget, hcount]))
  · refine Or.inr (Or.inl ⟨.badLimits, fun h => ?_, by simp [tryAdmit, Act.bind_run, hvalid]⟩)
    rw [Limits.validate_of_valid h.1] at hvalid
    cases hvalid

/-- The guards of `release` are truncated subtraction. -/
theorem release_eq (adm : Admission) (l : Limits) :
    adm.release l = { adm with active := adm.active - 1, memUsedMib := adm.memUsedMib - l.memoryMib } := by
  unfold release
  congr 1 <;> split_ifs <;> omega

/-- Releasing undoes an admission. -/
theorem release_admitted (adm : Admission) (l : Limits) : (adm.admitted l).release l = adm := by
  rw [release_eq]
  simp [admitted]

end Admission

inductive State where
  | creating | ready | busy | resetting | expired | destroying | destroyed
  deriving DecidableEq, Repr

structure Session where
  id : Nat
  generation : Nat := 1
  state : State := .creating
  limits : Limits := {}
  createdMs : Nat := 0
  execDeadlineMs : Nat := 0
  deriving DecidableEq, Repr

namespace Session

def init (id : Nat) (limits : Limits) (nowMs : Nat) : Outcome Error Session := do
  limits.validate
  return { id, limits, createdMs := nowMs }

def onGuestReady : Act Session Error Unit := do
  let self ← Act.get
  if self.state ≠ .creating ∧ self.state ≠ .resetting then Act.fail .badState else
    Act.modify fun s => { s with state := .ready }

def startExec (generation nowMs : Nat) : Act Session Error Unit := do
  let self ← Act.get
  if self.state ≠ .ready then Act.fail .badState
  else if generation ≠ self.generation then Act.fail .staleGeneration
  else
    Act.modify fun s =>
      { s with state := .busy, execDeadlineMs := saturatingAdd nowMs s.limits.executionTimeoutMs }

def finishExec (generation : Nat) : Act Session Error Unit := do
  let self ← Act.get
  if self.state ≠ .busy then Act.fail .badState
  else if generation ≠ self.generation then Act.fail .staleGeneration
  else Act.modify fun s => { s with state := .ready, execDeadlineMs := 0 }

/-- Host-enforced deadline. -/
def execTimedOut (s : Session) (nowMs : Nat) : Bool :=
  s.state = .busy ∧ s.execDeadlineMs ≠ 0 ∧ nowMs ≥ s.execDeadlineMs

def expiresAt (s : Session) : Nat := saturatingAdd s.createdMs (saturatingMul s.limits.sessionTtlSeconds 1000)

def isExpired (s : Session) (nowMs : Nat) : Bool := nowMs ≥ s.expiresAt

def beginReset : Act Session Error Unit := do
  let self ← Act.get
  if self.state ≠ .ready ∧ self.state ≠ .busy ∧ self.state ≠ .expired then Act.fail .badState else
    Act.modify fun s => { s with state := .resetting }

def finishReset : Act Session Error Unit := do
  let self ← Act.get
  if self.state ≠ .resetting then Act.fail .badState else do
    let generation ← Act.lift (addU64 self.generation 1)
    Act.modify fun s => { s with generation }
    Act.modify fun s => { s with execDeadlineMs := 0 }
    Act.modify fun s => { s with state := .ready }

def beginDestroy : Act Session Error Unit := do
  let self ← Act.get
  if self.state = .destroyed ∨ self.state = .destroying then Act.fail .badState else
    Act.modify fun s => { s with state := .destroying }

def finishDestroy : Act Session Error Unit := do
  let self ← Act.get
  if self.state ≠ .destroying then Act.fail .badState else
    Act.modify fun s => { s with state := .destroyed }

theorem init_of_validate {limits : Limits} (h : limits.validate = .ok ()) (id nowMs : Nat) :
    init id limits nowMs = .ok { id, limits, createdMs := nowMs } := by
  rw [init, h]
  rfl

end Session

end Supervisor
