import ZigKernel.KernelSched
import ZigKernel.LibBits
import Mathlib.Logic.Function.Basic

/-! `src/signal/signal.zig`: the pending and masked signals of a task, and the delivery of one of them. Of a task only
what the signals touch is modelled. The file reads a field `sigentry` of the task that the task does not have; it is taken
to be null. -/

namespace Kernel.Signal

open Zig
open Sched (TaskState)

def sigkill : Nat := 9
def sigchld : Nat := 17
def sigcont : Nat := 18
def sigstop : Nat := 19
def sigtstp : Nat := 20
def sigttin : Nat := 21
def sigttou : Nat := 22
def sigurg : Nat := 23
def sigwinch : Nat := 28
def sigrtmax : Nat := 64

def saNodefer : BitVec 32 := 0x40000000

def sigDfl : Nat := 0
def sigIgn : Nat := 1

structure SigAction where
  saSigaction : Nat := sigDfl
  saMask : BitVec 64 := 0
  saFlags : BitVec 32 := 0

structure SigInfo where
  siSigno : Int := 0

/-- Signal N is bit N - 1. -/
structure SigState where
  pendingSignals : BitVec 64 := 0
  maskedSignals : BitVec 64 := 0
  sigactions : Fin 65 → SigAction := fun _ => {}
  pendingInfo : Fin 65 → Option SigInfo := fun _ => none
  savedMask : BitVec 64 := 0

def signalBit (signum : Nat) : BitVec 64 := if signum = 0 ∨ signum > sigrtmax then 0 else Bits.mask 64 (signum - 1)

/-- `sigactions[signum]` -/
def sigAt (signum : Nat) : Outcome Empty (Fin 65) := if h : signum < 65 then .ok ⟨signum, h⟩ else .trap

namespace SigState

def isPending (self : SigState) (signum : Nat) : Bool := (self.pendingSignals &&& signalBit signum) != 0

def isMasked (self : SigState) (signum : Nat) : Bool := (self.maskedSignals &&& signalBit signum) != 0

def setPending (self : SigState) (signum : Nat) : SigState :=
  if signum ≥ 1 ∧ signum ≤ sigrtmax then { self with pendingSignals := self.pendingSignals ||| signalBit signum } else self

def clearPending (self : SigState) (signum : Nat) : SigState :=
  { self with
    pendingSignals := self.pendingSignals &&& ~~~signalBit signum
    pendingInfo := if h : signum < 65 then Function.update self.pendingInfo ⟨signum, h⟩ none else self.pendingInfo }

/-- The mask without the signals that are never blockable. -/
def stripped (mask : BitVec 64) : BitVec 64 := mask &&& ~~~signalBit sigkill &&& ~~~signalBit sigstop

def block (self : SigState) (mask : BitVec 64) : SigState :=
  { self with maskedSignals := stripped (self.maskedSignals ||| mask) }

def unblock (self : SigState) (mask : BitVec 64) : SigState := { self with maskedSignals := self.maskedSignals &&& ~~~mask }

def setMask (self : SigState) (mask : BitVec 64) : SigState := { self with maskedSignals := stripped mask }

end SigState

def unblockableMask : BitVec 64 := signalBit sigkill ||| signalBit sigstop

structure Task where
  state : TaskState := .runnable
  exitCode : Int := 0
  sigState : SigState := {}

abbrev Run (α : Type) := Act Task Empty α

def validSignal (signum : Nat) : Prop := signum ≥ 1 ∧ signum ≤ sigrtmax

instance (signum : Nat) : Decidable (validSignal signum) := inferInstanceAs (Decidable (_ ∧ _))

def Task.wake (task : Task) : Task := if task.state = .sleeping then { task with state := .runnable } else task

def sendsig (signum : Nat) (task : Task) : Task :=
  if ¬validSignal signum then task else { task with sigState := task.sigState.setPending signum }.wake

/-- `@intCast` to a `u8`. -/
def castU8 (a : Int) : Outcome Empty Nat := if 0 ≤ a ∧ a < 256 then .ok a.toNat else .trap

def sendsigInfo (info : SigInfo) : Run Unit := do
  let signum ← Act.lift (castU8 info.siSigno)
  if ¬validSignal signum then pure ()
  else do
    let slot ← Act.lift (sigAt signum)
    Act.modify fun task =>
      let sigState := { task.sigState with pendingInfo := Function.update task.sigState.pendingInfo slot (some info) }
      { task with sigState := sigState.setPending signum }.wake

/-- The sum in a `u8` fits: a signal is at most 64. -/
def Task.terminate (task : Task) (sig : Nat) : Task := { task with state := .zombie, exitCode := 128 + (sig : Int) }

def handleDefault (sig : Nat) (task : Task) : Task :=
  if sig = sigchld ∨ sig = sigurg ∨ sig = sigcont ∨ sig = sigwinch then task
  else if sig = sigstop then { task with state := .stopped }
  else if sig = sigtstp ∨ sig = sigttin ∨ sig = sigttou then
    if task.state ≠ .stopped then { task with state := .stopped } else task
  else if sig = sigkill then task.terminate sig
  else task.terminate sig

/-- What a custom handler leaves of the state: without an entry point the mask is not restored. -/
def SigState.deliver (self : SigState) (sa : SigAction) (sig : Nat) : SigState :=
  let masked := self.maskedSignals ||| sa.saMask
  { self with
    savedMask := self.maskedSignals
    maskedSignals := if sa.saFlags &&& saNodefer = 0 then masked ||| signalBit sig else masked }

def dispatchSignal : Run Unit := do
  let task ← Act.get
  let unmasked := task.sigState.pendingSignals &&& ~~~task.sigState.maskedSignals
  if unmasked = 0 then pure ()
  else do
    let sig := unmasked.ctz.toNat + 1
    let slot ← Act.lift (sigAt sig)
    let sa := task.sigState.sigactions slot
    if sa.saSigaction = sigDfl then do
      Act.modify (handleDefault sig)
      Act.modify fun task => { task with sigState := task.sigState.clearPending sig }
    else if sa.saSigaction = sigIgn then
      Act.modify fun task => { task with sigState := task.sigState.clearPending sig }
    else Act.modify fun task => { task with sigState := (task.sigState.clearPending sig).deliver sa sig }

/-! ### Bits -/

variable {n m : Nat} {s : SigState}

theorem signalBit_of_valid (h : validSignal n) : signalBit n = Bits.mask 64 (n - 1) := by
  obtain ⟨hpos, hmax⟩ := h
  exact if_neg (by omega)

theorem validSignal.lt (h : validSignal n) : n - 1 < 64 := by
  obtain ⟨hpos, hmax⟩ := h
  rw [sigrtmax] at hmax
  omega

theorem signalBit_of_invalid (h : ¬validSignal n) : signalBit n = 0 := by
  refine if_pos ?_
  rw [validSignal] at h
  omega

theorem isPending_eq (h : validSignal n) : s.isPending n = s.pendingSignals.getLsbD (n - 1) := by
  rw [SigState.isPending, signalBit_of_valid h]
  exact Bits.and_mask _ h.lt

theorem isMasked_eq (h : validSignal n) : s.isMasked n = s.maskedSignals.getLsbD (n - 1) := by
  rw [SigState.isMasked, signalBit_of_valid h]
  exact Bits.and_mask _ h.lt

theorem validSignal_of_isPending (h : s.isPending n = true) : validSignal n := by
  by_contra hinvalid
  rw [SigState.isPending, signalBit_of_invalid hinvalid] at h
  simp at h

theorem pred_eq_iff (hn : validSignal n) (hm : validSignal m) : n - 1 = m - 1 ↔ m = n := by
  obtain ⟨hn, -⟩ := hn
  obtain ⟨hm, -⟩ := hm
  omega

theorem isPending_clearPending (s : SigState) (hn : validSignal n) (m : Nat) :
    (s.clearPending n).isPending m = (s.isPending m && !decide (m = n)) := by
  by_cases hm : validSignal m
  · rw [isPending_eq hm, isPending_eq hm, SigState.clearPending]
    dsimp only
    rw [signalBit_of_valid hn, Bits.getLsbD_and_not_mask _ hm.lt, decide_eq_decide.mpr (pred_eq_iff hn hm)]
  · have hnot (t : SigState) : t.isPending m = false := by
      by_contra hpending
      exact hm (validSignal_of_isPending (Bool.not_eq_false _ ▸ hpending))
    rw [hnot, hnot, Bool.false_and]

theorem isMasked_or_signalBit {mask : BitVec 64} (hn : validSignal n) (hm : validSignal m) :
    (mask ||| signalBit n).getLsbD (m - 1) = (mask.getLsbD (m - 1) || decide (m = n)) := by
  rw [signalBit_of_valid hn, Bits.getLsbD_or_mask _ hm.lt, decide_eq_decide.mpr (pred_eq_iff hn hm)]

theorem validSignal_sigkill : validSignal sigkill := by decide

theorem validSignal_sigstop : validSignal sigstop := by decide

/-! ### The lowest signal -/

/-- The signal is pending and not masked. -/
def Deliverable (s : SigState) (n : Nat) : Prop := s.isPending n = true ∧ s.isMasked n = false

/-- The lowest-numbered such signal. -/
def Lowest (s : SigState) (n : Nat) : Prop := Deliverable s n ∧ ∀ m, Deliverable s m → n ≤ m

theorem Deliverable.valid (h : Deliverable s n) : validSignal n := validSignal_of_isPending h.1

theorem unmasked_eq (h : validSignal n) :
    (s.pendingSignals &&& ~~~s.maskedSignals).getLsbD (n - 1) = true ↔ Deliverable s n := by
  rw [BitVec.getLsbD_and, BitVec.getLsbD_not, Deliverable, isPending_eq h, isMasked_eq h, decide_eq_true h.lt, Bool.true_and,
    Bool.and_eq_true, Bool.not_eq_true']

theorem Lowest.unique (hn : Lowest s n) (hm : Lowest s m) : n = m := Nat.le_antisymm (hn.2 m hm.1) (hm.2 n hn.1)

/-- The trailing zeros of the unmasked word lead to the lowest signal. -/
theorem lowest_ctz (h : s.pendingSignals &&& ~~~s.maskedSignals ≠ 0) :
    Lowest s ((s.pendingSignals &&& ~~~s.maskedSignals).ctz.toNat + 1) := by
  have hlt : (s.pendingSignals &&& ~~~s.maskedSignals).ctz.toNat < 64 := by
    have hctz := BitVec.ctz_lt_iff_ne_zero.mpr h
    simpa [BitVec.lt_def] using hctz
  have hvalid : validSignal ((s.pendingSignals &&& ~~~s.maskedSignals).ctz.toNat + 1) := ⟨Nat.le_add_left _ _, hlt⟩
  refine ⟨(unmasked_eq hvalid).mp ?_, fun m hm => ?_⟩
  · rw [Nat.add_sub_cancel]
    exact BitVec.getLsbD_true_ctz_of_ne_zero h
  · by_contra hlower
    have hpos := hm.valid.1
    have hbit := BitVec.getLsbD_false_of_lt_ctz (x := s.pendingSignals &&& ~~~s.maskedSignals) (i := m - 1) (by omega)
    rw [(unmasked_eq hm.valid).mpr hm] at hbit
    cases hbit

theorem Deliverable.ne_zero (h : Deliverable s n) : s.pendingSignals &&& ~~~s.maskedSignals ≠ 0 := by
  intro hzero
  have hbit := (unmasked_eq h.valid).mpr h
  rw [hzero] at hbit
  simp at hbit

theorem Deliverable.exists_lowest (h : Deliverable s n) : ∃ m, Lowest s m := ⟨_, lowest_ctz h.ne_zero⟩

/-! ### One dispatch -/

/-- What the action of a signal makes of the task. -/
def acted (task : Task) (sa : SigAction) (sig : Nat) : Task :=
  if sa.saSigaction = sigDfl then handleDefault sig task
  else if sa.saSigaction = sigIgn then task
  else { task with sigState := task.sigState.deliver sa sig }

variable {task : Task}

theorem handleDefault_sigState (sig : Nat) (task : Task) : (handleDefault sig task).sigState = task.sigState := by
  unfold handleDefault
  split_ifs <;> rfl

theorem dispatchSignal_none (h : ∀ n, ¬Deliverable task.sigState n) : dispatchSignal task = (.ok (), task) := by
  have hzero : task.sigState.pendingSignals &&& ~~~task.sigState.maskedSignals = 0 := by
    by_contra hne
    exact h _ (lowest_ctz hne).1
  rw [dispatchSignal, Act.get_bind_run, if_pos hzero]
  rfl

theorem handleDefault_update (sig : Nat) (task : Task) (sigState : SigState) :
    handleDefault sig { task with sigState } = { handleDefault sig task with sigState } := by
  unfold handleDefault
  split_ifs <;> rfl

/-- A dispatch acts on the lowest signal and clears it. -/
theorem dispatchSignal_run {slot : Fin 65} (h : Lowest task.sigState slot) :
    dispatchSignal task =
      (.ok (), acted { task with sigState := task.sigState.clearPending slot } (task.sigState.sigactions slot) slot) := by
  have hsig : (task.sigState.pendingSignals &&& ~~~task.sigState.maskedSignals).ctz.toNat + 1 = slot.val :=
    (lowest_ctz h.1.ne_zero).unique h
  have hslot : sigAt slot.val = .ok slot := dif_pos slot.isLt
  rw [dispatchSignal, Act.get_bind_run, if_neg h.1.ne_zero]
  dsimp only
  rw [hsig, hslot, Act.lift_ok_bind_run, acted]
  split_ifs with hdefault hignore
  · rw [Act.modify_bind_run, handleDefault_update slot task (task.sigState.clearPending slot), ← handleDefault_sigState slot task]
    rfl
  · rfl
  · rfl

end Kernel.Signal
