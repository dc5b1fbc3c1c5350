import ZigKernel.KernelSignal
import ZigKernel.LibRuns
import Mathlib.Order.Interval.Finset.Nat

/-! Runs of sends, changes of the mask, installations of handlers and dispatches on one task. The mask stays clear of
SIGKILL and SIGSTOP exactly as long as no delivery puts them there, and then a pending SIGKILL waits for eight dispatches
at most. -/

namespace Kernel.Signal

open Zig
open Sched (TaskState)

def SigState.install (self : SigState) (sig : Fin 65) (sa : SigAction) : SigState :=
  { self with sigactions := Function.update self.sigactions sig sa }

inductive Call where
  | sendsig (signum : Fin 256)
  | sendsigInfo (info : SigInfo)
  | block (mask : BitVec 64)
  | unblock (mask : BitVec 64)
  | setMask (mask : BitVec 64)
  | install (sig : Fin 65) (sa : SigAction)
  | dispatchSignal

def onSigState (f : SigState → SigState) : Run Unit := Act.modify fun task => { task with sigState := f task.sigState }

def Call.run : Call → Run Unit
  | .sendsig signum => Act.modify (Signal.sendsig signum)
  | .sendsigInfo info => Signal.sendsigInfo info
  | .block mask => onSigState (·.block mask)
  | .unblock mask => onSigState (·.unblock mask)
  | .setMask mask => onSigState (·.setMask mask)
  | .install sig sa => onSigState (·.install sig sa)
  | .dispatchSignal => Signal.dispatchSignal

def Step (s : Task) (c : Call) (t : Task) : Prop := t = (c.run s).2

def Call.sends : Call → Bool
  | .sendsig _ => true
  | .sendsigInfo _ => true
  | _ => false

def Call.isDispatch : Call → Bool
  | .dispatchSignal => true
  | _ => false

/-- SIGKILL and SIGSTOP are not in the mask. -/
def Unblocked (mask : BitVec 64) : Prop := mask &&& unblockableMask = 0#64

instance (mask : BitVec 64) : Decidable (Unblocked mask) := inferInstanceAs (Decidable (_ = _))

/-- What the handler of signal `n` asks for has been done. -/
def Served (s : Task) (sa : SigAction) (n : Nat) (t : Task) : Prop :=
  if sa.saSigaction = sigDfl then t.state = (handleDefault n s).state ∧ t.exitCode = (handleDefault n s).exitCode
  else
    t.state = s.state ∧ t.exitCode = s.exitCode ∧
      (sa.saSigaction ≠ sigIgn → t.sigState.savedMask = s.sigState.maskedSignals)

/-- Signal `n`, and no other, has been taken and served. -/
structure Handled (s : Task) (n : Nat) (t : Task) : Prop where
  pending : ∀ m, t.sigState.isPending m = (s.sigState.isPending m && !decide (m = n))
  info : ∀ slot : Fin 65, t.sigState.pendingInfo slot = if slot.val = n then none else s.sigState.pendingInfo slot
  served : ∀ slot : Fin 65, slot.val = n → Served s (s.sigState.sigactions slot) n t

structure Lawful (s : Task) (c : Call) (t : Task) : Prop where
  unblocked : Unblocked t.sigState.maskedSignals
  lowest : c = .dispatchSignal → ∀ n, Lowest s.sigState n → Handled s n t
  idle : c = .dispatchSignal → (∀ n, ¬Deliverable s.sigState n) → t = s

/-- A delivery that leaves SIGKILL and SIGSTOP unmasked. -/
def Mild (sa : SigAction) (n : Nat) : Prop :=
  sa.saSigaction = sigDfl ∨ sa.saSigaction = sigIgn ∨
    Unblocked sa.saMask ∧ (n = sigkill ∨ n = sigstop → sa.saFlags &&& saNodefer ≠ 0)

/-- The signal that the call delivers, if any, has such a handler. -/
def Covered (s : Task) (c : Call) : Prop :=
  c = .dispatchSignal → ∀ slot : Fin 65, Lowest s.sigState slot → Mild (s.sigState.sigactions slot) slot

/-- Where SIGKILL is pending and nothing more is sent, it is handled at one of the next nine dispatches. -/
def KillHandled (start : Task) (trace : List Call) : Prop :=
  ∀ before mid after s, trace = before ++ mid ++ after → Runs.Run Step start before s →
    s.sigState.isPending sigkill = true → (∀ c ∈ mid, c.sends = false) → mid.countP Call.isDispatch = 9 →
      ∃ mid' rest t, mid = mid' ++ .dispatchSignal :: rest ∧ Runs.Run Step s mid' t ∧ Lowest t.sigState sigkill

/-! ### The mask -/

variable {n m : Nat} {mask mask' : BitVec 64} {s t : Task} {c : Call} {sa : SigAction}

theorem unblocked_or : Unblocked (mask ||| mask') ↔ Unblocked mask ∧ Unblocked mask' := by
  rw [Unblocked, BitVec.and_or_distrib_right, BitVec.or_eq_zero_iff]
  rfl

theorem Unblocked.and (h : Unblocked mask) (mask' : BitVec 64) : Unblocked (mask &&& mask') := by
  rw [Unblocked, BitVec.and_assoc, BitVec.and_comm mask', ← BitVec.and_assoc, h, BitVec.zero_and]

theorem unblocked_stripped (mask : BitVec 64) : Unblocked (SigState.stripped mask) := by
  have hmask : ~~~signalBit sigkill &&& ~~~signalBit sigstop &&& unblockableMask = 0#64 := by decide
  rw [Unblocked, SigState.stripped, BitVec.and_assoc mask, BitVec.and_assoc mask, hmask, BitVec.and_zero]

theorem unblocked_signalBit : ∀ slot : Fin 65, Unblocked (signalBit slot) ↔ ¬(slot.val = sigkill ∨ slot.val = sigstop) := by
  decide

theorem Unblocked.not_masked {s : SigState} (h : Unblocked s.maskedSignals) : s.isMasked sigkill = false := by
  rw [Unblocked, unblockableMask, BitVec.and_or_distrib_left, BitVec.or_eq_zero_iff] at h
  rw [SigState.isMasked, h.1]
  rfl

/-! ### One step -/

theorem wake_sigState (task : Task) : task.wake.sigState = task.sigState := by
  unfold Task.wake
  split_ifs <;> rfl

theorem setPending_maskedSignals (s : SigState) (n : Nat) : (s.setPending n).maskedSignals = s.maskedSignals := by
  unfold SigState.setPending
  split_ifs <;> rfl

theorem sendsig_maskedSignals (n : Nat) (task : Task) :
    (sendsig n task).sigState.maskedSignals = task.sigState.maskedSignals := by
  unfold sendsig
  split_ifs
  · rw [wake_sigState, setPending_maskedSignals]
  · rfl

theorem sendsigInfo_maskedSignals (info : SigInfo) (task : Task) :
    (sendsigInfo info task).2.sigState.maskedSignals = task.sigState.maskedSignals := by
  rw [sendsigInfo]
  cases castU8 info.siSigno with
  | ok signum =>
      rw [Act.lift_ok_bind_run]
      split_ifs with hvalid
      · have hslot : sigAt signum = .ok ⟨signum, Nat.lt_succ_of_le hvalid.2⟩ := dif_pos (Nat.lt_succ_of_le hvalid.2)
        rw [hslot, Act.lift_ok_bind_run]
        exact (congrArg _ (wake_sigState _)).trans (setPending_maskedSignals _ _)
      · rfl
  | error e => exact e.elim
  | trap => rfl

/-- Only a dispatch can bring SIGKILL or SIGSTOP into the mask. -/
theorem Step.unblocked (h : Step s c t) (hc : c ≠ .dispatchSignal) (hs : Unblocked s.sigState.maskedSignals) :
    Unblocked t.sigState.maskedSignals := by
  rw [h]
  cases c with
  | sendsig signum => exact (sendsig_maskedSignals _ _).symm ▸ hs
  | sendsigInfo info => exact (sendsigInfo_maskedSignals _ _).symm ▸ hs
  | block mask => exact unblocked_stripped _
  | unblock mask => exact hs.and _
  | setMask mask => exact unblocked_stripped _
  | install sig sa => exact hs
  | dispatchSignal => exact absurd rfl hc

theorem Step.pending (h : Step s c t) (hc : c ≠ .dispatchSignal) (hsends : c.sends = false) (m : Nat) :
    t.sigState.isPending m = s.sigState.isPending m := by
  rw [h]
  cases c with
  | sendsig signum => cases hsends
  | sendsigInfo info => cases hsends
  | dispatchSignal => exact absurd rfl hc
  | _ => rfl

theorem acted_isPending (task : Task) (sa : SigAction) (n m : Nat) :
    (acted task sa n).sigState.isPending m = task.sigState.isPending m := by
  unfold acted
  split_ifs
  · rw [handleDefault_sigState]
  · rfl
  · rfl

theorem acted_pendingInfo (task : Task) (sa : SigAction) (n : Nat) :
    (acted task sa n).sigState.pendingInfo = task.sigState.pendingInfo := by
  unfold acted
  split_ifs
  · rw [handleDefault_sigState]
  · rfl
  · rfl

/-- The mask stays clear of SIGKILL and SIGSTOP exactly if the delivery is mild. -/
theorem acted_unblocked_iff (task : Task) (h : Unblocked task.sigState.maskedSignals) (slot : Fin 65) :
    Unblocked (acted task sa slot).sigState.maskedSignals ↔ Mild sa slot := by
  unfold acted Mild
  split_ifs with hdefault hignore
  · rw [handleDefault_sigState]
    exact iff_of_true h (.inl hdefault)
  · exact iff_of_true h (.inr (.inl hignore))
  · rw [or_iff_right hdefault, or_iff_right hignore, SigState.deliver]
    dsimp only
    split_ifs with hdefer
    · rw [unblocked_or, unblocked_or, unblocked_signalBit, and_iff_right h, hdefer]
      exact and_congr_right' ⟨fun hn hn' => absurd hn' hn, fun hn hn' => hn hn' rfl⟩
    · rw [unblocked_or, and_iff_right h]
      exact (and_iff_left fun _ => hdefer).symm

theorem Lowest.dispatched {slot : Fin 65} (h : Lowest s.sigState slot) (hstep : Step s .dispatchSignal t) :
    t = acted { s with sigState := s.sigState.clearPending slot } (s.sigState.sigactions slot) slot :=
  hstep.trans (congrArg Prod.snd (dispatchSignal_run h))

theorem Lowest.lt {s : SigState} (h : Lowest s n) : n < 65 := Nat.lt_succ_of_le h.1.valid.2

theorem Lowest.handled (slot : Fin 65) (h : Lowest s.sigState slot) (hstep : Step s .dispatchSignal t) :
    Handled s slot t := by
  rw [h.dispatched hstep]
  refine ⟨fun m => ?_, fun slot' => ?_, fun slot' hslot => ?_⟩
  · rw [acted_isPending]
    exact isPending_clearPending _ h.1.valid _
  · rw [acted_pendingInfo]
    simp only [SigState.clearPending, slot.isLt, dif_pos, Function.update_apply, Fin.ext_iff]
  · rw [Fin.ext hslot, Served, acted]
    split_ifs with hdefault hignore
    · rw [handleDefault_update]
      exact ⟨rfl, rfl⟩
    · exact ⟨rfl, rfl, fun hne => absurd hignore hne⟩
    · exact ⟨rfl, rfl, fun _ => rfl⟩

theorem Step.lawful_iff (hs : Unblocked s.sigState.maskedSignals) (h : Step s c t) : Lawful s c t ↔ Covered s c := by
  by_cases hc : c = .dispatchSignal
  · subst hc
    have hmask (slot : Fin 65) (hslot : Lowest s.sigState slot) :
        Unblocked t.sigState.maskedSignals ↔ Mild (s.sigState.sigactions slot) slot := by
      rw [hslot.dispatched h]
      exact acted_unblocked_iff { s with sigState := s.sigState.clearPending slot } hs slot
    refine ⟨fun hlawful _ slot hslot => (hmask slot hslot).mp hlawful.unblocked, fun hcovered => ⟨?_, ?_, ?_⟩⟩
    · by_cases hsome : ∃ n, Deliverable s.sigState n
      · obtain ⟨n, hn⟩ := hsome
        obtain ⟨m, hm⟩ := hn.exists_lowest
        exact (hmask ⟨m, hm.lt⟩ hm).mpr (hcovered rfl ⟨m, hm.lt⟩ hm)
      · rw [h]
        exact (congrArg Prod.snd (dispatchSignal_none (not_exists.mp hsome))).symm ▸ hs
    · exact fun _ n hn => Lowest.handled ⟨n, hn.lt⟩ hn h
    · exact fun _ hnone => h.trans (congrArg Prod.snd (dispatchSignal_none hnone))
  · exact iff_of_true ⟨h.unblocked hc hs, fun hd => absurd hd hc, fun hd => absurd hd hc⟩ fun hd => absurd hd hc

/-! ### Nine dispatches -/

/-- The pending signals that come before SIGKILL. -/
def ahead (s : SigState) : Finset Nat := (Finset.Ico 1 sigkill).filter fun m => s.isPending m = true

theorem card_ahead_le (s : SigState) : (ahead s).card ≤ 8 := Finset.card_filter_le _ _

theorem Handled.ahead (h : Handled s n t) : ahead t.sigState = (ahead s.sigState).erase n := by
  ext m
  rw [Signal.ahead, Signal.ahead, Finset.mem_erase, Finset.mem_filter, Finset.mem_filter, h.pending, Bool.and_eq_true,
    Bool.not_eq_true', decide_eq_false_iff_not]
  tauto

/-- SIGKILL is handled at one of the dispatches, or it is still pending and each of them has taken a signal from ahead of
it. -/
def Progress (s : Task) (trace : List Call) (t : Task) : Prop :=
  (∃ mid rest u, trace = mid ++ .dispatchSignal :: rest ∧ Runs.Run Step s mid u ∧ Lowest u.sigState sigkill) ∨
    t.sigState.isPending sigkill = true ∧ trace.countP Call.isDispatch + (ahead t.sigState).card ≤ (ahead s.sigState).card

theorem Progress.snoc {trace : List Call} {u : Task} (hrun : Runs.Run Step s trace t) (h : Progress s trace t)
    (ht : Unblocked t.sigState.maskedSignals) (hstep : Step t c u) (hsends : c.sends = false) :
    Progress s (trace ++ [c]) u := by
  rcases h with ⟨mid, rest, v, hmid, hv, hlow⟩ | ⟨hpending, hcount⟩
  · refine .inl ⟨mid, rest ++ [c], v, ?_, hv, hlow⟩
    rw [hmid, List.append_assoc, List.cons_append]
  · by_cases hc : c = .dispatchSignal
    · subst hc
      have hkill : Deliverable t.sigState sigkill := ⟨hpending, ht.not_masked⟩
      obtain ⟨n, hn⟩ := hkill.exists_lowest
      by_cases hlast : n = sigkill
      · exact .inl ⟨trace, [], t, rfl, hrun, hlast ▸ hn⟩
      · have hhandled : Handled t n u := Lowest.handled ⟨n, hn.lt⟩ hn hstep
        have hmem : n ∈ ahead t.sigState := by
          refine Finset.mem_filter.mpr ⟨Finset.mem_Ico.mpr ⟨hn.1.valid.1, ?_⟩, hn.1.1⟩
          exact Nat.lt_of_le_of_ne (hn.2 _ hkill) hlast
        refine .inr ⟨?_, ?_⟩
        · rw [hhandled.pending, hpending, decide_eq_false (Ne.symm hlast)]
          rfl
        · have hone : [Call.dispatchSignal].countP Call.isDispatch = 1 := rfl
          have hpos := Finset.card_pos.mpr ⟨n, hmem⟩
          rw [List.countP_append, hone, hhandled.ahead, Finset.card_erase_of_mem hmem]
          omega
    · have hsame := hstep.pending hc hsends
      have hcall : c.isDispatch = false := by
        cases c with
        | dispatchSignal => exact absurd rfl hc
        | _ => rfl
      refine .inr ⟨(hsame _).trans hpending, ?_⟩
      have hahead : ahead u.sigState = ahead t.sigState := Finset.filter_congr fun m _ => by rw [hsame]
      rw [List.countP_append, hahead, List.countP_singleton, hcall]
      exact hcount

theorem Step.det (hs : Step s c t) {u : Task} (hu : Step s c u) : t = u := Eq.trans hs hu.symm

/-- Along lawful steps a pending SIGKILL is handled within nine dispatches. -/
theorem killHandled_of_lawful {start : Task} {trace : List Call} (hstart : Unblocked start.sigState.maskedSignals)
    (h : Runs.Run (fun s c t => Step s c t ∧ Lawful s c t) start trace t) : KillHandled start trace := by
  intro before mid after s htrace hbefore hpending hsends hnine
  rw [htrace] at h
  obtain ⟨v, hinit, -⟩ := h.split
  obtain ⟨s', hfirst, hmid⟩ := hinit.split
  have hs' : s' = s := (hfirst.mono fun _ _ _ hs => hs.1).det (fun _ _ _ _ hs hu => hs.det hu) hbefore
  subst hs'
  have hgood {trace : List Call} {t : Task} (h : Runs.Run (fun s c t => Step s c t ∧ Lawful s c t) start trace t) :
      Unblocked t.sigState.maskedSignals := h.invariant hstart fun _ _ _ _ hs => hs.2.unblocked
  have hprogress : (∀ c ∈ mid, c.sends = false) → Progress s' mid v := by
    refine hmid.history (P := fun trace t => (∀ c ∈ trace, c.sends = false) → Progress s' trace t) ?_ ?_
    · exact fun _ => .inr ⟨hpending, by rw [List.countP_nil, Nat.zero_add]⟩
    · intro trace t c u hrun ih hstep hsends
      refine (ih fun c hc => hsends c (List.mem_append_left _ hc)).snoc (hrun.mono fun _ _ _ hs => hs.1) ?_ hstep.1 ?_
      · exact hgood (hfirst.append hrun)
      · exact hsends c (List.mem_append_right _ (List.mem_singleton_self c))
  rcases hprogress hsends with hhandled | ⟨-, hcount⟩
  · exact hhandled
  · have hle := card_ahead_le s'.sigState
    omega

/-- A task whose signals are as at the start. -/
def fresh (state : TaskState) (exitCode : Int) : Task := { state, exitCode }

/-- The mask stays clear, every dispatch handles the lowest signal and SIGKILL is handled within nine dispatches, exactly
in the runs whose deliveries are mild. -/
theorem run_unmasked_iff (state : TaskState) (exitCode : Int) (trace : List Call) (t : Task) :
    Runs.Run (fun s c t => Step s c t ∧ Lawful s c t) (fresh state exitCode) trace t ∧
        KillHandled (fresh state exitCode) trace ↔
      Runs.Run (fun s c t => Step s c t ∧ Covered s c) (fresh state exitCode) trace t := by
  have hstart : Unblocked (fresh state exitCode).sigState.maskedSignals := BitVec.zero_and
  have hiff : Runs.Run (fun s c t => Step s c t ∧ Lawful s c t) (fresh state exitCode) trace t ↔
      Runs.Run (fun s c t => Step s c t ∧ Covered s c) (fresh state exitCode) trace t :=
    Runs.Run.along_iff (I := fun s => Unblocked s.sigState.maskedSignals) hstart
      (fun _ _ _ hs hstep => hstep.lawful_iff hs) fun _ _ _ hs hstep hcovered => ((hstep.lawful_iff hs).mpr hcovered).unblocked
  exact ⟨fun h => hiff.mp h.1, fun h => ⟨hiff.mpr h, killHandled_of_lawful hstart (hiff.mpr h)⟩⟩

/-- The handler of SIGUSR1 masks SIGKILL while it runs. -/
def greedy : SigAction := { saSigaction := 2, saMask := signalBit sigkill }

def delivered : List Call := [.install ⟨10, by decide⟩ greedy, .sendsig ⟨10, by decide⟩, .dispatchSignal]

def final (start : Task) (trace : List Call) : Task := trace.foldl (fun s c => (c.run s).2) start

theorem run_final (start : Task) (trace : List Call) : Runs.Run Step start trace (final start trace) := by
  induction trace generalizing start with
  | nil => exact .refl
  | cons c trace ih => exact .cons rfl (ih _)

/-- SIGKILL is in the mask, and pending behind nine dispatches. -/
theorem delivery_masks_kill :
    ∃ t, Runs.Run Step (fresh .runnable 0) (delivered ++ .sendsig ⟨9, by decide⟩ :: List.replicate 9 .dispatchSignal) t ∧
      ¬Unblocked t.sigState.maskedSignals ∧ t.sigState.isPending sigkill = true :=
  ⟨_, run_final _ _, by decide +kernel, by decide +kernel⟩

end Kernel.Signal
