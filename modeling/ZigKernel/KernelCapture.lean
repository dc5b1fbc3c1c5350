import ZigKernel.KernelSyscall
import ZigKernel.LibRuns

/-! `src/proc/capture.zig`: the calls on the captured streams. There are fewer buffers than pids, and a pid writes to the
buffers of its slot, so that what is captured is a process's own output as long as no other pid of the slot comes in
between. -/

namespace Kernel

open Zig

namespace Capture

/-- `writeStdout` and `writeStderr`: `n` bytes fit, and the others are dropped. -/
def put (read : Capture → Fin maxProcs → Stream) (write : (Fin maxProcs → Stream) → Capture → Capture) (pid : Nat)
    (data : Bytes) : Act Capture Spins Nat := do
  let c ← Act.get
  let stream := read c (slot pid)
  let n := stream.fits data.length
  let stream ← Act.lift (stream.write (data.take n) (data.length - n))
  Act.modify fun c => write (Function.update (read c) (slot pid) stream) c
  pure n

def writeStdout : Nat → Bytes → Act Capture Spins Nat := put Capture.out fun out c => { c with out }
def writeStderr : Nat → Bytes → Act Capture Spins Nat := put Capture.err fun err c => { c with err }

def stdoutOf (c : Capture) (pid : Nat) : Bytes := (c.out (slot pid)).text
def stderrOf (c : Capture) (pid : Nat) : Bytes := (c.err (slot pid)).text
def droppedOut (c : Capture) (pid : Nat) : Nat := (c.out (slot pid)).dropped
def droppedErr (c : Capture) (pid : Nat) : Nat := (c.err (slot pid)).dropped

def reset (pid : Nat) (c : Capture) : Capture :=
  { out := Function.update c.out (slot pid) {}, err := Function.update c.err (slot pid) {} }

/-! ### One stream -/

section Streams

variable {stream stream' : Stream} {log data : Bytes}

/-- The stream has the front of what was written, and has counted the rest. -/
def Captures (stream : Stream) (log : Bytes) : Prop :=
  stream.text = log.take cap ∧ stream.dropped = (log.drop cap).length

theorem Captures.length (h : Captures stream log) : stream.text.length + stream.dropped = log.length := by
  rw [h.1, h.2, List.length_take, List.length_drop]
  omega

theorem captures_empty : Captures {} log ↔ log = [] := by
  constructor
  · intro h
    rw [← List.length_eq_zero_iff, ← h.length]
    rfl
  · rintro rfl
    exact ⟨rfl, rfl⟩

/-- What a write that returns leaves in the stream. -/
theorem write_ok (h : stream.write (data.take (stream.fits data.length)) (data.length - stream.fits data.length) =
    .ok stream') : stream'.text = stream.text ++ data.take (stream.fits data.length) ∧
      stream'.dropped = stream.dropped + (data.length - stream.fits data.length) := by
  rw [Stream.write] at h
  split_ifs at h
  obtain ⟨dropped, hadd, hrun⟩ := Outcome.bind_eq_ok h
  cases hrun
  exact ⟨rfl, (addU64_eq_ok.mp hadd).2.symm⟩

theorem Captures.write (h : Captures stream log)
    (hrun : stream.write (data.take (stream.fits data.length)) (data.length - stream.fits data.length) = .ok stream') :
    Captures stream' (log ++ data) := by
  obtain ⟨htext, hdropped⟩ := write_ok hrun
  have hlength : stream.text.length = min cap log.length := by rw [h.1, List.length_take]
  have hfits : stream.fits data.length = min (cap - log.length) data.length := by
    rw [Stream.fits, hlength]
    omega
  rw [Captures, htext, hdropped, h.1, h.2, hfits]
  constructor
  · rw [List.take_append, List.append_cancel_left_eq, List.take_eq_take_iff]
    omega
  · simp only [List.length_drop, List.length_append]
    omega

/-- A stream that another process of the slot writes to is still the one of the log exactly if nothing is written. -/
theorem captures_foreign (h : Captures stream log)
    (hrun : stream.write (data.take (stream.fits data.length)) (data.length - stream.fits data.length) = .ok stream') :
    Captures stream' log ↔ data = [] := by
  have hboth := h.write hrun
  constructor
  · intro hsame
    have hlength := hsame.length.symm.trans hboth.length
    rw [List.length_append] at hlength
    exact List.length_eq_zero_iff.mp (by omega)
  · rintro rfl
    rwa [List.append_nil] at hboth

/-- A write that returns has written to the stream of its slot. -/
theorem put_ok {read : Capture → Fin maxProcs → Stream} {write : (Fin maxProcs → Stream) → Capture → Capture} {c c' : Capture}
    {n pid : Nat} (h : put read write pid data c = (.ok n, c')) :
    ∃ stream, (read c (slot pid)).write (data.take ((read c (slot pid)).fits data.length))
        (data.length - (read c (slot pid)).fits data.length) = .ok stream ∧
      c' = write (Function.update (read c) (slot pid) stream) c := by
  rw [put, Act.get_bind_run] at h
  obtain ⟨stream, hwrite, hrest⟩ := Act.lift_bind_run_eq_ok h
  cases hrest
  exact ⟨stream, hwrite, rfl⟩

end Streams

/-! ### The system call -/

/-- `sys_write` captures the bytes of the user under the pid of the current process. -/
theorem captureWrite_put {read : Capture → Fin maxProcs → Stream} {write : (Fin maxProcs → Stream) → Capture → Capture}
    {s : State} {pid : Nat} (buf len : Nat) (h : s.procs.getpid = .ok pid) :
    (captureWrite read write buf len s).2.capture =
      (put read write pid ((List.range len).map fun i => s.user (buf + i)) s.capture).2 := by
  have hlen : ((List.range len).map fun i => s.user (buf + i)).length = len := by
    rw [List.length_map, List.length_range]
  have htake (stream : Stream) : ((List.range len).map fun i => s.user (buf + i)).take (stream.fits len) =
      (List.range (stream.fits len)).map fun i => s.user (buf + i) := by
    have hfits : min (stream.fits len) len = stream.fits len := Nat.min_eq_left (Nat.min_le_right _ _)
    rw [← List.map_take, List.take_range, hfits]
  have hread (n : Nat) : readUser buf n s = (.ok ((List.range n).map fun i => s.user (buf + i)),
      { s with trace := s.trace ++ accesses false buf n }) := rfl
  simp only [captureWrite, put, Act.get_bind_run, h, Act.lift_ok_bind_run, hlen, htake, Act.bind_ok_run (hread _)]
  cases (read s.capture (slot pid)).write ((List.range ((read s.capture (slot pid)).fits len)).map fun i => s.user (buf + i))
      (len - (read s.capture (slot pid)).fits len) with
  | ok stream => rfl
  | error e => rfl
  | trap => rfl

/-! ### Calls of all processes -/

/-- What a process has written since its own last reset. -/
structure Log where
  out : Bytes := []
  err : Bytes := []

structure Books where
  capture : Capture := {}
  logs : Fin maxPid → Log := fun _ => {}

inductive Call where
  | stdout (pid : Fin maxPid) (data : Bytes)
  | stderr (pid : Fin maxPid) (data : Bytes)
  | reset (pid : Fin maxPid)

/-- The process that makes the call. -/
def Call.pid : Call → Fin maxPid
  | stdout pid _ => pid
  | stderr pid _ => pid
  | reset pid => pid

/-- A call that returns, and what its process writes down. -/
inductive Step (s : Books) : Call → Books → Prop where
  | stdout {pid : Fin maxPid} {data : Bytes} {n : Nat} {c : Capture} (h : writeStdout pid data s.capture = (.ok n, c)) :
      Step s (.stdout pid data)
        ⟨c, Function.update s.logs pid { s.logs pid with out := (s.logs pid).out ++ data }⟩
  | stderr {pid : Fin maxPid} {data : Bytes} {n : Nat} {c : Capture} (h : writeStderr pid data s.capture = (.ok n, c)) :
      Step s (.stderr pid data)
        ⟨c, Function.update s.logs pid { s.logs pid with err := (s.logs pid).err ++ data }⟩
  | reset (pid : Fin maxPid) : Step s (.reset pid) ⟨Capture.reset pid s.capture, Function.update s.logs pid {}⟩

/-- What is captured for a process is its own output. -/
def Isolated (p : Fin maxPid) (s : Books) : Prop :=
  (stdoutOf s.capture p = (s.logs p).out.take cap ∧ droppedOut s.capture p = ((s.logs p).out.drop cap).length) ∧
    stderrOf s.capture p = (s.logs p).err.take cap ∧ droppedErr s.capture p = ((s.logs p).err.drop cap).length

/-- What can be read of a process. -/
def view (p : Fin maxPid) (c : Capture) : (Bytes × Nat) × Bytes × Nat :=
  ((stdoutOf c p, droppedOut c p), stderrOf c p, droppedErr c p)

/-- Nothing is written, or nothing of the process is taken away. -/
def Call.Harmless (p : Fin maxPid) (s : Books) : Call → Prop
  | stdout _ data => data = []
  | stderr _ data => data = []
  | reset _ => (s.logs p).out = [] ∧ (s.logs p).err = []

/-- The process itself makes the call, or one of another slot, or it does no harm. -/
def Friendly (p : Fin maxPid) (s : Books) (call : Call) : Prop :=
  call.pid = p ∨ slot call.pid ≠ slot p ∨ call.Harmless p s

section Steps

variable {p : Fin maxPid} {s t : Books} {call : Call}

theorem isolated_iff : Isolated p s ↔
    Captures (s.capture.out (slot p)) (s.logs p).out ∧ Captures (s.capture.err (slot p)) (s.logs p).err := Iff.rfl

/-- What is captured of a process that is isolated is what its log says. -/
theorem Isolated.view (h : Isolated p s) : view p s.capture =
    (((s.logs p).out.take cap, ((s.logs p).out.drop cap).length), (s.logs p).err.take cap, ((s.logs p).err.drop cap).length) := by
  rw [Capture.view, h.1.1, h.1.2, h.2.1, h.2.2]

theorem slot_ne_of_foreign {q : Fin maxPid} (h : slot q ≠ slot p) : q ≠ p := by
  rintro rfl
  exact h rfl

/-- After each call that returns the process is isolated still exactly if the call does it no harm. -/
theorem isolated_step (hs : Isolated p s) (hstep : Step s call t) : Isolated p t ↔ Friendly p s call := by
  rw [isolated_iff] at hs ⊢
  rw [Friendly]
  cases hstep with
  | @stdout q data n c h =>
      obtain ⟨stream, hwrite, rfl⟩ := put_ok h
      by_cases hslot : slot q = slot p
      · rw [hslot] at hwrite
        by_cases hq : q = p
        · subst hq
          refine iff_of_true ?_ (Or.inl rfl)
          simp only [Function.update_self]
          exact ⟨hs.1.write hwrite, hs.2⟩
        · simp only [hslot, Function.update_self, Function.update_of_ne (Ne.symm hq), captures_foreign hs.1 hwrite,
            and_iff_left hs.2, ne_eq, not_true, false_or, Call.pid, hq, Call.Harmless]
      · have hq := slot_ne_of_foreign hslot
        refine iff_of_true ?_ (Or.inr (Or.inl hslot))
        simp only [Function.update_of_ne (Ne.symm hslot), Function.update_of_ne (Ne.symm hq)]
        exact hs
  | @stderr q data n c h =>
      obtain ⟨stream, hwrite, rfl⟩ := put_ok h
      by_cases hslot : slot q = slot p
      · rw [hslot] at hwrite
        by_cases hq : q = p
        · subst hq
          refine iff_of_true ?_ (Or.inl rfl)
          simp only [Function.update_self]
          exact ⟨hs.1, hs.2.write hwrite⟩
        · simp only [hslot, Function.update_self, Function.update_of_ne (Ne.symm hq), captures_foreign hs.2 hwrite,
            and_iff_right hs.1, ne_eq, not_true, false_or, Call.pid, hq, Call.Harmless]
      · have hq := slot_ne_of_foreign hslot
        refine iff_of_true ?_ (Or.inr (Or.inl hslot))
        simp only [Function.update_of_ne (Ne.symm hslot), Function.update_of_ne (Ne.symm hq)]
        exact hs
  | reset q =>
      by_cases hslot : slot q = slot p
      · by_cases hq : q = p
        · subst hq
          refine iff_of_true ?_ (Or.inl rfl)
          simp only [Capture.reset, Function.update_self]
          exact ⟨captures_empty.mpr rfl, captures_empty.mpr rfl⟩
        · simp only [Capture.reset, hslot, Function.update_self, Function.update_of_ne (Ne.symm hq), captures_empty, ne_eq,
            not_true, false_or, Call.pid, hq, Call.Harmless]
      · have hq := slot_ne_of_foreign hslot
        refine iff_of_true ?_ (Or.inr (Or.inl hslot))
        simp only [Capture.reset, Function.update_of_ne (Ne.symm hslot), Function.update_of_ne (Ne.symm hq)]
        exact hs

/-- No call touches the log of another process. -/
theorem logs_step (hstep : Step s call t) (hother : call.pid ≠ p) : t.logs p = s.logs p := by
  cases hstep with
  | stdout h => exact Function.update_of_ne (Ne.symm hother) _ _
  | stderr h => exact Function.update_of_ne (Ne.symm hother) _ _
  | reset q => exact Function.update_of_ne (Ne.symm hother) _ _

/-- The process is isolated behind the call, and a call of another one changes nothing that can be read of it. -/
def Undisturbed (p : Fin maxPid) (s : Books) (call : Call) (t : Books) : Prop :=
  Isolated p t ∧ (call.pid ≠ p → view p t.capture = view p s.capture)

theorem undisturbed_iff (hs : Isolated p s) (hstep : Step s call t) : Undisturbed p s call t ↔ Friendly p s call := by
  rw [Undisturbed, ← isolated_step hs hstep]
  refine and_iff_left_of_imp fun ht hother => ?_
  rw [ht.view, hs.view, logs_step hstep hother]

end Steps

theorem isolated_init {p : Fin maxPid} : Isolated p {} := ⟨⟨rfl, rfl⟩, rfl, rfl⟩

/-- The output of a process is its own along a run exactly if no call of the run does it harm. -/
theorem capture_isolated_iff (p : Fin maxPid) (calls : List Call) (t : Books) :
    Runs.Run (fun s c t => Step s c t ∧ Undisturbed p s c t) {} calls t ↔
      Runs.Run (fun s c t => Step s c t ∧ Friendly p s c) {} calls t :=
  Runs.Run.along_iff (I := Isolated p) (B := fun s c _ => Friendly p s c) isolated_init
    (fun _ _ _ hs hstep => undisturbed_iff hs hstep) fun _ _ _ hs hstep h => (isolated_step hs hstep).mpr h

/-- What pid 65 writes is captured for pid 1. -/
theorem other_pid_captured : ¬∀ (p : Fin maxPid) calls t, Runs.Run Step {} calls t →
    Runs.Run (fun s c t => Step s c t ∧ Undisturbed p s c t) {} calls t := by
  intro h
  have hrun := h ⟨1, by decide⟩ [.stdout ⟨65, by decide⟩ [120]] _ (.single (.stdout rfl))
  obtain ⟨t, ⟨hstep, hundisturbed⟩, -⟩ := hrun.cons_inv
  rcases (undisturbed_iff isolated_init hstep).mp hundisturbed with hpid | hslot | hdata
  · exact absurd hpid (by decide)
  · exact hslot rfl
  · cases hdata

end Capture

end Kernel
