import ZigKernel.KernelFile
import ZigKernel.LibRing
import ZigKernel.LibRuns

/-! `src/drivers/pipe.zig` over slices: a ring of bytes between two ends that are closed one by one. The bytes between
a write and the read that returns them stand in the ring in their order, over any sequence of calls. -/

namespace Kernel

open Zig

namespace Vfs

instance : NeZero pipeBuf := ⟨by decide⟩

/-- The bits of an `i16` of events. -/
def pollin : BitVec 16 := 0x01
def pollout : BitVec 16 := 0x04
def pollerr : BitVec 16 := 0x08
def pollhup : BitVec 16 := 0x10

namespace Pipe

/-- The loop of `read` over `n` more bytes; the bytes that it stores in the buffer. -/
def readLoop : Nat → Act Pipe Spins Bytes
  | 0 => pure []
  | n + 1 => do
      let p ← Act.get
      let cell ← Act.lift (pipeAt p.readPos)
      let used ← Act.lift (subU64 p.used 1)
      Act.modify fun p => { p with readPos := (p.readPos + 1) % pipeBuf, used }
      let rest ← readLoop n
      pure (p.data cell :: rest)

/-- `read` returns its result and the buffer as it leaves it. -/
def read (buf : Bytes) : Act Pipe Spins (Int × Bytes) := do
  let p ← Act.get
  if p.used = 0 then pure (if p.writeClosed then 0 else -11, buf)
  else do
    let n := min buf.length p.used
    let got ← readLoop n
    Act.modify fun p => { p with waitWriters := false }
    let count ← Act.lift (castI64 n)
    pure (count, got ++ buf.drop n)

/-- The loop of `write` over the bytes that fit. -/
def writeLoop : Bytes → Act Pipe Spins Unit
  | [] => pure ()
  | b :: rest => do
      let p ← Act.get
      let cell ← Act.lift (pipeAt p.writePos)
      let used ← Act.lift (addU64 p.used 1)
      Act.modify fun p =>
        { p with data := Function.update p.data cell b, writePos := (p.writePos + 1) % pipeBuf, used }
      writeLoop rest

def write (data : Bytes) : Act Pipe Spins Int := do
  let p ← Act.get
  if p.readClosed then pure (-32)
  else do
    let avail ← Act.lift (subU64 pipeBuf p.used)
    let n := min data.length avail
    if n = 0 then pure (-11)
    else do
      writeLoop (data.take n)
      Act.modify fun p => { p with waitReaders := true }
      Act.lift (castI64 n)

def close (p : Pipe) (isReadEnd : Bool) : Pipe :=
  if isReadEnd then { p with readClosed := true } else { p with writeClosed := true }

/-- What is asked for is not looked at. -/
def poll (p : Pipe) (_events : BitVec 16) (isReadEnd : Bool) : BitVec 16 :=
  if isReadEnd then (if p.used > 0 then pollin else 0) ||| (if p.writeClosed then pollhup else 0)
  else (if p.used < pipeBuf then pollout else 0) ||| (if p.readClosed then pollerr else 0)

/-! ### The ring -/

variable {p : Pipe}

/-- The ring content from `read_pos` on. -/
def inFlight (p : Pipe) : Bytes := Ring.toList p.data p.readPos p.used

/-- The positions lie in the ring, as far apart as there are bytes between them. -/
structure Wf (p : Pipe) : Prop where
  readPos : p.readPos < pipeBuf
  used : p.used ≤ pipeBuf
  writePos : p.writePos = (p.readPos + p.used) % pipeBuf

theorem wf_init : ({} : Pipe).Wf := ⟨by decide, by decide, rfl⟩

/-- The pipe without its first `n` bytes. -/
def dropped (p : Pipe) (n : Nat) : Pipe := { p with readPos := (p.readPos + n) % pipeBuf, used := p.used - n }

theorem inFlight_length (p : Pipe) : p.inFlight.length = p.used := Ring.toList_length _ _ _

theorem inFlight_cons (h : p.Wf) (hused : p.used ≠ 0) :
    p.inFlight = p.data ⟨p.readPos, h.readPos⟩ :: (p.dropped 1).inFlight := by
  obtain ⟨k, hk⟩ := Nat.exists_eq_succ_of_ne_zero hused
  have hcell : Fin.ofNat pipeBuf p.readPos = ⟨p.readPos, h.readPos⟩ := Fin.ext (Nat.mod_eq_of_lt h.readPos)
  have hrest : (p.dropped 1).inFlight = Ring.toList p.data ((p.readPos + 1) % pipeBuf) (p.used - 1) := rfl
  rw [hrest, inFlight, hk, Ring.toList_succ, hcell, Nat.succ_sub_one]

theorem Wf.dropped (h : p.Wf) {n : Nat} (hn : n ≤ p.used) : (p.dropped n).Wf where
  readPos := Nat.mod_lt _ (by decide)
  used := Nat.le_trans (Nat.sub_le _ _) h.used
  writePos := by
    show p.writePos = ((p.readPos + n) % pipeBuf + (p.used - n)) % pipeBuf
    rw [h.writePos, Nat.mod_add_mod, Nat.add_assoc, Nat.add_sub_cancel' hn]

theorem dropped_zero (h : p.Wf) : p.dropped 0 = p := by
  rw [Pipe.dropped, Nat.add_zero, Nat.mod_eq_of_lt h.readPos, Nat.sub_zero]

theorem dropped_dropped (m n : Nat) : (p.dropped m).dropped n = p.dropped (m + n) := by
  simp only [Pipe.dropped, Nat.mod_add_mod, Nat.add_assoc, Nat.sub_sub]

/-- The reads of the loop go along the content, over the end of the ring. -/
theorem readLoop_run (h : p.Wf) {n : Nat} (hn : n ≤ p.used) :
    readLoop n p = (.ok (p.inFlight.take n), p.dropped n) ∧ (p.dropped n).inFlight = p.inFlight.drop n := by
  induction n generalizing p with
  | zero => exact ⟨by rw [dropped_zero h]; rfl, by rw [dropped_zero h, List.drop_zero]⟩
  | succ n ih =>
      have hused : 1 ≤ p.used := by omega
      obtain ⟨hrun, hrest⟩ := ih (h.dropped hused) (show n ≤ p.used - 1 by omega)
      rw [dropped_dropped, Nat.add_comm 1 n] at hrun hrest
      have hcell : pipeAt p.readPos = .ok ⟨p.readPos, h.readPos⟩ := dif_pos h.readPos
      constructor
      · rw [readLoop, Act.get_bind_run, hcell, Act.lift_ok_bind_run, subU64_of_le hused, Act.lift_ok_bind_run,
          Act.modify_bind_run]
        refine (Act.bind_ok_run hrun).trans ?_
        rw [inFlight_cons h (by omega), List.take_succ_cons]
        rfl
      · rw [hrest, inFlight_cons h (by omega), List.drop_succ_cons]

/-- The pipe with one more byte. -/
def pushed (p : Pipe) (b : UInt8) : Pipe :=
  { p with
    data := Function.update p.data (Fin.ofNat pipeBuf (p.readPos + p.used)) b
    writePos := (p.writePos + 1) % pipeBuf
    used := p.used + 1 }

theorem Wf.pushed (h : p.Wf) (hroom : p.used < pipeBuf) (b : UInt8) : (p.pushed b).Wf where
  readPos := h.readPos
  used := hroom
  writePos := by
    show (p.writePos + 1) % pipeBuf = (p.readPos + (p.used + 1)) % pipeBuf
    rw [h.writePos, Nat.mod_add_mod, Nat.add_assoc]

theorem inFlight_pushed (hroom : p.used < pipeBuf) (b : UInt8) : (p.pushed b).inFlight = p.inFlight ++ [b] :=
  Ring.toList_append _ _ _ _ hroom

theorem writeCell (h : p.Wf) : pipeAt p.writePos = .ok (Fin.ofNat pipeBuf (p.readPos + p.used)) := by
  have hlt : p.writePos < pipeBuf := h.writePos ▸ Nat.mod_lt _ (by decide)
  rw [pipeAt, dif_pos hlt]
  exact congrArg _ (Fin.ext h.writePos)

theorem addUsed (hroom : p.used < pipeBuf) : (addU64 p.used 1 : Outcome Spins Nat) = .ok (p.used + 1) :=
  addU64_of_lt (Nat.lt_of_le_of_lt hroom (by decide))

theorem writeLoop_cons (h : p.Wf) (hroom : p.used < pipeBuf) (b : UInt8) (rest : Bytes) :
    writeLoop (b :: rest) p = writeLoop rest (p.pushed b) := by
  rw [writeLoop, Act.get_bind_run, writeCell h, Act.lift_ok_bind_run, addUsed hroom, Act.lift_ok_bind_run,
    Act.modify_bind_run]
  rfl

/-- The writes of the loop append to the content. -/
theorem writeLoop_run (h : p.Wf) {bytes : Bytes} (hfits : p.used + bytes.length ≤ pipeBuf) :
    ∃ data writePos, writeLoop bytes p = (.ok (), { p with data, writePos, used := p.used + bytes.length }) ∧
      ({ p with data, writePos, used := p.used + bytes.length } : Pipe).Wf ∧
      ({ p with data, writePos, used := p.used + bytes.length } : Pipe).inFlight = p.inFlight ++ bytes := by
  induction bytes generalizing p with
  | nil => exact ⟨p.data, p.writePos, rfl, h, (List.append_nil _).symm⟩
  | cons b rest ih =>
      rw [List.length_cons] at hfits
      have hroom : p.used < pipeBuf := by omega
      obtain ⟨data, writePos, hrun, hwf, hrest⟩ := ih (h.pushed hroom b) (show p.used + 1 + rest.length ≤ pipeBuf by omega)
      have hlength : (p.pushed b).used + rest.length = p.used + (b :: rest).length := by
        rw [List.length_cons, Nat.add_comm rest.length 1, ← Nat.add_assoc]
        rfl
      rw [hlength] at hrun hwf hrest
      refine ⟨data, writePos, (writeLoop_cons h hroom b rest).trans hrun, hwf, hrest.trans ?_⟩
      rw [inFlight_pushed hroom, List.append_assoc, List.singleton_append]

/-! ### One call -/

theorem read_empty (hused : p.used = 0) (buf : Bytes) :
    p.read buf = (.ok (if p.writeClosed then 0 else -11, buf), p) := by
  rw [read, Act.get_bind_run, if_pos hused]
  rfl

theorem read_run (h : p.Wf) (hused : p.used ≠ 0) (buf : Bytes) :
    let n := min buf.length p.used
    p.read buf = (.ok ((n : Int), p.inFlight.take n ++ buf.drop n), { p.dropped n with waitWriters := false }) := by
  intro n
  have hn : n < i64Bound := Nat.lt_of_le_of_lt (Nat.le_trans (Nat.min_le_right _ _) h.used) (by decide)
  obtain ⟨hrun, -⟩ := readLoop_run h (Nat.min_le_right buf.length p.used)
  have hcount : (castI64 n : Outcome Spins Int) = .ok (n : Int) := if_pos hn
  rw [read, Act.get_bind_run, if_neg hused, Act.bind_ok_run hrun, Act.modify_bind_run, hcount]
  rfl

theorem write_closed (hclosed : p.readClosed = true) (data : Bytes) : p.write data = (.ok (-32), p) := by
  rw [write, Act.get_bind_run, if_pos hclosed]
  rfl

/-- The bytes of the data that fit. -/
def room (p : Pipe) (data : Bytes) : Nat := min data.length (pipeBuf - p.used)

theorem write_open (h : p.Wf) (hopen : p.readClosed = false) (data : Bytes) :
    p.write data =
      (if p.room data = 0 then pure (-11)
      else do
        writeLoop (data.take (p.room data))
        Act.modify fun p => { p with waitReaders := true }
        Act.lift (castI64 (p.room data)) : Act Pipe Spins Int) p := by
  rw [write, Act.get_bind_run, if_neg (by rw [hopen]; nofun), subU64_of_le h.used, Act.lift_ok_bind_run]
  rfl

theorem write_full (h : p.Wf) (hopen : p.readClosed = false) {data : Bytes} (hroom : p.room data = 0) :
    p.write data = (.ok (-11), p) := by
  rw [write_open h hopen, if_pos hroom]
  rfl

theorem write_run (h : p.Wf) (hopen : p.readClosed = false) {data : Bytes} (hroom : p.room data ≠ 0) :
    ∃ p', p.write data = (.ok (p.room data : Int), p') ∧ p'.Wf ∧ p'.inFlight = p.inFlight ++ data.take (p.room data) ∧
      p'.readClosed = false ∧ p'.writeClosed = p.writeClosed := by
  have hle : p.room data ≤ pipeBuf - p.used := Nat.min_le_right _ _
  have hlength : (data.take (p.room data)).length = p.room data := by
    rw [List.length_take]
    exact Nat.min_eq_left (Nat.min_le_left _ _)
  have hfits : p.used + (data.take (p.room data)).length ≤ pipeBuf := by
    rw [hlength]
    have hused := h.used
    omega
  have hcount : (castI64 (p.room data) : Outcome Spins Int) = .ok (p.room data : Int) := by
    refine if_pos (Nat.lt_of_le_of_lt (Nat.le_trans hle (Nat.sub_le _ _)) (by decide))
  obtain ⟨cells, writePos, hrun, hwf, hcontent⟩ := writeLoop_run h hfits
  refine ⟨{ p with data := cells, writePos, used := p.used + (data.take (p.room data)).length, waitReaders := true }, ?_,
    ⟨hwf.readPos, hwf.used, hwf.writePos⟩, hcontent, hopen, rfl⟩
  rw [write_open h hopen, if_neg hroom, Act.bind_ok_run hrun, Act.modify_bind_run, hcount]
  rfl

/-! ### Runs -/

/-- A call with what it returned; `read` returned its buffer too. -/
inductive Event where
  | read (buf : Bytes) (reply : Outcome Spins (Int × Bytes))
  | write (data : Bytes) (reply : Outcome Spins Int)
  | close (isReadEnd : Bool)

inductive Step (p : Pipe) : Event → Pipe → Prop where
  | read (buf : Bytes) : Step p (.read buf (p.read buf).1) (p.read buf).2
  | write (data : Bytes) : Step p (.write data (p.write data).1) (p.write data).2
  | close (isReadEnd : Bool) : Step p (.close isReadEnd) (p.close isReadEnd)

/-- The bytes that a read has put into its buffer. -/
def Event.returned : Event → Bytes
  | .read _ (.ok (n, buf)) => buf.take n.toNat
  | _ => []

/-- The bytes that a write has taken. -/
def Event.accepted : Event → Bytes
  | .write data (.ok n) => data.take n.toNat
  | _ => []

@[simp] theorem Event.accepted_read (buf : Bytes) (reply : Outcome Spins (Int × Bytes)) :
    (Event.read buf reply).accepted = [] := rfl

@[simp] theorem Event.returned_write (data : Bytes) (reply : Outcome Spins Int) : (Event.write data reply).returned = [] := rfl

/-- The calls so far, and the pipe they lead to. -/
structure Fifo (trace : List Event) (p : Pipe) : Prop where
  wf : p.Wf
  bytes : trace.flatMap Event.returned ++ p.inFlight = trace.flatMap Event.accepted
  readClosed : p.readClosed = true ↔ .close true ∈ trace
  writeClosed : p.writeClosed = true ↔ .close false ∈ trace

/-- A call that closes nothing, with the bytes that it moves. -/
theorem Fifo.call {trace : List Event} {p' : Pipe} {event : Event} (h : Fifo trace p) (hevent : ∀ b, event ≠ .close b)
    (hwf : p'.Wf) (hbytes : p.inFlight ++ event.accepted = event.returned ++ p'.inFlight)
    (hread : p'.readClosed = p.readClosed) (hwrite : p'.writeClosed = p.writeClosed) : Fifo (trace ++ [event]) p' where
  wf := hwf
  bytes := by
    rw [List.flatMap_append, List.flatMap_append, List.flatMap_singleton, List.flatMap_singleton, List.append_assoc,
      ← hbytes, ← List.append_assoc, h.bytes]
  readClosed := by
    rw [hread, h.readClosed, List.mem_append, List.mem_singleton]
    exact (or_iff_left (hevent true).symm).symm
  writeClosed := by
    rw [hwrite, h.writeClosed, List.mem_append, List.mem_singleton]
    exact (or_iff_left (hevent false).symm).symm

theorem Fifo.step {trace : List Event} {p' : Pipe} {event : Event} (h : Fifo trace p) (hstep : Step p event p') :
    Fifo (trace ++ [event]) p' := by
  cases hstep with
  | read buf =>
      by_cases hused : p.used = 0
      · rw [read_empty hused]
        refine h.call (by nofun) h.wf ?_ rfl rfl
        have hnothing : buf.take (if p.writeClosed then (0 : Int) else -11).toNat = [] := by
          cases p.writeClosed <;> rfl
        rw [Event.accepted_read, List.append_nil, Event.returned, hnothing]
        rfl
      · obtain ⟨-, hrest⟩ := readLoop_run h.wf (Nat.min_le_right buf.length p.used)
        have hwf := h.wf.dropped (Nat.min_le_right buf.length p.used)
        rw [read_run h.wf hused]
        refine h.call (by nofun) ⟨hwf.readPos, hwf.used, hwf.writePos⟩ ?_ rfl rfl
        have hlength : (p.inFlight.take (min buf.length p.used)).length = min buf.length p.used := by
          rw [List.length_take, inFlight_length, Nat.min_eq_left (Nat.min_le_right _ _)]
        rw [Event.accepted_read, List.append_nil, Event.returned, Int.toNat_natCast, List.take_left' hlength]
        exact (congrArg _ hrest).trans (List.take_append_drop _ _) |>.symm
  | write data =>
      cases hopen : p.readClosed with
      | true =>
          rw [write_closed hopen]
          exact h.call (by nofun) h.wf (by rw [Event.returned_write]; exact List.append_nil _) rfl rfl
      | false =>
          by_cases hroom : p.room data = 0
          · rw [write_full h.wf hopen hroom]
            exact h.call (by nofun) h.wf (by rw [Event.returned_write]; exact List.append_nil _) rfl rfl
          · obtain ⟨p', hrun, hwf, hcontent, hread, hwrite⟩ := write_run h.wf hopen hroom
            rw [hrun]
            refine h.call (by nofun) hwf ?_ (hread.trans hopen.symm) hwrite
            rw [Event.returned_write, List.nil_append, Event.accepted, Int.toNat_natCast, hcontent]
  | close isReadEnd =>
      have hbytes : (trace ++ [Event.close isReadEnd]).flatMap Event.returned ++ p.inFlight =
          (trace ++ [Event.close isReadEnd]).flatMap Event.accepted := by
        rw [List.flatMap_append, List.flatMap_append, List.flatMap_singleton, List.flatMap_singleton]
        exact (congrArg (· ++ p.inFlight) (List.append_nil _)).trans (h.bytes.trans (List.append_nil _).symm)
      have hmem (b : Bool) : Event.close b ∈ trace ++ [Event.close isReadEnd] ↔ .close b ∈ trace ∨ b = isReadEnd := by
        rw [List.mem_append, List.mem_singleton, Event.close.injEq]
      cases isReadEnd with
      | true =>
          refine ⟨⟨h.wf.readPos, h.wf.used, h.wf.writePos⟩, hbytes, ?_, ?_⟩
          · exact iff_of_true rfl ((hmem true).mpr (Or.inr rfl))
          · rw [hmem, or_iff_left (by nofun)]
            exact h.writeClosed
      | false =>
          refine ⟨⟨h.wf.readPos, h.wf.used, h.wf.writePos⟩, hbytes, ?_, ?_⟩
          · rw [hmem, or_iff_left (by nofun)]
            exact h.readClosed
          · exact iff_of_true rfl ((hmem false).mpr (Or.inr rfl))

theorem run_fifo {trace : List Event} (hrun : Runs.Run Step {} trace p) : Fifo trace p :=
  hrun.history ⟨wf_init, rfl, by simp, by simp⟩ fun _ _ _ _ _ h hstep => h.step hstep

/-- A read of a buffer returns nothing only where nothing is to come. -/
theorem Fifo.read_zero {trace : List Event} (h : Fifo trace p) (buf : Bytes) :
    ∃ n buf', (p.read buf).1 = .ok (n, buf') ∧ (buf ≠ [] → n = 0 → .close false ∈ trace ∧ p.used = 0) := by
  by_cases hused : p.used = 0
  · rw [read_empty hused]
    refine ⟨_, _, rfl, fun _ hzero => ⟨h.writeClosed.mp ?_, hused⟩⟩
    by_contra hopen
    rw [if_neg hopen] at hzero
    cases hzero
  · rw [read_run h.wf hused]
    refine ⟨_, _, rfl, fun hbuf hzero => ?_⟩
    have hlength : buf.length ≠ 0 := fun hnil => hbuf (List.length_eq_zero_iff.mp hnil)
    omega

/-- Behind the close of the read end a write takes nothing and changes nothing. -/
theorem Fifo.write_behind_close {trace : List Event} (h : Fifo trace p) (data : Bytes) :
    ∃ n, (p.write data).1 = .ok n ∧ (.close true ∈ trace → n = -32 ∧ (p.write data).2 = p) := by
  cases hclosed : p.readClosed with
  | true =>
      rw [write_closed hclosed]
      exact ⟨-32, rfl, fun _ => ⟨rfl, rfl⟩⟩
  | false =>
      have hopen : .close true ∉ trace := fun hmem => by
        rw [h.readClosed.mpr hmem] at hclosed
        cases hclosed
      by_cases hroom : p.room data = 0
      · rw [write_full h.wf hclosed hroom]
        exact ⟨-11, rfl, fun hmem => absurd hmem hopen⟩
      · obtain ⟨p', hrun, -⟩ := write_run h.wf hclosed hroom
        rw [hrun]
        exact ⟨_, rfl, fun hmem => absurd hmem hopen⟩

theorem poll_pollin (p : Pipe) (events : BitVec 16) (isReadEnd : Bool) :
    p.poll events isReadEnd &&& pollin ≠ 0 ↔ isReadEnd = true ∧ 0 < p.used := by
  rw [poll]
  cases isReadEnd with
  | true =>
      by_cases hused : 0 < p.used
      · cases p.writeClosed <;> simp [hused, pollin, pollhup]
      · cases p.writeClosed <;> simp [hused, pollin, pollhup]
  | false =>
      by_cases hroom : p.used < pipeBuf
      · cases p.readClosed <;> simp [hroom, pollin, pollout, pollerr]
      · cases p.readClosed <;> simp [hroom, pollin, pollerr]

theorem poll_pollout (p : Pipe) (events : BitVec 16) (isReadEnd : Bool) :
    p.poll events isReadEnd &&& pollout ≠ 0 ↔ isReadEnd = false ∧ p.used < pipeBuf := by
  rw [poll]
  cases isReadEnd with
  | true =>
      by_cases hused : 0 < p.used
      · cases p.writeClosed <;> simp [hused, pollin, pollout, pollhup]
      · cases p.writeClosed <;> simp [hused, pollout, pollhup]
  | false =>
      by_cases hroom : p.used < pipeBuf
      · cases p.readClosed <;> simp [hroom, pollout, pollerr]
      · cases p.readClosed <;> simp [hroom, pollout, pollerr]

/-- The ring is a lossless queue. -/
theorem run_lossless {trace : List Event} (hrun : Runs.Run Step {} trace p) :
    trace.flatMap Event.returned ++ p.inFlight = trace.flatMap Event.accepted ∧
      (trace.flatMap Event.returned).length + p.used = (trace.flatMap Event.accepted).length ∧
      p.used ≤ pipeBuf ∧ p.writePos = (p.readPos + p.used) % pipeBuf ∧
      (∀ buf, ∃ n buf', (p.read buf).1 = .ok (n, buf') ∧ (buf ≠ [] → n = 0 → .close false ∈ trace ∧ p.used = 0)) ∧
      (∀ data, ∃ n, (p.write data).1 = .ok n ∧ (.close true ∈ trace → n = -32 ∧ (p.write data).2 = p)) ∧
      ∀ events isReadEnd, (p.poll events isReadEnd &&& pollin ≠ 0 ↔ isReadEnd = true ∧ 0 < p.used) ∧
        (p.poll events isReadEnd &&& pollout ≠ 0 ↔ isReadEnd = false ∧ p.used < pipeBuf) := by
  have h := run_fifo hrun
  refine ⟨h.bytes, ?_, h.wf.used, h.wf.writePos, h.read_zero, h.write_behind_close, fun events isReadEnd => ?_⟩
  · rw [← h.bytes, List.length_append, inFlight_length]
  · exact ⟨poll_pollin p events isReadEnd, poll_pollout p events isReadEnd⟩

/-- The third of three bytes is left behind a read of two. -/
theorem run_lossless_sample :
    let filled := (write [1, 2, 3] {}).2
    (filled.read [0, 0]).2.inFlight = [3] := by
  intro filled
  have hrun := (Runs.Run.refl.snoc (Step.write (p := {}) [1, 2, 3])).snoc (Step.read [0, 0])
  obtain ⟨hbytes, -⟩ := run_lossless hrun
  have hbytes : [1, 2] ++ (filled.read [0, 0]).2.inFlight = [1, 2] ++ [3] := hbytes
  exact List.append_cancel_left hbytes

end Pipe

/-! ### The pipe behind a file -/

/-- The `n` bytes of the user from `buf` on. -/
def userSlice (s : State) (buf n : Nat) : Bytes := (List.range n).map fun i => s.user (buf + i)

theorem userSlice_succ (s : State) (buf n : Nat) : userSlice s buf (n + 1) = s.user buf :: userSlice s (buf + 1) n := by
  rw [userSlice, List.range_succ_eq_map, List.map_cons, List.map_map, userSlice, Nat.add_zero]
  congr 1
  exact List.map_congr_left fun i _ => congrArg s.user (by rw [Nat.succ_eq_add_one]; omega)

theorem userSlice_length (s : State) (buf n : Nat) : (userSlice s buf n).length = n := by
  rw [userSlice, List.length_map, List.length_range]

theorem take_userSlice (s : State) (buf : Nat) {k n : Nat} (h : k ≤ n) : (userSlice s buf n).take k = userSlice s buf k := by
  rw [userSlice, ← List.map_take, List.take_range, Nat.min_eq_left h, userSlice]

/-- The state with another pipe, and other bytes of the user. -/
def piped (s : State) (p : Fin maxPipes) (pipe : Pipe) (user : Nat → UInt8) (trace : List Access) : State :=
  { s with vfs := { s.vfs with pipes := Function.update s.vfs.pipes p pipe }, user, trace }

theorem updatePipe_piped (s : State) (p : Fin maxPipes) (g : Pipe → Pipe) (pipe : Pipe) (user : Nat → UInt8)
    (trace : List Access) : onVfs (updatePipe p g) (piped s p pipe user trace) = (.ok (), piped s p (g pipe) user trace) := by
  have hupdate : (piped s p pipe user trace).vfs.pipes p = pipe := Function.update_self _ _ _
  simp only [onVfs, updatePipe, Act.zoom, Act.modify_run, hupdate]
  simp only [piped, Function.update_idem]

/-- The memory of the user behind a write of bytes. -/
def patched (user : Nat → UInt8) (buf : Nat) (bytes : Bytes) : Nat → UInt8 := fun a =>
  if buf ≤ a ∧ a < buf + bytes.length then bytes.getD (a - buf) 0 else user a

theorem patched_nil (user : Nat → UInt8) (buf : Nat) : patched user buf [] = user := by
  funext a
  exact if_neg (by simp only [List.length_nil]; omega)

theorem patched_cons (user : Nat → UInt8) (buf : Nat) (b : UInt8) (rest : Bytes) :
    patched (patched user buf [b]) (buf + 1) rest = patched user buf (b :: rest) := by
  funext a
  simp only [patched, List.length_cons, List.length_nil]
  by_cases hfirst : a = buf
  · subst hfirst
    rw [if_neg (by omega), if_pos (by omega), if_pos (by omega), Nat.sub_self]
    rfl
  · by_cases hin : buf + 1 ≤ a ∧ a < buf + 1 + rest.length
    · obtain ⟨k, hk⟩ : ∃ k, a - buf = k + 1 := ⟨a - buf - 1, by omega⟩
      rw [if_pos hin, if_pos (by omega), hk, show a - (buf + 1) = k by omega, List.getD_cons_succ]
    · rw [if_neg hin, if_neg (by omega), if_neg (by omega)]

theorem pipeReadLoop_run (p : Fin maxPipes) (buf : Nat) {n : Nat} {s : State} (h : (s.vfs.pipes p).Wf)
    (hn : n ≤ (s.vfs.pipes p).used) :
    ∃ trace, pipeReadLoop p buf n s =
      (.ok (), piped s p ((s.vfs.pipes p).dropped n) (patched s.user buf ((s.vfs.pipes p).inFlight.take n)) trace) := by
  induction n generalizing buf s with
  | zero =>
      refine ⟨s.trace, ?_⟩
      rw [Pipe.dropped_zero h, List.take_zero, patched_nil, piped, Function.update_eq_self]
      rfl
  | succ n ih =>
      have hused : 1 ≤ (s.vfs.pipes p).used := by omega
      have hcell : pipeAt (s.vfs.pipes p).readPos = .ok ⟨(s.vfs.pipes p).readPos, h.readPos⟩ := dif_pos h.readPos
      let byte := (s.vfs.pipes p).data ⟨(s.vfs.pipes p).readPos, h.readPos⟩
      let t := piped s p ((s.vfs.pipes p).dropped 1) (patched s.user buf [byte]) (s.trace ++ accesses true buf 1)
      have ht : t.vfs.pipes p = (s.vfs.pipes p).dropped 1 := Function.update_self _ _ _
      obtain ⟨trace, hrun⟩ := @ih (buf + 1) t (ht ▸ h.dropped hused)
        (by rw [ht]; exact (show n ≤ (s.vfs.pipes p).used - 1 by omega))
      have hpiped (pipe : Pipe) (user : Nat → UInt8) (trace : List Access) : piped t p pipe user trace = piped s p pipe user trace := by
        simp only [t, piped, Function.update_idem]
      rw [ht, Pipe.dropped_dropped, Nat.add_comm 1 n, hpiped] at hrun
      refine ⟨trace, ?_⟩
      rw [pipeReadLoop, Act.get_bind_run, hcell, Act.lift_ok_bind_run, writeUser, Act.modify_bind_run, subU64_of_le hused,
        Act.lift_ok_bind_run, Pipe.inFlight_cons h (by omega), List.take_succ_cons, ← patched_cons]
      exact hrun

theorem pipeWriteLoop_run (p : Fin maxPipes) (buf : Nat) {n : Nat} {s : State} (h : (s.vfs.pipes p).Wf)
    (hfits : (s.vfs.pipes p).used + n ≤ pipeBuf) :
    ∃ trace, pipeWriteLoop p buf n s =
      (.ok (), piped s p (Pipe.writeLoop (userSlice s buf n) (s.vfs.pipes p)).2 s.user trace) := by
  induction n generalizing buf s with
  | zero =>
      have hpipe : (Pipe.writeLoop (userSlice s buf 0) (s.vfs.pipes p)).2 = s.vfs.pipes p := rfl
      refine ⟨s.trace, ?_⟩
      rw [hpipe, piped, Function.update_eq_self]
      rfl
  | succ n ih =>
      have hroom : (s.vfs.pipes p).used < pipeBuf := by omega
      let t := piped s p ((s.vfs.pipes p).pushed (s.user buf)) s.user (s.trace ++ accesses false buf 1)
      have ht : t.vfs.pipes p = (s.vfs.pipes p).pushed (s.user buf) := Function.update_self _ _ _
      obtain ⟨trace, hrun⟩ := @ih (buf + 1) t (ht ▸ h.pushed hroom (s.user buf))
        (by rw [ht]; exact (show (s.vfs.pipes p).used + 1 + n ≤ pipeBuf by omega))
      have hpiped (pipe : Pipe) (user : Nat → UInt8) (trace : List Access) : piped t p pipe user trace = piped s p pipe user trace := by
        simp only [t, piped, Function.update_idem]
      have huser : userSlice t (buf + 1) n = userSlice s (buf + 1) n := rfl
      rw [ht, huser, hpiped] at hrun
      refine ⟨trace, ?_⟩
      have hread : readUser buf 1 s = (.ok [s.user buf], { s with trace := s.trace ++ accesses false buf 1 }) := rfl
      rw [pipeWriteLoop, Act.get_bind_run, Pipe.writeCell h, Act.lift_ok_bind_run, Act.bind_ok_run hread,
        Pipe.addUsed hroom, Act.lift_ok_bind_run, userSlice_succ, Pipe.writeLoop_cons h hroom]
      exact hrun

/-- Bytes of the user that are written back over themselves. -/
theorem patched_keep (s : State) (buf : Nat) {len : Nat} (bytes : Bytes) (h : bytes.length ≤ len) :
    patched s.user buf (bytes ++ (userSlice s buf len).drop bytes.length) = patched s.user buf bytes := by
  funext a
  have hlength : (bytes ++ (userSlice s buf len).drop bytes.length).length = len := by
    rw [List.length_append, List.length_drop, userSlice_length]
    omega
  simp only [patched, hlength]
  by_cases hfirst : buf ≤ a ∧ a < buf + bytes.length
  · rw [if_pos hfirst, if_pos (by omega), List.getD_eq_getElem?_getD, List.getElem?_append_left (by omega),
      ← List.getD_eq_getElem?_getD]
  · rw [if_neg hfirst]
    by_cases hin : buf ≤ a ∧ a < buf + len
    · have hindex : bytes.length + (a - buf - bytes.length) = a - buf := by omega
      rw [if_pos hin, List.getD_eq_getElem?_getD, List.getElem?_append_right (by omega), List.getElem?_drop, hindex,
        userSlice, List.getElem?_map, List.getElem?_range (by omega)]
      exact congrArg s.user (by omega)
    · rw [if_neg hin]

/-- The read of a file is the read of its pipe into the memory of the user. -/
theorem pipeRead_slice (p : Fin maxPipes) {s : State} (h : (s.vfs.pipes p).Wf) (buf len : Nat) :
    ∃ n buf' pipe trace, (s.vfs.pipes p).read (userSlice s buf len) = (.ok (n, buf'), pipe) ∧
      pipeRead p buf len s = (.ok n, piped s p pipe (patched s.user buf buf') trace) := by
  have hlength := userSlice_length s buf len
  by_cases hused : (s.vfs.pipes p).used = 0
  · refine ⟨_, _, _, s.trace, Pipe.read_empty hused _, ?_⟩
    have huser : patched s.user buf (userSlice s buf len) = s.user :=
      (patched_keep s buf [] (Nat.zero_le len)).trans (patched_nil s.user buf)
    rw [pipeRead, Act.get_bind_run, if_pos hused, huser, piped, Function.update_eq_self]
    rfl
  · have hcount : (castI64 (min len (s.vfs.pipes p).used) : Outcome Spins Int) = .ok (min len (s.vfs.pipes p).used : Nat) :=
      if_pos (Nat.lt_of_le_of_lt (Nat.le_trans (Nat.min_le_right _ _) h.used) (by decide))
    have htake : ((s.vfs.pipes p).inFlight.take (min len (s.vfs.pipes p).used)).length = min len (s.vfs.pipes p).used := by
      rw [List.length_take, Pipe.inFlight_length, Nat.min_eq_left (Nat.min_le_right _ _)]
    have huser := patched_keep s buf _ (htake ▸ Nat.min_le_left len (s.vfs.pipes p).used)
    obtain ⟨trace, hrun⟩ := pipeReadLoop_run p buf h (Nat.min_le_right len (s.vfs.pipes p).used)
    have hread := Pipe.read_run h hused (userSlice s buf len)
    rw [hlength] at hread
    refine ⟨_, _, _, trace, hread, ?_⟩
    rw [htake] at huser
    rw [pipeRead, Act.get_bind_run, if_neg hused, Act.bind_ok_run hrun, huser, Act.bind_ok_run (updatePipe_piped s p _ _ _ _),
      hcount]
    rfl

/-- The write of a file is the write of the memory of the user into its pipe. -/
theorem pipeWrite_slice (p : Fin maxPipes) {s : State} (h : (s.vfs.pipes p).Wf) (buf len : Nat) :
    ∃ n pipe trace, (s.vfs.pipes p).write (userSlice s buf len) = (.ok n, pipe) ∧
      pipeWrite p buf len s = (.ok n, piped s p pipe s.user trace) := by
  have hlength := userSlice_length s buf len
  have hsame : s = piped s p (s.vfs.pipes p) s.user s.trace := by rw [piped, Function.update_eq_self]
  cases hopen : (s.vfs.pipes p).readClosed with
  | true =>
      refine ⟨_, _, s.trace, Pipe.write_closed hopen _, ?_⟩
      rw [pipeWrite, Act.get_bind_run, if_pos hopen, ← hsame]
      rfl
  | false =>
      have hbody : pipeWrite p buf len s =
          (if (s.vfs.pipes p).room (userSlice s buf len) = 0 then pure (-11)
          else do
            pipeWriteLoop p buf ((s.vfs.pipes p).room (userSlice s buf len))
            onVfs (updatePipe p fun pipe => { pipe with waitReaders := true })
            Act.lift (castI64 ((s.vfs.pipes p).room (userSlice s buf len))) : Kernel.Run Int) s := by
        rw [pipeWrite, Act.get_bind_run, if_neg (by rw [hopen]; nofun), subU64_of_le h.used, Act.lift_ok_bind_run,
          Pipe.room, hlength]
      by_cases hroom : (s.vfs.pipes p).room (userSlice s buf len) = 0
      · refine ⟨_, _, s.trace, Pipe.write_full h hopen hroom, ?_⟩
        rw [hbody, if_pos hroom, ← hsame]
        rfl
      · have hle : (s.vfs.pipes p).room (userSlice s buf len) ≤ len := (Nat.min_le_left _ _).trans_eq hlength
        have hspace : (s.vfs.pipes p).room (userSlice s buf len) ≤ pipeBuf - (s.vfs.pipes p).used := Nat.min_le_right _ _
        have hfits : (s.vfs.pipes p).used + (s.vfs.pipes p).room (userSlice s buf len) ≤ pipeBuf := by
          have hused := h.used
          omega
        have hcount : (castI64 ((s.vfs.pipes p).room (userSlice s buf len)) : Outcome Spins Int) = .ok _ :=
          if_pos (Nat.lt_of_le_of_lt (Nat.le_trans hspace (Nat.sub_le _ _)) (by decide))
        have htake : (userSlice s buf len).take ((s.vfs.pipes p).room (userSlice s buf len)) =
            userSlice s buf ((s.vfs.pipes p).room (userSlice s buf len)) := take_userSlice s buf hle
        have hslice : Pipe.writeLoop (userSlice s buf ((s.vfs.pipes p).room (userSlice s buf len))) (s.vfs.pipes p) =
            (.ok (), (Pipe.writeLoop (userSlice s buf ((s.vfs.pipes p).room (userSlice s buf len))) (s.vfs.pipes p)).2) := by
          have hlength : (userSlice s buf ((s.vfs.pipes p).room (userSlice s buf len))).length = _ := userSlice_length s buf _
          obtain ⟨data, writePos, hrun, -⟩ := Pipe.writeLoop_run h (hlength ▸ hfits)
          rw [hrun]
        obtain ⟨trace, hrun⟩ := pipeWriteLoop_run p buf h hfits
        have hwrite := Pipe.write_open h hopen (userSlice s buf len)
        rw [if_neg hroom, htake, Act.bind_ok_run hslice, Act.modify_bind_run, hcount] at hwrite
        refine ⟨_, _, trace, hwrite, ?_⟩
        rw [hbody, if_neg hroom, Act.bind_ok_run hrun, Act.bind_ok_run (updatePipe_piped s p _ _ _ _), hcount]
        rfl

end Vfs

end Kernel
