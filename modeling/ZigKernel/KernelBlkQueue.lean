import ZigKernel.LangInt
import ZigKernel.LibRuns
import Mathlib.Data.List.FinRange

/-! `src/drivers/block/blk_queue.zig`: a ring of requests that are passed to a driver one at a time, and the RAM disk
of `virtio_blk.zig` as a driver. A buffer is the number of a sector in the memory of the driver's world. -/

namespace Kernel.BlkQueue

open Zig

def queueDepth : Nat := 16

inductive Op where
  | read | write
  deriving DecidableEq, Repr

/-- The errors of the sector operations. -/
inductive DriverError where
  | notReady | outOfRange
  deriving DecidableEq, Repr

/-- The errors of `submit`. -/
inductive SubmitError where
  | queueFull
  | driver (e : DriverError)
  deriving DecidableEq, Repr

structure Request where
  op : Op
  lba : U32
  done : Bool := false
  err : Option DriverError := none
  deriving DecidableEq, Repr

structure Queue where
  ring : Fin queueDepth → Option Request := fun _ => none
  head : Nat := 0
  tail : Nat := 0
  count : Nat := 0
  completed : Nat := 0

def init : Queue := {}

/-- The sector operations over a world `δ`, which holds the buffers too. -/
structure Driver (δ : Type) where
  readSector : (lba : U32) → (buf : Nat) → δ → Except DriverError Unit × δ
  writeSector : (lba : U32) → (buf : Nat) → δ → Except DriverError Unit × δ

structure Device (δ : Type) where
  queue : Queue
  world : δ

variable {δ : Type}

/-- `switch (op)` -/
def Driver.perform (D : Driver δ) (op : Op) (lba : U32) (buf : Nat) : δ → Except DriverError Unit × δ :=
  match op with
  | .read => D.readSector lba buf
  | .write => D.writeSector lba buf

/-- `&ring[slot]` -/
def ringAt (slot : Nat) : Outcome SubmitError (Fin queueDepth) := if h : slot < queueDepth then .ok ⟨slot, h⟩ else .trap

def Queue.setRequest (q : Queue) (slot : Fin queueDepth) (request : Request) : Queue :=
  { q with ring := Function.update q.ring slot (some request) }

/-- `req.done = true`, with the error if there is one, and `completed += 1`. -/
def complete (slot : Fin queueDepth) (request : Request) : Act (Device δ) SubmitError Unit := do
  let s ← Act.get
  let completed ← Act.lift (addU64 s.queue.completed 1)
  Act.modify fun s => { s with queue := { s.queue.setRequest slot { request with done := true } with completed } }

def submit (D : Driver δ) (op : Op) (lba : U32) (buf : Nat) : Act (Device δ) SubmitError Nat := do
  let s ← Act.get
  if s.queue.count ≥ queueDepth then Act.fail .queueFull
  else do
    let slot ← Act.lift (ringAt s.queue.tail)
    let request : Request := { op, lba }
    let count ← Act.lift (addU64 s.queue.count 1)
    Act.modify fun s =>
      { s with queue := { s.queue.setRequest slot request with tail := (s.queue.tail + 1) % queueDepth, count } }
    let s ← Act.get
    let (result, world) := D.perform op lba buf s.world
    Act.modify fun s => { s with world }
    match result with
    | .error e => do
        complete slot { request with err := some e }
        Act.fail (.driver e)
    | .ok () => do
        complete slot request
        pure slot.val

def Queue.pending (q : Queue) : Outcome SubmitError Nat := subU64 q.count q.completed

/-! ### The RAM disk -/

namespace VirtioBlk

def sectorCount : Nat := 64

abbrev Sector := Fin 512 → UInt8

structure World where
  diskImage : Fin sectorCount → Sector
  ready : Bool := false
  buffers : Nat → Sector

def init (w : World) : World := { w with ready := true }

def readSector (lba : U32) (out : Nat) (w : World) : Except DriverError Unit × World :=
  if ¬w.ready then (.error .notReady, w)
  else if h : lba.val < sectorCount then
    (.ok (), { w with buffers := Function.update w.buffers out (w.diskImage ⟨lba, h⟩) })
  else (.error .outOfRange, w)

def writeSector (lba : U32) (data : Nat) (w : World) : Except DriverError Unit × World :=
  if ¬w.ready then (.error .notReady, w)
  else if h : lba.val < sectorCount then
    (.ok (), { w with diskImage := Function.update w.diskImage ⟨lba, h⟩ (w.buffers data) })
  else (.error .outOfRange, w)

def driver : Driver World where
  readSector := readSector
  writeSector := writeSector

end VirtioBlk

/-! ### Runs -/

/-- A call of a sector operation, and its result. -/
structure DriverCall where
  op : Op
  lba : U32
  buf : Nat
  result : Except DriverError Unit

/-- The same driver, with a record of its calls. -/
def Driver.watched (D : Driver δ) : Driver (δ × List DriverCall) where
  readSector lba buf w :=
    ((D.readSector lba buf w.1).1,
      ((D.readSector lba buf w.1).2, w.2 ++ [{ op := .read, lba, buf, result := (D.readSector lba buf w.1).1 }]))
  writeSector lba buf w :=
    ((D.writeSector lba buf w.1).1,
      ((D.writeSector lba buf w.1).2, w.2 ++ [{ op := .write, lba, buf, result := (D.writeSector lba buf w.1).1 }]))

/-- A submission, the calls it made of the driver, and what it returned. -/
structure Event where
  op : Op
  lba : U32
  buf : Nat
  calls : List DriverCall
  reply : Outcome SubmitError Nat

/-- Submits a request with the driver's calls on record. -/
def record (D : Driver δ) (s : Device δ) (op : Op) (lba : U32) (buf : Nat) : Event × Device δ :=
  let r := submit D.watched op lba buf { queue := s.queue, world := (s.world, []) }
  ({ op, lba, buf, calls := r.2.world.2, reply := r.1 }, { queue := r.2.queue, world := r.2.world.1 })

inductive Step (D : Driver δ) (s : Device δ) : Event → Device δ → Prop where
  | submit (op : Op) (lba : U32) (buf : Nat) : Step D s (record D s op lba buf).1 (record D s op lba buf).2

/-- The slot holds a request that has not completed. -/
def Queue.Live (q : Queue) (i : Fin queueDepth) : Prop := ∃ request, q.ring i = some request ∧ request.done = false

/-- The requests that have not completed. -/
def Queue.unfinished (q : Queue) : Nat :=
  (List.finRange queueDepth).countP fun i => (q.ring i).any fun request => !request.done

/-- What a caller gets for the driver's result. -/
def replyOf (slot : Nat) : Except DriverError Unit → Outcome SubmitError Nat
  | .ok () => .ok slot
  | .error e => .error (.driver e)

/-- The submission is turned away only where the ring is full of requests that have not completed; else the driver gets
it once and answers it. The count of pending requests is right, and no live slot is written. -/
structure Lawful (s : Device δ) (e : Event) (t : Device δ) : Prop where
  full : e.reply = .error .queueFull → s.queue.pending = .ok queueDepth
  passed : e.reply ≠ .error .queueFull →
    ∃ result, e.calls = [{ op := e.op, lba := e.lba, buf := e.buf, result }] ∧ e.reply = replyOf s.queue.tail result
  pending : t.queue.pending = .ok t.queue.unfinished
  kept : ∀ i, s.queue.Live i → t.queue.ring i = s.queue.ring i

/-! ### One submission -/

/-- Between submissions every request has completed. -/
structure Idle (q : Queue) : Prop where
  tail : q.tail < queueDepth
  count : q.count ≤ queueDepth
  completed : q.completed = q.count
  done : ∀ i request, q.ring i = some request → request.done = true

theorem idle_init : Idle init := ⟨by decide, by decide, rfl, nofun⟩

variable {D : Driver δ} {s : Device δ}

theorem Idle.not_live (h : Idle s.queue) (i : Fin queueDepth) : ¬s.queue.Live i := by
  rintro ⟨request, hring, hdone⟩
  rw [h.done i request hring] at hdone
  cases hdone

theorem Idle.unfinished {q : Queue} (h : Idle q) : q.unfinished = 0 := by
  refine List.countP_eq_zero.mpr fun i _ => ?_
  cases hring : q.ring i with
  | none => simp
  | some request => simp [h.done i request hring]

theorem Idle.pending {q : Queue} (h : Idle q) : q.pending = .ok 0 := by
  rw [Queue.pending, h.completed, subU64_of_le (Nat.le_refl _), Nat.sub_self]

/-- A request that is answered, in its slot. -/
def answered (op : Op) (lba : U32) (result : Except DriverError Unit) : Request :=
  { op, lba, done := true, err := match result with | .error e => some e | .ok () => none }

/-- The queue behind a submission that was not turned away. -/
def Queue.served (q : Queue) (slot : Fin queueDepth) (request : Request) : Queue :=
  { q.setRequest slot request with
    tail := (q.tail + 1) % queueDepth, count := q.count + 1, completed := q.completed + 1 }

theorem submit_full (h : queueDepth ≤ s.queue.count) (op : Op) (lba : U32) (buf : Nat) :
    submit D op lba buf s = (.error .queueFull, s) := by
  rw [submit, Act.get_bind_run, if_pos h]
  rfl

theorem complete_run (slot : Fin queueDepth) (request : Request) (h : s.queue.completed + 1 < u64Bound) :
    complete slot request s =
      (.ok (),
        { s with
          queue := { s.queue.setRequest slot { request with done := true } with completed := s.queue.completed + 1 } }) := by
  rw [complete, Act.get_bind_run, addU64_of_lt h]
  rfl

theorem submit_run (h : Idle s.queue) (hroom : s.queue.count < queueDepth) (op : Op) (lba : U32) (buf : Nat) :
    submit D op lba buf s =
      (replyOf s.queue.tail (D.perform op lba buf s.world).1,
        { queue := s.queue.served ⟨s.queue.tail, h.tail⟩ (answered op lba (D.perform op lba buf s.world).1)
          world := (D.perform op lba buf s.world).2 }) := by
  have hslot : ringAt s.queue.tail = .ok ⟨s.queue.tail, h.tail⟩ := dif_pos h.tail
  have hbound : s.queue.count + 1 < u64Bound := Nat.lt_of_le_of_lt hroom (by decide)
  have hcompleted : s.queue.completed + 1 < u64Bound := h.completed ▸ hbound
  rw [submit, Act.get_bind_run, if_neg (Nat.not_le.mpr hroom), hslot, Act.lift_ok_bind_run, addU64_of_lt hbound,
    Act.lift_ok_bind_run]
  simp only [Act.modify_bind_run, Act.get_bind_run]
  rcases D.perform op lba buf s.world with ⟨e | ⟨⟩, world⟩
  · dsimp only
    refine (Act.bind_ok_run (complete_run _ _ ?_)).trans ?_
    · exact hcompleted
    · simp only [Queue.setRequest, Function.update_idem]
      rfl
  · dsimp only
    refine (Act.bind_ok_run (complete_run _ _ ?_)).trans ?_
    · exact hcompleted
    · simp only [Queue.setRequest, Function.update_idem]
      rfl

theorem Idle.served {q : Queue} (h : Idle q) (hroom : q.count < queueDepth) {slot : Fin queueDepth} {request : Request}
    (hdone : request.done = true) : Idle (q.served slot request) where
  tail := Nat.mod_lt _ (by decide)
  count := hroom
  completed := congrArg (· + 1) h.completed
  done i r hring := by
    have hring : Function.update q.ring slot (some request) i = some r := hring
    by_cases hi : i = slot
    · rw [hi, Function.update_self] at hring
      cases hring
      exact hdone
    · rw [Function.update_of_ne hi] at hring
      exact h.done i r hring

theorem watched_perform (op : Op) (lba : U32) (buf : Nat) (w : δ) :
    D.watched.perform op lba buf (w, []) =
      ((D.perform op lba buf w).1, ((D.perform op lba buf w).2, [{ op, lba, buf, result := (D.perform op lba buf w).1 }])) := by
  cases op <;> rfl

/-- A submission that finds room is served, and the queue is idle again. -/
theorem record_room (h : Idle s.queue) (hroom : s.queue.count < queueDepth) (op : Op) (lba : U32) (buf : Nat) :
    Lawful s (record D s op lba buf).1 (record D s op lba buf).2 ∧ Idle (record D s op lba buf).2.queue ∧
      (record D s op lba buf).2.queue.count = s.queue.count + 1 := by
  have hserved : Idle (s.queue.served ⟨s.queue.tail, h.tail⟩ (answered op lba (D.perform op lba buf s.world).1)) :=
    h.served hroom rfl
  have hrun := submit_run (D := D.watched) (s := { queue := s.queue, world := (s.world, []) }) h hroom op lba buf
  rw [watched_perform] at hrun
  rw [record, hrun]
  refine ⟨⟨fun hfull => ?_, fun _ => ⟨_, rfl, rfl⟩, ?_, fun i hlive => absurd hlive (h.not_live i)⟩, hserved, rfl⟩
  · -- the driver has no such error
    rcases hresult : (D.perform op lba buf s.world).1 with e | ⟨⟩ <;> simp [hresult, replyOf] at hfull
  · exact hserved.pending.trans (congrArg _ hserved.unfinished.symm)

theorem record_full (h : Idle s.queue) (hfull : queueDepth ≤ s.queue.count) (op : Op) (lba : U32) (buf : Nat) :
    ¬Lawful s (record D s op lba buf).1 (record D s op lba buf).2 := by
  intro hlawful
  have hrun := submit_full (D := D.watched) (s := { queue := s.queue, world := (s.world, []) }) hfull op lba buf
  have hreply : (record D s op lba buf).1.reply = .error .queueFull := by rw [record, hrun]
  have hpending := hlawful.full hreply
  rw [h.pending] at hpending
  exact absurd (Outcome.ok.inj hpending) (by decide)

/-- The queue serves exactly as many submissions as it has slots. -/
theorem run_lawful_iff (D : Driver δ) (world : δ) (trace : List Event) (t : Device δ) :
    Runs.Run (fun s e t => Step D s e t ∧ Lawful s e t) { queue := init, world } trace t ↔
      Runs.Run (Step D) { queue := init, world } trace t ∧ trace.length ≤ queueDepth := by
  constructor
  · intro hrun
    have hgood : Runs.Run (Step D) { queue := init, world } trace t ∧ Idle t.queue ∧ t.queue.count = trace.length := by
      induction hrun with
      | refl => exact ⟨.refl, idle_init, rfl⟩
      | snoc _ hstep ih =>
          obtain ⟨hrun, hidle, hcount⟩ := ih
          obtain ⟨⟨op, lba, buf⟩, hlawful⟩ := hstep
          have hroom := Nat.lt_of_not_le fun hfull => record_full hidle hfull op lba buf hlawful
          obtain ⟨-, hidle', hcount'⟩ := record_room (D := D) hidle hroom op lba buf
          refine ⟨hrun.snoc (.submit op lba buf), hidle', ?_⟩
          rw [hcount', hcount, List.length_append, List.length_singleton]
    exact ⟨hgood.1, hgood.2.2 ▸ hgood.2.1.count⟩
  · rintro ⟨hrun, hlength⟩
    have hgood : Runs.Run (fun s e t => Step D s e t ∧ Lawful s e t) { queue := init, world } trace t ∧ Idle t.queue ∧
        t.queue.count = trace.length := by
      induction hrun with
      | refl => exact ⟨.refl, idle_init, rfl⟩
      | snoc _ hstep ih =>
          rw [List.length_append, List.length_singleton] at hlength
          obtain ⟨hrun, hidle, hcount⟩ := ih (by omega)
          obtain ⟨op, lba, buf⟩ := hstep
          obtain ⟨hlawful, hidle', hcount'⟩ := record_room (D := D) hidle (by omega) op lba buf
          refine ⟨hrun.snoc ⟨.submit op lba buf, hlawful⟩, hidle', ?_⟩
          rw [hcount', hcount, List.length_append, List.length_singleton]
    exact hgood.1

/-- The RAM disk, ready. -/
def readyDisk : VirtioBlk.World := VirtioBlk.init { diskImage := fun _ _ => 0, buffers := fun _ _ => 0 }

/-- So many reads of sector 2, one after the other. -/
def reads : Nat → List Event × Device VirtioBlk.World
  | 0 => ([], { queue := init, world := readyDisk })
  | n + 1 =>
      let r := record VirtioBlk.driver (reads n).2 .read 2 0
      ((reads n).1 ++ [r.1], r.2)

theorem reads_run (n : Nat) :
    Runs.Run (Step VirtioBlk.driver) { queue := init, world := readyDisk } (reads n).1 (reads n).2 := by
  induction n with
  | zero => exact .refl
  | succ n ih => exact ih.snoc (.submit .read 2 0)

/-- All reads have completed, and the next one is turned away. -/
theorem completed_reads_fill_queue :
    Runs.Run (Step VirtioBlk.driver) { queue := init, world := readyDisk } (reads 16).1 (reads 16).2 ∧
      (record VirtioBlk.driver (reads 16).2 .read 2 0).1.reply = .error .queueFull ∧
      (reads 16).2.queue.pending = .ok 0 :=
  ⟨reads_run 16, by decide +kernel, by decide +kernel⟩

end Kernel.BlkQueue
