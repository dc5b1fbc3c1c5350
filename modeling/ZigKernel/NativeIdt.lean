import ZigKernel.LangInt

/-! `src/arch/x86_64/native/idt.zig`: the dispatch of traps with its one-shot recovery. The variables of the file are one
state. The atomic variables are read and written as a whole; there is one processor. -/

namespace Native

open Zig

namespace Idt

def vecDf : Nat := 8
def vecPf : Nat := 14
def vecIrq0 : Nat := 32

/-- The fields of a frame that the dispatcher reads or writes. -/
structure TrapFrame where
  vector : Nat
  errorCode : Nat
  rip : Nat
  deriving DecidableEq

structure ObservedTrap where
  vector : Nat := 0xFF
  errorCode : Nat := 0
  rip : Nat := 0
  cr2 : Nat := 0
  generation : Nat := 0
  deriving DecidableEq

structure Expect where
  vector : Nat
  faultRip : Nat
  resumeRip : Nat
  cr2 : Nat := 0
  matchCr2 : Bool := false
  errorCode : Nat := 0
  deriving DecidableEq

structure Armed where
  active : Nat := 0
  vector : Nat := 0
  faultRip : Nat := 0
  resumeRip : Nat := 0
  cr2 : Nat := 0
  matchCr2 : Bool := false
  errorCode : Nat := 0
  generation : Nat := 0
  deriving DecidableEq

/-- A call of `hang`, with what is printed in front of it. -/
inductive Hang where
  | dispatcherDfSet
  | doubleFault (errorCode rip : Nat)
  | uncontrolled (vector errorCode rip cr2 : Nat)
  deriving DecidableEq

end Idt

/-- The variables of the dispatch. -/
structure Idt where
  armed : Idt.Armed := {}
  lastObs : Idt.ObservedTrap := {}
  lastValid : Nat := 0
  generation : Nat := 0
  timerTicks : Nat := 0
  deriving DecidableEq

namespace Idt

abbrev Run (α : Type) := Act Idt Hang α

def eventMatches (isArmed : Bool) (expVec expRip : Nat) (matchCr2 : Bool) (expCr2 expErr vec rip cr2 err : Nat) : Bool :=
  if ¬isArmed then false
  else if vec ≠ expVec then false
  else if rip ≠ expRip then false
  else if matchCr2 ∧ cr2 ≠ expCr2 then false
  else if err ≠ expErr then false
  else true

/-- `generation.fetchAdd(1, .monotonic)`, which wraps. -/
def fetchGeneration : Run Nat := do
  let s ← Act.get
  Act.modify fun s => { s with generation := wrapAddU64 s.generation 1 }
  pure s.generation

def arm (expect : Expect) : Run Nat := do
  Act.modify fun s => { s with lastValid := 0 }
  let old ← fetchGeneration
  let gen ← Act.lift (addU64 old 1)
  Act.modify fun s => { s with armed := { s.armed with
    vector := expect.vector, faultRip := expect.faultRip, resumeRip := expect.resumeRip, cr2 := expect.cr2
    matchCr2 := expect.matchCr2, errorCode := expect.errorCode, generation := gen } }
  Act.modify fun s => { s with armed := { s.armed with active := 1 } }
  pure gen

def disarm : Run Unit := Act.modify fun s => { s with armed := { s.armed with active := 0 } }

def takeRecord : Run (Option ObservedTrap) := do
  let s ← Act.get
  if s.lastValid ≠ 1 then pure none
  else do
    Act.modify fun s => { s with lastValid := 0 }
    pure (some s.lastObs)

/-- `@intCast` to a `u8`. -/
def castU8 (a : Nat) : Outcome Hang Nat := if a < 256 then .ok a else .trap

/-- `zkTrapDispatch`, with the flags register and CR2 as they are read. -/
def zkTrapDispatch (rflags cr2Register : Nat) (frame : TrapFrame) : Run TrapFrame :=
  if rflags &&& 0x400 ≠ 0 then Act.fail .dispatcherDfSet
  else do
    let vec ← Act.lift (castU8 frame.vector)
    if vec = vecIrq0 then do
      Act.modify fun s => { s with timerTicks := wrapAddU64 s.timerTicks 1 }
      pure frame
    else do
      let cr2 := if vec = vecPf then cr2Register else 0
      let s ← Act.get
      let isArmed := decide (s.armed.active = 1)
      if eventMatches isArmed s.armed.vector s.armed.faultRip s.armed.matchCr2 s.armed.cr2 s.armed.errorCode vec frame.rip
          cr2 frame.errorCode then do
        Act.modify fun s => { s with lastObs :=
          { vector := vec, errorCode := frame.errorCode, rip := frame.rip, cr2, generation := s.armed.generation } }
        Act.modify fun s => { s with lastValid := 1 }
        Act.modify fun s => { s with armed := { s.armed with active := 0 } }
        pure { frame with rip := s.armed.resumeRip }
      else if vec = vecDf then Act.fail (.doubleFault frame.errorCode frame.rip)
      else Act.fail (.uncontrolled vec frame.errorCode frame.rip cr2)

/-- `zkTrapCommon`: `cld`, the dispatch, and `iretq` to the address of the frame. -/
def zkTrapCommon (rflags cr2Register : Nat) (frame : TrapFrame) : Run Nat := do
  let frame ← zkTrapDispatch (rflags &&& notU64 0x400) cr2Register frame
  pure frame.rip

/-! ### What each call does -/

variable {s : Idt}

/-- The expectation as it is armed. -/
def Expect.armed (x : Expect) (gen : Nat) : Armed where
  active := 1
  vector := x.vector
  faultRip := x.faultRip
  resumeRip := x.resumeRip
  cr2 := x.cr2
  matchCr2 := x.matchCr2
  errorCode := x.errorCode
  generation := gen

theorem arm_run (x : Expect) (h : s.generation + 1 < u64Bound) : arm x s =
    (.ok (s.generation + 1), { s with lastValid := 0, generation := s.generation + 1, armed := x.armed (s.generation + 1) }) := by
  have hwrap : wrapAddU64 s.generation 1 = s.generation + 1 := Nat.mod_eq_of_lt h
  calc arm x s = (.ok (s.generation + 1), { s with
        lastValid := 0, generation := wrapAddU64 s.generation 1, armed := x.armed (s.generation + 1) }) := by
        rw [arm, Act.modify_bind_run, fetchGeneration]
        change (Act.lift (addU64 s.generation 1) >>= _) _ = _
        rw [addU64_of_lt h, Act.lift_ok_bind_run]
        rfl
    _ = _ := by rw [hwrap]

/-- The last generation is not handed out: the counter would be 0 again. -/
theorem arm_traps (x : Expect) (h : u64Bound ≤ s.generation + 1) : (arm x s).1 = .trap := by
  rw [arm, Act.modify_bind_run, fetchGeneration]
  change ((Act.lift (addU64 s.generation 1) >>= _) _).1 = _
  rw [addU64, if_neg (Nat.not_lt.mpr h)]
  rfl

theorem takeRecord_run : takeRecord s =
    (.ok (if s.lastValid = 1 then some s.lastObs else none), { s with lastValid := if s.lastValid = 1 then 0 else s.lastValid }) := by
  rw [takeRecord, Act.get_bind_run]
  by_cases h : s.lastValid = 1
  · rw [if_neg (not_not.mpr h), if_pos h, if_pos h]
    rfl
  · rw [if_pos h, if_neg h, if_neg h]
    rfl

/-- The common stub clears the direction flag. -/
theorem clear_direction (rflags : Nat) : rflags &&& notU64 0x400 &&& 0x400 = 0 := by
  have hmask : notU64 0x400 &&& 0x400 = 0 := by decide
  rw [Nat.and_assoc, hmask, Nat.and_zero]

/-- CR2 as the dispatcher takes it: 0 for every vector but the page fault. -/
def cr2Of (vec cr2Register : Nat) : Nat := if vec = vecPf then cr2Register else 0

/-- The trap is the one that is expected. -/
structure Expect.Meets (x : Expect) (cr2Register : Nat) (frame : TrapFrame) : Prop where
  vector : frame.vector = x.vector
  rip : frame.rip = x.faultRip
  errorCode : frame.errorCode = x.errorCode
  cr2 : x.matchCr2 = true → cr2Of frame.vector cr2Register = x.cr2

theorem eventMatches_eq_true {isArmed matchCr2 : Bool} {expVec expRip expCr2 expErr vec rip cr2 err : Nat} :
    eventMatches isArmed expVec expRip matchCr2 expCr2 expErr vec rip cr2 err = true ↔
      isArmed = true ∧ vec = expVec ∧ rip = expRip ∧ (matchCr2 = true → cr2 = expCr2) ∧ err = expErr := by
  unfold eventMatches
  split_ifs <;> simp_all

/-- The dispatch of a trap other than the timer's, behind the stub. -/
theorem zkTrapCommon_run (rflags cr2Register : Nat) {frame : TrapFrame} (hvec : frame.vector < 256)
    (hirq : frame.vector ≠ vecIrq0) : zkTrapCommon rflags cr2Register frame s =
      if eventMatches (decide (s.armed.active = 1)) s.armed.vector s.armed.faultRip s.armed.matchCr2 s.armed.cr2
          s.armed.errorCode frame.vector frame.rip (cr2Of frame.vector cr2Register) frame.errorCode then
        (.ok s.armed.resumeRip, { s with
          lastObs :=
            { vector := frame.vector, errorCode := frame.errorCode, rip := frame.rip
              cr2 := cr2Of frame.vector cr2Register, generation := s.armed.generation }
          lastValid := 1
          armed := { s.armed with active := 0 } })
      else
        (.error (if frame.vector = vecDf then .doubleFault frame.errorCode frame.rip
          else .uncontrolled frame.vector frame.errorCode frame.rip (cr2Of frame.vector cr2Register)), s) := by
  rw [zkTrapCommon, zkTrapDispatch, clear_direction, if_neg (not_not.mpr rfl), castU8, if_pos hvec]
  change ((if frame.vector = vecIrq0 then _ else _ : Run TrapFrame) >>= _) s = _
  have hcr2 : (if frame.vector = vecPf then cr2Register else 0) = cr2Of frame.vector cr2Register := rfl
  rw [if_neg hirq, Act.bind_run, Act.get_bind_run]
  dsimp only
  rw [hcr2]
  by_cases hmatch : eventMatches (decide (s.armed.active = 1)) s.armed.vector s.armed.faultRip s.armed.matchCr2
      s.armed.cr2 s.armed.errorCode frame.vector frame.rip (cr2Of frame.vector cr2Register) frame.errorCode = true
  · rw [if_pos hmatch, if_pos hmatch]
    rfl
  · rw [if_neg hmatch, if_neg hmatch]
    by_cases hdf : frame.vector = vecDf
    · rw [if_pos hdf, if_pos hdf]
      rfl
    · rw [if_neg hdf, if_neg hdf]
      rfl

theorem zkTrapCommon_irq0 (rflags cr2Register : Nat) {frame : TrapFrame} (hirq : frame.vector = vecIrq0) :
    zkTrapCommon rflags cr2Register frame s =
      (.ok frame.rip, { s with timerTicks := wrapAddU64 s.timerTicks 1 }) := by
  have hvec : frame.vector < 256 := by rw [hirq]; decide
  rw [zkTrapCommon, zkTrapDispatch, clear_direction, if_neg (not_not.mpr rfl), castU8, if_pos hvec]
  change ((if frame.vector = vecIrq0 then _ else _ : Run TrapFrame) >>= _) s = _
  rw [if_pos hirq]
  rfl

theorem zkTrapCommon_traps (rflags cr2Register : Nat) {frame : TrapFrame} (hvec : ¬frame.vector < 256) :
    (zkTrapCommon rflags cr2Register frame s).1 = .trap := by
  rw [zkTrapCommon, zkTrapDispatch, clear_direction, if_neg (not_not.mpr rfl), castU8, if_neg hvec]
  rfl

end Idt

end Native
