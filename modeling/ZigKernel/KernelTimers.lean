import Mathlib.Data.Finset.Card
import ZigKernel.KernelTime

/-! The armed timers of `src/time/time.zig`, over exact arithmetic: a time is its nanoseconds. The first timers live in the
pool of the module, from which `newTimer` takes the slot whose number is the number of armed timers. The others are
objects of the callers. -/

namespace Kernel

open Zig

namespace TimeSpec

/-- The answer of an exact `when.sub(interval)`. -/
def lapses (whenNs interval : Int) : Bool := whenNs ≤ interval

end TimeSpec

namespace Timers

abbrev maxTimers : Nat := 8

/-- `*Timer` -/
inductive TimerRef where
  /-- `&timerStorage[i]` -/
  | pool (i : Fin maxTimers)
  | own (id : Nat)
  deriving DecidableEq

structure Timer where
  whenNs : Int := 0
  /-- `event.pending` -/
  pending : Nat := 0
  index : Int := -1
  fired : Bool := false

structure Wheel where
  monotonic : Int := 0
  realtime : Int := 0
  armedTimers : Fin maxTimers → Option TimerRef := fun _ => none
  timerCount : Nat := 0
  /-- The timers behind the pointers. -/
  timers : TimerRef → Timer := fun _ => {}

abbrev Run (α : Type) := Act Wheel Spins α

def Wheel.setTimer (r : TimerRef) (t : Timer) (w : Wheel) : Wheel := { w with timers := Function.update w.timers r t }

@[simp] theorem Wheel.setTimer_same (r : TimerRef) (t : Timer) (w : Wheel) : (w.setTimer r t).timers r = t := by
  simp only [setTimer, Function.update_self]

@[simp] theorem Wheel.setTimer_setTimer (r : TimerRef) (t t' : Timer) (w : Wheel) :
    (w.setTimer r t).setTimer r t' = w.setTimer r t' := by
  simp only [setTimer, Function.update_idem]

theorem Wheel.setTimer_of_ne {r r' : TimerRef} (h : r' ≠ r) (t : Timer) (w : Wheel) :
    (w.setTimer r t).timers r' = w.timers r' := by
  simp only [setTimer, Function.update_of_ne h]

def Wheel.setArmed (i : Fin maxTimers) (entry : Option TimerRef) (w : Wheel) : Wheel :=
  { w with armedTimers := Function.update w.armedTimers i entry }

/-- The bounds check of `armedTimers[i]` and of `timerStorage[i]`. -/
def slot (i : Nat) : Outcome Spins (Fin maxTimers) := if h : i < maxTimers then .ok ⟨i, h⟩ else .trap

/-- `Event.signal` -/
def signal (r : TimerRef) : Run Unit := do
  let w ← Act.get
  let pending ← Act.lift (addU64 (w.timers r).pending 1)
  Act.modify (Wheel.setTimer r { w.timers r with pending })

theorem signal_ok {r : TimerRef} {w w' : Wheel} (h : signal r w = (.ok (), w')) :
    w' = w.setTimer r { w.timers r with pending := (w.timers r).pending + 1 } := by
  rw [signal, Act.get_bind_run] at h
  obtain ⟨pending, hpending, h⟩ := Act.lift_bind_run_eq_ok h
  rw [addU64] at hpending
  split_ifs at hpending
  cases hpending
  cases h
  rfl

/-- The loop of `advanceClocks` over the armed timers from `i` on. What `sub` leaves is in a copy of the deadline. -/
def fireFrom (interval : Int) : Nat → Nat → Run Unit
  | 0, _ => pure ()
  | left + 1, i => do
      let w ← Act.get
      let i' ← Act.lift (slot i)
      match w.armedTimers i' with
      | some timer =>
          if (w.timers timer).fired = false ∧ TimeSpec.lapses (w.timers timer).whenNs interval then do
            Act.modify fun w => w.setTimer timer { w.timers timer with fired := true }
            signal timer
            fireFrom interval left (i + 1)
          else fireFrom interval left (i + 1)
      | none => fireFrom interval left (i + 1)

/-- `advanceClocks` without the tick hooks, which do not reach the timers. -/
def advanceClocks (interval : Int) : Run Unit := do
  let w ← Act.get
  Act.modify fun w => { w with monotonic := w.monotonic + interval, realtime := w.realtime + interval }
  fireFrom interval w.timerCount 0

def disarm (self : TimerRef) : Run Unit := do
  let w ← Act.get
  let index := (w.timers self).index
  if w.timerCount = 0 ∨ index = -1 then pure ()
  else if (w.timerCount : Int) ≤ index then pure ()
  else do
    let idx ← Act.lift (castUsize index)
    let idx ← Act.lift (slot idx)
    let last ← Act.lift (slot (w.timerCount - 1))
    -- swap-remove
    Act.modify (Wheel.setArmed idx (w.armedTimers last))
    match w.armedTimers last with
    | some t => Act.modify fun w => w.setTimer t { w.timers t with index }
    | none => pure ()
    Act.modify (Wheel.setArmed last none)
    Act.modify fun w => { w with timerCount := w.timerCount - 1 }
    Act.modify fun w => w.setTimer self { w.timers self with index := -1 }

def arm (self : TimerRef) : Run Unit := do
  let w ← Act.get
  let index ← Act.lift (castI32 w.timerCount)
  Act.modify (Wheel.setTimer self { w.timers self with fired := false, index })
  if h : w.timerCount < maxTimers then do
    Act.modify (Wheel.setArmed ⟨w.timerCount, h⟩ (some self))
    Act.modify fun w => { w with timerCount := w.timerCount + 1 }
  else pure ()

/-- `newTimer`. With a full table it does not return. -/
def newTimer (whenNs : Int) : Run TimerRef := do
  let w ← Act.get
  let i ← Act.lift (slot w.timerCount)
  Act.modify (Wheel.setTimer (.pool i) { whenNs })
  arm (.pool i)
  pure (.pool i)

/-! ### The loop of `advanceClocks` -/

variable {interval : Int} {w w' : Wheel} {r : TimerRef}

/-- The timer behind a tick that finds it in the table, or not. -/
def Timer.after (t : Timer) (interval : Int) (armed : Prop) [Decidable armed] : Timer :=
  if armed ∧ t.fired = false ∧ TimeSpec.lapses t.whenNs interval then { t with fired := true, pending := t.pending + 1 }
  else t

/-- A timer fires once. -/
theorem Timer.after_fired {t : Timer} {p : Prop} [Decidable p] (h : t.fired = true) : t.after interval p = t :=
  if_neg fun h' => absurd (h.symm.trans h'.2.1) Bool.noConfusion

theorem Timer.after_congr {t : Timer} {p q : Prop} [Decidable p] [Decidable q] (h : p ↔ q) :
    t.after interval p = t.after interval q :=
  if_congr (and_congr_left' h) rfl rfl

/-- An entry of the table among those from `i` on. -/
def Wheel.Lists (w : Wheel) (i left : Nat) (r : TimerRef) : Prop :=
  ∃ k : Fin maxTimers, i ≤ k.val ∧ k.val < i + left ∧ w.armedTimers k = some r

instance (w : Wheel) (i left : Nat) (r : TimerRef) : Decidable (w.Lists i left r) :=
  inferInstanceAs (Decidable (∃ _, _))

/-- What the loop leaves: a timer fires once, however often the table lists it. -/
theorem fireFrom_ok (left i : Nat) (hrun : fireFrom interval left i w = (.ok (), w')) :
    w' = { w with timers := fun r => (w.timers r).after interval (w.Lists i left r) } := by
  induction left generalizing i w with
  | zero =>
      have hsame : w' = w := by
        cases hrun
        rfl
      have hnone (r : TimerRef) : (w.timers r).after interval (w.Lists i 0 r) = w.timers r := by
        refine if_neg fun h => ?_
        obtain ⟨⟨k, hle, hlt, -⟩, -⟩ := h
        omega
      simp only [hnone, hsame]
  | succ left ih =>
      rw [fireFrom, Act.get_bind_run] at hrun
      obtain ⟨k, hslot, hrun⟩ := Act.lift_bind_run_eq_ok hrun
      have hk : k.val = i := by
        rw [slot] at hslot
        split_ifs at hslot
        cases hslot
        rfl
      have hlists (r : TimerRef) : w.Lists i (left + 1) r ↔ w.armedTimers k = some r ∨ w.Lists (i + 1) left r := by
        constructor
        · rintro ⟨j, hle, hlt, hj⟩
          rcases Nat.eq_or_lt_of_le hle with heq | hlater
          · exact Or.inl (Fin.ext (hk.trans heq) ▸ hj)
          · exact Or.inr ⟨j, hlater, by omega, hj⟩
        · rintro (hj | ⟨j, hle, hlt, hj⟩)
          · exact ⟨k, by omega, by omega, hj⟩
          · exact ⟨j, by omega, by omega, hj⟩
      -- the timer of entry `i` is either left as it is or fired, and then the rest of the loop passes over it
      cases hentry : w.armedTimers k with
      | none =>
          simp only [hentry] at hrun
          rw [ih (i + 1) hrun]
          congr 1
          funext r
          refine Timer.after_congr ?_
          rw [hlists r, hentry]
          simp only [reduceCtorEq, false_or]
      | some timer =>
          simp only [hentry] at hrun
          by_cases hfires : (w.timers timer).fired = false ∧ TimeSpec.lapses (w.timers timer).whenNs interval
          · rw [if_pos hfires, Act.modify_bind_run] at hrun
            obtain ⟨_, v, hsignal, hrun⟩ := Act.bind_run_eq_ok hrun
            have hv : v = w.setTimer timer { w.timers timer with fired := true, pending := (w.timers timer).pending + 1 } := by
              rw [signal_ok hsignal, Wheel.setTimer_same, Wheel.setTimer_setTimer]
            rw [ih (i + 1) hrun, hv]
            congr 1
            funext r
            by_cases hr : r = timer
            · rw [hr, Wheel.setTimer_same, Timer.after_fired rfl, Timer.after, if_pos ⟨(hlists timer).mpr (Or.inl hentry), hfires⟩]
            · rw [Wheel.setTimer_of_ne hr]
              refine Timer.after_congr ?_
              rw [hlists r, hentry, Option.some.injEq, or_iff_right (Ne.symm hr)]
              rfl
          · rw [if_neg hfires] at hrun
            rw [ih (i + 1) hrun]
            congr 1
            funext r
            by_cases hr : timer = r
            · rw [← hr, Timer.after, Timer.after, if_neg fun h => hfires h.2, if_neg fun h => hfires h.2]
            · refine Timer.after_congr ?_
              rw [hlists r, hentry, Option.some.injEq, or_iff_right hr]

theorem advanceClocks_ok (hrun : advanceClocks interval w = (.ok (), w')) :
    w'.armedTimers = w.armedTimers ∧ w'.timerCount = w.timerCount ∧
      ∀ r, w'.timers r = (w.timers r).after interval (w.Lists 0 w.timerCount r) := by
  rw [advanceClocks, Act.get_bind_run, Act.modify_bind_run] at hrun
  rw [fireFrom_ok _ _ hrun]
  exact ⟨rfl, rfl, fun r => rfl⟩

end Timers

end Kernel
