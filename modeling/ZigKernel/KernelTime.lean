import ZigKernel.KernelState
import ZigKernel.LibRuns

/-! The arithmetic of `src/time/time.zig` on seconds and nanoseconds, and the clock that it carries. The sum is exact. The
difference is one nanosecond short where it borrows from the seconds and something remains. -/

namespace Kernel

open Zig

namespace TimeSpec

variable {a b : TimeSpec}

/-- `sub`: what remains, and whether nothing does. -/
def subtract (self interval : TimeSpec) : Outcome Spins (TimeSpec × Bool) := do
  let (left, gone) ← borrow self interval
  if gone then pure (left, true)
  else if interval.sec > left.sec then pure ({ sec := 0, nsec := 0 }, true)
  else do
    let sec ← subI64 left.sec interval.sec
    pure ({ left with sec }, sec == 0 && left.nsec == 0)

/-- The callers of `sub` that look at its answer only. -/
theorem sub_eq (self interval : TimeSpec) : self.sub interval = self.subtract interval >>= fun r => pure r.2 := by
  rw [sub, subtract]
  rcases borrow self interval with ⟨left, gone⟩ | e | _
  · rw [Outcome.ok_bind, Outcome.ok_bind]
    dsimp only
    split_ifs with hgone hless
    · rfl
    · rfl
    · rcases subI64 left.sec interval.sec with sec | e | _ <;> rfl
  · rfl
  · rfl

/-- The time in nanoseconds. -/
def ns (t : TimeSpec) : Int := t.sec * 1000000000 + t.nsec

/-- Seconds that are not negative, and nanoseconds of less than a second. -/
structure Normal (t : TimeSpec) : Prop where
  secNonneg : 0 ≤ t.sec
  secBound : t.sec < i64Bound
  nsecNonneg : 0 ≤ t.nsec
  nsecBound : t.nsec < 1000000000

/-- The seconds of the sum fit. -/
def Fits (a b : TimeSpec) : Prop := a.ns + b.ns < i64Bound * 1000000000

/-- A time is its nanoseconds. -/
theorem Normal.eq_of_ns (ha : a.Normal) (hb : b.Normal) (h : a.ns = b.ns) : a = b := by
  obtain ⟨-, -, ha, ha'⟩ := ha
  obtain ⟨-, -, hb, hb'⟩ := hb
  obtain ⟨sec, nsec⟩ := a
  obtain ⟨sec', nsec'⟩ := b
  simp only [ns] at *
  have hsec : sec = sec' := by omega
  have hnsec : nsec = nsec' := by omega
  rw [hsec, hnsec]

theorem inI64_of_nonneg {i : Int} (h : 0 ≤ i) (h' : i < i64Bound) : InI64 i := by
  have hneg : -(i64Bound : Int) ≤ 0 := by decide
  exact ⟨by omega, h'⟩

/-! ### The sum -/

/-- `a.add(b)` leaves the sum, normalised. -/
def AddExact (a b : TimeSpec) : Prop := ∃ c, a.add b = .ok c ∧ c.Normal ∧ c.ns = a.ns + b.ns

theorem addExact (ha : a.Normal) (hb : b.Normal) (hfits : Fits a b) : AddExact a b := by
  obtain ⟨ha0, ha1, ha2, ha3⟩ := ha
  obtain ⟨hb0, hb1, hb2, hb3⟩ := hb
  rw [Fits, ns, ns] at hfits
  have hbound : (1000000000 : Int) + 1000000000 < i64Bound := by decide
  rw [AddExact, add, addI64, fitI64_of (inI64_of_nonneg (by omega) (by omega)), Outcome.ok_bind]
  by_cases hcarry : a.nsec + b.nsec > 999999999
  · rw [if_pos hcarry, subI64, fitI64_of (inI64_of_nonneg (by omega) (by omega)), Outcome.ok_bind, addI64,
      fitI64_of (inI64_of_nonneg (by omega) (by omega)), Outcome.ok_bind, addI64,
      fitI64_of (inI64_of_nonneg (by omega) (by omega)), Outcome.ok_bind]
    refine ⟨_, rfl, ⟨?_, ?_, ?_, ?_⟩, ?_⟩ <;> simp only [ns] <;> omega
  · rw [if_neg hcarry, addI64, fitI64_of (inI64_of_nonneg (by omega) (by omega)), Outcome.ok_bind]
    refine ⟨_, rfl, ⟨?_, ?_, ?_, ?_⟩, ?_⟩ <;> simp only [ns] <;> omega

/-- A sum that does not fit does not return. -/
theorem add_of_not_fits (ha : a.Normal) (hb : b.Normal) (hfits : ¬Fits a b) (c : TimeSpec) : a.add b ≠ .ok c := by
  obtain ⟨ha0, ha1, ha2, ha3⟩ := ha
  obtain ⟨hb0, hb1, hb2, hb3⟩ := hb
  rw [Fits, ns, ns] at hfits
  have hbound : (1000000000 : Int) + 1000000000 < i64Bound := by decide
  rw [add, addI64, fitI64_of (inI64_of_nonneg (by omega) (by omega)), Outcome.ok_bind]
  by_cases hcarry : a.nsec + b.nsec > 999999999
  · rw [if_pos hcarry, subI64, fitI64_of (inI64_of_nonneg (by omega) (by omega)), Outcome.ok_bind, addI64]
    by_cases hsec : a.sec + 1 < i64Bound
    · rw [fitI64_of (inI64_of_nonneg (by omega) hsec), Outcome.ok_bind, addI64, fitI64_of_not fun h => absurd h.2 (by omega)]
      nofun
    · rw [fitI64_of_not fun h => hsec h.2]
      nofun
  · rw [if_neg hcarry, addI64, fitI64_of_not fun h => absurd h.2 (by omega)]
    nofun

/-! ### The difference -/

/-- `a.sub(b)` leaves the difference, or zero, normalised, and says whether nothing remains. -/
def SubExact (a b : TimeSpec) : Prop :=
  ∃ c r, a.subtract b = .ok (c, r) ∧ c.Normal ∧ c.ns = max (a.ns - b.ns) 0 ∧ (r = true ↔ a.ns ≤ b.ns)

/-- The difference takes a second of `a` for its nanoseconds, and not all seconds of `a` are used up. -/
def Borrows (a b : TimeSpec) : Prop := a.nsec < b.nsec ∧ b.sec < a.sec

instance (a b : TimeSpec) : Decidable (Borrows a b) := inferInstanceAs (Decidable (_ ∧ _))

/-- What `sub` leaves. -/
def leftOver (a b : TimeSpec) : TimeSpec × Bool :=
  if a.ns ≤ b.ns then ({ sec := 0, nsec := 0 }, true)
  else if a.nsec < b.nsec then
    ({ sec := a.sec - 1 - b.sec, nsec := a.nsec - b.nsec + 999999999 },
      a.sec - 1 - b.sec == 0 && a.nsec - b.nsec + 999999999 == 0)
  else ({ sec := a.sec - b.sec, nsec := a.nsec - b.nsec }, false)

theorem subtract_eq (ha : a.Normal) (hb : b.Normal) : a.subtract b = .ok (leftOver a b) := by
  obtain ⟨ha0, ha1, ha2, ha3⟩ := ha
  obtain ⟨hb0, hb1, hb2, hb3⟩ := hb
  have hbound : (1000000000 : Int) < i64Bound := by decide
  rw [subtract, borrow, leftOver, ns, ns]
  by_cases hborrow : b.nsec > a.nsec
  · have hnsec : 999999999 - (b.nsec - a.nsec) = a.nsec - b.nsec + 999999999 := by omega
    rw [if_pos hborrow, subI64, fitI64_of (inI64_of_nonneg (by omega) (by omega)), Outcome.ok_bind, subI64,
      fitI64_of (inI64_of_nonneg (by omega) (by omega)), Outcome.ok_bind, hnsec]
    by_cases hzero : a.sec = 0
    · rw [if_pos hzero, if_pos (by omega)]
      rfl
    · rw [if_neg hzero, subI64, fitI64_of (inI64_of_nonneg (by omega) (by omega)), Outcome.ok_bind]
      change (if b.sec > a.sec - 1 then _ else _) = _
      by_cases hless : b.sec > a.sec - 1
      · rw [if_pos hless, if_pos (by omega)]
        rfl
      · rw [if_neg hless, if_neg (by omega), if_pos hborrow]
        dsimp only
        rw [subI64, fitI64_of (inI64_of_nonneg (by omega) (by omega)), Outcome.ok_bind]
        rfl
  · rw [if_neg hborrow, subI64, fitI64_of (inI64_of_nonneg (by omega) (by omega)), Outcome.ok_bind]
    change (if b.sec > a.sec then _ else _) = _
    by_cases hless : b.sec > a.sec
    · rw [if_pos hless, if_pos (by omega)]
      rfl
    · rw [if_neg hless]
      dsimp only
      rw [subI64, fitI64_of (inI64_of_nonneg (by omega) (by omega)), Outcome.ok_bind]
      change Outcome.ok _ = _
      by_cases hle : a.sec * 1000000000 + a.nsec ≤ b.sec * 1000000000 + b.nsec
      · have hsec : a.sec - b.sec = 0 := by omega
        have hnsec : a.nsec - b.nsec = 0 := by omega
        rw [if_pos hle]
        simp only [hsec, hnsec, beq_self_eq_true, Bool.and_self]
      · rw [if_neg hle, if_neg hborrow]
        have hsome : (a.sec - b.sec == 0 && a.nsec - b.nsec == 0) = false := by
          rw [Bool.and_eq_false_iff, beq_eq_false_iff_ne, beq_eq_false_iff_ne]
          omega
        rw [hsome]

/-- One nanosecond is missing exactly where a second is borrowed and something remains. -/
theorem leftOver_ns (a b : TimeSpec) (ha : a.Normal) (hb : b.Normal) :
    (leftOver a b).1.ns = if Borrows a b then a.ns - b.ns - 1 else max (a.ns - b.ns) 0 := by
  obtain ⟨ha0, ha1, ha2, ha3⟩ := ha
  obtain ⟨hb0, hb1, hb2, hb3⟩ := hb
  unfold ns at *
  by_cases hle : a.ns ≤ b.ns
  · have hno : ¬Borrows a b := by
      unfold ns at hle
      rw [Borrows]
      omega
    rw [leftOver, if_pos hle, if_neg hno]
    unfold ns at hle
    dsimp only
    omega
  · by_cases hborrow : a.nsec < b.nsec
    · have hborrows : Borrows a b := ⟨hborrow, by unfold ns at hle; omega⟩
      rw [leftOver, if_neg hle, if_pos hborrow, if_pos hborrows]
      dsimp only
      omega
    · rw [leftOver, if_neg hle, if_neg hborrow, if_neg fun h => hborrow h.1]
      unfold ns at hle
      dsimp only
      omega

theorem leftOver_normal (ha : a.Normal) (hb : b.Normal) : (leftOver a b).1.Normal := by
  obtain ⟨ha0, ha1, ha2, ha3⟩ := ha
  obtain ⟨hb0, hb1, hb2, hb3⟩ := hb
  have hbound : (0 : Int) < i64Bound := by decide
  rw [leftOver, ns, ns]
  split_ifs
  · exact ⟨Int.le_refl 0, hbound, Int.le_refl 0, by decide⟩
  · constructor <;> dsimp only <;> omega
  · constructor <;> dsimp only <;> omega

theorem subExact_iff (ha : a.Normal) (hb : b.Normal) : SubExact a b ↔ ¬Borrows a b := by
  rw [SubExact, subtract_eq ha hb]
  constructor
  · rintro ⟨c, r, hsub, -, hns, -⟩ hborrows
    have hleft := leftOver_ns a b ha hb
    rw [if_pos hborrows, Outcome.ok.inj hsub, hns] at hleft
    omega
  · intro hno
    refine ⟨(leftOver a b).1, (leftOver a b).2, rfl, leftOver_normal ha hb, (leftOver_ns a b ha hb).trans (if_neg hno), ?_⟩
    obtain ⟨ha0, -, ha2, ha3⟩ := ha
    obtain ⟨hb0, -, hb2, hb3⟩ := hb
    rw [Borrows] at hno
    rw [leftOver]
    split_ifs with hle hborrow
    · exact iff_of_true rfl hle
    · rw [ns, ns] at hle
      omega
    · exact iff_of_false id hle

/-- Subtracting what was added gives the time back. -/
def Restores (a b : TimeSpec) : Prop := ∃ c r, a.add b = .ok c ∧ c.subtract b = .ok (a, r)

theorem restores_iff (ha : a.Normal) (hb : b.Normal) (hfits : Fits a b) : Restores a b ↔ a.nsec + b.nsec < 1000000000 := by
  obtain ⟨c, hadd, hc, hns⟩ := addExact ha hb hfits
  -- the sum has fewer nanoseconds than the interval where it carries, and always enough seconds
  have hborrows : Borrows c b ↔ 1000000000 ≤ a.nsec + b.nsec := by
    obtain ⟨ha0, -, ha2, ha3⟩ := ha
    obtain ⟨hb0, -, hb2, hb3⟩ := hb
    obtain ⟨hc0, -, hc2, hc3⟩ := hc
    rw [ns, ns, ns] at hns
    rw [Borrows]
    omega
  have hleft := leftOver_ns c b hc hb
  have hsub := subtract_eq hc hb
  constructor
  · rintro ⟨c', r, hadd', hsub'⟩
    rw [hadd] at hadd'
    cases hadd'
    by_contra hcarry
    have hrest : a = (leftOver c b).1 := congrArg Prod.fst (Outcome.ok.inj (hsub'.symm.trans hsub))
    rw [if_pos (hborrows.mpr (by omega)), ← hrest] at hleft
    omega
  · intro hsmall
    have ha0 : 0 ≤ a.ns := by
      obtain ⟨ha0, -, ha2, -⟩ := ha
      rw [ns]
      omega
    rw [if_neg fun h => absurd (hborrows.mp h) (by omega), hns, Int.add_sub_cancel, max_eq_left ha0] at hleft
    refine ⟨c, _, hadd, hsub.trans (congrArg Outcome.ok (Prod.ext ?_ rfl))⟩
    exact (leftOver_normal hc hb).eq_of_ns ha hleft

/-- On normal times the answer of `sub` is right up to a nanosecond that is left. -/
theorem sub_normal (ha : a.Normal) (hb : b.Normal) : a.sub b = .ok (leftOver a b).2 := by
  rw [sub_eq, subtract_eq ha hb]
  rfl

end TimeSpec

/-! ### The clock -/

namespace Clock

variable {c c' : Clock} {interval : TimeSpec} {intervals : List TimeSpec}

/-- The nanoseconds of the monotonic clock. -/
def elapsed (c : Clock) : Nat :=
  if c.monotonic.sec < 0 ∨ c.monotonic.nsec < 0 then 0 else c.monotonic.sec.toNat * 1000000000 + c.monotonic.nsec.toNat

theorem monotonicNs_of_lt {c : Clock} (h : c.elapsed < u64Bound) : c.monotonicNs = .ok c.elapsed := by
  rw [elapsed] at h ⊢
  rw [monotonicNs]
  by_cases hneg : c.monotonic.sec < 0 ∨ c.monotonic.nsec < 0
  · rw [if_pos hneg, if_pos hneg]
  · rw [if_neg hneg] at h ⊢
    rw [not_or, Int.not_lt, Int.not_lt] at hneg
    rw [if_neg (not_or.mpr ⟨Int.not_lt.mpr hneg.1, Int.not_lt.mpr hneg.2⟩), castUsize_of_nonneg hneg.1,
      castUsize_of_nonneg hneg.2, Outcome.ok_bind, mulU64_of_lt (Nat.lt_of_le_of_lt (Nat.le_add_right _ _) h),
      Outcome.ok_bind, Outcome.ok_bind, addU64_of_lt h]

theorem monotonicNs_of_le {c : Clock} (h : u64Bound ≤ c.elapsed) : c.monotonicNs = .trap := by
  rw [elapsed] at h
  rw [monotonicNs]
  by_cases hneg : c.monotonic.sec < 0 ∨ c.monotonic.nsec < 0
  · rw [if_pos hneg] at h
    exact absurd h (by decide)
  · rw [if_neg hneg] at h
    rw [not_or, Int.not_lt, Int.not_lt] at hneg
    rw [if_neg (not_or.mpr ⟨Int.not_lt.mpr hneg.1, Int.not_lt.mpr hneg.2⟩), castUsize_of_nonneg hneg.1,
      castUsize_of_nonneg hneg.2, Outcome.ok_bind]
    by_cases hwhole : c.monotonic.sec.toNat * 1000000000 < u64Bound
    · rw [mulU64_of_lt hwhole, Outcome.ok_bind, Outcome.ok_bind, addU64_of_le h]
    · rw [mulU64, if_neg hwhole]
      rfl

theorem monotonicNs_normal (hc : c.monotonic.Normal) :
    c.monotonicNs = if c.monotonic.ns < u64Bound then .ok c.monotonic.ns.toNat else .trap := by
  obtain ⟨hsec, -, hnsec, -⟩ := hc
  have helapsed : (c.elapsed : Int) = c.monotonic.ns := by
    rw [elapsed, if_neg (by omega), TimeSpec.ns]
    omega
  split_ifs with hfits
  · rw [monotonicNs_of_lt (by omega), ← helapsed, Int.toNat_natCast]
  · exact monotonicNs_of_le (by omega)

/-- Timers with normal deadlines all get their answer. -/
theorem fireTimers_normal (hinterval : interval.Normal) (timers : List Timer) (htimers : ∀ t ∈ timers, t.when.Normal) :
    ∃ fired, fireTimers interval timers = .ok fired := by
  induction timers with
  | nil => exact ⟨[], rfl⟩
  | cons timer rest ih =>
      obtain ⟨fired, hfired⟩ := ih fun t ht => htimers t (List.mem_cons_of_mem timer ht)
      have hgone := TimeSpec.sub_normal (htimers timer List.mem_cons_self) hinterval
      by_cases hdone : timer.fired
      · refine ⟨timer :: fired, ?_⟩
        rw [fireTimers, if_pos hdone, hfired]
        rfl
      · refine ⟨{ timer with fired := (TimeSpec.leftOver timer.when interval).2 } :: fired, ?_⟩
        rw [fireTimers, if_neg hdone, hgone, Outcome.ok_bind, hfired]
        rfl

/-- One tick, by any interval in normal form. A tick that does not return ends the kernel. -/
def Tick (c : Clock) (interval : TimeSpec) (c' : Clock) : Prop :=
  interval.Normal ∧ advanceClocks interval c = (.ok (), c')

theorem advanceClocks_returns (hc : c.monotonic.Normal) (hr : c.realtime.Normal) (hinterval : interval.Normal)
    (htimers : ∀ t ∈ c.timers, t.when.Normal) (hfits : TimeSpec.Fits c.monotonic interval)
    (hfits' : TimeSpec.Fits c.realtime interval) : ∃ c', Tick c interval c' := by
  obtain ⟨monotonic, hmonotonic, -⟩ := TimeSpec.addExact hc hinterval hfits
  obtain ⟨realtime, hrealtime, -⟩ := TimeSpec.addExact hr hinterval hfits'
  obtain ⟨timers, htimers⟩ := fireTimers_normal hinterval c.timers htimers
  refine ⟨{ monotonic, realtime, timers }, hinterval, ?_⟩
  rw [advanceClocks, Act.get_bind_run, hmonotonic, Act.lift_ok_bind_run, Act.modify_bind_run, hrealtime,
    Act.lift_ok_bind_run, Act.modify_bind_run, htimers, Act.lift_ok_bind_run]
  rfl

/-- The monotonic clock of a tick that returns. -/
theorem Tick.add (h : Tick c interval c') : c.monotonic.add interval = .ok c'.monotonic := by
  obtain ⟨-, h⟩ := h
  rw [advanceClocks, Act.get_bind_run] at h
  obtain ⟨monotonic, hmonotonic, h⟩ := Act.lift_bind_run_eq_ok h
  rw [Act.modify_bind_run] at h
  obtain ⟨realtime, -, h⟩ := Act.lift_bind_run_eq_ok h
  rw [Act.modify_bind_run] at h
  obtain ⟨timers, -, h⟩ := Act.lift_bind_run_eq_ok h
  cases h
  exact hmonotonic

/-- A sum that returns has fitted. -/
theorem Tick.exact (h : Tick c interval c') (hc : c.monotonic.Normal) :
    c'.monotonic.Normal ∧ c'.monotonic.ns = c.monotonic.ns + interval.ns := by
  by_cases hfits : TimeSpec.Fits c.monotonic interval
  · obtain ⟨sum, hsum, hnormal, hns⟩ := TimeSpec.addExact hc h.1 hfits
    have heq : sum = c'.monotonic := Outcome.ok.inj (hsum.symm.trans h.add)
    exact ⟨heq ▸ hnormal, heq ▸ hns⟩
  · exact absurd h.add (TimeSpec.add_of_not_fits hc h.1 hfits _)

/-- What a run of ticks does to the monotonic clock. -/
structure Steady (c : Clock) (intervals : List TimeSpec) (c' : Clock) : Prop where
  total : c'.monotonic.ns = c.monotonic.ns + (intervals.map TimeSpec.ns).sum
  reads : c'.monotonic.ns < u64Bound → c'.monotonicNs = .ok c'.monotonic.ns.toNat
  neverDecreases : ∀ before after, c.monotonicNs = .ok before → c'.monotonicNs = .ok after → before ≤ after

theorem run_total (hc : c.monotonic.Normal) (hrun : Runs.Run Tick c intervals c') :
    c'.monotonic.Normal ∧ c'.monotonic.ns = c.monotonic.ns + (intervals.map TimeSpec.ns).sum ∧
      c.monotonic.ns ≤ c'.monotonic.ns := by
  induction hrun with
  | refl => exact ⟨hc, (Int.add_zero _).symm, Int.le_refl _⟩
  | @snoc trace t u interval _ hstep ih =>
      obtain ⟨hnormal, hns⟩ := hstep.exact ih.1
      obtain ⟨hsec, -, hnsec, -⟩ := hstep.1
      have hadvance : 0 ≤ interval.ns := by
        rw [TimeSpec.ns]
        omega
      refine ⟨hnormal, ?_, by omega⟩
      rw [hns, ih.2.1, List.map_append, List.sum_append, List.map_singleton, List.sum_singleton, Int.add_assoc]

theorem steady_of_run (hc : c.monotonic.Normal) (hrun : Runs.Run Tick c intervals c') : Steady c intervals c' := by
  obtain ⟨hnormal, htotal, hle⟩ := run_total hc hrun
  refine ⟨htotal, fun hfits => (monotonicNs_normal hnormal).trans (if_pos hfits), fun before after hbefore hafter => ?_⟩
  rw [monotonicNs_normal hc] at hbefore
  rw [monotonicNs_normal hnormal] at hafter
  split_ifs at hbefore hafter
  cases hbefore
  cases hafter
  exact Int.toNat_le_toNat hle

end Clock

namespace TimeSpec

variable {a b : TimeSpec}

/-- The arithmetic on `a` and `b`, and a clock that stands at `a`: a tick by `b` returns where the sums fit, and no run
of ticks takes the clock back. -/
structure Exact (a b : TimeSpec) : Prop where
  sum : AddExact a b
  difference : SubExact a b
  restored : Restores a b
  ticks : ∀ c : Clock, c.monotonic = a → c.realtime.Normal → Fits c.realtime b → (∀ t ∈ c.timers, t.when.Normal) →
    ∃ c', Clock.Tick c b c'
  clock : ∀ (c c' : Clock) (intervals : List TimeSpec), c.monotonic = a → Runs.Run Clock.Tick c intervals c' →
    Clock.Steady c intervals c'

/-- The arithmetic is exact but for the borrow. -/
theorem exact_iff_no_borrow (a b : TimeSpec) (ha : a.Normal) (hb : b.Normal) (hfits : Fits a b) :
    Exact a b ↔ ¬(a.nsec < b.nsec ∧ b.sec < a.sec) ∧ a.nsec + b.nsec < 1000000000 := by
  constructor
  · intro h
    exact ⟨(subExact_iff ha hb).mp h.difference, (restores_iff ha hb hfits).mp h.restored⟩
  · rintro ⟨hborrow, hcarry⟩
    refine ⟨addExact ha hb hfits, (subExact_iff ha hb).mpr hborrow, (restores_iff ha hb hfits).mpr hcarry, ?_, ?_⟩
    · rintro c rfl hr hfits' htimers
      exact Clock.advanceClocks_returns ha hr hb htimers hfits hfits'
    · rintro c c' intervals rfl hrun
      exact Clock.steady_of_run ha hrun

theorem exact_iff_no_borrow_seconds : Exact { sec := 2, nsec := 7 } { sec := 1, nsec := 3 } :=
  (exact_iff_no_borrow { sec := 2, nsec := 7 } { sec := 1, nsec := 3 } ⟨by decide, by decide, by decide, by decide⟩
    ⟨by decide, by decide, by decide, by decide⟩ (by rw [Fits]; decide)).mpr ⟨by decide, by decide⟩

/-- One second less one nanosecond. -/
theorem borrow_loses_nanosecond :
    ({ sec := 1, nsec := 0 } : TimeSpec).subtract { sec := 0, nsec := 1 } = .ok ({ sec := 0, nsec := 999999998 }, false) ∧
      ¬SubExact { sec := 1, nsec := 0 } { sec := 0, nsec := 1 } := by
  refine ⟨rfl, fun h => ?_⟩
  obtain ⟨c, r, hsub, -, hns, -⟩ := h
  have hleft : ({ sec := 1, nsec := 0 } : TimeSpec).subtract { sec := 0, nsec := 1 } =
      .ok ({ sec := 0, nsec := 999999998 }, false) := rfl
  rw [hleft] at hsub
  cases hsub
  exact absurd hns (by decide)

end TimeSpec

end Kernel
