import ZigKernel.KernelTimers
import ZigKernel.LibRuns

/-! Timers over whole runs. Each armed timer fires when the total time since it was armed reaches its deadline, and stands
once in the table, exactly in the runs in which a deadline is reached by one advance alone, no armed timer is armed
again, and the slot of the pool that the number of armed timers names is free. -/

namespace Kernel.Timers

open Zig

variable {w : Wheel} {r t : TimerRef} {interval whenNs : Int}

/-! ### The calls on a table in order -/

theorem slot_of_lt {i : Nat} (h : i < maxTimers) : slot i = .ok ⟨i, h⟩ := dif_pos h

/-- The table with one more timer at its end. -/
def Wheel.push (r : TimerRef) (h : w.timerCount < maxTimers) : Wheel :=
  { w.setTimer r { w.timers r with fired := false, index := w.timerCount } with
    armedTimers := Function.update w.armedTimers ⟨w.timerCount, h⟩ (some r), timerCount := w.timerCount + 1 }

section Push

variable (timer : Timer) (h : w.timerCount < maxTimers)

theorem Wheel.push_timers_self : ((w.setTimer r timer).push r h).timers r =
    { timer with fired := false, index := w.timerCount } := by
  change ((w.setTimer r timer).setTimer r _).timers r = _
  rw [Wheel.setTimer_same, Wheel.setTimer_same]
  rfl

theorem Wheel.push_timers_of_ne (hne : t ≠ r) : ((w.setTimer r timer).push r h).timers t = w.timers t := by
  change ((w.setTimer r timer).setTimer r _).timers t = _
  rw [Wheel.setTimer_of_ne hne, Wheel.setTimer_of_ne hne]

theorem Wheel.push_armedTimers (i : Fin maxTimers) :
    (w.push r h).armedTimers i = if i.val = w.timerCount then some r else w.armedTimers i := by
  change Function.update w.armedTimers ⟨w.timerCount, h⟩ (some r) i = _
  rw [Function.update_apply]
  exact if_congr Fin.ext_iff rfl rfl

end Push

theorem arm_push (r : TimerRef) (h : w.timerCount < maxTimers) : arm r w = (.ok (), w.push r h) := by
  have hcast : w.timerCount < i32Bound := lt_trans h (by decide)
  rw [arm, Act.get_bind_run, castI32_of_lt hcast, Act.lift_ok_bind_run, Act.modify_bind_run, dif_pos h,
    Act.modify_bind_run]
  rfl

theorem newTimer_push (whenNs : Int) (h : w.timerCount < maxTimers) : newTimer whenNs w =
    (.ok (.pool ⟨w.timerCount, h⟩), (w.setTimer (.pool ⟨w.timerCount, h⟩) { whenNs }).push (.pool ⟨w.timerCount, h⟩) h) := by
  rw [newTimer, Act.get_bind_run, slot_of_lt h, Act.lift_ok_bind_run, Act.modify_bind_run]
  exact Act.bind_ok_run (arm_push (w := w.setTimer _ _) _ h)

/-- The table without entry `k`, whose place the last timer `t` takes. -/
def Wheel.remove (w : Wheel) (k last : Fin maxTimers) (r t : TimerRef) : Wheel :=
  { w.setTimer t { w.timers t with index := k.val } with
    armedTimers := Function.update (Function.update w.armedTimers k (some t)) last none
    timerCount := w.timerCount - 1 }.setTimer r { w.timers r with index := -1 }

section Remove

variable {k last : Fin maxTimers}

theorem Wheel.remove_timers_self : (w.remove k last r t).timers r = { w.timers r with index := -1 } :=
  Wheel.setTimer_same _ _ _

theorem Wheel.remove_timers_last (hne : t ≠ r) : (w.remove k last r t).timers t = { w.timers t with index := k.val } := by
  rw [Wheel.remove, Wheel.setTimer_of_ne hne]
  exact Wheel.setTimer_same _ _ _

theorem Wheel.remove_timers_of_ne {r' : TimerRef} (hne : r' ≠ r) (hne' : r' ≠ t) :
    (w.remove k last r t).timers r' = w.timers r' := by
  rw [Wheel.remove, Wheel.setTimer_of_ne hne]
  exact Wheel.setTimer_of_ne hne' _ _

theorem Wheel.remove_armedTimers (i : Fin maxTimers) : (w.remove k last r t).armedTimers i =
    if i = last then none else if i = k then some t else w.armedTimers i := by
  change Function.update (Function.update w.armedTimers k (some t)) last none i = _
  rw [Function.update_apply, Function.update_apply]

/-- What a removal leaves alone. -/
theorem Wheel.remove_keeps (r' : TimerRef) : ((w.remove k last r t).timers r').whenNs = (w.timers r').whenNs ∧
    ((w.remove k last r t).timers r').fired = (w.timers r').fired := by
  by_cases hne : r' = r
  · rw [hne, Wheel.remove_timers_self]
    exact ⟨rfl, rfl⟩
  · by_cases hne' : r' = t
    · rw [hne', Wheel.remove_timers_last (hne' ▸ hne)]
      exact ⟨rfl, rfl⟩
    · rw [Wheel.remove_timers_of_ne hne hne']
      exact ⟨rfl, rfl⟩

end Remove

theorem disarm_remove {k : Fin maxTimers} {n : Nat} (hindex : (w.timers r).index = k.val) (hcount : w.timerCount = n + 1)
    (hk : k.val ≤ n) (hn : n < maxTimers) (hlast : w.armedTimers ⟨n, hn⟩ = some t) :
    disarm r w = (.ok (), w.remove k ⟨n, hn⟩ r t) := by
  rw [disarm, Act.get_bind_run]
  dsimp only
  rw [hindex, if_neg (by omega), if_neg (by omega), castUsize_of_nonneg (Int.natCast_nonneg _), Act.lift_ok_bind_run,
    Int.toNat_natCast, slot_of_lt k.isLt, Act.lift_ok_bind_run, hcount, Nat.add_sub_cancel, slot_of_lt hn,
    Act.lift_ok_bind_run, Act.modify_bind_run, hlast]
  change (Outcome.ok (), _) = _
  congr 1
  rw [Wheel.remove, hcount, Nat.add_sub_cancel]
  by_cases hr : r = t
  · subst hr
    simp only [Wheel.setTimer, Wheel.setArmed, Function.update_self, hcount, Nat.add_sub_cancel]
  · simp only [Wheel.setTimer, Wheel.setArmed, Function.update_of_ne hr, hcount, Nat.add_sub_cancel]

theorem disarm_idle (h : (w.timers r).index = -1) : disarm r w = (.ok (), w) := by
  rw [disarm, Act.get_bind_run]
  exact congrFun (if_pos (Or.inr h)) w

/-! ### Runs -/

/-- The timers with what they have been through: which are armed, and the time advanced since each was armed last. -/
structure World where
  wheel : Wheel := {}
  armed : Finset TimerRef := ∅
  elapsed : TimerRef → Int := fun _ => 0

inductive Call where
  /-- with the timer that it returns -/
  | newTimer (whenNs : Int) (r : TimerRef)
  | arm (r : TimerRef)
  | disarm (r : TimerRef)
  | advanceClocks (interval : Int)

/-- The armed timers and their times after a call. -/
def World.log (s : World) (wheel : Wheel) : Call → World
  | .newTimer _ r => { wheel, armed := insert r s.armed, elapsed := Function.update s.elapsed r 0 }
  | .arm r => { wheel, armed := insert r s.armed, elapsed := Function.update s.elapsed r 0 }
  | .disarm r => { s with wheel, armed := s.armed.erase r }
  | .advanceClocks interval => { s with wheel, elapsed := fun r => s.elapsed r + interval }

/-- The call returns in the wheel `w`. -/
def Call.Returns (w w' : Wheel) : Call → Prop
  | .newTimer whenNs r => Timers.newTimer whenNs w = (.ok r, w')
  | .arm r => Timers.arm r w = (.ok (), w')
  | .disarm r => Timers.disarm r w = (.ok (), w')
  | .advanceClocks interval => Timers.advanceClocks interval w = (.ok (), w')

/-- A call that returns, with no more timers armed than the table holds. -/
def Step (s : World) (c : Call) (t : World) : Prop :=
  ∃ wheel, c.Returns s.wheel wheel ∧ t = s.log wheel c ∧ t.armed.card ≤ maxTimers

def Wheel.Holds (w : Wheel) (r : TimerRef) : Prop := ∃ i, w.armedTimers i = some r

/-- Each armed timer has fired if its time is up, and stands once in the table, at its own index. `disarm` takes away its
timer and no other, and `newTimer` returns one that was not armed. -/
structure OnTime (s : World) (c : Call) (t : World) : Prop where
  fires : ∀ r ∈ t.armed, (t.wheel.timers r).fired = true ↔ (t.wheel.timers r).whenNs ≤ t.elapsed r
  listed : ∀ r ∈ t.armed, ∃ i : Fin maxTimers, (t.wheel.timers r).index = i.val ∧
    ∀ j, t.wheel.armedTimers j = some r ↔ j = i
  disarms : ∀ r, c = .disarm r → ∀ r', t.wheel.Holds r' ↔ s.wheel.Holds r' ∧ r' ≠ r
  fresh : ∀ whenNs r, c = .newTimer whenNs r → r ∉ s.armed

/-- The deadline of a timer to be armed lies ahead, and the timer is not armed. An advance that takes the total time of an
armed timer to its deadline reaches it alone, and the other way round. -/
def Covered (s : World) : Call → Prop
  | .newTimer whenNs _ => 0 < whenNs ∧ ∀ i : Fin maxTimers, i.val = s.wheel.timerCount → .pool i ∉ s.armed
  | .arm r => 0 < (s.wheel.timers r).whenNs ∧ r ∉ s.armed
  | .disarm _ => True
  | .advanceClocks interval => ∀ r ∈ s.armed,
      (s.wheel.timers r).whenNs ≤ s.elapsed r ∨ (s.wheel.timers r).whenNs ≤ interval ↔
        (s.wheel.timers r).whenNs ≤ s.elapsed r + interval

/-- Between calls that are on time. -/
structure Good (s : World) : Prop where
  fits : s.wheel.timerCount ≤ maxTimers
  entry : ∀ i r, s.wheel.armedTimers i = some r →
    r ∈ s.armed ∧ (s.wheel.timers r).index = i.val ∧ i.val < s.wheel.timerCount
  filled : ∀ i : Fin maxTimers, i.val < s.wheel.timerCount → ∃ r, s.wheel.armedTimers i = some r
  listed : ∀ r ∈ s.armed, s.wheel.Holds r
  idle : ∀ r ∉ s.armed, (s.wheel.timers r).index = -1
  card : s.armed.card = s.wheel.timerCount
  fires : ∀ r ∈ s.armed, (s.wheel.timers r).fired = true ↔ (s.wheel.timers r).whenNs ≤ s.elapsed r

section Steps

variable {s u : World} {c : Call}

theorem Good.once (h : Good s) {i j : Fin maxTimers} (hi : s.wheel.armedTimers i = some r)
    (hj : s.wheel.armedTimers j = some r) : i = j := by
  have hindex := (h.entry i r hi).2.1.symm.trans (h.entry j r hj).2.1
  exact Fin.ext (Int.ofNat_inj.mp hindex)

theorem Good.holds_iff (h : Good s) (r : TimerRef) : s.wheel.Holds r ↔ r ∈ s.armed := by
  refine ⟨?_, h.listed r⟩
  rintro ⟨i, hi⟩
  exact (h.entry i r hi).1

/-- A good state has the timers at their place. -/
theorem Good.places (h : Good s) (hr : r ∈ s.armed) :
    ∃ i : Fin maxTimers, (s.wheel.timers r).index = i.val ∧ ∀ j, s.wheel.armedTimers j = some r ↔ j = i := by
  obtain ⟨i, hi⟩ := h.listed r hr
  refine ⟨i, (h.entry i r hi).2.1, fun j => ⟨fun hj => h.once hj hi, ?_⟩⟩
  rintro rfl
  exact hi

theorem Good.onTime (h : Good u) (hdisarms : ∀ r, c = .disarm r → ∀ r', u.wheel.Holds r' ↔ s.wheel.Holds r' ∧ r' ≠ r)
    (hfresh : ∀ whenNs r, c = .newTimer whenNs r → r ∉ s.armed) : OnTime s c u where
  fires := h.fires
  listed := fun _ hr => h.places hr
  disarms := hdisarms
  fresh := hfresh

/-- A timer that has just been armed is on time only if its deadline lies ahead. -/
theorem OnTime.ahead (h : OnTime s c u) (hr : r ∈ u.armed) (helapsed : u.elapsed r = 0)
    (hfired : (u.wheel.timers r).fired = false) : 0 < (u.wheel.timers r).whenNs := by
  have hfires := h.fires r hr
  rw [hfired, helapsed] at hfires
  by_contra hwhen
  exact absurd (hfires.mpr (Int.not_lt.mp hwhen)) Bool.noConfusion

/-- One more timer, with its deadline ahead. -/
theorem Good.push (h : Good s) (hr : r ∉ s.armed) (timer : Timer) (hwhen : 0 < timer.whenNs)
    (hcount : s.wheel.timerCount < maxTimers) :
    Good { wheel := (s.wheel.setTimer r timer).push r hcount, armed := insert r s.armed,
           elapsed := Function.update s.elapsed r 0 } := by
  set w' := (s.wheel.setTimer r timer).push r hcount
  have hsame : w'.timers r = { timer with fired := false, index := s.wheel.timerCount } :=
    Wheel.push_timers_self timer hcount
  have hother {r' : TimerRef} (hne : r' ≠ r) : w'.timers r' = s.wheel.timers r' :=
    Wheel.push_timers_of_ne timer hcount hne
  have htable (i : Fin maxTimers) :
      w'.armedTimers i = if i.val = s.wheel.timerCount then some r else s.wheel.armedTimers i := Wheel.push_armedTimers _ i
  have hne {r' : TimerRef} (hr' : r' ∈ s.armed) : r' ≠ r := fun heq => hr (heq ▸ hr')
  constructor
  · exact hcount
  · intro i r' hi
    change w'.armedTimers i = some r' at hi
    rw [htable] at hi
    split_ifs at hi with hlast
    · cases hi
      refine ⟨Finset.mem_insert_self r s.armed, ?_, ?_⟩
      · change (w'.timers r).index = _
        rw [hsame, hlast]
      · change i.val < s.wheel.timerCount + 1
        omega
    · obtain ⟨harmed, hindex, hlt⟩ := h.entry i r' hi
      refine ⟨Finset.mem_insert_of_mem harmed, ?_, Nat.lt_succ_of_lt hlt⟩
      change (w'.timers r').index = _
      rw [hother (hne harmed), hindex]
  · intro i hi
    change i.val < s.wheel.timerCount + 1 at hi
    change ∃ r', w'.armedTimers i = some r'
    rw [htable]
    split_ifs with hlast
    · exact ⟨r, rfl⟩
    · exact h.filled i (by omega)
  · intro r' hr'
    change ∃ i, w'.armedTimers i = some r'
    rcases Finset.mem_insert.mp hr' with rfl | hr'
    · exact ⟨⟨s.wheel.timerCount, hcount⟩, (htable _).trans (if_pos rfl)⟩
    · obtain ⟨i, hi⟩ := h.listed r' hr'
      refine ⟨i, (htable i).trans ((if_neg ?_).trans hi)⟩
      exact Nat.ne_of_lt (h.entry i r' hi).2.2
  · intro r' hr'
    obtain ⟨hne', hr'⟩ := not_or.mp (mt Finset.mem_insert.mpr hr')
    change (w'.timers r').index = -1
    rw [hother hne', h.idle r' hr']
  · change (insert r s.armed).card = s.wheel.timerCount + 1
    rw [Finset.card_insert_of_notMem hr, h.card]
  · intro r' hr'
    change (w'.timers r').fired = true ↔ (w'.timers r').whenNs ≤ Function.update s.elapsed r 0 r'
    rcases Finset.mem_insert.mp hr' with rfl | hr'
    · rw [hsame, Function.update_self]
      exact iff_of_false Bool.noConfusion (not_le.mpr hwhen)
    · rw [hother (hne hr'), Function.update_of_ne (hne hr'), h.fires r' hr']

/-- One timer less. -/
theorem Good.remove (h : Good s) {k : Fin maxTimers} {n : Nat} (hk : s.wheel.armedTimers k = some r)
    (hcount : s.wheel.timerCount = n + 1) (hn : n < maxTimers) (hlast : s.wheel.armedTimers ⟨n, hn⟩ = some t) :
    Good { s with wheel := s.wheel.remove k ⟨n, hn⟩ r t, armed := s.armed.erase r } := by
  obtain ⟨hr, hrindex, hkn⟩ := h.entry k r hk
  obtain ⟨ht, htindex, -⟩ := h.entry ⟨n, hn⟩ t hlast
  set w' := s.wheel.remove k ⟨n, hn⟩ r t
  have htable (i : Fin maxTimers) :
      w'.armedTimers i = if i.val = n then none else if i = k then some t else s.wheel.armedTimers i :=
    (Wheel.remove_armedTimers i).trans (if_congr Fin.ext_iff rfl rfl)
  have hcount' : w'.timerCount = n := by
    change s.wheel.timerCount - 1 = n
    omega
  constructor
  · change w'.timerCount ≤ maxTimers
    omega
  · intro i r' hi
    change w'.armedTimers i = some r' at hi
    change r' ∈ s.armed.erase r ∧ (w'.timers r').index = i.val ∧ i.val < w'.timerCount
    rw [htable] at hi
    split_ifs at hi with hin hik
    · cases hi
      have hne : t ≠ r := by
        rintro rfl
        exact hin (by rw [hik, h.once hk hlast])
      refine ⟨Finset.mem_erase.mpr ⟨hne, ht⟩, ?_, by omega⟩
      rw [Wheel.remove_timers_last hne, hik]
    · obtain ⟨harmed, hindex, hlt⟩ := h.entry i r' hi
      have hne : r' ≠ r := by
        rintro rfl
        exact hik (h.once hi hk)
      have hne' : r' ≠ t := by
        rintro rfl
        exact hin (congrArg Fin.val (h.once hi hlast))
      refine ⟨Finset.mem_erase.mpr ⟨hne, harmed⟩, ?_, by omega⟩
      rw [Wheel.remove_timers_of_ne hne hne', hindex]
  · intro i hi
    change i.val < w'.timerCount at hi
    change ∃ r', w'.armedTimers i = some r'
    rw [htable, if_neg (by omega)]
    split_ifs
    · exact ⟨t, rfl⟩
    · exact h.filled i (by omega)
  · intro r' hr'
    obtain ⟨hne, hr'⟩ := Finset.mem_erase.mp hr'
    obtain ⟨i, hi⟩ := h.listed r' hr'
    change ∃ i, w'.armedTimers i = some r'
    have hik : i ≠ k := by
      rintro rfl
      rw [hk] at hi
      cases hi
      exact hne rfl
    by_cases hin : i.val = n
    -- the last timer stands at the place of the one that went
    · have htr : t = r' := by
        have hsame : i = ⟨n, hn⟩ := Fin.ext hin
        rw [hsame, hlast] at hi
        exact Option.some.inj hi
      have hkn' : k.val ≠ n := fun heq => hik (Fin.ext (hin.trans heq.symm))
      exact ⟨k, by rw [htable, if_neg hkn', if_pos rfl, htr]⟩
    · exact ⟨i, by rw [htable, if_neg hin, if_neg hik, hi]⟩
  · intro r' hr'
    change (w'.timers r').index = -1
    by_cases hne : r' = r
    · rw [hne, Wheel.remove_timers_self]
    · have hr'' : r' ∉ s.armed := fun harmed => hr' (Finset.mem_erase.mpr ⟨hne, harmed⟩)
      have hne' : r' ≠ t := fun heq => hr'' (heq ▸ ht)
      rw [Wheel.remove_timers_of_ne hne hne', h.idle r' hr'']
  · change (s.armed.erase r).card = w'.timerCount
    rw [Finset.card_erase_of_mem hr, h.card, hcount, hcount', Nat.add_sub_cancel]
  · intro r' hr'
    change (w'.timers r').fired = true ↔ (w'.timers r').whenNs ≤ s.elapsed r'
    obtain ⟨hwhen, hfired⟩ := Wheel.remove_keeps (w := s.wheel) (k := k) (r := r) (t := t) r'
    rw [hwhen, hfired, h.fires r' (Finset.mem_of_mem_erase hr')]

theorem newTimer_step (h : Good s) (hstep : Step s (.newTimer whenNs r) u) :
    (OnTime s (.newTimer whenNs r) u ↔ Covered s (.newTimer whenNs r)) ∧ (Covered s (.newTimer whenNs r) → Good u) := by
  obtain ⟨w', hreturns, hu, -⟩ := hstep
  rw [Call.Returns] at hreturns
  have hcount : s.wheel.timerCount < maxTimers := by
    by_contra hfull
    rw [newTimer, Act.get_bind_run, slot, dif_neg hfull] at hreturns
    cases hreturns
  rw [newTimer_push whenNs hcount] at hreturns
  cases hreturns
  -- the slot of the pool is the one behind the last armed timer
  have hgood (hcovered : Covered s (.newTimer whenNs (.pool ⟨s.wheel.timerCount, hcount⟩))) : Good u := by
    rw [hu]
    exact h.push (hcovered.2 ⟨_, hcount⟩ rfl) { whenNs } hcovered.1 hcount
  refine ⟨⟨fun hontime => ⟨?_, fun i hi => ?_⟩, fun hcovered => (hgood hcovered).onTime ?_ ?_⟩, hgood⟩
  · have hwheel := congrArg (fun w => w.timers (.pool ⟨s.wheel.timerCount, hcount⟩)) (congrArg World.wheel hu)
    have htimer := hwheel.trans (Wheel.push_timers_self { whenNs } hcount)
    have hahead := hontime.ahead (hu ▸ Finset.mem_insert_self _ s.armed) (hu ▸ Function.update_self _ _ _)
      (congrArg Timer.fired htimer)
    have hwhen := congrArg Timer.whenNs htimer
    exact hahead.trans_eq hwhen
  · have hslot : i = ⟨s.wheel.timerCount, hcount⟩ := Fin.ext hi
    rw [hslot]
    exact hontime.fresh whenNs _ rfl
  · intro r' hcall
    cases hcall
  · rintro whenNs' r' hcall
    cases hcall
    exact hcovered.2 ⟨_, hcount⟩ rfl

theorem arm_step (h : Good s) (hstep : Step s (.arm r) u) :
    (OnTime s (.arm r) u ↔ Covered s (.arm r)) ∧ (Covered s (.arm r) → Good u) := by
  obtain ⟨w', hreturns, hu, hcard⟩ := hstep
  rw [Call.Returns] at hreturns
  by_cases hr : r ∈ s.armed
  -- an armed timer gets a second entry, or the index of none
  · have hno : ¬Covered s (.arm r) := fun hcovered => hcovered.2 hr
    refine ⟨iff_of_false (fun hontime => ?_) hno, fun hcovered => absurd hcovered hno⟩
    obtain ⟨i, hindex, hplaces⟩ := hontime.listed r (hu ▸ Finset.mem_insert_self r s.armed)
    obtain ⟨k, hk⟩ := h.listed r hr
    have hklt := (h.entry k r hk).2.2
    rw [hu] at hindex hplaces
    change (w'.timers r).index = i.val at hindex
    change ∀ j, w'.armedTimers j = some r ↔ j = i at hplaces
    by_cases hcount : s.wheel.timerCount < maxTimers
    · rw [arm_push r hcount] at hreturns
      cases hreturns
      have hfirst := (hplaces k).mp (by
        change Function.update s.wheel.armedTimers ⟨s.wheel.timerCount, hcount⟩ (some r) k = some r
        rw [Function.update_of_ne (fun heq => absurd (congrArg Fin.val heq) (Nat.ne_of_lt hklt)), hk])
      have hsecond := (hplaces ⟨s.wheel.timerCount, hcount⟩).mp (Function.update_self _ _ _)
      exact absurd (congrArg Fin.val (hfirst.trans hsecond.symm)) (Nat.ne_of_lt hklt)
    · have hcast : s.wheel.timerCount < i32Bound := lt_of_le_of_lt h.fits (by decide)
      rw [arm, Act.get_bind_run, castI32_of_lt hcast, Act.lift_ok_bind_run, Act.modify_bind_run, dif_neg hcount] at hreturns
      cases hreturns
      rw [Wheel.setTimer_same] at hindex
      change (s.wheel.timerCount : Int) = i.val at hindex
      have hi := i.isLt
      omega
  · have hcount : s.wheel.timerCount < maxTimers := by
      rw [hu] at hcard
      change (insert r s.armed).card ≤ maxTimers at hcard
      rw [Finset.card_insert_of_notMem hr, h.card] at hcard
      exact hcard
    rw [arm_push r hcount] at hreturns
    cases hreturns
    have hgood (hcovered : Covered s (.arm r)) : Good u := by
      have hpush := h.push hr (s.wheel.timers r) hcovered.1 hcount
      have hsame : s.wheel.setTimer r (s.wheel.timers r) = s.wheel := by
        simp only [Wheel.setTimer, Function.update_eq_self]
      rw [hu]
      simp only [hsame] at hpush
      exact hpush
    refine ⟨⟨fun hontime => ⟨?_, hr⟩, fun hcovered => (hgood hcovered).onTime ?_ ?_⟩, hgood⟩
    rotate_left
    · intro r' hcall
      cases hcall
    · intro whenNs r' hcall
      cases hcall
    have htimer := (congrArg (fun u => u.wheel.timers r) hu).trans (Wheel.setTimer_same _ _ _)
    have hahead := hontime.ahead (hu ▸ Finset.mem_insert_self _ s.armed) (hu ▸ Function.update_self _ _ _)
      (congrArg Timer.fired htimer)
    have hwhen := congrArg Timer.whenNs htimer
    exact hahead.trans_eq hwhen

theorem disarm_step (h : Good s) (hstep : Step s (.disarm r) u) : OnTime s (.disarm r) u ∧ Good u := by
  obtain ⟨w', hreturns, hu, -⟩ := hstep
  rw [Call.Returns] at hreturns
  have hgood : Good u := by
    by_cases hr : r ∈ s.armed
    · obtain ⟨k, hk⟩ := h.listed r hr
      obtain ⟨-, hindex, hlt⟩ := h.entry k r hk
      obtain ⟨n, hcount⟩ := Nat.exists_eq_add_one_of_ne_zero (Nat.ne_of_gt (Nat.zero_lt_of_lt hlt))
      have hn : n < maxTimers := Nat.lt_of_lt_of_le (by rw [hcount]; exact Nat.lt_succ_self n) h.fits
      obtain ⟨t, hlast⟩ := h.filled ⟨n, hn⟩ (by rw [hcount]; exact Nat.lt_succ_self n)
      rw [disarm_remove hindex hcount (by omega) hn hlast] at hreturns
      cases hreturns
      rw [hu]
      exact h.remove hk hcount hn hlast
    · rw [disarm_idle (h.idle r hr)] at hreturns
      cases hreturns
      rw [hu, World.log, Finset.erase_eq_of_notMem hr]
      exact h
  refine ⟨hgood.onTime (fun r' hcall q => ?_) nofun, hgood⟩
  cases hcall
  rw [hgood.holds_iff, h.holds_iff, hu]
  exact Finset.mem_erase.trans and_comm

/-- A tick changes no timer but those that fire. -/
theorem Timer.after_keeps (timer : Timer) (interval : Int) (p : Prop) [Decidable p] :
    (timer.after interval p).index = timer.index ∧ (timer.after interval p).whenNs = timer.whenNs := by
  rw [Timer.after]
  split_ifs <;> exact ⟨rfl, rfl⟩

theorem Timer.fired_after (timer : Timer) (interval : Int) {p : Prop} [Decidable p] (hp : p) :
    (timer.after interval p).fired = true ↔ timer.fired = true ∨ timer.whenNs ≤ interval := by
  rw [Timer.after]
  split_ifs with hfires
  · exact iff_of_true rfl (Or.inr (of_decide_eq_true hfires.2.2))
  · cases hfired : timer.fired with
    | true => exact iff_of_true rfl (Or.inl rfl)
    | false =>
        refine iff_of_false Bool.noConfusion (not_or.mpr ⟨Bool.noConfusion, fun hle => ?_⟩)
        exact hfires ⟨hp, hfired, decide_eq_true hle⟩

/-- An advance is on time exactly if no deadline is reached by it and earlier advances together only. -/
theorem advance_step (h : Good s) (hstep : Step s (.advanceClocks interval) u) :
    (OnTime s (.advanceClocks interval) u ↔ Covered s (.advanceClocks interval)) ∧
      (Covered s (.advanceClocks interval) → Good u) := by
  obtain ⟨w', hreturns, hu, -⟩ := hstep
  obtain ⟨htable, hcount, htimers⟩ := advanceClocks_ok hreturns
  have hkeeps (r : TimerRef) : (w'.timers r).index = (s.wheel.timers r).index ∧
      (w'.timers r).whenNs = (s.wheel.timers r).whenNs := by
    rw [htimers r]
    exact Timer.after_keeps _ _ _
  have hfired (r : TimerRef) (hr : r ∈ s.armed) :
      (w'.timers r).fired = true ↔ (s.wheel.timers r).whenNs ≤ s.elapsed r ∨ (s.wheel.timers r).whenNs ≤ interval := by
    obtain ⟨k, hk⟩ := h.listed r hr
    have hlisted : s.wheel.Lists 0 s.wheel.timerCount r :=
      ⟨k, Nat.zero_le _, (Nat.zero_add _).symm ▸ (h.entry k r hk).2.2, hk⟩
    rw [htimers r, Timer.fired_after _ _ hlisted, h.fires r hr]
  have hgood (hcovered : Covered s (.advanceClocks interval)) : Good u := by
    rw [hu]
    constructor
    · exact hcount ▸ h.fits
    · intro i r hi
      obtain ⟨harmed, hindex, hlt⟩ := h.entry i r (htable ▸ hi)
      exact ⟨harmed, (hkeeps r).1.trans hindex, hcount ▸ hlt⟩
    · intro i hi
      obtain ⟨r, hr⟩ := h.filled i (hcount ▸ hi)
      exact ⟨r, (congrFun htable i).trans hr⟩
    · intro r hr
      obtain ⟨i, hi⟩ := h.listed r hr
      exact ⟨i, (congrFun htable i).trans hi⟩
    · exact fun r hr => (hkeeps r).1.trans (h.idle r hr)
    · exact h.card.trans hcount.symm
    · intro r hr
      change (w'.timers r).fired = true ↔ (w'.timers r).whenNs ≤ s.elapsed r + interval
      rw [hfired r hr, (hkeeps r).2]
      exact hcovered r hr
  refine ⟨⟨fun hontime r hr => ?_, fun hcovered => (hgood hcovered).onTime nofun nofun⟩, hgood⟩
  have hfires := hontime.fires r (hu ▸ hr)
  rw [hu] at hfires
  change (w'.timers r).fired = true ↔ (w'.timers r).whenNs ≤ s.elapsed r + interval at hfires
  rwa [hfired r hr, (hkeeps r).2] at hfires

theorem step_iff (h : Good s) (hstep : Step s c u) : (OnTime s c u ↔ Covered s c) ∧ (Covered s c → Good u) := by
  cases c with
  | newTimer whenNs r => exact newTimer_step h hstep
  | arm r => exact arm_step h hstep
  | disarm r =>
      obtain ⟨hontime, hgood⟩ := disarm_step h hstep
      exact ⟨iff_of_true hontime True.intro, fun _ => hgood⟩
  | advanceClocks interval => exact advance_step h hstep

end Steps

/-- The wheel behind `init`, with timers that were never armed. -/
def Wheel.Fresh (w : Wheel) : Prop := w.armedTimers = (fun _ => none) ∧ w.timerCount = 0 ∧ ∀ r, (w.timers r).index = -1

theorem Wheel.Fresh.good (h : w.Fresh) : Good { wheel := w } := by
  obtain ⟨htable, hcount, hidle⟩ := h
  constructor
  · exact hcount ▸ Nat.zero_le _
  · intro i r hi
    rw [htable] at hi
    cases hi
  · intro i hi
    rw [hcount] at hi
    exact absurd hi (Nat.not_lt_zero _)
  · exact fun r hr => absurd hr (Finset.notMem_empty r)
  · exact fun r _ => hidle r
  · exact hcount.symm
  · exact fun r hr => absurd hr (Finset.notMem_empty r)

/-- The runs in which every call is on time are those whose calls are all covered. -/
theorem timers_on_time_iff (w : Wheel) (h : w.Fresh) (calls : List Call) (t : World) :
    Runs.Run (fun s c t => Step s c t ∧ OnTime s c t) { wheel := w } calls t ↔
      Runs.Run (fun s c t => Step s c t ∧ Covered s c) { wheel := w } calls t :=
  Runs.Run.along_iff (I := Good) (B := fun s c _ => Covered s c) h.good
    (fun _ _ _ hs hstep => (step_iff hs hstep).1) fun _ _ _ hs hstep => (step_iff hs hstep).2

theorem fresh_empty : ({} : Wheel).Fresh := ⟨rfl, rfl, fun _ => rfl⟩

/-- The world behind a call that returns. -/
def World.next (s : World) (c : Call) : World :=
  s.log (match c with
    | .newTimer whenNs _ => (newTimer whenNs s.wheel).2
    | .arm r => (arm r s.wheel).2
    | .disarm r => (disarm r s.wheel).2
    | .advanceClocks interval => (advanceClocks interval s.wheel).2) c

theorem timers_on_time_single : Runs.Run (fun s c t => Step s c t ∧ OnTime s c t) { wheel := {} }
    [.newTimer 2 (.pool 0), .advanceClocks 2] (World.next (World.next {} (.newTimer 2 (.pool 0))) (.advanceClocks 2)) := by
  refine (timers_on_time_iff {} fresh_empty _ _).mpr (.cons ⟨⟨_, rfl, rfl, by decide⟩, by decide, ?_⟩
    (.single ⟨⟨_, rfl, rfl, by decide⟩, ?_⟩))
  · exact fun i _ => Finset.notMem_empty _
  · intro r hr
    obtain rfl := Finset.mem_singleton.mp hr
    decide

/-- Two advances of a nanosecond do not fire a timer of two nanoseconds. The timer that is created behind the removal of
the first of two takes the place of the second. -/
theorem deadline_missed_and_slot_taken :
    (∃ t, Runs.Run Step {} [.newTimer 2 (.pool 0), .advanceClocks 1, .advanceClocks 1] t ∧ TimerRef.pool 0 ∈ t.armed ∧
      (t.wheel.timers (.pool 0)).fired = false ∧ (t.wheel.timers (.pool 0)).whenNs ≤ t.elapsed (.pool 0)) ∧
    ∃ s t, Runs.Run Step {} [.newTimer 5 (.pool 0), .newTimer 5 (.pool 1), .disarm (.pool 0)] s ∧
      Step s (.newTimer 7 (.pool 1)) t ∧ TimerRef.pool 1 ∈ s.armed := by
  refine ⟨⟨World.next (World.next (World.next {} (.newTimer 2 (.pool 0))) (.advanceClocks 1)) (.advanceClocks 1),
    .cons ⟨_, rfl, rfl, by decide⟩ (.cons ⟨_, rfl, rfl, by decide⟩ (.single ⟨_, rfl, rfl, by decide⟩)),
    by decide, by decide, by decide⟩, ?_⟩
  refine ⟨World.next (World.next (World.next {} (.newTimer 5 (.pool 0))) (.newTimer 5 (.pool 1))) (.disarm (.pool 0)), _,
    .cons ⟨_, rfl, rfl, by decide⟩ (.cons ⟨_, rfl, rfl, by decide⟩ (.single ⟨_, rfl, rfl, by decide⟩)),
    ⟨_, rfl, rfl, ?_⟩, ?_⟩
  · decide
  · decide

end Kernel.Timers
