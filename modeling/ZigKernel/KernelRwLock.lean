import ZigKernel.LangInt
import ZigKernel.LibRuns
import ZigKernel.LibTable

/-! `RwLock` of `src/lib/klock.zig`, used by any number of threads at once: one step is one atomic operation on a lock, or
one access to the counter or test of it. Whatever the order of the steps, a writer is alone, the counter does not
overflow, and the threads never wait for each other in a circle. -/

namespace Kernel.Klock

open Zig

/-- `write` and `read` are the flags of two spinlocks. -/
structure RwLock where
  write : Bool := false
  read : Bool := false
  readerCount : Nat := 0
  deriving DecidableEq

/-- What a thread does next; between two calls it is idle, reading or writing. -/
inductive Pc where
  | idle | reading | writing
  /-- `acquireRead` -/
  | takeRead | loadEnter | storeEnter (count : Nat) | testFirst | takeWrite | giveRead
  /-- `releaseRead` -/
  | retakeRead | loadLeave | storeLeave (count : Nat) | testLast | giveWrite | dropRead
  /-- `acquireWrite` and `releaseWrite` -/
  | enterWrite | leaveWrite
  deriving DecidableEq

inductive Call where
  | acquireRead | releaseRead | acquireWrite | releaseWrite
  deriving DecidableEq

def Pc.start : Call → Pc → Option Pc
  | .acquireRead, .idle => some .takeRead
  | .releaseRead, .reading => some .retakeRead
  | .acquireWrite, .idle => some .enterWrite
  | .releaseWrite, .writing => some .leaveWrite
  | _, _ => none

/-- One turn of the loop of `Lock.acquire`: if the lock is taken, the thread stays where it is. -/
def spin (taken : Bool) (stay done : Pc) (lock locked : RwLock) : Pc × RwLock :=
  if taken then (stay, lock) else (done, locked)

/-- The next step of a thread; the counter has 32 bits and its arithmetic is checked. -/
def Pc.run (lock : RwLock) : Pc → Outcome Empty (Pc × RwLock)
  | .takeRead => .ok (spin lock.read .takeRead .loadEnter lock { lock with read := true })
  | .loadEnter => .ok (.storeEnter lock.readerCount, lock)
  | .storeEnter count => do
      let count ← castU32 (count + 1)
      return (.testFirst, { lock with readerCount := count.val })
  | .testFirst => .ok (if lock.readerCount = 1 then .takeWrite else .giveRead, lock)
  | .takeWrite => .ok (spin lock.write .takeWrite .giveRead lock { lock with write := true })
  | .giveRead => .ok (.reading, { lock with read := false })
  | .retakeRead => .ok (spin lock.read .retakeRead .loadLeave lock { lock with read := true })
  | .loadLeave => .ok (.storeLeave lock.readerCount, lock)
  | .storeLeave count => do
      let count ← subU64 count 1
      return (.testLast, { lock with readerCount := count })
  | .testLast => .ok (if lock.readerCount = 0 then .giveWrite else .dropRead, lock)
  | .giveWrite => .ok (.dropRead, { lock with write := false })
  | .dropRead => .ok (.idle, { lock with read := false })
  | .enterWrite => .ok (spin lock.write .enterWrite .writing lock { lock with write := true })
  | .leaveWrite => .ok (.idle, { lock with write := false })
  | pc => .ok (pc, lock)

structure State (n : Nat) where
  lock : RwLock := {}
  pc : Fin n → Pc := fun _ => .idle

inductive Label (n : Nat) where
  | call (t : Fin n) (c : Call)
  | run (t : Fin n)

inductive Step {n : Nat} (s : State n) : Label n → State n → Prop where
  | call {t : Fin n} {c : Call} {pc : Pc} (h : (s.pc t).start c = some pc) :
      Step s (.call t c) { s with pc := Function.update s.pc t pc }
  | run {t : Fin n} {pc : Pc} {lock : RwLock} (h : (s.pc t).run s.lock = .ok (pc, lock)) :
      Step s (.run t) { lock, pc := Function.update s.pc t pc }

abbrev Run {n : Nat} := Runs.Run (Step (n := n))

/-- How a thread gets on in one step, by the beginning of a call or inside one. -/
inductive Move (lock : RwLock) : Pc → Pc → RwLock → Prop where
  | acquireRead : Move lock .idle .takeRead lock
  | releaseRead : Move lock .reading .retakeRead lock
  | acquireWrite : Move lock .idle .enterWrite lock
  | releaseWrite : Move lock .writing .leaveWrite lock
  | enterRead (h : lock.read = false) : Move lock .takeRead .loadEnter { lock with read := true }
  | loadEnter : Move lock .loadEnter (.storeEnter lock.readerCount) lock
  | storeEnter {count : Nat} : Move lock (.storeEnter count) .testFirst { lock with readerCount := count + 1 }
  | first (h : lock.readerCount = 1) : Move lock .testFirst .takeWrite lock
  | later (h : lock.readerCount ≠ 1) : Move lock .testFirst .giveRead lock
  | takeWrite (h : lock.write = false) : Move lock .takeWrite .giveRead { lock with write := true }
  | giveRead : Move lock .giveRead .reading { lock with read := false }
  | leaveRead (h : lock.read = false) : Move lock .retakeRead .loadLeave { lock with read := true }
  | loadLeave : Move lock .loadLeave (.storeLeave lock.readerCount) lock
  | storeLeave {count : Nat} (h : 1 ≤ count) :
      Move lock (.storeLeave count) .testLast { lock with readerCount := count - 1 }
  | last (h : lock.readerCount = 0) : Move lock .testLast .giveWrite lock
  | others (h : lock.readerCount ≠ 0) : Move lock .testLast .dropRead lock
  | giveWrite : Move lock .giveWrite .dropRead { lock with write := false }
  | dropRead : Move lock .dropRead .idle { lock with read := false }
  | enterWrite (h : lock.write = false) : Move lock .enterWrite .writing { lock with write := true }
  | leaveWrite : Move lock .leaveWrite .idle { lock with write := false }

theorem spin_eq {taken : Bool} {stay done pc : Pc} {lock locked lock' : RwLock}
    (h : spin taken stay done lock locked = (pc, lock')) :
    (pc = stay ∧ lock' = lock) ∨ (taken = false ∧ pc = done ∧ lock' = locked) := by
  cases taken with
  | true =>
      cases h
      exact .inl ⟨rfl, rfl⟩
  | false =>
      cases h
      exact .inr ⟨rfl, rfl, rfl⟩

theorem Pc.start_move {old pc : Pc} {c : Call} (h : old.start c = some pc) (lock : RwLock) : Move lock old pc lock := by
  cases c <;> cases old <;> cases h
  · exact .acquireRead
  · exact .releaseRead
  · exact .acquireWrite
  · exact .releaseWrite

/-- A thread waits where it is, or gets on. -/
theorem Pc.run_cases {old pc : Pc} {lock lock' : RwLock} (h : old.run lock = .ok (pc, lock')) :
    (pc = old ∧ lock' = lock) ∨ Move lock old pc lock' := by
  cases old with
  | takeRead =>
      obtain ⟨rfl, rfl⟩ | ⟨hfree, rfl, rfl⟩ := spin_eq (Outcome.ok.inj h)
      · exact .inl ⟨rfl, rfl⟩
      · exact .inr (.enterRead hfree)
  | takeWrite =>
      obtain ⟨rfl, rfl⟩ | ⟨hfree, rfl, rfl⟩ := spin_eq (Outcome.ok.inj h)
      · exact .inl ⟨rfl, rfl⟩
      · exact .inr (.takeWrite hfree)
  | retakeRead =>
      obtain ⟨rfl, rfl⟩ | ⟨hfree, rfl, rfl⟩ := spin_eq (Outcome.ok.inj h)
      · exact .inl ⟨rfl, rfl⟩
      · exact .inr (.leaveRead hfree)
  | enterWrite =>
      obtain ⟨rfl, rfl⟩ | ⟨hfree, rfl, rfl⟩ := spin_eq (Outcome.ok.inj h)
      · exact .inl ⟨rfl, rfl⟩
      · exact .inr (.enterWrite hfree)
  | storeEnter count =>
      obtain ⟨new, hnew, h⟩ := Outcome.bind_eq_ok h
      unfold castU32 at hnew
      split at hnew
      · cases hnew
        cases h
        exact .inr .storeEnter
      · cases hnew
  | storeLeave count =>
      obtain ⟨new, hnew, h⟩ := Outcome.bind_eq_ok h
      obtain ⟨hpos, rfl⟩ := subU64_eq_ok.mp hnew
      cases h
      exact .inr (.storeLeave hpos)
  | testFirst =>
      simp only [Pc.run] at h
      split at h <;> cases h
      · exact .inr (.first ‹_›)
      · exact .inr (.later ‹_›)
  | testLast =>
      simp only [Pc.run] at h
      split at h <;> cases h
      · exact .inr (.last ‹_›)
      · exact .inr (.others ‹_›)
  | loadEnter =>
      cases h
      exact .inr .loadEnter
  | giveRead =>
      cases h
      exact .inr .giveRead
  | loadLeave =>
      cases h
      exact .inr .loadLeave
  | giveWrite =>
      cases h
      exact .inr .giveWrite
  | dropRead =>
      cases h
      exact .inr .dropRead
  | leaveWrite =>
      cases h
      exact .inr .leaveWrite
  | idle | reading | writing =>
      cases h
      exact .inl ⟨rfl, rfl⟩

/-! ### The invariant -/

namespace Pc

/-- The thread has the lock `read`. -/
def inside : Pc → Bool
  | .loadEnter | .storeEnter _ | .testFirst | .takeWrite | .giveRead => true
  | .loadLeave | .storeLeave _ | .testLast | .giveWrite | .dropRead => true
  | _ => false

/-- The counter counts the thread. -/
def counted : Pc → Bool
  | .testFirst | .takeWrite | .giveRead | .reading | .retakeRead | .loadLeave | .storeLeave _ => true
  | _ => false

/-- The thread has the lock `write` as a writer. -/
def writes : Pc → Bool
  | .writing | .leaveWrite => true
  | _ => false

/-- The first reader has counted itself and does not have `write` yet. -/
def arrives : Pc → Bool
  | .testFirst | .takeWrite => true
  | _ => false

def leaves : Pc → Bool
  | .testLast => true
  | _ => false

def gives : Pc → Bool
  | .giveWrite => true
  | _ => false

/-- The thread changes the counter. -/
def stores : Pc → Bool
  | .storeEnter _ | .storeLeave _ => true
  | _ => false

/-- The thread is about to count itself. -/
def enters : Pc → Bool
  | .storeEnter _ => true
  | _ => false

def reads : Pc → Bool
  | .reading => true
  | _ => false

/-- What a place says of the counter, which only the thread inside changes. -/
def fits (count : Nat) : Pc → Prop
  | .storeEnter loaded | .storeLeave loaded => loaded = count
  | .takeWrite => count = 1
  | .giveWrite => count = 0
  | _ => True

end Pc

section Tallies

variable {n : Nat} {s s' : State n} {t u : Fin n} {pc : Pc} {lock : RwLock} {p q : Pc → Bool}

/-- The number of threads at places of a kind. -/
def tally (s : State n) (p : Pc → Bool) : Nat := (List.finRange n).countP fun t => p (s.pc t)

theorem tally_pos (h : p (s.pc t) = true) : 0 < tally s p := Table.countP_pos s.pc h

theorem exists_of_tally (h : 0 < tally s p) : ∃ t, p (s.pc t) = true := by
  obtain ⟨t, -, ht⟩ := List.countP_pos_iff.mp h
  exact ⟨t, ht⟩

theorem tally_le (s : State n) (p : Pc → Bool) : tally s p ≤ n := by
  have hle := List.countP_le_length (p := fun t => p (s.pc t)) (l := List.finRange n)
  rwa [List.length_finRange] at hle

theorem tally_initial (h : p .idle = false) : tally ({} : State n) p = 0 := by
  rw [tally, List.countP_eq_zero]
  intro t _
  simp [h]

/-- A thread moves on: the tallies trade its old place for the new one. -/
theorem tally_update (s : State n) (t : Fin n) (pc : Pc) (lock : RwLock) (p : Pc → Bool) :
    tally { lock, pc := Function.update s.pc t pc } p + (p (s.pc t)).toNat = tally s p + (p pc).toNat := by
  have hupdate := Table.countP_update s.pc p t pc
  have htoNat (b : Bool) : b.toNat = if b then 1 else 0 := by cases b <;> rfl
  rw [htoNat, htoNat]
  exact hupdate

/-- Kinds that have no place in common are counted apart. -/
theorem sum_tally_le (s : State n) (kinds : List (Pc → Bool))
    (h : ∀ pc, (kinds.map fun p => (p pc).toNat).sum ≤ (q pc).toNat) : (kinds.map (tally s)).sum ≤ tally s q := by
  have htoNat (b : Bool) : b.toNat = if b then 1 else 0 := by cases b <;> rfl
  unfold tally
  induction List.finRange n with
  | nil => simp
  | cons t rest ih =>
      have ht := h (s.pc t)
      simp only [htoNat] at ht
      simp only [List.countP_cons, List.sum_map_add]
      omega

end Tallies

/-- The readers have the lock `write` from when the first one has taken it until the last one gives it back. -/
def shared {n : Nat} (s : State n) : Bool :=
  tally s Pc.arrives < s.lock.readerCount + tally s Pc.leaves + tally s Pc.gives

structure Inv {n : Nat} (s : State n) : Prop where
  inside : tally s Pc.inside = s.lock.read.toNat
  counted : tally s Pc.counted = s.lock.readerCount
  write : tally s Pc.writes + (shared s).toNat = s.lock.write.toNat
  fits : ∀ t, (s.pc t).fits s.lock.readerCount

section Invariant

variable {n : Nat} {s s' : State n} {t u : Fin n} {pc : Pc} {lock : RwLock}

theorem inv_initial : Inv ({} : State n) where
  inside := tally_initial rfl
  counted := tally_initial rfl
  write := by
    rw [shared, tally_initial rfl, tally_initial rfl, tally_initial rfl, tally_initial rfl]
    rfl
  fits _ := trivial

/-- The places inside are different ones, and so are those that are counted. -/
theorem tally_inside (s : State n) :
    tally s Pc.arrives + tally s Pc.leaves + tally s Pc.gives + tally s Pc.stores ≤ tally s Pc.inside := by
  have hle := sum_tally_le (q := Pc.inside) s [Pc.arrives, Pc.leaves, Pc.gives, Pc.stores] fun pc => by
    cases pc <;> simp [Pc.arrives, Pc.leaves, Pc.gives, Pc.stores, Pc.inside]
  simpa [Nat.add_assoc] using hle

theorem tally_counted (s : State n) : tally s Pc.arrives + tally s Pc.reads ≤ tally s Pc.counted := by
  have hle := sum_tally_le (q := Pc.counted) s [Pc.arrives, Pc.reads] fun pc => by
    cases pc <;> simp [Pc.arrives, Pc.reads, Pc.counted]
  simpa using hle

theorem tally_everyone (s : State n) : tally s Pc.counted + tally s Pc.enters ≤ n := by
  have hle := sum_tally_le (q := fun _ => true) s [Pc.counted, Pc.enters] fun pc => by
    cases pc <;> simp [Pc.counted, Pc.enters]
  exact (by simpa using hle : _ ≤ tally s fun _ => true).trans (tally_le s _)

/-- The counter changes inside only. -/
theorem Move.keeps {old : Pc} {lock lock' : RwLock} (h : Move lock old pc lock') :
    lock'.readerCount = lock.readerCount ∨ old.inside = true := by
  cases h <;> first | exact .inl rfl | exact .inr rfl

theorem Move.fits {old : Pc} {lock lock' : RwLock} (h : Move lock old pc lock') : pc.fits lock'.readerCount := by
  cases h <;> first | exact trivial | rfl | assumption

theorem inside_or_fits (pc : Pc) : pc.inside = true ∨ ∀ count, pc.fits count := by
  cases pc <;> first | exact .inl rfl | exact .inr fun _ => trivial

/-- No other thread is inside. -/
theorem Inv.alone (hinv : Inv s) (ht : (s.pc t).inside = true) (hu : (s.pc u).inside = true) : t = u := by
  have hle : tally s Pc.inside ≤ 1 := by
    rw [hinv.inside]
    exact Bool.toNat_le _
  exact Table.eq_of_countP_le_one (t := s.pc) (p := Pc.inside) hle ht hu

/-- The places of the other threads still fit, since a thread inside keeps them outside. -/
theorem Inv.move_fits (hinv : Inv s) (hmove : Move s.lock (s.pc t) pc lock) :
    ∀ u, (Function.update s.pc t pc u).fits lock.readerCount := by
  intro u
  rcases eq_or_ne u t with rfl | hne
  · rw [Function.update_self]
    exact hmove.fits
  · rw [Function.update_of_ne hne]
    obtain hsame | hinside := hmove.keeps
    · rw [hsame]
      exact hinv.fits u
    · obtain hu | hu := inside_or_fits (s.pc u)
      · exact absurd (hinv.alone hu hinside) hne
      · exact hu _

theorem Inv.move_inside (hinv : Inv s) (hmove : Move s.lock (s.pc t) pc lock) :
    tally { lock, pc := Function.update s.pc t pc } Pc.inside = lock.read.toNat := by
  have htally := tally_update s t pc lock Pc.inside
  rw [hinv.inside] at htally
  generalize tally _ _ = after at htally ⊢
  generalize s.pc t = old at hmove htally
  cases hmove with
  | enterRead h | leaveRead h =>
      rw [h] at htally
      exact htally
  | giveRead | dropRead =>
      have hread := Bool.toNat_le s.lock.read
      simp only [Pc.inside, Bool.toNat_true, Bool.toNat_false] at htally ⊢
      omega
  | _ => exact Nat.add_right_cancel htally

theorem Inv.move_counted (hinv : Inv s) (hmove : Move s.lock (s.pc t) pc lock) :
    tally { lock, pc := Function.update s.pc t pc } Pc.counted = lock.readerCount := by
  have htally := tally_update s t pc lock Pc.counted
  have hfits := hinv.fits t
  rw [hinv.counted] at htally
  generalize tally _ _ = after at htally ⊢
  generalize s.pc t = old at hmove htally hfits
  cases hmove with
  | storeEnter =>
      rw [show _ = s.lock.readerCount from hfits]
      exact htally
  | storeLeave h =>
      have hnow : _ = s.lock.readerCount := hfits
      simp only [Pc.counted, Bool.toNat_true, Bool.toNat_false] at htally ⊢
      omega
  | _ => exact Nat.add_right_cancel htally

/-- The share of the readers in the lock `write` changes with the lock alone. -/
theorem Inv.move_write (hinv : Inv s) (hmove : Move s.lock (s.pc t) pc lock) :
    tally { lock, pc := Function.update s.pc t pc } Pc.writes + (shared { lock, pc := Function.update s.pc t pc }).toNat =
      lock.write.toNat := by
  have hwrite := hinv.write
  have hbit := Bool.toNat_le s.lock.write
  have hin := (tally_inside s).trans (hinv.inside.trans_le (Bool.toNat_le _))
  have harrives := (Nat.le_add_right _ _).trans ((tally_counted s).trans_eq hinv.counted)
  have hfits := hinv.fits t
  have hstores := tally_pos (s := s) (t := t) (p := Pc.stores)
  have htally := tally_update s t pc lock
  have h1 := htally Pc.writes
  have h2 := htally Pc.arrives
  have h3 := htally Pc.leaves
  have h4 := htally Pc.gives
  unfold shared at hwrite ⊢
  generalize tally { lock, pc := Function.update s.pc t pc } Pc.writes = writes at h1 ⊢
  generalize tally { lock, pc := Function.update s.pc t pc } Pc.arrives = arrives at h2 ⊢
  generalize tally { lock, pc := Function.update s.pc t pc } Pc.leaves = leaves at h3 ⊢
  generalize tally { lock, pc := Function.update s.pc t pc } Pc.gives = gives at h4 ⊢
  generalize s.pc t = old at hmove hfits hstores h1 h2 h3 h4
  cases hmove with
  | takeWrite h =>
      have hnow : s.lock.readerCount = 1 := hfits
      simp only [Pc.writes, Pc.arrives, Pc.leaves, Pc.gives, Bool.toNat_true, Bool.toNat_false] at h1 h2 h3 h4
      rw [h, Bool.toNat_false] at hwrite
      have hshared : arrives < s.lock.readerCount + leaves + gives := by omega
      rw [decide_eq_true hshared]
      change writes + 1 = 1
      omega
  | giveWrite =>
      have hnow : s.lock.readerCount = 0 := hfits
      simp only [Pc.writes, Pc.arrives, Pc.leaves, Pc.gives, Bool.toNat_true, Bool.toNat_false] at h1 h2 h3 h4
      have hshared : ¬arrives < s.lock.readerCount + leaves + gives := by omega
      have hbefore : tally s Pc.arrives < s.lock.readerCount + tally s Pc.leaves + tally s Pc.gives := by omega
      rw [decide_eq_true hbefore, Bool.toNat_true] at hwrite
      rw [decide_eq_false hshared]
      change writes + 0 = 0
      omega
  | enterWrite h =>
      obtain rfl := Nat.add_right_cancel h2
      obtain rfl := Nat.add_right_cancel h3
      obtain rfl := Nat.add_right_cancel h4
      obtain rfl : writes = tally s Pc.writes + 1 := h1
      rw [h] at hwrite
      exact (Nat.add_right_comm _ _ _).trans (congrArg (· + 1) hwrite)
  | leaveWrite =>
      obtain rfl := Nat.add_right_cancel h2
      obtain rfl := Nat.add_right_cancel h3
      obtain rfl := Nat.add_right_cancel h4
      obtain hone : writes + 1 = tally s Pc.writes := h1
      change writes + (decide (tally s Pc.arrives < s.lock.readerCount + tally s Pc.leaves + tally s Pc.gives)).toNat = 0
      omega
  | later h | others h | last h =>
      obtain rfl := Nat.add_right_cancel h1
      rw [← hwrite]
      refine congrArg (fun b : Bool => tally s Pc.writes + b.toNat) (decide_eq_decide.mpr ?_)
      simp only [Pc.arrives, Pc.leaves, Pc.gives, Bool.toNat_true, Bool.toNat_false] at h2 h3 h4
      dsimp only
      omega
  | storeEnter | storeLeave h =>
      have hnow : _ = s.lock.readerCount := hfits
      have hinner := hstores rfl
      obtain rfl := Nat.add_right_cancel h1
      rw [← hwrite]
      refine congrArg (fun b : Bool => tally s Pc.writes + b.toNat) (decide_eq_decide.mpr ?_)
      simp only [Pc.arrives, Pc.leaves, Pc.gives, Bool.toNat_true, Bool.toNat_false] at h2 h3 h4
      dsimp only
      omega
  | _ =>
      -- The four tallies are as before.
      obtain rfl := Nat.add_right_cancel h1
      obtain rfl := Nat.add_right_cancel h2
      obtain rfl := Nat.add_right_cancel h3
      obtain rfl := Nat.add_right_cancel h4
      exact hwrite

theorem Inv.move (hinv : Inv s) (hmove : Move s.lock (s.pc t) pc lock) :
    Inv { lock, pc := Function.update s.pc t pc } where
  inside := hinv.move_inside hmove
  counted := hinv.move_counted hmove
  write := hinv.move_write hmove
  fits := hinv.move_fits hmove

theorem Inv.step {l : Label n} (hinv : Inv s) (h : Step s l s') : Inv s' := by
  cases h with
  | call h => exact hinv.move (Pc.start_move h s.lock)
  | run h =>
      rename_i t pc lock
      obtain ⟨rfl, rfl⟩ | hmove := Pc.run_cases h
      · rw [Function.update_eq_self]
        exact hinv
      · exact hinv.move hmove

theorem inv_run {trace : List (Label n)} (hrun : Run {} trace s) : Inv s :=
  hrun.invariant inv_initial fun _ _ _ hinv hstep => hinv.step hstep

end Invariant

/-! ### What the lock promises -/

section Promises

variable {n : Nat} {s : State n} {t u : Fin n} {pc : Pc}

theorem Inv.write_of_shared (hinv : Inv s)
    (h : tally s Pc.arrives < s.lock.readerCount + tally s Pc.leaves + tally s Pc.gives) :
    tally s Pc.writes + 1 = s.lock.write.toNat := by
  have hwrite := hinv.write
  rwa [shared, decide_eq_true h] at hwrite

theorem Inv.write_of_not_shared (hinv : Inv s)
    (h : ¬tally s Pc.arrives < s.lock.readerCount + tally s Pc.leaves + tally s Pc.gives) :
    tally s Pc.writes = s.lock.write.toNat := by
  have hwrite := hinv.write
  rwa [shared, decide_eq_false h] at hwrite

/-- A writer is alone. -/
theorem Inv.exclusive (hinv : Inv s) (ht : s.pc t = .writing) (hu : s.pc u = .writing ∨ s.pc u = .reading) : u = t := by
  have hwrites : 0 < tally s Pc.writes := tally_pos (t := t) (by rw [ht]; rfl)
  have hbit := Bool.toNat_le s.lock.write
  have hle := hinv.write.trans_le hbit
  obtain hu | hu := hu
  · have hone : tally s Pc.writes ≤ 1 := (Nat.le_add_right _ _).trans hle
    exact Table.eq_of_countP_le_one (t := s.pc) (p := Pc.writes) hone (by rw [hu]; rfl) (by rw [ht]; rfl)
  · have hreads : 0 < tally s Pc.reads := tally_pos (t := u) (by rw [hu]; rfl)
    have hcounted := (tally_counted s).trans_eq hinv.counted
    have hshared := hinv.write_of_shared (by omega)
    omega

/-- The counter stays in its 32 bits and does not fall below zero. -/
theorem Inv.no_trap (hinv : Inv s) (hn : n < u32Bound) (t : Fin n) : (s.pc t).run s.lock ≠ .trap := by
  intro htrap
  have hcount := hinv.counted
  cases hpc : s.pc t with
  | storeEnter v =>
      have hv := hinv.fits t
      rw [hpc] at hv
      have hv : v = s.lock.readerCount := hv
      have henters : 0 < tally s Pc.enters := tally_pos (t := t) (by rw [hpc]; rfl)
      have hall := tally_everyone s
      have hfits : v + 1 < u32Bound := by omega
      rw [hpc, Pc.run, castU32_of_lt hfits] at htrap
      cases htrap
  | storeLeave v =>
      have hv := hinv.fits t
      rw [hpc] at hv
      have hv : v = s.lock.readerCount := hv
      have hpos : 0 < tally s Pc.counted := tally_pos (t := t) (by rw [hpc]; rfl)
      have hfits : 1 ≤ v := by omega
      rw [hpc, Pc.run, subU64_of_le hfits] at htrap
      cases htrap
  | _ =>
      rw [hpc] at htrap
      cases htrap

theorem tally_idle (h : ∀ t, s.pc t = .idle) (p : Pc → Bool) (hp : p .idle = false) : tally s p = 0 := by
  rw [tally, List.countP_eq_zero]
  intro t _
  simp [h t, hp]

/-- Once every call has ended, the lock is as it was made. -/
theorem Inv.quiet (hinv : Inv s) (h : ∀ t, s.pc t = .idle) : s.lock = {} := by
  have hread : 0 = s.lock.read.toNat := (tally_idle h Pc.inside rfl).symm.trans hinv.inside
  have hcount : 0 = s.lock.readerCount := (tally_idle h Pc.counted rfl).symm.trans hinv.counted
  have hwrite := hinv.write
  rw [shared, tally_idle h Pc.writes rfl, tally_idle h Pc.arrives rfl, tally_idle h Pc.leaves rfl,
    tally_idle h Pc.gives rfl, ← hcount] at hwrite
  generalize s.lock = lock at hread hcount hwrite
  obtain ⟨write, read, count⟩ := lock
  have hfree (b : Bool) (h : 0 = b.toNat) : b = false := by
    cases b with
    | false => rfl
    | true => cases h
  obtain rfl : 0 = count := hcount
  rw [hfree write hwrite, hfree read hread]

/-- The thread cannot move on by itself. -/
def Pc.blocked (lock : RwLock) : Pc → Bool
  | .idle | .reading | .writing => true
  | .takeRead | .retakeRead => lock.read
  | .takeWrite | .enterWrite => lock.write
  | _ => false

/-- A thread that is neither between two calls nor in front of a lock that is taken gets on. -/
theorem Pc.moves_of_free {lock : RwLock} (hfree : pc.blocked lock = false) (htrap : pc.run lock ≠ .trap) :
    ∃ next lock', pc.run lock = .ok (next, lock') ∧ next ≠ pc := by
  cases pc with
  | idle | reading | writing => cases hfree
  | takeRead | retakeRead | takeWrite | enterWrite =>
      simp only [blocked] at hfree
      rw [Pc.run, spin, hfree]
      exact ⟨_, _, rfl, by decide⟩
  | storeEnter v =>
      by_cases hfits : v + 1 < u32Bound
      · rw [Pc.run, castU32_of_lt hfits]
        exact ⟨_, _, rfl, fun h => by cases h⟩
      · rw [Pc.run, castU32, dif_neg hfits] at htrap
        exact absurd rfl htrap
  | storeLeave v =>
      by_cases hfits : 1 ≤ v
      · rw [Pc.run, subU64_of_le hfits]
        exact ⟨_, _, rfl, fun h => by cases h⟩
      · rw [Pc.run, subU64, if_neg hfits] at htrap
        exact absurd rfl htrap
  | testFirst =>
      rw [Pc.run]
      refine ⟨_, _, rfl, ?_⟩
      split <;> decide
  | testLast =>
      rw [Pc.run]
      refine ⟨_, _, rfl, ?_⟩
      split <;> decide
  | _ => exact ⟨_, _, rfl, fun h => by cases h⟩

namespace Pc

variable {lock : RwLock}

/-- Of the threads inside, only the first reader may wait. -/
theorem eq_takeWrite (hinside : pc.inside = true) (hblocked : pc.blocked lock = true) : pc = .takeWrite := by
  cases pc <;> simp_all [inside, blocked]

theorem eq_writing (hwrites : pc.writes = true) (hblocked : pc.blocked lock = true) : pc = .writing := by
  cases pc <;> simp_all [writes, blocked]

theorem eq_retakeRead (hcounted : pc.counted = true) (houtside : pc.inside = false) (hreading : pc ≠ .reading) :
    pc = .retakeRead := by
  cases pc <;> simp_all [counted, inside]

/-- A thread that waits outside waits for a lock that is taken. -/
theorem taken_of_blocked (hblocked : pc.blocked lock = true) (hbusy : pc ≠ .idle) (hreading : pc ≠ .reading)
    (hwriting : pc ≠ .writing) : lock.read = true ∨ lock.write = true := by
  cases pc <;> simp_all [blocked]

end Pc

/-- Not all threads wait: who has the lock `read` gets on, and so does who has `write`. -/
theorem Inv.exists_free (hinv : Inv s) (hbusy : s.pc u ≠ .idle)
    (hquiet : ∀ t, s.pc t ≠ .reading ∧ s.pc t ≠ .writing) : ∃ t, (s.pc t).blocked s.lock = false := by
  by_contra hnone
  have hall (t : Fin n) : (s.pc t).blocked s.lock = true := by
    by_contra ht
    exact hnone ⟨t, Bool.eq_false_of_not_eq_true ht⟩
  have hwrites : tally s Pc.writes = 0 := by
    by_contra hne
    obtain ⟨t, ht⟩ := exists_of_tally (Nat.pos_of_ne_zero hne)
    exact (hquiet t).2 (Pc.eq_writing ht (hall t))
  have hinside : tally s Pc.inside = 0 := by
    by_contra hne
    obtain ⟨t, ht⟩ := exists_of_tally (Nat.pos_of_ne_zero hne)
    have hpc := Pc.eq_takeWrite ht (hall t)
    have harrives : 0 < tally s Pc.arrives := tally_pos (t := t) (by rw [hpc]; rfl)
    have hfits := hinv.fits t
    have hblocked := hall t
    rw [hpc] at hfits hblocked
    have hcount : s.lock.readerCount = 1 := hfits
    have hheld : s.lock.write.toNat = 1 := congrArg Bool.toNat hblocked
    have hin := (tally_inside s).trans (hinv.inside.trans_le (Bool.toNat_le _))
    have hfree := hinv.write_of_not_shared (by omega)
    omega
  have hread : s.lock.read = false := by
    have hfree := hinv.inside
    rw [hinside] at hfree
    cases hread : s.lock.read with
    | false => rfl
    | true =>
        rw [hread] at hfree
        cases hfree
  -- Nobody is inside, so `write` is taken by readers, one of which is on its way in.
  obtain htaken | htaken := Pc.taken_of_blocked (hall u) hbusy (hquiet u).1 (hquiet u).2
  · rw [hread] at htaken
    cases htaken
  · have hheld : s.lock.write.toNat = 1 := congrArg Bool.toNat htaken
    have hcount : 0 < tally s Pc.counted := by
      have hin := tally_inside s
      rw [hinv.counted]
      by_contra hempty
      have hfree := hinv.write_of_not_shared (by omega)
      omega
    obtain ⟨t, ht⟩ := exists_of_tally hcount
    have houtside : (s.pc t).inside = false := by
      by_contra hin
      have hpos : 0 < tally s Pc.inside := tally_pos (Bool.eq_true_of_not_eq_false hin)
      omega
    have hblocked := hall t
    rw [Pc.eq_retakeRead ht houtside (hquiet t).1, Pc.blocked, hread] at hblocked
    cases hblocked

/-- As long as some call has not ended and nobody reads or writes, some thread gets on. -/
theorem Inv.progress (hinv : Inv s) (hn : n < u32Bound) (hbusy : s.pc u ≠ .idle)
    (hquiet : ∀ t, s.pc t ≠ .reading ∧ s.pc t ≠ .writing) :
    ∃ t next lock, (s.pc t).run s.lock = .ok (next, lock) ∧ next ≠ s.pc t := by
  obtain ⟨t, ht⟩ := hinv.exists_free hbusy hquiet
  exact ⟨t, Pc.moves_of_free ht (hinv.no_trap hn t)⟩

/-- Whatever the order of the steps of fewer than `2^32` threads: a writer is alone, no step overflows the counter, the
lock is free again once every call has ended, and the threads never all wait for each other. -/
theorem rwlock_sound (hn : n < u32Bound) {trace : List (Label n)} (hrun : Run {} trace s) :
    (∀ t u, s.pc t = .writing → s.pc u = .writing ∨ s.pc u = .reading → u = t) ∧
      (∀ t, (s.pc t).run s.lock ≠ .trap) ∧
      ((∀ t, s.pc t = .idle) → s.lock = {}) ∧
      ((∃ t, s.pc t ≠ .idle) → (∀ t, s.pc t ≠ .reading ∧ s.pc t ≠ .writing) →
        ∃ t next lock, (s.pc t).run s.lock = .ok (next, lock) ∧ next ≠ s.pc t) := by
  have hinv := inv_run hrun
  refine ⟨fun t u => hinv.exclusive, hinv.no_trap hn, hinv.quiet, ?_⟩
  rintro ⟨u, hbusy⟩ hquiet
  exact hinv.progress hn hbusy hquiet

/-- A writer of two threads. -/
theorem rwlock_sound_sample :
    ∃ s : State 2, Run {} [.call 0 .acquireWrite, .run 0] s ∧ s.pc 0 = .writing ∧
      ∀ t u, s.pc t = .writing → s.pc u = .writing ∨ s.pc u = .reading → u = t := by
  have hcall : Step ({} : State 2) (.call 0 .acquireWrite) _ := .call rfl
  have hlock : Step _ (.run 0) _ := .run (s := { pc := Function.update (fun _ : Fin 2 => Pc.idle) 0 .enterWrite }) rfl
  have hrun := (Runs.Run.single hcall).snoc hlock
  exact ⟨_, hrun, rfl, (rwlock_sound (by decide) hrun).1⟩

end Promises

end Kernel.Klock
