import ZigKernel.LangReturns
import ZigKernel.LibRuns
import ZigKernel.NativeIdt

/-! Arming, disarming, traps and the collection of records in any order. A trap other than the timer's resumes exactly
where it meets the expectation that is active, at the address of that expectation, and it hangs the kernel otherwise. A
record is handed out exactly if a trap was met since the last arming and the record was not handed out since. -/

namespace Native.Idt

open Zig

inductive Event where
  | arm (x : Expect)
  | disarm
  | takeRecord
  | trap (rflags cr2Register : Nat) (frame : TrapFrame)

inductive Reply where
  | generation (g : Nat)
  | disarmed
  | record (r : Option ObservedTrap)
  | resumed (rip : Nat)
  | hung (h : Hang)
  | panicked
  deriving DecidableEq

def Event.run : Event → Run Reply
  | .arm x => do
      let g ← Idt.arm x
      pure (.generation g)
  | .disarm => do
      Idt.disarm
      pure .disarmed
  | .takeRecord => do
      let r ← Idt.takeRecord
      pure (.record r)
  | .trap rflags cr2Register frame => do
      let rip ← zkTrapCommon rflags cr2Register frame
      pure (.resumed rip)

structure Machine where
  idt : Idt := {}
  /-- The kernel hangs, or it has panicked. -/
  stopped : Bool := false

def Machine.step (m : Machine) (e : Event) : Reply × Machine :=
  match e.run m.idt with
  | (.ok r, idt) => (r, { idt })
  | (.error h, idt) => (.hung h, { idt, stopped := true })
  | (.trap, idt) => (.panicked, { idt, stopped := true })

abbrev Entry := Event × Reply

/-- The events until the kernel stops, with their replies. -/
def Machine.perform (m : Machine) : List Event → List Entry × Machine
  | [] => ([], m)
  | e :: rest =>
      if m.stopped then ([], m)
      else ((e, (m.step e).1) :: ((m.step e).2.perform rest).1, ((m.step e).2.perform rest).2)

/-! ### The law -/

def arms : Entry → Bool
  | (.arm _, _) => true
  | _ => false

/-- A trap other than the timer's that resumes. -/
def recovers : Entry → Bool
  | (.trap _ _ frame, .resumed _) => frame.vector ≠ vecIrq0
  | _ => false

/-- An expectation does not stay active. -/
def disarms : Entry → Bool
  | (.disarm, _) => true
  | l => arms l || recovers l

/-- A record is handed out. -/
def takes : Entry → Bool
  | (.takeRecord, .record (some _)) => true
  | _ => false

/-- The expectation that is active, with the generation that `arm` returned. -/
def Active (log : List Entry) (x : Expect) (g : Nat) : Prop :=
  Runs.Since (fun _ l => l = (.arm x, .generation g)) (fun l => disarms l) log

/-- The entry is a trap that is met behind `before`, and `o` is the record of it. -/
def Met (before : List Entry) (l : Entry) (o : ObservedTrap) : Prop :=
  ∃ rflags cr2Register frame rip x g, l = (.trap rflags cr2Register frame, .resumed rip) ∧ frame.vector ≠ vecIrq0 ∧
    Active before x g ∧ o =
      { vector := frame.vector, errorCode := frame.errorCode, rip := frame.rip, cr2 := cr2Of frame.vector cr2Register
        generation := g }

/-- A trap was met since the last arming, and its record `o` was not handed out since. -/
def Waiting (log : List Entry) (o : ObservedTrap) : Prop :=
  Runs.Since (fun before l => Met before l o) (fun l => arms l || takes l) log

/-- The reply of each event. -/
def Answers (before : List Entry) : Entry → Prop
  | (.arm _, r) => before.countP arms + 1 < u64Bound → r = .generation (before.countP arms + 1)
  | (.disarm, r) => r = .disarmed
  | (.takeRecord, r) => ∃ rec, r = .record rec ∧ ∀ o, rec = some o ↔ Waiting before o
  | (.trap _ cr2Register frame, r) => frame.vector < 256 →
      if frame.vector = vecIrq0 then r = .resumed frame.rip
      else
        (∀ rip, r = .resumed rip ↔ ∃ x g, Active before x g ∧ x.Meets cr2Register frame ∧ rip = x.resumeRip) ∧
          ((¬∃ x g, Active before x g ∧ x.Meets cr2Register frame) → ∃ h, r = .hung h)

/-- Between two recoveries there is an arming. -/
def Once (before : List Entry) (l : Entry) : Prop :=
  recovers l → ∀ b k c, before = b ++ k :: c → recovers k → ∃ a ∈ c, arms a

/-- A generation is above those before it. -/
def Rises (before : List Entry) (l : Entry) : Prop :=
  ∀ g, l.2 = .generation g → ∀ k ∈ before, ∀ g', k.2 = .generation g' → g' < g

structure Lawful (log : List Entry) (m : Machine) : Prop where
  answers : Runs.Each Answers log
  once : Runs.Each Once log
  rises : Runs.Each Rises log
  /-- The timer's interrupt counts a tick and does nothing else. -/
  tick : ∀ rflags cr2Register frame, frame.vector = vecIrq0 → m.stopped = false →
    m.step (.trap rflags cr2Register frame) =
      (.resumed frame.rip, { m with idt := { m.idt with timerTicks := wrapAddU64 m.idt.timerTicks 1 } })

/-! ### The state and the log -/

structure Agrees (log : List Entry) (s : Idt) : Prop where
  generation : s.generation = log.countP arms
  issued : ∀ k ∈ log, ∀ g, k.2 = .generation g → g ≤ log.countP arms
  active : ∀ x g, Active log x g → s.armed = x.armed g
  expects : s.armed.active = 1 → ∃ x g, Active log x g
  waiting : ∀ o, Waiting log o ↔ s.lastValid = 1 ∧ s.lastObs = o
  /-- No record waits while an expectation is active. -/
  collected : s.armed.active = 1 → s.lastValid ≠ 1

theorem agrees_init : Agrees [] {} where
  generation := rfl
  issued := nofun
  active := fun x g h => absurd h Runs.not_since_nil
  expects := by nofun
  waiting := fun o => iff_of_false Runs.not_since_nil (by nofun)
  collected := by nofun

section Entries

variable {log : List Entry} {l : Entry} {s : Idt}

theorem active_snoc {x : Expect} {g : Nat} :
    Active (log ++ [l]) x g ↔ l = (.arm x, .generation g) ∨ (¬disarms l ∧ Active log x g) := Runs.since_snoc

theorem waiting_snoc {o : ObservedTrap} :
    Waiting (log ++ [l]) o ↔ Met log l o ∨ (¬(arms l || takes l) ∧ Waiting log o) := Runs.since_snoc

theorem arms_snoc : (log ++ [l]).countP arms = log.countP arms + if arms l then 1 else 0 := by
  rw [List.countP_append, List.countP_singleton]

theorem met_recovers {o : ObservedTrap} (h : Met log l o) : recovers l := by
  obtain ⟨rflags, cr2Register, frame, rip, x, g, rfl, hvec, -, -⟩ := h
  exact decide_eq_true hvec

theorem recovers_disarms (h : recovers l) : disarms l := by
  rcases l with ⟨_ | _ | _ | _, _ | _ | _ | _ | _ | _⟩ <;> first | exact h | cases h

theorem arms_disarms (h : arms l) : disarms l := by
  rcases l with ⟨_ | _ | _ | _, _⟩ <;> first | rfl | cases h

/-- An entry without an arming does not hand out a generation. -/
theorem Agrees.issued_snoc (h : Agrees log s) (hl : ∀ g, l.2 ≠ .generation g) :
    ∀ k ∈ log ++ [l], ∀ g, k.2 = .generation g → g ≤ (log ++ [l]).countP arms := by
  rw [List.forall_mem_append, List.forall_mem_singleton]
  refine ⟨fun k hk g hg => ?_, fun g hg => absurd hg (hl g)⟩
  rw [arms_snoc]
  exact Nat.le_add_right_of_le (h.issued k hk g hg)

/-- Without arming, disarming or recovery the expectation stays. -/
theorem active_same (hl : disarms l = false) {x : Expect} {g : Nat} : Active (log ++ [l]) x g ↔ Active log x g := by
  rw [active_snoc, hl]
  refine ⟨fun h => h.elim (fun heq => ?_) And.right, fun h => Or.inr ⟨by simp, h⟩⟩
  rw [heq] at hl
  cases hl

/-- Without arming, recovery or collection the record stays. -/
theorem waiting_same (hl : (arms l || takes l) = false) (hrecovers : recovers l = false) {o : ObservedTrap} :
    Waiting (log ++ [l]) o ↔ Waiting log o := by
  rw [waiting_snoc, hl]
  refine ⟨fun h => h.elim (fun hmet => ?_) And.right, fun h => Or.inr ⟨by simp, h⟩⟩
  have hrec := met_recovers hmet
  rw [hrecovers] at hrec
  cases hrec

theorem Agrees.arm (h : Agrees log s) (x : Expect) : Agrees (log ++ [(.arm x, .generation (s.generation + 1))])
    { s with lastValid := 0, generation := s.generation + 1, armed := x.armed (s.generation + 1) } where
  generation := by rw [h.generation, arms_snoc]; rfl
  issued := by
    rw [List.forall_mem_append, List.forall_mem_singleton, arms_snoc]
    refine ⟨fun k hk g hg => Nat.le_add_right_of_le (h.issued k hk g hg), fun g hg => ?_⟩
    cases hg
    rw [h.generation]
    rfl
  active := by
    intro y g hactive
    rcases active_snoc.mp hactive with heq | ⟨hno, -⟩
    · cases heq
      rfl
    · exact absurd rfl hno
  expects := fun _ => ⟨x, s.generation + 1, active_snoc.mpr (Or.inl rfl)⟩
  waiting := by
    intro o
    refine iff_of_false (fun hwaiting => ?_) (by nofun)
    rcases waiting_snoc.mp hwaiting with hmet | ⟨hno, -⟩
    · cases met_recovers hmet
    · exact absurd rfl hno
  collected := fun _ => by nofun

theorem Agrees.disarm (h : Agrees log s) :
    Agrees (log ++ [(.disarm, .disarmed)]) { s with armed := { s.armed with active := 0 } } where
  generation := by rw [arms_snoc]; exact h.generation
  issued := h.issued_snoc (by nofun)
  active := by
    intro x g hactive
    rcases active_snoc.mp hactive with heq | ⟨hno, -⟩
    · cases heq
    · exact absurd rfl hno
  expects := by nofun
  waiting := fun o => (waiting_same rfl rfl).trans (h.waiting o)
  collected := by nofun

/-- An entry that changes neither the expectation nor the record. -/
theorem Agrees.quiet (h : Agrees log s) (ticks : Nat) (hdisarms : disarms l = false) (htakes : takes l = false)
    (hl : ∀ g, l.2 ≠ .generation g) : Agrees (log ++ [l]) { s with timerTicks := ticks } := by
  have harms : arms l = false := Bool.eq_false_iff.mpr fun h => by
    rw [arms_disarms h] at hdisarms
    cases hdisarms
  have hrecovers : recovers l = false := Bool.eq_false_iff.mpr fun h => by
    rw [recovers_disarms h] at hdisarms
    cases hdisarms
  refine ⟨?_, h.issued_snoc hl, fun x g hactive => ?_, fun hactive => ?_, fun o => ?_, h.collected⟩
  · rw [arms_snoc, harms]
    exact h.generation
  · exact h.active x g ((active_same hdisarms).mp hactive)
  · obtain ⟨x, g, hx⟩ := h.expects hactive
    exact ⟨x, g, (active_same hdisarms).mpr hx⟩
  · exact (waiting_same (by rw [harms, htakes]; rfl) hrecovers).trans (h.waiting o)

theorem Agrees.take (h : Agrees log s) (o : ObservedTrap) :
    Agrees (log ++ [(.takeRecord, .record (some o))]) { s with lastValid := 0 } where
  generation := by rw [arms_snoc]; exact h.generation
  issued := h.issued_snoc (by nofun)
  active := fun x g hactive => h.active x g ((active_same rfl).mp hactive)
  expects := by
    intro hactive
    obtain ⟨x, g, hx⟩ := h.expects hactive
    exact ⟨x, g, (active_same rfl).mpr hx⟩
  waiting := by
    intro o'
    refine iff_of_false (fun hwaiting => ?_) (by nofun)
    rcases waiting_snoc.mp hwaiting with hmet | ⟨hno, -⟩
    · cases met_recovers hmet
    · exact absurd rfl hno
  collected := fun _ => by nofun

/-- A trap that meets the active expectation. -/
theorem Agrees.met (h : Agrees log s) {rflags cr2Register rip : Nat} {frame : TrapFrame} (hvec : frame.vector ≠ vecIrq0)
    (hactive : s.armed.active = 1) : Agrees (log ++ [(.trap rflags cr2Register frame, .resumed rip)]) { s with
      lastObs :=
        { vector := frame.vector, errorCode := frame.errorCode, rip := frame.rip
          cr2 := cr2Of frame.vector cr2Register, generation := s.armed.generation }
      lastValid := 1
      armed := { s.armed with active := 0 } } := by
  have hrecovers : recovers (.trap rflags cr2Register frame, .resumed rip) := decide_eq_true hvec
  obtain ⟨x, g, hx⟩ := h.expects hactive
  have harmed := h.active x g hx
  refine ⟨?_, h.issued_snoc (by nofun), fun y g' hy => ?_, by nofun, fun o => ?_, by nofun⟩
  · rw [arms_snoc]
    exact h.generation
  · rcases active_snoc.mp hy with heq | ⟨hno, -⟩
    · cases heq
    · exact absurd (recovers_disarms hrecovers) hno
  · rw [waiting_snoc]
    constructor
    · rintro (⟨_, _, _, _, y, g', heq, -, hy, rfl⟩ | ⟨-, hwaiting⟩)
      · cases heq
        have hgen : s.armed.generation = g' := congrArg Armed.generation (h.active y g' hy)
        exact ⟨rfl, by rw [hgen]⟩
      · exact absurd ((h.waiting o).mp hwaiting).1 (h.collected hactive)
    · rintro ⟨-, rfl⟩
      refine Or.inl ⟨rflags, cr2Register, frame, rip, x, g, rfl, hvec, hx, ?_⟩
      rw [harmed]
      rfl

/-- The active expectation is met exactly if the event matches. -/
theorem Agrees.matches_iff (h : Agrees log s) {cr2Register : Nat} {frame : TrapFrame} :
    eventMatches (decide (s.armed.active = 1)) s.armed.vector s.armed.faultRip s.armed.matchCr2 s.armed.cr2
      s.armed.errorCode frame.vector frame.rip (cr2Of frame.vector cr2Register) frame.errorCode = true ↔
    ∃ x g, Active log x g ∧ x.Meets cr2Register frame := by
  rw [eventMatches_eq_true, decide_eq_true_eq]
  constructor
  · rintro ⟨hactive, hvec, hrip, hcr2, herr⟩
    obtain ⟨x, g, hx⟩ := h.expects hactive
    rw [h.active x g hx] at hvec hrip hcr2 herr
    exact ⟨x, g, hx, hvec, hrip, herr, hcr2⟩
  · rintro ⟨x, g, hx, hmeets⟩
    rw [h.active x g hx]
    exact ⟨rfl, hmeets.vector, hmeets.rip, hmeets.cr2, hmeets.errorCode⟩

/-- The trap before was met before the last arming. -/
theorem Active.once {x : Expect} {g : Nat} (h : Active log x g) {b c : List Entry} {k : Entry} (hsplit : log = b ++ k :: c)
    (hk : recovers k) : ∃ a ∈ c, arms a := by
  obtain ⟨-, a, ha, rfl⟩ := Runs.Since.mem_behind h hsplit (recovers_disarms hk) fun _ heq => by
    rw [heq] at hk
    cases hk
  exact ⟨_, ha, rfl⟩

theorem not_rises (hl : ∀ g, l.2 ≠ .generation g) : Rises log l := fun g hg => absurd hg (hl g)

theorem not_once (hl : recovers l = false) : Once log l := by
  intro h
  rw [hl] at h
  cases h

end Entries

/-! ### Steps and runs -/

section Steps

variable {log : List Entry} {m t : Machine} {r : Reply}

/-- What a step of a running kernel keeps, and what it answers. -/
structure Kept (log : List Entry) (l : Entry) (t : Machine) : Prop where
  agrees : t.stopped = false → Agrees (log ++ [l]) t.idt
  answers : Answers log l
  once : Once log l
  rises : Rises log l

theorem kept_arm (h : Agrees log m.idt) (x : Expect) :
    Kept log (.arm x, (m.step (.arm x)).1) (m.step (.arm x)).2 := by
  by_cases hbound : m.idt.generation + 1 < u64Bound
  · have hrun : (Event.arm x).run m.idt = (.ok (.generation (m.idt.generation + 1)), _) :=
      Act.bind_ok_run (arm_run x hbound)
    rw [Machine.step, hrun]
    refine ⟨fun _ => h.arm x, fun _ => by rw [← h.generation], not_once rfl, fun g hg k hk g' hg' => ?_⟩
    cases hg
    rw [h.generation]
    exact Nat.lt_succ_of_le (h.issued k hk g' hg')
  · have hrun := Act.run_of_fst (Act.bind_traps (f := fun g => pure (Reply.generation g)) (arm_traps x (Nat.le_of_not_lt hbound)))
    rw [Machine.step, Event.run, hrun]
    refine ⟨by nofun, fun hlt => ?_, not_once rfl, not_rises (by nofun)⟩
    rw [← h.generation] at hlt
    exact absurd hlt hbound

theorem kept_take (h : Agrees log m.idt) :
    Kept log (.takeRecord, (m.step .takeRecord).1) (m.step .takeRecord).2 := by
  have hrun : Event.takeRecord.run m.idt = (.ok (.record _), _) := Act.bind_ok_run takeRecord_run
  rw [Machine.step, hrun]
  by_cases hvalid : m.idt.lastValid = 1
  · rw [if_pos hvalid, if_pos hvalid]
    refine ⟨fun _ => h.take m.idt.lastObs, ⟨_, rfl, fun o => ?_⟩, not_once rfl, not_rises (by nofun)⟩
    rw [h.waiting o, Option.some.injEq, and_iff_right hvalid]
  · rw [if_neg hvalid, if_neg hvalid]
    refine ⟨fun _ => h.quiet m.idt.timerTicks rfl rfl (by nofun), ⟨none, rfl, fun o => ?_⟩, not_once rfl, not_rises (by nofun)⟩
    rw [h.waiting o]
    exact iff_of_false (by nofun) fun hwaiting => hvalid hwaiting.1

theorem step_irq0 (m : Machine) (rflags cr2Register : Nat) {frame : TrapFrame} (hirq : frame.vector = vecIrq0) :
    m.step (.trap rflags cr2Register frame) =
      (.resumed frame.rip, { idt := { m.idt with timerTicks := wrapAddU64 m.idt.timerTicks 1 } }) := by
  have hrun : (Event.trap rflags cr2Register frame).run m.idt = (.ok (.resumed frame.rip), _) :=
    Act.bind_ok_run (zkTrapCommon_irq0 rflags cr2Register hirq)
  rw [Machine.step, hrun]

theorem step_tick (rflags cr2Register : Nat) {frame : TrapFrame} (hirq : frame.vector = vecIrq0)
    (hrunning : m.stopped = false) : m.step (.trap rflags cr2Register frame) =
      (.resumed frame.rip, { m with idt := { m.idt with timerTicks := wrapAddU64 m.idt.timerTicks 1 } }) := by
  rw [step_irq0 m rflags cr2Register hirq]
  cases m
  cases hrunning
  rfl

theorem kept_trap (h : Agrees log m.idt) (rflags cr2Register : Nat) (frame : TrapFrame) :
    Kept log (.trap rflags cr2Register frame, (m.step (.trap rflags cr2Register frame)).1)
      (m.step (.trap rflags cr2Register frame)).2 := by
  by_cases hirq : frame.vector = vecIrq0
  · rw [step_irq0 m rflags cr2Register hirq]
    have hno : recovers (.trap rflags cr2Register frame, .resumed frame.rip) = false :=
      decide_eq_false (not_not.mpr hirq)
    refine ⟨fun _ => h.quiet _ hno rfl (by nofun), fun _ => ?_, not_once hno, not_rises (by nofun)⟩
    rw [if_pos hirq]
  by_cases hvec : frame.vector < 256
  · have hcommon := zkTrapCommon_run (s := m.idt) rflags cr2Register hvec hirq
    by_cases hmatch : ∃ x g, Active log x g ∧ x.Meets cr2Register frame
    · rw [if_pos (h.matches_iff.mpr hmatch)] at hcommon
      have hrun : (Event.trap rflags cr2Register frame).run m.idt = (.ok (.resumed m.idt.armed.resumeRip), _) :=
        Act.bind_ok_run hcommon
      rw [Machine.step, hrun]
      obtain ⟨x, g, hx, hmeets⟩ := hmatch
      have harmed := h.active x g hx
      refine ⟨fun _ => h.met hirq (by rw [harmed]; rfl), fun _ => ?_, fun _ b k c hsplit hk => hx.once hsplit hk,
        not_rises (by nofun)⟩
      rw [if_neg hirq]
      refine ⟨fun rip => ?_, fun hnone => absurd ⟨x, g, hx, hmeets⟩ hnone⟩
      constructor
      · intro hrip
        cases hrip
        exact ⟨x, g, hx, hmeets, by rw [harmed]; rfl⟩
      · rintro ⟨y, g', hy, -, rfl⟩
        rw [h.active y g' hy]
        rfl
    · rw [if_neg (mt h.matches_iff.mp hmatch)] at hcommon
      have hrun : (Event.trap rflags cr2Register frame).run m.idt = (.error _, _) := Act.bind_error_run hcommon
      rw [Machine.step, hrun]
      refine ⟨by nofun, fun _ => ?_, not_once rfl, not_rises (by nofun)⟩
      rw [if_neg hirq]
      refine ⟨fun rip => iff_of_false (by nofun) ?_, fun _ => ⟨_, rfl⟩⟩
      rintro ⟨x, g, hx, hmeets, -⟩
      exact hmatch ⟨x, g, hx, hmeets⟩
  · have htrap : ((Event.trap rflags cr2Register frame).run m.idt).1 = .trap :=
      Act.bind_traps (zkTrapCommon_traps rflags cr2Register hvec)
    rw [Machine.step, Act.run_of_fst htrap]
    exact ⟨by nofun, fun hlt => absurd hlt hvec, not_once rfl, not_rises (by nofun)⟩

theorem step_kept (h : Agrees log m.idt) (e : Event) : Kept log (e, (m.step e).1) (m.step e).2 := by
  cases e with
  | arm x => exact kept_arm h x
  | disarm => exact ⟨fun _ => h.disarm, rfl, not_once rfl, not_rises (by nofun)⟩
  | takeRecord => exact kept_take h
  | trap rflags cr2Register frame => exact kept_trap h rflags cr2Register frame

/-- Behind a log the kernel goes on in its state, or it has stopped. -/
structure Follows (log : List Entry) (m : Machine) : Prop where
  agrees : m.stopped = false → Agrees log m.idt
  answers : Runs.Each Answers log
  once : Runs.Each Once log
  rises : Runs.Each Rises log

theorem follows_init : Follows [] {} := ⟨fun _ => agrees_init, .nil, .nil, .nil⟩

/-- The induction is on the events to go. -/
theorem perform_follows (events : List Event) (h : Follows log m) :
    Follows (log ++ (m.perform events).1) (m.perform events).2 := by
  induction events generalizing log m with
  | nil =>
      rw [Machine.perform, List.append_nil]
      exact h
  | cons e rest ih =>
      rw [Machine.perform]
      by_cases hstopped : m.stopped
      · rw [if_pos hstopped, List.append_nil]
        exact h
      · rw [if_neg hstopped, List.append_cons]
        have hkept := step_kept (h.agrees (Bool.eq_false_iff.mpr hstopped)) e
        exact ih ⟨hkept.agrees, h.answers.snoc hkept.answers, h.once.snoc hkept.once, h.rises.snoc hkept.rises⟩

/-- Whatever the events and their order, a trap resumes exactly where it meets the active expectation, once for each
arming, and each record is handed out once, with the generation of its arming. -/
theorem recovery_lawful (events : List Event) :
    Lawful (({} : Machine).perform events).1 (({} : Machine).perform events).2 := by
  have h := perform_follows events follows_init
  rw [List.nil_append] at h
  refine ⟨h.answers, h.once, h.rises, fun rflags cr2Register frame hirq hrunning => ?_⟩
  exact step_tick rflags cr2Register hirq hrunning

end Steps

/-- A page fault that is met, its record, and a second fault at the same place: the kernel hangs. -/
example : (({} : Machine).perform [.arm { vector := 14, faultRip := 0x1000, resumeRip := 0x2000, cr2 := 0x5000, matchCr2 := true },
    .trap 0 0x5000 ⟨32, 0, 0x1800⟩, .trap 0x400 0x5000 ⟨14, 0, 0x1000⟩, .takeRecord, .takeRecord,
    .trap 0 0x5000 ⟨14, 0, 0x1000⟩, .takeRecord]).1.map Prod.snd =
    [.generation 1, .resumed 0x1800, .resumed 0x2000,
      .record (some { vector := 14, errorCode := 0, rip := 0x1000, cr2 := 0x5000, generation := 1 }), .record none,
      .hung (.uncontrolled 14 0 0x1000 0x5000)] := by
  decide +kernel

end Native.Idt
