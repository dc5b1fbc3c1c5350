import ZigKernel.HelperTransportSound

/-! The control of a transport: its state, whether it owns a helper, where `close` waits and whether the slot is
taken. A step moves it in a few ways, as long as `open` is resumed in the state in which it was suspended. -/

namespace Helper.Transport

variable {V : Type}

structure Control where
  state : LocalRuntimeState
  owned : Bool
  session : Nat
  closePromise : Closing
  waiting : Bool

/-- The state behind `signalFailure`. -/
def Control.failState (c : Control) : LocalRuntimeState :=
  if c.state = .closed ∧ ¬c.owned then .closed else OwnedHelperTransport.failedState c.state

inductive Moves (c : Control) : Control → Prop where
  | stay : Moves c c
  | drop : Moves c { c with waiting := false }
  | fail : Moves c { c with waiting := false, state := c.failState }
  | request (waiting : Bool) (h : c.state = .opened) : Moves c { c with waiting }
  | session (state : LocalRuntimeState) (owned waiting : Bool) (h : c.state = .closed)
      (hstate : state = .starting ∨ (state = .failed ∧ waiting = false)) :
      Moves c ⟨state, owned, c.session + 1, .idle, waiting⟩
  | opened (h : c.state = .starting) : Moves c { c with state := .opened }
  | released : Moves c { c with owned := false }
  | closeShutdown (i : Option Nat) (waiting : Bool) (h : ¬(c.state = .closed ∧ c.owned = false)) (hstate : c.state ≠ .failed) :
      Moves c { c with state := .closing, closePromise := .shutdown i, waiting }
  | closeCleanup (wasFailed : Bool) (h : ¬(c.state = .closed ∧ c.owned = false))
      (hfailed : c.state = .failed → wasFailed = true) :
      Moves c { c with
        state := OwnedHelperTransport.closingState c.state, closePromise := .cleanup wasFailed, waiting := false }
  | closeResume (i : Option Nat) (h : c.closePromise = .shutdown i) :
      Moves c { c with closePromise := .cleanup false, waiting := false }
  | closeFinish (wasFailed : Bool) (state : LocalRuntimeState) (h : c.closePromise = .cleanup wasFailed)
      (hstate : state = .failed ∨ (state = .closed ∧ (c.owned = false ∨ wasFailed = false))) :
      Moves c { c with state, closePromise := .idle }

/-- What holds of the control in a run where `open` is resumed in place. -/
structure Orderly (c : Control) : Prop where
  closing : c.closePromise ≠ .idle → c.state = .closing ∨ c.state = .failed
  failed : c.state = .failed → c.waiting = false ∧ (c.closePromise = .idle ∨ c.closePromise = .cleanup true)
  cleanup : ∀ wasFailed, c.closePromise = .cleanup wasFailed → c.waiting = false

/-- Session `k` has failed: it is over, or it waits for nothing and will not start again. -/
def Over (k : Nat) (c : Control) : Prop :=
  k ≤ c.session ∧ (c.session = k → c.waiting = false ∧ (c.state = .failed ∨ (c.state = .closed ∧ c.owned = false)))

variable {c c' : Control} {k : Nat}

theorem failState_eq_failed (h : c.failState = .failed) : c.state ≠ .closing := by
  intro hclosing
  rw [Control.failState, hclosing] at h
  cases h

theorem Orderly.moves (h : Orderly c) (hmove : Moves c c') : Orderly c' := by
  have hidle : c.state ≠ .closing → c.state ≠ .failed → c.closePromise = .idle := fun hc hf =>
    by_contra fun hne => (h.closing hne).elim hc hf
  cases hmove with
  | stay => exact h
  | drop => exact ⟨h.closing, fun hf => ⟨rfl, (h.failed hf).2⟩, fun _ _ => rfl⟩
  | fail =>
      refine ⟨fun hne => ?_, fun hf => ⟨rfl, ?_⟩, fun _ _ => rfl⟩
      · rcases h.closing hne with hstate | hstate
        · left
          show c.failState = _
          rw [Control.failState, hstate]
          rfl
        · right
          show c.failState = _
          rw [Control.failState, hstate]
          rfl
      · by_cases hold : c.state = .failed
        · exact (h.failed hold).2
        · exact Or.inl (hidle (failState_eq_failed hf) hold)
  | request waiting hopened =>
      have hclose := hidle (by rw [hopened]; decide) (by rw [hopened]; decide)
      refine ⟨fun hne => absurd hclose hne, fun hf => ?_, fun w hw => ?_⟩
      · rw [show c.state = .failed from hf] at hopened
        cases hopened
      · rw [show c.closePromise = .cleanup w from hw] at hclose
        cases hclose
  | session state owned waiting hclosed hstate =>
      refine ⟨fun hne => absurd rfl hne, fun hf => ⟨?_, Or.inl rfl⟩, fun w hw => ?_⟩
      · rcases hstate with hstarting | ⟨-, hwaiting⟩
        · rw [show state = .failed from hf] at hstarting
          cases hstarting
        · exact hwaiting
      · cases hw
  | opened hstarting =>
      have hclose := hidle (by rw [hstarting]; decide) (by rw [hstarting]; decide)
      refine ⟨fun hne => absurd hclose hne, fun hf => ?_, fun w hw => ?_⟩
      · cases hf
      · rw [show c.closePromise = .cleanup w from hw] at hclose
        cases hclose
  | released => exact ⟨h.closing, h.failed, h.cleanup⟩
  | closeShutdown i waiting hopen hstate =>
      refine ⟨fun _ => Or.inl rfl, fun hf => ?_, fun w hw => ?_⟩
      · cases hf
      · cases hw
  | closeCleanup wasFailed hopen hfailed =>
      refine ⟨fun _ => ?_, fun hf => ⟨rfl, ?_⟩, fun _ _ => rfl⟩
      · show OwnedHelperTransport.closingState c.state = _ ∨ OwnedHelperTransport.closingState c.state = _
        cases c.state <;> simp [OwnedHelperTransport.closingState]
      · have hold : c.state = .failed := by
          revert hf
          show OwnedHelperTransport.closingState c.state = _ → _
          cases c.state <;> simp [OwnedHelperTransport.closingState]
        exact Or.inr (by rw [hfailed hold])
  | closeResume i hshutdown =>
      refine ⟨fun _ => h.closing (by rw [hshutdown]; simp), fun hf => ?_, fun _ _ => rfl⟩
      rcases (h.failed hf).2 with hidle | hcleanup
      · rw [hshutdown] at hidle
        cases hidle
      · rw [hshutdown] at hcleanup
        cases hcleanup
  | closeFinish wasFailed state hcleanup hstate =>
      exact ⟨fun hne => absurd rfl hne, fun _ => ⟨h.cleanup _ hcleanup, Or.inl rfl⟩, fun w hw => by cases hw⟩

theorem Over.moves (h : Over k c) (ho : Orderly c) (hmove : Moves c c') : Over k c' := by
  obtain ⟨hle, hover⟩ := h
  cases hmove with
  | stay => exact ⟨hle, hover⟩
  | drop => exact ⟨hle, fun hk => ⟨rfl, (hover hk).2⟩⟩
  | fail =>
      refine ⟨hle, fun hk => ⟨rfl, ?_⟩⟩
      rcases (hover hk).2 with hfailed | ⟨hclosed, howned⟩
      · left
        show c.failState = _
        rw [Control.failState, hfailed]
        rfl
      · refine Or.inr ⟨if_pos ⟨hclosed, ?_⟩, howned⟩
        rw [howned]
        exact Bool.false_ne_true
  | request waiting hopened =>
      refine ⟨hle, fun hk => ?_⟩
      rcases (hover hk).2 with hfailed | ⟨hclosed, -⟩
      · rw [hopened] at hfailed
        cases hfailed
      · rw [hopened] at hclosed
        cases hclosed
  | session state owned waiting hclosed hstate =>
      refine ⟨Nat.le_succ_of_le hle, fun hk => ?_⟩
      have hk : c.session + 1 = k := hk
      omega
  | opened hstarting =>
      refine ⟨hle, fun hk => ?_⟩
      rcases (hover hk).2 with hfailed | ⟨hclosed, -⟩
      · rw [hstarting] at hfailed
        cases hfailed
      · rw [hstarting] at hclosed
        cases hclosed
  | released => exact ⟨hle, fun hk => ⟨(hover hk).1, (hover hk).2.imp_right fun hclosed => ⟨hclosed.1, rfl⟩⟩⟩
  | closeShutdown i waiting hopen hstate =>
      exact ⟨hle, fun hk => ((hover hk).2.elim hstate hopen).elim⟩
  | closeCleanup wasFailed hopen hfailed =>
      refine ⟨hle, fun hk => ⟨rfl, ?_⟩⟩
      rcases (hover hk).2 with hold | hclosed
      · left
        show OwnedHelperTransport.closingState c.state = _
        rw [hold]
        rfl
      · exact absurd hclosed hopen
  | closeResume i hshutdown =>
      refine ⟨hle, fun hk => ?_⟩
      have hactive : c.closePromise ≠ .idle := by rw [hshutdown]; simp
      rcases (hover hk).2 with hfailed | ⟨hclosed, -⟩
      · exact ⟨rfl, Or.inl hfailed⟩
      · rcases ho.closing hactive with hstate | hstate <;> rw [hclosed] at hstate <;> cases hstate
  | closeFinish wasFailed state hcleanup hstate =>
      refine ⟨hle, fun hk => ⟨(hover hk).1, ?_⟩⟩
      have hactive : c.closePromise ≠ .idle := by rw [hcleanup]; simp
      rcases (hover hk).2 with hfailed | ⟨hclosed, -⟩
      · have hwas : wasFailed = true := by
          rcases (ho.failed hfailed).2 with hidle | htrue
          · exact absurd hidle hactive
          · rw [hcleanup] at htrue
            cases htrue
            rfl
        rcases hstate with hnew | ⟨hnew, howned | hnot⟩
        · exact Or.inl hnew
        · exact Or.inr ⟨hnew, howned⟩
        · rw [hwas] at hnot
          cases hnot
      · rcases ho.closing hactive with hold | hold <;> rw [hclosed] at hold <;> cases hold

namespace OwnedHelperTransport

def control (s : OwnedHelperTransport V) : Control := ⟨s.state, s.owned, s.session, s.closePromise, s.pending.isSome⟩

variable {s s' : OwnedHelperTransport V} {i : Nat} {code : String}

/-- The step resumes `open` in the state in which it was suspended: closed where it waited for an earlier cleanup,
starting where it waited for the hello that it accepts. -/
structure Placed (s : OwnedHelperTransport V) (l : Label V) : Prop where
  earlier : ∀ launch, l = .openContinue launch → s.state = .closed
  hello : ∀ i r v, l = .openResume i true → s.requests[i]? = some r → r.outcome = some (.fulfilled v) →
    s.state = .starting

end OwnedHelperTransport

end Helper.Transport
