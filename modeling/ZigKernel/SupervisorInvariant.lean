import ZigKernel.SupervisorEffects

/-! `tick`, and what the effects preserve. Coherence and the file table are invariants of a slot: a
fresh session has them and every effect keeps them. -/

open Finset

namespace Supervisor

open Zig

namespace SessionSlot

variable (s : SessionSlot) (execId : Nat) (ty : EventType) (dataLen : Nat)

/-! ### An event changes the log only -/

@[simp] theorem pushed_used : (s.pushed execId ty dataLen).used = s.used := by
  unfold pushed; split_ifs <;> rfl

@[simp] theorem pushed_owner : (s.pushed execId ty dataLen).owner = s.owner := by
  unfold pushed; split_ifs <;> rfl

@[simp] theorem pushed_sess : (s.pushed execId ty dataLen).sess = s.sess := by
  unfold pushed; split_ifs <;> rfl

@[simp] theorem pushed_ws : (s.pushed execId ty dataLen).ws = s.ws := by
  unfold pushed; split_ifs <;> rfl

@[simp] theorem pushed_files : (s.pushed execId ty dataLen).files = s.files := by
  unfold pushed; split_ifs <;> rfl

@[simp] theorem pushed_execs : (s.pushed execId ty dataLen).execs = s.execs := by
  unfold pushed; split_ifs <;> rfl

@[simp] theorem pushed_nextExecId : (s.pushed execId ty dataLen).nextExecId = s.nextExecId := by
  unfold pushed; split_ifs <;> rfl

@[simp] theorem pushed_nextSeq : (s.pushed execId ty dataLen).nextSeq = s.nextSeq + 1 := by
  unfold pushed; split_ifs <;> rfl

/-- Coherence reads the session, the exec table and the exec counter. -/
theorem Coherent.congr {s s' : SessionSlot} (h : s.Coherent) (hsess : s'.sess = s.sess)
    (hexecs : s'.execs = s.execs) (hnext : s'.nextExecId = s.nextExecId) : s'.Coherent := by
  constructor
  · rw [hsess]; exact h.state
  · rw [hsess, hexecs]; exact h.live_busy
  · rw [hsess, hexecs]; exact h.busy_live
  · rw [hexecs]; exact h.live_unique
  · rw [hsess]; exact h.deadline
  · rw [hsess]; exact h.timeout
  · rw [hexecs, hnext]; exact h.execId_lt
  · rw [hexecs]; exact h.execId_unique

theorem Coherent.pushed {s : SessionSlot} (h : s.Coherent) : (s.pushed execId ty dataLen).Coherent :=
  h.congr (by simp) (by simp) (by simp)

/-- The file invariant reads the file table and the workspace. -/
theorem FilesOk.congr {s s' : SessionSlot} (h : s.FilesOk) (hws : s'.ws = s.ws) (hfiles : s'.files = s.files) :
    s'.FilesOk := by
  constructor
  · rw [hfiles]; exact h.unique
  · rw [hws, fileBytes, hfiles]; exact h.usedBytes
  · rw [hws]; exact h.within
  · rw [hws]; exact h.cap_lt
  · rw [hfiles]; exact h.size_lt

theorem FilesOk.pushed {s : SessionSlot} (h : s.FilesOk) : (s.pushed execId ty dataLen).FilesOk :=
  h.congr (by simp) (by simp)

/-! ### Coherence -/

section Coherence

variable {s}

theorem Coherent.generation {k : Fin maxExecs} (h : s.Coherent) (hlive : (s.execs k).Live) :
    (s.execs k).generation = s.sess.generation :=
  (h.live_busy k hlive).2

/-- While nothing is live the session is idle. -/
theorem Coherent.not_busy (h : s.Coherent) (hidle : ∀ k, ¬(s.execs k).Live) : s.sess.state ≠ .busy := by
  intro hbusy
  obtain ⟨k, hk⟩ := h.busy_live hbusy
  exact hidle k hk

/-- The one live exec becomes done, and the session ready: nothing is live any more. -/
theorem Coherent.retire (h : s.Coherent) {k : Fin maxExecs} (hlive : (s.execs k).Live) {e : Exec}
    (hid : e.id = (s.execs k).id) (hdone : e.state = .done) :
    let s' := { setExec k e s with sess := { s.sess with state := .ready, execDeadlineMs := 0 } }
    s'.Coherent ∧ ∀ j, ¬(s'.execs j).Live := by
  intro s'
  have hdead : ∀ j, ¬(s'.execs j).Live := by
    intro j hj
    by_cases hjk : j = k
    · subst hjk
      simp only [s', setExec, Function.update_self] at hj
      exact hj.2 hdone
    · simp only [s', setExec, Function.update_of_ne hjk] at hj
      exact hjk (h.live_unique j k hj hlive)
  have hids : ∀ j, (s'.execs j).id = (s.execs j).id := by
    intro j
    by_cases hjk : j = k
    · subst hjk
      simp only [s', setExec, Function.update_self, hid]
    · simp only [s', setExec, Function.update_of_ne hjk]
  refine ⟨?_, hdead⟩
  constructor
  · exact Or.inr (Or.inl rfl)
  · exact fun j hj => absurd hj (hdead j)
  · intro hbusy
    cases hbusy
  · exact fun i j hi _ => absurd hi (hdead i)
  · exact iff_of_false (fun hne => hne rfl) (fun hbusy => by cases hbusy)
  · exact h.timeout
  · intro j
    rw [hids j]
    exact h.execId_lt j
  · intro i j hne heq
    rw [hids i] at hne heq
    rw [hids j] at heq
    exact h.execId_unique i j hne heq

theorem killed_eq (s : SessionSlot) (k : Fin maxExecs) :
    (s.killed k).execs = (setExec k
      { s.execs k with
        state := .done
        term := if (s.execs k).cancelRequested then some .cancelled else some .timeout
        exitCode := none } s).execs ∧
      (s.killed k).sess = { s.sess with state := .ready, execDeadlineMs := 0 } ∧
      (s.killed k).nextExecId = s.nextExecId := by
  simp [killed, setExec]

theorem Coherent.killed (h : s.Coherent) {k : Fin maxExecs} (hlive : (s.execs k).Live) :
    (s.killed k).Coherent ∧ ∀ j, ¬((s.killed k).execs j).Live := by
  obtain ⟨hexecs, hsess, hnext⟩ := killed_eq s k
  obtain ⟨hcoherent, hdead⟩ := h.retire hlive (e :=
    { s.execs k with
      state := .done
      term := if (s.execs k).cancelRequested then some .cancelled else some .timeout
      exitCode := none }) rfl rfl
  refine ⟨hcoherent.congr hsess hexecs hnext, fun j => ?_⟩
  rw [hexecs]
  exact hdead j

theorem Coherent.cancelled (h : s.Coherent) {k : Fin maxExecs} (hlive : (s.execs k).Live) :
    (s.cancelled k).Coherent := by
  have hkept : ∀ j, ((s.cancelled k).execs j).id = (s.execs j).id ∧
      ((s.cancelled k).execs j).generation = (s.execs j).generation := by
    intro j
    by_cases hjk : j = k
    · subst hjk
      simp only [SessionSlot.cancelled, setExec, Function.update_self, and_self]
    · simp only [SessionSlot.cancelled, setExec, Function.update_of_ne hjk, and_self]
  have hid (j : Fin maxExecs) := (hkept j).1
  have hgen (j : Fin maxExecs) := (hkept j).2
  -- a cancelling exec is as live as a running one
  have hiff : ∀ j, ((s.cancelled k).execs j).Live ↔ (s.execs j).Live := by
    intro j
    by_cases hjk : j = k
    · subst hjk
      refine iff_of_true ⟨(hid j).symm ▸ hlive.1, ?_⟩ hlive
      simp only [SessionSlot.cancelled, setExec, Function.update_self]
      split_ifs
      · exact ExecState.noConfusion
      · exact hlive.2
    · simp only [SessionSlot.cancelled, setExec, Function.update_of_ne hjk]
  constructor
  · exact h.state
  · intro j hj
    rw [hgen j]
    exact h.live_busy j ((hiff j).mp hj)
  · intro hbusy
    obtain ⟨j, hj⟩ := h.busy_live hbusy
    exact ⟨j, (hiff j).mpr hj⟩
  · exact fun i j hi hj => h.live_unique i j ((hiff i).mp hi) ((hiff j).mp hj)
  · exact h.deadline
  · exact h.timeout
  · intro j
    rw [hid j]
    exact h.execId_lt j
  · intro i j hne heq
    rw [hid i] at hne heq
    rw [hid j] at heq
    exact h.execId_unique i j hne heq

theorem Coherent.started (h : s.Coherent) {k : Fin maxExecs} (hready : s.sess.state = .ready)
    (hfree : (s.execs k).id = 0) (id : Nat) (argv0 : Bytes) (nowMs : Nat) :
    (s.started k id s.sess.generation argv0 nowMs).Coherent := by
  set e : Exec :=
    { id := s.nextExecId, sessionId := id, generation := s.sess.generation, argv0 := argv0.take argv0Cap,
      state := .running } with he
  have hidle : ∀ j, ¬(s.execs j).Live := by
    intro j hj
    have := (h.live_busy j hj).1
    rw [hready] at this
    cases this
  have hpos : 0 < s.nextExecId := lt_of_le_of_lt (Nat.zero_le _) (h.execId_lt k)
  apply Coherent.pushed
  have hother : ∀ j, j ≠ k → Function.update s.execs k e j = s.execs j := fun j hj =>
    Function.update_of_ne hj _ _
  constructor
  · exact Or.inr (Or.inr rfl)
  · intro j hj
    by_cases hjk : j = k
    · subst hjk
      refine ⟨rfl, ?_⟩
      show (Function.update s.execs j e j).generation = s.sess.generation
      rw [Function.update_self]
    · change (Function.update s.execs k e j).Live at hj
      rw [hother j hjk] at hj
      exact absurd hj (hidle j)
  · intro _
    refine ⟨k, ?_⟩
    show (Function.update s.execs k e k).Live
    rw [Function.update_self]
    exact ⟨hpos.ne', ExecState.noConfusion⟩
  · have honly : ∀ j, (Function.update s.execs k e j).Live → j = k := by
      intro j hj
      by_contra hjk
      rw [hother j hjk] at hj
      exact hidle j hj
    exact fun i j hi hj => (honly i hi).trans (honly j hj).symm
  · have hdeadline : saturatingAdd nowMs s.sess.limits.executionTimeoutMs ≠ 0 :=
      (saturatingAdd_pos h.timeout).ne'
    exact iff_of_true hdeadline rfl
  · exact h.timeout
  · intro j
    show (Function.update s.execs k e j).id < s.nextExecId + 1
    by_cases hjk : j = k
    · subst hjk
      rw [Function.update_self]
      exact Nat.lt_succ_self _
    · rw [hother j hjk]
      exact (h.execId_lt j).trans (Nat.lt_succ_self _)
  · intro i j hne heq
    change (Function.update s.execs k e i).id ≠ 0 at hne
    change (Function.update s.execs k e i).id = (Function.update s.execs k e j).id at heq
    by_cases hik : i = k
    · by_cases hjk : j = k
      · rw [hik, hjk]
      · rw [hik, Function.update_self, hother j hjk] at heq
        exact absurd heq.symm (h.execId_lt j).ne
    · by_cases hjk : j = k
      · rw [hjk, Function.update_self, hother i hik] at heq
        exact absurd heq (h.execId_lt i).ne
      · rw [hother i hik] at hne heq
        rw [hother j hjk] at heq
        exact h.execId_unique i j hne heq

/-- A session that has nothing live, and is not busy. -/
theorem Coherent.of_idle (h : s.Coherent) {s' : SessionSlot} (hexecs : ∀ k, ¬(s'.execs k).Live)
    (hready : s'.sess.state = .ready) (hdeadline : s'.sess.execDeadlineMs = 0)
    (hlimits : s'.sess.limits = s.sess.limits) (hlt : ∀ k, (s'.execs k).id < s'.nextExecId)
    (hunique : ∀ j k, (s'.execs j).id ≠ 0 → (s'.execs j).id = (s'.execs k).id → j = k) : s'.Coherent := by
  have hbusy : s'.sess.state ≠ .busy := by
    rw [hready]
    exact State.noConfusion
  constructor
  · exact Or.inr (Or.inl hready)
  · exact fun k hk => absurd hk (hexecs k)
  · exact fun h => absurd h hbusy
  · exact fun j _ hj _ => absurd hj (hexecs j)
  · exact iff_of_false (fun hne => hne hdeadline) hbusy
  · rw [hlimits]
    exact h.timeout
  · exact hlt
  · exact hunique

theorem Coherent.wiped (h : s.Coherent) : s.wiped.Coherent := by
  have hpos : 0 < s.nextExecId := lt_of_le_of_lt (Nat.zero_le _) (h.execId_lt ⟨0, by decide⟩)
  apply h.of_idle
  · intro k hk
    simp only [SessionSlot.wiped, pushed_execs] at hk
    exact hk.1 rfl
  · simp [SessionSlot.wiped]
  · simp [SessionSlot.wiped]
  · simp [SessionSlot.wiped]
  · intro k
    simpa [SessionSlot.wiped] using hpos
  · intro j k hne
    simp [SessionSlot.wiped] at hne

/-- The guest of a coherent session reports ready while the session is being created. -/
theorem Coherent.readied (h : s.Coherent) (hstate : s.sess.state = .creating ∨ s.sess.state = .resetting) :
    s.readied.Coherent := by
  have hbusy : s.sess.state ≠ .busy := by
    rcases hstate with h | h <;> rw [h] <;> exact State.noConfusion
  have hidle : ∀ k, ¬(s.execs k).Live := fun k hk => hbusy (h.live_busy k hk).1
  have hdeadline : s.sess.execDeadlineMs = 0 := by
    by_contra hne
    exact hbusy (h.deadline.mp hne)
  apply Coherent.pushed
  exact h.of_idle hidle rfl hdeadline rfl h.execId_lt h.execId_unique

end Coherence

/-! ### The file table -/

section Files

variable {s}

/-- One entry is replaced, and the quota follows. -/
theorem FilesOk.stored (h : s.FilesOk) {k : Fin maxFiles} {f : FileEntry} {old : Nat} (hused : f.used = true)
    (hold : old = if (s.files k).used then (s.files k).size else 0) (hsize : f.size < u64Bound)
    (hunique : ∀ j, j ≠ k → (s.files j).used = true → (s.files j).path ≠ f.path)
    (hfits : s.ws.usedBytes - old + f.size ≤ s.ws.capBytes) : (s.stored k f old).FilesOk := by
  apply FilesOk.pushed
  have hother : ∀ j, j ≠ k → Function.update s.files k f j = s.files j := fun j hj =>
    Function.update_of_ne hj _ _
  constructor
  · intro i j hi hj hpath
    change (Function.update s.files k f i).used = true at hi
    change (Function.update s.files k f j).used = true at hj
    change (Function.update s.files k f i).path = (Function.update s.files k f j).path at hpath
    by_cases hik : i = k
    · by_cases hjk : j = k
      · rw [hik, hjk]
      · rw [hother j hjk] at hj
        rw [hik, Function.update_self, hother j hjk] at hpath
        exact absurd hpath.symm (hunique j hjk hj)
    · by_cases hjk : j = k
      · rw [hother i hik] at hi
        rw [hjk, Function.update_self, hother i hik] at hpath
        exact absurd hpath (hunique i hik hi)
      · rw [hother i hik] at hi hpath
        rw [hother j hjk] at hj hpath
        exact h.unique i j hi hj hpath
  · have hsum := Table.sum_update s.files (fun f => if f.used then f.size else 0) k f
    have hle := Table.le_sum s.files (fun f => if f.used then f.size else 0) k
    simp only [← hold, hused, if_true] at hsum hle
    show s.ws.usedBytes - old + f.size = ∑ j, _
    rw [h.usedBytes, fileBytes]
    change ∑ j, (fun f : FileEntry => if f.used then f.size else 0) (Function.update s.files k f j) + old = _ at hsum
    show _ = ∑ j, (fun f : FileEntry => if f.used then f.size else 0) (Function.update s.files k f j)
    omega
  · exact hfits
  · exact h.cap_lt
  · intro j
    show (Function.update s.files k f j).size < u64Bound
    by_cases hjk : j = k
    · subst hjk
      rw [Function.update_self]
      exact hsize
    · rw [hother j hjk]
      exact h.size_lt j

theorem FilesOk.wiped (h : s.FilesOk) : s.wiped.FilesOk := by
  apply FilesOk.pushed
  constructor
  · intro j k hj
    cases hj
  · show 0 = fileBytes _
    simp [fileBytes]
  · exact Nat.zero_le _
  · exact h.cap_lt
  · exact h.size_lt

end Files

/-! ### Effects keep the invariants -/

variable {s}
variable {s' : SessionSlot} {op : Service.Op} {r : Service.Reply}

theorem Coherent.effect (h : s.Coherent) (heffect : Effect s op r s') : s'.Coherent := by
  cases heffect with
  | guestReady owner id hstate => exact h.readied hstate
  | startExec owner id argv0 nowMs k hready hfree => exact h.started hready hfree id argv0 nowMs
  | cancelExec owner id k hlive hgen => exact h.cancelled hlive
  | finishExec owner id term code k hlive hgen hbusy =>
      exact ((h.retire hlive (e := { s.execs k with state := .done, term := some term, exitCode := code })
        rfl rfl).1.pushed _ _ _)
  | overwrite owner id path size sha k hpath hused hfits =>
      apply Coherent.pushed
      exact h.congr rfl rfl rfl
  | store owner id path size sha r k hpath hshort hnew hfree hfits =>
      apply Coherent.pushed
      exact h.congr rfl rfl rfl
  | reset owner id hstate => exact h.wiped

theorem FilesOk.effect (h : s.FilesOk) (heffect : Effect s op r s') : s'.FilesOk := by
  cases heffect with
  | guestReady owner id hstate =>
      apply FilesOk.pushed
      exact h.congr rfl rfl
  | startExec owner id argv0 nowMs k hready hfree =>
      apply FilesOk.pushed
      exact h.congr rfl rfl
  | cancelExec owner id k hlive hgen => exact h.congr rfl rfl
  | finishExec owner id term code k hlive hgen hbusy =>
      apply FilesOk.pushed
      exact h.congr rfl rfl
  | overwrite owner id path size sha k hpath hused hfits =>
      refine h.stored hused (by rw [if_pos hused]) size.isLt (fun j hjk hj heq => hjk ?_) hfits
      exact h.unique j k hj hused heq
  | store owner id path size sha r k hpath hshort hnew hfree hfits =>
      refine h.stored rfl ?_ size.isLt (fun j _ hj => hnew j hj) ?_
      · rw [hfree]
        rfl
      · show s.ws.usedBytes - 0 + size.val ≤ _
        rwa [Nat.sub_zero]
  | reset owner id hstate => exact h.wiped

theorem Coherent.ticked {nowMs : Nat} (h : s.Coherent) (hticked : Ticked nowMs s s') : s'.Coherent := by
  cases hticked with
  | idle _ => exact h
  | kill k _ hdue => exact (h.killed hdue.1).1

theorem FilesOk.ticked {nowMs : Nat} (h : s.FilesOk) (hticked : Ticked nowMs s s') : s'.FilesOk := by
  cases hticked with
  | idle _ => exact h
  | kill k _ _ => exact h.congr (by simp [SessionSlot.killed, setExec]) (by simp [SessionSlot.killed, setExec])

/-- A session that has just been created. -/
theorem coherent_fresh (id nowMs : Nat) {limits : Limits} (hvalid : limits.Valid)
    (hsess : s.sess = { id, limits, createdMs := nowMs }) (hexecs : s.execs = fun _ => {})
    (hnext : s.nextExecId = 1) : s.Coherent := by
  have hidle : ∀ k, ¬(s.execs k).Live := by
    intro k hk
    rw [hexecs] at hk
    exact hk.1 rfl
  constructor
  · rw [hsess]
    exact Or.inl rfl
  · exact fun k hk => absurd hk (hidle k)
  · intro hbusy
    rw [hsess] at hbusy
    cases hbusy
  · exact fun j _ hj _ => absurd hj (hidle j)
  · rw [hsess]
    exact iff_of_false (fun hne => hne rfl) State.noConfusion
  · rw [hsess]
    exact lt_of_lt_of_le (by decide) hvalid.executionTimeoutMs.1
  · intro k
    rw [hexecs, hnext]
    exact Nat.zero_lt_one
  · intro j k hne
    rw [hexecs] at hne
    exact absurd rfl hne

/-! ### The loops of `tick` -/

theorem tickExec_idle {nowMs : Nat} {k : Fin maxExecs} (h : ¬s.Due nowMs k) :
    tickExec nowMs k s = (.ok 0, s) := by
  rw [tickExec, Act.get_bind_run]
  by_cases hlive : (s.execs k).Live
  · have hskip : ¬((s.execs k).id = 0 ∨ (s.execs k).state = .done) := not_or.mpr hlive
    simp only [if_neg hskip]
    by_cases hgen : (s.execs k).generation = s.sess.generation
    · have hcond : ¬((s.execs k).cancelRequested = true ∨ s.sess.execTimedOut nowMs = true) :=
        fun hc => h ⟨hlive, hgen, hc⟩
      simp only [if_neg (not_not.mpr hgen), if_neg hcond, Act.pure_run]
    · simp only [if_pos (show (s.execs k).generation ≠ s.sess.generation from hgen), Act.pure_run]
  · have hskip : (s.execs k).id = 0 ∨ (s.execs k).state = .done := by
      by_contra hc
      exact hlive (not_or.mp hc)
    simp only [if_pos hskip, Act.pure_run]

theorem tickExec_due {nowMs : Nat} {k : Fin maxExecs} (h : s.Due nowMs k) :
    tickExec nowMs k s = (.ok 1, s.killed k) ∨ (tickExec nowMs k s).1 = .trap := by
  obtain ⟨hlive, hgen, hcond⟩ := h
  have hskip : ¬((s.execs k).id = 0 ∨ (s.execs k).state = .done) := not_or.mpr hlive
  rw [tickExec, Act.get_bind_run]
  simp only [if_neg hskip, if_neg (not_not.mpr hgen), if_pos hcond, Act.modify_bind_run]
  rcases pushEvent_cases (setExec k
      { s.execs k with
        state := .done
        term := if (s.execs k).cancelRequested = true then some .cancelled else some .timeout
        exitCode := none } s) (s.execs k).id .exit 0 with hpush | hpush
  · left
    have hcatch := hpush
    rw [Act.bind_run, Act.catchError, hcatch]
    rfl
  · right
    rw [Act.bind_run, Act.catchError, hpush]

theorem tickExecs_idle {nowMs : Nat} (h : ∀ k, ¬s.Due nowMs k) (ks : List (Fin maxExecs)) :
    tickExecs nowMs ks s = (.ok 0, s) := by
  induction ks with
  | nil => rfl
  | cons k rest ih => rw [tickExecs, Act.bind_ok_run (tickExec_idle (h k)), Act.bind_ok_run ih, Act.pure_run]

/-- The exec loop finishes at most one exec: the first one due, after which nothing is live. -/
theorem tickExecs_run {nowMs : Nat} (hcoherent : s.Coherent) (ks : List (Fin maxExecs)) :
    (tickExecs nowMs ks s = (.ok 0, s) ∧ ∀ k ∈ ks, ¬s.Due nowMs k) ∨
      (∃ k, s.Due nowMs k ∧ tickExecs nowMs ks s = (.ok 1, s.killed k)) ∨
      (tickExecs nowMs ks s).1 = .trap := by
  induction ks with
  | nil => exact Or.inl ⟨rfl, fun k hk => absurd hk (List.not_mem_nil)⟩
  | cons k rest ih =>
      by_cases hdue : s.Due nowMs k
      · rcases tickExec_due hdue with hrun | htrap
        · refine Or.inr (Or.inl ⟨k, hdue, ?_⟩)
          have hdead := (hcoherent.killed hdue.1).2
          have hidle : ∀ j, ¬(s.killed k).Due nowMs j := fun j hj => hdead j hj.1
          have hrest := tickExecs_idle hidle rest
          rw [tickExecs, Act.bind_ok_run hrun, Act.bind_ok_run hrest, Act.pure_run]
        · exact Or.inr (Or.inr (Act.bind_traps htrap))
      · have hrun := tickExec_idle hdue
        rcases ih with ⟨hrest, hnone⟩ | ⟨j, hj, hrest⟩ | htrap
        · refine Or.inl ⟨?_, ?_⟩
          · rw [tickExecs, Act.bind_ok_run hrun, Act.bind_ok_run hrest, Act.pure_run]
          · intro j hj
            rcases List.mem_cons.mp hj with rfl | hj
            · exact hdue
            · exact hnone j hj
        · refine Or.inr (Or.inl ⟨j, hj, ?_⟩)
          rw [tickExecs, Act.bind_ok_run hrun, Act.bind_ok_run hrest, Act.pure_run]
        · refine Or.inr (Or.inr ?_)
          rw [tickExecs, Act.bind_ok_run hrun]
          exact Act.bind_traps htrap

theorem tick_run (nowMs : Nat) (hcoherent : s.used = true → s.Coherent) :
    (∃ n s', tick nowMs s = (.ok n, s') ∧ Ticked nowMs s s') ∨ (tick nowMs s).1 = .trap := by
  rw [tick, Act.get_bind_run]
  by_cases hused : s.used = true
  · rw [if_pos hused]
    rcases tickExecs_run (hcoherent hused) (List.finRange maxExecs) with ⟨hrun, hnone⟩ | ⟨k, hdue, hrun⟩ | htrap
    · exact Or.inl ⟨0, s, hrun, .idle fun _ k => hnone k (List.mem_finRange k)⟩
    · exact Or.inl ⟨1, s.killed k, hrun, .kill k hused hdue⟩
    · exact Or.inr htrap
  · rw [if_neg hused]
    exact Or.inl ⟨0, s, rfl, .idle fun h => absurd h hused⟩

end SessionSlot

end Supervisor
