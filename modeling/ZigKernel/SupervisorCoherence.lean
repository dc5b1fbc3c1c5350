import ZigKernel.SupervisorLifetime

/-! Atomicity of the service and coherence of execs and sessions. A call that fails has changed
nothing. The session of a slot is busy exactly while one exec is live, exec ids are never given out
twice, and a tick leaves nothing overdue. -/

namespace Supervisor

open Zig

namespace Service

variable {svc svc' : Service} {c : Call} {trace : List Call}

/-! ### Atomicity -/

/-- A failing call leaves the service as it was. -/
theorem failed_call_changes_nothing {op : Op} {e : Error} (hrun : Run initial trace svc)
    (hfail : exec op svc = (.error e, svc')) : svc' = svc := by
  have hstep : Step svc ⟨op, .error e⟩ svc' := ⟨hfail, by nofun⟩
  have hchange := (inv_of_run hrun).step hstep
  generalize hcall : (⟨op, .error e⟩ : Call) = c at hchange
  cases hchange with
  | failed op' e' => rfl
  | quiet op' r hquiet => cases (Call.mk.inj hcall).2
  | keyed key body i hkey hfree hnew => cases (Call.mk.inj hcall).2
  | created owner limits nowMs i hvalid hfree => cases (Call.mk.inj hcall).2
  | effect owner id op' r i s htarget hslot howner heffect => cases (Call.mk.inj hcall).2
  | ticked nowMs n slots hticked => cases (Call.mk.inj hcall).2
  | destroyed owner id i hslot howner hnew => cases (Call.mk.inj hcall).2

/-- A reset with the wrong owner, on a service with one session. -/
theorem failed_call_changes_nothing_reset :
    (exec (.reset [] 1) (initial.play [.create [7] {} 0]).2).2 = (initial.play [.create [7] {} 0]).2 :=
  failed_call_changes_nothing (play_run [.create [7] {} 0] initial (by decide +kernel))
    (Prod.ext (by decide +kernel) rfl : exec (.reset [] 1) _ = (.error .notFound, _))

/-! ### Exec ids -/

/-- The exec id a call hands out for session `id`. -/
def Call.started (id : Nat) : Call → Option Nat
  | ⟨.startExec _ id' .., .ok (.number n)⟩ => if id' = id then some n else none
  | _ => none

/-- The exec ids handed out for session `id`, in order. -/
def startedIds (id : Nat) (trace : List Call) : List Nat := trace.filterMap (Call.started id)

theorem Call.Spares.started {id : Nat} (h : c.Spares id) : c.started id = none := by
  obtain ⟨op, reply⟩ := c
  cases op <;> try rfl
  case startExec owner id' generation argv0 nowMs =>
    rcases h with ⟨e, he⟩ | hquiet | htarget
    · change reply = _ at he
      rw [he]
      rfl
    · exact hquiet.elim
    · have hne : id' ≠ id := fun heq => htarget owner (by rw [← heq]; rfl)
      cases reply with
      | ok r => cases r <;> simp [Call.started, hne]
      | error e => rfl
      | trap => rfl

theorem startedIds_append (id : Nat) (trace : List Call) (c : Call) :
    startedIds id (trace ++ [c]) = startedIds id trace ++ (c.started id).toList := by
  rw [startedIds, List.filterMap_append]
  cases h : c.started id <;> simp [startedIds, h]

theorem startedIds_of_spares {id : Nat} (h : ∀ c ∈ trace, c.Spares id) : startedIds id trace = [] := by
  rw [startedIds, List.filterMap_eq_nil_iff]
  exact fun c hc => (h c hc).started

/-- The ids handed out for the session of the slot: increasing, below the counter, and the only ones
in the exec table. -/
structure IdsFrom (s : SessionSlot) (ids : List Nat) : Prop where
  increasing : ids.Pairwise (· < ·)
  lt_next : ∀ n ∈ ids, n < s.nextExecId
  table : ∀ k, (s.execs k).id ≠ 0 → (s.execs k).id ∈ ids

theorem IdsFrom.congr {s s' : SessionSlot} {ids : List Nat} (h : IdsFrom s ids) (hnext : s'.nextExecId = s.nextExecId)
    (hids : ∀ k, (s'.execs k).id = (s.execs k).id) : IdsFrom s' ids where
  increasing := h.increasing
  lt_next := hnext ▸ h.lt_next
  table k hk := by
    rw [hids k] at hk ⊢
    exact h.table k hk

theorem setExec_id {s : SessionSlot} {k : Fin maxExecs} {e : Exec} (h : e.id = (s.execs k).id) (j : Fin maxExecs) :
    ((s.setExec k e).execs j).id = (s.execs j).id := by
  show (Function.update s.execs k e j).id = (s.execs j).id
  by_cases hjk : j = k
  · subst hjk
    rw [Function.update_self, h]
  · rw [Function.update_of_ne hjk]

theorem IdsFrom.effect {s s' : SessionSlot} {op : Op} {r : Reply} {ids : List Nat} (h : IdsFrom s ids)
    {owner : Bytes} (htarget : op.target = some (owner, s.sess.id)) (heffect : SessionSlot.Effect s op r s') :
    IdsFrom s' (ids ++ (Call.started s.sess.id ⟨op, .ok r⟩).toList) := by
  cases heffect with
  | startExec owner' id argv0 nowMs k hready hfree =>
      have hid : id = s.sess.id := (Prod.mk.inj (Option.some.inj htarget)).2
      have hstarted : Call.started s.sess.id
          ⟨.startExec owner' id s.sess.generation argv0 nowMs, .ok (.number s.nextExecId)⟩ = some s.nextExecId :=
        if_pos hid
      rw [hstarted, Option.toList_some]
      constructor
      · rw [List.pairwise_append]
        refine ⟨h.increasing, List.pairwise_singleton _ _, fun a ha b hb => ?_⟩
        rw [List.mem_singleton.mp hb]
        exact h.lt_next a ha
      · intro n hn
        simp only [SessionSlot.started, SessionSlot.placed, SessionSlot.begun, SessionSlot.pushed_nextExecId]
        rcases List.mem_append.mp hn with hn | hn
        · exact (h.lt_next n hn).trans (Nat.lt_succ_self _)
        · rw [List.mem_singleton.mp hn]
          exact Nat.lt_succ_self _
      · intro j hj
        simp only [SessionSlot.started, SessionSlot.placed, SessionSlot.begun, SessionSlot.setExec,
          SessionSlot.pushed_execs] at hj ⊢
        by_cases hjk : j = k
        · subst hjk
          rw [Function.update_self]
          exact List.mem_append_right _ (List.mem_singleton_self _)
        · rw [Function.update_of_ne hjk] at hj ⊢
          exact List.mem_append_left _ (h.table j hj)
  | guestReady owner' id hstate =>
      rw [show Call.started s.sess.id _ = none from rfl, Option.toList_none, List.append_nil]
      exact h.congr (by simp [SessionSlot.readied, SessionSlot.setState])
        (by simp [SessionSlot.readied, SessionSlot.setState])
  | cancelExec owner' id k hlive hgen =>
      rw [show Call.started s.sess.id _ = none from rfl, Option.toList_none, List.append_nil]
      exact h.congr rfl (setExec_id rfl)
  | finishExec owner' id term code k hlive hgen hbusy =>
      rw [show Call.started s.sess.id _ = none from rfl, Option.toList_none, List.append_nil]
      refine h.congr (by simp [SessionSlot.finished, SessionSlot.setExec]) fun j => ?_
      rw [SessionSlot.finished, SessionSlot.pushed_execs]
      apply setExec_id
      rfl
  | overwrite owner' id path size sha k hpath hused hfits =>
      rw [show Call.started s.sess.id _ = none from rfl, Option.toList_none, List.append_nil]
      exact h.congr (by simp [SessionSlot.stored, SessionSlot.setFile])
        (by simp [SessionSlot.stored, SessionSlot.setFile])
  | store owner' id path size sha r k hpath hshort hnew hfree hfits =>
      rw [show Call.started s.sess.id _ = none from rfl, Option.toList_none, List.append_nil]
      exact h.congr (by simp [SessionSlot.stored, SessionSlot.setFile])
        (by simp [SessionSlot.stored, SessionSlot.setFile])
  | reset owner' id hstate =>
      rw [show Call.started s.sess.id _ = none from rfl, Option.toList_none, List.append_nil]
      constructor
      · exact h.increasing
      · simpa [SessionSlot.wiped] using h.lt_next
      · intro k hk
        simp [SessionSlot.wiped] at hk

theorem IdsFrom.slotChange {s s' : SessionSlot} {ids : List Nat} (h : IdsFrom s ids) (hchange : SlotChange s c s') :
    IdsFrom s' (ids ++ (c.started s.sess.id).toList) := by
  cases hchange with
  | spared hspares hidle =>
      rw [hspares.started, Option.toList_none, List.append_nil]
      exact h
  | effect owner r _ htarget hreply heffect =>
      have hc : c = ⟨c.op, .ok r⟩ := by rw [← hreply]
      rw [hc]
      exact h.effect htarget heffect
  | ticked nowMs n _ hcall hticked =>
      subst hcall
      rw [show Call.started s.sess.id _ = none from rfl, Option.toList_none, List.append_nil]
      cases hticked with
      | idle _ => exact h
      | kill k _ _ =>
          refine h.congr (by simp [SessionSlot.killed, SessionSlot.setExec]) fun j => ?_
          obtain ⟨hexecs, -, -⟩ := SessionSlot.killed_eq s k
          rw [hexecs]
          apply setExec_id
          rfl

theorem idsFrom_of_run (hrun : Run initial trace svc) (i : Fin maxSessions) (hused : (svc.slots i).used = true) :
    IdsFrom (svc.slots i) (startedIds (svc.slots i).sess.id trace) := by
  refine slot_history (P := fun trace s => IdsFrom s (startedIds s.sess.id trace)) hrun ?_ ?_ i hused
  · intro trace svc owner limits nowMs hrun hvalid hspares
    have hnone : startedIds (freshSlot svc.nextSessionId owner limits nowMs).sess.id
        (trace ++ [⟨.create owner limits nowMs, .ok (.number svc.nextSessionId)⟩]) = [] := by
      show startedIds svc.nextSessionId _ = []
      rw [startedIds_append, startedIds_of_spares hspares]
      rfl
    rw [hnone]
    exact ⟨List.Pairwise.nil, fun n hn => absurd hn List.not_mem_nil, fun k hk => absurd rfl hk⟩
  · intro trace svc c svc' i hrun hstep hused ih hchange
    rw [hchange.sess_id, startedIds_append]
    exact ih.slotChange hchange

/-- Also the ids of sessions that are gone are never handed out twice. -/
theorem startedIds_increasing (hrun : Run initial trace svc) (id : Nat) :
    (startedIds id trace).Pairwise (· < ·) := by
  refine hrun.history (P := fun trace _ => (startedIds id trace).Pairwise (· < ·)) List.Pairwise.nil ?_
  intro trace svc c svc' hrun ih hstep
  rw [startedIds_append]
  by_cases hspares : c.Spares id
  · rw [hspares.started, Option.toList_none, List.append_nil]
    exact ih
  have hchange := (inv_of_run hrun).step hstep
  cases hchange with
  | effect owner id' op r i s htarget hslot howner heffect =>
      obtain ⟨hused, hid'⟩ := slotOf_some hslot
      have hid : id' = id := by
        by_contra hne
        refine hspares (Or.inr (Or.inr fun owner' htarget' => hne ?_))
        change op.target = _ at htarget'
        rw [htarget] at htarget'
        exact (Prod.mk.inj (Option.some.inj htarget')).2
      subst hid
      subst hid'
      exact ((idsFrom_of_run hrun i hused).effect htarget heffect).increasing
  | failed op e => exact absurd (Or.inl ⟨e, rfl⟩) hspares
  | quiet op r hquiet => exact absurd (Or.inr (Or.inl hquiet)) hspares
  | keyed key body i hkey hfree hnew => exact absurd (Or.inr (Or.inl trivial)) hspares
  | created owner limits nowMs i hvalid hfree => exact absurd (Or.inr (Or.inr (by nofun))) hspares
  | ticked nowMs n slots hticked => exact absurd (Or.inr (Or.inr (by nofun))) hspares
  | destroyed owner id' i hslot howner hnew => exact absurd (Or.inr (Or.inl trivial)) hspares

/-! ### Coherence -/

/-- The exec table and the session of a slot agree. -/
structure ExecsAgree (s : SessionSlot) : Prop where
  busy : s.sess.state = .busy ↔ ∃! k, (s.execs k).Live
  generation : ∀ k, (s.execs k).Live → (s.execs k).generation = s.sess.generation
  deadline : s.sess.execDeadlineMs ≠ 0 ↔ s.sess.state = .busy
  idle : s.sess.state = .creating ∨ s.sess.state = .ready →
    ∀ k, (s.execs k).id ≠ 0 → (s.execs k).state ≠ .running ∧ (s.execs k).state ≠ .cancelling
  distinct : ∀ j k, (s.execs j).id ≠ 0 → (s.execs j).id = (s.execs k).id → j = k
  below : ∀ k, (s.execs k).id < s.nextExecId

/-- Nothing is overdue: a busy session has its deadline ahead and no cancel pending. -/
def OnTime (s : SessionSlot) (nowMs : Nat) : Prop :=
  s.sess.state = .busy → nowMs < s.sess.execDeadlineMs ∧ ∀ k, (s.execs k).Live → (s.execs k).cancelRequested = false

theorem execsAgree_of_coherent {s : SessionSlot} (h : s.Coherent) : ExecsAgree s where
  busy := by
    constructor
    · intro hbusy
      obtain ⟨k, hk⟩ := h.busy_live hbusy
      exact ⟨k, hk, fun j hj => h.live_unique j k hj hk⟩
    · rintro ⟨k, hk, -⟩
      exact (h.live_busy k hk).1
  generation _ hk := h.generation hk
  deadline := h.deadline
  idle hstate k hid := by
    have hdead : ¬(s.execs k).Live := by
      intro hk
      have hbusy := (h.live_busy k hk).1
      rcases hstate with hstate | hstate <;> rw [hstate] at hbusy <;> cases hbusy
    have hdone : (s.execs k).state = .done := by
      by_contra hne
      exact hdead ⟨hid, hne⟩
    rw [hdone]
    exact ⟨ExecState.noConfusion, ExecState.noConfusion⟩
  distinct := h.execId_unique
  below := h.execId_lt

theorem onTime_of_ticked {s s' : SessionSlot} {nowMs : Nat} (h : s.Coherent) (hused : s.used = true)
    (hticked : SessionSlot.Ticked nowMs s s') : OnTime s' nowMs := by
  intro hbusy
  cases hticked with
  | idle hidle =>
      obtain ⟨k, hk⟩ := h.busy_live hbusy
      have hnot := hidle hused
      have htimed : ¬s.sess.execTimedOut nowMs = true := fun htimed =>
        hnot k ⟨hk, h.generation hk, Or.inr htimed⟩
      refine ⟨?_, fun j hj => ?_⟩
      · by_contra hpast
        exact htimed (decide_eq_true ⟨hbusy, h.deadline.mpr hbusy, Nat.not_lt.mp hpast⟩)
      · by_contra hcancel
        exact hnot j ⟨hj, h.generation hj, Or.inl (by simpa using hcancel)⟩
  | kill k _ hdue =>
      obtain ⟨-, hsess, -⟩ := SessionSlot.killed_eq s k
      rw [hsess] at hbusy
      cases hbusy

/-- In every reachable state execs and sessions agree, exec ids in the tables come from an increasing
sequence of ids handed out over the life of the session, and no tick leaves a session overdue. -/
theorem execs_agree (hrun : Run initial trace svc) :
    (∀ i, (svc.slots i).used = true → ExecsAgree (svc.slots i) ∧
        ∀ k, ((svc.slots i).execs k).id ≠ 0 →
          ((svc.slots i).execs k).id ∈ startedIds (svc.slots i).sess.id trace) ∧
      (∀ id, (startedIds id trace).Pairwise (· < ·)) ∧
      ∀ nowMs reply svc', Step svc ⟨.tick nowMs, reply⟩ svc' →
        ∀ i, (svc'.slots i).used = true → OnTime (svc'.slots i) nowMs := by
  have hinv := inv_of_run hrun
  refine ⟨fun i hused => ?_, startedIds_increasing hrun, fun nowMs reply svc' hstep i hused => ?_⟩
  · exact ⟨execsAgree_of_coherent (hinv.coherent i hused), (idsFrom_of_run hrun i hused).table⟩
  · have hticked := hinv.tick_step hstep i
    have hused' : (svc.slots i).used = true := hticked.frame.1.symm.trans hused
    exact onTime_of_ticked (hinv.coherent i hused') hused' hticked

/-- One session with an exec under way. -/
theorem execs_agree_started :
    let svc := (initial.play [.create [7] {} 0, .guestReady [7] 1, .startExec [7] 1 1 [] 0]).2
    ExecsAgree (svc.slots ⟨0, by decide⟩) :=
  ((execs_agree (play_run _ initial (by decide +kernel))).1 _ (by decide +kernel)).1

end Service

end Supervisor
