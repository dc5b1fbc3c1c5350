import ZigKernel.SupervisorLifetime

/-! Expiry along the runs of the service. `isExpired` is defined with the session and asked by no call, so that an exec
starts in an expired session like in any other, and a tick leaves the one it finds there alone. The runs that keep to
the time of their sessions are those in which no such call is made. -/

namespace Supervisor

open Zig

namespace SessionSlot

variable {s s' : SessionSlot} {op : Service.Op} {r : Service.Reply}

/-! ### What a slot keeps of its session -/

theorem Effect.expiresAt (h : Effect s op r s') : s'.sess.expiresAt = s.sess.expiresAt := by
  cases h <;>
    simp [Session.expiresAt, readied, setState, started, begun, placed, cancelled, finished, stored, wiped, setExec, setFile]

theorem Ticked.expiresAt {nowMs : Nat} (h : Ticked nowMs s s') : s'.sess.expiresAt = s.sess.expiresAt := by
  cases h with
  | idle _ => rfl
  | kill k _ _ => simp [Session.expiresAt, killed, setExec]

/-- Where nothing is live, only `startExec` brings something to life. -/
theorem Effect.idle (h : Effect s op r s') (hidle : ∀ k, ¬(s.execs k).Live) :
    (∃ owner id argv0 nowMs, op = .startExec owner id s.sess.generation argv0 nowMs) ∨ ∀ k, ¬(s'.execs k).Live := by
  cases h with
  | guestReady owner id hstate => exact Or.inr (by simpa [readied, setState] using hidle)
  | startExec owner id argv0 nowMs k hready hfree => exact Or.inl ⟨owner, id, argv0, nowMs, rfl⟩
  | cancelExec owner id k hlive hgen => exact absurd hlive (hidle k)
  | finishExec owner id term code k hlive hgen hbusy => exact absurd hlive (hidle k)
  | overwrite owner id path size sha k hpath hused hfits => exact Or.inr (by simpa [stored, setFile] using hidle)
  | store owner id path size sha r k hpath hshort hnew hfree hfits => exact Or.inr (by simpa [stored, setFile] using hidle)
  | reset owner id hstate => exact Or.inr (by simp [wiped, Exec.Live])

theorem Ticked.idle_of_idle {nowMs : Nat} (h : Ticked nowMs s s') (hidle : ∀ k, ¬(s.execs k).Live) :
    ∀ k, ¬(s'.execs k).Live := by
  cases h with
  | idle _ => exact hidle
  | kill k _ hdue => exact absurd hdue.1 (hidle k)

/-- After a tick nothing is live exactly if all that was live was due. -/
theorem Ticked.idle_iff {nowMs : Nat} (h : Ticked nowMs s s') (hcoherent : s.Coherent) (hused : s.used = true) :
    (∀ k, ¬(s'.execs k).Live) ↔
      ∀ k, (s.execs k).Live → (s.execs k).cancelRequested = true ∨ s.sess.execTimedOut nowMs = true := by
  cases h with
  | idle hnot =>
      constructor
      · exact fun hidle k hlive => absurd hlive (hidle k)
      · exact fun hdue k hlive => hnot hused k ⟨hlive, hcoherent.generation hlive, hdue k hlive⟩
  | kill k _ hdue =>
      constructor
      · intro _ j hlive
        rw [hcoherent.live_unique j k hlive hdue.1]
        exact hdue.2.2
      · exact fun _ => (hcoherent.killed hdue.1).2

/-- A ready session with a free entry takes the exec. -/
theorem startExec_starts (hready : s.sess.state = .ready) {k : Fin maxExecs} (hfree : (s.execs k).id = 0) (id : Nat)
    (argv0 : Bytes) (nowMs : Nat) : (∃ n s', startExec id s.sess.generation argv0 nowMs s = (.ok n, s')) ∨
      (startExec id s.sess.generation argv0 nowMs s).1 = .trap := by
  have hsess : onSess (Session.startExec s.sess.generation nowMs) s = (.ok (), s.begun nowMs) := by
    rw [onSess_run]
    simp [Session.startExec, hready, begun]
  rw [startExec, Act.bind_ok_run hsess]
  rcases placeExec_cases (s.begun nowMs) id s.sess.generation argv0 with ⟨hfull, -⟩ | ⟨k, -, hplace⟩ | htrap
  · exact absurd hfree (hfull k)
  · exact Or.inl ⟨_, _, Act.errdefer_ok_run hplace⟩
  · exact Or.inr (Act.errdefer_traps htrap)

end SessionSlot

namespace Service

/-! ### Runs in time -/

/-- The time a call is given. -/
def Op.time : Op → Option Nat
  | .create _ _ nowMs | .startExec _ _ _ _ nowMs | .tick nowMs => some nowMs
  | _ => none

/-- The service with the latest time it was given, and the sessions a tick has found expired. -/
structure Clocked where
  svc : Service := initial
  now : Nat := 0
  lapsed : Nat → Prop := fun _ => False

/-- The call is a tick at which session `id` has expired. -/
def Call.Lapses (svc : Service) (c : Call) (id : Nat) : Prop :=
  ∃ nowMs i, c.op = .tick nowMs ∧ (svc.slots i).used = true ∧ (svc.slots i).sess.id = id ∧
    (svc.slots i).sess.isExpired nowMs = true

/-- A call of the service, at a time not before the last one. -/
structure Clocked.Step (w : Clocked) (c : Call) (w' : Clocked) : Prop where
  service : Service.Step w.svc c w'.svc
  now : w'.now = c.op.time.getD w.now
  inOrder : w.now ≤ w'.now
  lapsed : ∀ id, w'.lapsed id ↔ w.lapsed id ∨ c.Lapses w.svc id

/-- Expiry is enforced by the call: it starts no exec in an expired session, and nothing is live in the sessions that a
tick has found expired. -/
structure Enforced (w : Clocked) (c : Call) (w' : Clocked) : Prop where
  started : ∀ owner id generation argv0 nowMs r i, c = ⟨.startExec owner id generation argv0 nowMs, .ok r⟩ →
    w.svc.slotOf id = some i → nowMs < (w.svc.slots i).sess.expiresAt ∧ ¬w.lapsed id
  stopped : ∀ i, (w'.svc.slots i).used = true → w'.lapsed (w'.svc.slots i).sess.id → ∀ k, ¬((w'.svc.slots i).execs k).Live

/-- The call does not come upon an expired session that is ready for it, or, if it is a tick, upon one whose exec is
neither cancelled nor past its own deadline. -/
def InTime (svc : Service) : Op → Prop
  | .startExec owner id generation _ nowMs => ∀ i, svc.Holds owner id i → (svc.slots i).sess.isExpired nowMs = true →
      (svc.slots i).sess.state ≠ .ready ∨ generation ≠ (svc.slots i).sess.generation ∨ ∀ k, ((svc.slots i).execs k).id ≠ 0
  | .tick nowMs => ∀ i, (svc.slots i).used = true → (svc.slots i).sess.isExpired nowMs = true →
      ∀ k, ((svc.slots i).execs k).Live →
        ((svc.slots i).execs k).cancelRequested = true ∨ (svc.slots i).sess.execTimedOut nowMs = true
  | _ => True

variable {svc svc' : Service} {w w' : Clocked} {c : Call} {trace : List Call}

theorem isExpired_iff {sess : Session} {nowMs : Nat} : sess.isExpired nowMs = true ↔ sess.expiresAt ≤ nowMs := by
  simp [Session.isExpired]

/-- Every run of the service at times that do not decrease is one with a clock. -/
theorem clocked_of_run (hrun : Run initial trace svc) (horder : (trace.filterMap fun c => c.op.time).Pairwise (· ≤ ·)) :
    ∃ w : Clocked, w.svc = svc ∧ (∀ t, (∀ x ∈ trace.filterMap fun c => c.op.time, x ≤ t) → w.now ≤ t) ∧
      Runs.Run Clocked.Step {} trace w := by
  induction hrun with
  | refl => exact ⟨{}, rfl, fun t _ => Nat.zero_le t, .refl⟩
  | @snoc trace svc svc' c _ hstep ih =>
      rw [List.filterMap_append, List.pairwise_append] at horder
      obtain ⟨hbefore, -, hlast⟩ := horder
      obtain ⟨w, rfl, hnow, hrun⟩ := ih hbefore
      have hle : w.now ≤ c.op.time.getD w.now := by
        cases htime : c.op.time with
        | none => exact le_rfl
        | some t => exact hnow t fun x hx => hlast x hx t (by simp [htime])
      refine ⟨⟨svc', c.op.time.getD w.now, fun id => w.lapsed id ∨ c.Lapses w.svc id⟩, rfl, ?_,
        hrun.snoc ⟨hstep, rfl, hle, fun _ => Iff.rfl⟩⟩
      intro t ht
      cases htime : c.op.time with
      | none => exact hnow t fun x hx => ht x (by simp only [List.filterMap_append, List.mem_append, hx, true_or])
      | some t' => exact ht t' (by simp [List.filterMap_append, htime])

/-! ### One call -/

/-- A session that a tick has found expired is past its time, and idle. -/
structure Fenced (w : Clocked) : Prop where
  inv : w.svc.Inv
  lapsed_lt : ∀ id, w.lapsed id → id < w.svc.nextSessionId
  expired : ∀ i, (w.svc.slots i).used = true → w.lapsed (w.svc.slots i).sess.id → (w.svc.slots i).sess.expiresAt ≤ w.now
  stopped : ∀ i, (w.svc.slots i).used = true → w.lapsed (w.svc.slots i).sess.id → ∀ k, ¬((w.svc.slots i).execs k).Live

theorem fenced_initial : Fenced {} where
  inv := inv_initial
  lapsed_lt _ h := h.elim
  expired _ _ h := h.elim
  stopped _ _ h := h.elim

theorem SlotChange.expiresAt {s s' : SessionSlot} (h : SlotChange s c s') : s'.sess.expiresAt = s.sess.expiresAt := by
  cases h with
  | spared _ _ => rfl
  | effect owner r _ htarget hreply heffect => exact heffect.expiresAt
  | ticked nowMs n _ hcall hticked => exact hticked.expiresAt

/-- A session with nothing live has nothing live after the call, unless the call starts an exec in it. -/
theorem SlotChange.idle {s s' : SessionSlot} (h : SlotChange s c s') (hidle : ∀ k, ¬(s.execs k).Live) :
    (∃ owner argv0 nowMs r, c = ⟨.startExec owner s.sess.id s.sess.generation argv0 nowMs, .ok r⟩) ∨
      ∀ k, ¬(s'.execs k).Live := by
  cases h with
  | spared _ _ => exact Or.inr hidle
  | effect owner r _ htarget hreply heffect =>
      rcases heffect.idle hidle with ⟨owner', id, argv0, nowMs, hop⟩ | hidle'
      · rw [hop] at htarget
        obtain ⟨-, rfl⟩ := Prod.mk.inj (Option.some.inj htarget)
        exact Or.inl ⟨owner', argv0, nowMs, r, by rw [← hop, ← hreply]⟩
      · exact Or.inr hidle'
  | ticked nowMs n _ hcall hticked => exact Or.inr (hticked.idle_of_idle hidle)

/-- A session that is lapsed after the call was there before it. -/
theorem Fenced.slotChange (hw : Fenced w) (hstep : w.Step c w') {i : Fin maxSessions}
    (hused' : (w'.svc.slots i).used = true) (hlapsed : w'.lapsed (w'.svc.slots i).sess.id) :
    (w.svc.slots i).used = true ∧ SlotChange (w.svc.slots i) c (w'.svc.slots i) := by
  have hchange := hw.inv.step hstep.service
  by_cases hused : (w.svc.slots i).used = true
  · exact ⟨hused, hchange.slotChange hw.inv hused hused'⟩
  -- the slot has just been taken, by a session with an id that no tick can have seen
  obtain ⟨owner, limits, nowMs, -, -, hfresh⟩ := hchange.fresh (by simpa using hused) hused'
  rw [hfresh, hstep.lapsed] at hlapsed
  rcases hlapsed with hlapsed | ⟨t, j, -, hj, hid, -⟩
  · exact absurd (hw.lapsed_lt _ hlapsed) (lt_irrefl _)
  · exact absurd (hw.inv.id_lt j hj) (hid ▸ lt_irrefl _)

/-- The session of a slot lapses with the call exactly if the call is a tick past its expiry. -/
theorem lapses_slot (h : svc.Inv) {i : Fin maxSessions} (hused : (svc.slots i).used = true) :
    c.Lapses svc (svc.slots i).sess.id ↔ ∃ nowMs, c.op = .tick nowMs ∧ (svc.slots i).sess.isExpired nowMs = true := by
  constructor
  · rintro ⟨nowMs, j, hop, hj, hid, hexpired⟩
    rw [h.id_unique j i hj hused hid] at hexpired
    exact ⟨nowMs, hop, hexpired⟩
  · rintro ⟨nowMs, hop, hexpired⟩
    exact ⟨nowMs, i, hop, hused, rfl, hexpired⟩

theorem Fenced.step (hw : Fenced w) (hstep : w.Step c w') (henforced : Enforced w c w') : Fenced w' := by
  have hchange := hw.inv.step hstep.service
  refine ⟨hw.inv.change hchange, fun id hid => ?_, fun i hused' hlapsed => ?_, henforced.stopped⟩
  · refine lt_of_lt_of_le ?_ hchange.nextSessionId_le
    rcases (hstep.lapsed id).mp hid with hid | ⟨nowMs, i, -, hused, rfl, -⟩
    · exact hw.lapsed_lt id hid
    · exact hw.inv.id_lt i hused
  · obtain ⟨hused, hslot⟩ := hw.slotChange hstep hused' hlapsed
    rw [hslot.expiresAt]
    rw [hslot.sess_id, hstep.lapsed, lapses_slot hw.inv hused] at hlapsed
    rcases hlapsed with hlapsed | ⟨nowMs, hop, hexpired⟩
    · exact (hw.expired i hused hlapsed).trans hstep.inOrder
    · rw [hstep.now, hop]
      exact isExpired_iff.mp hexpired

theorem Fenced.inTime (hw : Fenced w) (hstep : w.Step c w') (henforced : Enforced w c w') : InTime w.svc c.op := by
  obtain ⟨op, reply⟩ := c
  cases op with
  | startExec owner id generation argv0 nowMs =>
      intro i hi hexpired
      by_contra hopen
      simp only [not_or, not_not, not_forall] at hopen
      obtain ⟨hready, rfl, k, hfree⟩ := hopen
      obtain ⟨hexec, hreturns⟩ := hstep.service
      have howned := owned_run hi (SessionSlot.startExec id (w.svc.slots i).sess.generation argv0 nowMs)
      rcases SessionSlot.startExec_starts hready hfree id argv0 nowMs with ⟨n, s', hok⟩ | htrap
      · rw [hok] at howned
        rw [exec, Act.bind_ok_run howned] at hexec
        have hlt := (henforced.started _ _ _ _ _ _ i (congrArg _ (Prod.mk.inj hexec).1.symm) hi.1).1
        exact absurd hlt (Nat.not_lt.mpr (isExpired_iff.mp hexpired))
      · refine hreturns ?_
        rw [← (Prod.mk.inj hexec).1]
        apply Act.bind_traps
        rw [howned]
        exact htrap
  | tick nowMs =>
      intro i hused hexpired
      have hticked := hw.inv.tick_step hstep.service i
      have hid := hticked.frame.2.2
      refine (hticked.idle_iff (hw.inv.coherent i hused) hused).mp (henforced.stopped i (hticked.frame.1.trans hused) ?_)
      rw [hid, hstep.lapsed, lapses_slot hw.inv hused]
      exact Or.inr ⟨nowMs, rfl, hexpired⟩
  | _ => trivial

/-- What it takes to start an exec. -/
theorem starts_of_change {owner : Bytes} {id generation : Nat} {argv0 : Bytes} {nowMs : Nat} {r : Reply}
    (h : Change svc ⟨.startExec owner id generation argv0 nowMs, .ok r⟩ svc') :
    ∃ i k, svc.Holds owner id i ∧ (svc.slots i).sess.state = .ready ∧ generation = (svc.slots i).sess.generation ∧
      ((svc.slots i).execs k).id = 0 := by
  cases h with
  | quiet _ _ hquiet => exact hquiet.elim
  | effect owner' id' _ _ i s htarget hslot howner heffect =>
      cases htarget
      cases heffect with
      | startExec _ _ _ _ k hready hfree => exact ⟨i, k, ⟨hslot, howner⟩, hready, rfl, hfree⟩

theorem Fenced.started (hw : Fenced w) (hstep : w.Step c w') (htime : InTime w.svc c.op) {owner : Bytes}
    {id generation : Nat} {argv0 : Bytes} {nowMs : Nat} {r : Reply} {i : Fin maxSessions}
    (hc : c = ⟨.startExec owner id generation argv0 nowMs, .ok r⟩) (hslot : w.svc.slotOf id = some i) :
    nowMs < (w.svc.slots i).sess.expiresAt ∧ ¬w.lapsed id := by
  subst hc
  obtain ⟨j, k, hj, hready, hgeneration, hfree⟩ := starts_of_change (hw.inv.step hstep.service)
  obtain rfl : j = i := Option.some.inj (hj.1.symm.trans hslot)
  have hlt : nowMs < (w.svc.slots j).sess.expiresAt := by
    by_contra hlate
    rcases htime j hj (isExpired_iff.mpr (Nat.not_lt.mp hlate)) with hstate | hstale | hfull
    · exact hstate hready
    · exact hstale hgeneration
    · exact hfull k hfree
  refine ⟨hlt, fun hlapsed => ?_⟩
  obtain ⟨hused, hid⟩ := slotOf_some hslot
  have hpast := (hw.expired j hused (hid.symm ▸ hlapsed)).trans hstep.inOrder
  rw [hstep.now] at hpast
  exact absurd hlt (Nat.not_lt.mpr hpast)

theorem Fenced.enforced (hw : Fenced w) (hstep : w.Step c w') (htime : InTime w.svc c.op) : Enforced w c w' := by
  refine ⟨fun _ _ _ _ _ _ _ hc hslot => hw.started hstep htime hc hslot, fun i hused' hlapsed => ?_⟩
  obtain ⟨hused, hslot⟩ := hw.slotChange hstep hused' hlapsed
  rw [hslot.sess_id, hstep.lapsed, lapses_slot hw.inv hused] at hlapsed
  rcases hlapsed with hlapsed | ⟨nowMs, hop, hexpired⟩
  · rcases hslot.idle (hw.stopped i hused hlapsed) with ⟨owner, argv0, nowMs, r, hc⟩ | hidle
    · -- a start in a lapsed session would be late
      exact absurd hlapsed (hw.started hstep htime hc (hw.inv.slotOf hused)).2
    · exact hidle
  · obtain ⟨op, reply⟩ := c
    change op = _ at hop
    subst hop
    have hticked := hw.inv.tick_step hstep.service i
    exact (hticked.idle_iff (hw.inv.coherent i hused) hused).mpr (htime i hused hexpired)

/-! ### Runs -/

/-- The runs that enforce expiry are those in which no call comes upon an expired session that is open to it. -/
theorem expiry_enforced_iff (trace : List Call) (w : Clocked) :
    Runs.Run (fun w c w' => Clocked.Step w c w' ∧ Enforced w c w') {} trace w ↔
      Runs.Run (fun w c w' => Clocked.Step w c w' ∧ InTime w.svc c.op) {} trace w :=
  Runs.Run.along_iff (I := Fenced) (B := fun (w : Clocked) (c : Call) _ => InTime w.svc c.op) fenced_initial
    (fun _ _ _ hw hstep => ⟨hw.inTime hstep, hw.enforced hstep⟩)
    fun _ _ _ hw hstep htime => hw.step hstep (hw.enforced hstep htime)

/-- A session of a quarter of an hour takes an exec when that time is over. -/
theorem expired_session_starts : ¬∀ trace w, Runs.Run Clocked.Step {} trace w →
    Runs.Run (fun w c w' => Clocked.Step w c w' ∧ Enforced w c w') {} trace w := by
  intro h
  have hrun := play_run [.create [7] {} 0, .guestReady [7] 1, .startExec [7] 1 1 [] 900000] initial (by decide +kernel)
  obtain ⟨w, -, -, hclocked⟩ := clocked_of_run hrun (by decide +kernel)
  have hintime := (expiry_enforced_iff _ _).mp (h _ w hclocked)
  obtain ⟨w₁, ⟨hcreate, -⟩, hrest⟩ := hintime.cons_inv
  obtain ⟨w₂, ⟨hready, -⟩, hrest⟩ := hrest.cons_inv
  obtain ⟨w₃, ⟨-, htime⟩, -⟩ := hrest.cons_inv
  have hsvc : w₂.svc = (initial.play [.create [7] {} 0, .guestReady [7] 1]).2 := by
    rw [show w₂.svc = _ from (congrArg Prod.snd hready.service.1).symm,
      show w₁.svc = _ from (congrArg Prod.snd hcreate.service.1).symm]
    rfl
  rw [hsvc] at htime
  rcases htime ⟨0, by decide⟩ ⟨by decide +kernel, by decide +kernel⟩ (by decide +kernel) with hstate | hstale | hfull
  · exact hstate (by decide +kernel)
  · exact hstale (by decide +kernel)
  · exact hfull ⟨0, by decide⟩ (by decide +kernel)

end Service

end Supervisor
