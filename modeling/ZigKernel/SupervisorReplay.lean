import ZigKernel.SupervisorOwnership

/-! Replayed calls. An idempotency key is recorded with its body the first time and answers every later
call. A destroyed session is remembered by a tombstone, so that its DELETE can be repeated, but there
are eight tombstones and none is ever given up: from the ninth destroyed session on, the repeated DELETE
is refused. -/

namespace Supervisor

open Zig

namespace Service

variable {svc svc' : Service} {c : Call} {trace : List Call}

/-! ### Tombstones -/

/-- Destroying the session now will be remembered, or is remembered already. -/
def Remembers (svc : Service) (owner : Bytes) (id : Nat) : Prop :=
  ∃ t, svc.destroyed t = { id, owner } ∨ (svc.destroyed t).id = 0

/-- A tombstone stays. -/
theorem Change.tombstone_kept (h : Change svc c svc') {t : Fin maxSessions} (hid : (svc.destroyed t).id ≠ 0) :
    svc'.destroyed t = svc.destroyed t := by
  cases h with
  | destroyed owner id i hslot howner hnew =>
      rcases (svc.removed i).buried_destroyed id owner t with heq | ⟨hfree, -⟩
      · exact heq
      · exact absurd hfree hid
  | _ => rfl

theorem tombstone_kept (hinv : svc.Inv) {t : Fin maxSessions} (hid : (svc.destroyed t).id ≠ 0)
    (hrun : Run svc trace svc') : svc'.Inv ∧ svc'.destroyed t = svc.destroyed t := by
  refine hrun.invariant (I := fun svc' => svc'.Inv ∧ svc'.destroyed t = svc.destroyed t) ⟨hinv, rfl⟩ ?_
  rintro u c v ⟨hu, heq⟩ hstep
  have hchange := hu.step hstep
  refine ⟨hu.change hchange, ?_⟩
  rw [hchange.tombstone_kept (by rw [heq]; exact hid), heq]

/-- A tombstone answers the destroy of its pair. -/
theorem destroy_replayed (hinv : svc.Inv) {owner : Bytes} {id : Nat} {t : Fin maxSessions}
    (ht : svc.destroyed t = { id, owner }) {reply : Outcome Error Reply}
    (hstep : Step svc ⟨.destroy owner id, reply⟩ svc') : reply = .ok .unit := by
  rcases destroy_cases hinv owner id with ⟨-, hrun⟩ | ⟨hnew, -⟩
  · have hcall := hstep.1
    rw [exec, Act.bind_ok_run hrun] at hcall
    exact (Prod.mk.inj hcall).1.symm
  · exact absurd ht (hnew t)

/-- A session that is gone and not remembered. -/
theorem destroy_refused (hinv : svc.Inv) {owner : Bytes} {id : Nat} (hnew : ∀ t, svc.destroyed t ≠ { id, owner })
    (hgone : ∀ i, (svc.slots i).used = true → (svc.slots i).sess.id ≠ id) :
    exec (.destroy owner id) svc = (.error .notFound, svc) := by
  rcases destroy_cases hinv owner id with ⟨⟨t, ht⟩, -⟩ | ⟨-, ⟨i, hi, -⟩ | ⟨-, hrun⟩⟩
  · exact absurd ht (hnew t)
  · obtain ⟨hused, hid⟩ := slotOf_some hi.1
    exact absurd hid (hgone i hused)
  · rw [exec, Act.bind_error_run hrun]

/-- A successful destroy replays, or removes a session whose recorded owner is short enough to be
recorded whole. -/
theorem destroy_step (hrun : Run initial trace svc) {owner : Bytes} {id : Nat}
    (hstep : Step svc ⟨.destroy owner id, .ok .unit⟩ svc') :
    ((∃ t, svc.destroyed t = { id, owner }) ∧ svc' = svc) ∨
      ∃ i, svc.Holds owner id i ∧ owner.take ownerCap = owner ∧ (∀ t, svc.destroyed t ≠ { id, owner }) ∧
        svc' = (svc.removed i).buried id owner := by
  have hinv := inv_of_run hrun
  have hcall := hstep.1
  rcases destroy_cases hinv owner id with ⟨htomb, hdestroy⟩ | ⟨hnew, ⟨i, hi, hdestroy⟩ | ⟨-, hdestroy⟩⟩
  · rw [exec, Act.bind_ok_run hdestroy] at hcall
    exact Or.inl ⟨htomb, (Prod.mk.inj hcall).2.symm⟩
  · rw [exec, Act.bind_ok_run hdestroy] at hcall
    obtain ⟨creator, -, hrecorded⟩ := slot_owner hrun i (slotOf_some hi.1).1
    have howner : owner.take ownerCap = owner := by
      rw [← hi.2, hrecorded, List.take_take, Nat.min_self]
    exact Or.inr ⟨i, hi, howner, hnew, (Prod.mk.inj hcall).2.symm⟩
  · rw [exec, Act.bind_error_run hdestroy] at hcall
    cases hcall

/-- Once a destroy has succeeded every later one succeeds too, exactly if it was remembered. -/
theorem destroy_replay_iff (hrun : Run initial trace svc) {owner creator : Bytes} {id : Nat}
    (hcreated : CreatedBy trace creator id) (hstep : Step svc ⟨.destroy owner id, .ok .unit⟩ svc') :
    (∀ trace' svc₁ reply svc₂, Run svc' trace' svc₁ → Step svc₁ ⟨.destroy owner id, reply⟩ svc₂ →
      reply = .ok .unit) ↔ Remembers svc owner id := by
  have hinv := inv_of_run hrun
  have hinv' : svc'.Inv := inv_of_run (hrun.snoc hstep)
  have hpos : id ≠ 0 := (createdBy_lt hrun hcreated).1.ne'
  -- a tombstone of the pair decides every later call
  have hforever : ∀ {t}, svc'.destroyed t = { id, owner } → ∀ trace' svc₁ reply svc₂, Run svc' trace' svc₁ →
      Step svc₁ ⟨.destroy owner id, reply⟩ svc₂ → reply = .ok .unit := by
    intro t ht trace' svc₁ reply svc₂ hrun' hstep'
    obtain ⟨hinv₁, hkept⟩ := tombstone_kept (t := t) hinv' (by rw [ht]; exact hpos) hrun'
    exact destroy_replayed hinv₁ (hkept.trans ht) hstep'
  rcases destroy_step hrun hstep with ⟨⟨t, ht⟩, rfl⟩ | ⟨i, hi, howner, hnew, rfl⟩
  · exact iff_of_true (hforever ht) ⟨t, Or.inl ht⟩
  · obtain ⟨hused, hid⟩ := slotOf_some hi.1
    constructor
    · intro hlater
      by_contra hfull
      have hkept : ∀ t, ((svc.removed i).buried id owner).destroyed t = svc.destroyed t := by
        intro t
        rcases (svc.removed i).buried_destroyed id owner t with heq | ⟨hfree, -⟩
        · exact heq
        · exact absurd ⟨t, Or.inr hfree⟩ hfull
      have hrefused := destroy_refused hinv' (fun t => (hkept t).symm ▸ hnew t) (by
        rw [buried_slots, ← hid]
        exact (hinv.removed hused).2)
      exact absurd (hlater [] _ (.error .notFound) _ .refl ⟨hrefused, by nofun⟩) (by nofun)
    · rintro ⟨t, ht | hfree⟩
      · exact absurd ht (hnew t)
      · -- the first free tombstone takes the pair
        have hburied : ∃ u, ((svc.removed i).buried id owner).destroyed u = { id, owner } := by
          obtain ⟨u, hu⟩ := Table.find?_isSome (t := (svc.removed i).destroyed) (p := fun t => t.id == 0) (i := t)
            (beq_iff_eq.mpr hfree)
          refine ⟨u, ?_⟩
          rw [buried, hu]
          show Function.update _ _ _ u = _
          rw [Function.update_self, howner]
        obtain ⟨u, hu⟩ := hburied
        exact hforever hu

/-! ### Idempotency keys -/

/-- The key is in the table, with this body. -/
def Recorded (svc : Service) (key body : Nat) : Prop :=
  ∃ i, svc.idemUsed i = true ∧ svc.idemKeys i = key ∧ svc.idemBody i = body

/-- No key is in the table twice. -/
def KeysDistinct (svc : Service) : Prop :=
  ∀ i j, svc.idemUsed i = true → svc.idemUsed j = true → svc.idemKeys i = svc.idemKeys j → i = j

theorem Change.keysDistinct (h : Change svc c svc') (hkeys : svc.KeysDistinct) : svc'.KeysDistinct := by
  cases h with
  | keyed key body k hkey hfree hnew =>
      intro i j hi hj heq
      change Function.update svc.idemUsed k true i = true at hi
      change Function.update svc.idemUsed k true j = true at hj
      change Function.update svc.idemKeys k key i = Function.update svc.idemKeys k key j at heq
      by_cases hik : i = k <;> by_cases hjk : j = k
      · rw [hik, hjk]
      · rw [Function.update_of_ne hjk] at hj heq
        rw [hik, Function.update_self] at heq
        exact absurd heq.symm (hnew j hj)
      · rw [Function.update_of_ne hik] at hi heq
        rw [hjk, Function.update_self] at heq
        exact absurd heq (hnew i hi)
      · rw [Function.update_of_ne hik] at hi heq
        rw [Function.update_of_ne hjk] at hj heq
        exact hkeys i j hi hj heq
  | destroyed owner id i hslot howner hnew =>
      rw [buried]
      split <;> exact hkeys
  | _ => exact hkeys

/-- A recorded key stays recorded. -/
theorem Change.recorded (h : Change svc c svc') {key body : Nat} (hrecorded : svc.Recorded key body) :
    svc'.Recorded key body := by
  cases h with
  | keyed key' body' k hkey hfree hnew =>
      obtain ⟨i, hused, hkeyi, hbody⟩ := hrecorded
      have hik : i ≠ k := fun heq => by
        rw [heq, hfree] at hused
        cases hused
      refine ⟨i, ?_, ?_, ?_⟩
      · exact (Function.update_of_ne hik _ _).trans hused
      · exact (Function.update_of_ne hik _ _).trans hkeyi
      · exact (Function.update_of_ne hik _ _).trans hbody
  | destroyed owner id i hslot howner hnew =>
      rw [buried]
      split <;> exact hrecorded
  | _ => exact hrecorded

theorem keysDistinct_of_run (hrun : Run initial trace svc) : svc.KeysDistinct := by
  have h : svc.Inv ∧ svc.KeysDistinct := by
    refine hrun.invariant (I := fun svc => svc.Inv ∧ svc.KeysDistinct) ⟨inv_initial, ?_⟩ ?_
    · intro i j hi
      cases hi
    · rintro u c v ⟨hu, hkeys⟩ hstep
      have hchange := hu.step hstep
      exact ⟨hu.change hchange, hchange.keysDistinct hkeys⟩
  exact h.2

theorem recorded_kept (hinv : svc.Inv) {key body : Nat} (h : svc.Recorded key body) (hrun : Run svc trace svc') :
    svc'.Recorded key body := by
  have hboth : svc'.Inv ∧ svc'.Recorded key body := by
    refine hrun.invariant (I := fun svc => svc.Inv ∧ svc.Recorded key body) ⟨hinv, h⟩ ?_
    rintro u c v ⟨hu, hrecorded⟩ hstep
    have hchange := hu.step hstep
    exact ⟨hu.change hchange, hchange.recorded hrecorded⟩
  exact hboth.2

/-- A granted key has been recorded with its body. -/
theorem recorded_of_granted {key body : Nat} (hkey : key ≠ 0)
    (hstep : Step svc ⟨.idemBegin key body, .ok (.flag true)⟩ svc') :
    (∀ b, ¬svc.Recorded key b) ∧ svc'.Recorded key body := by
  have hcall := hstep.1
  rcases idemBegin_cases svc body hkey with ⟨i, hused, hkeyi, hrun⟩ | ⟨hnew, ⟨i, hfree, hrun⟩ | ⟨-, hrun⟩⟩
  · by_cases hbody : svc.idemBody i ≠ body
    · rw [if_pos hbody] at hrun
      rw [exec, Act.bind_error_run hrun] at hcall
      cases hcall
    · rw [if_neg hbody] at hrun
      rw [exec, Act.bind_ok_run hrun] at hcall
      cases hcall
  · rw [exec, Act.bind_ok_run hrun] at hcall
    rw [← (Prod.mk.inj hcall).2]
    refine ⟨fun b hb => ?_, i, ?_, ?_, ?_⟩
    · obtain ⟨j, hj, hkeyj, -⟩ := hb
      exact hnew j hj hkeyj
    · exact Function.update_self _ _ _
    · exact Function.update_self _ _ _
    · exact Function.update_self _ _ _
  · rw [exec, Act.bind_error_run hrun] at hcall
    cases hcall

/-- A recorded key is replayed to its body and conflicts with any other. -/
theorem idemBegin_recorded (hkeys : svc.KeysDistinct) {key body body' : Nat} (hkey : key ≠ 0)
    (h : svc.Recorded key body) {reply : Outcome Error Reply}
    (hstep : Step svc ⟨.idemBegin key body', reply⟩ svc') :
    reply = if body' = body then .ok (.flag false) else .error .conflict := by
  obtain ⟨j, hj, hkeyj, hbodyj⟩ := h
  have hcall := hstep.1
  rcases idemBegin_cases svc body' hkey with ⟨i, hused, hkeyi, hrun⟩ | ⟨hnew, -⟩
  · obtain rfl : i = j := hkeys i j hused hj (hkeyi.trans hkeyj.symm)
    rw [hbodyj] at hrun
    by_cases hsame : body' = body
    · rw [if_neg (not_not.mpr hsame.symm)] at hrun
      rw [exec, Act.bind_ok_run hrun] at hcall
      rw [if_pos hsame]
      exact (Prod.mk.inj hcall).1.symm
    · rw [if_pos (Ne.symm hsame)] at hrun
      rw [exec, Act.bind_error_run hrun] at hcall
      rw [if_neg hsame]
      exact (Prod.mk.inj hcall).1.symm
  · exact absurd hkeyj (hnew j hj)

/-- The call was told to execute under this key. -/
def Call.granted (key : Nat) : Call → Bool
  | ⟨.idemBegin key' _, .ok (.flag true)⟩ => key' = key
  | _ => false

theorem Call.granted_eq {key : Nat} (h : c.granted key = true) :
    ∃ body, c = ⟨.idemBegin key body, .ok (.flag true)⟩ := by
  unfold Call.granted at h
  split at h
  · exact ⟨_, by rw [of_decide_eq_true h]⟩
  · cases h

/-- A key is granted at most once, and not before it is recorded. -/
theorem granted_once (hrun : Run initial trace svc) {key : Nat} (hkey : key ≠ 0) :
    (trace.filter (Call.granted key)).length ≤ 1 := by
  have h : (trace.filter (Call.granted key)).length ≤ 1 ∧
      ((∀ b, ¬svc.Recorded key b) → trace.filter (Call.granted key) = []) := by
    refine hrun.history (P := fun trace svc => (trace.filter (Call.granted key)).length ≤ 1 ∧
      ((∀ b, ¬svc.Recorded key b) → trace.filter (Call.granted key) = [])) ⟨Nat.zero_le _, fun _ => rfl⟩ ?_
    rintro trace svc c svc' hrun ⟨hlength, hempty⟩ hstep
    have hchange := (inv_of_run hrun).step hstep
    rw [List.filter_append]
    by_cases hgranted : c.granted key = true
    · obtain ⟨body, rfl⟩ := Call.granted_eq hgranted
      obtain ⟨hbefore, hafter⟩ := recorded_of_granted hkey hstep
      rw [hempty hbefore, List.nil_append]
      exact ⟨List.length_filter_le _ _, fun hnone => absurd hafter (hnone body)⟩
    · rw [List.filter_cons_of_neg hgranted, List.filter_nil, List.append_nil]
      exact ⟨hlength, fun hnone => hempty fun b hb => hnone b (hchange.recorded hb)⟩
  exact h.1

/-- Deletes of remembered sessions, and all idempotency keys, can be replayed for ever. -/
theorem replay_laws (hrun : Run initial trace svc) :
    (∀ owner creator id svc', CreatedBy trace creator id → Step svc ⟨.destroy owner id, .ok .unit⟩ svc' →
      ((∀ trace' svc₁ reply svc₂, Run svc' trace' svc₁ → Step svc₁ ⟨.destroy owner id, reply⟩ svc₂ →
        reply = .ok .unit) ↔ Remembers svc owner id)) ∧
      (∀ key, key ≠ 0 → (trace.filter (Call.granted key)).length ≤ 1) ∧
      ∀ key body svc', key ≠ 0 → Step svc ⟨.idemBegin key body, .ok (.flag true)⟩ svc' →
        ∀ trace' svc₁ body' reply svc₂, Run svc' trace' svc₁ → Step svc₁ ⟨.idemBegin key body', reply⟩ svc₂ →
          reply = if body' = body then .ok (.flag false) else .error .conflict := by
  refine ⟨fun owner creator id svc' hcreated hstep => destroy_replay_iff hrun hcreated hstep,
    fun key hkey => granted_once hrun hkey, ?_⟩
  intro key body svc' hkey hstep trace' svc₁ body' reply svc₂ hrun' hstep'
  have hrecorded := (recorded_of_granted hkey hstep).2
  have hlater := recorded_kept (inv_of_run (hrun.snoc hstep)) hrecorded hrun'
  exact idemBegin_recorded (keysDistinct_of_run ((hrun.snoc hstep).append hrun')) hkey hlater hstep'

/-- A key that is granted once. -/
theorem replay_laws_key :
    ((initial.play [.idemBegin 5 1, .idemBegin 5 1, .idemBegin 5 2]).1.filter (Call.granted 5)).length ≤ 1 :=
  (replay_laws (play_run _ initial (by decide +kernel))).2.1 5 (by decide)

/-- Eight sessions created and destroyed, and a ninth created. -/
def nineSessions : List Op :=
  (List.range 8).flatMap (fun k => [.create [7] {} 0, .destroy [7] (k + 1)]) ++ [.create [7] {} 0]

/-- The ninth session is destroyed with success, and the repeated destroy is refused. -/
theorem ninth_destroy_not_replayed :
    ¬∀ (trace : List Call) (svc svc' svc₁ : Service) (owner creator : Bytes) (id : Nat)
        (reply : Outcome Error Reply), Run initial trace svc → CreatedBy trace creator id →
      Step svc ⟨.destroy owner id, .ok .unit⟩ svc' → Step svc' ⟨.destroy owner id, reply⟩ svc₁ →
        reply = .ok .unit := by
  intro hproperty
  have hrun : Run initial (initial.play nineSessions).1 (initial.play nineSessions).2 :=
    play_run nineSessions initial (by decide +kernel)
  have hcreated : CreatedBy (initial.play nineSessions).1 [7] 9 := ⟨{}, 0, by decide +kernel⟩
  have hdestroy : (exec (.destroy [7] 9) (initial.play nineSessions).2).1 = .ok .unit := by decide +kernel
  have hagain : (exec (.destroy [7] 9) (exec (.destroy [7] 9) (initial.play nineSessions).2).2).1 =
      .error .notFound := by decide +kernel
  generalize (initial.play nineSessions).1 = trace at hrun hcreated
  generalize (initial.play nineSessions).2 = svc at hrun hdestroy hagain
  have hstep : Step svc ⟨.destroy [7] 9, .ok .unit⟩ (exec (.destroy [7] 9) svc).2 := ⟨Prod.ext hdestroy rfl, by nofun⟩
  cases hproperty trace svc _ _ [7] [7] 9 (.error .notFound) hrun hcreated hstep ⟨Prod.ext hagain rfl, by nofun⟩

end Service

end Supervisor
