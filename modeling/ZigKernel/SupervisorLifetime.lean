import ZigKernel.SupervisorStep

/-! The life of one session along a run. Between its `create` and its `destroy` a session stays in one
slot, and a call is seen there as an effect, as a tick, or not at all; before its `create` no call has
reached its id. `slot_history` turns this into an induction over the life of a session. -/

namespace Supervisor

open Zig

namespace Service

variable {svc svc' : Service} {c : Call}

/-- The call cannot have touched session `id`. -/
def Call.Spares (c : Call) (id : Nat) : Prop :=
  (∃ e, c.reply = .error e) ∨ c.op.Quiet ∨ ∀ owner, c.op.target ≠ some (owner, id)

/-- A call as seen by a slot that is in use before and after it. -/
inductive SlotChange (s : SessionSlot) (c : Call) : SessionSlot → Prop where
  | spared (h : c.Spares s.sess.id) (hidle : ∀ nowMs n, c ≠ ⟨.tick nowMs, .ok (.number n)⟩) : SlotChange s c s
  | effect (owner : Bytes) (r : Reply) (s' : SessionSlot) (htarget : c.op.target = some (owner, s.sess.id))
      (hreply : c.reply = .ok r) (heffect : SessionSlot.Effect s c.op r s') : SlotChange s c s'
  | ticked (nowMs n : Nat) (s' : SessionSlot) (hcall : c = ⟨.tick nowMs, .ok (.number n)⟩)
      (hticked : SessionSlot.Ticked nowMs s s') : SlotChange s c s'

theorem SlotChange.sess_id {s s' : SessionSlot} (h : SlotChange s c s') : s'.sess.id = s.sess.id := by
  cases h with
  | spared _ _ => rfl
  | effect owner r _ htarget hreply heffect => exact heffect.frame.2.2
  | ticked nowMs n _ hcall hticked => exact hticked.frame.2.2

theorem SlotChange.owner {s s' : SessionSlot} (h : SlotChange s c s') : s'.owner = s.owner := by
  cases h with
  | spared _ _ => rfl
  | effect owner r _ htarget hreply heffect => exact heffect.frame.2.1
  | ticked nowMs n _ hcall hticked => exact hticked.frame.2.1

theorem Change.slotChange (hinv : svc.Inv) (h : Change svc c svc') {i : Fin maxSessions}
    (hused : (svc.slots i).used = true) (hused' : (svc'.slots i).used = true) :
    SlotChange (svc.slots i) c (svc'.slots i) := by
  cases h with
  | failed op e => exact .spared (Or.inl ⟨e, rfl⟩) (by nofun)
  | quiet op r hquiet =>
      refine .spared (Or.inr (Or.inl hquiet)) fun nowMs n hcall => ?_
      rw [(Call.mk.inj hcall).1] at hquiet
      exact hquiet
  | keyed key body j hkey hfree hnew => exact .spared (Or.inr (Or.inl trivial)) (by nofun)
  | created owner limits nowMs j hvalid hfree =>
      have hij : i ≠ j := fun hij => by
        rw [hij, hfree] at hused
        cases hused
      have hsame : (svc.created j owner limits nowMs).slots i = svc.slots i := Function.update_of_ne hij _ _
      rw [hsame]
      exact .spared (Or.inr (Or.inr (by nofun))) (by nofun)
  | effect owner id op r j s htarget hslot howner heffect =>
      by_cases hij : i = j
      · subst hij
        obtain ⟨-, hid⟩ := slotOf_some hslot
        rw [setSlot_slots_self]
        exact .effect owner r s (by rw [hid]; exact htarget) rfl heffect
      · have hsame : (setSlot j s svc).slots i = svc.slots i := Function.update_of_ne hij _ _
        rw [hsame]
        refine .spared (Or.inr (Or.inr fun owner' htarget' => hij ?_)) fun nowMs n hcall => ?_
        · change op.target = _ at htarget'
          rw [htarget] at htarget'
          have hid : id = (svc.slots i).sess.id := (Prod.mk.inj (Option.some.inj htarget')).2
          have := hinv.slotOf hused
          rw [← hid, hslot] at this
          exact (Option.some.inj this).symm
        · rw [(Call.mk.inj hcall).1] at htarget
          cases htarget
  | ticked nowMs n slots hticked => exact .ticked nowMs n _ rfl (hticked i)
  | destroyed owner id j hslot howner hnew =>
      have hij : i ≠ j := fun hij => by
        subst hij
        have hgone : (((svc.removed i).buried id owner).slots i).used = false := by
          rw [buried_slots, removed]
          simp
        rw [hgone] at hused'
        cases hused'
      have hsame : ((svc.removed j).buried id owner).slots i = svc.slots i := by
        rw [buried_slots]
        exact Function.update_of_ne hij _ _
      rw [hsame]
      exact .spared (Or.inr (Or.inl trivial)) (by nofun)

/-- A slot that comes into use holds the session that has just been created. -/
theorem Change.fresh (h : Change svc c svc') {i : Fin maxSessions} (hfree : (svc.slots i).used = false)
    (hused : (svc'.slots i).used = true) :
    ∃ owner limits nowMs, limits.Valid ∧ c = ⟨.create owner limits nowMs, .ok (.number svc.nextSessionId)⟩ ∧
      svc'.slots i = freshSlot svc.nextSessionId owner limits nowMs := by
  have habsurd : ∀ {p : Prop}, (svc.slots i).used = true → p := fun h => by
    rw [hfree] at h
    cases h
  cases h with
  | failed op e => exact habsurd hused
  | quiet op r hquiet => exact habsurd hused
  | keyed key body j hkey hfree' hnew => exact habsurd hused
  | created owner limits nowMs j hvalid hfree' =>
      by_cases hij : i = j
      · subst hij
        exact ⟨owner, limits, nowMs, hvalid, rfl, Function.update_self _ _ _⟩
      · have hsame : (svc.created j owner limits nowMs).slots i = svc.slots i := Function.update_of_ne hij _ _
        rw [hsame] at hused
        exact habsurd hused
  | effect owner id op r j s htarget hslot howner heffect =>
      by_cases hij : i = j
      · subst hij
        exact habsurd (slotOf_some hslot).1
      · have hsame : (setSlot j s svc).slots i = svc.slots i := Function.update_of_ne hij _ _
        rw [hsame] at hused
        exact habsurd hused
  | ticked nowMs n slots hticked => exact habsurd ((hticked i).frame.1.symm.trans hused)
  | destroyed owner id j hslot howner hnew =>
      by_cases hij : i = j
      · subst hij
        exact habsurd (slotOf_some hslot).1
      · have hsame : ((svc.removed j).buried id owner).slots i = svc.slots i := by
          rw [buried_slots]
          exact Function.update_of_ne hij _ _
        rw [hsame] at hused
        exact habsurd hused

/-- No call reaches a session that does not exist. -/
theorem Change.spares (h : Change svc c svc') {id : Nat} (hid : ∀ i, svc.slotOf id ≠ some i) : c.Spares id := by
  cases h with
  | failed op e => exact Or.inl ⟨e, rfl⟩
  | quiet op r hquiet => exact Or.inr (Or.inl hquiet)
  | keyed key body i hkey hfree hnew => exact Or.inr (Or.inl trivial)
  | created owner limits nowMs i hvalid hfree => exact Or.inr (Or.inr (by nofun))
  | effect owner id' op r i s htarget hslot howner heffect =>
      refine Or.inr (Or.inr fun owner' htarget' => hid i ?_)
      change op.target = _ at htarget'
      rw [htarget] at htarget'
      rw [← (Prod.mk.inj (Option.some.inj htarget')).2]
      exact hslot
  | ticked nowMs n slots hticked => exact Or.inr (Or.inr (by nofun))
  | destroyed owner id' i hslot howner hnew => exact Or.inr (Or.inl trivial)

theorem Change.nextSessionId_le (h : Change svc c svc') : svc.nextSessionId ≤ svc'.nextSessionId := by
  cases h with
  | created owner limits nowMs i hvalid hfree => exact Nat.le_succ _
  | destroyed owner id i hslot howner hnew =>
      rw [buried_nextSessionId]
      exact le_rfl
  | _ => exact le_rfl

/-- Before a session is created no call has touched it. -/
theorem spares_of_run {trace : List Call} (hrun : Run initial trace svc) {id : Nat}
    (hid : svc.nextSessionId ≤ id) : ∀ c ∈ trace, c.Spares id := by
  refine hrun.history (P := fun trace svc => svc.nextSessionId ≤ id → ∀ c ∈ trace, c.Spares id) ?_ ?_ hid
  · exact fun _ c hc => absurd hc List.not_mem_nil
  · intro trace svc c svc' hrun ih hstep hid c' hc'
    have hinv := inv_of_run hrun
    have hchange := hinv.step hstep
    have hle := hchange.nextSessionId_le.trans hid
    rcases List.mem_append.mp hc' with hc' | hc'
    · exact ih hle c' hc'
    · obtain rfl := List.mem_singleton.mp hc'
      refine hchange.spares fun i hi => ?_
      obtain ⟨hused, hsid⟩ := slotOf_some hi
      exact (hinv.id_lt i hused).not_ge (hsid ▸ hle)

/-- Induction over the life of a session: what its creation establishes, after calls that have not
reached it, and every later change in its slot keeps, holds of every session in use. -/
theorem slot_history {P : List Call → SessionSlot → Prop} {trace : List Call} (hrun : Run initial trace svc)
    (hfresh : ∀ trace svc owner limits nowMs, Run initial trace svc → limits.Valid →
      (∀ c ∈ trace, c.Spares svc.nextSessionId) →
      P (trace ++ [⟨.create owner limits nowMs, .ok (.number svc.nextSessionId)⟩])
        (freshSlot svc.nextSessionId owner limits nowMs))
    (hstep : ∀ trace svc c svc' i, Run initial trace svc → Step svc c svc' → (svc.slots i).used = true →
      P trace (svc.slots i) → SlotChange (svc.slots i) c (svc'.slots i) → P (trace ++ [c]) (svc'.slots i)) :
    ∀ i, (svc.slots i).used = true → P trace (svc.slots i) := by
  refine hrun.history (P := fun trace svc => ∀ i, (svc.slots i).used = true → P trace (svc.slots i)) ?_ ?_
  · intro i hused
    cases hused
  · intro trace svc c svc' hrun ih hs i hused'
    have hinv := inv_of_run hrun
    have hchange := hinv.step hs
    by_cases hused : (svc.slots i).used = true
    · exact hstep trace svc c svc' i hrun hs hused (ih i hused) (hchange.slotChange hinv hused hused')
    · obtain ⟨owner, limits, nowMs, hvalid, rfl, hslot⟩ := hchange.fresh (by simpa using hused) hused'
      rw [hslot]
      exact hfresh trace svc owner limits nowMs hrun hvalid (spares_of_run hrun le_rfl)

end Service

end Supervisor
