import ZigKernel.SupervisorLifetime

/-! Who a session answers to. A slot and a tombstone keep the first sixty-four bytes of the owner that
created the session, so the check tells owners apart only up to that length; and a free tombstone looks
like the destroyed session 0 of the empty owner. -/

namespace Supervisor

open Zig

namespace Service

variable {svc svc' : Service} {c : Call} {trace : List Call}

/-- A `create` with exactly this owner has returned `id`. -/
def CreatedBy (trace : List Call) (owner : Bytes) (id : Nat) : Prop :=
  ∃ limits nowMs, (⟨.create owner limits nowMs, .ok (.number id)⟩ : Call) ∈ trace

theorem CreatedBy.append {owner : Bytes} {id : Nat} (h : CreatedBy trace owner id) (c : Call) :
    CreatedBy (trace ++ [c]) owner id := by
  obtain ⟨limits, nowMs, hmem⟩ := h
  exact ⟨limits, nowMs, List.mem_append_left _ hmem⟩

theorem createdBy_append {owner : Bytes} {id : Nat} (h : CreatedBy (trace ++ [c]) owner id) :
    CreatedBy trace owner id ∨ ∃ limits nowMs, c = ⟨.create owner limits nowMs, .ok (.number id)⟩ := by
  obtain ⟨limits, nowMs, hmem⟩ := h
  rcases List.mem_append.mp hmem with hmem | hmem
  · exact Or.inl ⟨limits, nowMs, hmem⟩
  · exact Or.inr ⟨limits, nowMs, (List.mem_singleton.mp hmem).symm⟩

/-- The id a successful `create` returns is the counter. -/
theorem Change.create_id {owner : Bytes} {limits : Limits} {nowMs id : Nat}
    (h : Change svc ⟨.create owner limits nowMs, .ok (.number id)⟩ svc') :
    id = svc.nextSessionId ∧ svc'.nextSessionId = svc.nextSessionId + 1 := by
  cases h with
  | quiet op r hquiet => exact hquiet.elim
  | created owner limits nowMs i hvalid hfree => exact ⟨rfl, rfl⟩
  | effect owner' id' op r i s htarget hslot howner heffect => cases htarget

theorem createdBy_lt (hrun : Run initial trace svc) {owner : Bytes} {id : Nat} (h : CreatedBy trace owner id) :
    0 < id ∧ id < svc.nextSessionId := by
  refine hrun.history (P := fun trace svc => CreatedBy trace owner id → 0 < id ∧ id < svc.nextSessionId) ?_ ?_ h
  · rintro ⟨limits, nowMs, hmem⟩
    exact absurd hmem List.not_mem_nil
  · intro trace svc c svc' hrun ih hstep hcreated
    have hinv := inv_of_run hrun
    have hchange := hinv.step hstep
    rcases createdBy_append hcreated with hcreated | ⟨limits, nowMs, rfl⟩
    · exact ⟨(ih hcreated).1, (ih hcreated).2.trans_le hchange.nextSessionId_le⟩
    · obtain ⟨rfl, hnext⟩ := hchange.create_id
      rw [hnext]
      exact ⟨hinv.next_pos, Nat.lt_succ_self _⟩

/-- A session has one creator. -/
theorem createdBy_unique (hrun : Run initial trace svc) {a b : Bytes} {id : Nat} (ha : CreatedBy trace a id)
    (hb : CreatedBy trace b id) : a = b := by
  refine hrun.history (P := fun trace _ => CreatedBy trace a id → CreatedBy trace b id → a = b) ?_ ?_ ha hb
  · rintro ⟨limits, nowMs, hmem⟩
    exact absurd hmem List.not_mem_nil
  · intro trace svc c svc' hrun ih hstep ha hb
    have hchange := (inv_of_run hrun).step hstep
    -- an id that is in the trace already is below the counter, and so not the one returned now
    have hnew : ∀ {o : Bytes} {limits : Limits} {nowMs : Nat}, CreatedBy trace o id →
        ∀ {o'}, c ≠ ⟨.create o' limits nowMs, .ok (.number id)⟩ := by
      intro o limits nowMs hold o' hc
      subst hc
      exact (createdBy_lt hrun hold).2.ne hchange.create_id.1
    rcases createdBy_append ha with ha' | ⟨limits, nowMs, hc⟩ <;>
      rcases createdBy_append hb with hb' | ⟨limits', nowMs', hc'⟩
    · exact ih ha' hb'
    · exact absurd hc' (hnew ha')
    · exact absurd hc (hnew hb')
    · rw [hc] at hc'
      cases hc'
      rfl

/-! ### What is recorded of an owner -/

theorem slot_owner (hrun : Run initial trace svc) (i : Fin maxSessions) (hused : (svc.slots i).used = true) :
    ∃ owner, CreatedBy trace owner (svc.slots i).sess.id ∧ (svc.slots i).owner = owner.take ownerCap := by
  refine slot_history
    (P := fun trace s => ∃ owner, CreatedBy trace owner s.sess.id ∧ s.owner = owner.take ownerCap) hrun ?_ ?_ i hused
  · intro trace svc owner limits nowMs hrun hvalid hspares
    exact ⟨owner, ⟨limits, nowMs, List.mem_append_right _ (List.mem_singleton_self _)⟩, rfl⟩
  · rintro trace svc c svc' i hrun hstep hused ⟨owner, hcreated, howner⟩ hchange
    refine ⟨owner, ?_, ?_⟩
    · rw [hchange.sess_id]
      exact hcreated.append c
    · rw [hchange.owner]
      exact howner

/-- A tombstone is free, or remembers a created session and the first bytes of its owner. -/
theorem tombstone_owner (hrun : Run initial trace svc) (t : Fin maxSessions) :
    svc.destroyed t = {} ∨
      ∃ owner, CreatedBy trace owner (svc.destroyed t).id ∧ (svc.destroyed t).owner = owner.take ownerCap := by
  refine hrun.history (P := fun trace svc => ∀ t, svc.destroyed t = {} ∨
    ∃ owner, CreatedBy trace owner (svc.destroyed t).id ∧ (svc.destroyed t).owner = owner.take ownerCap) ?_ ?_ t
  · exact fun _ => Or.inl rfl
  · intro trace svc c svc' hrun ih hstep t
    have hkeep : svc.destroyed t = {} ∨ ∃ owner, CreatedBy (trace ++ [c]) owner (svc.destroyed t).id ∧
        (svc.destroyed t).owner = owner.take ownerCap := by
      rcases ih t with hfree | ⟨owner, hcreated, howner⟩
      · exact Or.inl hfree
      · exact Or.inr ⟨owner, hcreated.append c, howner⟩
    have hchange := (inv_of_run hrun).step hstep
    cases hchange with
    | destroyed owner id i hslot howner hnew =>
        rcases (svc.removed i).buried_destroyed id owner t with heq | ⟨-, heq⟩
        · rw [heq]
          exact hkeep
        · obtain ⟨hused, hid⟩ := slotOf_some hslot
          obtain ⟨creator, hcreated, hrecorded⟩ := slot_owner hrun i hused
          right
          rw [heq]
          refine ⟨creator, hid ▸ hcreated.append _, ?_⟩
          show owner.take ownerCap = creator.take ownerCap
          rw [← howner, hrecorded, List.take_take, Nat.min_self]
    | failed op e => exact hkeep
    | quiet op r hquiet => exact hkeep
    | keyed key body i hkey hfree hnew => exact hkeep
    | created owner limits nowMs i hvalid hfree => exact hkeep
    | effect owner id op r i s htarget hslot howner heffect => exact hkeep
    | ticked nowMs n slots hticked => exact hkeep

/-! ### The owner check -/

/-- A call with an owner gets past `NotFound` only by a slot that holds the session under that owner,
or by a tombstone of the pair. -/
theorem target_cases (h : svc.Inv) {op : Op} {owner : Bytes} {id : Nat} (htarget : op.target = some (owner, id)) :
    (exec op svc).1 = .error .notFound ∨ (∃ i, svc.Holds owner id i) ∨ ∃ t, svc.destroyed t = { id, owner } := by
  by_cases hholds : ∃ i, svc.Holds owner id i
  · exact Or.inr (Or.inl hholds)
  have hnone : ∀ i, ¬svc.Holds owner id i := fun i hi => hholds ⟨i, hi⟩
  cases op with
  | idemBegin key body => cases htarget
  | create owner' limits nowMs => cases htarget
  | tick nowMs => cases htarget
  | destroy owner' id' =>
      cases htarget
      rcases destroy_cases h owner id with ⟨htomb, -⟩ | ⟨-, ⟨i, hi, -⟩ | ⟨-, hrun⟩⟩
      · exact Or.inr (Or.inr htomb)
      · exact absurd hi (hnone i)
      · left
        rw [exec, Act.bind_error_run hrun]
  | _ =>
      cases htarget
      left
      rw [exec, Act.bind_error_run (owned_refused hnone _)]

/-- The pair stands for a session it did not create: the session is live or remembered and its creator
is a longer string with the same first bytes, or the pair is the one that a free tombstone spells. -/
def Mistaken (svc : Service) (trace : List Call) (owner : Bytes) (id : Nat) : Prop :=
  (∃ creator, CreatedBy trace creator id ∧ ownerCap < creator.length ∧ creator.take ownerCap = owner ∧
      ((∃ i, svc.slotOf id = some i) ∨ ∃ t, (svc.destroyed t).id = id)) ∨
    owner = [] ∧ id = 0 ∧ ∃ t, (svc.destroyed t).id = 0

/-- What is recorded of the creator is the creator, unless it was cut off. -/
theorem creator_of_recorded {owner creator : Bytes} {id : Nat} (hcreated : CreatedBy trace creator id)
    (hrecorded : owner = creator.take ownerCap) :
    CreatedBy trace owner id ∨ ownerCap < creator.length := by
  by_cases hlong : ownerCap < creator.length
  · exact Or.inr hlong
  · rw [List.take_of_length_le (Nat.not_lt.mp hlong)] at hrecorded
    exact Or.inl (hrecorded ▸ hcreated)

/-- Ownership holds of a pair exactly when the pair is not mistaken for another. -/
theorem ownership_iff (hrun : Run initial trace svc) (owner : Bytes) (id : Nat) :
    (∀ op reply svc', op.target = some (owner, id) → Step svc ⟨op, reply⟩ svc' → reply ≠ .error .notFound →
        CreatedBy trace owner id) ↔ ¬Mistaken svc trace owner id := by
  have hinv := inv_of_run hrun
  constructor
  · rintro hproperty (⟨creator, hcreated, hlong, hrecorded, halive⟩ | ⟨rfl, rfl, t, ht⟩)
    · -- an events call, or a replayed destroy, is answered
      have hshort : owner.length = ownerCap := by
        rw [← hrecorded, List.length_take]
        omega
      have howner : CreatedBy trace owner id := by
        rcases halive with ⟨i, hslot⟩ | ⟨t, ht⟩
        · obtain ⟨hused, hid⟩ := slotOf_some hslot
          obtain ⟨creator', hcreated', howner'⟩ := slot_owner hrun i hused
          rw [hid] at hcreated'
          obtain rfl := createdBy_unique hrun hcreated hcreated'
          have hholds : svc.Holds owner id i := ⟨hslot, howner'.trans hrecorded⟩
          exact hproperty _ _ svc rfl ⟨events_run hholds 0 0, by simp⟩ (by simp)
        · rcases tombstone_owner hrun t with hfree | ⟨creator', hcreated', howner'⟩
          · rw [hfree] at ht
            exact absurd ht (createdBy_lt hrun hcreated).1.ne
          · rw [ht] at hcreated'
            obtain rfl := createdBy_unique hrun hcreated hcreated'
            refine hproperty (.destroy owner id) (.ok .unit) svc rfl ⟨?_, by simp⟩ (by simp)
            have htomb : svc.destroyed t = { id, owner } := by
              rw [← ht, ← hrecorded, ← howner']
            rcases destroy_cases hinv owner id with ⟨-, hdestroy⟩ | ⟨hnew, -⟩
            · rw [exec, Act.bind_ok_run hdestroy]
              rfl
            · exact absurd htomb (hnew t)
      have := createdBy_unique hrun howner hcreated
      rw [← this] at hlong
      omega
    · have hcreated : CreatedBy trace [] 0 := by
        refine hproperty (.destroy [] 0) (.ok .unit) svc rfl ⟨?_, by simp⟩ (by simp)
        have htomb : svc.destroyed t = { id := 0, owner := [] } := by
          rcases tombstone_owner hrun t with hfree | ⟨creator, hcreated, -⟩
          · exact hfree
          · rw [ht] at hcreated
            exact absurd (createdBy_lt hrun hcreated).1 (Nat.lt_irrefl 0)
        rcases destroy_cases hinv [] 0 with ⟨-, hdestroy⟩ | ⟨hnew, -⟩
        · rw [exec, Act.bind_ok_run hdestroy]
          rfl
        · exact absurd htomb (hnew t)
      exact absurd (createdBy_lt hrun hcreated).1 (Nat.lt_irrefl 0)
  · intro hclear op reply svc' htarget hstep hreply
    rcases target_cases hinv htarget with hnotFound | ⟨i, hslot, howner⟩ | ⟨t, ht⟩
    · rw [hstep.1] at hnotFound
      exact absurd hnotFound hreply
    · obtain ⟨hused, hid⟩ := slotOf_some hslot
      obtain ⟨creator, hcreated, hrecorded⟩ := slot_owner hrun i hused
      rw [hid] at hcreated
      rw [howner] at hrecorded
      rcases creator_of_recorded hcreated hrecorded with hdone | hlong
      · exact hdone
      · exact absurd (Or.inl ⟨creator, hcreated, hlong, hrecorded.symm, Or.inl ⟨i, hslot⟩⟩) hclear
    · rcases tombstone_owner hrun t with hfree | ⟨creator, hcreated, hrecorded⟩
      · rw [ht] at hfree
        cases hfree
        exact absurd (Or.inr ⟨rfl, rfl, t, by rw [ht]⟩) hclear
      · rw [ht] at hcreated hrecorded
        rcases creator_of_recorded hcreated hrecorded with hdone | hlong
        · exact hdone
        · exact absurd (Or.inl ⟨creator, hcreated, hlong, hrecorded.symm, Or.inr ⟨t, by rw [ht]⟩⟩) hclear

/-- One session, and the owner that created it. -/
theorem ownership_iff_created :
    (∀ op reply svc', op.target = some ([7], 1) →
        Step (initial.play [.create [7] {} 0]).2 ⟨op, reply⟩ svc' → reply ≠ .error .notFound →
        CreatedBy (initial.play [.create [7] {} 0]).1 [7] 1) ↔
      ¬Mistaken (initial.play [.create [7] {} 0]).2 (initial.play [.create [7] {} 0]).1 [7] 1 :=
  ownership_iff (play_run [.create [7] {} 0] initial (by decide +kernel)) [7] 1

theorem play_ops (svc : Service) (ops : List Op) : (svc.play ops).1.map Call.op = ops := by
  induction ops generalizing svc with
  | nil => rfl
  | cons op rest ih => simp only [play, List.map_cons, ih]

theorem createdBy_play {ops : List Op} {owner : Bytes} {id : Nat} (h : CreatedBy (svc.play ops).1 owner id) :
    ∃ limits nowMs, Op.create owner limits nowMs ∈ ops := by
  obtain ⟨limits, nowMs, hmem⟩ := h
  refine ⟨limits, nowMs, ?_⟩
  rw [← play_ops svc ops]
  exact List.mem_map_of_mem hmem

/-- An owner of sixty-five bytes creates a session; the string of its first sixty-four opens it. -/
theorem truncated_owner_opens_session :
    ¬∀ (trace : List Call) (svc svc' : Service) (op : Op) (reply : Outcome Error Reply) (owner : Bytes) (id : Nat),
      Run initial trace svc → op.target = some (owner, id) → Step svc ⟨op, reply⟩ svc' →
        reply ≠ .error .notFound → CreatedBy trace owner id := by
  intro hproperty
  set ops : List Op := [.create (List.replicate 65 7) {} 0] with hops
  have hrun : Run initial (initial.play ops).1 (initial.play ops).2 := play_run ops initial (by decide +kernel)
  have hready : (exec (.guestReady (List.replicate 64 7) 1) (initial.play ops).2).1 = .ok .unit := by decide +kernel
  have hcreated := hproperty _ _ _ (.guestReady (List.replicate 64 7) 1) (.ok .unit) _ 1 hrun rfl
    ⟨Prod.ext hready rfl, by nofun⟩ (by nofun)
  obtain ⟨limits, nowMs, hmem⟩ := createdBy_play hcreated
  rw [hops, List.mem_singleton] at hmem
  have hlength := congrArg List.length (Op.create.inj hmem).1
  simp at hlength

end Service

end Supervisor
