import ZigKernel.SupervisorInvariant

/-! The service as a transition system. `Change` lists what a call can do to the whole service, the
invariant `Inv` is what makes the list complete, and both hold along every run from `Service{}`. -/

open Finset

namespace Supervisor

open Zig

namespace Service

/-- The owner and the session an owner-taking operation is called with. -/
def Op.target : Op → Option (Bytes × Nat)
  | .idemBegin .. | .create .. | .tick _ => none
  | .guestReady owner id | .startExec owner id .. | .cancelExec owner id _ | .finishExec owner id ..
  | .putFile owner id .. | .getFile owner id .. | .events owner id .. | .reset owner id | .destroy owner id =>
      some (owner, id)

/-- The operations that can succeed without writing anything. -/
def Op.Quiet : Op → Prop
  | .idemBegin .. | .cancelExec .. | .getFile .. | .events .. | .destroy .. => True
  | _ => False

variable (svc : Service)

/-! ### The services that calls leave behind -/

/-- The slot of a session that has just been created. -/
def freshSlot (id : Nat) (owner : Bytes) (limits : Limits) (nowMs : Nat) : SessionSlot :=
  { used := true
    owner := owner.take ownerCap
    sess := { id, limits, createdMs := nowMs }
    ws := Workspace.init limits.workspaceMib
    auditCount := 1 }

def created (i : Fin maxSessions) (owner : Bytes) (limits : Limits) (nowMs : Nat) : Service :=
  { svc with
    adm := svc.adm.admitted limits
    slots := Function.update svc.slots i (freshSlot svc.nextSessionId owner limits nowMs)
    nextSessionId := svc.nextSessionId + 1 }

def keyed (i : Fin maxIdemKeys) (key body : Nat) : Service :=
  { svc with
    idemUsed := Function.update svc.idemUsed i true
    idemKeys := Function.update svc.idemKeys i key
    idemBody := Function.update svc.idemBody i body }

/-- The session at `i` is gone and its resources are given back. -/
def removed (i : Fin maxSessions) : Service :=
  { setSlot i
      { svc.slots i with sess := { (svc.slots i).sess with state := .destroyed }, used := false } svc with
    adm := svc.adm.release (svc.slots i).sess.limits }

/-- The first free tombstone remembers the session; with none left it is forgotten. -/
def buried (id : Nat) (owner : Bytes) : Service :=
  match Table.find? svc.destroyed fun t => t.id == 0 with
  | some t => { svc with destroyed := Function.update svc.destroyed t { id, owner := owner.take ownerCap } }
  | none => svc

@[simp] theorem buried_slots (id : Nat) (owner : Bytes) : (svc.buried id owner).slots = svc.slots := by
  unfold buried; split <;> rfl

@[simp] theorem buried_adm (id : Nat) (owner : Bytes) : (svc.buried id owner).adm = svc.adm := by
  unfold buried; split <;> rfl

@[simp] theorem buried_nextSessionId (id : Nat) (owner : Bytes) :
    (svc.buried id owner).nextSessionId = svc.nextSessionId := by
  unfold buried; split <;> rfl

/-- Burial writes at most one entry, and that one was free. -/
theorem buried_destroyed (id : Nat) (owner : Bytes) (t : Fin maxSessions) :
    (svc.buried id owner).destroyed t = svc.destroyed t ∨
      (svc.destroyed t).id = 0 ∧ (svc.buried id owner).destroyed t = { id, owner := owner.take ownerCap } := by
  unfold buried
  split
  next u hu =>
    by_cases htu : t = u
    · subst htu
      refine Or.inr ⟨by simpa using Table.find?_some hu, ?_⟩
      exact Function.update_self _ _ _
    · exact Or.inl (Function.update_of_ne htu _ _)
  next => exact Or.inl rfl

theorem setSlot_self (i : Fin maxSessions) : setSlot i (svc.slots i) svc = svc := by
  rw [setSlot, Function.update_eq_self]

variable {svc}

theorem slotOf_some {id : Nat} {i : Fin maxSessions} (h : svc.slotOf id = some i) :
    (svc.slots i).used = true ∧ (svc.slots i).sess.id = id := by
  simpa using Table.find?_some h

/-! ### The invariant -/

/-- The slots are coherent, admission counts them, and session ids are handed out once. -/
structure Inv (svc : Service) : Prop where
  coherent : ∀ i, (svc.slots i).used = true → (svc.slots i).Coherent
  filesOk : ∀ i, (svc.slots i).used = true → (svc.slots i).FilesOk
  active : svc.adm.active = ∑ i, if (svc.slots i).used then 1 else 0
  capacity : svc.adm.maxSessions = maxSessions
  next_pos : 0 < svc.nextSessionId
  id_pos : ∀ i, (svc.slots i).used = true → 0 < (svc.slots i).sess.id
  id_lt : ∀ i, (svc.slots i).used = true → (svc.slots i).sess.id < svc.nextSessionId
  id_unique : ∀ i j, (svc.slots i).used = true → (svc.slots j).used = true →
    (svc.slots i).sess.id = (svc.slots j).sess.id → i = j
  tombstone_lt : ∀ t, (svc.destroyed t).id < svc.nextSessionId
  tombstone_gone : ∀ t i, (svc.slots i).used = true → (svc.slots i).sess.id ≠ (svc.destroyed t).id

theorem inv_initial : initial.Inv where
  coherent _ h := by cases h
  filesOk _ h := by cases h
  active := by simp [initial]
  capacity := rfl
  next_pos := Nat.one_pos
  id_pos _ h := by cases h
  id_lt _ h := by cases h
  id_unique _ _ h := by cases h
  tombstone_lt _ := Nat.one_pos
  tombstone_gone _ _ h := by cases h

theorem Inv.slotOf (h : svc.Inv) {i : Fin maxSessions} (hused : (svc.slots i).used = true) :
    svc.slotOf (svc.slots i).sess.id = some i := by
  refine Table.find?_eq_of_unique (by simp [hused]) fun j hj => ?_
  have hj' : (svc.slots j).used = true ∧ (svc.slots j).sess.id = (svc.slots i).sess.id := by simpa using hj
  exact h.id_unique j i hj'.1 hused hj'.2

/-- Admission leaves a free slot. -/
theorem Inv.exists_free (h : svc.Inv) (hactive : svc.adm.active < svc.adm.maxSessions) :
    ∃ i, Table.find? svc.slots (fun s => !s.used) = some i := by
  rw [h.active, h.capacity] at hactive
  obtain ⟨i, hi⟩ := Table.exists_not_of_sum_lt svc.slots (fun s => s.used) hactive
  exact Table.find?_isSome (i := i) (by simp [hi])

/-- The slots change, but none is taken or given up. -/
theorem Inv.slots (h : svc.Inv) (slots : Fin maxSessions → SessionSlot)
    (hused : ∀ i, (slots i).used = (svc.slots i).used) (hid : ∀ i, (slots i).sess.id = (svc.slots i).sess.id)
    (hcoherent : ∀ i, (svc.slots i).used = true → (slots i).Coherent)
    (hfiles : ∀ i, (svc.slots i).used = true → (slots i).FilesOk) : Inv { svc with slots } where
  coherent i hi := hcoherent i ((hused i).symm.trans hi)
  filesOk i hi := hfiles i ((hused i).symm.trans hi)
  active := by
    refine h.active.trans (sum_congr rfl fun i _ => ?_)
    simp only [hused i]
  capacity := h.capacity
  next_pos := h.next_pos
  id_pos i hi := by
    show 0 < (slots i).sess.id
    rw [hid i]
    exact h.id_pos i ((hused i).symm.trans hi)
  id_lt i hi := by
    show (slots i).sess.id < svc.nextSessionId
    rw [hid i]
    exact h.id_lt i ((hused i).symm.trans hi)
  id_unique i j hi hj heq := by
    change (slots i).sess.id = (slots j).sess.id at heq
    rw [hid i, hid j] at heq
    exact h.id_unique i j ((hused i).symm.trans hi) ((hused j).symm.trans hj) heq
  tombstone_lt := h.tombstone_lt
  tombstone_gone t i hi := by
    show (slots i).sess.id ≠ (svc.destroyed t).id
    rw [hid i]
    exact h.tombstone_gone t i ((hused i).symm.trans hi)

theorem freshSlot_filesOk (id : Nat) (owner : Bytes) {limits : Limits} (hvalid : limits.Valid) (nowMs : Nat) :
    (freshSlot id owner limits nowMs).FilesOk := by
  have hcap : limits.workspaceMib <<< 20 < u64Bound := by
    have := hvalid.workspaceMib.2
    rw [Nat.shiftLeft_eq, u64Bound]
    omega
  constructor
  · intro j k hj
    cases hj
  · show 0 = SessionSlot.fileBytes _
    simp [SessionSlot.fileBytes, freshSlot]
  · exact Nat.zero_le _
  · exact hcap
  · intro k
    exact Nat.pos_of_ne_zero (by decide)

theorem Inv.created (h : svc.Inv) {i : Fin maxSessions} (hfree : (svc.slots i).used = false) (owner : Bytes)
    {limits : Limits} (hvalid : limits.Valid) (nowMs : Nat) : (svc.created i owner limits nowMs).Inv := by
  set fresh := freshSlot svc.nextSessionId owner limits nowMs with hfresh
  have hother : ∀ j, j ≠ i → Function.update svc.slots i fresh j = svc.slots j := fun j hj =>
    Function.update_of_ne hj _ _
  -- a used slot is the new one or was used before
  have hcases : ∀ j, (Function.update svc.slots i fresh j).used = true →
      (j = i ∧ Function.update svc.slots i fresh j = fresh) ∨
        (j ≠ i ∧ Function.update svc.slots i fresh j = svc.slots j ∧ (svc.slots j).used = true) := by
    intro j hj
    by_cases hji : j = i
    · subst hji
      exact Or.inl ⟨rfl, Function.update_self _ _ _⟩
    · rw [hother j hji] at hj
      exact Or.inr ⟨hji, hother j hji, hj⟩
  constructor
  · intro j hj
    show (Function.update svc.slots i fresh j).Coherent
    rcases hcases j hj with ⟨-, heq⟩ | ⟨-, heq, hj⟩
    · rw [heq]
      exact SessionSlot.coherent_fresh svc.nextSessionId nowMs hvalid rfl rfl rfl
    · rw [heq]
      exact h.coherent j hj
  · intro j hj
    show (Function.update svc.slots i fresh j).FilesOk
    rcases hcases j hj with ⟨-, heq⟩ | ⟨-, heq, hj⟩
    · rw [heq]
      exact freshSlot_filesOk _ owner hvalid nowMs
    · rw [heq]
      exact h.filesOk j hj
  · have hsum := Table.sum_update svc.slots (fun s => if s.used then 1 else 0) i fresh
    rw [hfree, ← h.active] at hsum
    exact hsum.symm
  · exact h.capacity
  · exact Nat.succ_pos _
  · intro j hj
    show 0 < (Function.update svc.slots i fresh j).sess.id
    rcases hcases j hj with ⟨-, heq⟩ | ⟨-, heq, hj⟩
    · rw [heq]
      exact h.next_pos
    · rw [heq]
      exact h.id_pos j hj
  · intro j hj
    show (Function.update svc.slots i fresh j).sess.id < svc.nextSessionId + 1
    rcases hcases j hj with ⟨-, heq⟩ | ⟨-, heq, hj⟩
    · rw [heq]
      exact Nat.lt_succ_self _
    · rw [heq]
      exact (h.id_lt j hj).trans (Nat.lt_succ_self _)
  · intro j k hj hk heq
    change (Function.update svc.slots i fresh j).sess.id = (Function.update svc.slots i fresh k).sess.id at heq
    rcases hcases j hj with ⟨hji, hjeq⟩ | ⟨-, hjeq, hj⟩ <;> rcases hcases k hk with ⟨hki, hkeq⟩ | ⟨-, hkeq, hk⟩
    · rw [hji, hki]
    · rw [hjeq, hkeq] at heq
      exact absurd heq.symm (h.id_lt k hk).ne
    · rw [hjeq, hkeq] at heq
      exact absurd heq (h.id_lt j hj).ne
    · rw [hjeq, hkeq] at heq
      exact h.id_unique j k hj hk heq
  · exact fun t => (h.tombstone_lt t).trans (Nat.lt_succ_self _)
  · intro t j hj
    show (Function.update svc.slots i fresh j).sess.id ≠ (svc.destroyed t).id
    rcases hcases j hj with ⟨-, heq⟩ | ⟨-, heq, hj⟩
    · rw [heq]
      exact (h.tombstone_lt t).ne'
    · rw [heq]
      exact h.tombstone_gone t j hj

theorem Inv.removed (h : svc.Inv) {i : Fin maxSessions} (hused : (svc.slots i).used = true) :
    (svc.removed i).Inv ∧
      ∀ j, ((svc.removed i).slots j).used = true → ((svc.removed i).slots j).sess.id ≠ (svc.slots i).sess.id := by
  set gone : SessionSlot :=
    { svc.slots i with sess := { (svc.slots i).sess with state := .destroyed }, used := false } with hgone
  -- what is still used was not touched
  have hcases : ∀ j, (Function.update svc.slots i gone j).used = true →
      j ≠ i ∧ Function.update svc.slots i gone j = svc.slots j ∧ (svc.slots j).used = true := by
    intro j hj
    by_cases hji : j = i
    · subst hji
      rw [Function.update_self] at hj
      cases hj
    · rw [Function.update_of_ne hji] at hj
      exact ⟨hji, Function.update_of_ne hji _ _, hj⟩
  refine ⟨?_, ?_⟩
  · constructor
    · intro j hj
      obtain ⟨-, heq, hj⟩ := hcases j hj
      show (Function.update svc.slots i gone j).Coherent
      rw [heq]
      exact h.coherent j hj
    · intro j hj
      obtain ⟨-, heq, hj⟩ := hcases j hj
      show (Function.update svc.slots i gone j).FilesOk
      rw [heq]
      exact h.filesOk j hj
    · have hsum := Table.sum_update svc.slots (fun s => if s.used then 1 else 0) i gone
      rw [if_pos hused, ← h.active] at hsum
      show (svc.adm.release (svc.slots i).sess.limits).active = ∑ j, _
      rw [Admission.release_eq]
      exact Nat.sub_eq_of_eq_add hsum.symm
    · show (svc.adm.release (svc.slots i).sess.limits).maxSessions = _
      rw [Admission.release_eq]
      exact h.capacity
    · exact h.next_pos
    · intro j hj
      obtain ⟨-, heq, hj⟩ := hcases j hj
      show 0 < (Function.update svc.slots i gone j).sess.id
      rw [heq]
      exact h.id_pos j hj
    · intro j hj
      obtain ⟨-, heq, hj⟩ := hcases j hj
      show (Function.update svc.slots i gone j).sess.id < _
      rw [heq]
      exact h.id_lt j hj
    · intro j k hj hk heq
      obtain ⟨-, hjeq, hj⟩ := hcases j hj
      obtain ⟨-, hkeq, hk⟩ := hcases k hk
      change (Function.update svc.slots i gone j).sess.id = (Function.update svc.slots i gone k).sess.id at heq
      rw [hjeq, hkeq] at heq
      exact h.id_unique j k hj hk heq
    · exact h.tombstone_lt
    · intro t j hj
      obtain ⟨-, heq, hj⟩ := hcases j hj
      show (Function.update svc.slots i gone j).sess.id ≠ _
      rw [heq]
      exact h.tombstone_gone t j hj
  · intro j hj
    obtain ⟨hji, heq, hj⟩ := hcases j hj
    show (Function.update svc.slots i gone j).sess.id ≠ _
    rw [heq]
    exact fun hid => hji (h.id_unique j i hj hused hid)

/-- A session that is gone can be buried. -/
theorem Inv.buried (h : svc.Inv) {id : Nat} (hlt : id < svc.nextSessionId)
    (hgone : ∀ j, (svc.slots j).used = true → (svc.slots j).sess.id ≠ id) (owner : Bytes) :
    (svc.buried id owner).Inv := by
  constructor <;> simp only [buried_slots, buried_adm, buried_nextSessionId]
  · exact h.coherent
  · exact h.filesOk
  · exact h.active
  · exact h.capacity
  · exact h.next_pos
  · exact h.id_pos
  · exact h.id_lt
  · exact h.id_unique
  · intro t
    rcases svc.buried_destroyed id owner t with heq | ⟨-, heq⟩ <;> rw [heq]
    · exact h.tombstone_lt t
    · exact hlt
  · intro t j hj
    rcases svc.buried_destroyed id owner t with heq | ⟨-, heq⟩ <;> rw [heq]
    · exact h.tombstone_gone t j hj
    · exact hgone j hj

/-! ### Changes -/

/-- What a call can do to the service. -/
inductive Change (svc : Service) : Call → Service → Prop where
  | failed (op : Op) (e : Error) : Change svc ⟨op, .error e⟩ svc
  | quiet (op : Op) (r : Reply) (hquiet : op.Quiet) : Change svc ⟨op, .ok r⟩ svc
  | keyed (key body : Nat) (i : Fin maxIdemKeys) (hkey : key ≠ 0) (hfree : svc.idemUsed i = false)
      (hnew : ∀ j, svc.idemUsed j = true → svc.idemKeys j ≠ key) :
      Change svc ⟨.idemBegin key body, .ok (.flag true)⟩ (svc.keyed i key body)
  | created (owner : Bytes) (limits : Limits) (nowMs : Nat) (i : Fin maxSessions) (hvalid : limits.Valid)
      (hfree : (svc.slots i).used = false) :
      Change svc ⟨.create owner limits nowMs, .ok (.number svc.nextSessionId)⟩ (svc.created i owner limits nowMs)
  | effect (owner : Bytes) (id : Nat) (op : Op) (r : Reply) (i : Fin maxSessions) (s : SessionSlot)
      (htarget : op.target = some (owner, id)) (hslot : svc.slotOf id = some i)
      (howner : (svc.slots i).owner = owner) (heffect : SessionSlot.Effect (svc.slots i) op r s) :
      Change svc ⟨op, .ok r⟩ (setSlot i s svc)
  | ticked (nowMs n : Nat) (slots : Fin maxSessions → SessionSlot)
      (hticked : ∀ i, SessionSlot.Ticked nowMs (svc.slots i) (slots i)) :
      Change svc ⟨.tick nowMs, .ok (.number n)⟩ { svc with slots }
  | destroyed (owner : Bytes) (id : Nat) (i : Fin maxSessions) (hslot : svc.slotOf id = some i)
      (howner : (svc.slots i).owner = owner) (hnew : ∀ t, svc.destroyed t ≠ { id, owner }) :
      Change svc ⟨.destroy owner id, .ok .unit⟩ ((svc.removed i).buried id owner)

end Service

/-- An effect stays within its slot's session. -/
theorem SessionSlot.Effect.frame {s s' : SessionSlot} {op : Service.Op} {r : Service.Reply} (h : Effect s op r s') :
    s'.used = s.used ∧ s'.owner = s.owner ∧ s'.sess.id = s.sess.id := by
  cases h <;>
    simp [readied, setState, started, begun, placed, cancelled, finished, stored, wiped, setExec, setFile]

theorem SessionSlot.Ticked.frame {s s' : SessionSlot} {nowMs : Nat} (h : Ticked nowMs s s') :
    s'.used = s.used ∧ s'.owner = s.owner ∧ s'.sess.id = s.sess.id := by
  cases h with
  | idle _ => exact ⟨rfl, rfl, rfl⟩
  | kill k _ _ => simp [killed, setExec]

namespace Service

variable {svc svc' : Service} {c : Call}

theorem Inv.change (h : svc.Inv) (hchange : Change svc c svc') : svc'.Inv := by
  cases hchange with
  | failed op e => exact h
  | quiet op r hquiet => exact h
  | keyed key body i hkey hfree hnew => exact { h with }
  | created owner limits nowMs i hvalid hfree => exact h.created hfree owner hvalid nowMs
  | effect owner id op r i s htarget hslot howner heffect =>
      have hused := (slotOf_some hslot).1
      obtain ⟨hsused, -, hsid⟩ := heffect.frame
      refine h.slots _ (fun j => ?_) (fun j => ?_) (fun j hj => ?_) (fun j hj => ?_) <;>
        by_cases hji : j = i
      · subst hji; rw [Function.update_self, hsused]
      · rw [Function.update_of_ne hji]
      · subst hji; rw [Function.update_self, hsid]
      · rw [Function.update_of_ne hji]
      · subst hji; rw [Function.update_self]; exact (h.coherent j hj).effect heffect
      · rw [Function.update_of_ne hji]; exact h.coherent j hj
      · subst hji; rw [Function.update_self]; exact (h.filesOk j hj).effect heffect
      · rw [Function.update_of_ne hji]; exact h.filesOk j hj
  | ticked nowMs n slots hticked =>
      exact h.slots slots (fun i => (hticked i).frame.1) (fun i => (hticked i).frame.2.2)
        (fun i hi => (h.coherent i hi).ticked (hticked i)) (fun i hi => (h.filesOk i hi).ticked (hticked i))
  | destroyed owner id i hslot howner hnew =>
      obtain ⟨hused, hid⟩ := slotOf_some hslot
      obtain ⟨hinv, hgone⟩ := h.removed hused
      rw [hid] at hgone
      exact hinv.buried (hid ▸ h.id_lt i hused) hgone owner

end Service

end Supervisor
