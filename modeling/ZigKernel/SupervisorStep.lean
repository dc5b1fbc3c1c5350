import ZigKernel.SupervisorService

/-! Every call of the translated service is one of the changes: the slot's own inversion theorems are
lifted through `slotOf` and `checkOwner`, and `create`, `tick` and `destroy` are inverted here. -/

namespace Supervisor

open Zig

namespace Service

variable {svc svc' : Service}

/-! ### The owner check -/

/-- The session is live in slot `i` and the caller's owner string is the recorded one. -/
def Holds (svc : Service) (owner : Bytes) (id : Nat) (i : Fin maxSessions) : Prop :=
  svc.slotOf id = some i ∧ (svc.slots i).owner = owner

theorem checkOwner_ok {s : SessionSlot} {owner : Bytes} (h : s.owner = owner) :
    SessionSlot.checkOwner owner s = (.ok (), s) := by
  simp [SessionSlot.checkOwner, h]

theorem checkOwner_error {s : SessionSlot} {owner : Bytes} (h : s.owner ≠ owner) :
    SessionSlot.checkOwner owner s = (.error .notFound, s) := by
  by_cases hlength : s.owner.length = owner.length <;> simp [SessionSlot.checkOwner, h, hlength]

theorem onSlot_run {α : Type} (i : Fin maxSessions) (m : Act SessionSlot Error α) (svc : Service) :
    onSlot i m svc = ((m (svc.slots i)).1, setSlot i (m (svc.slots i)).2 svc) := rfl

@[simp] theorem onSlot_modify_bind_run {α : Type} (i : Fin maxSessions) (f : SessionSlot → SessionSlot)
    (g : Unit → Act Service Error α) (svc : Service) :
    ((onSlot i (Act.modify f) : Act Service Error Unit) >>= g) svc = g () (setSlot i (f (svc.slots i)) svc) := rfl

@[simp] theorem setSlot_slots_self (i : Fin maxSessions) (s : SessionSlot) (svc : Service) :
    (setSlot i s svc).slots i = s := Function.update_self _ _ _

@[simp] theorem setSlot_setSlot (i : Fin maxSessions) (s s' : SessionSlot) (svc : Service) :
    setSlot i s (setSlot i s' svc) = setSlot i s svc := by
  simp only [setSlot, Function.update_idem]

/-- The caller gets through to its slot. -/
theorem owned_run {α : Type} {owner : Bytes} {id : Nat} {i : Fin maxSessions} (h : svc.Holds owner id i)
    (m : Act SessionSlot Error α) :
    owned owner id m svc = ((m (svc.slots i)).1, setSlot i (m (svc.slots i)).2 svc) := by
  obtain ⟨hslot, howner⟩ := h
  rw [owned, Act.get_bind_run, hslot]
  show onSlot i _ svc = _
  rw [onSlot_run, Act.bind_ok_run (checkOwner_ok howner)]

theorem owned_refused {α : Type} {owner : Bytes} {id : Nat} (h : ∀ i, ¬svc.Holds owner id i)
    (m : Act SessionSlot Error α) : owned owner id m svc = (.error .notFound, svc) := by
  rw [owned, Act.get_bind_run]
  cases hslot : svc.slotOf id with
  | none => rfl
  | some i =>
      have howner : (svc.slots i).owner ≠ owner := fun howner => h i ⟨hslot, howner⟩
      show onSlot i _ svc = _
      rw [onSlot_run, Act.bind_error_run (checkOwner_error howner)]
      exact congrArg (Prod.mk _) (setSlot_self svc i)

theorem events_run {owner : Bytes} {id : Nat} {i : Fin maxSessions} (h : svc.Holds owner id i) (after outLen : Nat) :
    exec (.events owner id after outLen) svc =
      (.ok (.events ((svc.slots i).copyEvents after outLen (List.range (svc.slots i).eventCount) [])), svc) := by
  have hrun := owned_run h (SessionSlot.eventsAfter after outLen)
  rw [show (SessionSlot.eventsAfter after outLen (svc.slots i)).2 = svc.slots i from rfl, setSlot_self] at hrun
  rw [exec, Act.bind_ok_run hrun]
  rfl

/-! ### Changes of the owner-taking operations -/

/-- The call traps, or its outcome is one of the changes. -/
def Changes (svc : Service) (op : Op) : Prop :=
  (exec op svc).1 = .trap ∨ Change svc ⟨op, (exec op svc).1⟩ (exec op svc).2

/-- An operation that addresses a slot inherits the endings of its slot part. -/
theorem owned_changes {α : Type} {op : Op} {owner : Bytes} {id : Nat} (htarget : op.target = some (owner, id))
    (m : Act SessionSlot Error α) (reply : α → Reply)
    (hexec : exec op = do return reply (← owned owner id m))
    (hends : ∀ i, svc.Holds owner id i → SessionSlot.Ends m (svc.slots i) fun a s' =>
      (s' = svc.slots i ∧ op.Quiet) ∨ SessionSlot.Effect (svc.slots i) op (reply a) s') :
    svc.Changes op := by
  rw [Changes, hexec]
  by_cases hholds : ∃ i, svc.Holds owner id i
  · obtain ⟨i, hi⟩ := hholds
    have hrun := owned_run hi m
    rcases hends i hi with ⟨e, herror⟩ | ⟨a, s', hok, hs'⟩ | htrap
    · right
      rw [herror, setSlot_self] at hrun
      rw [Act.bind_error_run hrun]
      exact .failed op e
    · right
      rw [hok] at hrun
      rw [Act.bind_ok_run hrun, Act.pure_run]
      rcases hs' with ⟨rfl, hquiet⟩ | heffect
      · rw [setSlot_self]
        exact .quiet op _ hquiet
      · exact .effect owner id op _ i s' htarget hi.1 hi.2 heffect
    · left
      rw [Act.bind_traps]
      rw [hrun]
      exact htrap
  · right
    have hrun := owned_refused (fun i hi => hholds ⟨i, hi⟩) m
    rw [Act.bind_error_run hrun]
    exact .failed op .notFound

end Service

namespace SessionSlot

theorem Ends.mono {α : Type} {m : Act SessionSlot Error α} {s : SessionSlot} {P Q : α → SessionSlot → Prop}
    (h : Ends m s P) (hPQ : ∀ a s', P a s' → Q a s') : Ends m s Q := by
  rcases h with herror | ⟨a, s', hok, hP⟩ | htrap
  · exact Or.inl herror
  · exact Or.inr (Or.inl ⟨a, s', hok, hPQ a s' hP⟩)
  · exact Or.inr (Or.inr htrap)

theorem getFile_run {s : SessionSlot} {generation : Nat} {path r : Bytes} (hgen : generation = s.sess.generation)
    (hpath : Workspace.resolve path Workspace.maxPath = .ok r) :
    getFile generation path s =
      match s.findFile r with
      | some k => (.ok (s.files k), s)
      | none => (.error .notFound, s) := by
  rw [getFile, Act.get_bind_run, if_neg (not_not.mpr hgen), hpath]
  show (match s.findFile r with
    | some k => pure (s.files k)
    | none => Act.fail Error.notFound) s = _
  cases s.findFile r <;> rfl

/-- A lookup ends where it started. -/
theorem getFile_ends (s : SessionSlot) (generation : Nat) (path : Bytes) :
    Ends (getFile generation path) s fun _ s' => s' = s := by
  by_cases hgen : generation = s.sess.generation
  swap
  · exact Or.inl ⟨.gone, by rw [getFile, Act.get_bind_run, if_pos hgen, Act.fail_run]⟩
  cases hpath : Workspace.resolve path Workspace.maxPath with
  | error e =>
      refine Or.inl ⟨.badRequest, ?_⟩
      rw [getFile, Act.get_bind_run, if_neg (not_not.mpr hgen), hpath]
      rfl
  | trap =>
      refine Or.inr (Or.inr ?_)
      rw [getFile, Act.get_bind_run, if_neg (not_not.mpr hgen), hpath]
      rfl
  | ok r =>
      rw [Ends, getFile_run hgen hpath]
      cases s.findFile r with
      | some k => exact Or.inr (Or.inl ⟨s.files k, s, rfl, rfl⟩)
      | none => exact Or.inl ⟨.notFound, rfl⟩

end SessionSlot

namespace Service

variable {svc svc' : Service}

/-! ### `idemBegin` -/

/-- A nonzero key is replayed, recorded, or refused by a full table. -/
theorem idemBegin_cases (svc : Service) {key : Nat} (body : Nat) (hkey : key ≠ 0) :
    (∃ i, svc.idemUsed i = true ∧ svc.idemKeys i = key ∧
        idemBegin key body svc = (if svc.idemBody i ≠ body then .error .conflict else .ok false, svc)) ∨
      ((∀ i, svc.idemUsed i = true → svc.idemKeys i ≠ key) ∧
        ((∃ i, svc.idemUsed i = false ∧ idemBegin key body svc = (.ok true, svc.keyed i key body)) ∨
          (∀ i, svc.idemUsed i = true) ∧ idemBegin key body svc = (.error .limit, svc))) := by
  rw [idemBegin, Act.get_bind_run, if_neg hkey]
  cases hfind : (List.finRange maxIdemKeys).find? fun i => svc.idemUsed i && svc.idemKeys i == key with
  | some i =>
      have hi : svc.idemUsed i = true ∧ svc.idemKeys i = key := by simpa using List.find?_some hfind
      refine Or.inl ⟨i, hi.1, hi.2, ?_⟩
      by_cases hbody : svc.idemBody i ≠ body
      · simp only [if_pos hbody, Act.fail_run]
      · simp only [if_neg hbody, Act.pure_run]
  | none =>
      have hnew : ∀ i, svc.idemUsed i = true → svc.idemKeys i ≠ key := by
        intro i hused hkeys
        have := List.find?_eq_none.mp hfind i (List.mem_finRange i)
        simp [hused, hkeys] at this
      refine Or.inr ⟨hnew, ?_⟩
      cases hfree : Table.find? svc.idemUsed (!·) with
      | some i =>
          have hi : svc.idemUsed i = false := by simpa using Table.find?_some hfree
          exact Or.inl ⟨i, hi, rfl⟩
      | none => exact Or.inr ⟨fun i => by simpa using Table.find?_none.mp hfree i, rfl⟩

theorem idemBegin_changes (svc : Service) (key body : Nat) : svc.Changes (.idemBegin key body) := by
  right
  rw [exec]
  by_cases hkey : key = 0
  · have hrun : idemBegin key body svc = (.ok true, svc) := by
      rw [idemBegin, Act.get_bind_run, if_pos hkey, Act.pure_run]
    rw [Act.bind_ok_run hrun]
    exact .quiet _ _ trivial
  rcases idemBegin_cases svc body hkey with ⟨i, -, -, hrun⟩ | ⟨hnew, ⟨i, hfree, hrun⟩ | ⟨-, hrun⟩⟩
  · by_cases hbody : svc.idemBody i ≠ body
    · rw [if_pos hbody] at hrun
      rw [Act.bind_error_run hrun]
      exact .failed _ _
    · rw [if_neg hbody] at hrun
      rw [Act.bind_ok_run hrun]
      exact .quiet _ _ trivial
  · rw [Act.bind_ok_run hrun]
    exact .keyed key body i hkey hfree hnew
  · rw [Act.bind_error_run hrun]
    exact .failed _ _

/-! ### `create` -/

/-- `create` on any service. Where admission lets the session in and no slot is free, the admission is
given back twice: once in front of the last `return`, once by the `errdefer`. -/
theorem create_run (svc : Service) (owner : Bytes) (limits : Limits) (nowMs : Nat) :
    (∃ e, ¬svc.adm.Grants limits ∧ create owner limits nowMs svc = (.error e, svc)) ∨
      (∃ i, svc.adm.Grants limits ∧ (svc.slots i).used = false ∧
        create owner limits nowMs svc = (.ok svc.nextSessionId, svc.created i owner limits nowMs)) ∨
      (svc.adm.Grants limits ∧ (∀ i, (svc.slots i).used = true) ∧
        create owner limits nowMs svc = (.error .noCapacity, { svc with adm := svc.adm.release limits })) ∨
      (create owner limits nowMs svc).1 = .trap := by
  rcases limits.validate_cases with hvalidate | hvalidate
  swap
  · refine Or.inl ⟨.badLimits, fun h => ?_, by rw [create, hvalidate, Act.lift_error_bind_run]⟩
    rw [Limits.validate_of_valid h.1] at hvalidate
    cases hvalidate
  rw [create, hvalidate, Act.lift_ok_bind_run]
  rcases svc.adm.tryAdmit_run limits with ⟨hgrants, hadmit⟩ | ⟨e, hgrants, hadmit⟩ | hadmit
  · have hzoom : ((Act.zoom Service.adm (fun adm svc => { svc with adm }) (Admission.tryAdmit limits)).orFail
        Error.noCapacity) svc = (.ok (), { svc with adm := svc.adm.admitted limits }) := by
      rw [Act.orFail, Act.catchError, Act.zoom, hadmit]
    rw [Act.bind_ok_run hzoom]
    cases hfind : Table.find? svc.slots fun s => !s.used with
    | none =>
        have hfull : ∀ i, (svc.slots i).used = true := fun i => by simpa using Table.find?_none.mp hfind i
        refine Or.inr (Or.inr (Or.inl ⟨hgrants, hfull, ?_⟩))
        rw [Act.errdefer_error_run (e := Error.noCapacity) (t := svc)]
        rw [Act.get_bind_run]
        simp only [hfind, Act.modify_bind_run, Act.fail_run, Admission.release_admitted]
    | some i =>
        have hfree : (svc.slots i).used = false := by simpa using Table.find?_some hfind
        by_cases hnext : svc.nextSessionId + 1 < u64Bound
        · refine Or.inr (Or.inl ⟨i, hgrants, hfree, ?_⟩)
          apply Act.errdefer_ok_run
          rw [Act.get_bind_run]
          simp only [hfind, Act.modify_bind_run, Session.init_of_validate hvalidate, Act.lift_ok_bind_run,
            onSlot_modify_bind_run, addU64_of_lt hnext, setSlot_slots_self, setSlot_setSlot, Act.pure_run]
          simp only [setSlot, Function.update_idem, Service.created, freshSlot]
        · refine Or.inr (Or.inr (Or.inr (Act.errdefer_traps ?_)))
          rw [Act.get_bind_run]
          simp only [hfind, Act.modify_bind_run, Session.init_of_validate hvalidate, Act.lift_ok_bind_run,
            onSlot_modify_bind_run, addU64, if_neg hnext, Act.lift_trap_bind_run]
  · refine Or.inl ⟨.noCapacity, hgrants, Act.bind_error_run ?_⟩
    rw [Act.orFail, Act.catchError, Act.zoom, hadmit]
    rfl
  · refine Or.inr (Or.inr (Or.inr (Act.bind_traps ?_)))
    rw [Act.orFail, Act.catchError, Act.zoom, hadmit]

/-- Admission counts the used slots, so an admitted session finds a slot; the second release of
`create` is dead code. -/
theorem create_cases (h : svc.Inv) (owner : Bytes) (limits : Limits) (nowMs : Nat) :
    (∃ e, create owner limits nowMs svc = (.error e, svc)) ∨
      (∃ i, limits.Valid ∧ (svc.slots i).used = false ∧
        create owner limits nowMs svc = (.ok svc.nextSessionId, svc.created i owner limits nowMs)) ∨
      (create owner limits nowMs svc).1 = .trap := by
  rcases svc.create_run owner limits nowMs with ⟨e, -, hrun⟩ | ⟨i, hgrants, hfree, hrun⟩ |
    ⟨hgrants, hfull, -⟩ | htrap
  · exact Or.inl ⟨e, hrun⟩
  · exact Or.inr (Or.inl ⟨i, hgrants.1, hfree, hrun⟩)
  · obtain ⟨i, hfind⟩ := h.exists_free hgrants.2.1
    have hfree : (svc.slots i).used = false := by simpa using Table.find?_some hfind
    rw [hfull i] at hfree
    cases hfree
  · exact Or.inr (Or.inr htrap)

theorem create_changes (h : svc.Inv) (owner : Bytes) (limits : Limits) (nowMs : Nat) :
    svc.Changes (.create owner limits nowMs) := by
  rw [Changes, exec]
  rcases create_cases h owner limits nowMs with ⟨e, hrun⟩ | ⟨i, hvalid, hfree, hrun⟩ | htrap
  · right
    rw [Act.bind_error_run hrun]
    exact .failed _ e
  · right
    rw [Act.bind_ok_run hrun]
    exact .created owner limits nowMs i hvalid hfree
  · exact Or.inl (Act.bind_traps htrap)

/-! ### `tick` -/

/-- The slot loop reaches every slot of `is`, and no other. -/
theorem tickSlots_run (nowMs : Nat) (is : List (Fin maxSessions)) (hnodup : is.Nodup) (svc : Service)
    (hcoherent : ∀ i ∈ is, (svc.slots i).used = true → (svc.slots i).Coherent) :
    (∃ n slots, tickSlots nowMs is svc = (.ok n, { svc with slots }) ∧
        (∀ i ∈ is, SessionSlot.Ticked nowMs (svc.slots i) (slots i)) ∧
        ∀ i, i ∉ is → slots i = svc.slots i) ∨
      (tickSlots nowMs is svc).1 = .trap := by
  induction is generalizing svc with
  | nil =>
      refine Or.inl ⟨0, svc.slots, rfl, fun i hi => ?_, fun i _ => rfl⟩
      cases hi
  | cons i rest ih =>
      obtain ⟨hnotin, hnodup⟩ := List.nodup_cons.mp hnodup
      rcases SessionSlot.tick_run nowMs (hcoherent i List.mem_cons_self) with
        ⟨n, s', hrun, hticked⟩ | htrap
      swap
      · exact Or.inr (Act.bind_traps htrap)
      have hfirst : onSlot i (SessionSlot.tick nowMs) svc = (.ok n, setSlot i s' svc) := by
        rw [onSlot_run, hrun]
      have hother : ∀ j, j ≠ i → (setSlot i s' svc).slots j = svc.slots j := fun j hj =>
        Function.update_of_ne hj _ _
      have hrest : ∀ j ∈ rest, j ≠ i := fun j hj hji => hnotin (hji ▸ hj)
      rw [tickSlots, Act.bind_ok_run hfirst]
      rcases ih hnodup (setSlot i s' svc) fun j hj hused => by
          rw [hother j (hrest j hj)] at hused ⊢
          exact hcoherent j (List.mem_cons_of_mem _ hj) hused with
        ⟨more, slots, hmore, hall, houtside⟩ | htrap
      · refine Or.inl ⟨n + more, slots, ?_, fun j hj => ?_, fun j hj => ?_⟩
        · rw [Act.bind_ok_run hmore]
          rfl
        · rcases List.mem_cons.mp hj with rfl | hj
          · rw [houtside j hnotin, setSlot_slots_self]
            exact hticked
          · rw [← hother j (hrest j hj)]
            exact hall j hj
        · rw [List.mem_cons, not_or] at hj
          rw [houtside j hj.2, hother j hj.1]
      · exact Or.inr (Act.bind_traps htrap)

/-- A tick never fails. -/
theorem tick_cases (h : svc.Inv) (nowMs : Nat) :
    (∃ n slots, exec (.tick nowMs) svc = (.ok (.number n), { svc with slots }) ∧
        ∀ i, SessionSlot.Ticked nowMs (svc.slots i) (slots i)) ∨
      (exec (.tick nowMs) svc).1 = .trap := by
  rw [exec]
  rcases tickSlots_run nowMs (List.finRange maxSessions) (List.nodup_finRange _) svc fun i _ => h.coherent i with
    ⟨n, slots, hrun, hall, -⟩ | htrap
  · refine Or.inl ⟨n, slots, ?_, fun i => hall i (List.mem_finRange i)⟩
    rw [tick, Act.bind_ok_run hrun]
    rfl
  · exact Or.inr (Act.bind_traps htrap)

theorem tick_changes (h : svc.Inv) (nowMs : Nat) : svc.Changes (.tick nowMs) := by
  rcases tick_cases h nowMs with ⟨n, slots, hrun, hall⟩ | htrap
  · right
    rw [hrun]
    exact .ticked nowMs n slots hall
  · exact Or.inl htrap

theorem Inv.tick_step (h : svc.Inv) {nowMs : Nat} {reply : Outcome Error Reply}
    (hstep : Step svc ⟨.tick nowMs, reply⟩ svc') (i : Fin maxSessions) :
    SessionSlot.Ticked nowMs (svc.slots i) (svc'.slots i) := by
  obtain ⟨hrun, hreturns⟩ := hstep
  change exec (.tick nowMs) svc = (reply, svc') at hrun
  rcases tick_cases h nowMs with ⟨n, slots, hok, hall⟩ | htrap
  · rw [hrun] at hok
    rw [(Prod.mk.inj hok).2]
    exact hall i
  · rw [hrun] at htrap
    exact absurd htrap hreturns

/-! ### `destroy` -/

theorem session_beginDestroy_run {sess : Session} (h : ¬(sess.state = .destroyed ∨ sess.state = .destroying)) :
    Session.beginDestroy sess = (.ok (), { sess with state := .destroying }) := by
  rw [Session.beginDestroy, Act.get_bind_run, if_neg h, Act.modify_run]

theorem session_finishDestroy_run {sess : Session} (h : sess.state = .destroying) :
    Session.finishDestroy sess = (.ok (), { sess with state := .destroyed }) := by
  rw [Session.finishDestroy, Act.get_bind_run, if_neg (not_not.mpr h), Act.modify_run]

/-- The owner of a session that is not yet destroyed destroys it, in whatever state it is. -/
theorem destroy_found {owner : Bytes} {id : Nat} {i : Fin maxSessions}
    (hfind : Table.find? svc.destroyed (fun t => t.id == id && t.owner == owner) = none)
    (hi : svc.Holds owner id i) (halive : (svc.slots i).sess.state ≠ .destroyed) :
    destroy owner id svc = (.ok (), (svc.removed i).buried id owner) := by
  have hcheck : onSlot i (SessionSlot.checkOwner owner) svc = (.ok (), svc) := by
    rw [onSlot_run, checkOwner_ok hi.2]
    exact congrArg (Prod.mk _) (setSlot_self svc i)
  have hbegin : (svc.slots i).sess.state ≠ .destroying → onSlot i (SessionSlot.onSess Session.beginDestroy) svc =
      (.ok (), setSlot i ((svc.slots i).setState .destroying) svc) := by
    intro hstate
    rw [onSlot_run, SessionSlot.onSess_run, session_beginDestroy_run (not_or.mpr ⟨halive, hstate⟩)]
    rfl
  have hbegun : ¬(svc.slots i).sess.state ≠ .destroying → svc = setSlot i ((svc.slots i).setState .destroying) svc := by
    intro hstate
    rw [SessionSlot.setState, ← not_not.mp hstate]
    exact (setSlot_self svc i).symm
  have hfinish : onSlot i (SessionSlot.onSess Session.finishDestroy)
      (setSlot i ((svc.slots i).setState .destroying) svc) =
      (.ok (), setSlot i ((svc.slots i).setState .destroyed) svc) := by
    rw [onSlot_run, SessionSlot.onSess_run, setSlot_slots_self, session_finishDestroy_run rfl]
    exact congrArg (Prod.mk _) (setSlot_setSlot i _ _ svc)
  rw [destroy, Act.get_bind_run, hfind]
  simp only [hi.1]
  rw [Act.bind_ok_run hcheck, if_neg halive, Act.if_bind_run hbegin hbegun,
    Act.bind_ok_run hfinish, onSlot_modify_bind_run, Act.modify_bind_run, setSlot_setSlot, setSlot_slots_self, Service.buried]
  have hgraves : (svc.removed i).destroyed = svc.destroyed := rfl
  rw [hgraves]
  cases Table.find? svc.destroyed fun t => t.id == 0 <;> rfl

/-- A replay succeeds, a stranger is refused, and a live session is removed and buried. -/
theorem destroy_cases (h : svc.Inv) (owner : Bytes) (id : Nat) :
    ((∃ t, svc.destroyed t = { id, owner }) ∧ destroy owner id svc = (.ok (), svc)) ∨
      ((∀ t, svc.destroyed t ≠ { id, owner }) ∧
        ((∃ i, svc.Holds owner id i ∧ destroy owner id svc = (.ok (), (svc.removed i).buried id owner)) ∨
          (∀ i, ¬svc.Holds owner id i) ∧ destroy owner id svc = (.error .notFound, svc))) := by
  rw [destroy, Act.get_bind_run]
  cases hfind : Table.find? svc.destroyed fun t => t.id == id && t.owner == owner with
  | some t =>
      have ht : (svc.destroyed t).id = id ∧ (svc.destroyed t).owner = owner := by
        simpa using Table.find?_some hfind
      refine Or.inl ⟨⟨t, ?_⟩, rfl⟩
      cases hd : svc.destroyed t
      rw [hd] at ht
      rw [← ht.1, ← ht.2]
  | none =>
      have hnew : ∀ t, svc.destroyed t ≠ { id, owner } := by
        intro t ht
        have := Table.find?_none.mp hfind t
        rw [ht] at this
        simp at this
      refine Or.inr ⟨hnew, ?_⟩
      cases hslot : svc.slotOf id with
      | none =>
          refine Or.inr ⟨fun i hi => ?_, rfl⟩
          rw [hi.1] at hslot
          cases hslot
      | some i =>
          by_cases howner : (svc.slots i).owner = owner
          swap
          · refine Or.inr ⟨fun j hj => ?_, ?_⟩
            · obtain rfl : i = j := Option.some.inj (hslot.symm.trans hj.1)
              exact howner hj.2
            · apply Act.bind_error_run
              rw [onSlot_run, checkOwner_error howner]
              exact congrArg (Prod.mk _) (setSlot_self svc i)
          obtain ⟨hused, -⟩ := slotOf_some hslot
          have halive : (svc.slots i).sess.state ≠ .destroyed := by
            rcases (h.coherent i hused).state with hs | hs | hs <;> rw [hs] <;> exact State.noConfusion
          have hrun := destroy_found hfind ⟨hslot, howner⟩ halive
          rw [destroy, Act.get_bind_run, hfind] at hrun
          simp only [hslot] at hrun
          exact Or.inl ⟨i, ⟨hslot, howner⟩, hrun⟩

theorem destroy_changes (h : svc.Inv) (owner : Bytes) (id : Nat) : svc.Changes (.destroy owner id) := by
  rw [Changes, exec]
  right
  rcases destroy_cases h owner id with ⟨-, hrun⟩ | ⟨hnew, ⟨i, hi, hrun⟩ | ⟨-, hrun⟩⟩
  · rw [Act.bind_ok_run hrun]
    exact .quiet _ _ trivial
  · rw [Act.bind_ok_run hrun]
    exact .destroyed owner id i hi.1 hi.2 hnew
  · rw [Act.bind_error_run hrun]
    exact .failed _ _

/-! ### Every call -/

theorem Inv.changes (h : svc.Inv) (op : Op) : svc.Changes op := by
  cases op with
  | idemBegin key body => exact idemBegin_changes svc key body
  | create owner limits nowMs => exact create_changes h owner limits nowMs
  | guestReady owner id =>
      refine owned_changes rfl SessionSlot.guestReady (fun _ => .unit) rfl fun i _ => ?_
      exact ((svc.slots i).guestReady_ends owner id).mono fun _ _ h => Or.inr h
  | startExec owner id generation argv0 nowMs =>
      refine owned_changes rfl (SessionSlot.startExec id generation argv0 nowMs) .number rfl fun i hi => ?_
      have hcoherent := h.coherent i (slotOf_some hi.1).1
      exact ((svc.slots i).startExec_ends hcoherent owner id generation argv0 nowMs).mono fun _ _ h => Or.inr h
  | cancelExec owner id execId =>
      refine owned_changes rfl (SessionSlot.cancelExec execId) (fun _ => .unit) rfl fun i _ => ?_
      exact ((svc.slots i).cancelExec_ends owner id execId).mono fun _ _ h => h.imp_left fun h => ⟨h, trivial⟩
  | tick nowMs => exact tick_changes h nowMs
  | finishExec owner id execId term code =>
      refine owned_changes rfl (SessionSlot.finishExec execId term code) (fun _ => .unit) rfl fun i hi => ?_
      have hcoherent := h.coherent i (slotOf_some hi.1).1
      exact ((svc.slots i).finishExec_ends hcoherent owner id execId term code).mono fun _ _ h => Or.inr h
  | putFile owner id generation path size sha =>
      refine owned_changes rfl (SessionSlot.putFile generation path size sha) (fun _ => .unit) rfl fun i hi => ?_
      have hfiles := h.filesOk i (slotOf_some hi.1).1
      exact ((svc.slots i).putFile_ends hfiles owner id generation path size sha).mono fun _ _ h => Or.inr h
  | getFile owner id generation path =>
      refine owned_changes rfl (SessionSlot.getFile generation path) .file rfl fun i _ => ?_
      exact ((svc.slots i).getFile_ends generation path).mono fun _ _ h => Or.inl ⟨h, trivial⟩
  | events owner id after outLen =>
      refine owned_changes rfl (SessionSlot.eventsAfter after outLen) .events rfl fun i _ => ?_
      exact Or.inr (Or.inl ⟨_, _, rfl, Or.inl ⟨rfl, trivial⟩⟩)
  | reset owner id =>
      refine owned_changes rfl SessionSlot.reset .number rfl fun i hi => ?_
      have hcoherent := h.coherent i (slotOf_some hi.1).1
      exact ((svc.slots i).reset_ends hcoherent owner id).mono fun _ _ h => Or.inr h
  | destroy owner id => exact destroy_changes h owner id

/-- A step of the service is a change. -/
theorem Inv.step (h : svc.Inv) {c : Call} (hstep : Step svc c svc') : Change svc c svc' := by
  obtain ⟨hrun, hreturns⟩ := hstep
  have hchanges := h.changes c.op
  rw [Changes, hrun] at hchanges
  exact hchanges.resolve_left hreturns

theorem inv_of_run {trace : List Call} (hrun : Run initial trace svc) : svc.Inv :=
  hrun.invariant inv_initial fun _ _ _ h hstep => h.change (h.step hstep)

end Service

end Supervisor
