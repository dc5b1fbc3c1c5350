import ZigKernel.SupervisorStep

/-! Admission accounting, for any session count and any memory budget. The books are the admission record
and the seats, that is, which slots are taken and under which limits; only `create` and `destroy` write
to them. -/

open Finset

namespace Supervisor

open Zig

namespace SessionSlot

/-- What a slot is charged for. -/
def seat (s : SessionSlot) : Bool × Limits := (s.used, s.sess.limits)

/-- A call on the session of the slot that keeps its limits. -/
theorem fixes_onSess {α : Type} {m : Act Session Error α} (h : Act.Fixes Session.limits m) :
    Act.Fixes seat (onSess m) :=
  Act.Fixes.zoom fun s => Prod.ext rfl (h s.sess)

theorem fixes_onWs {α : Type} (m : Act Workspace Error α) : Act.Fixes seat (onWs m) := Act.Fixes.zoom fun _ => rfl

theorem fixes_checkOwner (owner : Bytes) : Act.Fixes seat (checkOwner owner) :=
  Act.Fixes.get.bind fun _ => Act.Fixes.guard (Act.Fixes.guard (Act.Fixes.pure ()))

theorem fixes_pushEvent (execId : Nat) (ty : EventType) (dataLen : Nat) :
    Act.Fixes seat (pushEvent execId ty dataLen) := by
  refine Act.Fixes.get.bind fun _ => (Act.Fixes.lift _).bind fun _ => ?_
  refine Act.Fixes.modify_bind (fun _ => rfl) fun _ => ?_
  exact Act.Fixes.ite (Act.Fixes.modify fun _ => rfl) (Act.Fixes.modify fun _ => rfl)

theorem fixes_guestReady : Act.Fixes seat guestReady := by
  refine (fixes_onSess ?_).bind fun _ => fixes_pushEvent _ _ _
  exact Act.Fixes.get.bind fun _ => Act.Fixes.guard (Act.Fixes.modify fun _ => rfl)

theorem fixes_startExec (id generation : Nat) (argv0 : Bytes) (nowMs : Nat) :
    Act.Fixes seat (startExec id generation argv0 nowMs) := by
  refine (fixes_onSess ?_).bind fun _ => Act.Fixes.errdefer (fun _ => rfl) (Act.Fixes.get.bind fun s => ?_)
  · exact Act.Fixes.get.bind fun _ => Act.Fixes.guard (Act.Fixes.guard (Act.Fixes.modify fun _ => rfl))
  · cases Table.find? s.execs fun e => e.id == 0 with
    | some k =>
        refine Act.Fixes.modify_bind (fun _ => rfl) fun _ => (Act.Fixes.lift _).bind fun _ => ?_
        exact Act.Fixes.modify_bind (fun _ => rfl) fun _ => (fixes_pushEvent _ _ _).bind fun _ => Act.Fixes.pure _
    | none =>
        exact Act.Fixes.modify_bind (fun _ => rfl) fun _ => Act.Fixes.modify_bind (fun _ => rfl) fun _ => Act.Fixes.fail _

theorem fixes_cancelExec (execId : Nat) : Act.Fixes seat (cancelExec execId) := by
  refine Act.Fixes.get.bind fun s => ?_
  cases s.findExec execId with
  | none => exact Act.Fixes.fail _
  | some k => exact Act.Fixes.guard (Act.Fixes.ite (Act.Fixes.pure ()) (Act.Fixes.modify fun _ => rfl))

theorem fixes_finishExec (execId : Nat) (term : Term) (code : Option Int) :
    Act.Fixes seat (finishExec execId term code) := by
  refine Act.Fixes.get.bind fun s => ?_
  cases s.findExec execId with
  | none => exact Act.Fixes.fail _
  | some k =>
      refine Act.Fixes.guard (Act.Fixes.guard (Act.Fixes.modify_bind (fun _ => rfl) fun _ => ?_))
      refine (fixes_onSess ?_).bind fun _ => fixes_pushEvent _ _ _
      exact Act.Fixes.get.bind fun _ => Act.Fixes.guard (Act.Fixes.guard (Act.Fixes.modify fun _ => rfl))

theorem fixes_putFile (generation : Nat) (path : Bytes) (size : U64) (sha : Bytes) :
    Act.Fixes seat (putFile generation path size sha) := by
  refine Act.Fixes.get.bind fun s => Act.Fixes.guard (Act.Fixes.guard ((Act.Fixes.lift _).orFail.bind fun r => ?_))
  cases s.findFile r with
  | some k =>
      refine Act.Fixes.modify_bind (fun _ => rfl) fun _ => ((fixes_onWs _).catchError fun _ => ?_).bind fun _ => ?_
      · exact Act.Fixes.get.bind fun _ =>
          ((fixes_onWs _).catchError fun _ => Act.Fixes.pure ()).bind fun _ => Act.Fixes.fail _
      · exact Act.Fixes.modify_bind (fun _ => rfl) fun _ =>
          Act.Fixes.modify_bind (fun _ => rfl) fun _ => fixes_pushEvent _ _ _
  | none =>
      refine (fixes_onWs _).orFail.bind fun _ => Act.Fixes.errdefer (fun _ => rfl) (Act.Fixes.get.bind fun s => ?_)
      cases Table.find? s.files fun f => !f.used with
      | some k => exact Act.Fixes.guard (Act.Fixes.modify_bind (fun _ => rfl) fun _ => fixes_pushEvent _ _ _)
      | none => exact Act.Fixes.fail _

theorem fixes_getFile (generation : Nat) (path : Bytes) : Act.Fixes seat (getFile generation path) := by
  refine Act.Fixes.get.bind fun s => Act.Fixes.guard ((Act.Fixes.lift _).orFail.bind fun r => ?_)
  cases s.findFile r with
  | some k => exact Act.Fixes.pure _
  | none => exact Act.Fixes.fail _

theorem fixes_eventsAfter (after outLen : Nat) : Act.Fixes seat (eventsAfter after outLen) :=
  Act.Fixes.get.bind fun _ => Act.Fixes.pure _

theorem fixes_reset : Act.Fixes seat reset := by
  refine (fixes_onSess ?_).bind fun _ => ?_
  · exact Act.Fixes.get.bind fun _ => Act.Fixes.guard (Act.Fixes.modify fun _ => rfl)
  iterate 4 refine Act.Fixes.modify_bind (fun _ => rfl) fun _ => ?_
  refine (fixes_onSess ?_).bind fun _ => (fixes_pushEvent _ _ _).bind fun _ => Act.Fixes.get.bind fun _ => Act.Fixes.pure _
  refine Act.Fixes.get.bind fun _ => Act.Fixes.guard ((Act.Fixes.lift _).bind fun _ => ?_)
  exact Act.Fixes.modify_bind (fun _ => rfl) fun _ =>
    Act.Fixes.modify_bind (fun _ => rfl) fun _ => Act.Fixes.modify fun _ => rfl

theorem fixes_tickExec (nowMs : Nat) (k : Fin maxExecs) : Act.Fixes seat (tickExec nowMs k) := by
  refine Act.Fixes.get.bind fun s => Act.Fixes.ite (Act.Fixes.pure 0) (Act.Fixes.ite (Act.Fixes.pure 0) ?_)
  refine Act.Fixes.ite (Act.Fixes.modify_bind (fun _ => rfl) fun _ => ?_) (Act.Fixes.pure 0)
  refine ((fixes_pushEvent _ _ _).catchError fun _ => Act.Fixes.pure ()).bind fun _ => ?_
  exact Act.Fixes.modify_bind (fun _ => rfl) fun _ => Act.Fixes.modify_bind (fun _ => rfl) fun _ => Act.Fixes.pure 1

theorem fixes_tick (nowMs : Nat) : Act.Fixes seat (tick nowMs) := by
  have hloop (ks : List (Fin maxExecs)) : Act.Fixes seat (tickExecs nowMs ks) := by
    induction ks with
    | nil => exact Act.Fixes.pure 0
    | cons k rest ih => exact (fixes_tickExec nowMs k).bind fun _ => ih.bind fun _ => Act.Fixes.pure _
  exact Act.Fixes.get.bind fun _ => Act.Fixes.ite (hloop _) (Act.Fixes.pure 0)

end SessionSlot

namespace Service

variable {svc svc' : Service}

/-- The admission record, and the seats. -/
def books (svc : Service) : Admission × (Fin maxSessions → Bool × Limits) := (svc.adm, fun i => (svc.slots i).seat)

theorem fixes_onSlot {α : Type} (i : Fin maxSessions) {m : Act SessionSlot Error α}
    (h : Act.Fixes SessionSlot.seat m) : Act.Fixes books (onSlot i m) := by
  refine Act.Fixes.zoom fun svc => Prod.ext rfl (funext fun j => ?_)
  show (Function.update svc.slots i (m (svc.slots i)).2 j).seat = (svc.slots j).seat
  by_cases hj : j = i
  · rw [hj, Function.update_self]
    exact h _
  · rw [Function.update_of_ne hj]

theorem fixes_owned {α : Type} (owner : Bytes) (id : Nat) {m : Act SessionSlot Error α}
    (h : Act.Fixes SessionSlot.seat m) : Act.Fixes books (owned owner id m) := by
  refine Act.Fixes.get.bind fun svc => ?_
  cases svc.slotOf id with
  | none => exact Act.Fixes.fail _
  | some i => exact fixes_onSlot i ((SessionSlot.fixes_checkOwner owner).bind fun _ => h)

theorem fixes_idemBegin (key body : Nat) : Act.Fixes books (idemBegin key body) := by
  refine Act.Fixes.get.bind fun svc => Act.Fixes.ite (Act.Fixes.pure true) ?_
  cases (List.finRange maxIdemKeys).find? fun i => svc.idemUsed i && svc.idemKeys i == key with
  | some i => exact Act.Fixes.guard (Act.Fixes.pure false)
  | none =>
      cases Table.find? svc.idemUsed (!·) with
      | some i =>
          exact Act.Fixes.modify_bind (fun _ => rfl) fun _ => Act.Fixes.modify_bind (fun _ => rfl) fun _ =>
            Act.Fixes.modify_bind (fun _ => rfl) fun _ => Act.Fixes.pure true
      | none => exact Act.Fixes.fail _

theorem fixes_tick (nowMs : Nat) : Act.Fixes books (tick nowMs) := by
  have hloop (is : List (Fin maxSessions)) : Act.Fixes books (tickSlots nowMs is) := by
    induction is with
    | nil => exact Act.Fixes.pure 0
    | cons i rest ih =>
        exact (fixes_onSlot i (SessionSlot.fixes_tick nowMs)).bind fun _ => ih.bind fun _ => Act.Fixes.pure _
  exact hloop _

/-- The operations that write to the books. -/
def Op.Charges : Op → Prop
  | .create .. | .destroy .. => True
  | _ => False

theorem fixes_exec {op : Op} (h : ¬op.Charges) : Act.Fixes books (exec op) := by
  cases op with
  | idemBegin key body => exact (fixes_idemBegin key body).bind fun _ => Act.Fixes.pure _
  | create owner limits nowMs => exact absurd trivial h
  | guestReady owner id => exact (fixes_owned owner id SessionSlot.fixes_guestReady).bind fun _ => Act.Fixes.pure _
  | startExec owner id generation argv0 nowMs =>
      exact (fixes_owned owner id (SessionSlot.fixes_startExec _ _ _ _)).bind fun _ => Act.Fixes.pure _
  | cancelExec owner id execId =>
      exact (fixes_owned owner id (SessionSlot.fixes_cancelExec execId)).bind fun _ => Act.Fixes.pure _
  | tick nowMs => exact (fixes_tick nowMs).bind fun _ => Act.Fixes.pure _
  | finishExec owner id execId term code =>
      exact (fixes_owned owner id (SessionSlot.fixes_finishExec execId term code)).bind fun _ => Act.Fixes.pure _
  | putFile owner id generation path size sha =>
      exact (fixes_owned owner id (SessionSlot.fixes_putFile _ _ _ _)).bind fun _ => Act.Fixes.pure _
  | getFile owner id generation path =>
      exact (fixes_owned owner id (SessionSlot.fixes_getFile _ _)).bind fun _ => Act.Fixes.pure _
  | events owner id after outLen =>
      exact (fixes_owned owner id (SessionSlot.fixes_eventsAfter _ _)).bind fun _ => Act.Fixes.pure _
  | reset owner id => exact (fixes_owned owner id SessionSlot.fixes_reset).bind fun _ => Act.Fixes.pure _
  | destroy owner id => exact absurd trivial h

/-! ### The books balance -/

/-- What the taken slots are charged for, by the charge of one session. -/
def charged (svc : Service) (charge : Limits → Nat) : Nat :=
  ∑ i, if (svc.slots i).used then charge (svc.slots i).sess.limits else 0

/-- Admission counts the used slots and their memory, within both of its limits. -/
structure Booked (svc : Service) : Prop where
  active : svc.adm.active = ∑ i, if (svc.slots i).used then 1 else 0
  memory : svc.adm.memUsedMib = ∑ i, if (svc.slots i).used then (svc.slots i).sess.limits.memoryMib else 0
  sessions : svc.adm.active ≤ svc.adm.maxSessions
  budget : svc.adm.memUsedMib ≤ svc.adm.memBudgetMib

/-- Nobody is admitted yet. -/
def Vacant (svc : Service) : Prop :=
  (∀ i, (svc.slots i).used = false) ∧ svc.adm.active = 0 ∧ svc.adm.memUsedMib = 0

theorem Vacant.booked (h : svc.Vacant) : svc.Booked where
  active := by simp [h.1, h.2.1]
  memory := by simp [h.1, h.2.2]
  sessions := by rw [h.2.1]; exact Nat.zero_le _
  budget := by rw [h.2.2]; exact Nat.zero_le _

theorem charged_congr (h : svc'.books = svc.books) (charge : Limits → Nat) : svc'.charged charge = svc.charged charge := by
  refine sum_congr rfl fun i _ => ?_
  have hseat : (svc'.slots i).seat = (svc.slots i).seat := congrFun (congrArg Prod.snd h) i
  obtain ⟨hused, hlimits⟩ := Prod.ext_iff.mp hseat
  change (svc'.slots i).used = (svc.slots i).used at hused
  change (svc'.slots i).sess.limits = (svc.slots i).sess.limits at hlimits
  rw [hused, hlimits]

theorem Booked.congr (h : svc.Booked) (hbooks : svc'.books = svc.books) : svc'.Booked := by
  have hadm : svc'.adm = svc.adm := congrArg Prod.fst hbooks
  constructor <;> rw [hadm]
  · exact h.active.trans (charged_congr hbooks fun _ => 1).symm
  · exact h.memory.trans (charged_congr hbooks Limits.memoryMib).symm
  · exact h.sessions
  · exact h.budget

/-- A slot changes hands: the sum trades its old charge for the new one. -/
theorem charged_setSlot (charge : Limits → Nat) (svc : Service) (i : Fin maxSessions) (s : SessionSlot) :
    (setSlot i s svc).charged charge + (if (svc.slots i).used then charge (svc.slots i).sess.limits else 0) =
      svc.charged charge + if s.used then charge s.sess.limits else 0 :=
  Table.sum_update svc.slots (fun s => if s.used then charge s.sess.limits else 0) i s

theorem Booked.created (h : svc.Booked) {i : Fin maxSessions} (hfree : (svc.slots i).used = false) {limits : Limits}
    (hgrants : svc.adm.Grants limits) (owner : Bytes) (nowMs : Nat) : (svc.created i owner limits nowMs).Booked := by
  have hcharge (charge : Limits → Nat) :
      (svc.created i owner limits nowMs).charged charge = svc.charged charge + charge limits := by
    have := charged_setSlot charge svc i (freshSlot svc.nextSessionId owner limits nowMs)
    rw [hfree] at this
    exact this
  constructor
  · exact (congrArg (· + 1) h.active).trans (hcharge fun _ => 1).symm
  · exact (congrArg (· + limits.memoryMib) h.memory).trans (hcharge Limits.memoryMib).symm
  · exact hgrants.2.1
  · exact hgrants.2.2

theorem Booked.removed (h : svc.Booked) {i : Fin maxSessions} (hused : (svc.slots i).used = true) :
    (svc.removed i).Booked := by
  have hcharge (charge : Limits → Nat) :
      (svc.removed i).charged charge = svc.charged charge - charge (svc.slots i).sess.limits := by
    have := charged_setSlot charge svc i
      { svc.slots i with sess := { (svc.slots i).sess with state := .destroyed }, used := false }
    rw [if_pos hused] at this
    exact Nat.eq_sub_of_add_eq this
  have hadm : (svc.removed i).adm =
      { svc.adm with
        active := svc.adm.active - 1
        memUsedMib := svc.adm.memUsedMib - (svc.slots i).sess.limits.memoryMib } := Admission.release_eq _ _
  constructor <;> rw [hadm]
  · exact (congrArg (· - 1) h.active).trans (hcharge fun _ => 1).symm
  · exact (congrArg (· - (svc.slots i).sess.limits.memoryMib) h.memory).trans (hcharge Limits.memoryMib).symm
  · exact (Nat.sub_le _ _).trans h.sessions
  · exact (Nat.sub_le _ _).trans h.budget

theorem destroy_books (svc : Service) (owner : Bytes) (id : Nat) :
    (destroy owner id svc).2 = svc ∨
      ∃ i, (svc.slots i).used = true ∧ (destroy owner id svc).2 = (svc.removed i).buried id owner := by
  cases hfind : Table.find? svc.destroyed fun t => t.id == id && t.owner == owner with
  | some t => exact Or.inl (by rw [destroy, Act.get_bind_run, hfind]; rfl)
  | none =>
      cases hslot : svc.slotOf id with
      | none => exact Or.inl (by rw [destroy, Act.get_bind_run, hfind]; simp only [hslot, Act.fail_run])
      | some i =>
          by_cases howner : (svc.slots i).owner = owner
          · by_cases halive : (svc.slots i).sess.state = .destroyed
            · have hcheck : onSlot i (SessionSlot.checkOwner owner) svc = (.ok (), svc) := by
                rw [onSlot_run, checkOwner_ok howner]
                exact congrArg (Prod.mk _) (setSlot_self svc i)
              refine Or.inl ?_
              rw [destroy, Act.get_bind_run, hfind]
              simp only [hslot]
              rw [Act.bind_ok_run hcheck, if_pos halive]
              rfl
            · exact Or.inr ⟨i, (slotOf_some hslot).1, by rw [destroy_found hfind ⟨hslot, howner⟩ halive]⟩
          · have hcheck : onSlot i (SessionSlot.checkOwner owner) svc = (.error .notFound, svc) := by
              rw [onSlot_run, checkOwner_error howner]
              exact congrArg (Prod.mk _) (setSlot_self svc i)
            refine Or.inl ?_
            rw [destroy, Act.get_bind_run, hfind]
            simp only [hslot]
            rw [Act.bind_error_run hcheck]

/-! ### Every run -/

/-- The call is a `create` that admission lets in and no slot can take. -/
def Overbooks (svc : Service) : Op → Prop
  | .create _ limits _ => svc.adm.Grants limits ∧ ∀ i, (svc.slots i).used = true
  | _ => False

/-- The call is a `create` and it failed. -/
def Call.CreateFails : Call → Prop
  | ⟨.create .., .error _⟩ => True
  | _ => False

/-- A step that leaves exact books behind it, and unchanged ones if it is a failing `create`. -/
def ExactStep (svc : Service) (c : Call) (svc' : Service) : Prop :=
  Step svc c svc' ∧ svc'.Booked ∧ (c.CreateFails → svc'.adm = svc.adm)

/-- A step that does not overbook. -/
def SeatedStep (svc : Service) (c : Call) (svc' : Service) : Prop := Step svc c svc' ∧ ¬svc.Overbooks c.op

/-- Giving an admission back twice takes one of the seated sessions off the books. -/
theorem Booked.not_released (h : svc.Booked) {limits : Limits} (hfull : ∀ i, (svc.slots i).used = true) :
    (svc.adm.release limits).active ≠ svc.adm.active := by
  have hactive : svc.adm.active = maxSessions := by
    rw [h.active, sum_congr rfl fun i _ => if_pos (hfull i)]
    rfl
  rw [Admission.release_eq]
  show svc.adm.active - 1 ≠ svc.adm.active
  rw [hactive]
  decide

theorem Overbooks.charges {op : Op} (h : svc.Overbooks op) : op.Charges := by
  cases op with
  | create => exact trivial
  | _ => exact h.elim

/-- From exact books a step either overbooks and loses a session, or keeps the books exact. -/
theorem Booked.step (h : svc.Booked) {c : Call} (hstep : Step svc c svc') :
    (svc.Overbooks c.op ∧ c.CreateFails ∧ svc'.adm.active ≠ svc.adm.active) ∨
      (¬svc.Overbooks c.op ∧ svc'.Booked ∧ (c.CreateFails → svc'.adm = svc.adm)) := by
  obtain ⟨op, reply⟩ := c
  obtain ⟨hrun, hreturns⟩ := hstep
  change exec op svc = (reply, svc') at hrun
  by_cases hcharges : op.Charges
  swap
  · have hbooks : svc'.books = svc.books := by
      have := fixes_exec hcharges svc
      rwa [hrun] at this
    exact Or.inr ⟨fun hover => hcharges hover.charges, h.congr hbooks, fun _ => congrArg Prod.fst hbooks⟩
  cases op with
  | create owner limits nowMs =>
      rcases svc.create_run owner limits nowMs with ⟨e, hrefused, hcreate⟩ | ⟨i, hgrants, hfree, hcreate⟩ |
        ⟨hgrants, hfull, hcreate⟩ | htrap
      · rw [exec, Act.bind_error_run hcreate] at hrun
        obtain ⟨rfl, rfl⟩ := Prod.mk.inj hrun
        exact Or.inr ⟨fun hover => hrefused hover.1, h, fun _ => rfl⟩
      · rw [exec, Act.bind_ok_run hcreate] at hrun
        obtain ⟨rfl, rfl⟩ := Prod.mk.inj hrun
        refine Or.inr ⟨fun hover => ?_, h.created hfree hgrants owner nowMs, fun hfails => hfails.elim⟩
        rw [hover.2 i] at hfree
        cases hfree
      · rw [exec, Act.bind_error_run hcreate] at hrun
        obtain ⟨rfl, rfl⟩ := Prod.mk.inj hrun
        exact Or.inl ⟨⟨hgrants, hfull⟩, trivial, h.not_released hfull⟩
      · have htraps : (exec (.create owner limits nowMs) svc).1 = .trap := Act.bind_traps htrap
        rw [hrun] at htraps
        exact absurd htraps hreturns
  | destroy owner id =>
      have hstate : svc' = (destroy owner id svc).2 := by
        have := Act.bind_pure_state (destroy owner id) (fun _ => Reply.unit) svc
        change (exec (.destroy owner id) svc).2 = _ at this
        rwa [hrun] at this
      refine Or.inr ⟨fun hover => hover, ?_, fun hfails => hfails.elim⟩
      rcases svc.destroy_books owner id with hkept | ⟨i, hused, hremoved⟩
      · rwa [hstate, hkept]
      · rw [hstate, hremoved]
        refine (h.removed hused).congr (Prod.ext (buried_adm _ id owner) (funext fun j => ?_))
        exact congrArg (fun slots => (slots j).seat) (buried_slots _ id owner)
  | _ => exact hcharges.elim

/-- From exact books a step keeps them exact just when it does not overbook. -/
theorem exactStep_iff (h : svc.Booked) {c : Call} : ExactStep svc c svc' ↔ SeatedStep svc c svc' := by
  constructor
  · rintro ⟨hstep, -, hkept⟩
    refine ⟨hstep, fun hover => ?_⟩
    rcases h.step hstep with ⟨-, hfails, hlost⟩ | ⟨hseated, -⟩
    · exact hlost (congrArg Admission.active (hkept hfails))
    · exact hseated hover
  · rintro ⟨hstep, hseated⟩
    rcases h.step hstep with ⟨hover, -⟩ | ⟨-, hexact⟩
    · exact absurd hover hseated
    · exact ⟨hstep, hexact⟩

/-- Over any run of a service that starts vacant, whatever its session count and its memory budget: the
books are exact after every call, and unchanged by every failing `create`, just when no call of the run
overbooks. -/
theorem admission_exact_iff (hvacant : svc.Vacant) (trace : List Call) :
    Runs.Run ExactStep svc trace svc' ↔ Runs.Run SeatedStep svc trace svc' := by
  constructor
  · intro hrun
    have hboth : svc'.Booked ∧ Runs.Run SeatedStep svc trace svc' := by
      refine hrun.history (P := fun trace u => u.Booked ∧ Runs.Run SeatedStep svc trace u)
        ⟨hvacant.booked, .refl⟩ ?_
      rintro trace u c v - ⟨hu, hseated⟩ hstep
      exact ⟨hstep.2.1, hseated.snoc ((exactStep_iff hu).mp hstep)⟩
    exact hboth.2
  · intro hrun
    have hboth : svc'.Booked ∧ Runs.Run ExactStep svc trace svc' := by
      refine hrun.history (P := fun trace u => u.Booked ∧ Runs.Run ExactStep svc trace u)
        ⟨hvacant.booked, .refl⟩ ?_
      rintro trace u c v - ⟨hu, hexact⟩ hstep
      have hstep := (exactStep_iff hu).mpr hstep
      exact ⟨hstep.2.1, hexact.snoc hstep⟩
    exact hboth.2

/-- A service with one admission more than it has slots. -/
def nineAdmissions : Service := { adm := { maxSessions := 9 } }

def nineCreates : List Op := List.replicate 9 (.create [7] {} 0)

/-- Nine sessions are created where there are eight slots. -/
theorem admission_exact_iff_nine :
    Runs.Run ExactStep nineAdmissions (nineAdmissions.play nineCreates).1 (nineAdmissions.play nineCreates).2 ↔
      Runs.Run SeatedStep nineAdmissions (nineAdmissions.play nineCreates).1 (nineAdmissions.play nineCreates).2 :=
  admission_exact_iff ⟨fun _ => rfl, rfl, rfl⟩ _

/-- The ninth `create` finds no slot and leaves seven of the eight sessions on the books. -/
theorem ninth_create_loses_session :
    ¬∀ (svc svc' : Service) (trace : List Call), svc.Vacant → Run svc trace svc' →
      svc'.Booked ∧ ∀ c svc₁, Step svc' c svc₁ → c.CreateFails → svc₁.adm = svc'.adm := by
  intro hproperty
  have hrun := play_run nineCreates nineAdmissions (by decide +kernel)
  have hactive : (nineAdmissions.play nineCreates).2.adm.active = 7 := by decide +kernel
  have hused : (∑ i, if ((nineAdmissions.play nineCreates).2.slots i).used then 1 else 0) = 8 := by decide +kernel
  have hbooked := (hproperty _ _ _ ⟨fun _ => rfl, rfl, rfl⟩ hrun).1.active
  rw [hactive, hused] at hbooked
  cases hbooked

end Service

end Supervisor
