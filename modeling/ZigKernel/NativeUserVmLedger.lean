import ZigKernel.LibLedger
import ZigKernel.LibRuns
import ZigKernel.NativeUserVmBuild
import Mathlib.Data.List.Perm.Basic

/-! The frames a provider hands to a space and takes back, over any sequence of calls. The provider's
replies are recorded, and the record balances as a ledger: what it holds is what the space owns. -/

namespace Native

open Zig

namespace UserVm

variable {ω : Type} {P : Provider ω}

/-! ### Recording a provider -/

/-- A frame that `allocPage` returned, and a frame that `freePage` was asked to take. -/
inductive ProviderEvent where
  | alloc (phys : Nat)
  | free (phys : Nat) (taken : Bool)
  deriving DecidableEq, Repr

/-- The same provider, with a record of its replies. -/
def Provider.traced (P : Provider ω) : Provider (ω × List ProviderEvent) where
  allocPage w :=
    match P.allocPage w.1 with
    | (.ok phys, w') => (.ok phys, (w', w.2 ++ [.alloc phys]))
    | (.error e, w') => (.error e, (w', w.2))
  pageBytes phys w := ((P.pageBytes phys w.1).1, ((P.pageBytes phys w.1).2, w.2))
  freePage phys w := ((P.freePage phys w.1).1, ((P.freePage phys w.1).2, w.2 ++ [.free phys (P.freePage phys w.1).1]))
  load ptr w := P.load ptr w.1
  store ptr bytes w := (P.store ptr bytes w.1, w.2)

/-- The frames that a construction with this template turns down: they are never the space's own. -/
def Refuses (template : KernelTemplate) (phys : Nat) : Prop :=
  phys ≠ 0 ∧ (phys % page ≠ 0 ∨ phys ≥ physTop ∨ phys = template.rootPhys.val ∨ phys = template.borrowedPd)

instance (template : KernelTemplate) (phys : Nat) : Decidable (Refuses template phys) :=
  inferInstanceAs (Decidable (_ ∧ _))

/-- A frame is acquired when it is returned and not turned down, and released when it is taken back. Only a
construction, which has a template, allocates. -/
def ledgerEvent (template : Option KernelTemplate) : ProviderEvent → Option (Ledger.Event Nat)
  | .alloc phys =>
      match template with
      | some t => if Refuses t phys then none else some (.acquire phys)
      | none => some (.acquire phys)
  | .free phys true => some (.release phys)
  | .free _ false => none

/-! ### Calls -/

inductive Call where
  | construct (bytes : List UInt8) (template : KernelTemplate)
  | constructClaimedPlan (bytes : List UInt8) (claimed : UserElf.Plan) (template : KernelTemplate)
  | destroy (obs : RootObservation)
  | retryRelease
  | reset
  deriving DecidableEq, Repr

def Call.template : Call → Option KernelTemplate
  | .construct _ template => some template
  | .constructClaimedPlan _ _ template => some template
  | _ => none

def perform (P : Provider ω) : Call → Vm ω Unit
  | .construct bytes template => UserVm.construct P bytes template
  | .constructClaimedPlan bytes claimed template => UserVm.constructClaimedPlan P bytes claimed template
  | .destroy obs => UserVm.destroy P obs
  | .retryRelease => UserVm.retryRelease P
  | .reset => UserVm.reset

/-- A call with its result and the replies of the provider. -/
structure Entry where
  call : Call
  result : Outcome Error Unit
  events : List ProviderEvent

/-- Performs a call with the provider's replies on record. -/
def record (P : Provider ω) (m : Machine ω) (c : Call) : Entry × Machine ω :=
  let r := perform P.traced c { world := (m.world, []), space := m.space }
  ({ call := c, result := r.1, events := r.2.world.2 }, { world := r.2.world.1, space := r.2.space })

/-- The machine takes a call. -/
inductive Step (P : Provider ω) (m : Machine ω) : Entry → Machine ω → Prop where
  | call (c : Call) : Step P m (record P m c).1 (record P m c).2

abbrev Run (P : Provider ω) := Runs.Run (Step P)

/-- What a call adds to the ledger. -/
def Entry.ledger (e : Entry) : List (Ledger.Event Nat) := e.events.filterMap (ledgerEvent e.call.template)

def ledger (trace : List Entry) : List (Ledger.Event Nat) := trace.flatMap Entry.ledger

/-! ### The invariant -/

/-- The ledger holds what the space owns. -/
structure Settled (es : List (Ledger.Event Nat)) (s : AddressSpace) : Prop where
  journal : s.journal.Wf
  balance : ∃ held, Ledger.balance [] es = some held ∧ held.Perm s.owned

/-- The same in the middle of a call, with the replies so far. -/
def Balanced (past : List (Ledger.Event Nat)) (template : Option KernelTemplate)
    (m : Machine (ω × List ProviderEvent)) : Prop :=
  Settled (past ++ m.world.2.filterMap (ledgerEvent template)) m.space

variable {past es : List (Ledger.Event Nat)} {template : KernelTemplate}

theorem Settled.congr {s s' : AddressSpace} (h : Settled es s) (hjournal : s'.journal = s.journal)
    (hzero : s'.ownsZero = s.ownsZero) : Settled es s' where
  journal := hjournal ▸ h.journal
  balance := by
    rw [AddressSpace.owned, hjournal, hzero]
    exact h.balance

theorem mem_owned {s : AddressSpace} {phys : Nat} (hphys : phys ≠ 0) : phys ∈ s.owned ↔ phys ∈ s.journal.live := by
  rw [AddressSpace.owned, List.mem_append]
  refine or_iff_left ?_
  split_ifs
  · exact fun h => hphys (List.mem_singleton.mp h)
  · exact List.not_mem_nil

theorem zero_mem_owned {s : AddressSpace} (h : s.journal.Wf) : 0 ∈ s.owned ↔ s.ownsZero = true := by
  rw [AddressSpace.owned, List.mem_append]
  constructor
  · rintro (hlive | hflag)
    · exact absurd hlive h.nonzero
    · by_contra hzero
      rw [if_neg hzero] at hflag
      exact absurd hflag List.not_mem_nil
  · intro hzero
    rw [if_pos hzero]
    exact Or.inr List.mem_cons_self

/-- Acquiring what is owned already changes nothing. -/
theorem Settled.acquire_owned {s : AddressSpace} {phys : Nat} (h : Settled es s) (hmem : phys ∈ s.owned) :
    Settled (es ++ [.acquire phys]) s := by
  obtain ⟨held, hbalance, hperm⟩ := h.balance
  refine ⟨h.journal, held, Ledger.balance_snoc hbalance ?_, hperm⟩
  rw [Ledger.enter, if_pos (hperm.mem_iff.mpr hmem)]

/-- A frame that enters the space. -/
theorem Settled.acquire {s s' : AddressSpace} {phys : Nat} (h : Settled es s) (hjournal : s'.journal.Wf)
    (hnew : phys ∉ s.owned) (howned : s'.owned.Perm (phys :: s.owned)) : Settled (es ++ [.acquire phys]) s' := by
  obtain ⟨held, hbalance, hperm⟩ := h.balance
  refine ⟨hjournal, phys :: held, Ledger.balance_snoc hbalance ?_, (hperm.cons phys).trans howned.symm⟩
  rw [Ledger.enter, if_neg fun hmem => hnew (hperm.mem_iff.mp hmem)]

/-! ### Construction -/

/-- What `takeFrame` does with the frame it is given is what the ledger does with the reply. -/
theorem acceptFrame_settled {m : Machine (ω × List ProviderEvent)} {phys : Nat}
    (h : Balanced past (some template) m) (hroom : m.space.journal.count < m.space.journal.frames.length) {w : ω} :
    Act.Ensures (acceptFrame template phys) { m with world := (w, m.world.2 ++ [.alloc phys]) }
      (fun _ => Balanced past (some template)) (fun _ => Balanced past (some template)) False := by
  have hrefused (hrefuses : Refuses template phys) :
      Balanced past (some template) { m with world := (w, m.world.2 ++ [.alloc phys]) } := by
    rw [Balanced, List.filterMap_append]
    simp only [List.filterMap_cons, List.filterMap_nil, ledgerEvent, if_pos hrefuses, List.append_nil]
    exact h
  have hacquired (hrefuses : ¬Refuses template phys) (s : AddressSpace)
      (hsettled : Settled (past ++ m.world.2.filterMap (ledgerEvent (some template)) ++ [.acquire phys]) s) :
      Balanced past (some template) { world := (w, m.world.2 ++ [.alloc phys]), space := s } := by
    rw [Balanced, List.filterMap_append]
    simp only [List.filterMap_cons, List.filterMap_nil, ledgerEvent, if_neg hrefuses]
    rw [← List.append_assoc]
    exact hsettled
  refine Act.Ensures.get_bind (Act.Ensures.ite (fun hzero => ?_) fun hnonzero => ?_)
  · -- frame 0 is recorded by the flag
    subst hzero
    refine hacquired (fun hrefuses => hrefuses.1 rfl) _ ?_
    by_cases hflag : m.space.ownsZero = true
    · exact (Settled.acquire_owned h ((zero_mem_owned h.journal).mpr hflag)).congr rfl hflag.symm
    · refine Settled.acquire h h.journal (fun hmem => hflag ((zero_mem_owned h.journal).mp hmem)) ?_
      rw [AddressSpace.owned, AddressSpace.owned, if_pos rfl, if_neg hflag, List.append_nil]
      exact List.perm_append_singleton _ _
  refine Act.Ensures.guard (fun hunaligned => hrefused ⟨hnonzero, Or.inl hunaligned⟩) fun haligned => ?_
  refine Act.Ensures.guard (fun hhigh => hrefused ⟨hnonzero, Or.inr (Or.inl hhigh)⟩) fun hlow => ?_
  refine Act.Ensures.guard (fun hduplicate => ?_) fun hfresh => ?_
  · by_cases hrefuses : Refuses template phys
    · exact hrefused hrefuses
    · have hmem : phys ∈ m.space.journal.live := List.contains_iff_mem.mp hduplicate
      exact hacquired hrefuses _ (Settled.acquire_owned h ((mem_owned hnonzero).mpr hmem))
  refine Act.Ensures.guard (fun hreserved => hrefused ⟨hnonzero, Or.inr (Or.inr hreserved)⟩) fun hfree => ?_
  have hrefuses : ¬Refuses template phys := by
    rintro ⟨-, hunaligned | hhigh | hreserved⟩
    · exact haligned hunaligned
    · exact hlow hhigh
    · exact hfree hreserved
  have hnew : phys ∉ m.space.journal.live := fun hmem => hfresh (List.contains_iff_mem.mpr hmem)
  have hlive := Journal.live_push hroom phys
  refine hacquired hrefuses _ (Settled.acquire h ⟨?_, ?_, ?_⟩ (fun hmem => hnew ((mem_owned hnonzero).mp hmem)) ?_)
  · show m.space.journal.count + 1 ≤ (m.space.journal.frames.set _ _).length
    rw [List.length_set]
    exact hroom
  · rw [hlive, List.mem_append, List.mem_singleton]
    exact fun hmem => hmem.elim h.journal.nonzero fun heq => hnonzero heq.symm
  · rw [hlive, ← List.concat_eq_append]
    exact h.journal.nodup.concat hnew
  · rw [AddressSpace.owned, AddressSpace.owned, hlive, List.append_assoc]
    exact List.perm_middle

theorem steady_balanced : Steady P.traced template (Balanced (ω := ω) past (some template)) where
  space _ _ hm hjournal hzero := hm.congr hjournal hzero
  access _ _ hm := hm
  write _ _ _ hm := hm
  take := by
    refine takeFrame_keeps (fun m e hm hreply => ?_) (fun m phys hm hroom hreply => ?_) (fun _ _ hm => hm)
      fun _ _ _ hm => hm
    · simp only [Provider.traced] at hreply ⊢
      rcases hrun : P.allocPage m.world.1 with ⟨e' | phys, w⟩
      · exact hm
      · rw [hrun] at hreply
        cases hreply
    · simp only [Provider.traced] at hreply ⊢
      rcases hrun : P.allocPage m.world.1 with ⟨e' | phys', w⟩
      · rw [hrun] at hreply
        cases hreply
      · rw [hrun] at hreply
        cases hreply
        exact acceptFrame_settled hm hroom

/-! ### Release -/

section Release

variable {tmpl : Option KernelTemplate}

theorem scrubbed_traced (phys : Nat) (w : ω × List ProviderEvent) : (scrubbed P.traced phys w).2 = w.2 := by
  rw [scrubbed]
  simp only [Provider.traced]
  rcases P.pageBytes phys w.1 with ⟨e | ptr, w'⟩ <;> rfl

/-- The answer to one offer: the ledger releases the frame, or keeps it. -/
theorem freePage_balance {w : ω × List ProviderEvent} {phys : Nat} {rest held : List Nat}
    (hbalance : Ledger.balance [] (past ++ w.2.filterMap (ledgerEvent tmpl)) = some held)
    (hperm : held.Perm (phys :: rest)) :
    ∃ held', Ledger.balance [] (past ++ (P.traced.freePage phys w).2.2.filterMap (ledgerEvent tmpl)) = some held' ∧
      held'.Perm (if (P.traced.freePage phys w).1 then rest else phys :: rest) := by
  have hevents : (P.traced.freePage phys w).2.2 = w.2 ++ [.free phys (P.traced.freePage phys w).1] := rfl
  rw [hevents, List.filterMap_append, ← List.append_assoc]
  cases (P.traced.freePage phys w).1 with
  | true =>
      refine ⟨held.erase phys, Ledger.balance_snoc hbalance ?_, ?_⟩
      · rw [Ledger.enter, if_pos (hperm.mem_iff.mpr List.mem_cons_self)]
      · have herased := hperm.erase phys
        rw [List.erase_cons_head] at herased
        exact herased
  | false =>
      refine ⟨held, ?_, hperm⟩
      simp only [List.filterMap_cons, List.filterMap_nil, ledgerEvent, List.append_nil]
      exact hbalance

theorem offerAll_balance {frames rest held : List Nat} {w : ω × List ProviderEvent}
    (hbalance : Ledger.balance [] (past ++ w.2.filterMap (ledgerEvent tmpl)) = some held)
    (hperm : held.Perm (frames ++ rest)) :
    ∃ held', Ledger.balance [] (past ++ (offerAll P.traced frames w).2.2.filterMap (ledgerEvent tmpl)) = some held' ∧
      held'.Perm ((offerAll P.traced frames w).1 ++ rest) := by
  induction frames generalizing rest held w with
  | nil => exact ⟨held, hbalance, hperm⟩
  | cons phys frames ih =>
      rw [← scrubbed_traced (P := P) phys w] at hbalance
      obtain ⟨held₁, hbalance₁, hperm₁⟩ := freePage_balance (P := P) hbalance hperm
      by_cases htaken : (offer P.traced phys w).1 = true
      · rw [offer] at htaken
        rw [htaken, if_pos rfl] at hperm₁
        rw [offerAll_taken htaken]
        exact ih hbalance₁ hperm₁
      · rw [Bool.not_eq_true] at htaken
        rw [offer] at htaken
        rw [htaken, if_neg Bool.false_ne_true] at hperm₁
        rw [offerAll_refused htaken]
        -- the refused frame waits behind the ones to come
        have hmoved : held₁.Perm (frames ++ (phys :: rest)) := hperm₁.trans List.perm_middle.symm
        obtain ⟨held', hbalance', hperm'⟩ := ih hbalance₁ hmoved
        exact ⟨held', hbalance', hperm'.trans List.perm_middle⟩

end Release

/-- What the ledger holds after a release is what remains. -/
theorem remains_balance {tmpl : Option KernelTemplate} {m : Machine (ω × List ProviderEvent)}
    (h : Balanced past tmpl m) :
    ∃ held, Ledger.balance [] (past ++ (remains P.traced m).world.2.filterMap (ledgerEvent tmpl)) = some held ∧
      held.Perm ((remains P.traced m).kept ++ if (remains P.traced m).zero then [0] else []) := by
  obtain ⟨held, hbalance, hperm⟩ := h.balance
  have hreversed : held.Perm (m.space.journal.live.reverse ++ if m.space.ownsZero then [0] else []) :=
    hperm.trans ((List.reverse_perm _).symm.append_right _)
  obtain ⟨held₁, hbalance₁, hperm₁⟩ := offerAll_balance (P := P) hbalance hreversed
  rw [remains_kept]
  cases hzero : m.space.ownsZero with
  | false =>
      obtain ⟨hflag, hworld⟩ := remains_of_no_zero (P := P.traced) hzero
      rw [hflag, hworld]
      rw [hzero] at hperm₁
      exact ⟨held₁, hbalance₁, hperm₁.trans ((List.reverse_perm _).symm.append_right _)⟩
  | true =>
      obtain ⟨hflag, hworld⟩ := remains_of_zero (P := P.traced) hzero
      rw [hzero, if_pos rfl] at hperm₁
      obtain ⟨held₂, hbalance₂, hperm₂⟩ :=
        freePage_balance (P := P) hbalance₁ (hperm₁.trans (List.perm_append_singleton _ _))
      rw [hflag, hworld]
      refine ⟨held₂, hbalance₂, hperm₂.trans ?_⟩
      have hkept := List.reverse_perm (offerAll P.traced m.space.journal.live.reverse m.world).1
      by_cases htaken : (P.traced.freePage 0 (offerAll P.traced m.space.journal.live.reverse m.world).2).1 = true
      · rw [htaken, if_pos rfl, Bool.not_true, if_neg Bool.false_ne_true, List.append_nil]
        exact hkept.symm
      · rw [Bool.not_eq_true] at htaken
        rw [htaken, if_neg Bool.false_ne_true, Bool.not_false, if_pos rfl]
        exact (List.perm_append_singleton _ _).symm.trans (hkept.symm.append_right _)

theorem releaseAll_balanced {tmpl : Option KernelTemplate} {m : Machine (ω × List ProviderEvent)}
    (h : Balanced past tmpl m) :
    Act.Ensures (releaseAll P.traced) m (fun _ m' => Balanced past tmpl m' ∧ m'.space.owned = [])
      (fun _ => Balanced past tmpl) False := by
  obtain ⟨journal, hlive, hcount, -, hrun⟩ := releaseAll_run (P := P.traced) h.journal
  have hsublist := remains_sublist P.traced m
  have howned : ((remains P.traced m).space m.space journal).owned =
      (remains P.traced m).kept ++ if (remains P.traced m).zero then [0] else [] := by
    rw [← hlive]
    rfl
  have hafter : Balanced past tmpl
      { world := (remains P.traced m).world, space := (remains P.traced m).space m.space journal } := by
    refine ⟨⟨hcount, ?_, ?_⟩, ?_⟩
    · exact fun hmem => h.journal.nonzero (hsublist.subset (hlive ▸ hmem))
    · exact hlive ▸ hsublist.nodup h.journal.nodup
    · rw [howned]
      exact remains_balance h
  rw [Act.Ensures, hrun]
  cases hfirst : (remains P.traced m).first with
  | some phys => exact hafter
  | none =>
      obtain ⟨hkept, hzero⟩ := Remains.first_eq_none.mp hfirst
      refine ⟨hafter, ?_⟩
      rw [howned, hkept, hzero]
      rfl

/-! ### Calls -/

/-- Once nothing is owned, clearing the flag for frame 0 changes nothing. -/
theorem Settled.cleared {s s' : AddressSpace} (h : Settled es s) (howned : s.owned = [])
    (hjournal : s'.journal = s.journal) (hzero : s'.ownsZero = false) : Settled es s' := by
  refine h.congr hjournal (hzero.trans ?_)
  cases hflag : s.ownsZero with
  | false => rfl
  | true =>
      have hmem := (zero_mem_owned h.journal).mpr hflag
      rw [howned] at hmem
      exact absurd hmem List.not_mem_nil

theorem releaseOrDestroy_balanced {tmpl : Option KernelTemplate} {m : Machine (ω × List ProviderEvent)}
    (h : Balanced past tmpl m) :
    Act.Ensures (releaseOrDestroy P.traced) m (fun _ m' => Balanced past tmpl m' ∧ m'.space.owned = [])
      (fun _ => Balanced past tmpl) False := by
  refine (releaseAll_balanced h).catchError fun e t ht => ?_
  exact Settled.congr ht rfl rfl

theorem constructPlan_balanced {bytes : List UInt8} {plan : UserElf.Plan} :
    Act.Keeps (Balanced (ω := ω) past (some template)) (constructPlan P.traced bytes plan template) := by
  refine Act.Keeps.get_bind fun m => Act.Keeps.guard fun _ => Act.Keeps.guard fun _ => ?_
  have h : Steady P.traced template (Balanced past (some template)) := steady_balanced
  refine (Act.Keeps.lift Steady.validateTemplate_ne_trap).bind fun _ => ?_
  refine h.modifySpace_bind (fun _ => rfl) (fun _ => rfl) ?_
  refine Act.Keeps.bind ?_ fun _ => fun t ht => Settled.congr ht rfl rfl
  refine (h.inner bytes plan).catchError fun err t ht => ?_
  refine (releaseOrDestroy_balanced ht).bind fun _ t' ht' => ?_
  exact ht'.1.cleared ht'.2 rfl rfl

theorem lift_plan_keeps {I : Machine ω → Prop} (bytes : List UInt8) :
    Act.Keeps I (Act.lift ((UserElf.plan bytes).mapError Error.elf) : Vm ω UserElf.Plan) := by
  refine Act.Keeps.lift ?_
  have htrap : UserElf.plan bytes ≠ .trap := UserElf.plan_ne_trap
  cases hplan : UserElf.plan bytes with
  | ok plan => nofun
  | error e => nofun
  | trap => exact absurd hplan htrap

theorem perform_balanced (c : Call) : Act.Keeps (Balanced (ω := ω) past c.template) (perform P.traced c) := by
  cases c with
  | construct bytes template => exact (lift_plan_keeps bytes).bind fun plan => constructPlan_balanced
  | constructClaimedPlan bytes claimed template =>
      exact (lift_plan_keeps bytes).bind fun plan => Act.Keeps.guard fun _ => constructPlan_balanced
  | destroy obs =>
      refine Act.Keeps.get_bind fun m => ?_
      have hrelease : Act.Keeps (Balanced (ω := ω) past none)
          (if isActive m.space obs then Act.fail .activeRoot
            else do
              releaseOrDestroy P.traced
              modifySpace fun s => { s.cleared with state := .destroyed }) := by
        refine Act.Keeps.guard fun _ => fun t ht => (releaseOrDestroy_balanced ht).bind fun _ t' ht' => ?_
        exact ht'.1.cleared ht'.2 rfl rfl
      cases m.space.state with
      | empty => exact Act.Keeps.fail _
      | destroyed => exact Act.Keeps.fail _
      | building => exact hrelease
      | ready => exact hrelease
  | retryRelease =>
      refine Act.Keeps.get_bind fun m => Act.Keeps.guard fun _ => Act.Keeps.ite (fun _ => Act.Keeps.pure _) fun _ => ?_
      intro t ht
      have ht : Balanced past none t := ht
      have hrelease : Act.Ensures ((releaseAll P.traced).orFail .releaseFailed : Vm _ Unit) t
          (fun _ m' => Balanced past none m' ∧ m'.space.owned = []) (fun _ : Error => Balanced past none) False :=
        (releaseAll_balanced ht).orFail fun _ _ ht' => ht'
      refine hrelease.bind fun _ t' ht' => ?_
      exact ht'.1.cleared ht'.2 rfl rfl
  | reset =>
      intro m hm
      refine Act.Ensures.get_bind (Act.Ensures.guard (fun _ => hm) fun _ => Act.Ensures.guard (fun _ => hm) fun hnone => ?_)
      have hzero : m.space.ownsZero = false := (Bool.not_eq_true _).mp fun hzero => hnone (Or.inr hzero)
      exact Settled.congr hm rfl hzero.symm

theorem step_settled {m m' : Machine ω} {e : Entry} (h : Settled past m.space) (hstep : Step P m e m') :
    Settled (past ++ e.ledger) m'.space ∧ e.result ≠ .trap := by
  cases hstep with
  | call c =>
      have hstart : Balanced past c.template ({ world := (m.world, []), space := m.space } : Machine (ω × _)) := by
        rw [Balanced, List.filterMap_nil, List.append_nil]
        exact h
      have hkept := perform_balanced (P := P) c _ hstart
      rw [Act.Ensures] at hkept
      rw [record]
      rcases hrun : perform P.traced c { world := (m.world, []), space := m.space } with ⟨u | e | _, m'⟩ <;>
        rw [hrun] at hkept
      · exact ⟨hkept, by simp⟩
      · exact ⟨hkept, by simp⟩
      · exact absurd hkept id

theorem settled_init (storage : List Nat) : Settled [] (AddressSpace.init (Journal.init storage)) where
  journal := ⟨Nat.zero_le _, List.not_mem_nil, List.nodup_nil⟩
  balance := ⟨[], rfl, List.Perm.refl _⟩

theorem run_settled {w : ω} {storage : List Nat} {trace : List Entry} {m : Machine ω}
    (hrun : Run P { world := w, space := AddressSpace.init (Journal.init storage) } trace m) :
    Settled (ledger trace) m.space ∧ ∀ e ∈ trace, e.result ≠ .trap := by
  induction hrun with
  | refl => exact ⟨settled_init storage, fun e he => absurd he List.not_mem_nil⟩
  | @snoc trace t u e hrun hstep ih =>
      obtain ⟨hsettled, hends⟩ := ih
      obtain ⟨hnext, hend⟩ := step_settled hsettled hstep
      refine ⟨?_, fun e' he' => ?_⟩
      · rw [ledger, List.flatMap_append, List.flatMap_cons, List.flatMap_nil, List.append_nil]
        exact hnext
      · rcases List.mem_append.mp he' with he' | he'
        · exact hends e' he'
        · rw [List.mem_singleton.mp he']
          exact hend

theorem owned_nil_of_reset {m m' : Machine ω} {events : List ProviderEvent}
    (h : Step P m { call := .reset, result := .ok (), events } m') : m.space.owned = [] := by
  generalize he : ({ call := .reset, result := .ok (), events } : Entry) = e at h
  cases h with
  | call c =>
      obtain rfl : Call.reset = c := congrArg Entry.call he
      have hrun : (perform P.traced .reset { world := (m.world, []), space := m.space }).1 = .ok () :=
        (congrArg Entry.result he).symm
      rw [perform, reset, Act.get_bind_run] at hrun
      split_ifs at hrun with hstate howned
      · cases hrun
      · cases hrun
      · rw [not_or] at howned
        have hcount : m.space.journal.count = 0 := not_not.mp howned.1
        rw [AddressSpace.owned, Journal.live, hcount, List.take_zero, if_neg howned.2]
        rfl

/-- No frame that enters a space is lost or freed twice: after each call the ledger balances and holds what
the space owns, an acquired frame is owned or has been taken back since, each frame taken back answers an
acquisition of its own, and an owned frame has not been taken back since it was acquired. -/
theorem frames_accounted {w : ω} {storage : List Nat} {trace : List Entry} {m : Machine ω}
    (hrun : Run P { world := w, space := AddressSpace.init (Journal.init storage) } trace m) :
    (∃ held, Ledger.balance [] (ledger trace) = some held ∧ held.Perm m.space.owned) ∧
      m.space.owned.Nodup ∧
      (∀ phys before after, ledger trace = before ++ .acquire phys :: after →
        phys ∈ m.space.owned ∨ .release phys ∈ after) ∧
      (∀ phys before after, ledger trace = before ++ .release phys :: after →
        ∃ before' after', before = before' ++ .acquire phys :: after' ∧ .release phys ∉ after') ∧
      (∀ phys ∈ m.space.owned, ∃ before after, ledger trace = before ++ .acquire phys :: after ∧ .release phys ∉ after) ∧
      (∀ events m', Step P m { call := .reset, result := .ok (), events } m' → m.space.owned = []) ∧
      ∀ e ∈ trace, e.result ≠ .trap := by
  obtain ⟨⟨hjournal, held, hbalance, hperm⟩, hends⟩ := run_settled hrun
  refine ⟨⟨held, hbalance, hperm⟩, ?_, ?_, ?_, ?_, fun events m' => owned_nil_of_reset, hends⟩
  · exact hperm.nodup_iff.mp (Ledger.balance_nodup List.nodup_nil hbalance)
  · intro phys before after hledger
    rw [hledger] at hbalance
    exact (Ledger.acquired_kept hbalance).imp_left hperm.mem_iff.mp
  · intro phys before after hledger
    rw [hledger] at hbalance
    exact Ledger.released_once hbalance
  · intro phys howned
    rcases Ledger.held_acquired List.nodup_nil hbalance (hperm.mem_iff.mpr howned) with ⟨hheld, -⟩ | hacquired
    · exact absurd hheld List.not_mem_nil
    · exact hacquired

/-- After a construction and a teardown every acquired frame has been taken back. -/
theorem frames_accounted_sample :
    let built := record bump sampleMachine (.construct UserElf.sampleImage sampleTemplate)
    let torn := record bump built.2 (.destroy .inactive)
    built.1.result = .ok () ∧ built.2.space.owned.length = 23 ∧ torn.1.result = .ok () ∧
      ∀ phys before after, ledger [built.1, torn.1] = before ++ .acquire phys :: after → .release phys ∈ after := by
  intro built torn
  have hrun : Run bump sampleMachine [built.1, torn.1] torn.2 := (Runs.Run.refl.snoc (Step.call _)).snoc (Step.call _)
  have howned : torn.2.space.owned = [] := by decide +kernel
  refine ⟨by decide +kernel, by decide +kernel, by decide +kernel, fun phys before after hledger => ?_⟩
  obtain ⟨-, -, hkept, -⟩ := frames_accounted hrun
  rcases hkept phys before after hledger with hmem | hreleased
  · rw [howned] at hmem
    exact absurd hmem List.not_mem_nil
  · exact hreleased

/-- Returns a frame that is not aligned. -/
def misaligned : Provider Unit where
  allocPage _ := (.ok 0x1001, ())
  pageBytes phys _ := (.ok phys, ())
  freePage _ _ := (true, ())
  load _ _ := zeroPage
  store _ _ _ := ()

/-- A frame that is turned down is neither owned nor given back. -/
theorem misaligned_frame_dropped :
    let start : Machine Unit := { world := (), space := AddressSpace.init (Journal.init (List.replicate 64 0)) }
    let built := record misaligned start (.construct UserElf.sampleImage sampleTemplate)
    Run misaligned start [built.1] built.2 ∧ built.1.events = [.alloc 0x1001] ∧ 0x1001 ∉ built.2.space.owned := by
  intro start built
  exact ⟨Runs.Run.single (Step.call _), by decide +kernel, by decide +kernel⟩

end UserVm

end Native
