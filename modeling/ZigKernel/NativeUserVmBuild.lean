import ZigKernel.NativeUserElfSound
import ZigKernel.NativeUserVmRelease

/-! Construction as a whole: the tables and pages are built by taking frames and by reads and writes
through `pageBytes`. An invariant that these keep is kept by the construction, on every exit. -/

namespace Native

open Zig

namespace UserVm

variable {ω : Type} {P : Provider ω} {template : KernelTemplate} {I : Machine ω → Prop}

/-- An invariant about the frames that are owned. It depends neither on what a page holds nor on the
fields of the space besides the journal and the flag for frame 0. -/
structure Steady (P : Provider ω) (template : KernelTemplate) (I : Machine ω → Prop) : Prop where
  space : ∀ m s, I m → s.journal = m.space.journal → s.ownsZero = m.space.ownsZero → I { m with space := s }
  access : ∀ m phys, I m → I { m with world := (P.pageBytes phys m.world).2 }
  write : ∀ m ptr bytes, I m → I { m with world := P.store ptr bytes m.world }
  take : Act.Keeps I (takeFrame P template)

namespace Steady

variable (h : Steady P template I)

include h

theorem modifySpace_bind {α : Type} {f : AddressSpace → AddressSpace} {g : Unit → Vm ω α}
    (hjournal : ∀ s, (f s).journal = s.journal) (hzero : ∀ s, (f s).ownsZero = s.ownsZero)
    (hg : Act.Keeps I (g ())) : Act.Keeps I ((modifySpace f : Vm ω Unit) >>= g) :=
  fun m hm => hg _ (h.space m _ hm (hjournal _) (hzero _))

theorem pageBytes (phys : Nat) : Act.Keeps I (UserVm.pageBytes P phys) := fun m hm => h.access m phys hm
omit h in
theorem readPage (ptr : Nat) : Act.Keeps I (UserVm.readPage P ptr) := fun _ hm => hm
theorem writePage (ptr : Nat) (bytes : Page) : Act.Keeps I (UserVm.writePage P ptr bytes) :=
  fun m hm => h.write m ptr bytes hm

theorem writeRaw (table index value : Nat) : Act.Keeps I (UserVm.writeRaw P table index value) := by
  refine Act.Keeps.guard fun _ => (h.pageBytes table).bind fun reply => ?_
  cases reply with
  | error e => exact Act.Keeps.fail _
  | ok ptr => exact (Steady.readPage ptr).bind fun bytes => h.writePage ptr _

theorem readEntry (table index : Nat) : Act.Keeps I (UserVm.readEntry P table index) := by
  refine Act.Keeps.guard fun _ => (h.pageBytes table).bind fun reply => ?_
  cases reply with
  | error e => exact Act.Keeps.fail _
  | ok ptr => exact (Steady.readPage ptr).bind fun bytes => Act.Keeps.pure _

theorem writeNew (table index frame flags : Nat) : Act.Keeps I (UserVm.writeNew P table index frame flags) := by
  unfold UserVm.writeNew
  iterate 6 refine Act.Keeps.guard fun _ => ?_
  exact h.writeRaw _ _ _

theorem newPt (pd idx : Nat) (kind : PtKind) : Act.Keeps I (UserVm.newPt P pd idx kind template) := by
  refine Act.Keeps.get_bind fun m => Act.Keeps.guard fun _ => Act.Keeps.guard fun _ => h.take.bind fun pt => ?_
  refine h.modifySpace_bind (fun _ => rfl) (fun _ => rfl) (h.modifySpace_bind (fun _ => ?_) (fun _ => ?_) ?_)
  · cases kind <;> rfl
  · cases kind <;> rfl
  · exact (h.writeNew _ _ _ _).bind fun _ => Act.Keeps.pure _

theorem ensurePt (pd va : Nat) (kind : PtKind) : Act.Keeps I (UserVm.ensurePt P pd va kind template) := by
  refine (h.readEntry _ _).bind fun cur => Act.Keeps.ite (fun _ => ?_) fun _ => h.newPt _ _ _
  refine Act.Keeps.get_bind fun m => ?_
  iterate 5 refine Act.Keeps.guard fun _ => ?_
  exact Act.Keeps.pure _

theorem copyFileBytes (frame : Nat) (bytes : List UInt8) (seg : UserElf.Segment) (pageVa : Nat) :
    Act.Keeps I (UserVm.copyFileBytes P frame bytes seg pageVa) := by
  refine Act.Keeps.ite (fun _ => Act.Keeps.pure _) fun _ => ?_
  unfold copyRange
  cases mathAdd seg.fileOff (max seg.vaddr pageVa - seg.vaddr) with
  | none => exact Act.Keeps.fail _
  | some off =>
      simp only
      cases mathAdd off _ with
      | none => exact Act.Keeps.fail _
      | some copyEnd =>
          refine Act.Keeps.guard fun _ => Act.Keeps.guard fun _ => (h.pageBytes frame).bind fun reply => ?_
          cases reply with
          | error e => exact Act.Keeps.fail _
          | ok ptr => exact (Steady.readPage ptr).bind fun page => h.writePage ptr _

theorem mapImagePage (pd : Nat) (bytes : List UInt8) (seg : UserElf.Segment) (va : Nat) :
    Act.Keeps I (UserVm.mapImagePage P pd bytes seg template va) := by
  refine Act.Keeps.guard fun _ => (h.ensurePt _ _ _).bind fun pt => (h.readEntry _ _).bind fun cur => ?_
  refine Act.Keeps.get_bind fun m => Act.Keeps.guard fun _ => Act.Keeps.guard fun _ => h.take.bind fun frame => ?_
  refine h.modifySpace_bind (fun _ => rfl) (fun _ => rfl) ?_
  exact (h.copyFileBytes _ _ _ _).bind fun _ => h.writeNew _ _ _ _

theorem mapStackPage (pd va : Nat) : Act.Keeps I (UserVm.mapStackPage P pd template va) := by
  refine Act.Keeps.guard fun _ => (h.ensurePt _ _ _).bind fun pt => (h.readEntry _ _).bind fun cur => ?_
  refine Act.Keeps.get_bind fun m => Act.Keeps.guard fun _ => Act.Keeps.guard fun _ => h.take.bind fun frame => ?_
  exact h.modifySpace_bind (fun _ => rfl) (fun _ => rfl) (h.writeNew _ _ _ _)

end Steady

/-- The turns a page loop is given are enough. -/
theorem eachPage_keeps {hi : Nat} {body : Nat → Vm ω Unit} (hbody : ∀ va, Act.Keeps I (body va)) {turns va : Nat}
    (hturns : hi ≤ va + turns * page) : Act.Keeps I (eachPage hi body turns va) := by
  induction turns generalizing va with
  | zero =>
      rw [eachPage, if_neg (by omega)]
      exact Act.Keeps.pure _
  | succ turns ih =>
      rw [Nat.succ_mul] at hturns
      exact Act.Keeps.ite (fun _ => (hbody va).bind fun _ => ih (by omega)) fun _ => Act.Keeps.pure _

theorem pagesIn_enough (lo hi : Nat) : hi ≤ lo + pagesIn lo hi * page := by
  have hpage : page = 4096 := rfl
  rw [pagesIn, hpage]
  omega

namespace Steady

variable (h : Steady P template I)

include h

theorem mapSegments (pd : Nat) (bytes : List UInt8) (segs : List UserElf.Segment) :
    Act.Keeps I (UserVm.mapSegments P pd bytes template segs) := by
  induction segs with
  | nil => exact Act.Keeps.pure _
  | cons seg rest ih =>
      refine Act.Keeps.bind (Act.Keeps.guard fun _ => ?_) fun _ => ih
      exact eachPage_keeps (h.mapImagePage pd bytes seg) (pagesIn_enough _ _)

theorem mapStack (pd : Nat) : Act.Keeps I (UserVm.mapStack P pd template) :=
  eachPage_keeps (h.mapStackPage pd) (pagesIn_enough _ _)

omit h in
theorem validateTemplate_ne_trap : validateTemplate template ≠ .trap := by
  unfold validateTemplate
  iterate 10 refine Outcome.ite_error_ne_trap fun _ => ?_
  nofun

theorem buildRoot : Act.Keeps I (UserVm.buildRoot P template) := by
  refine h.take.bind fun pml4 => h.modifySpace_bind (fun _ => rfl) (fun _ => rfl) ?_
  refine h.take.bind fun pdpt => h.modifySpace_bind (fun _ => rfl) (fun _ => rfl) ?_
  refine (h.writeNew _ _ _ _).bind fun _ => ?_
  refine Act.Keeps.bind ((Act.Keeps.lift validateTemplate_ne_trap).bind fun _ => h.writeRaw _ _ _) fun _ => ?_
  refine Act.Keeps.guard fun _ => h.take.bind fun pd => h.modifySpace_bind (fun _ => rfl) (fun _ => rfl) ?_
  exact (h.writeNew _ _ _ _).bind fun _ => Act.Keeps.pure _

theorem inner (bytes : List UInt8) (plan : UserElf.Plan) : Act.Keeps I (UserVm.inner P bytes plan template) :=
  h.buildRoot.bind fun pd => (h.mapSegments pd bytes plan.segments).bind fun _ => h.mapStack pd

end Steady

/-- What `takeFrame` does to the journal and to the world, by what the provider answers. -/
theorem takeFrame_keeps
    (halloc : ∀ m e, I m → (P.allocPage m.world).1 = .error e → I { m with world := (P.allocPage m.world).2 })
    (haccept : ∀ m phys, I m → m.space.journal.count < m.space.journal.frames.length →
      (P.allocPage m.world).1 = .ok phys →
        Act.Ensures (acceptFrame template phys) { m with world := (P.allocPage m.world).2 } (fun _ => I) (fun _ => I) False)
    (haccess : ∀ m phys, I m → I { m with world := (P.pageBytes phys m.world).2 })
    (hwrite : ∀ m ptr bytes, I m → I { m with world := P.store ptr bytes m.world }) :
    Act.Keeps I (takeFrame P template) := by
  intro m hm
  refine Act.Ensures.get_bind (Act.Ensures.guard (fun _ => hm) fun hroom => Act.Ensures.guard (fun _ => hm) fun _ => ?_)
  rw [Act.Ensures, allocPage_bind_run, ← Act.Ensures]
  cases hreply : (P.allocPage m.world).1 with
  | error e => exact halloc m e hm hreply
  | ok phys =>
      refine (haccept m phys hm (Nat.lt_of_not_ge hroom) hreply).bind fun _ t ht => ?_
      rw [Act.Ensures, zeroFrame, pageBytes_bind_run, ← Act.Ensures]
      cases (P.pageBytes phys t.world).1 with
      | error e => exact haccess t phys ht
      | ok ptr => exact hwrite { t with world := (P.pageBytes phys t.world).2 } ptr zeroPage (haccess t phys ht)

end UserVm

end Native
