import ZigKernel.NativeUserVmRelease
import ZigKernel.NativeUserVmLayout

/-! Providers whose frames have bytes of their own, and what the accesses of the core do to these bytes.
All statements here are about calls that return: the provider may fail at any time. -/

namespace Native

open Zig

namespace UserVm

/-- The bytes of the frames that a provider has handed out. A frame is handed out once, within the
domain and apart from the template; a pointer that `pageBytes` returns reaches the bytes of that frame
only. -/
structure OwnPages {ω : Type} (P : Provider ω) (template : KernelTemplate) where
  valid : ω → Prop
  handed : ω → List Nat
  page : ω → Nat → Page
  alloc : ∀ w f w', valid w → P.allocPage w = (.ok f, w') →
    valid w' ∧ handed w' = f :: handed w ∧ f ∉ handed w ∧
      (f ≠ 0 ∧ f % UserVm.page = 0 ∧ f < physTop ∧ f ≠ template.rootPhys.val ∧ f ≠ template.borrowedPd) ∧
      ∀ g ∈ handed w, SameBytes (page w' g) (page w g)
  access : ∀ w f ptr w', valid w → f ∈ handed w → P.pageBytes f w = (.ok ptr, w') →
    valid w' ∧ handed w' = handed w ∧ (∀ g ∈ handed w, SameBytes (page w' g) (page w g)) ∧
      SameBytes (P.load ptr w') (page w f) ∧
      ∀ bytes, valid (P.store ptr bytes w') ∧ handed (P.store ptr bytes w') = handed w ∧
        ∀ g ∈ handed w, SameBytes (page (P.store ptr bytes w') g) (if g = f then bytes else page w g)

/-- If the call returns, its value and state are in `Q`. -/
abbrev Returns {ω α : Type} (call : Vm ω α) (m : Machine ω) (Q : α → Machine ω → Prop) : Prop :=
  Act.Ensures call m Q (fun _ _ => True) True

variable {ω : Type} {P : Provider ω} {template : KernelTemplate} {m m' m'' : Machine ω}

/-- From `m` to `m'` only the bytes of `f` were changed, to `bytes`. -/
structure Edited (own : OwnPages P template) (m : Machine ω) (f : Nat) (bytes : Page) (m' : Machine ω) : Prop where
  valid : own.valid m'.world
  handed : own.handed m'.world = own.handed m.world
  page : ∀ g ∈ own.handed m.world, SameBytes (own.page m'.world g) (if g = f then bytes else own.page m.world g)
  rootPhys : m'.space.rootPhys = m.space.rootPhys

/-- From `m` to `m'` the frame `f` was taken from the provider; it holds `bytes`. -/
structure Took (own : OwnPages P template) (m : Machine ω) (f : Nat) (bytes : Page) (m' : Machine ω) : Prop where
  valid : own.valid m'.world
  handed : own.handed m'.world = f :: own.handed m.world
  fresh : f ∉ own.handed m.world
  domain : f ≠ 0 ∧ f % UserVm.page = 0 ∧ f < physTop
  reserved : f ≠ template.rootPhys.val ∧ f ≠ template.borrowedPd
  page : SameBytes (own.page m'.world f) bytes
  other : ∀ g ∈ own.handed m.world, SameBytes (own.page m'.world g) (own.page m.world g)
  rootPhys : m'.space.rootPhys = m.space.rootPhys

/-- From `m` to `m'` the frame `f` was taken, filled with `bytes` and entered in the table `parent`. -/
structure Linked (own : OwnPages P template) (m : Machine ω) (parent i f flags : Nat) (bytes : Page) (m' : Machine ω) :
    Prop where
  valid : own.valid m'.world
  handed : own.handed m'.world = f :: own.handed m.world
  fresh : f ∉ own.handed m.world
  domain : f ≠ 0 ∧ f % UserVm.page = 0 ∧ f < physTop
  reserved : f ≠ template.rootPhys.val ∧ f ≠ template.borrowedPd
  page : SameBytes (own.page m'.world f) bytes
  entered : SameBytes (own.page m'.world parent) (storeU64 (own.page m.world parent) i (f ||| flags))
  other : ∀ g ∈ own.handed m.world, g ≠ parent → SameBytes (own.page m'.world g) (own.page m.world g)
  rootPhys : m'.space.rootPhys = m.space.rootPhys

variable {own : OwnPages P template} {f : Nat} {bytes bytes' : Page}

theorem mem_cons_of_handed {fs fs' : List Nat} (h : fs' = f :: fs) : f ∈ fs' ∧ ∀ g ∈ fs, g ∈ fs' := by
  subst h
  exact ⟨List.mem_cons_self, fun g hg => List.mem_cons_of_mem _ hg⟩

namespace Edited

theorem self (h : Edited own m f bytes m') (hf : f ∈ own.handed m.world) : SameBytes (own.page m'.world f) bytes := by
  have hpage := h.page f hf
  rwa [if_pos rfl] at hpage

theorem other (h : Edited own m f bytes m') {g : Nat} (hg : g ∈ own.handed m.world) (hne : g ≠ f) :
    SameBytes (own.page m'.world g) (own.page m.world g) := by
  have hpage := h.page g hg
  rwa [if_neg hne] at hpage

end Edited

namespace Took

/-- The frame just taken may be filled. -/
theorem edit (h : Took own m f bytes m') (he : Edited own m' f bytes' m'') : Took own m f bytes' m'' where
  valid := he.valid
  handed := he.handed.trans h.handed
  fresh := h.fresh
  domain := h.domain
  reserved := h.reserved
  page := he.self (mem_cons_of_handed h.handed).1
  other g hg := by
    have hne : g ≠ f := fun heq => h.fresh (heq ▸ hg)
    exact (he.other ((mem_cons_of_handed h.handed).2 g hg) hne).trans (h.other g hg)
  rootPhys := he.rootPhys.trans h.rootPhys

/-- The counters of the space play no part. -/
theorem modifySpace (h : Took own m f bytes m') {s : AddressSpace} (hs : s.rootPhys = m'.space.rootPhys) :
    Took own m f bytes { m' with space := s } :=
  { h with rootPhys := hs.trans h.rootPhys }

end Took

theorem Took.linked (h : Took own m f bytes m') {parent i flags : Nat} (hparent : parent ∈ own.handed m.world)
    (he : Edited own m' parent (storeU64 (own.page m'.world parent) i (f ||| flags)) m'') :
    Linked own m parent i f flags bytes m'' := by
  obtain ⟨hmem, hlater⟩ := mem_cons_of_handed h.handed
  have hne {g : Nat} (hg : g ∈ own.handed m.world) : g ≠ f := fun heq => h.fresh (heq ▸ hg)
  refine ⟨he.valid, he.handed.trans h.handed, h.fresh, h.domain, h.reserved, ?_, ?_, fun g hg hgp => ?_,
    he.rootPhys.trans h.rootPhys⟩
  · exact (he.other hmem (hne hparent).symm).trans h.page
  · exact (he.self (hlater _ hparent)).trans ((h.other _ hparent).storeU64 i _)
  · exact (he.other (hlater g hg) hgp).trans (h.other g hg)

/-- A frame that is entered in its parent may still be filled. -/
theorem Linked.edit {parent i flags : Nat} (h : Linked own m parent i f flags bytes m')
    (hparent : parent ∈ own.handed m.world) (he : Edited own m' f bytes' m'') :
    Linked own m parent i f flags bytes' m'' := by
  obtain ⟨hmem, hlater⟩ := mem_cons_of_handed h.handed
  have hne {g : Nat} (hg : g ∈ own.handed m.world) : g ≠ f := fun heq => h.fresh (heq ▸ hg)
  refine ⟨he.valid, he.handed.trans h.handed, h.fresh, h.domain, h.reserved, he.self hmem, ?_, fun g hg hgp => ?_,
    he.rootPhys.trans h.rootPhys⟩
  · exact (he.other (hlater _ hparent) (hne hparent)).trans h.entered
  · exact (he.other (hlater g hg) (hne hg)).trans (h.other g hg hgp)

/-! ### Access -/

theorem pageBytes_returns {α : Type} {e : Error} {k : Nat → Vm ω α} {Q : α → Machine ω → Prop}
    (hk : ∀ ptr w', P.pageBytes f m.world = (.ok ptr, w') → Returns (k ptr) { m with world := w' } Q) :
    Returns (pageBytes P f >>= fun reply => match reply with
      | .error _ => Act.fail e
      | .ok ptr => k ptr) m Q := by
  rw [Returns, Act.Ensures, pageBytes_bind_run, ← Act.Ensures]
  rcases hreply : P.pageBytes f m.world with ⟨e' | ptr, w'⟩
  · exact trivial
  · exact hk ptr w' hreply

theorem writePage_edited (hvalid : own.valid m.world) (hf : f ∈ own.handed m.world) {ptr : Nat} {w' : ω}
    (hreply : P.pageBytes f m.world = (.ok ptr, w')) (hbytes : SameBytes bytes bytes') :
    Edited own m f bytes' { m with world := P.store ptr bytes w' } := by
  obtain ⟨-, -, -, -, hstore⟩ := own.access _ _ _ _ hvalid hf hreply
  obtain ⟨hvalid', hhanded, hpage⟩ := hstore bytes
  refine ⟨hvalid', hhanded, fun g hg => (hpage g hg).trans ?_, rfl⟩
  by_cases hgf : g = f
  · rw [if_pos hgf, if_pos hgf]
    exact hbytes
  · rw [if_neg hgf, if_neg hgf]
    exact SameBytes.refl _

theorem writeRaw_returns (hvalid : own.valid m.world) (hf : f ∈ own.handed m.world) {i v : Nat} :
    Returns (writeRaw P f i v) m fun _ m' => Edited own m f (storeU64 (own.page m.world f) i v) m' := by
  refine Act.Ensures.guard (fun _ => trivial) fun _ => pageBytes_returns fun ptr w' hreply => ?_
  obtain ⟨-, -, -, hload, -⟩ := own.access _ _ _ _ hvalid hf hreply
  exact writePage_edited hvalid hf hreply (hload.storeU64 i v)

theorem readEntry_returns (hvalid : own.valid m.world) (hf : f ∈ own.handed m.world) {i : Nat} :
    Returns (readEntry P f i) m fun v m' => v = loadU64 (own.page m.world f) i ∧
      Edited own m f (own.page m.world f) m' := by
  refine Act.Ensures.guard (fun _ => trivial) fun hi => pageBytes_returns fun ptr w' hreply => ?_
  obtain ⟨hvalid', hhanded, hpage, hload, -⟩ := own.access _ _ _ _ hvalid hf hreply
  refine ⟨hload.loadU64 (Nat.lt_of_not_ge hi), hvalid', hhanded, fun g hg => ?_, rfl⟩
  by_cases hgf : g = f
  · rw [if_pos hgf, ← hgf]
    exact hpage g hg
  · rw [if_neg hgf]
    exact hpage g hg

theorem writeNew_returns (hvalid : own.valid m.world) (hf : f ∈ own.handed m.world) {i frame flags : Nat} :
    Returns (writeNew P f i frame flags) m fun _ m' =>
      Edited own m f (storeU64 (own.page m.world f) i (frame ||| flags)) m' := by
  unfold writeNew
  iterate 6 refine Act.Ensures.guard (fun _ => trivial) fun _ => ?_
  exact writeRaw_returns hvalid hf

/-! ### Frames and their content -/

theorem takeFrame_returns (hvalid : own.valid m.world) :
    Returns (takeFrame P template) m fun f m' => Took own m f zeroPage m' := by
  refine Act.Ensures.get_bind (Act.Ensures.guard (fun _ => trivial) fun _ => Act.Ensures.guard (fun _ => trivial) fun _ => ?_)
  rw [Act.Ensures, allocPage_bind_run, ← Act.Ensures]
  rcases hreply : P.allocPage m.world with ⟨e | phys, w⟩
  · exact trivial
  · obtain ⟨hvalid', hhanded, hfresh, ⟨hzero, haligned, htop, hreserved⟩, hother⟩ := own.alloc _ _ _ hvalid hreply
    have hmem := (mem_cons_of_handed hhanded).1
    have haccept : Returns (acceptFrame template phys) { m with world := w }
        fun _ m' => m'.world = w ∧ m'.space.rootPhys = m.space.rootPhys := by
      refine Act.Ensures.get_bind (Act.Ensures.ite (fun _ => trivial) fun _ => ?_)
      iterate 4 refine Act.Ensures.guard (fun _ => trivial) fun _ => ?_
      exact ⟨rfl, rfl⟩
    refine haccept.bind fun _ t ht => ?_
    obtain ⟨rfl, hroot⟩ := ht
    refine pageBytes_returns fun ptr w' hbytes => ?_
    have hedit := writePage_edited hvalid' hmem hbytes (SameBytes.refl zeroPage)
    have htook : Took own m phys (own.page t.world phys) t :=
      { valid := hvalid', handed := hhanded, fresh := hfresh, domain := ⟨hzero, haligned, htop⟩, reserved := hreserved
        page := SameBytes.refl _, other := hother, rootPhys := hroot }
    exact htook.edit hedit

/-- The part of a segment in the page at `va`: the file's bytes where the segment has them, else zero. -/
def segmentPage (bytes : List UInt8) (seg : UserElf.Segment) (va : Nat) : Page := fun off =>
  if seg.vaddr ≤ va + off ∧ va + off < seg.vaddr + seg.filesz then
    UserElf.byteAt bytes (seg.fileOff + (va + off - seg.vaddr))
  else 0

theorem copyInto_segment (file : List UInt8) {seg : UserElf.Segment} {va : Nat} {dst : Page}
    (hdst : SameBytes dst zeroPage) (hcopy : max seg.vaddr va < min (seg.vaddr + seg.filesz) (va + UserVm.page)) :
    SameBytes
      (copyInto dst (max seg.vaddr va - va) file (seg.fileOff + (max seg.vaddr va - seg.vaddr))
        (min (seg.vaddr + seg.filesz) (va + UserVm.page) - max seg.vaddr va))
      (segmentPage file seg va) := by
  intro off hoff
  rw [copyInto, segmentPage]
  by_cases hin : seg.vaddr ≤ va + off ∧ va + off < seg.vaddr + seg.filesz
  · have hrange : max seg.vaddr va - va ≤ off ∧
        off < max seg.vaddr va - va + (min (seg.vaddr + seg.filesz) (va + UserVm.page) - max seg.vaddr va) := by
      omega
    have hindex : seg.fileOff + (max seg.vaddr va - seg.vaddr) + (off - (max seg.vaddr va - va)) =
        seg.fileOff + (va + off - seg.vaddr) := by
      omega
    rw [if_pos hin, if_pos hrange, hindex]
  · rw [if_neg hin, if_neg (by omega)]
    exact hdst off hoff

theorem segmentPage_zero {file : List UInt8} {seg : UserElf.Segment} {va : Nat}
    (h : ¬max seg.vaddr va < min (seg.vaddr + seg.filesz) (va + UserVm.page)) :
    SameBytes zeroPage (segmentPage file seg va) := by
  intro off hoff
  rw [segmentPage, if_neg (by omega), zeroPage]

theorem copyFileBytes_took {m₁ : Machine ω} {file : List UInt8} {seg : UserElf.Segment} {va : Nat}
    (h : Took own m f zeroPage m₁) :
    Returns (copyFileBytes P f file seg va) m₁ fun _ m' => Took own m f (segmentPage file seg va) m' := by
  have hmem := (mem_cons_of_handed h.handed).1
  refine Act.Ensures.ite (fun hempty => ?_) fun hcopy => ?_
  · exact { h with page := h.page.trans (segmentPage_zero (Nat.not_lt.mpr hempty)) }
  · unfold copyRange
    cases hoff : mathAdd seg.fileOff (max seg.vaddr va - seg.vaddr) with
    | none => exact trivial
    | some off =>
        simp only
        cases mathAdd off _ with
        | none => exact trivial
        | some copyEnd =>
            refine Act.Ensures.guard (fun _ => trivial) fun _ => Act.Ensures.guard (fun _ => trivial) fun _ => ?_
            refine pageBytes_returns fun ptr w' hreply => ?_
            obtain ⟨-, -, -, hload, -⟩ := own.access _ _ _ _ h.valid hmem hreply
            have hbytes := copyInto_segment file (hload.trans h.page) (Nat.lt_of_not_ge hcopy)
            rw [(mathAdd_eq_some.mp hoff).2] at hbytes
            exact h.edit (writePage_edited h.valid hmem hreply hbytes)

end UserVm

end Native
