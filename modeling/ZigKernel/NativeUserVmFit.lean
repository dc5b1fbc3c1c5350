import ZigKernel.NativeUserVmBudget
import ZigKernel.NativeUserVmBuild
import ZigKernel.NativeUserVmImage

/-! An accepted image can always be built: over a provider that has the frames and does not fail, `construct`
returns, and the counters of the space are those of its plan. -/

namespace Native

open Zig

namespace UserVm

variable {ω : Type} {P : Provider ω} {template : KernelTemplate} {own : OwnPages P template} {L : Layout}
  {m m' : Machine ω} {A V T : Finset Slot} {top limit : Nat} {pdNode : Node}

theorem Accounts.takeFrame (h : Accounts A top V T (own.handed m.world) m.space) (hA : Feasible A)
    (hsupply : own.Supplies (framesFor A)) (hvalid : own.valid m.world) (hroom : m.space.journal.count < framesFor A) :
    Yields (takeFrame P template) m fun f m' =>
      m'.space = { m.space with journal := m.space.journal.push f } ∧ Took own m f zeroPage m' := by
  have hlength := h.length_handed hroom
  refine takeFrame_yields hsupply hvalid (by omega) ?_ ?_ h.live
  · exact Nat.lt_of_lt_of_le hroom h.slots
  · exact Nat.lt_of_lt_of_le hroom hA.framesFor_le

/-! ### The root -/

/-- Some of the top tables are there, and nothing else. -/
structure Opened (own : OwnPages P template) (A : Finset Slot) (top : Nat) (m : Machine ω) : Prop where
  valid : own.valid m.world
  accounts : Accounts A top ∅ ∅ (own.handed m.world) m.space

theorem Opened.edited (h : Opened own A top m) {f : Nat} {bytes : Page} (hspace : m'.space = m.space)
    (he : Edited own m f bytes m') : Opened own A top m' where
  valid := he.valid
  accounts := by
    rw [he.handed, hspace]
    exact h.accounts

theorem takeTop_yields {α : Type} {g : Nat → AddressSpace → AddressSpace} {k : Nat → Vm ω α}
    {Q : α → Machine ω → Prop} (hA : Feasible A) (hsupply : own.Supplies (framesFor A)) (h : Opened own A top m)
    (htop : top < 3)
    (hg : ∀ f s, (g f s).journal = s.journal ∧ (g f s).tablePages = s.tablePages + 1 ∧
      ∀ kind : PtKind, kind.pages (g f s) = kind.pages s ∧ kind.pts (g f s) = kind.pts s)
    (hk : ∀ f m', Opened own A (top + 1) m' → own.handed m'.world = f :: own.handed m.world →
      (f ≠ 0 ∧ f % page = 0 ∧ f < physTop) → f ≠ template.borrowedPd → Yields (k f) m' Q) :
    Yields (takeFrame P template >>= fun f => modifySpace (g f) >>= fun _ => k f) m Q := by
  refine (h.accounts.takeFrame hA hsupply h.valid (h.accounts.room_top htop)).bind fun f m₁ htook => ?_
  obtain ⟨hspace, htook⟩ := htook
  refine hk f _ ⟨htook.valid, ?_⟩ htook.handed htook.domain htook.reserved.2
  obtain ⟨hjournal, htables, hcounts⟩ := hg f m₁.space
  simp only
  rw [htook.handed]
  rw [hspace] at hjournal htables hcounts ⊢
  simp only [PtKind.pages_journal, PtKind.pts_journal] at hcounts
  exact h.accounts.addTop htop htook.domain hjournal htables hcounts

theorem buildRoot_opened (hA : Feasible A) (hsupply : own.Supplies (framesFor A)) (h : Opened own A 0 m)
    (htemplate : validateTemplate template = .ok ()) :
    Yields (buildRoot P template) m fun _ m' => Opened own A 3 m' := by
  have hmem {f : Nat} {fs fs' : List Nat} (h : fs' = f :: fs) : f ∈ fs' := (mem_cons_of_handed h).1
  refine takeTop_yields hA hsupply h (by decide) (fun _ _ => ⟨rfl, rfl, fun kind => ?_⟩) fun pml4 m₁ h₁ hhanded₁ _ hpml4 => ?_
  · cases kind <;> exact ⟨rfl, rfl⟩
  refine takeTop_yields (g := fun _ s => { s with tablePages := s.tablePages + 1 }) hA hsupply h₁ (by decide)
    (fun _ _ => ⟨rfl, rfl, fun kind => ?_⟩) fun pdpt m₂ h₂ hhanded₂ hdomain hpdpt => ?_
  · cases kind <;> exact ⟨rfl, rfl⟩
  have hroot : pml4 ∈ own.handed m₂.world := (mem_cons_of_handed hhanded₂).2 _ (hmem hhanded₁)
  refine (writeNew_yields hsupply h₂.valid hroot (by decide) hdomain tableFlags_known).bind fun _ m₃ hedit => ?_
  have h₃ := h₂.edited hedit.1 hedit.2
  have hpdpt₃ : pdpt ∈ own.handed m₃.world := hedit.2.handed ▸ hmem hhanded₂
  have hborrowed : Yields (writeBorrowedPdpt0 P pdpt template) m₃ fun _ m' =>
      Opened own A 2 m' ∧ own.handed m'.world = own.handed m₃.world := by
    rw [writeBorrowedPdpt0, htemplate]
    refine (writeRaw_yields (i := 0) hsupply h₃.valid hpdpt₃ (by decide)).mono fun _ m' hedit => ?_
    exact ⟨h₃.edited hedit.1 hedit.2, hedit.2.handed⟩
  refine hborrowed.bind fun _ m₄ hopened => ?_
  obtain ⟨h₄, hhanded₄⟩ := hopened
  refine Yields.guard (fun heq => heq.elim (fun h => hpdpt h.symm) fun h => hpml4 h.symm) ?_
  refine takeTop_yields (g := fun _ s => { s with tablePages := s.tablePages + 1 }) hA hsupply h₄ (by decide)
    (fun _ _ => ⟨rfl, rfl, fun kind => ?_⟩) fun pd m₅ h₅ hhanded₅ hdomain _ => ?_
  · cases kind <;> exact ⟨rfl, rfl⟩
  have hpdpt₅ : pdpt ∈ own.handed m₅.world := (mem_cons_of_handed hhanded₅).2 _ (hhanded₄ ▸ hpdpt₃)
  refine (writeNew_yields hsupply h₅.valid hpdpt₅ (by decide) hdomain tableFlags_known).bind fun _ m₆ hedit => ?_
  exact h₅.edited hedit.1 hedit.2

/-! ### What is built so far -/

/-- The addresses of the pages in `A`. -/
def Covers (A : Finset Slot) (va : Nat) : Prop := ∃ kind : PtKind, (kind, va / 2 ^ 12) ∈ A

/-- The layout has the pages in `V` and the page tables in `T`, and the accounts say so. -/
structure Progress (own : OwnPages P template) (A V T : Finset Slot) (pdNode : Node) (L : Layout) (m : Machine ω) :
    Prop where
  built : Built own (Covers A) L m
  pd : L .pd = some pdNode
  leaf : ∀ n, L (.leaf n) ≠ none → ∃ kind : PtKind, (kind, n) ∈ V
  pt : ∀ i, L (.pt i) ≠ none ↔ ∃ kind : PtKind, (kind, 512 + i) ∈ T
  accounts : Accounts A 3 V T (own.handed m.world) m.space

theorem Built.mono {S S' : Nat → Prop} (h : Built own S L m) (hS : ∀ va, S va → S' va) : Built own S' L m :=
  { h with
    within :=
      { leaf := fun n hn => (h.within.leaf n hn).imp fun va hva => ⟨hS va hva.1, hva.2⟩
        pt := fun i hi => (h.within.pt i hi).imp fun va hva => ⟨hS va hva.1, hva.2⟩ } }

theorem buildRoot_yields (hA : Feasible A) (hsupply : own.Supplies (framesFor A)) (h : Opened own A 0 m)
    (htemplate : validateTemplate template = .ok ()) :
    Yields (buildRoot P template) m fun pd m' => ∃ L pdNode, pdNode.frame = pd ∧ Progress own A ∅ ∅ pdNode L m' := by
  refine ((buildRoot_opened hA hsupply h htemplate).and_returns (buildRoot_returns (S := fun _ => False) h.valid)).mono
    fun pd m' hbuilt => ?_
  obtain ⟨hopened, L, node, hbuilt, hpd, hframe⟩ := hbuilt
  refine ⟨L, node, hframe, hbuilt.mono fun _ h => h.elim, hpd, fun n hn => ?_, fun i => ⟨fun hi => ?_, fun hi => ?_⟩,
    hopened.accounts⟩
  · obtain ⟨_, hfalse, -⟩ := hbuilt.within.leaf n hn
    exact hfalse.elim
  · obtain ⟨_, hfalse, -⟩ := hbuilt.within.pt i hi
    exact hfalse.elim
  · obtain ⟨_, hmem⟩ := hi
    exact absurd hmem (Finset.notMem_empty _)

/-! ### One page -/

section Page

variable {kind : PtKind} {va : Nat}

theorem Feasible.second_gib (hA : Feasible A) (hx : (kind, va / 2 ^ 12) ∈ A) : va / 2 ^ 30 = 1 := by
  have hgib := hA.gib _ hx
  simp only at hgib
  omega

theorem region_eq (hgib : va / 2 ^ 30 = 1) : va / 2 ^ 12 / 512 = 512 + pdIndex va := by
  rw [pdIndex_eq]
  omega

/-- Page tables of different kinds serve different regions. -/
theorem Feasible.table_kind (hA : Feasible A) (hT : T ⊆ A.image tableOf) (hx : (kind, va / 2 ^ 12) ∈ A) {kind' : PtKind}
    (hmem : (kind', va / 2 ^ 12 / 512) ∈ T) : kind' = kind := by
  obtain ⟨y, hy, htable⟩ := Finset.mem_image.mp (hT hmem)
  obtain ⟨hkind, hregion⟩ := Prod.mk.inj htable
  exact hkind.symm.trans (hA.apart y hy _ hx hregion)

theorem ensurePt_accounts (hA : Feasible A) (hsupply : own.Supplies (framesFor A)) (h : Progress own A V T pdNode L m)
    (hx : (kind, va / 2 ^ 12) ∈ A) :
    Yields (ensurePt P pdNode.frame va kind template) m fun _ m' =>
      Accounts A 3 V (insert (tableOf (kind, va / 2 ^ 12)) T) (own.handed m'.world) m'.space := by
  have hgib := hA.second_gib hx
  have hregion := region_eq hgib
  have hindex := (index_bounds va).1
  have hparent := h.built.handed _ _ h.pd
  refine ((readEntry_yields hsupply h.built.valid hparent hindex).and_returns
    (readEntry_child h.built hindex rfl h.pd)).bind fun cur m₁ hread => ?_
  obtain ⟨⟨hspace, -, hedit⟩, hbuilt, hsome, hnone⟩ := hread
  have haccounts : Accounts A 3 V T (own.handed m₁.world) m₁.space := by
    rw [hspace, hedit.handed]
    exact h.accounts
  refine Act.Ensures.ite (fun hpresent => ?_) fun habsent => ?_
  · obtain ⟨node, hnode, rfl⟩ := hsome hpresent
    have hgood := hbuilt.represents.good _ node hnode
    have hhanded := hbuilt.handed _ node hnode
    have haddr : node.value &&& pteAddr = node.frame := hgood.addr_value
    have hsmall : node.value &&& ptePs = 0 := and_two_pow_eq_zero hgood.isLink_value.2
    have hdomain := haccounts.domain _ hhanded
    refine Act.Ensures.get_bind (Yields.guard (not_not.mpr hsmall) ?_)
    rw [haddr]
    refine Yields.guard hdomain.1 (Yields.guard (not_not.mpr hdomain.2.1) (Yields.guard (Nat.not_le.mpr hdomain.2.2) ?_))
    refine Yields.guard (not_not.mpr (haccounts.contains hhanded)) ?_
    have hmem : tableOf (kind, va / 2 ^ 12) ∈ T := by
      obtain ⟨kind', hmem⟩ := (h.pt (pdIndex va)).mp (by rw [hnode]; exact Option.some_ne_none _)
      rw [← hregion] at hmem
      rwa [tableOf, ← hA.table_kind h.accounts.tables hx hmem]
    rw [Finset.insert_eq_of_mem hmem]
    exact haccounts
  · have hnew : tableOf (kind, va / 2 ^ 12) ∉ T := fun hmem => by
      rw [tableOf, hregion] at hmem
      exact (h.pt (pdIndex va)).mpr ⟨kind, hmem⟩ (hnone habsent)
    have htable := Finset.mem_image_of_mem tableOf hx
    have hbudget := haccounts.pts_lt hA htable hnew
    refine Act.Ensures.get_bind (Yields.guard ?_ (Yields.guard ?_ ?_))
    · rintro ⟨rfl, hfull⟩
      exact Nat.not_lt.mpr hfull hbudget
    · rintro ⟨rfl, hfull⟩
      exact Nat.not_lt.mpr hfull hbudget
    refine (haccounts.takeFrame hA hsupply hbuilt.valid (haccounts.room_pt htable hnew)).bind fun pt m₂ htook => ?_
    obtain ⟨hspace₂, htook⟩ := htook
    have hadded := haccounts.addPt htable hnew htook.domain
    rw [← hspace₂, ← htook.handed] at hadded
    let tabled : Machine ω := { m₂ with space := { m₂.space with tablePages := m₂.space.tablePages + 1 } }
    let counted : Machine ω := { m₂ with space := kind.countPt m₂.space }
    refine Act.Ensures.bind (Q := fun _ m' => m' = tabled) rfl fun _ m₃ hm₃ => ?_
    subst hm₃
    refine Act.Ensures.bind (Q := fun _ m' => m' = counted) ?_ fun _ m₄ hm₄ => ?_
    · cases kind <;> rfl
    subst hm₄
    have hmem : pdNode.frame ∈ own.handed counted.world :=
      (mem_cons_of_handed htook.handed).2 _ (hbuilt.handed _ _ h.pd)
    refine (writeNew_yields (m := counted) hsupply htook.valid hmem hindex htook.domain tableFlags_known).bind
      fun _ m₅ hwrite => ?_
    obtain ⟨hspace₅, hedit₅⟩ := hwrite
    refine Act.Ensures.pure ?_
    rw [hspace₅, hedit₅.handed]
    exact hadded

theorem ensurePt_yields (hA : Feasible A) (hsupply : own.Supplies (framesFor A)) (h : Progress own A V T pdNode L m)
    (hx : (kind, va / 2 ^ 12) ∈ A) :
    Yields (ensurePt P pdNode.frame va kind template) m fun pt m' => ∃ L' node,
      Progress own A V (insert (tableOf (kind, va / 2 ^ 12)) T) pdNode L' m' ∧
        L' (.pt (pdIndex va)) = some node ∧ node.frame = pt := by
  have hgib := hA.second_gib hx
  have hregion := region_eq hgib
  refine ((ensurePt_accounts hA hsupply h hx).and_returns (ensurePt_returns h.built h.pd hgib ⟨kind, hx⟩)).mono
    fun pt m' hpt => ?_
  obtain ⟨haccounts, L', node, hbuilt, hgains, hnode, hframe⟩ := hpt
  refine ⟨L', node, ⟨hbuilt, hgains.1 _ _ h.pd, fun n hn => ?_, fun i => ?_, haccounts⟩, hnode, hframe⟩
  · rw [hgains.2, List.mem_singleton] at hn
    exact h.leaf n (hn.resolve_left (by simp))
  · rw [hgains.2, List.mem_singleton, h.pt, tableOf, hregion]
    constructor
    · rintro (hi | ⟨kind', hmem⟩)
      · rw [Role.pt.inj hi]
        exact ⟨kind, Finset.mem_insert_self _ _⟩
      · exact ⟨kind', Finset.mem_insert_of_mem hmem⟩
    · rintro ⟨kind', hmem⟩
      rcases Finset.mem_insert.mp hmem with heq | hmem
      · have hi : i = pdIndex va := by
          have := (Prod.mk.inj heq).2
          omega
        exact Or.inl (congrArg Role.pt hi)
      · exact Or.inr ⟨kind', hmem⟩

/-- A page that is aimed at and not there yet can be mapped. -/
theorem mapPage_yields (hA : Feasible A) (hsupply : own.Supplies (framesFor A)) (h : Progress own A V T pdNode L m)
    {fill : Nat → Nat → Vm ω Unit} {flags : Nat} (content : Page) (hx : (kind, va / 2 ^ 12) ∈ A)
    (hnew : (kind, va / 2 ^ 12) ∉ V) (hflags : GoodFlags flags)
    (hfill : ∀ pt f m₁ m₂, pt ∈ own.handed m₁.world → Took own m₁ f zeroPage m₂ →
      Yields (fill pt f) m₂ fun _ m' => m'.space = m₂.space ∧ Linked own m₁ pt (ptIndex va) f flags content m') :
    Yields (mapPage P pdNode.frame kind template va fill) m fun _ m' => ∃ L',
      Progress own A (insert (kind, va / 2 ^ 12) V) (insert (tableOf (kind, va / 2 ^ 12)) T) pdNode L' m' := by
  have hgib := hA.second_gib hx
  have hindices : ¬(pml4Index va ≠ 0 ∨ pdptIndex va ≠ 1) := by
    rw [pml4Index_eq, pdptIndex_eq]
    omega
  have hchild : (Role.pt (pdIndex va)).child (ptIndex va) = some (.leaf (va / 2 ^ 12)) := by
    rw [Role.child, leaf_number hgib]
  refine Yields.guard hindices ((ensurePt_yields hA hsupply h hx).bind fun pt m₁ hpt => ?_)
  obtain ⟨L₁, ptNode, h₁, hnode, rfl⟩ := hpt
  have hptIndex := (index_bounds va).2
  refine ((readEntry_yields hsupply h₁.built.valid (h₁.built.handed _ _ hnode) hptIndex).and_returns
    (readEntry_child h₁.built hptIndex hchild hnode)).bind fun cur m₂ hread => ?_
  obtain ⟨⟨hspace, -, hedit⟩, h₂, hsome, hnone⟩ := hread
  have haccounts : Accounts A 3 V (insert (tableOf (kind, va / 2 ^ 12)) T) (own.handed m₂.world) m₂.space := by
    rw [hspace, hedit.handed]
    exact h₁.accounts
  have hleaf : L₁ (.leaf (va / 2 ^ 12)) = none := by
    by_contra hsome
    obtain ⟨kind', hmem⟩ := h₁.leaf _ hsome
    have hkind := hA.apart _ (haccounts.aimed hmem) _ hx rfl
    simp only at hkind
    rw [hkind] at hmem
    exact hnew hmem
  have hcur : ¬cur &&& pteP ≠ 0 := fun hpresent => by
    obtain ⟨node, hpresent, -⟩ := hsome hpresent
    rw [hleaf] at hpresent
    cases hpresent
  refine Act.Ensures.get_bind (Yields.guard hcur (Yields.guard (Nat.not_le.mpr (haccounts.pages_lt hA hx hnew)) ?_))
  refine (haccounts.takeFrame hA hsupply h₂.valid (haccounts.room_page hx hnew)).bind fun f m₃ htook => ?_
  obtain ⟨hspace₃, htook⟩ := htook
  have hadded := haccounts.addPage hx hnew htook.domain
  rw [← hspace₃, ← htook.handed] at hadded
  let counted : Machine ω := { m₃ with space := kind.countPage m₃.space }
  refine Act.Ensures.bind (Q := fun _ m' => m' = counted) rfl fun _ m₄ hm₄ => ?_
  subst hm₄
  have htook : Took own m₂ f zeroPage counted := htook.modifySpace (by cases kind <;> rfl)
  refine (hfill _ _ _ _ (h₂.handed _ _ hnode) htook).mono fun _ m' hfilled => ?_
  obtain ⟨hspace', hlinked⟩ := hfilled
  obtain ⟨L', hbuilt, hgains, -⟩ := h₂.linkPage hnode hleaf hgib ⟨kind, hx⟩ hlinked hflags
  refine ⟨L', hbuilt, hgains.1 _ _ h₁.pd, fun n hn => ?_, fun i => ?_, ?_⟩
  · rw [hgains.2, List.mem_singleton] at hn
    rcases hn with hn | hn
    · rw [Role.leaf.inj hn]
      exact ⟨kind, Finset.mem_insert_self _ _⟩
    · exact (h₁.leaf n hn).imp fun _ hmem => Finset.mem_insert_of_mem hmem
  · rw [hgains.2, List.mem_singleton, ← h₁.pt]
    exact or_iff_right (by simp)
  · rw [hspace', hlinked.handed, ← htook.handed]
    exact hadded

end Page

/-! ### Loops -/

/-- The layout has the pages in `V` and the page tables that serve them. -/
abbrev Reached (own : OwnPages P template) (A V : Finset Slot) (pdNode : Node) (L : Layout) (m : Machine ω) : Prop :=
  Progress own A V (V.image tableOf) pdNode L m

theorem eachPage_yields {kind : PtKind} {hi : Nat} {body : Nat → Vm ω Unit}
    (hbody : ∀ L m V va, Reached own A V pdNode L m → (kind, va / 2 ^ 12) ∈ A → (kind, va / 2 ^ 12) ∉ V →
      Yields (body va) m fun _ m' => ∃ L', Reached own A (insert (kind, va / 2 ^ 12) V) pdNode L' m')
    (hhi : hi % page = 0) {turns va : Nat} (hturns : hi ≤ va + turns * page) (haligned : va % page = 0)
    (haimed : run kind va hi ⊆ A) (hnew : Disjoint (run kind va hi) V) (h : Reached own A V pdNode L m) :
    Yields (eachPage hi body turns va) m fun _ m' => ∃ L', Reached own A (run kind va hi ∪ V) pdNode L' m' := by
  induction turns generalizing va L m V with
  | zero =>
      rw [Nat.zero_mul, Nat.add_zero] at hturns
      refine Act.Ensures.ite (fun hmore => absurd hmore (Nat.not_lt.mpr hturns)) fun _ => ⟨L, ?_⟩
      rw [run_empty hturns, Finset.empty_union]
      exact h
  | succ turns ih =>
      refine Act.Ensures.ite (fun hmore => ?_) fun hend => ⟨L, ?_⟩
      · have hrun : run kind va hi = insert (kind, va / 2 ^ 12) (run kind (va + page) hi) := run_succ haligned hhi hmore
        have hfirst : (kind, va / 2 ^ 12) ∈ run kind va hi := by
          rw [hrun]
          exact Finset.mem_insert_self _ _
        refine (hbody L m V va h (haimed hfirst) (Finset.disjoint_left.mp hnew hfirst)).bind fun _ m₁ hpage => ?_
        obtain ⟨L₁, h₁⟩ := hpage
        have hrest : run kind (va + page) hi ⊆ run kind va hi := by
          rw [hrun]
          exact Finset.subset_insert _ _
        have hfresh : (kind, va / 2 ^ 12) ∉ run kind (va + page) hi := fun hmem => by
          have hlow : (va + 4096) / 4096 ≤ va / 2 ^ 12 := (mem_run.mp hmem).2.1
          omega
        have hnext : (va + page) % page = 0 := by
          rw [Nat.add_mod_right]
          exact haligned
        rw [Nat.succ_mul] at hturns
        refine (ih (by omega) hnext (hrest.trans haimed) ?_ h₁).mono fun _ m' hreached => ?_
        · exact Finset.disjoint_insert_right.mpr ⟨hfresh, hnew.mono_left hrest⟩
        · rw [hrun, Finset.insert_union, ← Finset.union_insert]
          exact hreached
      · rw [run_empty (Nat.le_of_not_lt hend), Finset.empty_union]
        exact h

theorem mapImagePage_yields (hA : Feasible A) (hsupply : own.Supplies (framesFor A)) {file : List UInt8}
    {seg : UserElf.Segment} (hfile : file.length < u64Bound) (hrange : seg.fileOff + seg.filesz ≤ file.length) {va : Nat}
    (h : Reached own A V pdNode L m) (hx : (.image, va / 2 ^ 12) ∈ A) (hnew : (.image, va / 2 ^ 12) ∉ V) :
    Yields (mapImagePage P pdNode.frame file seg template va) m fun _ m' => ∃ L',
      Reached own A (insert (.image, va / 2 ^ 12) V) pdNode L' m' := by
  simp only [mapImagePage_eq, Reached, Finset.image_insert]
  refine mapPage_yields hA hsupply h (segmentPage file seg va) hx hnew (leafFlags_good seg.flags)
    fun pt f m₁ m₂ hpt htook => ?_
  refine (copyFileBytes_yields hsupply hfile hrange htook).bind fun _ m₃ hcopy => ?_
  obtain ⟨hspace, htook₃⟩ := hcopy
  have hmem := (mem_cons_of_handed htook₃.handed).2 _ hpt
  refine (writeNew_yields hsupply htook₃.valid hmem (index_bounds va).2 htook₃.domain (leafFlags_known _)).mono
    fun _ m' hwrite => ?_
  exact ⟨hwrite.1.trans hspace, htook₃.linked hpt hwrite.2⟩

theorem mapStackPage_yields (hA : Feasible A) (hsupply : own.Supplies (framesFor A)) {va : Nat}
    (h : Reached own A V pdNode L m) (hx : (.stack, va / 2 ^ 12) ∈ A) (hnew : (.stack, va / 2 ^ 12) ∉ V) :
    Yields (mapStackPage P pdNode.frame template va) m fun _ m' => ∃ L',
      Reached own A (insert (.stack, va / 2 ^ 12) V) pdNode L' m' := by
  simp only [mapStackPage_eq, Reached, Finset.image_insert]
  refine mapPage_yields hA hsupply h zeroPage hx hnew stackFlags_good fun pt f m₁ m₂ hpt htook => ?_
  have hmem := (mem_cons_of_handed htook.handed).2 _ hpt
  refine (writeNew_yields hsupply htook.valid hmem (index_bounds va).2 htook.domain stackFlags_known).mono
    fun _ m' hwrite => ?_
  exact ⟨hwrite.1, htook.linked hpt hwrite.2⟩

/-- The segments have their pages for themselves. -/
theorem mapSegments_yields (hA : Feasible A) (hsupply : own.Supplies (framesFor A)) {file : List UInt8}
    {segs : List UserElf.Segment} (hfile : file.length < u64Bound) (hvalid : ∀ s ∈ segs, s.Valid file.length)
    (hapart : segs.Pairwise UserElf.Segment.Apart) (haimed : imageSlots segs ⊆ A) (hnew : Disjoint (imageSlots segs) V)
    (h : Reached own A V pdNode L m) :
    Yields (mapSegments P pdNode.frame file template segs) m fun _ m' => ∃ L',
      Reached own A (imageSlots segs ∪ V) pdNode L' m' := by
  induction segs generalizing L m V with
  | nil =>
      refine ⟨L, ?_⟩
      rw [imageSlots, Finset.empty_union]
      exact h
  | cons seg rest ih =>
      have hseg := hvalid seg List.mem_cons_self
      obtain ⟨haimed, haimedRest⟩ := Finset.union_subset_iff.mp haimed
      obtain ⟨hnew, hnewRest⟩ := Finset.disjoint_union_left.mp hnew
      have hmap : Yields (mapSegment P pdNode.frame file template seg) m fun _ m' => ∃ L',
          Reached own A (run .image seg.mapStart seg.mapEnd ∪ V) pdNode L' m' := by
        refine Yields.guard hseg.writeExecute ?_
        exact eachPage_yields (fun L m V va h hx hnew => mapImagePage_yields hA hsupply hfile hseg.fileRange h hx hnew)
          hseg.end_aligned (pagesIn_enough _ _) hseg.start_aligned haimed hnew h
      refine hmap.bind fun _ m₁ hfirst => ?_
      obtain ⟨L₁, h₁⟩ := hfirst
      have hdisjoint : Disjoint (imageSlots rest) (run .image seg.mapStart seg.mapEnd ∪ V) :=
        Finset.disjoint_union_right.mpr ⟨(disjoint_imageSlots hvalid hapart).symm, hnewRest⟩
      refine (ih (fun s hs => hvalid s (List.mem_cons_of_mem _ hs)) (List.pairwise_cons.mp hapart).2 haimedRest hdisjoint
        h₁).mono fun _ m' hrest => ?_
      rw [imageSlots, Finset.union_comm (run _ _ _), Finset.union_assoc]
      exact hrest

/-! ### The whole construction -/

/-- A space that is empty, as `init`, `reset` and a construction that was undone leave it. -/
structure AddressSpace.Blank (s : AddressSpace) : Prop where
  state : s.state = .empty
  journal : s.journal.count = 0
  zero : s.ownsZero = false
  tablePages : s.tablePages = 0
  pages : s.imagePages = 0 ∧ s.stackPages = 0
  pts : s.imagePts = 0 ∧ s.stackPts = 0

theorem AddressSpace.blank_init (storage : List Nat) : (AddressSpace.init (Journal.init storage)).Blank := by
  constructor <;> simp [AddressSpace.init, Journal.init]

/-- A construction starts with empty accounts. -/
theorem opened_blank (hvalid : own.valid m.world) (hhanded : own.handed m.world = []) (hblank : m.space.Blank)
    (hslots : framesFor A ≤ m.space.journal.frames.length) (state : State) :
    Opened own A 0 { m with space := { m.space with state } } where
  valid := hvalid
  accounts := by
    refine ⟨by decide, Finset.empty_subset _, Finset.empty_subset _, ?_, ?_, hslots, hblank.journal, hblank.tablePages,
      fun kind => ?_, fun kind => ?_⟩
    · rw [hhanded, Journal.live, hblank.journal]
      rfl
    · rw [hhanded]
      exact fun f hf => absurd hf List.not_mem_nil
    · cases kind with
      | image => exact hblank.pages.1
      | stack => exact hblank.pages.2
    · cases kind with
      | image => exact hblank.pts.1
      | stack => exact hblank.pts.2

section Construct

variable {file : List UInt8} {plan : UserElf.Plan}

theorem inner_yields (hA : Feasible (planSlots plan)) (hsupply : own.Supplies (framesFor (planSlots plan)))
    (hfile : file.length < u64Bound) (hvalid : plan.Valid file.length) (haccepted : plan.Accepted)
    (htemplate : validateTemplate template = .ok ()) (h : Opened own (planSlots plan) 0 m) :
    Yields (inner P file plan template) m fun _ m' => ∃ L pdNode,
      Reached own (planSlots plan) (planSlots plan) pdNode L m' := by
  refine (buildRoot_yields hA hsupply h htemplate).bind fun pd m₁ hroot => ?_
  obtain ⟨L₁, pdNode, rfl, h₁⟩ := hroot
  refine (mapSegments_yields hA hsupply hfile hvalid.segments haccepted.apart Finset.subset_union_left
    (Finset.disjoint_empty_right _) h₁).bind fun _ m₂ hsegments => ?_
  obtain ⟨L₂, h₂⟩ := hsegments
  rw [Finset.union_empty] at h₂
  have hdisjoint : Disjoint stackSlots (imageSlots plan.segments) :=
    Finset.disjoint_left.mpr fun x hx hx' => stack_ne (kind_stackSlots hx) (kind_imageSlots hx')
  refine (eachPage_yields (fun L m V va h hx hnew => mapStackPage_yields hA hsupply h hx hnew) (by decide)
    (pagesIn_enough _ _) (by decide) Finset.subset_union_right hdisjoint h₂).mono fun _ m' hstack => ?_
  obtain ⟨L, h⟩ := hstack
  refine ⟨L, pdNode, ?_⟩
  rw [← stackSlots, Finset.union_comm, ← planSlots] at h
  exact h

/-- What the counters of a space say when it is built. -/
structure Counted (plan : UserElf.Plan) (s : AddressSpace) : Prop where
  state : s.state = .ready
  imagePages : s.imagePages = (plan.segments.map UserElf.Segment.pages).sum
  stackPages : s.stackPages = 16
  tablePages : s.tablePages = 3 + (touchedRegions plan.segments).card + 1
  imagePts : s.imagePts = (touchedRegions plan.segments).card
  stackPts : s.stackPts = 1
  journal : s.journal.count = frameBudget plan

/-- The accounts of a complete construction. -/
theorem Accounts.counted {length : Nat} {handed : List Nat} {s : AddressSpace} (hvalid : plan.Valid length)
    (haccepted : plan.Accepted) (h : Accounts (planSlots plan) 3 (planSlots plan) ((planSlots plan).image tableOf) handed s)
    (hstate : s.state = .ready) : Counted plan s := by
  have hpages := card_imageSlots hvalid.segments haccepted.apart
  have htables : ((planSlots plan).image tableOf).card = (touchedRegions plan.segments).card + maxStackPts := by
    rw [card_eq_kinds, tables_image, tables_stack, card_imageTables hvalid, card_stackTables]
  refine ⟨hstate, ?_, ?_, ?_, ?_, ?_, ?_⟩
  · rw [← hpages, ← pages_image]
    exact h.pages .image
  · have hstack := h.pages .stack
    rw [pages_stack, card_stackSlots] at hstack
    exact hstack
  · rw [h.tablePages, htables, Nat.add_assoc]
    rfl
  · rw [← card_imageTables hvalid, ← tables_image]
    exact h.pts .image
  · have hstack := h.pts .stack
    rw [tables_stack, card_stackTables] at hstack
    exact hstack
  · rw [h.count, ← framesFor_planSlots hvalid haccepted, framesFor]

theorem constructPlan_yields (hA : Feasible (planSlots plan)) (hsupply : own.Supplies (framesFor (planSlots plan)))
    (hfile : file.length < u64Bound) (hplan : plan.Valid file.length) (haccepted : plan.Accepted)
    (htemplate : validateTemplate template = .ok ()) (hvalid : own.valid m.world) (hhanded : own.handed m.world = [])
    (hblank : m.space.Blank) (hslots : framesFor (planSlots plan) ≤ m.space.journal.frames.length) :
    Yields (constructPlan P file plan template) m fun _ m' => Counted plan m'.space := by
  have hopened := opened_blank hvalid hhanded hblank hslots .building
  refine Act.Ensures.get_bind (Yields.guard (not_not.mpr hblank.state) (Yields.guard ?_ ?_))
  · rw [hblank.journal, hblank.zero]
    simp
  rw [htemplate]
  refine Act.Ensures.bind (Q := fun _ m' => m' = m) rfl fun _ m₁ hm => ?_
  subst hm
  refine Act.Ensures.bind (Q := fun _ m' => Opened own (planSlots plan) 0 m') hopened fun _ m₂ hopened => ?_
  refine Act.Ensures.bind ((inner_yields hA hsupply hfile hplan haccepted htemplate hopened).catchError
    fun _ _ hfalse => hfalse.elim) fun _ m₃ hbuilt => ?_
  obtain ⟨L, pdNode, h⟩ := hbuilt
  have hcounted := fun s (hs : s.journal = m₃.space.journal ∧ s.tablePages = m₃.space.tablePages ∧
      ∀ kind : PtKind, kind.pages s = kind.pages m₃.space ∧ kind.pts s = kind.pts m₃.space) =>
    Accounts.counted (s := s) hplan haccepted (h.accounts.congr hs.1 hs.2.1 hs.2.2)
  refine hcounted _ ⟨rfl, rfl, fun kind => ?_⟩ rfl
  cases kind <;> exact ⟨rfl, rfl⟩

/-- The budgets are exact: over a provider that hands out the frames of the plan and gives access to them, an
accepted image is built into an empty space, with as many frames as its pages and regions ask for. -/
theorem construct_fits (own : OwnPages P template) (hsupply : own.Supplies limit) (hplan : UserElf.plan file = .ok plan)
    (htemplate : validateTemplate template = .ok ()) (hvalid : own.valid m.world) (hblank : m.space.Blank)
    (hslots : frameBudget plan ≤ m.space.journal.frames.length)
    (hframes : (own.handed m.world).length + frameBudget plan ≤ limit) :
    frameBudget plan ≤ 8229 ∧ ∃ m', construct P file template m = (.ok (), m') ∧ Counted plan m'.space := by
  obtain ⟨e, hheader, htable⟩ := UserElf.plan_eq_ok.mp hplan
  have hvalidPlan := UserElf.plan_valid hplan
  have hA := feasible_planSlots hvalidPlan htable.accepted
  have hbudget := framesFor_planSlots hvalidPlan htable.accepted
  have hfile : file.length < u64Bound := Nat.lt_of_le_of_lt hheader.input (by decide)
  have hhanded : (own.since (own.handed m.world).length).handed m.world = [] := by
    show (own.handed m.world).take _ = []
    rw [Nat.sub_self, List.take_zero]
  rw [← hbudget] at hslots hframes ⊢
  refine ⟨hA.framesFor_le, ?_⟩
  have hyields : Yields (construct P file template) m fun _ m' => Counted plan m'.space := by
    rw [construct, hplan]
    refine Act.Ensures.bind (Q := fun a m' => a = plan ∧ m' = m) ⟨rfl, rfl⟩ fun a m₁ hm => ?_
    obtain ⟨rfl, rfl⟩ := hm
    exact constructPlan_yields hA (hsupply.since hframes) hfile hvalidPlan htable.accepted htemplate
      ⟨hvalid, Nat.le_refl _⟩ hhanded hblank hslots
  obtain ⟨_, m', hrun, hcounted⟩ := hyields.run
  exact ⟨m', hrun, hcounted⟩

end Construct

theorem pool_supplies : poolPages.Supplies ((physTop - poolBase) / page) where
  alloc w hvalid hroom := by
    have hpage : page = 4096 := rfl
    have htop : physTop = 268435456 := rfl
    have hlow : poolBase = 1048576 := rfl
    have haligned : w.next % page = 0 := hvalid.1
    have hlength : ((List.range ((w.next - poolBase) / page)).reverse.map fun i => poolBase + i * page).length <
        (physTop - poolBase) / page := hroom
    rw [List.length_map, List.length_reverse, List.length_range] at hlength
    rw [hpage, htop, hlow] at hlength
    have hnext : w.next < physTop := by
      rw [hpage] at haligned
      omega
    exact ⟨_, _, if_pos hnext⟩
  access w _ f _ := ⟨f, w, rfl⟩

/-- The sample image has two pages in one region. -/
theorem construct_fits_sample :
    ∃ plan m', UserElf.plan UserElf.sampleImage = .ok plan ∧
      construct pool UserElf.sampleImage sampleTemplate sampleMachine = (.ok (), m') ∧ Counted plan m'.space ∧
      m'.space.journal.count = 23 := by
  let seg : UserElf.Segment :=
    { fileOff := 0, filesz := 124, vaddr := UserElf.imageLo, memsz := 8000, flags := 5, byteEnd := 0x40001f40,
      mapStart := UserElf.imageLo, mapEnd := 0x40002000 }
  have hplan : UserElf.plan UserElf.sampleImage = .ok { entry := 0x40000078, segments := [seg] } := by decide +kernel
  have hbudget : frameBudget { entry := 0x40000078, segments := [seg] } = 23 := by decide +kernel
  have hslots : sampleMachine.space.journal.frames.length = 64 := rfl
  have hhanded : (poolPages.handed sampleMachine.world).length = 0 := rfl
  obtain ⟨-, m', hrun, hcounted⟩ := construct_fits (m := sampleMachine) poolPages pool_supplies hplan (by decide)
    ⟨by decide, by decide⟩ (AddressSpace.blank_init _) (by rw [hbudget, hslots]; decide)
    (by rw [hbudget, hhanded]; decide)
  exact ⟨_, m', hplan, hrun, hcounted, hcounted.journal.trans hbudget⟩

end UserVm

end Native
