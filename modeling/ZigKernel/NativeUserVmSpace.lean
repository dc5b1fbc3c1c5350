import ZigKernel.NativeUserElfSound
import ZigKernel.NativeUserVmPages
import ZigKernel.NativeUserVmWalk

/-! The address space that `construct` builds. Every page that is mapped adds its frame, and at times a
page table, to the layout that the memory represents; the lookup is read off the layout at the end. -/

namespace Native

open Zig

namespace UserVm

variable {ω : Type} {P : Provider ω} {template : KernelTemplate} {own : OwnPages P template} {S : Nat → Prop}
  {L : Layout} {m m' m'' : Machine ω}

/-- A page at `va` with these flags and this content. -/
def Layout.Maps (L : Layout) (va flags : Nat) (content : Page) : Prop :=
  va / 2 ^ 30 = 1 ∧ ∃ node, L (.leaf (va / 2 ^ 12)) = some node ∧ node.flags = flags ∧ SameBytes node.bytes content

theorem Layout.Extends.maps {L' : Layout} (h : L.Extends L') {va flags : Nat} {content : Page}
    (hmaps : L.Maps va flags content) : L'.Maps va flags content := by
  obtain ⟨hva, node, hnode, hflags, hbytes⟩ := hmaps
  exact ⟨hva, node, h _ _ hnode, hflags, hbytes⟩

/-- Only pages in `S` are mapped, and only page tables that some of them need are there. -/
structure Layout.Within (L : Layout) (S : Nat → Prop) : Prop where
  leaf : ∀ n, L (.leaf n) ≠ none → ∃ va, S va ∧ va / 2 ^ 12 = n
  pt : ∀ i, L (.pt i) ≠ none → ∃ va, S va ∧ va / 2 ^ 21 = 512 + i

/-- The part of the frame that one more page needs. -/
def Role.Needs (S : Nat → Prop) : Role → Prop
  | .leaf n => ∃ va, S va ∧ va / 2 ^ 12 = n
  | .pt i => ∃ va, S va ∧ va / 2 ^ 21 = 512 + i
  | _ => True

theorem Layout.Within.assign (h : L.Within S) {c : Role} (hc : c.Needs S) (node : Node) : (L.assign c node).Within S := by
  constructor
  · intro n hn
    by_cases heq : .leaf n = c
    · subst heq
      exact hc
    · rw [Layout.assign_of_ne heq] at hn
      exact h.leaf n hn
  · intro i hi
    by_cases heq : .pt i = c
    · subst heq
      exact hc
    · rw [Layout.assign_of_ne heq] at hi
      exact h.pt i hi

/-- The memory represents `L`, whose frames were handed out by the provider, with the root of the space at
its top. -/
structure Built (own : OwnPages P template) (S : Nat → Prop) (L : Layout) (m : Machine ω) : Prop where
  valid : own.valid m.world
  represents : Represents template (own.page m.world) L
  handed : ∀ r node, L r = some node → node.frame ∈ own.handed m.world
  root : ∃ node, L .root = some node ∧ node.frame = m.space.rootPhys
  within : L.Within S

/-! ### Flags -/

/-- Flags of an entry that maps something: present, not large, and outside the address. -/
structure GoodFlags (flags : Nat) : Prop where
  present : flags.testBit Paging.presentBit = true
  small : flags.testBit Paging.largeBit = false
  clear : flags &&& Paging.addrMask = 0
  bounded : flags < 2 ^ 64

theorem tableFlags_good : GoodFlags tableFlags := by
  constructor <;> decide

theorem stackFlags_good : GoodFlags (pteP ||| pteU ||| pteW ||| pteNx) := by
  constructor <;> decide

theorem leafFlags_good (elfFlags : Nat) : GoodFlags (leafFlags elfFlags) := by
  unfold leafFlags
  split_ifs <;> constructor <;> decide

theorem GoodFlags.node {f flags : Nat} (hflags : GoodFlags flags) (haligned : f % page = 0) (htop : f < physTop)
    (content : Page) : Node.Good { frame := f, flags, bytes := content } where
  frame := ⟨haligned, Nat.lt_trans htop (by decide)⟩
  present := hflags.present
  small := hflags.small
  clear := hflags.clear
  bounded := Nat.or_lt_two_pow (Nat.lt_trans htop (by decide)) hflags.bounded

namespace Built

theorem edit (h : Built own S L m) {f : Nat} (he : Edited own m f (own.page m.world f) m') : Built own S L m' where
  valid := he.valid
  represents := h.represents.congr fun r node hr => by
    have hpage := he.page node.frame (h.handed r node hr)
    by_cases hne : node.frame = f
    · rwa [if_pos hne, ← hne] at hpage
    · rwa [if_neg hne] at hpage
  handed r node hr := he.handed ▸ h.handed r node hr
  root := he.rootPhys ▸ h.root
  within := h.within

/-- A frame that was taken, prepared for its part and linked below its parent. -/
theorem link (h : Built own S L m) (content : Page) {p c : Role} {i f flags : Nat} {parent : Node} {bytes : Page}
    (hi : i < 512) (hchild : p.child i = some c) (hp : L p = some parent) (hc : L c = none) (hneeds : c.Needs S)
    (hlinked : Linked own m parent.frame i f flags bytes m') (hflags : GoodFlags flags)
    (htable : c.IsTable → flags = tableFlags)
    (hinitial : SameBytes bytes (Layout.initial template { frame := f, flags, bytes := content } c)) :
    Built own S (L.assign c { frame := f, flags, bytes := content }) m' := by
  obtain ⟨hmem, hlater⟩ := mem_cons_of_handed hlinked.handed
  refine ⟨hlinked.valid, ?_, ?_, ?_, h.within.assign hneeds _⟩
  · refine h.represents.assign hi hchild hp hc (hflags.node hlinked.domain.2.1 hlinked.domain.2.2 content) htable
      hlinked.reserved ?_ hlinked.entered (hlinked.page.trans hinitial) ?_
    · intro r node hr heq
      have hold := h.handed r node hr
      rw [heq] at hold
      exact hlinked.fresh hold
    · intro r node hr hrp
      exact hlinked.other _ (h.handed r node hr) fun heq => hrp (h.represents.private_ r p node parent hr hp heq)
  · intro r node hr
    by_cases hrc : r = c
    · rw [hrc, Layout.assign_self] at hr
      cases hr
      exact hmem
    · rw [Layout.assign_of_ne hrc] at hr
      exact hlater _ (h.handed r node hr)
  · obtain ⟨node, hroot, hframe⟩ := h.root
    exact ⟨node, Layout.extends_assign hc _ _ hroot, hframe.trans hlinked.rootPhys.symm⟩

end Built

/-! ### Page tables -/

theorem index_bounds (va : Nat) : pdIndex va < 512 ∧ ptIndex va < 512 :=
  ⟨Nat.lt_of_le_of_lt Nat.and_le_right (by decide), Nat.lt_of_le_of_lt Nat.and_le_right (by decide)⟩

theorem pdIndex_eq (va : Nat) : pdIndex va = va / 2 ^ 21 % 512 := by
  rw [pdIndex, Nat.shiftRight_eq_div_pow]
  exact Nat.and_two_pow_sub_one_eq_mod _ 9

theorem ptIndex_eq (va : Nat) : ptIndex va = va / 2 ^ 12 % 512 := by
  rw [ptIndex, Nat.shiftRight_eq_div_pow]
  exact Nat.and_two_pow_sub_one_eq_mod _ 9

theorem pdptIndex_eq (va : Nat) : pdptIndex va = va / 2 ^ 30 % 512 := by
  rw [pdptIndex, Nat.shiftRight_eq_div_pow]
  exact Nat.and_two_pow_sub_one_eq_mod _ 9

theorem pml4Index_eq (va : Nat) : pml4Index va = va / 2 ^ 39 % 512 := by
  rw [pml4Index, Nat.shiftRight_eq_div_pow]
  exact Nat.and_two_pow_sub_one_eq_mod _ 9

/-- An address that passes the check in front of each page lies in the second GiB. -/
theorem second_gib {va : Nat} (hva : va < 2 ^ 48) (h : ¬(pml4Index va ≠ 0 ∨ pdptIndex va ≠ 1)) : va / 2 ^ 30 = 1 := by
  rw [pml4Index_eq, pdptIndex_eq] at h
  omega

theorem leaf_number {va : Nat} (h : va / 2 ^ 30 = 1) : 2 ^ 18 + pdIndex va * 512 + ptIndex va = va / 2 ^ 12 := by
  rw [pdIndex_eq, ptIndex_eq]
  omega

theorem and_pteP {cur : Nat} : cur &&& pteP ≠ 0 ↔ cur.testBit Paging.presentBit = true := by
  have hone : cur &&& pteP = cur % 2 := Nat.and_one_is_mod cur
  rw [hone, Paging.presentBit, Nat.testBit_zero, decide_eq_true_eq]
  omega

/-- The read that precedes every link: the parent's entry for a child, present or not. -/
theorem readEntry_child (h : Built own S L m) {p c : Role} {parent : Node} {i : Nat} (hi : i < 512)
    (hchild : p.child i = some c) (hp : L p = some parent) :
    Returns (readEntry P parent.frame i) m fun cur m' => Built own S L m' ∧
      (cur &&& pteP ≠ 0 → ∃ node, L c = some node ∧ cur = node.value) ∧ (¬cur &&& pteP ≠ 0 → L c = none) := by
  refine (readEntry_returns h.valid (h.handed p parent hp)).mono (fun cur m' hread => ?_) (fun _ _ _ => trivial) id
  obtain ⟨rfl, hedit⟩ := hread
  refine ⟨h.edit hedit, fun hpresent => ?_, fun habsent => ?_⟩
  · have hborrowed : ¬(p = .pdpt ∧ i = 0) := by
      rintro ⟨rfl, rfl⟩
      cases hchild
    have htable : p.IsTable := by
      cases p with
      | leaf n => cases hchild
      | _ => trivial
    obtain ⟨c', node, hchild', hc, hentry⟩ := h.represents.child_of_entry hp htable hi hborrowed (and_pteP.mp hpresent)
    rw [hchild] at hchild'
    cases hchild'
    exact ⟨node, hc, hentry⟩
  · by_contra hc
    obtain ⟨node, hnode⟩ := Option.ne_none_iff_exists'.mp hc
    have hentry := h.represents.entry_of_child hp hi hchild hnode
    refine habsent (and_pteP.mpr ?_)
    rw [← entryIn, hentry]
    exact (h.represents.good c node hnode).present_value

/-- `L'` has the parts of `L` and besides them those of `rs`. -/
def Layout.Gains (L : Layout) (rs : List Role) (L' : Layout) : Prop :=
  L.Extends L' ∧ ∀ r, L' r ≠ none ↔ r ∈ rs ∨ L r ≠ none

theorem Layout.gains_assign {r : Role} (h : L r = none) (node : Node) : L.Gains [r] (L.assign r node) := by
  refine ⟨Layout.extends_assign h, fun r' => ?_⟩
  rw [List.mem_singleton]
  by_cases hr : r' = r
  · rw [hr, Layout.assign_self]
    exact iff_of_true (Option.some_ne_none _) (Or.inl rfl)
  · rw [Layout.assign_of_ne hr]
    exact (or_iff_right hr).symm

theorem Layout.gains_self {r : Role} (h : L r ≠ none) : L.Gains [r] L := by
  refine ⟨Layout.Extends.refl L, fun r' => ⟨Or.inr, fun hr' => ?_⟩⟩
  rcases hr' with hr' | hr'
  · rwa [List.mem_singleton.mp hr']
  · exact hr'

/-- `ensurePt` returns the page table for `va`, new or not. -/
theorem ensurePt_returns (h : Built own S L m) {pdNode : Node} (hpd : L .pd = some pdNode) {va : Nat} {kind : PtKind}
    (hva : va / 2 ^ 30 = 1) (hS : S va) :
    Returns (ensurePt P pdNode.frame va kind template) m fun pt m' => ∃ L' node, Built own S L' m' ∧
      L.Gains [.pt (pdIndex va)] L' ∧ L' (.pt (pdIndex va)) = some node ∧ node.frame = pt := by
  have hindex := (index_bounds va).1
  refine (readEntry_child h hindex rfl hpd).bind fun cur m₁ hread => ?_
  obtain ⟨hbuilt, hsome, hnone⟩ := hread
  refine Act.Ensures.ite (fun hpresent => ?_) fun habsent => ?_
  · obtain ⟨node, hnode, rfl⟩ := hsome hpresent
    refine Act.Ensures.get_bind ?_
    iterate 5 refine Act.Ensures.guard (fun _ => trivial) fun _ => ?_
    refine ⟨L, node, hbuilt, Layout.gains_self ?_, hnode, (hbuilt.represents.good _ node hnode).addr_value.symm⟩
    rw [hnode]
    exact Option.some_ne_none _
  · have hpt := hnone habsent
    refine Act.Ensures.get_bind (Act.Ensures.guard (fun _ => trivial) fun _ => Act.Ensures.guard (fun _ => trivial) fun _ => ?_)
    refine (takeFrame_returns hbuilt.valid).bind fun pt m₂ htook => ?_
    refine Act.Ensures.bind (Q := fun _ m' => Took own m₁ pt zeroPage m') (htook.modifySpace rfl) fun _ m₃ htook => ?_
    refine Act.Ensures.bind (Q := fun _ m' => Took own m₁ pt zeroPage m') ?_ fun _ m₄ htook => ?_
    · cases kind <;> exact htook.modifySpace rfl
    · have hparent := hbuilt.handed _ _ hpd
      refine (writeNew_returns htook.valid ((mem_cons_of_handed htook.handed).2 _ hparent)).bind fun _ m₅ hedit => ?_
      have hneeds : (Role.pt (pdIndex va)).Needs S := by
        refine ⟨va, hS, ?_⟩
        rw [pdIndex_eq]
        omega
      have hlink := hbuilt.link zeroPage hindex rfl hpd hpt hneeds (htook.linked hparent hedit)
        tableFlags_good (fun _ => rfl) (SameBytes.refl _)
      exact ⟨_, _, hlink, Layout.gains_assign hpt _, Layout.assign_self .., rfl⟩

/-! ### Pages -/

namespace PtKind

/-- The counter of the pages of a kind. -/
def pages : PtKind → AddressSpace → Nat
  | .image, s => s.imagePages
  | .stack, s => s.stackPages

def maxPages : PtKind → Nat
  | .image => maxImagePages
  | .stack => maxStackPages

def countPage : PtKind → AddressSpace → AddressSpace
  | .image, s => { s with imagePages := s.imagePages + 1 }
  | .stack, s => { s with stackPages := s.stackPages + 1 }

end PtKind

/-- What the bodies of the two page loops have in common; `fill` is what they do with the frame. -/
def mapPage (P : Provider ω) (pd : Nat) (kind : PtKind) (template : KernelTemplate) (va : Nat)
    (fill : (pt frame : Nat) → Vm ω Unit) : Vm ω Unit :=
  if pml4Index va ≠ 0 ∨ pdptIndex va ≠ 1 then Act.fail (.elf .imageOutOfRange)
  else do
    let pt ← ensurePt P pd va kind template
    let cur ← readEntry P pt (ptIndex va)
    let m ← Act.get
    if cur &&& pteP ≠ 0 then Act.fail .mappingConflict
    else if kind.pages m.space ≥ kind.maxPages then Act.fail .budgetExceeded
    else do
      let frame ← takeFrame P template
      modifySpace kind.countPage
      fill pt frame

theorem mapImagePage_eq (pd : Nat) (file : List UInt8) (seg : UserElf.Segment) (va : Nat) :
    mapImagePage P pd file seg template va = mapPage P pd .image template va fun pt frame =>
      copyFileBytes P frame file seg va >>= fun _ => writeNew P pt (ptIndex va) frame (leafFlags seg.flags) := rfl

theorem mapStackPage_eq (pd va : Nat) :
    mapStackPage P pd template va = mapPage P pd .stack template va fun pt frame =>
      writeNew P pt (ptIndex va) frame (pteP ||| pteU ||| pteW ||| pteNx) := rfl

/-- The last entry of a page: its frame holds the content already. -/
theorem Built.linkPage (h : Built own S L m) {ptNode : Node} {va f flags : Nat} {content : Page}
    (hpt : L (.pt (pdIndex va)) = some ptNode) (hleaf : L (.leaf (va / 2 ^ 12)) = none) (hva : va / 2 ^ 30 = 1) (hS : S va)
    (hlinked : Linked own m ptNode.frame (ptIndex va) f flags content m') (hflags : GoodFlags flags) :
    ∃ L', Built own S L' m' ∧ L.Gains [.leaf (va / 2 ^ 12)] L' ∧ L'.Maps va flags content := by
  have hchild : (Role.pt (pdIndex va)).child (ptIndex va) = some (.leaf (va / 2 ^ 12)) := by
    rw [Role.child, leaf_number hva]
  have hlink := h.link content (index_bounds va).2 hchild hpt hleaf ⟨va, hS, rfl⟩ hlinked hflags
    (fun htable => htable.elim) (SameBytes.refl _)
  exact ⟨_, hlink, Layout.gains_assign hleaf _, hva, _, Layout.assign_self .., rfl, SameBytes.refl _⟩

theorem writeNew_linked (h : Took own m f content m') {pt i flags : Nat} (hpt : pt ∈ own.handed m.world) :
    Returns (writeNew P pt i f flags) m' fun _ m'' => Linked own m pt i f flags content m'' :=
  (writeNew_returns h.valid ((mem_cons_of_handed h.handed).2 _ hpt)).mono (fun _ _ hedit => h.linked hpt hedit)
    (fun _ _ _ => trivial) id

/-- A page is mapped if its frame is filled and entered. -/
theorem mapPage_returns (h : Built own S L m) {pdNode : Node} (hpd : L .pd = some pdNode) {va : Nat} {kind : PtKind}
    {fill : Nat → Nat → Vm ω Unit} {flags : Nat} {content : Page} (hva : va < 2 ^ 48) (hS : S va)
    (hflags : GoodFlags flags)
    (hfill : ∀ pt f m₁ m₂, pt ∈ own.handed m₁.world → Took own m₁ f zeroPage m₂ →
      Returns (fill pt f) m₂ fun _ m' => Linked own m₁ pt (ptIndex va) f flags content m') :
    Returns (mapPage P pdNode.frame kind template va fill) m fun _ m' => ∃ L', Built own S L' m' ∧ L.Extends L' ∧
      L'.Maps va flags content := by
  refine Act.Ensures.guard (fun _ => trivial) fun hindices => ?_
  have hgib := second_gib hva hindices
  refine (ensurePt_returns h hpd hgib hS).bind fun pt m₁ hpt => ?_
  obtain ⟨L₁, ptNode, h₁, hgains, hnode, rfl⟩ := hpt
  have hchild : (Role.pt (pdIndex va)).child (ptIndex va) = some (.leaf (va / 2 ^ 12)) := by
    rw [Role.child, leaf_number hgib]
  refine (readEntry_child h₁ (index_bounds va).2 hchild hnode).bind fun cur m₂ hread => ?_
  obtain ⟨h₂, -, habsent⟩ := hread
  refine Act.Ensures.get_bind (Act.Ensures.guard (fun _ => trivial) fun hcur => Act.Ensures.guard (fun _ => trivial) fun _ => ?_)
  refine (takeFrame_returns h₂.valid).bind fun f m₃ htook => ?_
  refine Act.Ensures.bind (Q := fun _ m' => Took own m₂ f zeroPage m') ?_ fun _ m₄ htook => ?_
  · cases kind <;> exact htook.modifySpace rfl
  refine (hfill _ _ _ _ (h₂.handed _ _ hnode) htook).mono (fun _ m' hlinked => ?_) (fun _ _ _ => trivial) id
  obtain ⟨L', hbuilt, hgains', hmaps⟩ := h₂.linkPage hnode (habsent hcur) hgib hS hlinked hflags
  exact ⟨L', hbuilt, hgains.1.trans hgains'.1, hmaps⟩

theorem mapImagePage_returns (h : Built own S L m) {pdNode : Node} (hpd : L .pd = some pdNode) {va : Nat}
    (hva : va < 2 ^ 48) (hS : S va) (file : List UInt8) (seg : UserElf.Segment) :
    Returns (mapImagePage P pdNode.frame file seg template va) m fun _ m' => ∃ L', Built own S L' m' ∧ L.Extends L' ∧
      L'.Maps va (leafFlags seg.flags) (segmentPage file seg va) := by
  rw [mapImagePage_eq]
  refine mapPage_returns h hpd hva hS (leafFlags_good _) fun pt f m₁ m₂ hpt htook => ?_
  exact (copyFileBytes_took htook).bind fun _ m₃ htook => writeNew_linked htook hpt

theorem mapStackPage_returns (h : Built own S L m) {pdNode : Node} (hpd : L .pd = some pdNode) {va : Nat}
    (hva : va < 2 ^ 48) (hS : S va) :
    Returns (mapStackPage P pdNode.frame template va) m fun _ m' => ∃ L', Built own S L' m' ∧ L.Extends L' ∧
      L'.Maps va (pteP ||| pteU ||| pteW ||| pteNx) zeroPage := by
  rw [mapStackPage_eq]
  exact mapPage_returns h hpd hva hS stackFlags_good fun pt f m₁ m₂ hpt htook => writeNew_linked htook hpt

/-! ### Loops -/

/-- A page loop maps each page from `va` on. -/
theorem eachPage_returns {pdNode : Node} {hi : Nat} {body : Nat → Vm ω Unit} {flags : Nat} {content : Nat → Page}
    (hhi : hi ≤ 2 ^ 48)
    (hbody : ∀ L m va, Built own S L m → L .pd = some pdNode → va < 2 ^ 48 → S va →
      Returns (body va) m fun _ m' => ∃ L', Built own S L' m' ∧ L.Extends L' ∧ L'.Maps va flags (content va))
    {turns va : Nat} (hS : ∀ va', va ≤ va' → va' < hi → S va') (haligned : va % page = 0) (h : Built own S L m)
    (hpd : L .pd = some pdNode) :
    Returns (eachPage hi body turns va) m fun _ m' => ∃ L', Built own S L' m' ∧ L.Extends L' ∧
      ∀ va', va ≤ va' → va' < hi → va' % page = 0 → L'.Maps va' flags (content va') := by
  induction turns generalizing va L m with
  | zero =>
      refine Act.Ensures.ite (fun _ => trivial) fun hend => ?_
      exact ⟨L, h, Layout.Extends.refl L, fun va' hle hlt _ => absurd (Nat.lt_of_le_of_lt hle hlt) hend⟩
  | succ turns ih =>
      refine Act.Ensures.ite (fun hmore => ?_) fun hend => ?_
      · refine (hbody L m va h hpd (by omega) (hS va (Nat.le_refl _) hmore)).bind fun _ m₁ hpage => ?_
        obtain ⟨L₁, h₁, hextends, hmaps⟩ := hpage
        have hnext : (va + page) % page = 0 := by
          rw [Nat.add_mod_right]
          exact haligned
        refine (ih (fun va' hle hlt => hS va' (by omega) hlt) hnext h₁ (hextends _ _ hpd)).mono (fun _ m' hrest => ?_)
          (fun _ _ _ => trivial) id
        obtain ⟨L', h', hextends', hall⟩ := hrest
        refine ⟨L', h', hextends.trans hextends', fun va' hle hlt haligned' => ?_⟩
        by_cases heq : va' = va
        · rw [heq]
          exact hextends'.maps hmaps
        · have hnext : va + page ≤ va' := by
            have hpage : page = 4096 := rfl
            rw [hpage] at haligned haligned' ⊢
            omega
          exact hall va' hnext hlt haligned'
      · exact ⟨L, h, Layout.Extends.refl L, fun va' hle hlt _ => absurd (Nat.lt_of_le_of_lt hle hlt) hend⟩

/-- The pages of a segment are mapped as the segment says. -/
def Layout.MapsSegment (L : Layout) (file : List UInt8) (seg : UserElf.Segment) : Prop :=
  ∀ va, seg.mapStart ≤ va → va < seg.mapEnd → va % page = 0 →
    L.Maps va (leafFlags seg.flags) (segmentPage file seg va)

theorem mapSegments_returns {pdNode : Node} {file : List UInt8} {segs : List UserElf.Segment}
    (hvalid : ∀ s ∈ segs, s.Valid file.length) (hS : ∀ s ∈ segs, ∀ va, s.mapStart ≤ va → va < s.mapEnd → S va)
    (h : Built own S L m) (hpd : L .pd = some pdNode) :
    Returns (mapSegments P pdNode.frame file template segs) m fun _ m' => ∃ L', Built own S L' m' ∧ L.Extends L' ∧
      ∀ s ∈ segs, L'.MapsSegment file s := by
  induction segs generalizing L m with
  | nil => exact ⟨L, h, Layout.Extends.refl L, fun s hs => absurd hs List.not_mem_nil⟩
  | cons seg rest ih =>
      have hseg := hvalid seg List.mem_cons_self
      have hend : seg.mapEnd ≤ 2 ^ 48 := Nat.le_trans hseg.high (by decide)
      have hmap : Returns (mapSegment P pdNode.frame file template seg) m fun _ m' => ∃ L', Built own S L' m' ∧
          L.Extends L' ∧ L'.MapsSegment file seg := by
        refine Act.Ensures.guard (fun _ => trivial) fun _ => ?_
        exact eachPage_returns hend
          (fun L m va h hpd hva hS => mapImagePage_returns h hpd hva hS file seg)
          (hS seg List.mem_cons_self) hseg.start_aligned h hpd
      refine hmap.bind fun _ m₁ hfirst => ?_
      obtain ⟨L₁, h₁, hextends, hmaps⟩ := hfirst
      refine (ih (fun s hs => hvalid s (List.mem_cons_of_mem _ hs)) (fun s hs => hS s (List.mem_cons_of_mem _ hs)) h₁
        (hextends _ _ hpd)).mono (fun _ m' hrest => ?_) (fun _ _ _ => trivial) id
      obtain ⟨L', h', hextends', hall⟩ := hrest
      refine ⟨L', h', hextends.trans hextends', fun s hs => ?_⟩
      rcases List.mem_cons.mp hs with rfl | hs
      · exact fun va hle hlt haligned => hextends'.maps (hmaps va hle hlt haligned)
      · exact hall s hs

/-! ### The root -/

/-- `buildRoot` leaves a layout with the three top tables. -/
theorem buildRoot_returns (hvalid : own.valid m.world) :
    Returns (buildRoot P template) m fun pd m' => ∃ L node, Built own S L m' ∧ L .pd = some node ∧ node.frame = pd := by
  refine (takeFrame_returns hvalid).bind fun pml4 m₁ htook => ?_
  let rootNode : Node := { frame := pml4, flags := tableFlags }
  let L₀ : Layout := Layout.assign (fun _ => none) .root rootNode
  have habsent (r : Role) (hr : r ≠ .root) : L₀ r = none := Layout.assign_of_ne hr _
  have hroot : L₀ .root = some rootNode := Layout.assign_self ..
  refine Act.Ensures.bind (Q := fun _ m' => Built own S L₀ m') ?_ fun _ m₂ h₂ => ?_
  · refine ⟨htook.valid, ?_, fun r node hr => ?_, ⟨rootNode, hroot, rfl⟩, ⟨fun n hn => ?_, fun i hi => ?_⟩⟩
    · exact Represents.root (tableFlags_good.node htook.domain.2.1 htook.domain.2.2 _) rfl htook.reserved htook.page
    · by_cases hrc : r = .root
      · rw [hrc, hroot] at hr
        cases hr
        exact (mem_cons_of_handed htook.handed).1
      · rw [habsent r hrc] at hr
        cases hr
    · exact absurd (habsent _ (by nofun)) hn
    · exact absurd (habsent _ (by nofun)) hi
  refine (takeFrame_returns h₂.valid).bind fun pdpt m₃ htook => ?_
  refine Act.Ensures.bind (Q := fun _ m' => Took own m₂ pdpt zeroPage m') (htook.modifySpace rfl) fun _ m₄ htook => ?_
  have hparent := h₂.handed _ _ hroot
  refine (writeNew_returns htook.valid ((mem_cons_of_handed htook.handed).2 _ hparent)).bind fun _ m₅ hedit => ?_
  have hlinked := htook.linked hparent hedit
  have hborrowed : Returns (writeBorrowedPdpt0 P pdpt template) m₅ fun _ m' =>
      Edited own m₅ pdpt (storeU64 (own.page m₅.world pdpt) 0 template.pdpt0Entry.val) m' := by
    refine Act.Ensures.bind (Q := fun _ m' => m' = m₅) ?_ fun _ m' hm => ?_
    · exact Act.Ensures.lift (fun _ _ => rfl) (fun _ _ => trivial) fun _ => trivial
    · subst hm
      exact writeRaw_returns hlinked.valid (mem_cons_of_handed hlinked.handed).1
  refine hborrowed.bind fun _ m₆ hedit => ?_
  have h₆ := h₂.link zeroPage (c := .pdpt) (by decide) rfl hroot (habsent _ (by nofun)) trivial
    (hlinked.edit hparent hedit) tableFlags_good (fun _ => rfl) (hlinked.page.storeU64 _ _)
  refine Act.Ensures.guard (fun _ => trivial) fun _ => ?_
  refine (takeFrame_returns h₆.valid).bind fun pd m₇ htook => ?_
  refine Act.Ensures.bind (Q := fun _ m' => Took own m₆ pd zeroPage m') (htook.modifySpace rfl) fun _ m₈ htook => ?_
  have hpdpt := Layout.assign_self L₀ .pdpt { frame := pdpt, flags := tableFlags, bytes := zeroPage }
  have hparent := h₆.handed _ _ hpdpt
  refine (writeNew_returns htook.valid ((mem_cons_of_handed htook.handed).2 _ hparent)).bind fun _ m₉ hedit => ?_
  have hpd : L₀.assign .pdpt { frame := pdpt, flags := tableFlags, bytes := zeroPage } .pd = none :=
    (Layout.assign_of_ne (by nofun) _).trans (habsent _ (by nofun))
  have h₉ := h₆.link zeroPage (c := .pd) (by decide) rfl hpdpt hpd trivial (htook.linked hparent hedit)
    tableFlags_good (fun _ => rfl) (SameBytes.refl _)
  exact ⟨_, _, h₉, Layout.assign_self .., rfl⟩

/-! ### The whole construction -/

/-- The pages that a plan and the stack ask for. -/
def Mapped (plan : UserElf.Plan) (va : Nat) : Prop :=
  (∃ seg ∈ plan.segments, seg.mapStart ≤ va ∧ va < seg.mapEnd) ∨ stackLo ≤ va ∧ va < UserVm.stackTop

/-- The pages of the stack are mapped, with zero bytes. -/
def Layout.MapsStack (L : Layout) : Prop :=
  ∀ va, stackLo ≤ va → va < UserVm.stackTop → va % page = 0 → L.Maps va (pteP ||| pteU ||| pteW ||| pteNx) zeroPage

theorem inner_returns (hvalid : own.valid m.world) {file : List UInt8} {plan : UserElf.Plan}
    (hplan : plan.Valid file.length) :
    Returns (inner P file plan template) m fun _ m' => ∃ L, Built own (Mapped plan) L m' ∧
      (∀ seg ∈ plan.segments, L.MapsSegment file seg) ∧ L.MapsStack := by
  refine (buildRoot_returns (S := Mapped plan) hvalid).bind fun pd m₁ hbuilt => ?_
  obtain ⟨L₁, pdNode, h₁, hpd, rfl⟩ := hbuilt
  refine (mapSegments_returns hplan.segments (fun seg hseg va hlo hhi => Or.inl ⟨seg, hseg, hlo, hhi⟩) h₁ hpd).bind
    fun _ m₂ hsegments => ?_
  obtain ⟨L₂, h₂, hextends, hmaps⟩ := hsegments
  refine (eachPage_returns (by decide) (fun L m va h hpd hva hS => mapStackPage_returns h hpd hva hS)
    (fun va hlo hhi => Or.inr ⟨hlo, hhi⟩) (by decide) h₂ (hextends _ _ hpd)).mono (fun _ m' hstack => ?_)
    (fun _ _ _ => trivial) id
  obtain ⟨L, h, hextends', hstack⟩ := hstack
  exact ⟨L, h, fun seg hseg va hlo hhi haligned => hextends'.maps (hmaps seg hseg va hlo hhi haligned), hstack⟩

/-- A call that returns has run `inner` to its end. -/
theorem constructPlan_returns (hvalid : own.valid m.world) {file : List UInt8} {plan : UserElf.Plan}
    (hplan : plan.Valid file.length) :
    Returns (constructPlan P file plan template) m fun _ m' => ∃ L, Built own (Mapped plan) L m' ∧
      (∀ seg ∈ plan.segments, L.MapsSegment file seg) ∧ L.MapsStack := by
  refine Act.Ensures.get_bind (Act.Ensures.guard (fun _ => trivial) fun _ => Act.Ensures.guard (fun _ => trivial) fun _ => ?_)
  refine Act.Ensures.bind (Q := fun _ m' => m' = m) ?_ fun _ m₁ hm => ?_
  · exact Act.Ensures.lift (fun _ _ => rfl) (fun _ _ => trivial) fun _ => trivial
  subst hm
  refine Act.Ensures.bind (Q := fun _ (m' : Machine ω) => own.valid m'.world) hvalid fun _ m₂ hvalid => ?_
  refine Act.Ensures.bind ((inner_returns hvalid hplan).catchError fun err t _ => ?_) fun _ m₃ hbuilt => ?_
  · exact Act.Ensures.bind Act.Ensures.any fun _ t _ => trivial
  · obtain ⟨L, h, hsegments, hstack⟩ := hbuilt
    exact ⟨L, { h with root := h.root }, hsegments, hstack⟩

theorem construct_returns (hvalid : own.valid m.world) {file : List UInt8} :
    Returns (construct P file template) m fun _ m' => ∃ plan L, UserElf.plan file = .ok plan ∧
      Built own (Mapped plan) L m' ∧ (∀ seg ∈ plan.segments, L.MapsSegment file seg) ∧ L.MapsStack := by
  refine Act.Ensures.bind (Q := fun plan m' => UserElf.plan file = .ok plan ∧ m' = m) ?_ fun plan m₁ hplan => ?_
  · exact Act.Ensures.lift (fun plan hplan => ⟨Outcome.mapError_eq_ok.mp hplan, rfl⟩) (fun _ _ => trivial) fun _ => trivial
  obtain ⟨hplan, rfl⟩ := hplan
  refine (constructPlan_returns hvalid (UserElf.plan_valid hplan)).mono (fun _ m' hbuilt => ?_) (fun _ _ _ => trivial) id
  obtain ⟨L, h, hsegments, hstack⟩ := hbuilt
  exact ⟨plan, L, hplan, h, hsegments, hstack⟩

end UserVm

end Native
