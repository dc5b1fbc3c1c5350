import ZigKernel.NativePagingTemplate
import ZigKernel.NativeUserVmImage
import ZigKernel.NativeUserVmUnwind

/-! A user space in the memory of the machine. The lookup in its root sees what the kernel's root sees below the first GiB,
and above it only pages that the page allocator handed out. -/

namespace Native

open Zig

namespace UserVm

open VmProbe (walkVa walkPdpt walkPd walkPt validateFrame)
open Paging (Encodes)

/-! ### The lookup in software -/

/-- The memory holds the tables of the layout, in frames that the lookup accepts. -/
structure Seen (L : Layout) (page : Nat → Page) (load : Nat → Nat) : Prop where
  frames : ∀ r node, L r = some node → validateFrame node.frame = true
  words : ∀ r node, L r = some node → r.IsTable → ∀ i < 512, load (node.frame + 8 * i) = entryIn page node.frame i

section Walk

variable {template : KernelTemplate} {page : Nat → Page} {L : Layout} {load : Nat → Nat} {va depth i : Nat} {r c : Role}
  {rootNode parent node : Node}

/-- The entry of a table. -/
theorem Represents.encodes_table (h : Represents template page L) (hr : L r = some node) (htable : r.IsTable) :
    Encodes node.value { frame := node.frame, large := false, user := true, writable := true, noExecute := false } := by
  have hgood := h.good r node hr
  have hflags := h.tables r node hr htable
  have hencodes := Encodes.of_flags hgood.frame hgood.clear hgood.present (by rw [hflags]; decide)
  rw [hflags] at hencodes
  rw [Node.value, hflags]
  exact hencodes

theorem isTable_of_roleAt (hva : va < 2 ^ 48) (hdepth : depth ≤ 3) (hrole : roleAt va depth = some r) : r.IsTable := by
  have hat := at_of_roleAt hva hrole
  cases r with
  | leaf n =>
      have hfour : depth = 4 := hat.1
      omega
  | _ => trivial

/-- What the lookup reads at a part is absent or leads to the next part. -/
theorem Seen.next (hs : Seen L page load) (h : Represents template page L) (hva : va < 2 ^ 48) (hhigh : 2 ^ 30 ≤ va)
    (hdepth : depth ≤ 3) (hrole : roleAt va depth = some r) (hr : L r = some parent) (hi : Paging.index depth va = i) :
    (load (parent.frame + 8 * i)).testBit Paging.presentBit = false ∨ ∃ c node, roleAt va (depth + 1) = some c ∧
      L c = some node ∧ load (parent.frame + 8 * i) = node.value := by
  subst hi
  rw [hs.words r parent hr (isTable_of_roleAt hva hdepth hrole) _ (index_lt _ _)]
  by_cases hpresent : (entryIn page parent.frame (Paging.index depth va)).testBit Paging.presentBit = true
  · exact Or.inr (h.child_of_present hva (Or.inl hhigh) hdepth hrole hr hpresent)
  · exact Or.inl (Bool.eq_false_iff.mpr hpresent)

theorem Seen.link (hs : Seen L page load) (h : Represents template page L) (hr : L r = some parent)
    (hchild : r.child (Paging.index depth va) = some c) (hc : L c = some node) :
    load (parent.frame + 8 * Paging.index depth va) = node.value := by
  have htable : r.IsTable := by
    cases r with
    | leaf n => cases hchild
    | _ => trivial
  rw [hs.words r parent hr htable _ (index_lt _ _)]
  exact h.entry_of_child hr (index_lt _ _) hchild hc

/-- The indices of the four tables. -/
theorem index_eq (va : Nat) : Paging.index 0 va = pml4Index va ∧ Paging.index 1 va = pdptIndex va ∧
    Paging.index 2 va = pdIndex va ∧ Paging.index 3 va = ptIndex va :=
  ⟨(pml4Index_eq va).symm, (pdptIndex_eq va).symm, (pdIndex_eq va).symm, (ptIndex_eq va).symm⟩

/-- The parts above a page of the second GiB. -/
theorem roleAt_tables (hva : va / 2 ^ 30 = 1) : roleAt va 1 = some .pdpt ∧ roleAt va 2 = some .pd ∧
    roleAt va 3 = some (.pt (pdIndex va)) := by
  have h0 : Paging.index 0 va = 0 := by
    rw [Paging.index]
    omega
  have h1 : Paging.index 1 va = 1 := by
    rw [Paging.index]
    omega
  have hpdpt : roleAt va 1 = some .pdpt := by
    simp only [roleAt, Option.bind_some, h0, Role.child, if_true]
  have hpd : roleAt va 2 = some .pd := by
    rw [roleAt, hpdpt, Option.bind_some, h1]
    rfl
  refine ⟨hpdpt, hpd, ?_⟩
  rw [roleAt, hpd, Option.bind_some, (index_eq va).2.2.1]
  rfl

/-- Behind the tables the rights of a page are those of its entry. -/
theorem Seen.walk_leaf (hs : Seen L page load) (h : Represents template page L) (hroot : L .root = some rootNode)
    (hva : va / 2 ^ 30 = 1) (hleaf : L (.leaf (va / 2 ^ 12)) = some node) (hlocal : node.flags.testBit Paging.globalBit = false) :
    ∃ ptNode, L (.pt (pdIndex va)) = some ptNode ∧ walkVa load va rootNode.frame =
      { present := true, phys := node.frame, u := node.flags.testBit Paging.userBit, w := node.flags.testBit Paging.writableBit
        nx := node.flags.testBit Paging.noExecuteBit, raw := node.value, ptPhys := ptNode.frame, ptIndex := ptIndex va } := by
  have hgood := h.good _ node hleaf
  have hencodes : Encodes node.value _ := Encodes.of_flags hgood.frame hgood.clear hgood.present hlocal
  obtain ⟨hrole₁, hrole₂, hrole₃⟩ := roleAt_tables hva
  obtain ⟨h0, h1, h2, h3⟩ := index_eq va
  obtain ⟨r, pt, hr, hchild₃, hpt⟩ := h.parent_of_child (roleAt_leaf hva) hleaf
  obtain rfl := Option.some.inj (hrole₃.symm.trans hr)
  obtain ⟨r, pd, hr, hchild₂, hpd⟩ := h.parent_of_child hrole₃ hpt
  obtain rfl := Option.some.inj (hrole₂.symm.trans hr)
  obtain ⟨r, pdpt, hr, hchild₁, hpdpt⟩ := h.parent_of_child hrole₂ hpd
  obtain rfl := Option.some.inj (hrole₁.symm.trans hr)
  obtain ⟨r, top, hr, hchild₀, htop⟩ := h.parent_of_child hrole₁ hpdpt
  cases hr
  rw [hroot] at htop
  cases htop
  have hload₀ := hs.link h hroot hchild₀ hpdpt
  have hload₁ := hs.link h hpdpt hchild₁ hpd
  have hload₂ := hs.link h hpd hchild₂ hpt
  have hload₃ := hs.link h hpt hchild₃ hleaf
  rw [h0] at hload₀
  rw [h1] at hload₁
  rw [h2] at hload₂
  rw [h3] at hload₃
  refine ⟨pt, hpt, ?_⟩
  calc
    walkVa load va rootNode.frame
      = walkPdpt load va pdpt.frame _ := VmProbe.walkVa_link (hs.frames _ _ hroot) (h.encodes_table hpdpt trivial) hload₀ rfl
    _ = walkPd load va pd.frame _ := VmProbe.walkPdpt_link (hs.frames _ _ hpdpt) (h.encodes_table hpd trivial) hload₁ rfl
    _ = walkPt load va pt.frame _ := VmProbe.walkPd_link (hs.frames _ _ hpd) (h.encodes_table hpt trivial) hload₂ rfl
    _ = _ := VmProbe.walkPt_page (hs.frames _ _ hpt) hencodes hload₃
    _ = _ := by simp [VmProbe.Rights.leaf, VmProbe.Rights.through]

/-- The lookup ends at a part of the layout only. -/
theorem Seen.leaf_of_present (hs : Seen L page load) (h : Represents template page L) (hroot : L .root = some rootNode)
    (hva : va < 2 ^ 48) (hhigh : 2 ^ 30 ≤ va) (hpresent : (walkVa load va rootNode.frame).present = true) :
    va / 2 ^ 30 = 1 ∧ L (.leaf (va / 2 ^ 12)) ≠ none := by
  obtain ⟨h0, h1, h2, h3⟩ := index_eq va
  rcases hs.next h hva hhigh (by decide) rfl hroot h0 with habsent | ⟨c₁, pdpt, hrole₁, hpdpt, hload₀⟩
  · rw [VmProbe.walkVa_absent rfl habsent] at hpresent
    cases hpresent
  have htable₁ := h.encodes_table hpdpt (isTable_of_roleAt hva (by decide) hrole₁)
  rw [VmProbe.walkVa_link (hs.frames _ _ hroot) htable₁ hload₀ rfl] at hpresent
  rcases hs.next h hva hhigh (by decide) hrole₁ hpdpt h1 with habsent | ⟨c₂, pd, hrole₂, hpd, hload₁⟩
  · rw [VmProbe.walkPdpt_absent rfl habsent] at hpresent
    cases hpresent
  have htable₂ := h.encodes_table hpd (isTable_of_roleAt hva (by decide) hrole₂)
  rw [VmProbe.walkPdpt_link (hs.frames _ _ hpdpt) htable₂ hload₁ rfl] at hpresent
  rcases hs.next h hva hhigh (by decide) hrole₂ hpd h2 with habsent | ⟨c₃, pt, hrole₃, hpt, hload₂⟩
  · rw [VmProbe.walkPd_absent rfl habsent] at hpresent
    cases hpresent
  have htable₃ := h.encodes_table hpt (isTable_of_roleAt hva (by decide) hrole₃)
  rw [VmProbe.walkPd_link (hs.frames _ _ hpd) htable₃ hload₂ rfl] at hpresent
  rcases hs.next h hva hhigh (by decide) hrole₃ hpt h3 with habsent | ⟨c₄, node, hrole₄, hleaf, -⟩
  · rw [VmProbe.walkPt_absent rfl habsent] at hpresent
    cases hpresent
  have hat := at_of_roleAt hva hrole₄
  cases c₄ with
  | leaf n =>
      obtain ⟨-, rfl, hgib⟩ := hat
      rw [hleaf]
      exact ⟨hgib, Option.some_ne_none _⟩
  | root => cases hat
  | _ => cases hat.1

/-- Below the first GiB the lookup goes on in the borrowed directory, with the rights of the kernel. -/
theorem Seen.walk_borrowed (hs : Seen L page load) (h : Represents template page L) (hroot : L .root = some rootNode)
    {pdptNode : Node} (hpdpt : L .pdpt = some pdptNode) {pd : Nat}
    (hentry : Encodes template.pdpt0Entry.val (KernelPaging.entry pd false true false)) (hva : va < 2 ^ 30) :
    walkVa load va rootNode.frame = walkPd load va pd KernelPaging.kernelRights := by
  obtain ⟨hfirst, hsecond⟩ := KernelPaging.index_low hva
  obtain ⟨h0, -⟩ := index_eq va
  have hload₀ : load (rootNode.frame + 8 * Paging.index 0 va) = pdptNode.value :=
    hs.link h hroot (by rw [h0, hfirst]; rfl) hpdpt
  have hload₁ : load (pdptNode.frame + 8 * pdptIndex va) = template.pdpt0Entry.val := by
    rw [hsecond, hs.words _ _ hpdpt trivial 0 (by decide)]
    exact h.entries .pdpt pdptNode hpdpt trivial 0 (by decide)
  rw [h0] at hload₀
  rw [VmProbe.walkVa_link (hs.frames _ _ hroot) (h.encodes_table hpdpt trivial) hload₀ rfl]
  exact VmProbe.walkPdpt_link (hs.frames _ _ hpdpt) hentry hload₁ rfl

end Walk

end UserVm

namespace UserVmPmm

open UserVm (KernelTemplate Layout Represents Built Role Node OwnPages SameBytes loadU64 roleAt entryIn)
open KernelPaging (Placed Maps Phys entry kernelRights)
open Paging (Encodes)

/-! ### The pages of the adapter -/

section Pages

variable {info : BootInfo} {pmm₀ : Pmm} {held₀ live : List Nat} {h : Host} {template : KernelTemplate}

theorem pageBytes_owned {f ptr : Nat} {h' : Host} (hrun : (provider native).pageBytes f h = (.ok ptr, h')) :
    ptr = f ∧ h' = h ∧ f ∈ h.adapter.live := by
  simp only [provider, Prod.mk.injEq] at hrun
  obtain ⟨hbytes, rfl⟩ := hrun
  rw [Host.pageBytes] at hbytes
  by_cases howns : h.adapter.owns f = true
  · simp only [native, howns, not_true, if_false] at hbytes
    split_ifs at hbytes
    cases hbytes
    exact ⟨rfl, rfl, List.contains_iff_mem.mp howns⟩
  · rw [if_pos howns] at hbytes
    split_ifs at hbytes

theorem pmmFree_memory (phys : Nat) : (h.pmmFree phys).2.memory = h.memory := by
  rw [Host.pmmFree]
  split <;> rfl

/-- Taking a page writes no page. -/
theorem allocPage_memory : h.allocPage.2.memory = h.memory := by
  unfold Host.allocPage
  split_ifs with hfull
  · rfl
  · rcases h.pmm.allocPage with ⟨_ | p, pmm⟩
    · rfl
    · simp only
      split_ifs
      · rcases hfree : ({ h with pmm } : Host).pmmFree 0 with ⟨_ | _, h'⟩ <;>
          exact (congrArg (fun r => r.2.memory) hfree).symm.trans (pmmFree_memory 0)
      all_goals first | rfl | exact pmmFree_memory p

/-- The adapter hands out pages of the allocator, and no page outside the conventional memory of the map is ever written. -/
def lentPages (info : BootInfo) (pmm₀ : Pmm) (held₀ : List Nat) (memory : Nat → UserVm.Page)
    (hroot : ¬Pmm.Frame info template.rootPhys.val) (hpd : ¬Pmm.Frame info template.borrowedPd) :
    OwnPages (provider native) template where
  valid h := Lent info pmm₀ held₀ h.adapter.live h ∧ ∀ f, ¬Pmm.Frame info f → h.memory f = memory f
  handed h := h.adapter.live.reverse
  page h := h.memory
  alloc h f h' hvalid hrun := by
    have hrun : h.allocPage = (.ok f, h') := hrun
    have hmemory : h'.memory = h.memory := (congrArg (fun r => r.2.memory) hrun).symm.trans allocPage_memory
    rcases hvalid.1.alloc_cases with ⟨e, h'', herror, -⟩ | ⟨p, h'', hok, hl, hzero, hnew, hframe⟩
    · rw [herror] at hrun
      cases hrun
    · rw [hok] at hrun
      cases hrun
      have hlive := hl.adapter
      refine ⟨⟨hlive ▸ hl, fun g hg => ?_⟩, ?_, ?_, ?_, ?_⟩
      · rw [hmemory]
        exact hvalid.2 g hg
      · rw [hlive, List.reverse_append, List.reverse_singleton, List.singleton_append]
      · exact fun hmem => hnew (List.mem_reverse.mp hmem)
      · exact ⟨hzero, hframe.1, hframe.2.1, fun heq => hroot (heq ▸ hframe), fun heq => hpd (heq ▸ hframe)⟩
      · intro g _
        rw [hmemory]
        exact SameBytes.refl _
  access h f ptr h' hvalid hf hrun := by
    obtain ⟨rfl, rfl, howned⟩ := pageBytes_owned hrun
    refine ⟨hvalid, rfl, fun g _ => SameBytes.refl _, SameBytes.refl _, fun bytes => ⟨⟨?_, fun g hg => ?_⟩, rfl, ?_⟩⟩
    · exact { hvalid.1 with }
    · have hne : g ≠ ptr := fun heq => hg (heq ▸ hvalid.1.frame_of_live howned)
      exact (if_neg hne).trans (hvalid.2 g hg)
    · intro g _
      show SameBytes (if g = ptr then bytes else h'.memory g) _
      exact SameBytes.refl _

end Pages

/-! ### The space in the machine -/

/-- The 64-bit word at a physical address. -/
def Host.word (h : Host) (p : Nat) : Nat := loadU64 (h.memory (p / UserVm.page * UserVm.page)) (p % UserVm.page / 8)

theorem Host.word_page (h : Host) {f i : Nat} (hf : f % UserVm.page = 0) (hi : i < 512) :
    h.word (f + 8 * i) = loadU64 (h.memory f) i := by
  have hpage : UserVm.page = 4096 := rfl
  rw [hpage] at hf
  have hbase : (f + 8 * i) / 4096 * 4096 = f := by omega
  have hindex : (f + 8 * i) % 4096 / 8 = i := by omega
  rw [Host.word, hpage, hbase, hindex]

section Machine

variable {info : BootInfo} {s₀ s pmm : Pmm} {calls : List Pmm.Call} {phys : Phys} {kernelBase va : Nat}
  {m : KernelPaging.Machine} {template : KernelTemplate} {file : List UInt8} {plan : UserElf.Plan}
  {storage frames : List Nat} {memory : Nat → UserVm.Page} {built : UserVm.Machine Host} {L : Layout}

/-- Before a space is built nothing is out. -/
theorem lent_fresh (hinit : Pmm.init info s₀ = (.ok (), s)) (hrun : Pmm.Run s calls pmm) :
    Lent info pmm (Pmm.held calls) [] (fresh pmm storage frames memory).world where
  stack := rfl
  pmm := rfl
  sound := Pmm.sound_of_run hinit hrun
  adapter := rfl
  room := Nat.zero_le _
  nonzero := List.not_mem_nil
  zeroed := fun _ he => absurd he List.not_mem_nil

/-- A word outside the arrays of the kernel. -/
theorem load_outside (hp : Placed phys) {f i : Nat} (hf : f % UserVm.page = 0) (hi : i < 512) (hne : ∀ t, f ≠ phys t)
    (other : Nat → Nat) : m.load phys other (f + 8 * i) = other (f + 8 * i) := by
  have hout (t : KernelPaging.Table) : ¬(phys t ≤ f + 8 * i ∧ f + 8 * i < phys t + KernelPaging.page) := by
    have hpage : UserVm.page = 4096 := rfl
    have hpage' : KernelPaging.page = 4096 := rfl
    have haligned := hp.aligned t
    have hapart := hne t
    rw [hpage] at hf
    rw [hpage'] at haligned ⊢
    omega
  rw [KernelPaging.Machine.load, if_neg (hout _), if_neg (hout _), if_neg (hout _), if_neg (hout _)]

/-- What a construction leaves: the space in the memory of the machine, the pages of its plan and nothing else written. -/
structure Standing (info : BootInfo) (phys : Phys) (m : KernelPaging.Machine) (memory : Nat → UserVm.Page) (file : List UInt8)
    (plan : UserElf.Plan) (L : Layout) (template : KernelTemplate) (built : UserVm.Machine Host) : Prop where
  represents : Represents template built.world.memory L
  seen : UserVm.Seen L built.world.memory (m.load phys built.world.word)
  root : ∃ node, L .root = some node ∧ node.frame = built.space.rootPhys
  live : ∀ r node, L r = some node → node.frame ∈ built.world.adapter.live
  frames : ∀ f ∈ built.world.adapter.live, Pmm.Frame info f
  within : L.Within (UserVm.Mapped plan)
  valid : plan.Valid file.length
  segments : ∀ seg ∈ plan.segments, L.MapsSegment file seg
  stack : L.MapsStack
  kept : ∀ f, ¬Pmm.Frame info f → built.world.memory f = memory f

theorem standing_of_construct (hinit : Pmm.init info s₀ = (.ok (), s)) (hrun : Pmm.Run s calls pmm) (hp : Placed phys)
    (harrays : ∀ t, ¬Pmm.Frame info (phys t)) (hroot : template.rootPhys.val = phys .pml4) (hpd : template.borrowedPd = phys .pd)
    (hbuilt : UserVm.construct (provider native) file template (fresh pmm storage frames memory) = (.ok (), built))
    (m : KernelPaging.Machine) :
    ∃ plan L, UserElf.plan file = .ok plan ∧ Standing info phys m memory file plan L template built := by
  have hroot' : ¬Pmm.Frame info template.rootPhys.val := hroot ▸ harrays .pml4
  have hpd' : ¬Pmm.Frame info template.borrowedPd := hpd ▸ harrays .pd
  have hlent : Lent info pmm (Pmm.held calls) [] (fresh pmm storage frames memory).world := lent_fresh hinit hrun
  have hvalid : (lentPages info pmm (Pmm.held calls) memory hroot' hpd').valid (fresh pmm storage frames memory).world :=
    ⟨hlent, fun _ _ => rfl⟩
  obtain ⟨plan, L, hplan, h, hsegments, hstack⟩ := (UserVm.construct_returns hvalid).of_ok hbuilt
  obtain ⟨hl, hkept⟩ := h.valid
  have hlive (r : Role) (node : Node) (hr : L r = some node) : node.frame ∈ built.world.adapter.live :=
    List.mem_reverse.mp (h.handed r node hr)
  refine ⟨plan, L, hplan, h.represents, ⟨fun r node hr => ?_, fun r node hr htable i hi => ?_⟩, h.root, hlive,
    fun f hf => hl.frame_of_live hf, h.within, UserElf.plan_valid hplan, hsegments, hstack, hkept⟩
  · have hframe := hl.frame_of_live (hlive r node hr)
    have hne : node.frame ≠ 0 := fun heq => hl.nonzero (heq ▸ hlive r node hr)
    exact decide_eq_true ⟨hne, hframe.1, hframe.2.1⟩
  · have hframe := hl.frame_of_live (hlive r node hr)
    rw [load_outside hp hframe.1 hi fun t heq => harrays t (heq ▸ hframe)]
    exact Host.word_page _ hframe.1 hi

namespace Standing

variable {template : KernelTemplate} {node : Node} {ro nx : Nat → Prop}

/-- Only the pages of the plan and of the stack are there. -/
theorem mapped_of_leaf (h : Standing info phys m memory file plan L template built) (hleaf : L (.leaf (va / 2 ^ 12)) ≠ none) :
    UserVm.Mapped plan va := by
  have hlo : UserVm.stackLo = 0x7ffee000 := rfl
  have htop : UserVm.stackTop = 0x7fffe000 := rfl
  have hpage : UserElf.page = 4096 := rfl
  obtain ⟨va', hmapped, hsame⟩ := h.within.leaf _ hleaf
  rcases hmapped with ⟨seg, hseg, hstart, hend⟩ | ⟨hstart, hend⟩
  · have hvalid := h.valid.segments seg hseg
    have haligned := hvalid.start_aligned
    have haligned' := hvalid.end_aligned
    rw [hpage] at haligned haligned'
    exact Or.inl ⟨seg, hseg, by omega, by omega⟩
  · exact Or.inr ⟨by omega, by omega⟩

theorem segment_maps (h : Standing info phys m memory file plan L template built) {seg : UserElf.Segment}
    (hseg : seg ∈ plan.segments) (hstart : seg.mapStart ≤ va) (hend : va < seg.mapEnd) :
    L.Maps (va / UserVm.page * UserVm.page) (UserVm.leafFlags seg.flags)
      (UserVm.segmentPage file seg (va / UserVm.page * UserVm.page)) := by
  have hpage : UserVm.page = 4096 := rfl
  have haligned : seg.mapStart % 4096 = 0 := (h.valid.segments seg hseg).start_aligned
  exact h.segments seg hseg _ (by rw [hpage]; omega) (by rw [hpage]; omega) (Nat.mul_mod_left _ _)

theorem stack_maps (h : Standing info phys m memory file plan L template built) (hstart : UserVm.stackLo ≤ va)
    (hend : va < UserVm.stackTop) :
    L.Maps (va / UserVm.page * UserVm.page) (UserVm.pteP ||| UserVm.pteU ||| UserVm.pteW ||| UserVm.pteNx) UserVm.zeroPage := by
  have hpage : UserVm.page = 4096 := rfl
  have hlo : UserVm.stackLo = 0x7ffee000 := rfl
  exact h.stack _ (by rw [hpage]; omega) (by rw [hpage]; omega) (Nat.mul_mod_left _ _)

/-- A page is found as it was mapped. -/
theorem walk_maps (h : Standing info phys m memory file plan L template built) {flags : Nat} {content : UserVm.Page}
    (hmaps : L.Maps (va / UserVm.page * UserVm.page) flags content) (hlocal : flags.testBit Paging.globalBit = false) :
    ∃ node, L (.leaf (va / 2 ^ 12)) = some node ∧ SameBytes (built.world.memory node.frame) content ∧ ∃ raw pt,
      VmProbe.walkVa (m.load phys built.world.word) va built.space.rootPhys =
        { present := true, phys := node.frame, u := flags.testBit Paging.userBit, w := flags.testBit Paging.writableBit
          nx := flags.testBit Paging.noExecuteBit, raw, ptPhys := pt, ptIndex := UserVm.ptIndex va } := by
  have hpage : UserVm.page = 4096 := rfl
  obtain ⟨hgib, node, hnode, rfl, hbytes⟩ := hmaps
  obtain ⟨rootNode, hroot, hframe⟩ := h.root
  rw [hpage] at hgib hnode
  have hnumber : va / 4096 * 4096 / 2 ^ 12 = va / 2 ^ 12 := by omega
  rw [hnumber] at hnode
  obtain ⟨ptNode, -, hwalk⟩ := h.seen.walk_leaf h.represents hroot (by omega) hnode hlocal
  rw [hframe] at hwalk
  exact ⟨node, hnode, (h.represents.bytes _ node hnode).trans hbytes, _, _, hwalk⟩

theorem leafFlags_local (elfFlags : Nat) : (UserVm.leafFlags elfFlags).testBit Paging.globalBit = false := by
  unfold UserVm.leafFlags
  split_ifs <;> decide

/-- A page of the plan or of the stack is a page of the adapter, found through its own entry. -/
theorem walk_mapped (h : Standing info phys m memory file plan L template built) (hmapped : UserVm.Mapped plan va) :
    ∃ node, L (.leaf (va / 2 ^ 12)) = some node ∧
      let w := VmProbe.walkVa (m.load phys built.world.word) va built.space.rootPhys
      w.present = true ∧ w.huge = false ∧ w.phys = node.frame := by
  have hfound {flags : Nat} {content : UserVm.Page} (hmaps : L.Maps (va / UserVm.page * UserVm.page) flags content)
      (hlocal : flags.testBit Paging.globalBit = false) :
      ∃ node, L (.leaf (va / 2 ^ 12)) = some node ∧
        let w := VmProbe.walkVa (m.load phys built.world.word) va built.space.rootPhys
        w.present = true ∧ w.huge = false ∧ w.phys = node.frame := by
    obtain ⟨node, hnode, -, raw, pt, hwalk⟩ := h.walk_maps hmaps hlocal
    refine ⟨node, hnode, ?_⟩
    simp only
    rw [hwalk]
    exact ⟨rfl, rfl, rfl⟩
  rcases hmapped with ⟨seg, hseg, hstart, hend⟩ | ⟨hstart, hend⟩
  · exact hfound (h.segment_maps hseg hstart hend) (leafFlags_local _)
  · exact hfound (h.stack_maps hstart hend) (by decide)

theorem mapped_of_present (h : Standing info phys m memory file plan L template built) (hva : va < 2 ^ 48) (hhigh : 2 ^ 30 ≤ va)
    (hpresent : (VmProbe.walkVa (m.load phys built.world.word) va built.space.rootPhys).present = true) :
    UserVm.Mapped plan va := by
  obtain ⟨rootNode, hroot, hframe⟩ := h.root
  rw [← hframe] at hpresent
  exact h.mapped_of_leaf (h.seen.leaf_of_present h.represents hroot hva hhigh hpresent).2

/-- Below the first GiB the space is the kernel's. -/
theorem walk_kernel (h : Standing info phys m memory file plan L template built) (hp : Placed phys)
    (hk : Maps phys kernelBase ro nx m) (hentry : Encodes template.pdpt0Entry.val (entry (phys .pd) false true false))
    (hva : va < 2 ^ 30) :
    let load := m.load phys built.world.word
    VmProbe.walkVa load va built.space.rootPhys = VmProbe.walkVa load va m.cr3 ∧
      (VmProbe.walkVa load va built.space.rootPhys).u = false := by
  obtain ⟨rootNode, hroot, hframe⟩ := h.root
  obtain ⟨hgib, stackNode, hstack, -⟩ := h.stack UserVm.stackLo (Nat.le_refl _) (by decide) (by decide)
  obtain ⟨pdptNode, hpdpt⟩ : ∃ pdptNode, L .pdpt = some pdptNode := by
    obtain ⟨hrole₁, hrole₂, hrole₃⟩ := UserVm.roleAt_tables hgib
    obtain ⟨r, pt, hr, -, hpt⟩ := h.represents.parent_of_child (UserVm.roleAt_leaf hgib) hstack
    obtain rfl := Option.some.inj (hrole₃.symm.trans hr)
    obtain ⟨r, pd, hr, -, hpd⟩ := h.represents.parent_of_child hrole₃ hpt
    obtain rfl := Option.some.inj (hrole₂.symm.trans hr)
    obtain ⟨r, pdpt, hr, -, hpdpt⟩ := h.represents.parent_of_child hrole₂ hpd
    obtain rfl := Option.some.inj (hrole₁.symm.trans hr)
    exact ⟨pdpt, hpdpt⟩
  simp only
  rw [← hframe, h.seen.walk_borrowed h.represents hroot hpdpt hentry hva, hk.cr3, hk.walk_low hp _ hva]
  exact ⟨rfl, VmProbe.walkPd_user rfl⟩

end Standing

end Machine

/-! ### The probe -/

/-- The test that the probe makes of a page with the rights of a segment. -/
def segmentLeafOk (flags : Nat) (w : VmProbe.WalkResult) : Bool :=
  if flags &&& UserElf.pfW ≠ 0 then VmProbe.rwLeafOk w
  else if flags &&& UserElf.pfX ≠ 0 then VmProbe.rxLeafOk w
  else VmProbe.roLeafOk w

theorem rwLeafOk_leaf {frame flags raw pt i : Nat} (hframe : VmProbe.validateFrame frame = true)
    (huser : flags.testBit Paging.userBit = true) (hwritable : flags.testBit Paging.writableBit = true)
    (hnoExecute : flags.testBit Paging.noExecuteBit = true) :
    VmProbe.rwLeafOk
      { present := true, phys := frame, u := flags.testBit Paging.userBit, w := flags.testBit Paging.writableBit
        nx := flags.testBit Paging.noExecuteBit, raw, ptPhys := pt, ptIndex := i } = true := by
  rw [VmProbe.rwLeafOk, huser, hwritable, hnoExecute, hframe]
  rfl

theorem segmentLeafOk_leaf {frame flags raw pt i : Nat} (hframe : VmProbe.validateFrame frame = true) :
    segmentLeafOk flags
      { present := true, phys := frame, u := (UserVm.leafFlags flags).testBit Paging.userBit
        w := (UserVm.leafFlags flags).testBit Paging.writableBit
        nx := (UserVm.leafFlags flags).testBit Paging.noExecuteBit, raw, ptPhys := pt, ptIndex := i } = true := by
  rw [segmentLeafOk, UserVm.leafFlags]
  split_ifs with hw hx
  · exact rwLeafOk_leaf hframe (by decide) (by decide) (by decide)
  · have hflags : (UserVm.pteP ||| UserVm.pteU).testBit Paging.userBit = true ∧
        (UserVm.pteP ||| UserVm.pteU).testBit Paging.writableBit = false ∧
        (UserVm.pteP ||| UserVm.pteU).testBit Paging.noExecuteBit = false := by decide
    rw [VmProbe.rxLeafOk, hflags.1, hflags.2.1, hflags.2.2, hframe]
    rfl
  · have hflags : (UserVm.pteP ||| UserVm.pteU ||| UserVm.pteNx).testBit Paging.userBit = true ∧
        (UserVm.pteP ||| UserVm.pteU ||| UserVm.pteNx).testBit Paging.writableBit = false ∧
        (UserVm.pteP ||| UserVm.pteU ||| UserVm.pteNx).testBit Paging.noExecuteBit = true := by decide
    rw [VmProbe.roLeafOk, hflags.1, hflags.2.1, hflags.2.2, hframe]
    rfl

section Probe

variable {info : BootInfo} {s₀ s pmm : Pmm} {calls : List Pmm.Call} {phys : Phys} {kernelBase : Nat}
  {m₀ m₁ m₂ m₃ : KernelPaging.Machine} {trace trace' : List KernelPaging.Event} {template : KernelPaging.KernelTemplate}
  {file : List UInt8} {storage frames : List Nat} {memory : Nat → UserVm.Page} {built : UserVm.Machine Host}

/-- The template that the kernel hands out, and the tables from then on. -/
theorem template_run (hp : Placed phys) (haligned : kernelBase % KernelPaging.huge = 0) (hzero : ∀ t i, m₀.tables t i = 0)
    (hkernel : KernelPaging.init phys kernelBase m₀ = .ok m₁) (hbefore : KernelPaging.Run kernelBase m₁ trace m₂)
    (htemplate : KernelPaging.kernelTemplate phys m₂ = .ok template) (hafter : KernelPaging.Run kernelBase m₂ trace' m₃) :
    template.toUser.rootPhys.val = phys .pml4 ∧
      Encodes template.toUser.pdpt0Entry.val (entry (phys .pd) false true false) ∧ ∃ ro nx, Maps phys kernelBase ro nx m₃ := by
  have hmaps := KernelPaging.maps_along hp haligned hzero hkernel hbefore
  rw [KernelPaging.kernelTemplate_run hp hmaps] at htemplate
  rw [← Outcome.ok.inj htemplate]
  exact ⟨KernelPaging.toUser_root hp rfl, KernelPaging.encodes_u64 hmaps.second, _, _,
    KernelPaging.maps_along hp haligned hzero hkernel (hbefore.append hafter)⟩

/-- The probe accepts what `construct` builds: each page of a segment has the rights and the bytes of the segment, each page
of the stack is writable and zero, no page is there twice, and none besides. -/
theorem probe_accepts (hinit : Pmm.init info s₀ = (.ok (), s)) (hrun : Pmm.Run s calls pmm) (hp : Placed phys)
    (harrays : ∀ t, ¬Pmm.Frame info (phys t)) (haligned : kernelBase % KernelPaging.huge = 0)
    (hzero : ∀ t i, m₀.tables t i = 0) (hkernel : KernelPaging.init phys kernelBase m₀ = .ok m₁)
    (hbefore : KernelPaging.Run kernelBase m₁ trace m₂) (htemplate : KernelPaging.kernelTemplate phys m₂ = .ok template)
    (hbuilt : UserVm.construct (provider native) file template.toUser (fresh pmm storage frames memory) = (.ok (), built))
    (hafter : KernelPaging.Run kernelBase m₂ trace' m₃) :
    let walk va := VmProbe.walkVa (m₃.load phys built.world.word) va built.space.rootPhys
    ∃ plan, UserElf.plan file = .ok plan ∧
      (∀ seg ∈ plan.segments, ∀ va, seg.mapStart ≤ va → va < seg.mapEnd → segmentLeafOk seg.flags (walk va) = true ∧
        SameBytes (built.world.memory (walk va).phys) (UserVm.segmentPage file seg (va / UserVm.page * UserVm.page))) ∧
      (∀ va, UserVm.stackLo ≤ va → va < UserVm.stackTop → VmProbe.rwLeafOk (walk va) = true ∧
        SameBytes (built.world.memory (walk va).phys) UserVm.zeroPage) ∧
      ∀ va, 2 ^ 30 ≤ va → va < 2 ^ 48 → ((walk va).present = true ↔ UserVm.Mapped plan va) ∧
        ((walk va).present = true → (walk va).phys ∈ built.world.adapter.live ∧
          ∀ va', 2 ^ 30 ≤ va' → va' < 2 ^ 48 → (walk va').present = true → (walk va').phys = (walk va).phys →
            va' / UserVm.page = va / UserVm.page) := by
  obtain ⟨hroot, hentry, ro, nx, hk⟩ := template_run hp haligned hzero hkernel hbefore htemplate hafter
  obtain ⟨plan, L, hplan, h⟩ := standing_of_construct hinit hrun hp harrays hroot hentry.addr hbuilt m₃
  have hframe {node : Node} {va : Nat} (hnode : L (.leaf va) = some node) : VmProbe.validateFrame node.frame = true :=
    h.seen.frames _ node hnode
  refine ⟨plan, hplan, fun seg hseg va hstart hend => ?_, fun va hstart hend => ?_, fun va hhigh hva => ⟨⟨fun hpresent => ?_,
    fun hmapped => ?_⟩, fun hpresent => ?_⟩⟩
  · obtain ⟨node, hnode, hbytes, raw, pt, hwalk⟩ := h.walk_maps (h.segment_maps hseg hstart hend) (Standing.leafFlags_local _)
    simp only [hwalk]
    exact ⟨segmentLeafOk_leaf (hframe hnode), hbytes⟩
  · obtain ⟨node, hnode, hbytes, raw, pt, hwalk⟩ := h.walk_maps (h.stack_maps hstart hend) (by decide)
    simp only [hwalk]
    exact ⟨rwLeafOk_leaf (hframe hnode) (by decide) (by decide) (by decide), hbytes⟩
  · exact h.mapped_of_present hva hhigh hpresent
  · obtain ⟨node, -, hpresent, -⟩ := h.walk_mapped hmapped
    exact hpresent
  · obtain ⟨node, hnode, -, -, hphys⟩ := h.walk_mapped (h.mapped_of_present hva hhigh hpresent)
    rw [hphys]
    refine ⟨h.live _ node hnode, fun va' hhigh' hva' hpresent' heq => ?_⟩
    obtain ⟨node', hnode', -, -, hphys'⟩ := h.walk_mapped (h.mapped_of_present hva' hhigh' hpresent')
    rw [hphys'] at heq
    exact Role.leaf.inj (h.represents.private_ _ _ node' node hnode' hnode heq)

end Probe

/-- The template of the sample machine. -/
theorem sampleTemplate_run {m : KernelPaging.Machine} (hkernel : KernelPaging.init KernelPaging.samplePhys 0x200000 {} = .ok m) :
    KernelPaging.kernelTemplate KernelPaging.samplePhys m = .ok { rootPhys := 0x210000, pdpt0Entry := 0x212003 } := by
  have hblock : 0x200000 / KernelPaging.huge < 512 := by decide
  have hmaps := KernelPaging.initialized_maps KernelPaging.samplePhys_placed (show 0x200000 % KernelPaging.huge = 0 by decide)
    hblock (m := {}) fun _ _ => rfl
  have htables := KernelPaging.tables_initialized KernelPaging.samplePhys 0x200000 (m := {}) (fun _ _ => rfl) .pdpt 0
  rw [KernelPaging.init_run hblock] at hkernel
  rw [← Outcome.ok.inj hkernel, KernelPaging.kernelTemplate_run KernelPaging.samplePhys_placed hmaps, htables]
  rfl

theorem probe_accepts_sample :
    ∃ m template built, KernelPaging.init KernelPaging.samplePhys 0x200000 {} = .ok m ∧
      KernelPaging.kernelTemplate KernelPaging.samplePhys m = .ok template ∧
      UserVm.construct (provider native) UserElf.sampleImage template.toUser (booted wideMap) = (.ok (), built) ∧
      VmProbe.rwLeafOk (VmProbe.walkVa (m.load KernelPaging.samplePhys built.world.word) 0x7fffd123 built.space.rootPhys) =
        true := by
  have hok : (Pmm.init wideMap {}).1 = .ok () := by decide +kernel
  have hinit : Pmm.init wideMap {} = (.ok (), (Pmm.init wideMap {}).2) := Prod.ext hok rfl
  have harrays (t : KernelPaging.Table) : ¬Pmm.Frame wideMap (KernelPaging.samplePhys t) := fun hframe => by
    have hsound := Pmm.sound_of_run hinit Runs.Run.refl
    have hfree : (Pmm.init wideMap {}).2.isAllocatable (KernelPaging.samplePhys t) = false := by
      cases t <;> decide +kernel
    rw [hsound.isAllocatable_iff.mpr hframe] at hfree
    cases hfree
  obtain ⟨m, hkernel⟩ : ∃ m, KernelPaging.init KernelPaging.samplePhys 0x200000 {} = .ok m :=
    ⟨_, KernelPaging.init_run (by decide)⟩
  have htemplate := sampleTemplate_run hkernel
  have hresult : (UserVm.construct (provider native) UserElf.sampleImage
      (KernelPaging.KernelTemplate.toUser { rootPhys := 0x210000, pdpt0Entry := 0x212003 }) (booted wideMap)).1 = .ok () := by
    decide +kernel
  have hpair {x : Outcome UserVm.Error Unit × UserVm.Machine Host} (h : x.1 = .ok ()) : x = (.ok (), x.2) := Prod.ext h rfl
  have hbuilt := hpair hresult
  rw [booted] at hbuilt ⊢
  obtain ⟨plan, -, -, hstack, -⟩ := probe_accepts hinit Runs.Run.refl KernelPaging.samplePhys_placed harrays
    (show 0x200000 % KernelPaging.huge = 0 by decide) (fun _ _ => rfl) hkernel .refl htemplate hbuilt .refl
  exact ⟨m, _, _, hkernel, htemplate, hbuilt, (hstack 0x7fffd123 (by decide) (by decide)).1⟩

end UserVmPmm

end Native
