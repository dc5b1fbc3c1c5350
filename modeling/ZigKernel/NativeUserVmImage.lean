import ZigKernel.NativeUserVmSpace

/-! What a user program finds in the address space that `construct` returns: the pages of its segments and
its stack, the kernel's first GiB behind the borrowed entry, and nothing else. -/

namespace Native

open Zig

namespace UserVm

variable {ω : Type} {P : Provider ω} {template : KernelTemplate} {own : OwnPages P template} {L : Layout}
  {m m' : Machine ω} {va : Nat}

/-- The entries of the tables in memory. -/
def OwnPages.entry (own : OwnPages P template) (m : Machine ω) : Nat → Nat → Nat := entryIn (own.page m.world)

/-- The lookup of `va` lets user code through at every level and ends at a page with these rights and this
content. After four links it has reached the frame of the page; no other lookup reaches that frame, be it
as a table or as a page. The tables behind the borrowed entry are not followed. -/
structure MapsPage (own : OwnPages P template) (m : Machine ω) (va : Nat) (writable noExecute : Prop) (content : Page) :
    Prop where
  tables : ∀ depth < 3, ∃ e, Paging.entryAt (own.entry m) m.space.rootPhys va depth = some e ∧
    e.testBit Paging.presentBit = true ∧ e.testBit Paging.userBit = true ∧ e.testBit Paging.writableBit = true ∧
    e.testBit Paging.noExecuteBit = false
  leaf : ∃ e, Paging.entryAt (own.entry m) m.space.rootPhys va 3 = some e ∧
    e.testBit Paging.presentBit = true ∧ e.testBit Paging.userBit = true ∧
    (e.testBit Paging.writableBit = true ↔ writable) ∧ (e.testBit Paging.noExecuteBit = true ↔ noExecute)
  frame : ∃ f, Paging.tableAt (own.entry m) m.space.rootPhys va 4 = some f ∧ f ∈ own.handed m.world ∧
    SameBytes (own.page m.world f) content ∧
    ∀ va' < 2 ^ 48, ∀ depth ≤ 4, 2 ^ 30 ≤ va' ∨ depth ≤ 2 →
      Paging.tableAt (own.entry m) m.space.rootPhys va' depth = some f → depth = 4 ∧ va' / page = va / page

/-! ### Rights -/

theorem leafFlags_user (elfFlags : Nat) : (leafFlags elfFlags).testBit Paging.userBit = true := by
  unfold leafFlags
  split_ifs <;> decide

theorem leafFlags_writable (elfFlags : Nat) :
    (leafFlags elfFlags).testBit Paging.writableBit = true ↔ elfFlags &&& UserElf.pfW ≠ 0 := by
  unfold leafFlags
  split_ifs with hw hx
  · exact iff_of_true (by decide) hw
  · exact iff_of_false (by decide) hw
  · exact iff_of_false (by decide) hw

/-- A writable segment is never executable, so the branch order of `leafFlags` loses nothing. -/
theorem leafFlags_noExecute {elfFlags : Nat} (h : ¬(elfFlags &&& UserElf.pfW ≠ 0 ∧ elfFlags &&& UserElf.pfX ≠ 0)) :
    (leafFlags elfFlags).testBit Paging.noExecuteBit = true ↔ elfFlags &&& UserElf.pfX = 0 := by
  unfold leafFlags
  split_ifs with hw hx
  · exact iff_of_true (by decide) (not_not.mp fun hx => h ⟨hw, hx⟩)
  · exact iff_of_false (by decide) hx
  · exact iff_of_true (by decide) (not_not.mp hx)

/-! ### Reading the lookup off the layout -/

namespace Built

variable {S : Nat → Prop} {c : Role} {node : Node} {depth : Nat}

/-- The parts on the way to a part that is played are played. -/
theorem ancestor (h : Built own S L m) (depth up : Nat) (hrole : roleAt va (depth + up) = some c) (hc : L c = some node) :
    ∃ r above, roleAt va depth = some r ∧ L r = some above := by
  induction up generalizing c node with
  | zero => exact ⟨c, node, hrole, hc⟩
  | succ up ih =>
      obtain ⟨p, parent, hp, -, hparent⟩ := h.represents.parent_of_child hrole hc
      exact ih hp hparent

theorem entryAt (h : Built own S L m) (hrole : roleAt va (depth + 1) = some c) (hc : L c = some node) :
    Paging.entryAt (own.entry m) m.space.rootPhys va depth = some node.value := by
  obtain ⟨rootNode, hroot, hframe⟩ := h.root
  rw [← hframe]
  exact h.represents.entryAt_of_roleAt hroot hrole hc

theorem tableAt (h : Built own S L m) (hrole : roleAt va depth = some c) (hc : L c = some node) :
    Paging.tableAt (own.entry m) m.space.rootPhys va depth = some node.frame := by
  obtain ⟨rootNode, hroot, hframe⟩ := h.root
  rw [← hframe]
  exact h.represents.tableAt_of_roleAt hroot hrole hc

/-- Below the first GiB the lookup reads the borrowed entry from the second table. -/
theorem entryAt_borrowed (h : Built own S L m) (hc : L .pdpt = some node) (hva : va < 2 ^ 30) :
    Paging.entryAt (own.entry m) m.space.rootPhys va 1 = some template.pdpt0Entry.val := by
  have h0 : Paging.index 0 va = 0 := by
    rw [Paging.index]
    omega
  have h1 : Paging.index 1 va = 0 := by
    rw [Paging.index]
    omega
  have hrole : roleAt va 1 = some .pdpt := by
    simp only [roleAt, Option.bind_some, h0, Role.child, if_true]
  rw [Paging.entryAt_of_tableAt (h.tableAt hrole hc), h1]
  exact congrArg some (h.represents.entries .pdpt node hc trivial 0 (by decide))

theorem pdpt_of_leaf (h : Built own S L m) (hrole : roleAt va 4 = some c) (hc : L c = some node) (hva : va < 2 ^ 48) :
    ∃ pdptNode, L .pdpt = some pdptNode := by
  obtain ⟨r, above, hrole, hr⟩ := h.ancestor 1 3 hrole hc
  have hat := at_of_roleAt hva hrole
  cases r with
  | pdpt => exact ⟨above, hr⟩
  | root => cases hat
  | _ => cases hat.1

/-- The frame of a page is reached by the lookups of this page only. -/
theorem private_page (h : Built own S L m) {n va' : Nat} {pdptNode : Node} (hnode : L (.leaf n) = some node)
    (hpdpt : L .pdpt = some pdptNode) (hva' : va' < 2 ^ 48) (hdepth : depth ≤ 4) (hown : 2 ^ 30 ≤ va' ∨ depth ≤ 2)
    (htable : Paging.tableAt (own.entry m) m.space.rootPhys va' depth = some node.frame) :
    depth = 4 ∧ va' / 2 ^ 12 = n := by
  by_cases hfollowed : 2 ^ 30 ≤ va' ∨ depth ≤ 1
  · obtain ⟨rootNode, hroot, hframe⟩ := h.root
    rw [← hframe] at htable
    obtain ⟨r, node', hrole, hr, hsame⟩ := h.represents.roleAt_of_tableAt hroot hva' hfollowed hdepth htable
    obtain rfl := h.represents.private_ _ _ _ _ hr hnode hsame
    obtain ⟨hfour, hn, -⟩ := at_of_roleAt hva' hrole
    exact ⟨hfour, hn⟩
  · -- The second table's borrowed entry leads to the template's page directory, which no part of the space is.
    have hborrowed := h.entryAt_borrowed hpdpt (by omega : va' < 2 ^ 30)
    obtain rfl : depth = 2 := by omega
    rw [Paging.entryAt, Option.map_eq_some_iff] at hborrowed
    obtain ⟨table, hone, hentry⟩ := hborrowed
    rw [Paging.tableAt, hone] at htable
    simp only [hentry, Option.ite_none_right_eq_some, Option.some.injEq] at htable
    exact absurd htable.2.symm (h.represents.reserved _ node hnode).2

theorem mapsPage (h : Built own S L m) {flags : Nat} {content : Page} {writable noExecute : Prop}
    (hmaps : L.Maps (va / page * page) flags content) (huser : flags.testBit Paging.userBit = true)
    (hwritable : flags.testBit Paging.writableBit = true ↔ writable)
    (hnoExecute : flags.testBit Paging.noExecuteBit = true ↔ noExecute) :
    MapsPage own m va writable noExecute content := by
  obtain ⟨hgib, node, hnode, rfl, hbytes⟩ := hmaps
  have hpage : page = 4096 := rfl
  rw [hpage] at hgib hnode
  have hleaf : roleAt va 4 = some (.leaf (va / 4096 * 4096 / 2 ^ 12)) := by
    rw [roleAt_leaf (by omega : va / 2 ^ 30 = 1), show va / 4096 * 4096 / 2 ^ 12 = va / 2 ^ 12 by omega]
  have hgood := h.represents.good _ node hnode
  refine ⟨fun depth hdepth => ?_, ⟨node.value, h.entryAt hleaf hnode, hgood.present_value, ?_, ?_, ?_⟩, ?_⟩
  · obtain ⟨up, hup⟩ : ∃ up, depth + 1 + up = 4 := ⟨4 - (depth + 1), by omega⟩
    obtain ⟨r, above, hrole, hr⟩ := h.ancestor (depth + 1) up (hup ▸ hleaf) hnode
    have htable : r.IsTable := by
      cases r with
      | leaf n =>
          have hfour := (at_of_roleAt (by omega) hrole).1
          omega
      | _ => trivial
    have hflags := h.represents.tables r above hr htable
    have habove := h.represents.good r above hr
    refine ⟨above.value, h.entryAt hrole hr, habove.present_value, ?_, ?_, ?_⟩
    · rw [habove.testBit_value (Or.inl (by decide)), hflags]
      decide
    · rw [habove.testBit_value (Or.inl (by decide)), hflags]
      decide
    · rw [habove.testBit_value (Or.inr (by decide)), hflags]
      decide
  · rw [hgood.testBit_value (Or.inl (by decide))]
    exact huser
  · rw [hgood.testBit_value (Or.inl (by decide))]
    exact hwritable
  · rw [hgood.testBit_value (Or.inr (by decide))]
    exact hnoExecute
  · refine ⟨node.frame, h.tableAt hleaf hnode, h.handed _ node hnode, (h.represents.bytes _ node hnode).trans hbytes, ?_⟩
    intro va' hva' depth hdepth hown htable
    obtain ⟨pdptNode, hpdpt⟩ := h.pdpt_of_leaf hleaf hnode (by omega)
    obtain ⟨hfour, hn⟩ := h.private_page hnode hpdpt hva' hdepth hown htable
    exact ⟨hfour, by rw [hpage]; omega⟩

/-- A present entry is on the way to a page that is asked for. -/
theorem mapped_of_present (h : Built own S L m) (hva : 2 ^ 30 ≤ va) (hva' : va < 2 ^ 48) (hdepth : depth ≤ 3)
    (hstack : ∃ stack, S stack ∧ stack / 2 ^ 30 = 1) {e : Nat}
    (he : Paging.entryAt (own.entry m) m.space.rootPhys va depth = some e)
    (hpresent : e.testBit Paging.presentBit = true) :
    ∃ va', S va' ∧ va / 2 ^ (39 - 9 * depth) = va' / 2 ^ (39 - 9 * depth) := by
  obtain ⟨rootNode, hroot, hframe⟩ := h.root
  rw [← hframe] at he
  obtain ⟨c, node, hrole, hc, -⟩ := h.represents.roleAt_of_entryAt hroot hva' hva hdepth he hpresent
  have hsome : L c ≠ none := by
    rw [hc]
    nofun
  have hat := at_of_roleAt hva' hrole
  obtain ⟨stack, hS, hgib⟩ := hstack
  cases c with
  | root => cases hat
  | pdpt =>
      obtain ⟨hone, hlow⟩ := hat
      obtain rfl : depth = 0 := by omega
      exact ⟨stack, hS, by omega⟩
  | pd =>
      obtain ⟨htwo, hlow⟩ := hat
      obtain rfl : depth = 1 := by omega
      exact ⟨stack, hS, by omega⟩
  | pt i =>
      obtain ⟨hthree, -, hlow⟩ := hat
      obtain rfl : depth = 2 := by omega
      obtain ⟨va', hS', hpt⟩ := h.within.pt i hsome
      exact ⟨va', hS', hlow.trans hpt.symm⟩
  | leaf n =>
      obtain ⟨hfour, hlow, -⟩ := hat
      obtain rfl : depth = 3 := by omega
      obtain ⟨va', hS', hn⟩ := h.within.leaf n hsome
      exact ⟨va', hS', hlow.trans hn.symm⟩

end Built

/-! ### A provider with bytes of its own -/

/-- The arena up to the end of the domain. -/
def pool : Provider Arena :=
  { bump with allocPage := fun w => if w.next < physTop then bump.allocPage w else (.error .outOfMemory, w) }

def poolBase : Nat := 0x100000

/-- The frames up to the next one are handed out, and each has its bytes in the arena. -/
def poolPages : OwnPages pool sampleTemplate where
  valid w := w.next % page = 0 ∧ poolBase ≤ w.next
  handed w := (List.range ((w.next - poolBase) / page)).reverse.map fun i => poolBase + i * page
  page w := w.memory
  alloc w f w' hvalid halloc := by
    obtain ⟨haligned, hbase⟩ := hvalid
    have hpage : page = 4096 := rfl
    have hlow : poolBase = 0x100000 := rfl
    have hroot : sampleTemplate.rootPhys.val = 0x1000 := rfl
    have hpd : sampleTemplate.borrowedPd = 0x2000 := by decide
    have hpool : pool.allocPage w = if w.next < physTop then bump.allocPage w else (.error .outOfMemory, w) := rfl
    by_cases hroom : w.next < physTop
    · rw [hpool, if_pos hroom] at halloc
      cases halloc
      rw [hpage] at haligned
      have hlast : poolBase + (w.next - poolBase) / page * page = w.next := by
        rw [hpage]
        omega
      have hcount : (w.next + page - poolBase) / page = (w.next - poolBase) / page + 1 := by
        rw [hpage]
        omega
      have hnext : (w.next + page) % page = 0 ∧ poolBase ≤ w.next + page := by
        rw [hpage]
        omega
      refine ⟨hnext, ?_, ?_, ⟨by omega, haligned, hroom, by omega, by omega⟩, fun g _ => SameBytes.refl _⟩
      · show ((List.range ((w.next + page - poolBase) / page)).reverse.map _) = _
        rw [hcount, List.range_succ, List.reverse_append, List.map_append, List.reverse_singleton, List.map_singleton, hlast,
          List.singleton_append]
      · intro hmem
        obtain ⟨i, hi, heq⟩ := List.mem_map.mp hmem
        rw [List.mem_reverse, List.mem_range, hpage] at hi
        rw [hpage] at heq
        omega
    · rw [hpool, if_neg hroom] at halloc
      cases halloc
  access w f ptr w' hvalid hf haccess := by
    cases haccess
    refine ⟨hvalid, rfl, fun g _ => SameBytes.refl _, SameBytes.refl _, fun bytes => ⟨hvalid, rfl, fun g _ => ?_⟩⟩
    exact SameBytes.refl _

/-! ### The result -/

/-- `construct` builds the address space that the plan of the image describes: its segments, the stack, the
borrowed first GiB, and no present entry besides. -/
theorem construct_builds_plan (own : OwnPages P template) {file : List UInt8} (hvalid : own.valid m.world)
    (hrun : construct P file template m = (.ok (), m')) :
    ∃ plan, UserElf.plan file = .ok plan ∧
      (∀ seg ∈ plan.segments, ∀ va, seg.mapStart ≤ va → va < seg.mapEnd →
        MapsPage own m' va (seg.flags &&& UserElf.pfW ≠ 0) (seg.flags &&& UserElf.pfX = 0)
          (segmentPage file seg (va / page * page))) ∧
      (∀ va, stackLo ≤ va → va < stackLo + 16 * page → MapsPage own m' va True True zeroPage) ∧
      (∀ va < 2 ^ 30, Paging.entryAt (own.entry m') m'.space.rootPhys va 1 = some template.pdpt0Entry.val) ∧
      ∀ va, 2 ^ 30 ≤ va → va < 2 ^ 48 → ∀ depth ≤ 3, ∀ e,
        Paging.entryAt (own.entry m') m'.space.rootPhys va depth = some e → e.testBit Paging.presentBit = true →
          ∃ va', Mapped plan va' ∧ va / 2 ^ (39 - 9 * depth) = va' / 2 ^ (39 - 9 * depth) := by
  obtain ⟨plan, L, hplan, h, hsegments, hstack⟩ := (construct_returns hvalid).of_ok hrun
  have hpage : page = 4096 := rfl
  have hlo : stackLo = 0x7ffee000 := rfl
  have htop : UserVm.stackTop = 0x7fffe000 := rfl
  have hpages : Mapped plan stackLo := Or.inr ⟨Nat.le_refl _, by decide⟩
  refine ⟨plan, hplan, fun seg hseg va hstart hend => ?_, fun va hstart hend => ?_, fun va hva => ?_, ?_⟩
  · have hvalid := (UserElf.plan_valid hplan).segments seg hseg
    have hfirst : seg.mapStart % 4096 = 0 := hvalid.start_aligned
    have hmaps := hsegments seg hseg (va / page * page) (by rw [hpage]; omega) (by rw [hpage]; omega)
      (Nat.mul_mod_left _ _)
    exact h.mapsPage hmaps (leafFlags_user _) (leafFlags_writable _) (leafFlags_noExecute hvalid.writeExecute)
  · rw [hpage] at hend
    have hmaps := hstack (va / page * page) (by rw [hpage]; omega) (by rw [hpage]; omega) (Nat.mul_mod_left _ _)
    exact h.mapsPage hmaps (by decide) (by decide) (by decide)
  · obtain ⟨hgib, node, hnode, -⟩ := hstack stackLo (Nat.le_refl _) (by decide) (by decide)
    obtain ⟨pdptNode, hpdpt⟩ := h.pdpt_of_leaf (roleAt_leaf hgib) hnode (by decide)
    exact h.entryAt_borrowed hpdpt hva
  · intro va hva hva' depth hdepth e he hpresent
    exact h.mapped_of_present hva hva' hdepth ⟨stackLo, hpages, by decide⟩ he hpresent

/-- The second page of the sample image has no bytes of the file. -/
theorem construct_builds_plan_sample :
    let seg : UserElf.Segment :=
      { fileOff := 0, filesz := 124, vaddr := UserElf.imageLo, memsz := 8000, flags := 5, byteEnd := 0x40001f40,
        mapStart := UserElf.imageLo, mapEnd := 0x40002000 }
    ∃ built, construct pool UserElf.sampleImage sampleTemplate sampleMachine = (.ok (), built) ∧
      MapsPage poolPages built 0x40001000 (5 &&& UserElf.pfW ≠ 0) (5 &&& UserElf.pfX = 0)
        (segmentPage UserElf.sampleImage seg 0x40001000) := by
  intro seg
  have hresult : (construct pool UserElf.sampleImage sampleTemplate sampleMachine).1 = .ok () := by decide +kernel
  have hpair {x : Outcome Error Unit × Machine Arena} (h : x.1 = .ok ()) : x = (.ok (), x.2) := Prod.ext h rfl
  have hbuilt := hpair hresult
  have hknown : UserElf.plan UserElf.sampleImage = .ok { entry := 0x40000078, segments := [seg] } := by decide +kernel
  have hvalid : poolPages.valid sampleMachine.world := ⟨by decide, by decide⟩
  obtain ⟨plan, hplan, hsegments, -⟩ := construct_builds_plan poolPages hvalid hbuilt
  rw [hknown] at hplan
  cases hplan
  exact ⟨_, hbuilt, hsegments seg List.mem_cons_self 0x40001000 (by decide) (by decide)⟩

end UserVm

end Native
