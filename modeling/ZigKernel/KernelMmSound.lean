import ZigKernel.KernelMm
import ZigKernel.LangReturns

/-! When the calls of `mm` return. The areas are counted, and none reaches down to address 0. -/

namespace Kernel.Mm

open Zig

/-- One for an area, nothing for a free slot. -/
def weight (slot : Option VmArea) : Nat := if slot.isSome then 1 else 0

structure WellFormed (m : Mm) : Prop where
  area : ∀ i vma, m.vmAreas i = some vma → 0 < vma.start ∧ vma.start ≤ vma.stop
  count : m.vmAreaCount = ∑ i, weight (m.vmAreas i)
  next : 0 < m.nextAnonAddr

variable {m : Mm}

theorem wellFormed_init : WellFormed {} where
  area := fun i vma h => by cases h
  count := (Finset.sum_eq_zero fun _ _ => rfl).symm
  next := by decide

theorem WellFormed.count_le (h : m.WellFormed) : m.vmAreaCount ≤ maxVmAreas := by
  rw [h.count]
  calc ∑ i, weight (m.vmAreas i) ≤ ∑ _i : Fin maxVmAreas, 1 := by
        refine Finset.sum_le_sum fun i _ => ?_
        rw [weight]
        split <;> decide
    _ = maxVmAreas := by rw [Finset.sum_const, Finset.card_univ, Fintype.card_fin, smul_eq_mul, Nat.mul_one]

/-- Nothing is mapped at address 0. -/
theorem WellFormed.findVma_zero (h : m.WellFormed) : m.findVma 0 = none := by
  rw [findVma]
  cases hfind : Table.find? m.vmAreas fun slot => slot.any (VmArea.holds 0) with
  | none => rfl
  | some i =>
      have hany := Table.find?_some hfind
      cases hslot : m.vmAreas i with
      | none =>
          rw [hslot] at hany
          cases hany
      | some vma =>
          rw [hslot, Option.any_some, VmArea.holds, Bool.and_eq_true, decide_eq_true_eq] at hany
          exact absurd (h.area i vma hslot).1 (Nat.not_lt.mpr hany.1)

/-! ### Lengths -/

/-- The length in whole pages. -/
def alignUp (len : Nat) : Nat := (len + pageSize - 1) / pageSize * pageSize

theorem alignUp_lt (len : Nat) : alignUp len < len + pageSize := by
  have hle := Nat.div_mul_le_self (len + pageSize - 1) pageSize
  have hpos : 0 < pageSize := by decide
  rw [alignUp]
  omega

theorem alignLen_of_lt {len : Nat} (h : len + pageSize < u64Bound) : alignLen len = .ok (alignUp len) := by
  have hle : 1 ≤ len + pageSize := Nat.le_trans (by decide) (Nat.le_add_left pageSize len)
  have hand := and_notU64 (a := len + pageSize - 1) (k := 12) (by omega) (by decide)
  rw [alignLen, addU64_of_lt h, Outcome.ok_bind, subU64_of_le hle, Outcome.ok_bind, Outcome.pure_eq]
  exact congrArg Outcome.ok hand

theorem alignLen_of_le {len : Nat} (h : u64Bound ≤ len + pageSize) : alignLen len = .trap := by
  rw [alignLen, addU64_of_le h]
  rfl

/-! ### mmap -/

theorem allocPage_eq (m : Mm) : ∃ pages pageBitmap, m.allocPage = { m with pages, pageBitmap } := by
  unfold allocPage allocPageInner
  by_cases hreserve : m.freeCount ≤ reservePages
  · rw [if_pos hreserve]
    exact ⟨m.pages, m.pageBitmap, rfl⟩
  · rw [if_neg hreserve]
    cases m.nextPage with
    | none => exact ⟨m.pages, m.pageBitmap, rfl⟩
    | some i => exact ⟨_, _, rfl⟩

/-- The pages behind an area do not change the areas. -/
theorem allocPages_eq (n : Nat) (m : Mm) : ∃ pages pageBitmap, allocPages n m = { m with pages, pageBitmap } := by
  induction n generalizing m with
  | zero => exact ⟨m.pages, m.pageBitmap, rfl⟩
  | succ n ih =>
      unfold allocPages
      obtain ⟨pages, bitmap, hpage⟩ := allocPage_eq m
      obtain ⟨pages', bitmap', hrest⟩ := ih { m with pages, pageBitmap := bitmap }
      exact ⟨pages', bitmap', by rw [hpage, hrest]⟩

/-- A new area in a free slot; the pages do not matter. -/
theorem WellFormed.insert (h : m.WellFormed) {slot : Fin maxVmAreas} (hfree : m.vmAreas slot = none) {vma : VmArea}
    (hpos : 0 < vma.start) (hle : vma.start ≤ vma.stop) (pages : Fin maxPages → Page)
    (pageBitmap : Fin (maxPages / 8) → BitVec 8) :
    WellFormed { m with
      vmAreas := Function.update m.vmAreas slot (some vma), vmAreaCount := m.vmAreaCount + 1, pages, pageBitmap } where
  area := fun i vma' hi => by
    dsimp only at hi
    by_cases his : i = slot
    · rw [his, Function.update_self] at hi
      cases hi
      exact ⟨hpos, hle⟩
    · rw [Function.update_of_ne his] at hi
      exact h.area i vma' hi
  count := by
    have hsum := Table.sum_update m.vmAreas weight slot (some vma)
    have hone : weight (some vma) = 1 := rfl
    have hzero : weight none = 0 := rfl
    rw [hfree, hone, hzero, Nat.add_zero] at hsum
    dsimp only
    rw [hsum, h.count]
  next := h.next

/-- A mapping at `mapAddr`: the state stays in order, and there is one if `F` holds. -/
def Mapped (mapAddr : Nat) (F : Prop) (r : Option Nat) (m' : Mm) : Prop :=
  m'.WellFormed ∧ (F ∧ r = some mapAddr ∨ ¬F ∧ r = none)

theorem mapAt_returns (h : m.WellFormed) {mapAddr alignedLen : Nat} (hpos : 0 < mapAddr)
    (hfits : mapAddr + alignedLen < u64Bound) (prot flags : Nat) :
    Act.Returns True (Mapped mapAddr (m.findFreeVmaSlot.isSome = true)) (mapAt mapAddr alignedLen prot flags) m := by
  refine Act.Returns.get_bind ?_
  cases hslot : m.findFreeVmaSlot with
  | none => exact .pure ⟨h, Or.inr ⟨Bool.false_ne_true, rfl⟩⟩
  | some slot =>
      have hfree : m.vmAreas slot = none := Option.isNone_iff_eq_none.mp (Table.find?_some hslot)
      have hcount : m.vmAreaCount + 1 < u64Bound :=
        Nat.lt_of_le_of_lt (Nat.succ_le_succ h.count_le) (by decide)
      dsimp only
      rw [addU64_of_lt hfits]
      apply Act.Returns.run_bind (Act.lift_run _ _)
      apply Act.Returns.modify_bind
      rw [addU64_of_lt hcount]
      apply Act.Returns.run_bind (Act.lift_run _ _)
      refine Act.Returns.modify_bind (Act.Returns.modify_bind (Act.Returns.pure ⟨?_, Or.inl ⟨rfl, rfl⟩⟩))
      obtain ⟨pages, bitmap, hpages⟩ :=
        allocPages_eq (if flags &&& mapAnonymous ≠ 0 then alignedLen / pageSize else 0) _
      rw [hpages]
      exact h.insert hfree hpos (Nat.le_add_right _ _) pages bitmap

/-- No area overlaps the range, and there is a free slot. -/
def Free (m : Mm) (mapAddr alignedLen : Nat) : Prop :=
  m.findVmaOverlap mapAddr (mapAddr + alignedLen) = none ∧ m.findFreeVmaSlot.isSome = true

/-- Where the next mapping goes makes no difference to it. -/
theorem free_next (n mapAddr alignedLen : Nat) : Free { m with nextAnonAddr := n } mapAddr alignedLen = Free m mapAddr alignedLen := by
  simp only [Free, findVmaOverlap, findFreeVmaSlot]

theorem mapFree_returns (h : m.WellFormed) {mapAddr alignedLen : Nat} (hpos : 0 < mapAddr)
    (hfits : mapAddr + alignedLen < u64Bound) (prot flags : Nat) :
    Act.Returns True (Mapped mapAddr (Free m mapAddr alignedLen)) (mapFree mapAddr alignedLen prot flags) m := by
  refine Act.Returns.get_bind ?_
  rw [addU64_of_lt hfits]
  apply Act.Returns.run_bind (Act.lift_run _ _)
  cases hover : m.findVmaOverlap mapAddr (mapAddr + alignedLen) with
  | some i =>
      rw [if_pos (Option.isSome_some)]
      refine .pure ⟨h, Or.inr ⟨fun hfree => ?_, rfl⟩⟩
      rw [Free, hover] at hfree
      cases hfree.1
  | none =>
      rw [if_neg (by decide)]
      refine (mapAt_returns h hpos hfits prot flags).mono fun r m' hmapped => ⟨hmapped.1, ?_⟩
      rw [Free, hover, eq_self, true_and]
      exact hmapped.2

/-- The room that a mapping without an address takes. -/
def room (len : Nat) : Nat := alignUp len + pageSize * 256

theorem takeAnonAddr_returns (len : Nat) :
    Act.Returns (m.nextAnonAddr + room len < u64Bound)
      (fun r m' => r = m.nextAnonAddr ∧ m' = { m with nextAnonAddr := m.nextAnonAddr + room len })
      (takeAnonAddr (alignUp len)) m := by
  refine Act.Returns.get_bind ?_
  by_cases htaken : alignUp len + pageSize * 256 < u64Bound
  · rw [addU64_of_lt htaken]
    apply Act.Returns.run_bind (Act.lift_run _ _)
    refine (Act.Returns.lift_bind (G := True) (fun hfits => ⟨_, addU64_of_lt hfits, ?_⟩) fun hfits => ?_).congr (iff_of_eq (and_true _))
    · exact Act.Returns.modify_bind (.pure ⟨rfl, rfl⟩)
    · exact addU64_of_le (Nat.le_of_not_lt hfits)
  · rw [addU64_of_le (Nat.le_of_not_lt htaken)]
    have hnever : ¬m.nextAnonAddr + room len < u64Bound := fun hfits =>
      htaken (Nat.lt_of_le_of_lt (Nat.le_add_left _ _) hfits)
    exact (Act.Returns.of_trap rfl).congr (iff_of_false id hnever)

/-- A mapping without an address. -/
theorem mmap_anon_returns (h : m.WellFormed) (len prot flags : Nat) :
    Act.Returns (len + pageSize < u64Bound ∧ m.nextAnonAddr + room len < u64Bound)
      (Mapped m.nextAnonAddr (Free m m.nextAnonAddr (alignUp len))) (mmap 0 len prot flags) m := by
  rw [mmap]
  refine Act.Returns.lift_bind (fun hlen => ⟨_, alignLen_of_lt hlen, ?_⟩) fun hlen => ?_
  · rw [if_pos rfl]
    have htake := takeAnonAddr_returns (m := m) len
    refine ⟨fun hfits => ?_, fun hfits => Act.bind_traps (htake.2 hfits)⟩
    obtain ⟨r, m', hrun, rfl, rfl⟩ := htake.1 hfits
    rw [Act.bind_ok_run hrun]
    have hwell : WellFormed { m with nextAnonAddr := m.nextAnonAddr + room len } :=
      ⟨h.area, h.count, Nat.lt_of_lt_of_le h.next (Nat.le_add_right _ _)⟩
    have hstop : m.nextAnonAddr + alignUp len < u64Bound :=
      Nat.lt_of_le_of_lt (Nat.add_le_add_left (Nat.le_add_right _ _) _) hfits
    have hmapped := (mapFree_returns hwell h.next hstop prot flags).1 True.intro
    rw [free_next] at hmapped
    exact hmapped
  · exact alignLen_of_le (Nat.le_of_not_lt hlen)

/-- A mapping at an address of the user. -/
theorem mmap_fixed_returns (h : m.WellFormed) {addr len : Nat} (haddr : addr ≠ 0)
    (hfits : addr + (len + pageSize) < u64Bound) (prot flags : Nat) :
    Act.Returns True (fun r m' => m'.WellFormed ∧ (r = none ∨ r = some addr)) (mmap addr len prot flags) m := by
  have hlen : len + pageSize < u64Bound := by omega
  have hstop : addr + alignUp len < u64Bound := Nat.lt_trans (Nat.add_lt_add_left (alignUp_lt len) addr) hfits
  have hpos := Nat.pos_of_ne_zero haddr
  rw [mmap, alignLen_of_lt hlen]
  apply Act.Returns.run_bind (Act.lift_run _ _)
  rw [if_neg haddr]
  split
  · refine (mapFree_returns h hpos hstop prot flags).mono fun r m' hmapped => ⟨hmapped.1, ?_⟩
    exact hmapped.2.elim (fun h => Or.inr h.2) fun h => Or.inl h.2
  · refine (mapAt_returns h hpos hstop prot flags).mono fun r m' hmapped => ⟨hmapped.1, ?_⟩
    exact hmapped.2.elim (fun h => Or.inr h.2) fun h => Or.inl h.2

/-! ### munmap and mprotect -/

theorem removeVma_run (h : m.WellFormed) {i : Fin maxVmAreas} {vma : VmArea} (hi : m.vmAreas i = some vma) :
    ∃ m', removeVma i m = (.ok (), m') ∧ m'.WellFormed := by
  have hsum := Table.sum_update m.vmAreas weight i none
  rw [hi, ← h.count] at hsum
  have hcount : 1 ≤ m.vmAreaCount := Nat.le.intro ((Nat.add_comm 1 _).trans hsum)
  refine ⟨{ m with vmAreas := Function.update m.vmAreas i none, vmAreaCount := m.vmAreaCount - 1 }, ?_, ?_, ?_, h.next⟩
  · rw [removeVma, Act.modify_bind_run, Act.get_bind_run, subU64_of_le hcount, Act.lift_ok_bind_run]
    rfl
  · intro j vma' hj
    dsimp only at hj
    by_cases hji : j = i
    · rw [hji, Function.update_self] at hj
      cases hj
    · rw [Function.update_of_ne hji] at hj
      exact h.area j vma' hj
  · exact Nat.sub_eq_of_eq_add hsum.symm

theorem munmapLoop_returns (addr stop : Nat) (slots : List (Fin maxVmAreas)) (removed : Nat) (h : m.WellFormed)
    (hremoved : removed + slots.length < u64Bound) :
    Act.Returns True (fun _ m' => m'.WellFormed) (munmapLoop addr stop removed slots) m := by
  induction slots generalizing m removed with
  | nil => exact .pure h
  | cons i rest ih =>
      rw [List.length_cons] at hremoved
      refine Act.Returns.get_bind ?_
      cases hi : m.vmAreas i with
      | none => exact ih removed h (by omega)
      | some vma =>
          dsimp only
          split
          · obtain ⟨m', hrun, hwell⟩ := removeVma_run h hi
            apply Act.Returns.run_bind hrun
            rw [subU64_of_le (h.area i vma hi).2]
            apply Act.Returns.run_bind (Act.lift_run _ _)
            rw [addU64_of_lt (by omega)]
            apply Act.Returns.run_bind (Act.lift_run _ _)
            exact ih (removed + 1) hwell (by omega)
          · exact ih removed h (by omega)

theorem munmap_returns (h : m.WellFormed) {addr len : Nat} (hfits : addr + (len + pageSize) < u64Bound) :
    Act.Returns True (fun _ m' => m'.WellFormed) (munmap addr len) m := by
  have hlen : len + pageSize < u64Bound := by omega
  have hstop : addr + alignUp len < u64Bound := Nat.lt_trans (Nat.add_lt_add_left (alignUp_lt len) addr) hfits
  rw [munmap, alignLen_of_lt hlen]
  apply Act.Returns.run_bind (Act.lift_run _ _)
  rw [addU64_of_lt hstop]
  apply Act.Returns.run_bind (Act.lift_run _ _)
  have hloop := munmapLoop_returns addr (addr + alignUp len) (List.finRange maxVmAreas) 0 h (by
    rw [List.length_finRange]
    decide)
  exact (hloop.bind (G := True) fun removed m' hwell => .pure hwell).congr (iff_of_eq (and_true _))

theorem mprotect_returns (h : m.WellFormed) {addr len : Nat} (hfits : addr + len < u64Bound) (prot : Nat) :
    Act.Returns True (fun _ m' => m'.WellFormed) (mprotect addr len prot) m := by
  rw [mprotect, addU64_of_lt hfits]
  apply Act.Returns.run_bind (Act.lift_run _ _)
  refine Act.Returns.get_bind ?_
  split
  · exact .pure h
  · next i hfind =>
    refine Act.Returns.modify_bind (.pure ⟨fun j vma hj => ?_, ?_, h.next⟩)
    · dsimp only at hj
      by_cases hji : j = i
      · rw [hji, Function.update_self, Option.map_eq_some_iff] at hj
        obtain ⟨old, hold, rfl⟩ := hj
        exact h.area i old hold
      · rw [Function.update_of_ne hji] at hj
        exact h.area j vma hj
    · have hsum := Table.sum_update m.vmAreas weight i ((m.vmAreas i).map fun vma => { vma with prot })
      have hsame : weight ((m.vmAreas i).map fun vma => { vma with prot }) = weight (m.vmAreas i) := by
        rw [weight, Option.isSome_map, weight]
      rw [hsame] at hsum
      exact h.count.trans (Nat.add_right_cancel hsum).symm

end Kernel.Mm
