import ZigKernel.KernelMmSound
import ZigKernel.KernelSyscall
import ZigKernel.LibRuns

/-! The areas as a set of mappings. Each call is described by what it leaves in the table, and from that by what is
mapped afterwards: a successful call has the effect it should have, exactly where it maps a nonempty free range of the
user half, unmaps no area in part, and protects no area in part. -/

namespace Kernel.Mm

open Zig

/-! ### What the calls leave in the table -/

/-- Where `mmap` maps. -/
def baseOf (m : Mm) (addr : Nat) : Nat := if addr = 0 then m.nextAnonAddr else addr

/-- There is a slot, and nothing overlaps where that is checked. -/
def Accepts (m : Mm) (addr len flags : Nat) : Prop :=
  (addr = 0 ∨ flags &&& mapFixed ≠ 0 → m.findVmaOverlap (baseOf m addr) (baseOf m addr + alignUp len) = none) ∧
    m.findFreeVmaSlot.isSome = true

/-- The number of pages that `mmap` takes. -/
def pagesOf (len flags : Nat) : Nat := if flags &&& mapAnonymous ≠ 0 then alignUp len / pageSize else 0

def newArea (base len prot flags : Nat) : VmArea :=
  { start := base, stop := base + alignUp len, flags, prot, isShared := decide (flags &&& mapShared ≠ 0) }

/-- The next base for a mapping without an address. -/
def nextOf (m : Mm) (addr len : Nat) : Nat := if addr = 0 then m.nextAnonAddr + room len else m.nextAnonAddr

/-- How `mmap` ends: nothing is mapped, or there is a new area in a free slot. -/
inductive MmapResult (m : Mm) (addr len prot flags : Nat) : Option Nat → Mm → Prop where
  | refused (hnot : ¬Accepts m addr len flags) :
      MmapResult m addr len prot flags none { m with nextAnonAddr := nextOf m addr len }
  | mapped (count : Nat) {slot : Fin maxVmAreas} (haccepts : Accepts m addr len flags)
      (hslot : m.findFreeVmaSlot = some slot) :
      MmapResult m addr len prot flags (some (baseOf m addr)) (allocPages (pagesOf len flags) { m with
        vmAreas := Function.update m.vmAreas slot (some (newArea (baseOf m addr) len prot flags))
        vmAreaCount := count, nextAnonAddr := nextOf m addr len })

section Calls

variable {m : Mm} {addr len prot flags : Nat}

theorem alignLen_ok {len aligned : Nat} (h : alignLen len = .ok aligned) :
    len + pageSize < u64Bound ∧ aligned = alignUp len := by
  by_cases hlt : len + pageSize < u64Bound
  · rw [alignLen_of_lt hlt] at h
    exact ⟨hlt, (Outcome.ok.inj h).symm⟩
  · rw [alignLen_of_le (Nat.le_of_not_lt hlt)] at h
    cases h

/-- A checked number, where it does not trap. -/
theorem ensures_checked {σ α : Type} {s : σ} {o : Outcome Spins Nat} {a : Nat} {f : Nat → Act σ Spins α}
    {Q : α → σ → Prop} {E : Spins → σ → Prop} (ho : o = .ok a ∨ o = .trap) (h : Act.Ensures (f a) s Q E True) :
    Act.Ensures (Act.lift o >>= f) s Q E True := by
  rcases ho with rfl | rfl
  · exact h
  · exact True.intro

theorem addU64_cases (a b : Nat) : (addU64 a b : Outcome Spins Nat) = .ok (a + b) ∨
    (addU64 a b : Outcome Spins Nat) = .trap :=
  (Nat.lt_or_ge (a + b) u64Bound).imp addU64_of_lt addU64_of_le

theorem mapAt_ensures {base next : Nat} (hbase : base = baseOf m addr) (hnext : next = nextOf m addr len)
    (hoverlap : addr = 0 ∨ flags &&& mapFixed ≠ 0 → m.findVmaOverlap base (base + alignUp len) = none) :
    Act.Ensures (mapAt base (alignUp len) prot flags) { m with nextAnonAddr := next }
      (MmapResult m addr len prot flags) (fun _ _ => True) True := by
  subst hbase hnext
  rw [mapAt]
  refine Act.Ensures.get_bind ?_
  have hsame : ({ m with nextAnonAddr := nextOf m addr len } : Mm).findFreeVmaSlot = m.findFreeVmaSlot := rfl
  rw [hsame]
  cases hslot : m.findFreeVmaSlot with
  | none =>
      refine MmapResult.refused fun haccepts => ?_
      have hsome := haccepts.2
      rw [hslot] at hsome
      cases hsome
  | some slot =>
      dsimp only
      refine ensures_checked (addU64_cases _ _) (Act.Ensures.modify_bind (ensures_checked (addU64_cases _ _) (Act.Ensures.modify_bind
        (Act.Ensures.modify_bind (Act.Ensures.pure ?_)))))
      exact MmapResult.mapped (m.vmAreaCount + 1) ⟨hoverlap, by rw [hslot]; rfl⟩ hslot

theorem mapFree_ensures {base next : Nat} (hbase : base = baseOf m addr) (hnext : next = nextOf m addr len)
    (hchecked : addr = 0 ∨ flags &&& mapFixed ≠ 0) :
    Act.Ensures (mapFree base (alignUp len) prot flags) { m with nextAnonAddr := next }
      (MmapResult m addr len prot flags) (fun _ _ => True) True := by
  rw [mapFree]
  refine Act.Ensures.get_bind (ensures_checked (addU64_cases _ _) ?_)
  have hsame : ({ m with nextAnonAddr := next } : Mm).findVmaOverlap base (base + alignUp len) =
    m.findVmaOverlap base (base + alignUp len) := rfl
  rw [hsame]
  refine Act.Ensures.ite (fun hsome => ?_) fun hnone => ?_
  · subst hnext
    refine MmapResult.refused fun haccepts => ?_
    rw [hbase, haccepts.1 hchecked] at hsome
    cases hsome
  · rw [Bool.not_eq_true, Option.isSome_eq_false_iff, Option.isNone_iff_eq_none] at hnone
    exact mapAt_ensures hbase hnext fun _ => hnone

/-- `mmap` with the length in whole pages. -/
def mmapAligned (addr alignedLen prot flags : Nat) : Run (Option Nat) :=
  if addr = 0 then do
    let mapAddr ← takeAnonAddr alignedLen
    mapFree mapAddr alignedLen prot flags
  else if flags &&& mapFixed ≠ 0 then mapFree addr alignedLen prot flags
  else mapAt addr alignedLen prot flags

theorem mmap_eq (addr len prot flags : Nat) :
    mmap addr len prot flags = (Act.lift (alignLen len) >>= fun alignedLen => mmapAligned addr alignedLen prot flags) :=
  rfl

theorem mmapAligned_result {r : Option Nat} {t : Mm} (h : mmapAligned addr (alignUp len) prot flags m = (.ok r, t)) :
    MmapResult m addr len prot flags r t := by
  rw [mmapAligned] at h
  by_cases haddr : addr = 0
  · rw [if_pos haddr] at h
    obtain ⟨base, m', htake, hrest⟩ := Act.bind_run_eq_ok h
    obtain ⟨rfl, rfl⟩ := (takeAnonAddr_returns len).post htake
    exact (mapFree_ensures (if_pos haddr).symm (if_pos haddr).symm (Or.inl haddr)).of_ok hrest
  rw [if_neg haddr] at h
  by_cases hfixed : flags &&& mapFixed ≠ 0
  · rw [if_pos hfixed] at h
    exact (mapFree_ensures (if_neg haddr).symm (if_neg haddr).symm (Or.inr hfixed)).of_ok h
  · rw [if_neg hfixed] at h
    refine (mapAt_ensures (if_neg haddr).symm (if_neg haddr).symm fun hchecked => ?_).of_ok h
    exact absurd hchecked (not_or.mpr ⟨haddr, hfixed⟩)

/-- `mmap` where it returns. -/
theorem mmap_result {r : Option Nat} {t : Mm} (h : mmap addr len prot flags m = (.ok r, t)) :
    MmapResult m addr len prot flags r t := by
  rw [mmap_eq] at h
  obtain ⟨aligned, haligned, hrest⟩ := Act.lift_bind_run_eq_ok h
  rw [(alignLen_ok haligned).2] at hrest
  exact mmapAligned_result hrest

/-- The area lies in the range, so that `munmap` removes it. -/
def VmArea.within (addr stop : Nat) (vma : VmArea) : Prop := addr ≤ vma.start ∧ vma.stop ≤ stop

instance (addr stop : Nat) (vma : VmArea) : Decidable (vma.within addr stop) := inferInstanceAs (Decidable (_ ∧ _))

/-- A slot after `munmap` of a range. -/
def unmapped (addr stop : Nat) (slot : Option VmArea) : Option VmArea :=
  slot.filter fun vma => decide ¬vma.within addr stop

theorem unmapped_within {stop : Nat} {vma : VmArea} (h : vma.within addr stop) : unmapped addr stop (some vma) = none :=
  Option.filter_eq_none_iff.mpr fun v hv => by
    cases hv
    simpa using h

theorem unmapped_not {stop : Nat} {vma : VmArea} (h : ¬vma.within addr stop) :
    unmapped addr stop (some vma) = some vma := by
  rw [unmapped, Option.filter_some, decide_eq_true h]
  rfl

/-- Only the table and its count change. -/
def SamePages (m t : Mm) : Prop := t.pages = m.pages ∧ t.pageBitmap = m.pageBitmap

theorem removeVma_result {i : Fin maxVmAreas} {t : Mm} (h : removeVma i m = (.ok (), t)) :
    t.vmAreas = Function.update m.vmAreas i none ∧ SamePages m t := by
  rw [removeVma, Act.modify_bind_run, Act.get_bind_run] at h
  obtain ⟨count, -, hrest⟩ := Act.lift_bind_run_eq_ok h
  cases hrest
  exact ⟨rfl, rfl, rfl⟩

theorem unmapped_idem (stop : Nat) (slot : Option VmArea) :
    unmapped addr stop (unmapped addr stop slot) = unmapped addr stop slot := by
  rw [unmapped, unmapped, Option.filter_filter]
  congr 1
  funext vma
  rw [Bool.and_self]

/-- A slot whose area lies in the range. -/
def Hit (addr stop : Nat) (slot : Option VmArea) : Prop := ∃ vma, slot = some vma ∧ vma.within addr stop

theorem not_hit_unmapped {stop : Nat} {slot : Option VmArea} : ¬Hit addr stop (unmapped addr stop slot) := by
  rintro ⟨vma, hvma, hwithin⟩
  have hnot := (Option.filter_eq_some_iff.mp hvma).2
  exact of_decide_eq_true hnot hwithin

/-- One turn of the loop. -/
theorem munmapLoop_turn {stop removed r : Nat} {i : Fin maxVmAreas} {rest : List (Fin maxVmAreas)} {t : Mm}
    (h : munmapLoop addr stop removed (i :: rest) m = (.ok r, t)) :
    ∃ m' removed', munmapLoop addr stop removed' rest m' = (.ok r, t) ∧
      m'.vmAreas = Function.update m.vmAreas i (unmapped addr stop (m.vmAreas i)) ∧ SamePages m m' ∧
      (0 < removed' ↔ 0 < removed ∨ Hit addr stop (m.vmAreas i)) := by
  rw [munmapLoop, Act.get_bind_run] at h
  cases hi : m.vmAreas i with
  | none =>
      rw [hi] at h
      refine ⟨m, removed, h, ?_, ⟨rfl, rfl⟩, (or_iff_left ?_).symm⟩
      · exact (Function.update_eq_self_iff.mpr hi.symm).symm
      · rintro ⟨vma, hvma, -⟩
        cases hvma
  | some vma =>
      rw [hi] at h
      by_cases hwithin : vma.within addr stop
      · have hcond : vma.start ≥ addr ∧ vma.stop ≤ stop := hwithin
        dsimp only at h
        rw [if_pos hcond] at h
        obtain ⟨⟨⟩, m', hremove, hrest⟩ := Act.bind_run_eq_ok h
        obtain ⟨length, -, hrest⟩ := Act.lift_bind_run_eq_ok hrest
        obtain ⟨removed', hremoved, hrest⟩ := Act.lift_bind_run_eq_ok hrest
        obtain ⟨hareas, hpages⟩ := removeVma_result hremove
        refine ⟨m', removed', hrest, ?_, hpages, iff_of_true ?_ (Or.inr ⟨vma, rfl, hwithin⟩)⟩
        · rw [hareas, unmapped_within hwithin]
        · rw [← (addU64_eq_ok.mp hremoved).2]
          exact Nat.succ_pos removed
      · have hcond : ¬(vma.start ≥ addr ∧ vma.stop ≤ stop) := hwithin
        dsimp only at h
        rw [if_neg hcond] at h
        refine ⟨m, removed, h, ?_, ⟨rfl, rfl⟩, (or_iff_left ?_).symm⟩
        · rw [unmapped_not hwithin]
          exact (Function.update_eq_self_iff.mpr hi.symm).symm
        · rintro ⟨vma', hvma, hw⟩
          cases hvma
          exact hwithin hw

/-- The loop over the slots: those it has passed are without the areas in the range. -/
theorem munmapLoop_result {stop removed r : Nat} {slots : List (Fin maxVmAreas)} {t : Mm}
    (h : munmapLoop addr stop removed slots m = (.ok r, t)) :
    (∀ j ∈ slots, t.vmAreas j = unmapped addr stop (m.vmAreas j)) ∧ (∀ j, j ∉ slots → t.vmAreas j = m.vmAreas j) ∧
      SamePages m t ∧ (0 < r ↔ 0 < removed ∨ ∃ j ∈ slots, Hit addr stop (m.vmAreas j)) := by
  induction slots generalizing m removed with
  | nil =>
      cases h
      refine ⟨fun j hj => absurd hj List.not_mem_nil, fun _ _ => rfl, ⟨rfl, rfl⟩, (or_iff_left ?_).symm⟩
      rintro ⟨j, hj, -⟩
      cases hj
  | cons i rest ih =>
      obtain ⟨m', removed', hrest, hareas, hpages, hremoved⟩ := munmapLoop_turn h
      obtain ⟨hin, hout, hpages', hr⟩ := ih hrest
      have hi : m'.vmAreas i = unmapped addr stop (m.vmAreas i) := by
        rw [hareas, Function.update_self]
      have hother {j : Fin maxVmAreas} (hj : j ≠ i) : m'.vmAreas j = m.vmAreas j := by
        rw [hareas, Function.update_of_ne hj]
      refine ⟨fun j hj => ?_, fun j hj => ?_, ⟨hpages'.1.trans hpages.1, hpages'.2.trans hpages.2⟩, ?_⟩
      · by_cases hmem : j ∈ rest
        · rw [hin j hmem]
          by_cases hji : j = i
          · rw [hji, hi, unmapped_idem]
          · rw [hother hji]
        · have hji : j = i := (List.mem_cons.mp hj).resolve_right hmem
          rw [hout j hmem, hji, hi]
      · rw [List.mem_cons, not_or] at hj
        rw [hout j hj.2, hother hj.1]
      · rw [hr, hremoved, List.exists_mem_cons_iff, or_assoc]
        refine or_congr Iff.rfl ⟨?_, ?_⟩
        · rintro (hit | ⟨j, hj, hit⟩)
          · exact Or.inl hit
          · by_cases hji : j = i
            · rw [hji, hi] at hit
              exact absurd hit not_hit_unmapped
            · rw [hother hji] at hit
              exact Or.inr ⟨j, hj, hit⟩
        · rintro (hit | ⟨j, hj, hit⟩)
          · exact Or.inl hit
          · by_cases hji : j = i
            · rw [hji] at hit
              exact Or.inl hit
            · rw [← hother hji] at hit
              exact Or.inr ⟨j, hj, hit⟩

/-- `munmap` where it returns. -/
theorem munmap_result {r : Int} {t : Mm} (h : munmap addr len m = (.ok r, t)) :
    (∀ i, t.vmAreas i = unmapped addr (addr + alignUp len) (m.vmAreas i)) ∧ SamePages m t ∧
      (r = 0 ∧ (∃ i, Hit addr (addr + alignUp len) (m.vmAreas i)) ∨
        r = -1 ∧ ¬∃ i, Hit addr (addr + alignUp len) (m.vmAreas i)) := by
  rw [munmap] at h
  obtain ⟨aligned, haligned, hrest⟩ := Act.lift_bind_run_eq_ok h
  rw [(alignLen_ok haligned).2] at hrest
  obtain ⟨stop, hstop, hrest⟩ := Act.lift_bind_run_eq_ok hrest
  rw [← (addU64_eq_ok.mp hstop).2] at hrest
  obtain ⟨removed, t', hloop, hpure⟩ := Act.bind_run_eq_ok hrest
  cases hpure
  obtain ⟨hareas, -, hpages, hremoved⟩ := munmapLoop_result hloop
  have hhit : 0 < removed ↔ ∃ i, Hit addr (addr + alignUp len) (m.vmAreas i) := by
    rw [hremoved, or_iff_right (Nat.lt_irrefl 0)]
    constructor
    · rintro ⟨i, -, hit⟩
      exact ⟨i, hit⟩
    · rintro ⟨i, hit⟩
      exact ⟨i, List.mem_finRange i, hit⟩
  refine ⟨fun i => hareas i (List.mem_finRange i), hpages, ?_⟩
  rw [← hhit]
  by_cases hpos : removed > 0
  · exact Or.inl ⟨if_pos hpos, hpos⟩
  · exact Or.inr ⟨if_neg hpos, hpos⟩

/-- The slot of the area that `mprotect` finds. -/
def findCovering (m : Mm) (addr stop : Nat) : Option (Fin maxVmAreas) :=
  Table.find? m.vmAreas fun slot => slot.any (VmArea.covers addr stop)

/-- `mprotect` where it returns. -/
theorem mprotect_result {prot : Nat} {r : Int} {t : Mm} (h : mprotect addr len prot m = (.ok r, t)) :
    (findCovering m addr (addr + len) = none ∧ r = -1 ∧ t = m) ∨
      ∃ i, findCovering m addr (addr + len) = some i ∧ r = 0 ∧ t = { m with
        vmAreas := Function.update m.vmAreas i ((m.vmAreas i).map fun vma => { vma with prot }) } := by
  rw [mprotect] at h
  obtain ⟨stop, hstop, hrest⟩ := Act.lift_bind_run_eq_ok h
  rw [← (addU64_eq_ok.mp hstop).2, Act.get_bind_run] at hrest
  cases hfind : findCovering m addr (addr + len) with
  | none =>
      rw [findCovering] at hfind
      rw [hfind] at hrest
      cases hrest
      exact Or.inl ⟨rfl, rfl, rfl⟩
  | some i =>
      rw [findCovering] at hfind
      rw [hfind] at hrest
      cases hrest
      exact Or.inr ⟨i, rfl, rfl, rfl⟩

theorem findCovering_some {stop : Nat} {i : Fin maxVmAreas} (h : findCovering m addr stop = some i) :
    ∃ vma, m.vmAreas i = some vma ∧ vma.start ≤ addr ∧ stop ≤ vma.stop := by
  obtain ⟨vma, hvma, hcovers⟩ := (Option.any_eq_true _ _).mp (Table.find?_some h)
  rw [VmArea.covers, Bool.and_eq_true, decide_eq_true_eq, decide_eq_true_eq] at hcovers
  exact ⟨vma, hvma, hcovers⟩

end Calls

end Kernel.Mm
