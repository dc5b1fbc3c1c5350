import ZigKernel.NativeBootInfo
import Mathlib.Data.List.TakeWhile

/-! When the validation traps. The ends of the ranges are computed unchecked, so a range that wraps is a trap
as soon as a loop comes to it: a coverage check comes to it unless the ranges of the kind in front of it cover
the region, and the scan of the pairs unless it ends in front of it. -/

namespace Native

open Zig

namespace Range

/-- The end of a nonempty range leaves 64 bits. -/
def Wraps (r : Range) : Prop := r.pageCount ≠ 0 ∧ u64Bound ≤ r.stop

instance (r : Range) : Decidable r.Wraps := inferInstanceAs (Decidable (_ ∧ _))

theorem endAddr_of_lt {r : Range} (h : r.stop < u64Bound) : r.endAddr = .ok r.stop := endAddr_eq_ok.mpr ⟨h, rfl⟩

theorem stop_lt {r : Range} (hempty : r.pageCount ≠ 0) (h : ¬r.Wraps) : r.stop < u64Bound :=
  Nat.lt_of_not_le fun hstop => h ⟨hempty, hstop⟩

theorem endAddr_of_wraps {r : Range} (h : r.Wraps) : r.endAddr = .trap := by
  cases hend : r.endAddr with
  | ok n => exact absurd (endAddr_eq_ok.mp hend).1 (Nat.not_lt_of_le h.2)
  | error e => exact absurd hend endAddr_ne_error
  | trap => rfl

end Range

/-! ### The coverage checks -/

/-- A range of the kind that wraps. -/
def WrapsAs (kind : RangeKind) (r : Range) : Prop := r.kind = kind ∧ r.Wraps

instance (kind : RangeKind) (r : Range) : Decidable (WrapsAs kind r) := inferInstanceAs (Decidable (_ ∧ _))

/-- The ranges in front of the first one of the kind that wraps. -/
def front (kind : RangeKind) (rs : List Range) : List Range := rs.takeWhile fun r => ¬WrapsAs kind r

/-- Ranges of the kind in the list leave no gap between the two addresses. -/
def CoveredBy (rs : List Range) (kind : RangeKind) (base stop : Nat) : Prop :=
  ∀ x, base ≤ x → x < stop → ∃ r ∈ rs, r.kind = kind ∧ r.Contains x

theorem front_cons (kind : RangeKind) (r : Range) (rest : List Range) :
    front kind (r :: rest) = if WrapsAs kind r then [] else r :: front kind rest := by
  rw [front, List.takeWhile_cons]
  by_cases h : WrapsAs kind r
  · rw [if_neg (by simpa using h), if_pos h]
  · rw [if_pos (by simpa using h), if_neg h]
    rfl

theorem front_of_bounded {kind : RangeKind} {rs : List Range} (h : ∀ r ∈ rs, ¬WrapsAs kind r) : front kind rs = rs :=
  List.takeWhile_eq_self_iff.mpr fun r hr => decide_eq_true (h r hr)

namespace BootInfo

/-- The range loop finds a range in front of the first one that wraps, or comes to that one. -/
theorem nextEnd_cases (kind : RangeKind) (cursor : Nat) (rs : List Range) :
    (∃ r ∈ front kind rs, r.kind = kind ∧ r.Contains cursor ∧ nextEnd kind cursor rs = .ok (some r.stop)) ∨
      (∀ r ∈ front kind rs, ¬(r.kind = kind ∧ r.Contains cursor)) ∧
        nextEnd kind cursor rs = if ∃ r ∈ rs, WrapsAs kind r then .trap else .ok none := by
  induction rs with
  | nil => exact Or.inr ⟨fun r hr => absurd hr List.not_mem_nil, rfl⟩
  | cons r rest ih =>
      rw [nextEnd, front_cons]
      by_cases hwraps : WrapsAs kind r
      · rw [if_pos hwraps, if_neg (by rintro (h | h); exacts [h hwraps.1, hwraps.2.1 h]),
          Range.endAddr_of_wraps hwraps.2, Outcome.trap_bind, if_pos ⟨r, List.mem_cons_self, hwraps⟩]
        exact Or.inr ⟨fun r hr => absurd hr List.not_mem_nil, rfl⟩
      have hexists : (∃ r' ∈ r :: rest, WrapsAs kind r') ↔ ∃ r' ∈ rest, WrapsAs kind r' := by
        simp only [List.mem_cons, exists_eq_or_imp]
        exact or_iff_right hwraps
      rw [if_neg hwraps, if_congr hexists rfl rfl]
      by_cases hhit : r.kind = kind ∧ r.Contains cursor
      · obtain ⟨hkind, hcontains⟩ := hhit
        have hempty := Range.pageCount_ne_zero hcontains
        have hend := Range.endAddr_of_lt (Range.stop_lt hempty fun h => hwraps ⟨hkind, h⟩)
        refine Or.inl ⟨r, List.mem_cons_self, hkind, hcontains, ?_⟩
        have hhit : r.physStart ≤ cursor ∧ r.stop > cursor := hcontains
        rw [if_neg (by rintro (h | h); exacts [h hkind, hempty h]), hend, Outcome.ok_bind, if_pos hhit]
      have hskip : (if r.kind ≠ kind ∨ r.pageCount = 0 then nextEnd kind cursor rest
          else do
            let rEnd ← r.endAddr
            if r.physStart ≤ cursor ∧ rEnd > cursor then .ok (some rEnd) else nextEnd kind cursor rest) =
          nextEnd kind cursor rest := by
        by_cases hother : r.kind ≠ kind ∨ r.pageCount = 0
        · exact if_pos hother
        have hkind : r.kind = kind := not_not.mp fun h => hother (Or.inl h)
        have hend := Range.endAddr_of_lt (Range.stop_lt (fun h => hother (Or.inr h)) fun h => hwraps ⟨hkind, h⟩)
        have hmiss : ¬(r.physStart ≤ cursor ∧ r.stop > cursor) := fun h => hhit ⟨hkind, h⟩
        rw [if_neg hother, hend, Outcome.ok_bind, if_neg hmiss]
      rw [hskip]
      rcases ih with ⟨r', hr', hfound⟩ | ⟨hnone, hrun⟩
      · exact Or.inl ⟨r', List.mem_cons_of_mem _ hr', hfound⟩
      · exact Or.inr ⟨List.forall_mem_cons.mpr ⟨hhit, hnone⟩, hrun⟩

/-- The cursor never passes an address that the ranges in front of the first wrapping one leave free. -/
theorem coverLoop_run (rs : List Range) (kind : RangeKind) {stop fuel cursor : Nat} (hfuel : stop - cursor ≤ fuel) :
    (CoveredBy (front kind rs) kind cursor stop → coverLoop rs kind stop fuel cursor = .ok true) ∧
      (¬CoveredBy (front kind rs) kind cursor stop → coverLoop rs kind stop fuel cursor =
        if ∃ r ∈ rs, WrapsAs kind r then .trap else .ok false) := by
  induction fuel generalizing cursor with
  | zero =>
      have hdone : ¬cursor < stop := by omega
      rw [coverLoop, if_neg hdone]
      exact ⟨fun _ => rfl, fun h => absurd (fun x hx hlt => absurd hlt (by omega)) h⟩
  | succ fuel ih =>
      rw [coverLoop]
      by_cases hmore : cursor < stop
      swap
      · rw [if_neg hmore]
        exact ⟨fun _ => rfl, fun h => absurd (fun x hx hlt => absurd hlt (by omega)) h⟩
      rw [if_pos hmore]
      rcases nextEnd_cases kind cursor rs with ⟨r, hr, hkind, hcursor, hrun⟩ | ⟨hnone, hrun⟩
      · obtain ⟨hstart, hstop⟩ := hcursor
        have hrest : CoveredBy (front kind rs) kind cursor stop ↔ CoveredBy (front kind rs) kind r.stop stop := by
          refine ⟨fun h x hx => h x (by omega), fun h x hx hlt => ?_⟩
          by_cases hin : x < r.stop
          · exact ⟨r, hr, hkind, Nat.le_trans hstart hx, hin⟩
          · exact h x (Nat.le_of_not_lt hin) hlt
        rw [hrun, Outcome.ok_bind, hrest]
        exact ih (by omega)
      · refine ⟨fun h => ?_, fun _ => ?_⟩
        · obtain ⟨r, hr, hhit⟩ := h cursor (Nat.le_refl _) hmore
          exact absurd hhit (hnone r hr)
        · rw [hrun]
          split_ifs <;> rfl

end BootInfo

/-- A region that the map has to cover. -/
structure Region where
  base : U64
  size : U64
  kind : RangeKind

namespace Region

variable {rs : List Range}

/-- The region is neither empty nor wrapping, and ranges of its kind in front of the first wrapping one cover it. -/
def Mapped (g : Region) (rs : List Range) : Prop :=
  g.size.val ≠ 0 ∧ g.base.val + g.size.val < u64Bound ∧ CoveredBy (front g.kind rs) g.kind g.base.val (g.base.val + g.size.val)

/-- The check of the region is decided without the end of a range that wraps. -/
def Safe (g : Region) (rs : List Range) : Prop :=
  g.size.val = 0 ∨ u64Bound ≤ g.base.val + g.size.val ∨ (∀ r ∈ rs, ¬WrapsAs g.kind r) ∨
    CoveredBy (front g.kind rs) g.kind g.base.val (g.base.val + g.size.val)

end Region

namespace BootInfo

variable {self : BootInfo}

theorem covered_cases (self : BootInfo) (g : Region) :
    g.Mapped self.ranges ∧ self.covered g.base g.size g.kind = .ok true ∨
      ¬g.Mapped self.ranges ∧ g.Safe self.ranges ∧ self.covered g.base g.size g.kind = .ok false ∨
      ¬g.Safe self.ranges ∧ self.covered g.base g.size g.kind = .trap := by
  rw [covered]
  by_cases hsize : g.size.val = 0
  · rw [if_pos hsize]
    exact Or.inr (Or.inl ⟨fun h => h.1 hsize, Or.inl hsize, rfl⟩)
  rw [if_neg hsize]
  have hbase := g.base.isLt
  have hlt := g.size.isLt
  by_cases hfits : g.base.val + g.size.val < u64Bound
  swap
  · have hwrap : wrapAddU64 g.base.val g.size.val < g.base.val := by
      rw [wrapAddU64, Nat.mod_eq_sub_mod (by omega), Nat.mod_eq_of_lt (by omega)]
      omega
    rw [if_pos hwrap]
    exact Or.inr (Or.inl ⟨fun h => hfits h.2.1, Or.inr (Or.inl (Nat.le_of_not_lt hfits)), rfl⟩)
  have hstop : wrapAddU64 g.base.val g.size.val = g.base.val + g.size.val := Nat.mod_eq_of_lt hfits
  simp only [hstop]
  rw [if_neg (by omega)]
  obtain ⟨hcovered, hgap⟩ := coverLoop_run self.ranges g.kind (Nat.le_refl (g.base.val + g.size.val - g.base.val))
  by_cases hcover : CoveredBy (front g.kind self.ranges) g.kind g.base.val (g.base.val + g.size.val)
  · exact Or.inl ⟨⟨hsize, hfits, hcover⟩, hcovered hcover⟩
  rw [hgap hcover]
  by_cases hwraps : ∃ r ∈ self.ranges, WrapsAs g.kind r
  · rw [if_pos hwraps]
    refine Or.inr (Or.inr ⟨?_, rfl⟩)
    rintro (h | h | h | h)
    · exact hsize h
    · exact Nat.not_lt_of_le h hfits
    · obtain ⟨r, hr, hrwraps⟩ := hwraps
      exact h r hr hrwraps
    · exact hcover h
  · rw [if_neg hwraps]
    exact Or.inr (Or.inl ⟨fun h => hcover h.2.2, Or.inr (Or.inr (Or.inl fun r hr h => hwraps ⟨r, hr, h⟩)), rfl⟩)

/-- Where no range wraps, coverage is decided exactly, whatever the order of the ranges and their overlaps. -/
theorem covered_exact (self : BootInfo) (base size : U64) (kind : RangeKind) (hends : ∀ r ∈ self.ranges, r.stop < u64Bound)
    (hfits : base.val + size.val < u64Bound) :
    ∃ answer, self.covered base size kind = .ok answer ∧
      (answer = true ↔ size.val ≠ 0 ∧ ∀ x, base.val ≤ x → x < base.val + size.val →
        ∃ r ∈ self.ranges, r.kind = kind ∧ r.pageCount ≠ 0 ∧ r.Contains x) := by
  have hbounded : ∀ r ∈ self.ranges, ¬WrapsAs kind r := fun r hr hwraps => Nat.not_le_of_lt (hends r hr) hwraps.2.2
  have hmapped : Region.Mapped ⟨base, size, kind⟩ self.ranges ↔ size.val ≠ 0 ∧
      ∀ x, base.val ≤ x → x < base.val + size.val → ∃ r ∈ self.ranges, r.kind = kind ∧ r.pageCount ≠ 0 ∧ r.Contains x := by
    rw [Region.Mapped, front_of_bounded hbounded, and_iff_right hfits]
    refine and_congr_right fun _ => forall₃_congr fun x _ _ => exists_congr fun r => and_congr_right fun _ => ?_
    exact and_congr_right fun _ => ⟨fun h => ⟨Range.pageCount_ne_zero h, h⟩, And.right⟩
  rw [← hmapped]
  rcases covered_cases self ⟨base, size, kind⟩ with ⟨hcover, hrun⟩ | ⟨hgap, -, hrun⟩ | ⟨hsafe, -⟩
  · exact ⟨true, hrun, iff_of_true rfl hcover⟩
  · exact ⟨false, hrun, iff_of_false (by nofun) hgap⟩
  · exact absurd (Or.inr (Or.inr (Or.inl hbounded))) hsafe

/-- A kernel of three pages in two overlapping fragments, the last one first, with an empty one between them. -/
def splitKernel : BootInfo where
  totalSize := 4096
  rangeCount := 3
  efiDescSize := 48
  efiDescVersion := 1
  kernelBase := 0x200000
  kernelSize := 0x3000
  kernelEntry := 0x200000
  initramfsBase := 0x400000
  initramfsSize := 0x1000
  stackBase := 0x500000
  stackSize := 0x1000
  selfAddr := 0x700000
  rangeArray := fun i => [⟨0x201000, 2, .kernel⟩, ⟨0x200000, 0, .kernel⟩, ⟨0x200000, 2, .kernel⟩].getD i ⟨0, 0, .reserved⟩

theorem splitKernel_covered : splitKernel.covered 0x200000 0x3000 .kernel = .ok true := by
  obtain ⟨answer, hrun, hexact⟩ := covered_exact splitKernel 0x200000 0x3000 .kernel (by decide) (by decide)
  have hcovered : answer = true := by
    refine hexact.mpr ⟨by decide, fun x hx hlt => ?_⟩
    have hx : 0x200000 ≤ x := hx
    have hlt : x < 0x203000 := hlt
    by_cases hfirst : x < 0x202000
    · exact ⟨⟨0x200000, 2, .kernel⟩, by decide, rfl, by decide, hx, hfirst⟩
    · exact ⟨⟨0x201000, 2, .kernel⟩, by decide, rfl, by decide, by change 0x201000 ≤ x; omega, hlt⟩
  rw [hrun, hcovered]

/-- A coverage check in front of the rest of the validation. -/
theorem covered_bind_ne_trap (g : Region) {e : ValidateError} {o : Outcome ValidateError Unit} :
    (self.covered g.base g.size g.kind >>= fun isCovered => if ¬isCovered then .error e else o) ≠ .trap ↔
      g.Safe self.ranges ∧ (g.Mapped self.ranges → o ≠ .trap) := by
  rcases covered_cases self g with ⟨hmapped, hrun⟩ | ⟨hmapped, hsafe, hrun⟩ | ⟨hsafe, hrun⟩
  · have hsafe : g.Safe self.ranges := Or.inr (Or.inr (Or.inr hmapped.2.2))
    rw [hrun, Outcome.ok_bind, if_neg (not_not.mpr rfl)]
    exact ⟨fun h => ⟨hsafe, fun _ => h⟩, fun h => h.2 hmapped⟩
  · rw [hrun, Outcome.ok_bind, if_pos (by simp)]
    exact iff_of_true (by nofun) ⟨hsafe, fun h => absurd h hmapped⟩
  · rw [hrun, Outcome.trap_bind]
    exact iff_of_false (not_not.mpr rfl) fun h => hsafe h.1

/-! ### The scan of the pairs -/

/-- The scan of the pairs ends before it comes to the end of a range that wraps. -/
def ScanSafe (rs : List Range) : Prop :=
  (∀ r ∈ rs, ¬r.Wraps) ∨
    match rs.takeWhile fun r => ¬r.Wraps with
    | [] => ∀ b ∈ rs.tail.head?, b.pageCount = 0
    | a :: rest => a.pageCount = 0 ∨ ∃ b ∈ rest, b.pageCount = 0 ∨ ¬a.Apart b

/-- The inner loop ends at an empty or overlapping range, or comes to the first one that wraps. -/
theorem overlapsAny_run {a : Range} (ha : a.stop < u64Bound) (rs : List Range) :
    overlapsAny a rs ≠ .trap ↔
      (∀ r ∈ rs, ¬r.Wraps) ∨ ∃ b ∈ rs.takeWhile fun r => ¬r.Wraps, b.pageCount = 0 ∨ ¬a.Apart b := by
  induction rs with
  | nil => exact iff_of_true (by simp [overlapsAny]) (Or.inl fun r hr => absurd hr List.not_mem_nil)
  | cons b rest ih =>
      rw [overlapsAny, List.takeWhile_cons]
      by_cases hempty : b.pageCount = 0
      · have hwraps : ¬b.Wraps := fun h => h.1 hempty
        rw [if_pos hempty, if_pos (decide_eq_true hwraps)]
        exact iff_of_true (by simp) (Or.inr ⟨b, List.mem_cons_self, Or.inl hempty⟩)
      rw [if_neg hempty, Range.endAddr_of_lt ha, Outcome.ok_bind]
      by_cases hwraps : b.Wraps
      · rw [Range.endAddr_of_wraps hwraps, Outcome.trap_bind, if_neg (by simpa using hwraps)]
        refine iff_of_false (not_not.mpr rfl) ?_
        rintro (h | ⟨c, hc, -⟩)
        · exact h b List.mem_cons_self hwraps
        · exact absurd hc List.not_mem_nil
      rw [Range.endAddr_of_lt (Range.stop_lt hempty hwraps), Outcome.ok_bind, if_pos (decide_eq_true hwraps)]
      by_cases hoverlap : a.physStart < b.stop ∧ b.physStart < a.stop
      · have hmeet : ¬a.Apart b := by
          rw [Range.Apart]
          omega
        rw [if_pos hoverlap]
        exact iff_of_true (by simp) (Or.inr ⟨b, List.mem_cons_self, Or.inr hmeet⟩)
      · have hapart : ¬(b.pageCount = 0 ∨ ¬a.Apart b) := by
          rw [Range.Apart]
          omega
        rw [if_neg hoverlap, ih, List.forall_mem_cons]
        simp only [List.mem_cons, exists_eq_or_imp]
        exact or_congr (and_iff_right hwraps).symm (or_iff_right hapart).symm

theorem rangesOverlap_ne_trap {rs : List Range} (h : ∀ r ∈ rs, ¬r.Wraps) : rangesOverlap rs ≠ .trap := by
  induction rs with
  | nil => simp [rangesOverlap]
  | cons a rest ih =>
      obtain ⟨ha, hrest⟩ := List.forall_mem_cons.mp h
      rw [rangesOverlap]
      by_cases hempty : a.pageCount = 0
      · rw [if_pos hempty]
        simp
      rw [if_neg hempty]
      refine Outcome.bind_ne_trap ((overlapsAny_run (Range.stop_lt hempty ha) rest).mpr (Or.inl hrest)) fun overlaps _ => ?_
      cases overlaps with
      | true => simp
      | false => exact ih hrest

theorem rangesOverlap_ne_trap_iff (rs : List Range) : rangesOverlap rs ≠ .trap ↔ ScanSafe rs := by
  cases rs with
  | nil => exact iff_of_true (by simp [rangesOverlap]) (Or.inl fun r hr => absurd hr List.not_mem_nil)
  | cons a rest =>
      rw [ScanSafe, rangesOverlap, List.takeWhile_cons]
      by_cases hempty : a.pageCount = 0
      · have hwraps : ¬a.Wraps := fun h => h.1 hempty
        rw [if_pos hempty, if_pos (decide_eq_true hwraps)]
        exact iff_of_true (by simp) (Or.inr (Or.inl hempty))
      rw [if_neg hempty]
      by_cases hwraps : a.Wraps
      · -- the end of the first range is needed for the second one
        rw [if_neg (by simpa using hwraps)]
        cases rest with
        | nil => exact iff_of_true (by simp [overlapsAny, rangesOverlap]) (Or.inr (by simp))
        | cons b rest =>
            rw [overlapsAny]
            by_cases hnext : b.pageCount = 0
            · rw [if_pos hnext]
              refine iff_of_true (by simp) (Or.inr fun c hc => ?_)
              cases hc
              exact hnext
            · rw [if_neg hnext, Range.endAddr_of_wraps hwraps]
              refine iff_of_false (not_not.mpr rfl) ?_
              rintro (h | h)
              · exact h a List.mem_cons_self hwraps
              · exact hnext (h b rfl)
      rw [if_pos (decide_eq_true hwraps), List.forall_mem_cons, and_iff_right hwraps]
      simp only [or_iff_right hempty]
      rw [← overlapsAny_run (Range.stop_lt hempty hwraps), Outcome.bind_ne_trap_iff]
      refine and_iff_left_of_imp fun hany overlaps hrun => ?_
      cases overlaps with
      | true => simp
      | false =>
          -- the whole row has been compared, so nothing in it wraps
          refine rangesOverlap_ne_trap fun b hb hbwraps => ?_
          exact Nat.not_lt_of_le hbwraps.2 (overlapsAny_false hrun b hb).2.2.1

/-! ### The gate -/

/-- The checks in front of the sum `kernel_base + kernel_size`. -/
structure HeaderOk (info : BootInfo) : Prop where
  magic : info.magic.val = Native.magic
  version : info.version.val = Native.version
  headerSize : info.headerSize.val = Native.headerSize
  totalSize : Native.headerSize ≤ info.totalSize.val
  aligned : info.totalSize.val % align = 0
  rangeCount : info.rangeCount.val ≤ maxRanges
  fits : Native.headerSize + info.rangeCount.val * rangeSize ≤ info.totalSize.val
  checksum : info.checksum.val = info.computeChecksum
  entry : info.kernelBase ≤ info.kernelEntry

/-- The checks between that sum and the regions. -/
structure LayoutOk (info : BootInfo) : Prop where
  entry : info.kernelEntry.val < info.kernelBase.val + info.kernelSize.val
  stack : info.stackSize.val ≠ 0 ∧ info.stackSize.val % align = 0
  aligned : info.kernelBase.val % align = 0 ∧ info.initramfsBase.val % align = 0

/-- The regions in the order of their checks. -/
def regions (info : BootInfo) : List Region :=
  { base := info.kernelBase, size := info.kernelSize, kind := .kernel } ::
    ((if info.initramfsSize.val ≠ 0 then [{ base := info.initramfsBase, size := info.initramfsSize, kind := .initramfs }]
      else []) ++
      [{ base := info.stackBase, size := info.stackSize, kind := .kernelStack },
        { base := info.selfAddr, size := Fin.ofNat _ info.totalSize.val, kind := .bootInfo }])

/-- Every region the checks come to is safe, and so is the scan of the pairs, if they come to it. -/
def RegionsSafe (rs : List Range) : List Region → Prop
  | [] => ScanSafe rs
  | g :: rest => g.Safe rs ∧ (g.Mapped rs → RegionsSafe rs rest)

/-- No check that is reached needs an address beyond 64 bits. -/
structure Bounded (info : BootInfo) : Prop where
  kernelEnd : info.HeaderOk → info.kernelBase.val + info.kernelSize.val < u64Bound
  regions : info.HeaderOk → info.LayoutOk → RegionsSafe info.ranges info.regions

/-- What an accepted handoff promises. -/
structure Gate (info : BootInfo) : Prop where
  map : info.WellFormed
  /-- The allocator gets none of the regions. -/
  owned : ∀ r ∈ info.ranges, r.kind = .conventional →
    ∀ g ∈ info.regions, ∀ x, g.base.val ≤ x → x < g.base.val + g.size.val → ¬r.Contains x

theorem validateOwned_ne_trap_iff : self.validateOwned ≠ .trap ↔
    RegionsSafe self.ranges [{ base := self.stackBase, size := self.stackSize, kind := .kernelStack },
      { base := self.selfAddr, size := Fin.ofNat _ self.totalSize.val, kind := .bootInfo }] := by
  rw [validateOwned, RegionsSafe, RegionsSafe, RegionsSafe,
    covered_bind_ne_trap { base := self.stackBase, size := self.stackSize, kind := .kernelStack },
    covered_bind_ne_trap { base := self.selfAddr, size := Fin.ofNat _ self.totalSize.val, kind := .bootInfo },
    ← rangesOverlap_ne_trap_iff, Outcome.bind_ne_trap_iff]
  refine and_congr_right fun _ => imp_congr_right fun _ => and_congr_right fun _ => imp_congr_right fun _ => ?_
  refine and_iff_left fun overlaps _ => ?_
  cases overlaps <;> nofun

theorem validateRegions_ne_trap_iff : self.validateRegions ≠ .trap ↔ RegionsSafe self.ranges self.regions := by
  rw [validateRegions, regions, RegionsSafe,
    covered_bind_ne_trap { base := self.kernelBase, size := self.kernelSize, kind := .kernel }]
  refine and_congr_right fun _ => imp_congr_right fun _ => ?_
  by_cases hsize : self.initramfsSize.val ≠ 0
  · rw [if_pos hsize, if_pos hsize, List.singleton_append, RegionsSafe,
      covered_bind_ne_trap { base := self.initramfsBase, size := self.initramfsSize, kind := .initramfs },
      validateOwned_ne_trap_iff]
  · rw [if_neg hsize, if_neg hsize, List.nil_append, validateOwned_ne_trap_iff]

theorem validate_ne_trap_iff : self.validate ≠ .trap ↔ self.Bounded := by
  have hsum : (addU64 self.kernelBase.val self.kernelSize.val : Outcome ValidateError Nat) ≠ .trap ↔
      self.kernelBase.val + self.kernelSize.val < u64Bound := by
    unfold addU64
    split_ifs with hfits
    · exact iff_of_true (by nofun) hfits
    · exact iff_of_false (not_not.mpr rfl) hfits
  rw [validate]
  simp only [Outcome.ite_error_ne_trap_iff, Outcome.bind_ne_trap_iff, addU64_eq_ok, validateRegions_ne_trap_iff, hsum,
    not_not, not_or, and_imp]
  constructor
  · intro h
    have hheader (hok : self.HeaderOk) := h hok.magic hok.version hok.headerSize (Nat.not_lt_of_le hok.totalSize)
      hok.aligned (Nat.not_lt_of_le hok.rangeCount) (Nat.not_lt_of_le hok.fits) hok.checksum (Fin.not_lt.mpr hok.entry)
    refine ⟨fun hok => (hheader hok).1, fun hok hlayout => ?_⟩
    obtain ⟨hfits, hrest⟩ := hheader hok
    exact hrest _ hfits rfl (Nat.not_le_of_lt hlayout.entry) hlayout.stack.1 hlayout.stack.2 hlayout.aligned.1 hlayout.aligned.2
  · intro h hmagic hversion hheaderSize htotal haligned hcount hfits hchecksum hentry
    have hok : self.HeaderOk := ⟨hmagic, hversion, hheaderSize, Nat.le_of_not_lt htotal, haligned,
      Nat.le_of_not_lt hcount, Nat.le_of_not_lt hfits, hchecksum, Fin.not_lt.mp hentry⟩
    refine ⟨h.kernelEnd hok, ?_⟩
    rintro _ - rfl hlt hstack hstackAligned hkernel hinitramfs
    exact h.regions hok ⟨Nat.lt_of_not_le hlt, ⟨hstack, hstackAligned⟩, hkernel, hinitramfs⟩

theorem WellFormed.covers_region (h : self.WellFormed) {g : Region} (hg : g ∈ self.regions) :
    self.Covers g.base.val g.size.val g.kind ∧ g.kind ≠ .conventional := by
  have htotal : (Fin.ofNat u64Bound self.totalSize.val).val = self.totalSize.val :=
    Nat.mod_eq_of_lt (Nat.lt_trans self.totalSize.isLt (by decide))
  rw [regions, List.mem_cons, List.mem_append] at hg
  rcases hg with rfl | hg | hg
  · exact ⟨h.kernel, by nofun⟩
  · split_ifs at hg
    · rw [List.mem_singleton.mp hg]
      exact ⟨h.initramfs, by nofun⟩
    · exact absurd hg List.not_mem_nil
  · rw [List.mem_cons, List.mem_singleton] at hg
    rcases hg with rfl | rfl
    · exact ⟨h.stack, by nofun⟩
    · refine ⟨?_, by nofun⟩
      simp only [htotal]
      exact h.bootInfo

theorem gate_of_validate (h : self.validate = .ok ()) : self.Gate := by
  have hmap := wellFormed_of_validate h
  refine ⟨hmap, fun r hr hkind g hg x hx hlt hin => ?_⟩
  obtain ⟨hcovers, hother⟩ := hmap.covers_region hg
  obtain ⟨r', hr', hkind', hin'⟩ := hcovers x hx hlt
  rw [← hkind', ← hmap.unique hr hr' hin hin', hkind] at hother
  exact hother rfl

theorem covered_of_mapped {g : Region} (h : g.Mapped self.ranges) : self.covered g.base g.size g.kind = .ok true := by
  rcases covered_cases self g with ⟨-, hrun⟩ | ⟨hmissing, -⟩ | ⟨hrisk, -⟩
  · exact hrun
  · exact absurd h hmissing
  · exact absurd (Or.inr (Or.inr (Or.inr h.2.2))) hrisk

/-- A handoff that passes every check is accepted. -/
theorem validate_of_mapped (hheader : self.HeaderOk) (hlayout : self.LayoutOk)
    (hmapped : ∀ g ∈ self.regions, g.Mapped self.ranges) (hscan : rangesOverlap self.ranges = .ok false) :
    self.validate = .ok () := by
  rw [regions, List.forall_mem_cons, List.forall_mem_append] at hmapped
  obtain ⟨hkernel, hinitramfs, howned⟩ := hmapped
  have hstack := covered_of_mapped (howned _ List.mem_cons_self)
  have hinfo := covered_of_mapped (howned _ (List.mem_cons_of_mem _ List.mem_cons_self))
  have hvalidateOwned : self.validateOwned = .ok () := by
    rw [validateOwned]
    simp only [hstack, hinfo, hscan, Outcome.ok_bind, not_true_eq_false, if_false, Bool.false_eq_true]
  have hvalidateRegions : self.validateRegions = .ok () := by
    rw [validateRegions, covered_of_mapped hkernel, Outcome.ok_bind, if_neg (not_not.mpr rfl), hvalidateOwned]
    by_cases hsize : self.initramfsSize.val ≠ 0
    · rw [if_pos hsize] at hinitramfs ⊢
      rw [covered_of_mapped (hinitramfs _ List.mem_cons_self), Outcome.ok_bind, if_neg (not_not.mpr rfl)]
    · rw [if_neg hsize]
  rw [validate, if_neg (not_not.mpr hheader.magic), if_neg (not_not.mpr hheader.version),
    if_neg (not_not.mpr hheader.headerSize), if_neg (Nat.not_lt_of_le hheader.totalSize),
    if_neg (not_not.mpr hheader.aligned), if_neg (Nat.not_lt_of_le hheader.rangeCount),
    if_neg (Nat.not_lt_of_le hheader.fits), if_neg (not_not.mpr hheader.checksum), if_neg (Fin.not_lt.mpr hheader.entry),
    addU64_of_lt hkernel.2.1, Outcome.ok_bind, if_neg (Nat.not_le_of_lt hlayout.entry),
    if_neg (not_or.mpr ⟨hlayout.stack.1, not_not.mpr hlayout.stack.2⟩),
    if_neg (not_or.mpr ⟨not_not.mpr hlayout.aligned.1, not_not.mpr hlayout.aligned.2⟩), hvalidateRegions]

/-- The validation is a total and sound gate exactly where no address it computes leaves 64 bits. -/
theorem validate_gate_iff (info : BootInfo) :
    ((info.rangeCount.val ≤ maxRanges → Native.headerSize + info.rangeCount.val * rangeSize < u64Bound) ∧
        info.validate ≠ .trap ∧ (info.validate = .ok () → info.Gate)) ↔ info.Bounded := by
  have hneed : info.rangeCount.val ≤ maxRanges → Native.headerSize + info.rangeCount.val * rangeSize < u64Bound := by
    intro hcount
    have hbound : Native.headerSize + maxRanges * rangeSize < u64Bound := by decide
    exact Nat.lt_of_le_of_lt (Nat.add_le_add_left (Nat.mul_le_mul_right _ hcount) _) hbound
  rw [and_iff_right hneed, and_iff_left fun h => gate_of_validate h, validate_ne_trap_iff]

/-- The handoff of the tests, with a kernel range of so many pages. -/
def fixture (pages : Nat) : BootInfo :=
  let info : BootInfo := {
    totalSize := 4096, rangeCount := 5, efiDescSize := 48, efiDescVersion := 1
    kernelBase := 0x200000, kernelSize := 0x40000, kernelEntry := 0x200100
    initramfsBase := 0x400000, initramfsSize := 0x2000, stackBase := 0x500000, stackSize := 0x10000
    selfAddr := 0x700000
    rangeArray := fun i => [⟨0x200000, pages, .kernel⟩, ⟨0x400000, 2, .initramfs⟩, ⟨0x500000, 0x10, .kernelStack⟩,
      ⟨0x700000, 1, .bootInfo⟩, ⟨0x600000, 0x100, .conventional⟩].getD i ⟨0, 0, .reserved⟩ }
  { info with checksum := Fin.ofNat _ info.computeChecksum }

example : (fixture 0x40).validate = .ok () := by decide +kernel

/-- The comment of `covered` says that an arithmetic wrap fails closed. -/
theorem wrapping_range_traps :
    ¬(((fixture (2 ^ 52)).rangeCount.val ≤ maxRanges →
        Native.headerSize + (fixture (2 ^ 52)).rangeCount.val * rangeSize < u64Bound) ∧
      (fixture (2 ^ 52)).validate ≠ .trap ∧ ((fixture (2 ^ 52)).validate = .ok () → (fixture (2 ^ 52)).Gate)) := by
  have htrap : (fixture (2 ^ 52)).validate = .trap := by decide +kernel
  exact fun h => h.2.1 htrap

end BootInfo

end Native
