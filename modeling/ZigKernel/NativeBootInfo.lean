import ZigKernel.LangInt
import Mathlib.Data.List.Pairwise

/-! `src/native/boot_info.zig`: the handoff structure and its structural validation. The range array
behind the header is a function from indices to ranges, of which the first `range_count` are read;
the address of the structure itself, which one of the coverage checks uses, is a field. A sum that
leaves 64 bits in an unchecked addition is a trap, and a map on which the validation traps is not
accepted. -/

namespace Native

open Zig

/-- `ZKBOOT01` in little-endian order. -/
def magic : Nat := 0x3130544f4f424b5a
def version : Nat := 1
def headerSize : Nat := 256
def maxRanges : Nat := 512
def align : Nat := 4096
/-- `@sizeOf(Range)` -/
def rangeSize : Nat := 24

/-- `other n` is a value of the open enumeration that has no name. -/
inductive RangeKind where
  | conventional | reserved | kernel | initramfs | kernelStack | bootInfo | loader | acpiReclaim | nvs | mmio
  | other (n : Nat)
  deriving DecidableEq, Repr

structure Range where
  physStart : Nat
  pageCount : Nat
  kind : RangeKind
  deriving DecidableEq, Repr

inductive ValidateError where
  | badMagic | badVersion | badHeaderSize | badTotalSize | misalignedTotalSize | tooManyRanges | rangesOverflow
  | badChecksum | entryOutOfRange | badStack | misalignedRegion
  | kernelNotCovered | initramfsNotCovered | stackNotCovered | bootInfoNotCovered | overlappingRanges
  deriving DecidableEq, Repr

namespace Range

/-- One past the last byte, without the bound of 64 bits. -/
def stop (r : Range) : Nat := r.physStart + r.pageCount * 4096

def endAddr (r : Range) : Outcome ValidateError Nat := do addU64 r.physStart (← mulU64 r.pageCount 4096)

/-- The address lies in the range. -/
def Contains (r : Range) (x : Nat) : Prop := r.physStart ≤ x ∧ x < r.stop

instance (r : Range) (x : Nat) : Decidable (r.Contains x) := inferInstanceAs (Decidable (_ ∧ _))

theorem pageCount_ne_zero {r : Range} {x : Nat} (h : r.Contains x) : r.pageCount ≠ 0 := by
  intro hzero
  obtain ⟨hstart, hstop⟩ := h
  rw [stop, hzero] at hstop
  omega

theorem endAddr_eq_ok {r : Range} {n : Nat} : r.endAddr = .ok n ↔ r.stop < u64Bound ∧ r.stop = n := by
  unfold endAddr stop
  by_cases hmul : r.pageCount * 4096 < u64Bound
  · rw [mulU64, if_pos hmul, Outcome.ok_bind, addU64_eq_ok]
  · rw [mulU64, if_neg hmul, Outcome.trap_bind]
    exact iff_of_false (by nofun) fun h => by omega

theorem endAddr_ne_error {r : Range} {e : ValidateError} : r.endAddr ≠ .error e := by
  unfold endAddr
  by_cases hmul : r.pageCount * 4096 < u64Bound
  · rw [mulU64, if_pos hmul, Outcome.ok_bind]
    exact addU64_ne_error
  · rw [mulU64, if_neg hmul, Outcome.trap_bind]
    nofun

end Range

structure BootInfo where
  magic : U64 := Fin.ofNat _ Native.magic
  version : U32 := Fin.ofNat _ Native.version
  headerSize : U32 := Fin.ofNat _ Native.headerSize
  totalSize : U32
  flags : U32 := 0
  rangeCount : U64
  efiDescSize : U32
  efiDescVersion : U32
  kernelBase : U64
  kernelSize : U64
  kernelEntry : U64
  initramfsBase : U64
  initramfsSize : U64
  stackBase : U64
  stackSize : U64
  checksum : U64 := 0
  /-- `@intFromPtr(self)` -/
  selfAddr : U64
  /-- What lies behind the header, read as ranges. -/
  rangeArray : Nat → Range

namespace BootInfo

/-- `ranges()` -/
def ranges (self : BootInfo) : List Range := (List.range self.rangeCount.val).map self.rangeArray

/-- The 64-bit words in front of the checksum; a pair of 32-bit fields shares a word. -/
def words (self : BootInfo) : List Nat :=
  [self.magic, self.version.val + self.headerSize.val * 2 ^ 32, self.totalSize.val + self.flags.val * 2 ^ 32,
    self.rangeCount, self.efiDescSize.val + self.efiDescVersion.val * 2 ^ 32, self.kernelBase, self.kernelSize, self.kernelEntry,
    self.initramfsBase, self.initramfsSize, self.stackBase, self.stackSize]

def computeChecksum (self : BootInfo) : Nat := self.words.foldl wrapAddU64 0

/-- The range loop of `covered`: the end of the first range of the kind that holds the cursor. -/
def nextEnd (kind : RangeKind) (cursor : Nat) : List Range → Outcome ValidateError (Option Nat)
  | [] => .ok none
  | r :: rest =>
      if r.kind ≠ kind ∨ r.pageCount = 0 then nextEnd kind cursor rest
      else do
        let rEnd ← r.endAddr
        if r.physStart ≤ cursor ∧ rEnd > cursor then .ok (some rEnd) else nextEnd kind cursor rest

/-- The cursor loop of `covered`. Every turn moves the cursor, so `stop - cursor` turns are enough. -/
def coverLoop (rs : List Range) (kind : RangeKind) (stop : Nat) : Nat → Nat → Outcome ValidateError Bool
  | 0, cursor => if cursor < stop then .trap else .ok true
  | fuel + 1, cursor =>
      if cursor < stop then do
        match ← nextEnd kind cursor rs with
        | some next => coverLoop rs kind stop fuel next
        | none => .ok false
      else .ok true

def covered (self : BootInfo) (base size : U64) (kind : RangeKind) : Outcome ValidateError Bool :=
  if size.val = 0 then .ok false
  else
    let stop := wrapAddU64 base size
    if stop < base.val then .ok false else coverLoop self.ranges kind stop (stop - base.val) base

/-- The inner loop of `rangesOverlap`. -/
def overlapsAny (a : Range) : List Range → Outcome ValidateError Bool
  | [] => .ok false
  | b :: rest =>
      if b.pageCount = 0 then .ok true
      else do
        let aEnd ← a.endAddr
        let bEnd ← b.endAddr
        if a.physStart < bEnd ∧ b.physStart < aEnd then .ok true else overlapsAny a rest

/-- Adjacent ranges of the same kind may touch; distinct ranges may not overlap. -/
def rangesOverlap : List Range → Outcome ValidateError Bool
  | [] => .ok false
  | a :: rest =>
      if a.pageCount = 0 then .ok true
      else do
        if ← overlapsAny a rest then .ok true else rangesOverlap rest

/-- The checks of `validate` behind the one of the initramfs. -/
def validateOwned (self : BootInfo) : Outcome ValidateError Unit := do
  if ¬(← self.covered self.stackBase self.stackSize .kernelStack) then .error .stackNotCovered
  else if ¬(← self.covered self.selfAddr (Fin.ofNat _ self.totalSize.val) .bootInfo) then .error .bootInfoNotCovered
  else if ← rangesOverlap self.ranges then .error .overlappingRanges
  else .ok ()

/-- The checks of `validate` from the one of the kernel region on. -/
def validateRegions (self : BootInfo) : Outcome ValidateError Unit := do
  if ¬(← self.covered self.kernelBase self.kernelSize .kernel) then .error .kernelNotCovered
  else if self.initramfsSize.val ≠ 0 then
    if ¬(← self.covered self.initramfsBase self.initramfsSize .initramfs) then .error .initramfsNotCovered
    else self.validateOwned
  else self.validateOwned

def validate (self : BootInfo) : Outcome ValidateError Unit :=
  if self.magic.val ≠ Native.magic then .error .badMagic
  else if self.version.val ≠ Native.version then .error .badVersion
  else if self.headerSize.val ≠ Native.headerSize then .error .badHeaderSize
  else if self.totalSize.val < Native.headerSize then .error .badTotalSize
  else if self.totalSize.val % align ≠ 0 then .error .misalignedTotalSize
  else if self.rangeCount.val > maxRanges then .error .tooManyRanges
  else if Native.headerSize + self.rangeCount.val * rangeSize > self.totalSize.val then .error .rangesOverflow
  else if self.checksum.val ≠ self.computeChecksum then .error .badChecksum
  else if self.kernelEntry < self.kernelBase then .error .entryOutOfRange
  else do
    let kernelEnd ← addU64 self.kernelBase self.kernelSize
    if self.kernelEntry.val ≥ kernelEnd then .error .entryOutOfRange
    else if self.stackSize.val = 0 ∨ self.stackSize.val % align ≠ 0 then .error .badStack
    else if self.kernelBase.val % align ≠ 0 ∨ self.initramfsBase.val % align ≠ 0 then .error .misalignedRegion
    else self.validateRegions

/-! ### What the loops decide -/

theorem nextEnd_some {kind : RangeKind} {cursor next : Nat} {rs : List Range}
    (h : nextEnd kind cursor rs = .ok (some next)) :
    ∃ r ∈ rs, r.kind = kind ∧ r.Contains cursor ∧ r.stop = next := by
  induction rs with
  | nil => cases h
  | cons r rest ih =>
      rw [nextEnd] at h
      by_cases hskip : r.kind ≠ kind ∨ r.pageCount = 0
      · rw [if_pos hskip] at h
        obtain ⟨r', hmem, hr'⟩ := ih h
        exact ⟨r', List.mem_cons_of_mem _ hmem, hr'⟩
      · rw [if_neg hskip] at h
        obtain ⟨rEnd, hend, h⟩ := Outcome.bind_eq_ok h
        obtain ⟨-, hstop⟩ := Range.endAddr_eq_ok.mp hend
        by_cases hhit : r.physStart ≤ cursor ∧ rEnd > cursor
        · rw [if_pos hhit] at h
          cases h
          have hkind : r.kind = kind := not_not.mp fun hne => hskip (Or.inl hne)
          exact ⟨r, List.mem_cons_self, hkind, ⟨hhit.1, hstop ▸ hhit.2⟩, hstop⟩
        · rw [if_neg hhit] at h
          obtain ⟨r', hmem, hr'⟩ := ih h
          exact ⟨r', List.mem_cons_of_mem _ hmem, hr'⟩

theorem coverLoop_sound {rs : List Range} {kind : RangeKind} {stop fuel cursor : Nat}
    (h : coverLoop rs kind stop fuel cursor = .ok true) {x : Nat} (hx : cursor ≤ x) (hstop : x < stop) :
    ∃ r ∈ rs, r.kind = kind ∧ r.Contains x := by
  induction fuel generalizing cursor with
  | zero =>
      rw [coverLoop, if_pos (by omega)] at h
      cases h
  | succ fuel ih =>
      rw [coverLoop, if_pos (by omega)] at h
      obtain ⟨found, hnext, h⟩ := Outcome.bind_eq_ok h
      cases found with
      | none => cases h
      | some next =>
          obtain ⟨r, hmem, hkind, hcursor, hend⟩ := nextEnd_some hnext
          by_cases hin : x < next
          · exact ⟨r, hmem, hkind, Nat.le_trans hcursor.1 hx, hend ▸ hin⟩
          · exact ih h (Nat.le_of_not_lt hin)

/-- The turns the loop is given are enough: with more it ends the same way. -/
theorem coverLoop_fuel (rs : List Range) (kind : RangeKind) (stop : Nat) {fuel fuel' cursor : Nat}
    (h : stop - cursor ≤ fuel) (h' : stop - cursor ≤ fuel') :
    coverLoop rs kind stop fuel cursor = coverLoop rs kind stop fuel' cursor := by
  induction fuel generalizing fuel' cursor with
  | zero =>
      have hdone : ¬cursor < stop := by omega
      cases fuel' <;> simp only [coverLoop, if_neg hdone]
  | succ fuel ih =>
      by_cases hmore : cursor < stop
      · obtain ⟨fuel', rfl⟩ : ∃ n, fuel' = n + 1 := ⟨fuel' - 1, by omega⟩
        rw [coverLoop, coverLoop, if_pos hmore, if_pos hmore]
        cases hnext : nextEnd kind cursor rs with
        | error e => rfl
        | trap => rfl
        | ok found =>
            cases found with
            | none => rfl
            | some next =>
                obtain ⟨r, -, -, hcursor, hend⟩ := nextEnd_some hnext
                have hmoves : cursor < next := hend ▸ hcursor.2
                exact ih (by omega) (by omega)
      · cases fuel' <;> simp only [coverLoop, if_neg hmore]

/-- Ranges of the kind leave no gap in `[base, base + size)`. -/
def Covers (self : BootInfo) (base size : Nat) (kind : RangeKind) : Prop :=
  ∀ x, base ≤ x → x < base + size → ∃ r ∈ self.ranges, r.kind = kind ∧ r.Contains x

theorem covers_of_covered {self : BootInfo} {base size : U64} {kind : RangeKind}
    (h : self.covered base size kind = .ok true) : size.val ≠ 0 ∧ self.Covers base size kind := by
  rw [covered] at h
  by_cases hsize : size.val = 0
  · rw [if_pos hsize] at h
    cases h
  rw [if_neg hsize] at h
  by_cases hwrap : wrapAddU64 base size < base.val
  · simp only [if_pos hwrap] at h
    cases h
  simp only [if_neg hwrap] at h
  -- a wrapped sum would have been smaller than the base
  have hfits : base.val + size.val < u64Bound := by
    by_contra hover
    have hbase := base.isLt
    have hlt := size.isLt
    rw [wrapAddU64, Nat.mod_eq_sub_mod (by omega), Nat.mod_eq_of_lt (by omega)] at hwrap
    omega
  refine ⟨hsize, fun x hx hlt => coverLoop_sound h hx ?_⟩
  rwa [wrapAddU64, Nat.mod_eq_of_lt hfits]

end BootInfo

/-- The two ranges have no byte in common. -/
def Range.Apart (a b : Range) : Prop := a.stop ≤ b.physStart ∨ b.stop ≤ a.physStart

instance : Std.Symm Range.Apart := ⟨fun _ _ h => Or.symm h⟩

/-- The two ranges have been compared: both ends are addresses, and they are apart. -/
def Range.Separate (a b : Range) : Prop := a.stop < u64Bound ∧ b.stop < u64Bound ∧ a.Apart b

instance : Std.Symm Range.Separate := ⟨fun _ _ h => ⟨h.2.1, h.1, Or.symm h.2.2⟩⟩

theorem Range.Apart.not_contains {a b : Range} (h : a.Apart b) {x : Nat} (ha : a.Contains x) : ¬b.Contains x := by
  rintro ⟨hstart, hstop⟩
  obtain ⟨hstart', hstop'⟩ := ha
  rcases h with h | h <;> omega

namespace BootInfo

theorem overlapsAny_false {a : Range} {rs : List Range} (h : overlapsAny a rs = .ok false) :
    ∀ b ∈ rs, b.pageCount ≠ 0 ∧ a.Separate b := by
  induction rs with
  | nil => exact fun b hb => absurd hb List.not_mem_nil
  | cons b rest ih =>
      rw [overlapsAny] at h
      by_cases hempty : b.pageCount = 0
      · rw [if_pos hempty] at h
        cases h
      rw [if_neg hempty] at h
      obtain ⟨aEnd, ha, h⟩ := Outcome.bind_eq_ok h
      obtain ⟨bEnd, hb, h⟩ := Outcome.bind_eq_ok h
      obtain ⟨habound, rfl⟩ := Range.endAddr_eq_ok.mp ha
      obtain ⟨hbbound, rfl⟩ := Range.endAddr_eq_ok.mp hb
      by_cases hoverlap : a.physStart < b.stop ∧ b.physStart < a.stop
      · rw [if_pos hoverlap] at h
        cases h
      rw [if_neg hoverlap] at h
      intro c hc
      rcases List.mem_cons.mp hc with rfl | hc
      · have hapart : a.Apart c := by
          unfold Range.Apart
          omega
        exact ⟨hempty, habound, hbbound, hapart⟩
      · exact ih h c hc

theorem rangesOverlap_false {rs : List Range} (h : rangesOverlap rs = .ok false) :
    (∀ r ∈ rs, r.pageCount ≠ 0) ∧ rs.Pairwise Range.Separate := by
  induction rs with
  | nil => exact ⟨fun r hr => absurd hr List.not_mem_nil, List.Pairwise.nil⟩
  | cons a rest ih =>
      rw [rangesOverlap] at h
      by_cases hempty : a.pageCount = 0
      · rw [if_pos hempty] at h
        cases h
      rw [if_neg hempty] at h
      obtain ⟨overlaps, hany, h⟩ := Outcome.bind_eq_ok h
      cases overlaps with
      | true => cases h
      | false =>
          obtain ⟨hpages, hpairs⟩ := ih h
          refine ⟨?_, List.pairwise_cons.mpr ⟨fun b hb => (overlapsAny_false hany b hb).2, hpairs⟩⟩
          intro r hr
          rcases List.mem_cons.mp hr with rfl | hr
          · exact hempty
          · exact hpages r hr

theorem rangesOverlap_of_separate {rs : List Range} (hpages : ∀ r ∈ rs, r.pageCount ≠ 0)
    (hpairs : rs.Pairwise Range.Separate) : rangesOverlap rs = .ok false := by
  have hany {a : Range} {rest : List Range} (hrest : ∀ b ∈ rest, b.pageCount ≠ 0 ∧ a.Separate b) :
      overlapsAny a rest = .ok false := by
    induction rest with
    | nil => rfl
    | cons b rest ih =>
        obtain ⟨⟨hempty, ha, hb, hapart⟩, hrest⟩ := List.forall_mem_cons.mp hrest
        have hmiss : ¬(a.physStart < b.stop ∧ b.physStart < a.stop) := by
          rcases hapart with h | h <;> omega
        rw [overlapsAny, if_neg hempty, Range.endAddr_eq_ok.mpr ⟨ha, rfl⟩, Outcome.ok_bind,
          Range.endAddr_eq_ok.mpr ⟨hb, rfl⟩, Outcome.ok_bind, if_neg hmiss]
        exact ih hrest
  induction rs with
  | nil => rfl
  | cons a rest ih =>
      obtain ⟨hempty, hpages⟩ := List.forall_mem_cons.mp hpages
      obtain ⟨ha, hpairs⟩ := List.pairwise_cons.mp hpairs
      rw [rangesOverlap, if_neg hempty, hany fun b hb => ⟨hpages b hb, ha b hb⟩, Outcome.ok_bind]
      exact ih hpages hpairs

/-! ### An accepted map -/

/-- What the validation establishes about the range map. -/
structure WellFormed (info : BootInfo) : Prop where
  pages : ∀ r ∈ info.ranges, r.pageCount ≠ 0
  bounded : ∀ r ∈ info.ranges, r.stop < u64Bound
  apart : info.ranges.Pairwise Range.Apart
  kernel : info.Covers info.kernelBase info.kernelSize .kernel
  initramfs : info.Covers info.initramfsBase info.initramfsSize .initramfs
  stack : info.Covers info.stackBase info.stackSize .kernelStack
  bootInfo : info.Covers info.selfAddr info.totalSize .bootInfo

theorem validate_regions {self : BootInfo} (h : self.validate = .ok ()) : self.validateRegions = .ok () := by
  unfold validate at h
  iterate 9 replace h := (Outcome.ite_error_eq_ok h).2
  obtain ⟨kernelEnd, -, h⟩ := Outcome.bind_eq_ok h
  iterate 3 replace h := (Outcome.ite_error_eq_ok h).2
  exact h

theorem validateRegions_ok {self : BootInfo} (h : self.validateRegions = .ok ()) :
    self.covered self.kernelBase self.kernelSize .kernel = .ok true ∧
      (self.initramfsSize.val ≠ 0 → self.covered self.initramfsBase self.initramfsSize .initramfs = .ok true) ∧
      self.validateOwned = .ok () := by
  unfold validateRegions at h
  obtain ⟨kernelCovered, hkernel, h⟩ := Outcome.bind_eq_ok h
  obtain ⟨hkernelTrue, h⟩ := Outcome.ite_error_eq_ok h
  rw [not_not.mp hkernelTrue] at hkernel
  by_cases hsize : self.initramfsSize.val ≠ 0
  · rw [if_pos hsize] at h
    obtain ⟨initramfsCovered, hinitramfs, h⟩ := Outcome.bind_eq_ok h
    obtain ⟨hinitramfsTrue, h⟩ := Outcome.ite_error_eq_ok h
    rw [not_not.mp hinitramfsTrue] at hinitramfs
    exact ⟨hkernel, fun _ => hinitramfs, h⟩
  · rw [if_neg hsize] at h
    exact ⟨hkernel, fun hne => absurd hne hsize, h⟩

theorem validateOwned_ok {self : BootInfo} (h : self.validateOwned = .ok ()) :
    self.covered self.stackBase self.stackSize .kernelStack = .ok true ∧
      self.covered self.selfAddr (Fin.ofNat _ self.totalSize.val) .bootInfo = .ok true ∧
      rangesOverlap self.ranges = .ok false := by
  unfold validateOwned at h
  obtain ⟨stackCovered, hstack, h⟩ := Outcome.bind_eq_ok h
  obtain ⟨hstackTrue, h⟩ := Outcome.ite_error_eq_ok h
  obtain ⟨infoCovered, hinfo, h⟩ := Outcome.bind_eq_ok h
  obtain ⟨hinfoTrue, h⟩ := Outcome.ite_error_eq_ok h
  obtain ⟨overlaps, hoverlap, h⟩ := Outcome.bind_eq_ok h
  obtain ⟨hoverlapFalse, -⟩ := Outcome.ite_error_eq_ok h
  rw [not_not.mp hstackTrue] at hstack
  rw [not_not.mp hinfoTrue] at hinfo
  rw [Bool.not_eq_true] at hoverlapFalse
  rw [hoverlapFalse] at hoverlap
  exact ⟨hstack, hinfo, hoverlap⟩

/-- Every address computation of an accepted map stays within 64 bits: the map has a kernel range and a
stack range, so every range has been compared with another one. -/
theorem wellFormed_of_validate {self : BootInfo} (h : self.validate = .ok ()) : self.WellFormed := by
  obtain ⟨hkernel, hinitramfs, howned⟩ := validateRegions_ok (validate_regions h)
  obtain ⟨hstack, hinfo, hoverlap⟩ := validateOwned_ok howned
  obtain ⟨hpages, hpairs⟩ := rangesOverlap_false hoverlap
  obtain ⟨hkernelSize, hkernelCovers⟩ := covers_of_covered hkernel
  obtain ⟨hstackSize, hstackCovers⟩ := covers_of_covered hstack
  obtain ⟨-, hinfoCovers⟩ := covers_of_covered hinfo
  have htotal : (Fin.ofNat u64Bound self.totalSize.val).val = self.totalSize.val := by
    have := self.totalSize.isLt
    exact Nat.mod_eq_of_lt (Nat.lt_trans this (by decide))
  rw [htotal] at hinfoCovers
  constructor
  · exact hpages
  · intro r hr
    obtain ⟨k, hk, hkkind, -⟩ := hkernelCovers _ (Nat.le_refl _) (Nat.lt_add_of_pos_right (Nat.pos_of_ne_zero hkernelSize))
    obtain ⟨t, ht, htkind, -⟩ := hstackCovers _ (Nat.le_refl _) (Nat.lt_add_of_pos_right (Nat.pos_of_ne_zero hstackSize))
    by_cases hrkind : r.kind = .kernel
    · have hne : r ≠ t := fun heq => by
        rw [heq, htkind] at hrkind
        cases hrkind
      exact (hpairs.forall hr ht hne).1
    · have hne : r ≠ k := fun heq => hrkind (heq ▸ hkkind)
      exact (hpairs.forall hr hk hne).1
  · exact hpairs.imp fun h => h.2.2
  · exact hkernelCovers
  · by_cases hsize : self.initramfsSize.val = 0
    · intro x hx hlt
      omega
    · exact (covers_of_covered (hinitramfs hsize)).2
  · exact hstackCovers
  · exact hinfoCovers

/-- Two ranges of the map that share an address are the same range. -/
theorem WellFormed.unique {self : BootInfo} (h : self.WellFormed) {a b : Range} (ha : a ∈ self.ranges)
    (hb : b ∈ self.ranges) {x : Nat} (hax : a.Contains x) (hbx : b.Contains x) : a = b := by
  by_contra hne
  have hapart := h.apart.forall ha hb hne
  exact hapart.not_contains hax hbx

end BootInfo

end Native
