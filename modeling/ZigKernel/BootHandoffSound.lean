import ZigKernel.BootHandoff
import ZigKernel.NativeBootInfoGate
import ZigKernel.NativeMemmapCapacity

/-! The two sides of the handoff agree: the loader writes the owned spans into the map, and the kernel finds each of
its regions covered by ranges of the region's kind. -/

namespace Boot

open Zig Native Memmap

/-- Owned spans without a common page. -/
def SharesNoPage (a b : Span) : Prop := ∀ n, ¬(HasPage a.base a.stop n ∧ HasPage b.base b.stop n)

instance : Std.Symm SharesNoPage := ⟨fun _ _ h n hn => h n hn.symm⟩

/-- What the firmware promises about its map, and the loader about its allocations. -/
structure Placement.Fits (p : Placement) (descs : List Desc) : Prop where
  aligned : ∀ d ∈ descs, page ∣ d.start ∧ d.stop < u64Bound
  disjoint : Disjoint descs
  owned_aligned : ∀ o ∈ p.owned biPages, page ∣ o.base
  owned_disjoint : (p.owned biPages).Pairwise SharesNoPage
  contained : ∀ o ∈ p.owned biPages, ∀ n, HasPage o.base o.stop n → ∃ d ∈ descs, HasPage d.start d.stop n
  kentry : kernelBase ≤ p.kentry.val ∧ p.kentry.val < kernelBase + p.kpages.val * 4096
  initrdLen : 1 ≤ p.initrdLen.val ∧ p.initrdLen.val ≤ p.ipages.val * 4096

namespace Placement.Fits

variable {p : Placement} {descs : List Desc}

theorem sane_descs (h : p.Fits descs) : ∀ d ∈ descs, d.Sane := fun d hd _ => h.aligned d hd

/-- The sizes of the owned spans are page multiples, and none is zero. -/
theorem owned_size (h : p.Fits descs) : ∀ o ∈ p.owned biPages, page ∣ o.size ∧ o.size ≠ 0 := by
  obtain ⟨hentry, hentry'⟩ := h.kentry
  obtain ⟨hlen, hlen'⟩ := h.initrdLen
  have hpage : page = 4096 := rfl
  rw [owned, hpage]
  simp only [List.forall_mem_cons]
  refine ⟨⟨Nat.dvd_mul_left _ _, by omega⟩, ⟨Nat.dvd_mul_left _ _, by omega⟩, ⟨Nat.dvd_mul_left _ _, by decide⟩,
    ⟨Nat.dvd_mul_left _ _, by decide⟩, fun o ho => absurd ho List.not_mem_nil⟩

theorem sane_owned (h : p.Fits descs) : ∀ o ∈ p.owned biPages, Sane o := by
  intro o ho hempty
  have hbase := h.owned_aligned o ho
  obtain ⟨hsize, -⟩ := h.owned_size o ho
  refine ⟨hbase, hsize, ?_⟩
  -- the last page of the span lies in a descriptor
  have hpage : page = 4096 := rfl
  have hstop : o.stop = o.base + o.size := rfl
  have hlast : HasPage o.base o.stop (o.stop / page - 1) := by
    rw [HasPage]
    rw [hpage] at hbase hsize ⊢
    omega
  obtain ⟨d, hd, -, hin⟩ := h.contained o ho _ hlast
  have hbound := (h.aligned d hd).2
  rw [hpage] at hbase hsize hin
  omega

theorem kindOf_owned (h : p.Fits descs) {o : Span} (ho : o ∈ p.owned biPages) {n : Nat} (hn : HasPage o.base o.stop n)
    (d : Desc) : kindOf (p.owned biPages) d n = o.kind := by
  rw [kindOf]
  cases hlast : ((p.owned biPages).filter fun o => HasPage o.base o.stop n).getLast? with
  | none =>
      rw [List.getLast?_eq_none_iff, List.filter_eq_nil_iff] at hlast
      exact absurd (decide_eq_true hn) (hlast o ho)
  | some o' =>
      obtain ⟨ho', hn'⟩ := List.mem_filter.mp (List.mem_of_getLast? hlast)
      have hsame : o' = o := by
        by_contra hne
        exact h.owned_disjoint.forall ho' ho hne n ⟨of_decide_eq_true hn', hn⟩
      rw [hsame]
      rfl

/-- Every page of an owned span lies in a range of its kind. -/
theorem covered_owned (h : p.Fits descs) {o : Span} (ho : o ∈ p.owned biPages) :
    CoveredBy (descs.flatMap (parts (p.owned biPages))) o.kind o.base o.stop := by
  intro x hx hstop
  have hpage : page = 4096 := rfl
  obtain ⟨hsize, -⟩ := h.owned_size o ho
  have hn : HasPage o.base o.stop (x / page) := by
    have hbase := h.owned_aligned o ho
    refine (hasPage_iff hbase (Nat.dvd_add hbase hsize) _).mpr ?_
    rw [hpage] at hbase ⊢
    exact ⟨by omega, Nat.lt_of_le_of_lt (Nat.div_mul_le_self _ _) hstop⟩
  obtain ⟨d, hd, hnd⟩ := h.contained o ho _ hn
  have hrepaints := parts_repaints (h.sane_descs d hd) fun _ => h.sane_owned
  have honce := hrepaints.once (x / page)
  rw [if_pos hnd] at honce
  obtain ⟨r, hr, hnr⟩ := List.countP_pos_iff.mp (Nat.lt_of_lt_of_eq Nat.one_pos honce.symm)
  have hnr : HasPage r.physStart r.stop (x / page) := of_decide_eq_true hnr
  refine ⟨r, List.mem_flatMap.mpr ⟨d, hd, hr⟩, (hrepaints.kind r hr _ hnr).trans (h.kindOf_owned ho hn d), ?_⟩
  obtain ⟨hlo, hhi⟩ := hnr
  rw [hpage] at hlo hhi
  exact ⟨by omega, by omega⟩

theorem not_wraps (h : p.Fits descs) : ∀ r ∈ descs.flatMap (parts (p.owned biPages)), ¬r.Wraps := by
  intro r hr hwraps
  obtain ⟨d, hd, hr⟩ := List.mem_flatMap.mp hr
  obtain ⟨-, -, hstop, -⟩ := parts_bounds (h.sane_descs d hd) (fun _ => h.sane_owned) r hr
  exact Nat.not_lt_of_le hwraps.2 (Nat.lt_of_le_of_lt hstop (h.aligned d hd).2)

/-- A region that lies at the start of an owned span of its kind is mapped. -/
theorem mapped (h : p.Fits descs) {o : Span} (ho : o ∈ p.owned biPages) {g : Region} (hkind : g.kind = o.kind)
    (hbase : g.base.val = o.base) (hsize : g.size.val ≠ 0) (hle : g.size.val ≤ o.size) :
    g.Mapped (descs.flatMap (parts (p.owned biPages))) := by
  have hbound : o.stop < u64Bound := (h.sane_owned o ho (h.owned_size o ho).2).2.2
  have hstop : o.stop = o.base + o.size := rfl
  refine ⟨hsize, by omega, fun x hx hlt => ?_⟩
  rw [front_of_bounded fun r hr hwraps => h.not_wraps r hr hwraps.2, hkind]
  exact h.covered_owned ho x (by omega) (by omega)

end Placement.Fits

/-! ### The published structure -/

theorem ranges_withRanges (info : BootInfo) {ranges : List Range} (hlength : ranges.length ≤ maxRanges) :
    (withRanges info ranges).ranges = ranges := by
  have hbound : ranges.length < u64Bound := Nat.lt_of_le_of_lt hlength (by decide)
  have hcount : (withRanges info ranges).rangeCount.val = ranges.length := Nat.mod_eq_of_lt hbound
  unfold BootInfo.ranges
  rw [hcount]
  refine List.ext_getElem ?_ fun i hi hi' => ?_
  · rw [List.length_map, List.length_range]
  · rw [List.getElem_map, List.getElem_range]
    show ranges.getD i (info.rangeArray i) = ranges[i]
    rw [List.getD_eq_getElem?_getD, List.getElem?_eq_getElem hi', Option.getD_some]

theorem readDescriptors_run {ds : List MemoryDescriptor} {out : List Desc}
    (hbound : ∀ d ∈ ds, (toDesc d).stop < u64Bound) (hlength : out.length + ds.length ≤ maxFirmwareDescs) :
    readDescriptors out ds = .ok (out ++ ds.map toDesc) := by
  induction ds generalizing out with
  | nil => rw [readDescriptors, List.map_nil, List.append_nil]
  | cons d rest ih =>
      obtain ⟨hd, hrest⟩ := List.forall_mem_cons.mp hbound
      have hstop : (toDesc d).stop = d.physicalStart.val + d.numberOfPages.val * page := rfl
      rw [List.length_cons] at hlength
      rw [readDescriptors, if_neg (by omega), mathMul, if_pos (by omega)]
      simp only
      rw [mathAdd, if_pos (by omega)]
      simp only
      rw [if_neg (by omega), ih hrest (by rw [List.length_append, List.length_singleton]; omega), List.map_cons,
        List.append_assoc, List.singleton_append]

theorem foldl_wrapAddU64_lt {sum : Nat} (hsum : sum < u64Bound) (words : List Nat) :
    words.foldl wrapAddU64 sum < u64Bound := by
  induction words generalizing sum with
  | nil => exact hsum
  | cons w rest ih => exact ih (Nat.mod_lt _ (by decide))

/-- The checksum does not sum itself. -/
theorem computeChecksum_checksum (info : BootInfo) (c : U64) :
    ({ info with checksum := c } : BootInfo).computeChecksum = info.computeChecksum := by
  have hwords : ({ info with checksum := c } : BootInfo).words = info.words := rfl
  rw [BootInfo.computeChecksum, hwords, BootInfo.computeChecksum]

theorem checksum_withRanges (info : BootInfo) (ranges : List Range) :
    (withRanges info ranges).checksum.val = (withRanges info ranges).computeChecksum := by
  rw [withRanges, computeChecksum_checksum, BootInfo.computeChecksum]
  exact Nat.mod_eq_of_lt (foldl_wrapAddU64_lt (Nat.two_pow_pos 64) _)

section Published

variable {p : Placement} {descs : List Desc} {map : MemoryMapSlice} {stale : Nat → Range} {info : BootInfo}

/-- The fields of the header that the validation reads. -/
structure Published (p : Placement) (info : BootInfo) : Prop where
  magic : info.magic.val = Native.magic
  version : info.version.val = Native.version
  headerSize : info.headerSize.val = Native.headerSize
  totalSize : info.totalSize.val = biPages * 4096
  kernelBase : info.kernelBase.val = kernelBase
  kernelSize : info.kernelSize.val = p.kpages.val * 4096
  kernelEntry : info.kernelEntry = p.kentry
  initramfsBase : info.initramfsBase = p.ibase
  initramfsSize : info.initramfsSize = p.initrdLen
  stackBase : info.stackBase = p.stackBase
  stackSize : info.stackSize.val = stackPages * 4096
  selfAddr : info.selfAddr = p.info

theorem header_ok (hinfo : header p biPages map stale = .ok info) : Published p info := by
  obtain ⟨bytes, hbytes, hinfo⟩ := Outcome.bind_eq_ok hinfo
  obtain ⟨-, rfl⟩ := mulU64_eq_ok.mp hbytes
  obtain ⟨totalSize, htotal, hinfo⟩ := Outcome.bind_eq_ok hinfo
  obtain ⟨descSize, -, hinfo⟩ := Outcome.bind_eq_ok hinfo
  obtain ⟨kernelSize, hkernel, hinfo⟩ := Outcome.bind_eq_ok hinfo
  obtain ⟨hkernelBound, rfl⟩ := mulU64_eq_ok.mp hkernel
  obtain ⟨stackSize, hstack, hinfo⟩ := Outcome.bind_eq_ok hinfo
  obtain ⟨hstackBound, rfl⟩ := mulU64_eq_ok.mp hstack
  rw [castU32_of_lt (by decide)] at htotal
  cases htotal
  cases hinfo
  exact ⟨rfl, rfl, rfl, rfl, rfl, Nat.mod_eq_of_lt hkernelBound, rfl, rfl, rfl, rfl, Nat.mod_eq_of_lt hstackBound, rfl⟩

theorem header_total (h : p.Fits descs) (hsize : map.descriptorSize.val < u32Bound) :
    ∃ info, header p biPages map stale = .ok info := by
  have hkernel := (h.sane_owned _ List.mem_cons_self (h.owned_size _ List.mem_cons_self).2).2.2
  have hkernelSize : p.kpages.val * 4096 < u64Bound := Nat.lt_of_le_of_lt (Nat.le_add_left _ _) hkernel
  have hbytes : (mulU64 biPages 4096 : Outcome Error Nat) = .ok 0x4000 := by decide
  have htotal : (castU32 0x4000 : Outcome Error U32) = .ok 0x4000 := by decide
  have hstack : (mulU64 stackPages 4096 : Outcome Error Nat) = .ok 0x10000 := by decide
  rw [header, hbytes, Outcome.ok_bind, htotal, Outcome.ok_bind, castU32_of_lt hsize, Outcome.ok_bind,
    mulU64_of_lt hkernelSize, Outcome.ok_bind, hstack]
  exact ⟨_, rfl⟩

/-- The kernel accepts what the loader publishes. -/
theorem validate_withRanges (h : p.Fits descs) (hinfo : Published p info) {capacity : Nat} {out : List Range}
    (hout : normalize descs (p.owned biPages) capacity = .ok out) (hlength : out.length ≤ maxRanges) :
    (withRanges info out).validate = .ok () := by
  have hflat := (normalize_ok hout).1
  have hranges := ranges_withRanges info hlength
  have hmax : maxRanges = 512 := rfl
  have hcount : (withRanges info out).rangeCount.val = out.length :=
    Nat.mod_eq_of_lt (Nat.lt_of_le_of_lt hlength (by decide))
  have halign : align = page := rfl
  obtain ⟨hentry, hentry'⟩ := h.kentry
  obtain ⟨hlen, hlen'⟩ := h.initrdLen
  obtain ⟨hkernelBase, hibase, hstackBase, -⟩ := List.forall_mem_cons.mp h.owned_aligned |>.imp_right fun h =>
    List.forall_mem_cons.mp h |>.imp_right List.forall_mem_cons.mp
  have hheader : (withRanges info out).HeaderOk := by
    refine ⟨hinfo.magic, hinfo.version, hinfo.headerSize, ?_, ?_, ?_, ?_, checksum_withRanges info out, ?_⟩
    · exact Nat.le_trans (by decide) (Nat.le_of_eq hinfo.totalSize.symm)
    · exact (congrArg (· % align) hinfo.totalSize).trans (by decide)
    · rwa [hcount]
    · rw [hcount]
      exact Nat.le_trans (Nat.add_le_add_left (Nat.mul_le_mul_right _ hlength) _)
        (Nat.le_trans (by decide) (Nat.le_of_eq hinfo.totalSize.symm))
    · show info.kernelBase.val ≤ info.kernelEntry.val
      rwa [hinfo.kernelBase, hinfo.kernelEntry]
  have hlayout : (withRanges info out).LayoutOk := by
    refine ⟨?_, ⟨?_, ?_⟩, ?_, ?_⟩
    · show info.kernelEntry.val < info.kernelBase.val + info.kernelSize.val
      rwa [hinfo.kernelBase, hinfo.kernelEntry, hinfo.kernelSize]
    · exact fun hzero => absurd (hinfo.stackSize.symm.trans hzero) (by decide)
    · exact (congrArg (· % align) hinfo.stackSize).trans (by decide)
    · exact (congrArg (· % align) hinfo.kernelBase).trans (by decide)
    · exact (congrArg (fun base : U64 => base.val % align) hinfo.initramfsBase).trans (Nat.mod_eq_zero_of_dvd hibase)
  refine BootInfo.validate_of_mapped hheader hlayout ?_ ?_
  · rw [hranges, hflat]
    intro g hg
    rw [BootInfo.regions, List.mem_cons, List.mem_append] at hg
    rcases hg with rfl | hg | hg
    · refine h.mapped List.mem_cons_self rfl hinfo.kernelBase ?_ (Nat.le_of_eq hinfo.kernelSize)
      show info.kernelSize.val ≠ 0
      rw [hinfo.kernelSize]
      omega
    · have hlenInfo : info.initramfsSize.val = p.initrdLen.val := congrArg Fin.val hinfo.initramfsSize
      split_ifs at hg
      · rw [List.mem_singleton.mp hg]
        refine h.mapped (List.mem_cons_of_mem _ List.mem_cons_self) rfl (congrArg Fin.val hinfo.initramfsBase) ?_ ?_
        · exact Nat.ne_of_gt (Nat.lt_of_lt_of_eq hlen hlenInfo.symm)
        · exact Nat.le_trans (Nat.le_of_eq hlenInfo) hlen'
      · exact absurd hg List.not_mem_nil
    · rw [List.mem_cons, List.mem_singleton] at hg
      rcases hg with rfl | rfl
      · refine h.mapped (List.mem_cons_of_mem _ (List.mem_cons_of_mem _ List.mem_cons_self)) rfl
          (congrArg Fin.val hinfo.stackBase) ?_ (Nat.le_of_eq hinfo.stackSize)
        exact fun hzero => absurd (hinfo.stackSize.symm.trans hzero) (by decide)
      · have htotal : (Fin.ofNat u64Bound info.totalSize.val).val = biPages * 4096 :=
          (Nat.mod_eq_of_lt (Nat.lt_trans info.totalSize.isLt (by decide))).trans hinfo.totalSize
        refine h.mapped (List.mem_cons_of_mem _ (List.mem_cons_of_mem _ (List.mem_cons_of_mem _ List.mem_cons_self))) rfl
          (congrArg Fin.val hinfo.selfAddr) ?_ (Nat.le_of_eq htotal)
        exact fun hzero => absurd (htotal.symm.trans hzero) (by decide)
  · rw [hranges]
    exact normalize_disjoint hout h.disjoint

/-- The storage behind the header has room for 672 ranges. -/
theorem storageLength_run (hinfo : Published p info) : storageLength info = .ok 672 := by
  have hbytes : (subU64 info.totalSize.val headerSize : Outcome Error Nat) = .ok 16128 := by
    rw [hinfo.totalSize]
    decide
  rw [storageLength, hbytes]
  rfl

/-- With at most as many descriptors as the loader holds, the map is normalized into a publishable number of ranges. -/
theorem normalize_published (h : p.Fits descs) (hfew : descs.length ≤ maxFirmwareDescs) :
    ∃ out, normalize descs (p.owned biPages) 672 = .ok out ∧ 1 ≤ out.length ∧ out.length ≤ maxRanges := by
  have hmax : maxFirmwareDescs = 256 := rfl
  have hmax' : maxRanges = 512 := rfl
  have hfour : (p.owned biPages).length = 4 := rfl
  obtain ⟨out, hout, hlength⟩ := normalize_total h.sane_descs h.disjoint h.sane_owned (by omega)
    (show descs.length + 2 * (p.owned biPages).length ≤ 672 by omega)
  refine ⟨out, hout, Nat.pos_of_ne_zero fun hzero => ?_, by omega⟩
  -- the first page of the kernel is in the map
  obtain ⟨hentry, hentry'⟩ := h.kentry
  obtain ⟨r, hr, -⟩ := h.covered_owned List.mem_cons_self kernelBase (Nat.le_refl _)
    (Nat.lt_of_le_of_lt hentry hentry')
  rw [(normalize_ok hout).1] at hzero
  rw [List.length_eq_zero_iff.mp hzero] at hr
  exact absurd hr List.not_mem_nil

end Published

/-- Loader and kernel agree on the handoff. -/
theorem handoff_agrees (p : Placement) (descs : List Desc) (h : p.Fits descs) (map : MemoryMapSlice) (stale : Nat → Range) :
    (∀ info, header p biPages map stale = .ok info →
      (∀ capacity out, normalize descs (p.owned biPages) capacity = .ok out → 1 ≤ out.length → out.length ≤ maxRanges →
        (withRanges info out).validate = .ok ()) ∧
      (descs.length ≤ maxFirmwareDescs → ∃ capacity out, storageLength info = .ok capacity ∧
        normalize descs (p.owned biPages) capacity = .ok out ∧ 1 ≤ out.length ∧ out.length ≤ maxRanges)) ∧
      (map.descriptors.map toDesc = descs → descs.length ≤ maxFirmwareDescs → map.descriptorSize.val < u32Bound →
        ∃ info out, header p biPages map stale = .ok info ∧
          publishBootInfo p map (p.owned biPages) biPages stale = .ok (out.length, withRanges info out)) := by
  refine ⟨fun info hinfo => ⟨fun capacity out hout _ hlength => ?_, fun hfew => ?_⟩, fun hmap hfew hsize => ?_⟩
  · exact validate_withRanges h (header_ok hinfo) hout hlength
  · obtain ⟨out, hout⟩ := normalize_published h hfew
    exact ⟨672, out, storageLength_run (header_ok hinfo), hout⟩
  · obtain ⟨info, hinfo⟩ : ∃ info, header p biPages map stale = .ok info := header_total h hsize
    obtain ⟨out, hout, hpos, hlength⟩ := normalize_published h hfew
    have hread : readFinalMap map = .ok descs := by
      have hbound : ∀ d ∈ map.descriptors, (toDesc d).stop < u64Bound := fun d hd =>
        (h.aligned _ (hmap ▸ List.mem_map_of_mem hd)).2
      have hlength : ([] : List Desc).length + map.descriptors.length ≤ maxFirmwareDescs := by
        rw [← hmap, List.length_map] at hfew
        rwa [List.length_nil, Nat.zero_add]
      rw [readFinalMap, readDescriptors_run hbound hlength, List.nil_append, hmap]
    refine ⟨info, out, hinfo, ?_⟩
    rw [publishBootInfo, hread, Outcome.ok_bind, hinfo, Outcome.ok_bind, storageLength_run (header_ok hinfo), Outcome.ok_bind,
      hout]
    simp only [Outcome.mapError, Outcome.ok_bind]
    rw [if_neg (Nat.ne_of_gt hpos), validate_withRanges h (header_ok hinfo) hout hlength]
    rfl

/-- The allocations of a machine of sixteen MiB. -/
def sample : Placement :=
  { info := 0x700000, kpages := 2, kentry := 0x200100, ibase := 0x400000, ipages := 2, initrdLen := 0x1800, stackBase := 0x500000 }

def sampleMap : MemoryMapSlice :=
  { descriptors := [{ type := .conventionalMemory, physicalStart := 0, numberOfPages := 0x1000 }]
    descriptorSize := 48, descriptorVersion := 1 }

theorem sample_fits : sample.Fits (sampleMap.descriptors.map toDesc) := by
  have hdescs : sampleMap.descriptors.map toDesc = [{ start := 0, pages := 0x1000, kind := .conventional }] := by decide
  have howned : sample.owned biPages = [{ base := 0x200000, size := 0x2000, kind := .kernel },
      { base := 0x400000, size := 0x2000, kind := .initramfs }, { base := 0x500000, size := 0x10000, kind := .kernelStack },
      { base := 0x700000, size := 0x4000, kind := .bootInfo }] := by decide
  constructor
  · rw [hdescs]
    decide
  · rw [hdescs]
    exact List.pairwise_singleton _ _
  · rw [howned]
    decide
  · rw [howned]
    simp only [List.pairwise_cons, List.forall_mem_cons, SharesNoPage, HasPage, Spans.Span.stop, page]
    refine ⟨⟨?_, ?_, ?_, by simp⟩, ⟨?_, ?_, by simp⟩, ⟨?_, by simp⟩, by simp, .nil⟩ <;> intro n <;> omega
  · rw [howned, hdescs]
    simp only [List.forall_mem_cons, List.mem_singleton, exists_eq_left, forall_eq, HasPage, Spans.Span.stop, Desc.stop, page]
    refine ⟨?_, ?_, ?_, ?_⟩ <;> intro n <;> omega
  · decide
  · decide

theorem handoff_agrees_sample :
    ∃ info out, header sample biPages sampleMap (fun _ => ⟨0, 0, .reserved⟩) = .ok info ∧
      publishBootInfo sample sampleMap (sample.owned biPages) biPages (fun _ => ⟨0, 0, .reserved⟩) =
        .ok (out.length, withRanges info out) :=
  (handoff_agrees sample _ sample_fits sampleMap fun _ => ⟨0, 0, .reserved⟩).2 rfl (by decide) (by decide)

end Boot
