import ZigKernel.BootHandoffSound
import ZigKernel.NativePmmInit

/-! From the firmware's map to the page allocator: what the loader publishes is what the allocator of the kernel serves,
the pages of conventional memory below its ceiling that the loader has not taken for the kernel, the initramfs, the stack
and the structure itself. -/

namespace Boot

open Zig Native

/-- A page of conventional memory that the loader owns no byte of. -/
structure Spare (descs : List Memmap.Desc) (owned : List Memmap.Span) (f : Nat) : Prop where
  aligned : f % 4096 = 0
  managed : f < managedTop
  conventional : ∃ d ∈ descs, d.kind = .conventional ∧ d.start ≤ f ∧ f + 4096 ≤ d.stop
  unowned : ∀ o ∈ owned, ∀ x, f ≤ x → x < f + 4096 → ¬o.Contains x

section Pages

variable {p : Placement} {descs : List Memmap.Desc} {d : Memmap.Desc} {n : Nat}

/-- The page at an aligned address. -/
theorem hasPage_page {f base stop : Nat} (hf : f % 4096 = 0) :
    Memmap.HasPage base stop (f / 4096) ↔ base ≤ f ∧ f + 4096 ≤ stop := by
  have hpage : Memmap.page = 4096 := rfl
  have hmul : f / 4096 * 4096 = f := Nat.div_mul_cancel (Nat.dvd_of_mod_eq_zero hf)
  rw [Memmap.HasPage, hpage, Nat.add_mul, Nat.one_mul, hmul]

/-- Owned memory is not conventional. -/
theorem owned_kind {o : Memmap.Span} (ho : o ∈ p.owned biPages) : o.kind ≠ .conventional := by
  rw [Placement.owned] at ho
  simp only [List.mem_cons, List.not_mem_nil, or_false] at ho
  rcases ho with rfl | rfl | rfl | rfl <;> (intro hkind; cases hkind)

/-- A page stays conventional if no owned span has it. -/
theorem kindOf_conventional_iff (h : p.Fits descs) : Memmap.kindOf (p.owned biPages) d n = .conventional ↔
    d.kind = .conventional ∧ ∀ o ∈ p.owned biPages, ¬Memmap.HasPage o.base o.stop n := by
  by_cases howned : ∃ o ∈ p.owned biPages, Memmap.HasPage o.base o.stop n
  · obtain ⟨o, ho, hn⟩ := howned
    rw [h.kindOf_owned ho hn d]
    exact iff_of_false (owned_kind ho) fun hall => hall.2 o ho hn
  · have hnone : ∀ o ∈ p.owned biPages, ¬Memmap.HasPage o.base o.stop n := fun o ho hn => howned ⟨o, ho, hn⟩
    have hfilter : (p.owned biPages).filter (fun o => Memmap.HasPage o.base o.stop n) = [] :=
      List.filter_eq_nil_iff.mpr fun o ho hn => hnone o ho (of_decide_eq_true hn)
    rw [Memmap.kindOf, hfilter]
    exact ⟨fun hkind => ⟨hkind, hnone⟩, fun hkind => hkind.1⟩

/-- The ranges of a descriptor start at a page and end at one. -/
theorem parts_aligned {owned : List Memmap.Span} (hd : d.Sane) (howned : d.pages ≠ 0 → ∀ o ∈ owned, Memmap.Sane o) :
    ∀ r ∈ Memmap.parts owned d, 4096 ∣ r.physStart ∧ 4096 ∣ r.stop := by
  intro r hr
  rcases Memmap.parts_painted hd howned with ⟨-, hnil⟩ | ⟨-, ps, hps, -, haligned, -⟩
  · rw [hnil] at hr
    exact absurd hr List.not_mem_nil
  · rw [hps] at hr
    obtain ⟨q, hq, rfl⟩ := List.mem_map.mp hr
    obtain ⟨hbase, hsize⟩ := haligned q hq
    rw [Memmap.toRange_stop hsize]
    exact ⟨hbase, Nat.dvd_add hbase hsize⟩

/-- Which pages the conventional ranges of a descriptor have. -/
theorem parts_conventional_iff (h : p.Fits descs) (hd : d ∈ descs) {f : Nat} (hf : f % 4096 = 0) :
    (∃ r ∈ Memmap.parts (p.owned biPages) d, r.kind = .conventional ∧ r.Contains f) ↔
      d.kind = .conventional ∧ Memmap.HasPage d.start d.stop (f / 4096) ∧
        ∀ o ∈ p.owned biPages, ¬Memmap.HasPage o.base o.stop (f / 4096) := by
  have hrepaints := Memmap.parts_repaints (h.sane_descs d hd) fun _ => h.sane_owned
  have haligned := parts_aligned (h.sane_descs d hd) fun _ => h.sane_owned
  have hmul : f / 4096 * 4096 = f := Nat.div_mul_cancel (Nat.dvd_of_mod_eq_zero hf)
  have hcontains (r : Range) (hr : r ∈ Memmap.parts (p.owned biPages) d) :
      Memmap.HasPage r.physStart r.stop (f / 4096) ↔ r.Contains f := by
    have hiff := Memmap.hasPage_iff (haligned r hr).1 (haligned r hr).2 (f / 4096)
    have hpage : Memmap.page = 4096 := rfl
    rwa [hpage, hmul] at hiff
  constructor
  · rintro ⟨r, hr, hkind, hin⟩
    have hn := (hcontains r hr).mpr hin
    have hkindOf := (hrepaints.kind r hr _ hn).symm.trans hkind
    obtain ⟨hconventional, hunowned⟩ := (kindOf_conventional_iff h).mp hkindOf
    refine ⟨hconventional, ?_, hunowned⟩
    -- a page of a range is a page of the descriptor
    by_contra hnot
    have honce := hrepaints.once (f / 4096)
    rw [if_neg hnot, List.countP_eq_zero] at honce
    exact honce r hr (decide_eq_true hn)
  · rintro ⟨hconventional, hn, hunowned⟩
    have honce := hrepaints.once (f / 4096)
    rw [if_pos hn] at honce
    obtain ⟨r, hr, hnr⟩ := List.countP_pos_iff.mp (Nat.lt_of_lt_of_eq Nat.one_pos honce.symm)
    have hnr : Memmap.HasPage r.physStart r.stop (f / 4096) := of_decide_eq_true hnr
    have hkindOf := (kindOf_conventional_iff h (d := d)).mpr ⟨hconventional, hunowned⟩
    exact ⟨r, hr, (hrepaints.kind r hr _ hnr).trans hkindOf, (hcontains r hr).mp hnr⟩

/-- A span without a page has no byte of it. -/
theorem not_hasPage_iff (h : p.Fits descs) {o : Memmap.Span} (ho : o ∈ p.owned biPages) {f : Nat} (hf : f % 4096 = 0) :
    ¬Memmap.HasPage o.base o.stop (f / 4096) ↔ ∀ x, f ≤ x → x < f + 4096 → ¬o.Contains x := by
  have hpage : Memmap.page = 4096 := rfl
  have hbase : 4096 ∣ o.base := h.owned_aligned o ho
  have hstop : 4096 ∣ o.stop := Nat.dvd_add hbase (h.owned_size o ho).1
  rw [hasPage_page hf]
  constructor
  · rintro hnot x hlo hhi ⟨hin, hin'⟩
    have : f / 4096 = x / 4096 := by omega
    exact hnot ⟨by omega, by omega⟩
  · rintro hall ⟨hlo, hhi⟩
    exact hall f (Nat.le_refl f) (by omega) ⟨hlo, by omega⟩

/-- The frames of the published map are the spare pages. -/
theorem frame_iff (h : p.Fits descs) {info : BootInfo} (hranges : info.ranges = descs.flatMap (Memmap.parts (p.owned biPages)))
    (f : Nat) : Pmm.Frame info f ↔ Spare descs (p.owned biPages) f := by
  rw [Pmm.Frame, hranges]
  constructor
  · rintro ⟨hf, htop, r, hr, hkind, hin⟩
    obtain ⟨d, hd, hr⟩ := List.mem_flatMap.mp hr
    obtain ⟨hconventional, hn, hunowned⟩ := (parts_conventional_iff h hd hf).mp ⟨r, hr, hkind, hin⟩
    exact ⟨hf, htop, ⟨d, hd, hconventional, (hasPage_page hf).mp hn⟩, fun o ho => (not_hasPage_iff h ho hf).mp (hunowned o ho)⟩
  · rintro ⟨hf, htop, ⟨d, hd, hconventional, hn⟩, hunowned⟩
    obtain ⟨r, hr, hkind, hin⟩ := (parts_conventional_iff h hd hf).mpr
      ⟨hconventional, (hasPage_page hf).mpr hn, fun o ho => (not_hasPage_iff h ho hf).mpr (hunowned o ho)⟩
    exact ⟨hf, htop, r, List.mem_flatMap.mpr ⟨d, hd, hr⟩, hkind, hin⟩

end Pages

/-- What the loader publishes. -/
theorem publish_returns {p : Placement} {map : MemoryMapSlice} (h : p.Fits (map.descriptors.map toDesc))
    (hfew : map.descriptors.length ≤ maxFirmwareDescs) (hsize : map.descriptorSize.val < u32Bound) (stale : Nat → Range) :
    ∃ n info, publishBootInfo p map (p.owned biPages) biPages stale = .ok (n, info) ∧ info.validate = .ok () ∧
      info.ranges = (map.descriptors.map toDesc).flatMap (Memmap.parts (p.owned biPages)) := by
  have hlength : (map.descriptors.map toDesc).length ≤ maxFirmwareDescs := by rwa [List.length_map]
  obtain ⟨info, hinfo⟩ : ∃ info, header p biPages map stale = .ok info := header_total h hsize
  obtain ⟨out, hout, hpos, hfits⟩ := normalize_published h hlength
  have hread : readFinalMap map = .ok (map.descriptors.map toDesc) := by
    rw [readFinalMap, readDescriptors_run (fun d hd => (h.aligned _ (List.mem_map_of_mem hd)).2)
      (by rwa [List.length_nil, Nat.zero_add]), List.nil_append]
  have hvalid := validate_withRanges h (header_ok hinfo) hout hfits
  refine ⟨out.length, withRanges info out, ?_, hvalid, ?_⟩
  · rw [publishBootInfo, hread, Outcome.ok_bind, hinfo, Outcome.ok_bind, storageLength_run (header_ok hinfo), Outcome.ok_bind,
      hout]
    simp only [Outcome.mapError, Outcome.ok_bind]
    rw [if_neg (Nat.ne_of_gt hpos), hvalid]
    rfl
  · rw [ranges_withRanges info hfits]
    exact (Memmap.normalize_ok hout).1

/-- The allocator that starts from what the loader publishes has the spare pages, free or handed out, after any calls. -/
theorem boot_pages {p : Placement} {map : MemoryMapSlice} (h : p.Fits (map.descriptors.map toDesc))
    (hfew : map.descriptors.length ≤ maxFirmwareDescs) (hsize : map.descriptorSize.val < u32Bound) (stale : Nat → Range)
    (s₀ : Pmm) :
    ∃ n info s, publishBootInfo p map (p.owned biPages) biPages stale = .ok (n, info) ∧ Pmm.init info s₀ = (.ok (), s) ∧
      ∀ trace t, Pmm.Run s trace t → (t.freeStack ++ Pmm.held trace).Nodup ∧
        ∀ f, f ∈ t.freeStack ++ Pmm.held trace ↔ Spare (map.descriptors.map toDesc) (p.owned biPages) f := by
  obtain ⟨n, info, hpublish, hvalid, hranges⟩ := publish_returns h hfew hsize stale
  have haligned : ∀ r ∈ info.ranges, r.kind = .conventional → r.physStart % page = 0 := by
    rw [hranges]
    intro r hr _
    obtain ⟨d, hd, hr⟩ := List.mem_flatMap.mp hr
    exact Nat.mod_eq_zero_of_dvd (parts_aligned (h.sane_descs d hd) (fun _ => h.sane_owned) r hr).1
  obtain ⟨s, hinit, hsound⟩ := Pmm.init_returns hvalid haligned s₀
  refine ⟨n, info, s, hpublish, hinit, fun trace t hrun => ?_⟩
  have ht := hsound.run hrun
  exact ⟨ht.nodup, fun f => (ht.frames f).trans (frame_iff h hranges f)⟩

theorem boot_pages_sample : ∃ n info s,
    publishBootInfo sample sampleMap (sample.owned biPages) biPages (fun _ => ⟨0, 0, .reserved⟩) = .ok (n, info) ∧
      Pmm.init info {} = (.ok (), s) ∧ ∀ trace t, Pmm.Run s trace t → (t.freeStack ++ Pmm.held trace).Nodup ∧
        ∀ f, f ∈ t.freeStack ++ Pmm.held trace ↔ Spare (sampleMap.descriptors.map toDesc) (sample.owned biPages) f :=
  boot_pages sample_fits (by decide) (by decide) _ {}

end Boot
