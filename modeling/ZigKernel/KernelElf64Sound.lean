import ZigKernel.KernelConfinement
import ZigKernel.KernelElf64
import ZigKernel.KernelMmMappings

/-! `validate` on any bytes. It ends with a list of segments that can be mapped or with an error, unless one of its
checked additions overflows: the end of the table of program headers, or the end of the page hull of a segment in the
last page of the address space. -/

namespace Kernel.Elf64

open Zig
open Boot.Elf64 (Ehdr Phdr ehdrSize phdrSize ptLoad pfX)

/-! ### What is accepted -/

/-- The page hull is `start..stop`. -/
def Segment.start (s : Segment) : Nat := s.vaddr / Mm.pageSize * Mm.pageSize
def Segment.stop (s : Segment) : Nat := Mm.alignUp (s.vaddr + s.memsz)

def Segment.Apart (s t : Segment) : Prop := s.stop ≤ t.start ∨ t.stop ≤ s.start

def headerOf (image : List UInt8) : Ehdr := Ehdr.ofBytes (image.take ehdrSize)

def phdrAt (image : List UInt8) (phoff i : Nat) : Phdr :=
  Phdr.ofBytes ((image.drop (phoff + i * phdrSize)).take phdrSize)

/-- The program headers. -/
def headers (image : List UInt8) : List Phdr :=
  (List.range (headerOf image).phnum).map (phdrAt image (headerOf image).phoff)

/-- The segments of the headers to load. -/
def loaded (ps : List Phdr) : List Segment := (ps.filter fun p => p.type = ptLoad).map segmentOf

structure Accepted (image : List UInt8) (v : Validated) : Prop where
  segs : v.segs = loaded (headers image)
  nonempty : ∀ s ∈ v.segs, s.start < s.stop
  apart : v.segs.Pairwise Segment.Apart
  user : ∀ s ∈ v.segs, s.stop ≤ Gdt.userMax + 1
  bounded : ∀ s ∈ v.segs, s.memsz ≤ maxSegMemsz
  inside : ∀ s ∈ v.segs, ∃ p ∈ headers image, p.type = ptLoad ∧ s = segmentOf p ∧ p.filesz ≤ p.memsz ∧
    p.offset + p.filesz ≤ image.length
  static : ∀ p ∈ headers image, p.type ≠ ptInterp ∧ p.type ≠ ptDynamic
  entry : ∃ s ∈ v.segs, s.flags &&& pfX ≠ 0 ∧ s.vaddr ≤ v.entry ∧ v.entry < s.vaddr + s.memsz

/-! ### What overflows -/

/-- The checks on a header to load in front of those on its place. -/
structure FileChecked (size : Nat) (p : Phdr) : Prop where
  nonempty : 0 < p.memsz
  bounded : p.memsz ≤ maxSegMemsz
  file : p.filesz ≤ p.memsz
  inside : p.offset + p.filesz ≤ size

structure Loadable (size : Nat) (p : Phdr) : Prop extends FileChecked size p where
  user : (segmentOf p).stop ≤ Gdt.userMax + 1

/-- A header to load whose segment ends in the last page of the address space. -/
structure Overflows (size : Nat) (p : Phdr) : Prop extends FileChecked size p where
  load : p.type = ptLoad
  fits : p.vaddr + p.memsz < u64Bound
  wraps : u64Bound ≤ p.vaddr + p.memsz + Mm.pageSize

/-- Headers without a fault. -/
structure Clean (size : Nat) (ps : List Phdr) : Prop where
  static : ∀ p ∈ ps, p.type ≠ ptInterp ∧ p.type ≠ ptDynamic
  loadable : ∀ p ∈ ps, p.type = ptLoad → Loadable size p
  apart : (loaded ps).Pairwise Segment.Apart

/-- Behind headers without a fault there is one that overflows. -/
def Trips (size : Nat) (ps : List Phdr) : Prop := ∃ i p, ps[i]? = some p ∧ Clean size (ps.take i) ∧ Overflows size p

def HeaderOk (image : List UInt8) : Prop :=
  0 < image.length ∧ image.length ≤ maxImage ∧ ehdrSize ≤ image.length ∧ checkEhdr (headerOf image) = .ok ()

/-- Where the table of program headers ends. -/
def tableEnd (image : List UInt8) : Nat := (headerOf image).phoff + (headerOf image).phnum * phdrSize

def TableOverflows (image : List UInt8) : Prop := HeaderOk image ∧ u64Bound ≤ tableEnd image

def SegmentOverflows (image : List UInt8) : Prop :=
  HeaderOk image ∧ tableEnd image ≤ image.length ∧ Trips image.length (headers image)

/-! ### How a check ends -/

/-- It passes with `a`, it traps, or there is an error. -/
def Verdict {α : Type} (P T : Prop) (a : α) (o : Outcome Error α) : Prop :=
  (P ∧ o = .ok a) ∨ (T ∧ o = .trap) ∨ (¬P ∧ ¬T ∧ ∃ e, o = .error e)

section Verdicts

variable {α β : Type} {P T : Prop} {a : α} {o : Outcome Error α}

theorem Verdict.error {e : Error} (hP : ¬P) (hT : ¬T) : Verdict P T a (.error e) := .inr (.inr ⟨hP, hT, e, rfl⟩)

theorem Verdict.guard {p : Prop} [Decidable p] {e : Error} (hp : p → ¬P ∧ ¬T) (h : ¬p → Verdict P T a o) :
    Verdict P T a (if p then .error e else o) := by
  by_cases hcase : p
  · rw [if_pos hcase]
    exact .error (hp hcase).1 (hp hcase).2
  · rw [if_neg hcase]
    exact h hcase

theorem Verdict.congr {P' T' : Prop} (h : Verdict P T a o) (hP : P ↔ P') (hT : T ↔ T') : Verdict P' T' a o := by
  rw [Verdict, ← hP, ← hT]
  exact h

theorem Verdict.not_trap (h : Verdict P T a o) (hT : ¬T) : o ≠ .trap := by
  rcases h with ⟨-, rfl⟩ | ⟨hT', -⟩ | ⟨-, -, e, rfl⟩
  · nofun
  · exact absurd hT' hT
  · nofun

theorem Verdict.trap (h : Verdict P T a o) (hT : T) (hexcl : ¬(P ∧ T)) : o = .trap := by
  rcases h with ⟨hP, -⟩ | ⟨-, rfl⟩ | ⟨-, hT', -⟩
  · exact absurd ⟨hP, hT⟩ hexcl
  · rfl
  · exact absurd hT hT'

theorem Verdict.ok {b : α} (h : Verdict P T a o) (hok : o = .ok b) : P ∧ b = a := by
  subst hok
  rcases h with ⟨hP, hok⟩ | ⟨-, hok⟩ | ⟨-, -, e, hok⟩
  · exact ⟨hP, Outcome.ok.inj hok⟩
  · cases hok
  · cases hok

end Verdicts

/-! ### Page hulls -/

/-- The fields of a header are words of 64 bits. -/
structure Fits (p : Phdr) : Prop where
  offset : p.offset < u64Bound
  vaddr : p.vaddr < u64Bound
  filesz : p.filesz < u64Bound

theorem fits_ofBytes (bytes : List UInt8) : Fits (Phdr.ofBytes bytes) where
  offset := LittleEndian.decode_lt _ 8
  vaddr := LittleEndian.decode_lt _ 8
  filesz := LittleEndian.decode_lt _ 8

section Hulls

variable {size : Nat} {p : Phdr} {segs : List Segment}

theorem pageStart_eq {vaddr : Nat} (h : vaddr < u64Bound) : pageStart vaddr = vaddr / Mm.pageSize * Mm.pageSize :=
  and_notU64 (k := 12) h (by decide)

theorem pageEnd_of_lt {vaddr memsz : Nat} (h : vaddr + memsz + Mm.pageSize < u64Bound) :
    pageEnd vaddr memsz = .ok (Mm.alignUp (vaddr + memsz)) := by
  have hwrap : wrapAddU64 vaddr memsz = vaddr + memsz := Nat.mod_eq_of_lt (Nat.lt_of_le_of_lt (Nat.le_add_right _ _) h)
  have hone : 1 ≤ vaddr + memsz + Mm.pageSize := Nat.le_trans (by decide) (Nat.le_add_left Mm.pageSize _)
  have hand := and_notU64 (a := vaddr + memsz + Mm.pageSize - 1) (k := 12) (by omega) (by decide)
  rw [pageEnd, hwrap, addU64_of_lt h, Outcome.ok_bind, subU64_of_le hone, Outcome.ok_bind, Outcome.pure_eq]
  exact congrArg Outcome.ok hand

theorem pageEnd_of_le {vaddr memsz : Nat} (h : vaddr + memsz < u64Bound) (hover : u64Bound ≤ vaddr + memsz + Mm.pageSize) :
    pageEnd vaddr memsz = .trap := by
  have hwrap : wrapAddU64 vaddr memsz = vaddr + memsz := Nat.mod_eq_of_lt h
  rw [pageEnd, hwrap, addU64, if_neg (Nat.not_lt.mpr hover)]
  rfl

/-- A segment over the end of the address space ends below its start. -/
theorem pageEnd_wrapped {vaddr memsz : Nat} (hvaddr : vaddr < u64Bound) (hmemsz : memsz ≤ maxSegMemsz)
    (h : u64Bound ≤ vaddr + memsz) : ∃ stop, pageEnd vaddr memsz = .ok stop ∧ stop < pageStart vaddr := by
  have hmax : maxSegMemsz = 67108864 := rfl
  have hbound : u64Bound = 18446744073709551616 := rfl
  have hpage : Mm.pageSize = 4096 := rfl
  have hwrap : wrapAddU64 vaddr memsz = vaddr + memsz - u64Bound := by
    rw [wrapAddU64, Nat.mod_eq_sub_mod h, Nat.mod_eq_of_lt (by omega)]
  have hand := and_notU64 (a := vaddr + memsz - u64Bound + Mm.pageSize - 1) (k := 12) (by omega) (by decide)
  refine ⟨(vaddr + memsz - u64Bound + Mm.pageSize - 1) &&& notU64 (Mm.pageSize - 1), ?_, ?_⟩
  · rw [pageEnd, hwrap, addU64_of_lt (by omega), Outcome.ok_bind, subU64_of_le (by omega), Outcome.ok_bind, Outcome.pure_eq]
  · rw [pageStart_eq hvaddr]
    refine Nat.lt_of_le_of_lt (Nat.le_trans (Nat.le_of_eq hand) (Nat.div_mul_le_self _ _)) ?_
    rw [hpage]
    omega

theorem le_stop (s : Segment) : s.vaddr + s.memsz ≤ s.stop := Mm.le_alignUp _

theorem stop_lt (s : Segment) : s.stop < s.vaddr + s.memsz + Mm.pageSize := Mm.alignUp_lt _

theorem start_le (s : Segment) : s.start ≤ s.vaddr := Nat.div_mul_le_self _ _

theorem start_lt_stop {s : Segment} (h : 0 < s.memsz) : s.start < s.stop :=
  calc s.start ≤ s.vaddr := start_le s
    _ < s.vaddr + s.memsz := Nat.lt_add_of_pos_right h
    _ ≤ s.stop := le_stop s

/-- The hull of a segment in the user half is found without an overflow. -/
theorem hull_of_user {s : Segment} (h : s.stop ≤ Gdt.userMax + 1) :
    pageStart s.vaddr = s.start ∧ pageEnd s.vaddr s.memsz = .ok s.stop := by
  have hle := Nat.le_trans (le_stop s) h
  have hmax : Gdt.userMax + 1 + Mm.pageSize < u64Bound := by decide
  refine ⟨pageStart_eq ?_, pageEnd_of_lt ?_⟩
  · exact Nat.lt_of_le_of_lt (Nat.le_trans (Nat.le_add_right _ _) hle) (Nat.lt_of_le_of_lt (Nat.le_add_right _ _) hmax)
  · exact Nat.lt_of_le_of_lt (Nat.add_le_add_right hle _) hmax

/-- The loop over the earlier segments finds one that is not apart. -/
theorem overlapsAny_eq {start stop : Nat} (h : ∀ s ∈ segs, s.stop ≤ Gdt.userMax + 1) :
    ∃ r, overlapsAny start stop segs = .ok r ∧ (r = true ↔ ¬∀ s ∈ segs, s.stop ≤ start ∨ stop ≤ s.start) := by
  induction segs with
  | nil => exact ⟨false, rfl, by simp⟩
  | cons s rest ih =>
      obtain ⟨hstart, hstop⟩ := hull_of_user (h s List.mem_cons_self)
      obtain ⟨r, hrest, hr⟩ := ih fun t ht => h t (List.mem_cons_of_mem _ ht)
      rw [overlapsAny, hstart, hstop, Outcome.ok_bind, List.forall_mem_cons]
      by_cases hoverlap : start < s.stop ∧ stop > s.start
      · rw [if_pos hoverlap]
        refine ⟨true, rfl, iff_of_true rfl fun hall => ?_⟩
        omega
      · rw [if_neg hoverlap]
        have hapart : s.stop ≤ start ∨ stop ≤ s.start := by omega
        exact ⟨r, hrest, by rw [hr, and_iff_right hapart]⟩

end Hulls

/-! ### One header -/

section Header

variable {image : List UInt8} {p : Phdr} {segs : List Segment}

/-- The header passes behind the segments so far. -/
def Passes (size : Nat) (segs : List Segment) (p : Phdr) : Prop :=
  (p.type ≠ ptInterp ∧ p.type ≠ ptDynamic) ∧
    (p.type = ptLoad → Loadable size p ∧ ∀ s ∈ segs, s.Apart (segmentOf p))

theorem Loadable.not_overflows {size : Nat} (h : Loadable size p) : ¬Overflows size p := by
  intro hover
  have hle := Nat.le_trans (le_stop (segmentOf p)) h.user
  have hmax : Gdt.userMax + 1 + Mm.pageSize < u64Bound := by decide
  exact Nat.not_lt.mpr hover.wraps (Nat.lt_of_le_of_lt (Nat.add_le_add_right hle _) hmax)

theorem placeSegment_verdict (hfits : Fits p) (hload : p.type = ptLoad) (hfile : FileChecked image.length p)
    (hsegs : ∀ s ∈ segs, s.stop ≤ Gdt.userMax + 1) (hroom : segs.length < maxSegs) :
    Verdict ((segmentOf p).stop ≤ Gdt.userMax + 1 ∧ ∀ s ∈ segs, s.Apart (segmentOf p)) (Overflows image.length p)
      (segs ++ [segmentOf p]) (placeSegment p segs) := by
  rw [placeSegment]
  by_cases hlt : p.vaddr + p.memsz + Mm.pageSize < u64Bound
  · have hnot : ¬Overflows image.length p := fun h => Nat.not_lt.mpr h.wraps hlt
    have hspan : (segmentOf p).start < (segmentOf p).stop := start_lt_stop hfile.nonempty
    have hstop : pageEnd p.vaddr p.memsz = (.ok (segmentOf p).stop : Outcome Error Nat) := pageEnd_of_lt hlt
    have hstart : pageStart p.vaddr = (segmentOf p).start := pageStart_eq hfits.vaddr
    rw [hstop, hstart, Outcome.ok_bind, if_neg (Nat.not_lt.mpr (Nat.le_of_lt hspan)), subU64_of_le (Nat.le_of_lt hspan),
      Outcome.ok_bind]
    have hbound : (segmentOf p).stop < u64Bound := Nat.lt_trans (stop_lt (segmentOf p)) hlt
    have huser : Gdt.isUserRange (segmentOf p).start ((segmentOf p).stop - (segmentOf p).start) = true ↔
        (segmentOf p).stop ≤ Gdt.userMax + 1 := by
      rw [isUserRange_iff (Nat.lt_trans hspan hbound) (Nat.lt_of_le_of_lt (Nat.sub_le _ _) hbound)]
      omega
    refine Verdict.guard (fun hkernel => ⟨fun h => hkernel (huser.mpr h.1), hnot⟩) fun hrange => ?_
    obtain ⟨r, hoverlaps, hr⟩ := @overlapsAny_eq segs (segmentOf p).start (segmentOf p).stop hsegs
    rw [hoverlaps, Outcome.ok_bind]
    refine Verdict.guard (fun h => ⟨fun hboth => hr.mp h hboth.2, hnot⟩) fun hfree => ?_
    rw [if_neg (Nat.not_le.mpr hroom)]
    exact .inl ⟨⟨huser.mp (not_not.mp hrange), not_not.mp (mt hr.mpr hfree)⟩, rfl⟩
  by_cases hwrapped : p.vaddr + p.memsz < u64Bound
  · rw [pageEnd_of_le hwrapped (Nat.le_of_not_lt hlt)]
    exact .inr (.inl ⟨{ hfile with load := hload, fits := hwrapped, wraps := Nat.le_of_not_lt hlt }, rfl⟩)
  · obtain ⟨stop, hstop, hbelow⟩ := pageEnd_wrapped hfits.vaddr hfile.bounded (Nat.le_of_not_lt hwrapped)
    rw [hstop, Outcome.ok_bind, if_pos hbelow]
    refine .error (fun h => ?_) fun h => hwrapped h.fits
    have hle := Nat.le_trans (le_stop (segmentOf p)) h.1
    have hmax : Gdt.userMax + 1 < u64Bound := by decide
    exact hwrapped (Nat.lt_of_le_of_lt hle hmax)

theorem checkPhdr_verdict (hsize : image.length < u64Bound) (hfits : Fits p)
    (hsegs : ∀ s ∈ segs, s.stop ≤ Gdt.userMax + 1) (hroom : segs.length < maxSegs) :
    Verdict (Passes image.length segs p) (Overflows image.length p) (segs ++ loaded [p]) (checkPhdr image p segs) := by
  rw [checkPhdr]
  refine Verdict.guard (fun h => ⟨fun hpass => ?_, fun hover => ?_⟩) fun hstatic => ?_
  · rcases h with h | h
    · exact hpass.1.2 h
    · exact hpass.1.1 h
  · rw [hover.load] at h
    exact absurd h (by decide)
  rw [not_or] at hstatic
  by_cases hload : p.type = ptLoad
  · have hone : loaded [p] = [segmentOf p] := by simp [loaded, hload]
    rw [if_neg (not_not.mpr hload), hone]
    have hrefused : ¬FileChecked image.length p → ¬Passes image.length segs p ∧ ¬Overflows image.length p :=
      fun hnot => ⟨fun hpass => hnot (hpass.2 hload).1.toFileChecked, fun hover => hnot hover.toFileChecked⟩
    refine Verdict.guard (fun h => hrefused fun hfile => Nat.ne_of_gt hfile.nonempty h) fun hnonempty => ?_
    refine Verdict.guard (fun h => hrefused fun hfile => Nat.not_lt.mpr hfile.bounded h) fun hbounded => ?_
    refine Verdict.guard (fun h => hrefused fun hfile => Nat.not_lt.mpr hfile.file h) fun hfile => ?_
    refine Verdict.guard (fun h => hrefused fun hfile => ?_) fun hwrap => ?_
    · rw [wrapAddU64, Nat.mod_eq_of_lt (Nat.lt_of_le_of_lt hfile.inside hsize)] at h
      exact Nat.not_lt.mpr (Nat.le_add_right _ _) h
    have hsum := wrapAdd_of_le hfits.offset hfits.filesz hwrap
    rw [addU64_of_lt (hsum ▸ Nat.mod_lt _ (by decide)), Outcome.ok_bind]
    refine Verdict.guard (fun h => hrefused fun hfile => Nat.not_lt.mpr hfile.inside h) fun hinside => ?_
    have hchecked : FileChecked image.length p :=
      ⟨Nat.pos_of_ne_zero hnonempty, Nat.le_of_not_lt hbounded, Nat.le_of_not_lt hfile, Nat.le_of_not_lt hinside⟩
    refine (placeSegment_verdict hfits hload hchecked hsegs hroom).congr ?_ Iff.rfl
    constructor
    · exact fun h => ⟨⟨hstatic.2, hstatic.1⟩, fun _ => ⟨{ hchecked with user := h.1 }, h.2⟩⟩
    · exact fun h => ⟨(h.2 hload).1.user, (h.2 hload).2⟩
  · have hnone : loaded [p] = [] := by simp [loaded, hload]
    rw [if_pos hload, hnone, List.append_nil]
    exact .inl ⟨⟨⟨hstatic.2, hstatic.1⟩, fun h => absurd h hload⟩, rfl⟩

end Header

/-! ### All headers -/

section Headers

variable {image : List UInt8} {size : Nat} {ps qs : List Phdr} {p : Phdr}

theorem loaded_append : loaded (ps ++ qs) = loaded ps ++ loaded qs := by
  rw [loaded, List.filter_append, List.map_append]
  rfl

theorem mem_loaded {s : Segment} : s ∈ loaded ps ↔ ∃ p ∈ ps, p.type = ptLoad ∧ segmentOf p = s := by
  simp [loaded, and_assoc]

theorem length_loaded_le : (loaded ps).length ≤ ps.length := by
  rw [loaded, List.length_map]
  exact List.length_filter_le _ _

theorem clean_nil : Clean size [] := ⟨nofun, nofun, List.Pairwise.nil⟩

theorem Clean.of_append (h : Clean size (ps ++ qs)) : Clean size ps where
  static := fun p hp => h.static p (List.mem_append_left _ hp)
  loadable := fun p hp => h.loadable p (List.mem_append_left _ hp)
  apart := by
    have hapart := h.apart
    rw [loaded_append] at hapart
    exact (List.pairwise_append.mp hapart).1

theorem Clean.user (h : Clean size ps) : ∀ s ∈ loaded ps, s.stop ≤ Gdt.userMax + 1 := by
  intro s hs
  obtain ⟨p, hp, hload, rfl⟩ := mem_loaded.mp hs
  exact (h.loadable p hp hload).user

theorem clean_concat : Clean size (ps ++ [p]) ↔ Clean size ps ∧ Passes size (loaded ps) p := by
  constructor
  · intro h
    have hmem : p ∈ ps ++ [p] := List.mem_append_right _ List.mem_cons_self
    refine ⟨h.of_append, h.static p hmem, fun hload => ⟨h.loadable p hmem hload, fun s hs => ?_⟩⟩
    have hapart := h.apart
    rw [loaded_append, List.pairwise_append] at hapart
    exact hapart.2.2 s hs _ (mem_loaded.mpr ⟨p, List.mem_cons_self, hload, rfl⟩)
  · rintro ⟨h, hstatic, hplace⟩
    refine ⟨?_, ?_, ?_⟩
    · exact List.forall_mem_append.mpr ⟨h.static, List.forall_mem_singleton.mpr hstatic⟩
    · exact List.forall_mem_append.mpr ⟨h.loadable, List.forall_mem_singleton.mpr fun hload => (hplace hload).1⟩
    · rw [loaded_append, List.pairwise_append]
      refine ⟨h.apart, ?_, fun s hs t ht => ?_⟩
      · by_cases hload : p.type = ptLoad <;> simp [loaded, hload]
      · obtain ⟨q, hq, hload, rfl⟩ := mem_loaded.mp ht
        cases List.mem_singleton.mp hq
        exact (hplace hload).2 s hs

theorem Clean.not_trips (h : Clean size ps) : ¬Trips size ps := by
  rintro ⟨i, p, hp, -, hover⟩
  exact (h.loadable p (List.mem_of_getElem? hp) hover.load).not_overflows hover

/-- Nothing trips at a header that does not pass for another reason. -/
theorem not_trips_of_fault (hclean : Clean size ps) (hpass : ¬Passes size (loaded ps) p) (hover : ¬Overflows size p) :
    ¬Trips size (ps ++ p :: qs) := by
  rintro ⟨i, q, hq, hbefore, hqover⟩
  rcases Nat.lt_trichotomy i ps.length with hi | rfl | hi
  · rw [List.getElem?_append_left hi] at hq
    exact (hclean.loadable q (List.mem_of_getElem? hq) hqover.load).not_overflows hqover
  · rw [List.getElem?_append_right (Nat.le_refl _), Nat.sub_self] at hq
    cases hq
    exact hover hqover
  · obtain ⟨k, rfl⟩ : ∃ k, i = (ps ++ [p]).length + k :=
      ⟨i - (ps.length + 1), by rw [List.length_append, List.length_singleton]; omega⟩
    rw [List.append_cons ps p qs, List.take_length_add_append] at hbefore
    exact hpass (clean_concat.mp hbefore.of_append).2

/-- The loop over the headers as a list. -/
def checkAll (image : List UInt8) : List Phdr → List Segment → Outcome Error (List Segment)
  | [], segs => pure segs
  | p :: rest, segs => do
      let segs ← checkPhdr image p segs
      checkAll image rest segs

/-- The induction is on the headers to go: those behind passed, and their segments are the ones so far. -/
theorem checkAll_verdict (hsize : image.length < u64Bound) (hclean : Clean image.length ps) (hfits : ∀ p ∈ qs, Fits p)
    (hroom : ps.length + qs.length ≤ maxSegs) :
    Verdict (Clean image.length (ps ++ qs)) (Trips image.length (ps ++ qs)) (loaded (ps ++ qs))
      (checkAll image qs (loaded ps)) := by
  induction qs generalizing ps with
  | nil =>
      rw [List.append_nil]
      exact .inl ⟨hclean, rfl⟩
  | cons p rest ih =>
      rw [List.length_cons] at hroom
      have hlength := @length_loaded_le ps
      rw [checkAll]
      rcases checkPhdr_verdict hsize (hfits p List.mem_cons_self) hclean.user (by omega) with
        ⟨hpass, hrun⟩ | ⟨hover, hrun⟩ | ⟨hpass, hover, e, hrun⟩
      · rw [hrun, Outcome.ok_bind, ← loaded_append, List.append_cons]
        refine ih (clean_concat.mpr ⟨hclean, hpass⟩) (fun q hq => hfits q (List.mem_cons_of_mem _ hq)) ?_
        rw [List.length_append, List.length_singleton]
        omega
      · rw [hrun]
        refine .inr (.inl ⟨⟨ps.length, p, ?_, ?_, hover⟩, rfl⟩)
        · rw [List.getElem?_append_right (Nat.le_refl _), Nat.sub_self]
          rfl
        · rw [List.take_left]
          exact hclean
      · rw [hrun]
        refine .error (fun hall => hpass ?_) (not_trips_of_fault hclean hpass hover)
        rw [List.append_cons] at hall
        exact (clean_concat.mp hall.of_append).2

theorem readPhdr_eq {off : Nat} (hsize : image.length < u64Bound) (h : off + phdrSize ≤ image.length) :
    readPhdr image off = .ok (some (Phdr.ofBytes ((image.drop off).take phdrSize))) := by
  have hsum : off + phdrSize < u64Bound := Nat.lt_of_le_of_lt h hsize
  have hwrap : wrapAddU64 off phdrSize = off + phdrSize := Nat.mod_eq_of_lt hsum
  rw [readPhdr, hwrap, if_neg (Nat.not_lt.mpr (Nat.le_add_right _ _)), addU64_of_lt hsum, Outcome.ok_bind,
    if_neg (Nat.not_lt.mpr h), slice_of_le (Nat.le_add_right _ _) h, Outcome.ok_bind, Nat.add_sub_cancel_left]
  rfl

theorem checkPhdrs_eq {phoff left i : Nat} {segs : List Segment} (hsize : image.length < u64Bound)
    (h : phoff + (i + left) * phdrSize ≤ image.length) :
    checkPhdrs image phoff left i segs = checkAll image ((List.range' i left).map (phdrAt image phoff)) segs := by
  induction left generalizing i segs with
  | zero => rfl
  | succ left ih =>
      have hstep : phdrSize = 56 := rfl
      have hread : phoff + i * phdrSize + phdrSize ≤ image.length := by
        rw [hstep] at h ⊢
        omega
      rw [checkPhdrs, mulU64_of_lt (by omega), Outcome.ok_bind, addU64_of_lt (by omega), Outcome.ok_bind,
        readPhdr_eq hsize hread, Outcome.ok_bind, List.range'_succ, List.map_cons, checkAll]
      refine congrArg (checkPhdr image (phdrAt image phoff i) segs >>= ·) (funext fun segs => ?_)
      refine ih ?_
      rw [show i + 1 + left = i + (left + 1) by omega]
      exact h

end Headers

/-! ### The image -/

section Image

variable {image : List UInt8} {v : Validated}

theorem fits_headers : ∀ p ∈ headers image, Fits p := by
  intro p hp
  obtain ⟨i, -, rfl⟩ := List.mem_map.mp hp
  exact fits_ofBytes _

theorem length_headers : (headers image).length = (headerOf image).phnum := by
  rw [headers, List.length_map, List.length_range]

theorem checkEhdr_ne_trap (h : Ehdr) : checkEhdr h ≠ .trap := by
  rw [checkEhdr]
  iterate 9 refine Outcome.ite_error_ne_trap fun _ => ?_
  nofun

theorem HeaderOk.phnum_le (h : HeaderOk image) : (headerOf image).phnum ≤ maxPhnum := by
  have hcheck := h.2.2.2
  simp only [checkEhdr, Outcome.ite_error_eq_ok_iff, not_or] at hcheck
  obtain ⟨-, -, -, -, -, -, -, ⟨-, hphnum⟩, -⟩ := hcheck
  exact Nat.le_of_not_lt hphnum

theorem HeaderOk.length_lt (h : HeaderOk image) : image.length < u64Bound :=
  Nat.lt_of_le_of_lt h.2.1 (by decide)

theorem validate_of_not_headerOk (h : ¬HeaderOk image) : ∃ e, validate image = .error e := by
  rw [validate]
  by_cases hlength : image.length = 0 ∨ image.length > maxImage
  · rw [if_pos hlength]
    exact ⟨_, rfl⟩
  rw [if_neg hlength, readEhdr]
  by_cases hshort : image.length < ehdrSize
  · rw [if_pos hshort]
    exact ⟨_, rfl⟩
  rw [if_neg hshort]
  dsimp only
  cases hcheck : checkEhdr (Ehdr.ofBytes (image.take ehdrSize)) with
  | ok u =>
      rw [not_or] at hlength
      exact absurd ⟨Nat.pos_of_ne_zero hlength.1, Nat.le_of_not_lt hlength.2, Nat.le_of_not_lt hshort, hcheck⟩ h
  | error e => exact ⟨e, rfl⟩
  | trap => exact absurd hcheck (checkEhdr_ne_trap _)

/-- `validate` behind the checks on the header. -/
theorem validate_of_headerOk (h : HeaderOk image) :
    validate image = (do
      let stop ← addU64 (headerOf image).phoff ((headerOf image).phnum * phdrSize)
      if stop > image.length then .error .invalidElf
      else do
        let segs ← checkPhdrs image (headerOf image).phoff (headerOf image).phnum 0 []
        checkEntry (headerOf image).entry segs) := by
  have hnum := h.phnum_le
  obtain ⟨hpos, hmax, hlong, hcheck⟩ := h
  have htable : (headerOf image).phnum * phdrSize < u64Bound :=
    Nat.lt_of_le_of_lt (Nat.mul_le_mul_right _ hnum) (by decide)
  rw [validate, if_neg (by omega), readEhdr, if_neg (Nat.not_lt.mpr hlong)]
  change (checkEhdr (headerOf image) >>= fun _ => mulU64 (headerOf image).phnum phdrSize >>= _) = _
  rw [hcheck, Outcome.ok_bind, mulU64_of_lt htable, Outcome.ok_bind]
  rfl

theorem checkEntry_ensures {entry : Nat} {segs : List Segment} (huser : ∀ s ∈ segs, s.stop ≤ Gdt.userMax + 1) :
    (checkEntry entry segs).Ensures fun v => v.segs = segs ∧
      ∃ s ∈ segs, s.flags &&& pfX ≠ 0 ∧ s.vaddr ≤ v.entry ∧ v.entry < s.vaddr + s.memsz := by
  rw [checkEntry]
  refine .guard fun _ => .guard fun _ => .guard fun hrx => .ok ⟨rfl, ?_⟩
  rw [not_not, inRx, List.any_eq_true] at hrx
  obtain ⟨s, hs, hrx⟩ := hrx
  obtain ⟨hx, hle, hlt⟩ := of_decide_eq_true hrx
  refine ⟨s, hs, hx, hle, ?_⟩
  have hmax : Gdt.userMax + 1 < u64Bound := by decide
  rw [wrapAddU64, Nat.mod_eq_of_lt (Nat.lt_of_le_of_lt (Nat.le_trans (le_stop s) (huser s hs)) hmax)] at hlt
  exact hlt

theorem accepted_of_clean (hclean : Clean image.length (headers image)) (hsegs : v.segs = loaded (headers image))
    (hentry : ∃ s ∈ v.segs, s.flags &&& pfX ≠ 0 ∧ s.vaddr ≤ v.entry ∧ v.entry < s.vaddr + s.memsz) :
    Accepted image v := by
  have hfrom : ∀ s ∈ v.segs, ∃ p ∈ headers image, p.type = ptLoad ∧ s = segmentOf p ∧ Loadable image.length p := by
    intro s hs
    rw [hsegs] at hs
    obtain ⟨p, hp, hload, rfl⟩ := mem_loaded.mp hs
    exact ⟨p, hp, hload, rfl, hclean.loadable p hp hload⟩
  refine ⟨hsegs, fun s hs => ?_, hsegs ▸ hclean.apart, fun s hs => ?_, fun s hs => ?_, fun s hs => ?_, hclean.static, hentry⟩
  · obtain ⟨p, -, -, rfl, hp⟩ := hfrom s hs
    exact start_lt_stop hp.nonempty
  · obtain ⟨p, -, -, rfl, hp⟩ := hfrom s hs
    exact hp.user
  · obtain ⟨p, -, -, rfl, hp⟩ := hfrom s hs
    exact hp.bounded
  · obtain ⟨p, hmem, hload, rfl, hp⟩ := hfrom s hs
    exact ⟨p, hmem, hload, rfl, hp.file, hp.inside⟩

theorem headers_verdict (h : HeaderOk image) (hend : tableEnd image ≤ image.length) :
    Verdict (Clean image.length (headers image)) (Trips image.length (headers image)) (loaded (headers image))
      (checkPhdrs image (headerOf image).phoff (headerOf image).phnum 0 []) := by
  rw [checkPhdrs_eq h.length_lt (by rw [Nat.zero_add]; exact hend), ← List.range_eq_range']
  refine checkAll_verdict h.length_lt clean_nil fits_headers (Nat.le_trans (Nat.le_of_eq ?_) h.phnum_le)
  rw [List.length_nil, Nat.zero_add]
  exact length_headers

theorem addU64_tableEnd (image : List UInt8) :
    (addU64 (headerOf image).phoff ((headerOf image).phnum * phdrSize) : Outcome Error Nat) =
      if tableEnd image < u64Bound then .ok (tableEnd image) else .trap :=
  rfl

theorem validate_traps (h : TableOverflows image ∨ SegmentOverflows image) : validate image = .trap := by
  rcases h with ⟨hok, hover⟩ | ⟨hok, hend, htrips⟩
  · rw [validate_of_headerOk hok, addU64_tableEnd, if_neg (Nat.not_lt.mpr hover)]
    rfl
  · rw [validate_of_headerOk hok, addU64_tableEnd, if_pos (Nat.lt_of_le_of_lt hend hok.length_lt), Outcome.ok_bind,
      if_neg (Nat.not_lt.mpr hend), (headers_verdict hok hend).trap htrips fun h => h.1.not_trips h.2]
    rfl

theorem validate_ensures (htable : ¬TableOverflows image) (hsegment : ¬SegmentOverflows image) :
    (validate image).Ensures (Accepted image) := by
  by_cases hok : HeaderOk image
  · have hfits : tableEnd image < u64Bound := Nat.lt_of_not_le fun h => htable ⟨hok, h⟩
    rw [validate_of_headerOk hok, addU64_tableEnd, if_pos hfits, Outcome.ok_bind]
    refine .guard fun hend => ?_
    rw [Nat.not_lt] at hend
    have hverdict := headers_verdict hok hend
    have hsegs : (checkPhdrs image (headerOf image).phoff (headerOf image).phnum 0 []).Ensures fun segs =>
        Clean image.length (headers image) ∧ segs = loaded (headers image) :=
      ⟨hverdict.not_trap fun h => hsegment ⟨hok, hend, h⟩, fun _ => hverdict.ok⟩
    refine hsegs.bind fun segs hsegs => ?_
    obtain ⟨hclean, rfl⟩ := hsegs
    exact (checkEntry_ensures hclean.user).mono fun v hv => accepted_of_clean hclean hv.1 (hv.1 ▸ hv.2)
  · obtain ⟨e, he⟩ := validate_of_not_headerOk hok
    rw [he]
    exact .error e

theorem accepted_of_validate (h : validate image = .ok v) : Accepted image v := by
  by_cases hover : TableOverflows image ∨ SegmentOverflows image
  · rw [validate_traps hover] at h
    cases h
  · rw [not_or] at hover
    exact (validate_ensures hover.1 hover.2).2 v h

/-- Any bytes are accepted soundly or refused, exactly where neither the end of the table nor a page hull overflows. -/
theorem validate_sound_iff (image : List UInt8) :
    (validate image).Ensures (Accepted image) ↔ ¬TableOverflows image ∧ ¬SegmentOverflows image := by
  constructor
  · intro h
    rw [← not_or]
    exact fun hover => h.1 (validate_traps hover)
  · exact fun h => validate_ensures h.1 h.2

end Image

/-- An ELF header with `phnum` program headers at `phoff`, whose bytes are given. -/
def ehdrBytes (phnum : UInt8) (phoff : List UInt8) : List UInt8 :=
  [0x7f, 0x45, 0x4c, 0x46, 2, 1, 1] ++ List.replicate 9 0 ++ [2, 0, 62, 0, 1, 0, 0, 0] ++ [0, 0, 0x40, 0, 0, 0, 0, 0] ++
    phoff ++ List.replicate 12 0 ++ [64, 0, 56, 0, phnum, 0] ++ List.replicate 6 0

/-- A header to load and execute one byte at `vaddr`, whose bytes are given. -/
def loadBytes (vaddr : List UInt8) : List UInt8 :=
  [1, 0, 0, 0, 5, 0, 0, 0] ++ List.replicate 8 0 ++ vaddr ++ List.replicate 16 0 ++ [1, 0, 0, 0, 0, 0, 0, 0] ++
    List.replicate 8 0

/-- The table of program headers starts at the last byte of the address space. -/
theorem far_table_traps : ¬∀ image, (validate image).Ensures (Accepted image) := by
  intro h
  have htrap : validate (ehdrBytes 1 (List.replicate 8 0xff)) = .trap := by decide +kernel
  exact (h _).1 htrap

/-- A segment in the last page of the address space. -/
example : validate (ehdrBytes 1 [64, 0, 0, 0, 0, 0, 0, 0] ++ loadBytes (0 :: 0xf0 :: List.replicate 6 0xff)) = .trap := by
  decide +kernel

example : validate (ehdrBytes 1 [64, 0, 0, 0, 0, 0, 0, 0] ++ loadBytes [0, 0, 0x40, 0, 0, 0, 0, 0]) =
    .ok { entry := 0x400000, segs := [{ vaddr := 0x400000, memsz := 1, prot := 5, flags := 5 }] } := by
  decide +kernel

end Kernel.Elf64
