import ZigKernel.NativeUserElfSound
import Mathlib.Algebra.BigOperators.Group.List.Basic

/-! Exactly which images the planner accepts. Each check of a program header reads that header alone, but
for the two counters (load segments, stack headers), and the checks of the whole plan are symmetric in
its segments; so the order of the headers decides nothing, as long as the file header stays what it is. -/

namespace Native

open Zig

namespace UserElf

variable {bytes : List UInt8}

/-! ### One program header -/

/-- The segment a load header describes. -/
def LoadFields.segment (ph : LoadFields) : Segment where
  fileOff := ph.offset
  filesz := ph.filesz
  vaddr := ph.vaddr
  memsz := ph.memsz
  flags := ph.flags
  byteEnd := ph.vaddr + ph.memsz
  mapStart := ph.vaddr / page * page
  mapEnd := (ph.vaddr + ph.memsz + (page - 1)) / page * page

/-- A load header that `appendLoad` takes. -/
structure LoadFields.Ok (length : Nat) (ph : LoadFields) : Prop where
  nonempty : ph.memsz ≠ 0
  filesz : ph.filesz ≤ ph.memsz
  fileRange : ph.offset + ph.filesz ≤ length
  mask : ph.flags &&& notU32 pfMask = 0
  readable : ph.flags &&& pfR ≠ 0
  writeExecute : ¬(ph.flags &&& pfW ≠ 0 ∧ ph.flags &&& pfX ≠ 0)
  powerOfTwo : 1 < ph.align → isPowerOfTwo ph.align = true
  aligned : 1 < ph.align → ph.vaddr % ph.align = ph.offset % ph.align
  low : imageLo ≤ ph.vaddr
  high : ph.vaddr + ph.memsz ≤ imageHi

theorem checkFileRange_eq_ok (hinput : bytes.length ≤ maxInput) {offset filesz : Nat} :
    checkFileRange bytes offset filesz = .ok () ↔ offset + filesz ≤ bytes.length := by
  refine ⟨checkFileRange_ok, fun h => ?_⟩
  have hbound : maxInput < u64Bound := by decide
  rw [checkFileRange, mathAdd, if_pos (by omega)]
  exact if_neg (Nat.not_lt.mpr h)

theorem alignUpPage_of_le {a : Nat} (h : a ≤ imageHi) : alignUpPage a = .ok ((a + (page - 1)) / page * page) := by
  have hhi : imageHi = 1610612736 := rfl
  have hpage : page = 4096 := rfl
  have hbound : u64Bound = 18446744073709551616 := rfl
  have hsum : a + (page - 1) < u64Bound := by
    rw [hhi] at h
    rw [hpage, hbound]
    omega
  have hmask : (a + (page - 1)) &&& notU64 (2 ^ 12 - 1) = (a + (page - 1)) / 2 ^ 12 * 2 ^ 12 :=
    and_notU64 hsum (by decide)
  change (a + (page - 1)) &&& notU64 (page - 1) = (a + (page - 1)) / page * page at hmask
  have hadd : mathAdd a (page - 1) = some (a + (page - 1)) := mathAdd_eq_some.mpr ⟨hsum, rfl⟩
  unfold alignUpPage
  simp only [hadd, hmask]

/-- The image interval is page-aligned, so the bounds of the hull follow from those of the segment. -/
theorem placeLoad_eq_ok {result result' : Plan} {ph : LoadFields} (hend : ph.vaddr + ph.memsz < u64Bound) :
    placeLoad result ph (ph.vaddr + ph.memsz) = .ok result' ↔
      imageLo ≤ ph.vaddr ∧ ph.vaddr + ph.memsz ≤ imageHi ∧ result.segments.length < maxLoads ∧
        result' = { result with segments := result.segments ++ [ph.segment] } := by
  have hstart : ph.vaddr &&& notU64 (2 ^ 12 - 1) = ph.vaddr / 2 ^ 12 * 2 ^ 12 := and_notU64 (by omega) (by decide)
  have hlo : imageLo = 262144 * 4096 := rfl
  have hhi : imageHi = 393216 * 4096 := rfl
  have hpage : page = 4096 := rfl
  change ph.vaddr &&& notU64 (page - 1) = ph.vaddr / page * page at hstart
  rw [placeLoad, hstart, Outcome.bind_eq_ok_iff]
  constructor
  · rintro ⟨mapEnd, halign, h⟩
    obtain ⟨himage, h⟩ := Outcome.ite_error_eq_ok h
    obtain ⟨hloads, h⟩ := Outcome.ite_error_eq_ok h
    rw [alignUpPage_ok halign] at h
    cases h
    exact ⟨by omega, by omega, Nat.lt_of_not_ge hloads, rfl⟩
  · rintro ⟨hlow, hhigh, hloads, rfl⟩
    refine ⟨_, alignUpPage_of_le hhigh, ?_⟩
    rw [hpage] at *
    have himage : ¬(ph.vaddr < imageLo ∨ ph.vaddr + ph.memsz > imageHi ∨ ph.vaddr / 4096 * 4096 < imageLo ∨
        (ph.vaddr + ph.memsz + (4096 - 1)) / 4096 * 4096 > imageHi) := by omega
    rw [if_neg himage, if_neg (Nat.not_le.mpr hloads)]
    rfl

theorem appendLoad_eq_ok (hinput : bytes.length ≤ maxInput) {result result' : Plan} {ph : LoadFields} :
    appendLoad result bytes ph = .ok result' ↔
      ph.Ok bytes.length ∧ result.segments.length < maxLoads ∧
        result' = { result with segments := result.segments ++ [ph.segment] } := by
  have hhi : imageHi < u64Bound := by decide
  simp only [appendLoad, Outcome.ite_error_eq_ok_iff, Outcome.bind_eq_ok_iff]
  constructor
  · rintro ⟨hmemsz, hfilesz, _, hrange, h⟩
    cases hend : mathAdd ph.vaddr ph.memsz with
    | none => simp only [hend, reduceCtorEq] at h
    | some byteEnd =>
        obtain ⟨hbound, rfl⟩ := mathAdd_eq_some.mp hend
        simp only [hend, Outcome.ite_error_eq_ok_iff] at h
        obtain ⟨hmask, hreadable, hwx, hpower, haligned, h⟩ := h
        obtain ⟨hlow, hhigh, hloads, hresult⟩ := (placeLoad_eq_ok hbound).mp h
        refine ⟨?_, hloads, hresult⟩
        exact
          { nonempty := hmemsz
            filesz := Nat.le_of_not_lt hfilesz
            fileRange := checkFileRange_ok hrange
            mask := not_not.mp hmask
            readable := hreadable
            writeExecute := hwx
            powerOfTwo := fun halign => not_not.mp fun hnot => hpower ⟨halign, hnot⟩
            aligned := fun halign => not_not.mp fun hnot => haligned ⟨halign, hnot⟩
            low := hlow
            high := hhigh }
  · rintro ⟨hok, hloads, hresult⟩
    have hbound : ph.vaddr + ph.memsz < u64Bound := by
      have := hok.high
      omega
    refine ⟨hok.nonempty, Nat.not_lt.mpr hok.filesz, (), (checkFileRange_eq_ok hinput).mpr hok.fileRange, ?_⟩
    simp only [mathAdd, if_pos hbound, Outcome.ite_error_eq_ok_iff]
    refine ⟨not_not.mpr hok.mask, hok.readable, hok.writeExecute, fun h => h.2 (hok.powerOfTwo h.1),
      fun h => h.2 (hok.aligned h.1), ?_⟩
    exact (placeLoad_eq_ok hbound).mpr ⟨hok.low, hok.high, hloads, hresult⟩

/-- The load fields of a program header. -/
def Phdr.load (ph : Phdr) : LoadFields where
  offset := ph.offset
  vaddr := ph.vaddr
  filesz := ph.filesz
  memsz := ph.memsz
  flags := ph.flags
  align := ph.align

/-- The segment a program header describes. -/
def Phdr.segment (ph : Phdr) : Segment := ph.load.segment

/-- A program header that passes its own checks. -/
def Phdr.Ok (length : Nat) (ph : Phdr) : Prop :=
  (ph.type = ptNull ∨ ph.type = ptNote) ∧ ph.offset + ph.filesz ≤ length ∨
    ph.type = ptGnuStack ∧ ph.flags &&& pfX = 0 ∧ ph.offset + ph.filesz ≤ length ∨
    ph.type = ptLoad ∧ ph.load.Ok length

/-- The load headers, in table order, as segments. -/
def loads (phs : List Phdr) : List Segment := (phs.filter fun ph => ph.type = ptLoad).map Phdr.segment

/-- The number of stack headers. -/
def gnuStacks (phs : List Phdr) : Nat := phs.countP fun ph => ph.type = ptGnuStack

theorem toNat_inj {a b : Bool} (h : a.toNat = b.toNat) : a = b := by
  cases a <;> cases b <;> first | rfl | cases h

theorem loads_of_eq {ph : Phdr} (h : ph.type = ptLoad) : loads [ph] = [ph.segment] := by simp [loads, h]
theorem loads_of_ne {ph : Phdr} (h : ph.type ≠ ptLoad) : loads [ph] = [] := by simp [loads, h]
theorem gnuStacks_of_eq {ph : Phdr} (h : ph.type = ptGnuStack) : gnuStacks [ph] = 1 := by simp [gnuStacks, h]
theorem gnuStacks_of_ne {ph : Phdr} (h : ph.type ≠ ptGnuStack) : gnuStacks [ph] = 0 := by simp [gnuStacks, h]

theorem takePhdr_eq_ok (hinput : bytes.length ≤ maxInput) {ph : Phdr} {result result' : Plan} {seen seen' : Bool}
    (hlength : result.segments.length ≤ maxLoads) :
    takePhdr bytes ph result seen = .ok (result', seen') ↔
      ph.Ok bytes.length ∧ gnuStacks [ph] + seen.toNat ≤ 1 ∧ result.segments.length + (loads [ph]).length ≤ maxLoads ∧
        result' = { result with segments := result.segments ++ loads [ph] } ∧
        seen'.toNat = gnuStacks [ph] + seen.toNat := by
  rw [takePhdr]
  by_cases hnote : ph.type = ptNull ∨ ph.type = ptNote
  · have hload : ph.type ≠ ptLoad := by rcases hnote with h | h <;> rw [h] <;> decide
    have hstack : ph.type ≠ ptGnuStack := by rcases hnote with h | h <;> rw [h] <;> decide
    have hok : ph.Ok bytes.length ↔ ph.offset + ph.filesz ≤ bytes.length := by
      simp only [Phdr.Ok, eq_true hnote, eq_false hload, eq_false hstack, true_and, false_and, or_false]
    rw [if_pos hnote, hok, loads_of_ne hload, gnuStacks_of_ne hstack, List.append_nil, Outcome.bind_eq_ok_iff]
    constructor
    · rintro ⟨_, hcheck, h⟩
      cases h
      exact ⟨checkFileRange_ok hcheck, by cases seen <;> decide, hlength, rfl, (Nat.zero_add _).symm⟩
    · rintro ⟨hfile, -, -, rfl, hseen⟩
      rw [Nat.zero_add] at hseen
      exact ⟨(), (checkFileRange_eq_ok hinput).mpr hfile, by rw [toNat_inj hseen]; rfl⟩
  by_cases hstack : ph.type = ptGnuStack
  · have hload : ph.type ≠ ptLoad := by rw [hstack]; decide
    have hok : ph.Ok bytes.length ↔ ph.flags &&& pfX = 0 ∧ ph.offset + ph.filesz ≤ bytes.length := by
      simp only [Phdr.Ok, eq_false hnote, eq_false hload, eq_true hstack, true_and, false_and, or_false, false_or]
    rw [if_neg hnote, if_pos hstack, hok, loads_of_ne hload, gnuStacks_of_eq hstack, List.append_nil,
      Outcome.ite_error_eq_ok_iff, Outcome.ite_error_eq_ok_iff, Outcome.bind_eq_ok_iff]
    constructor
    · rintro ⟨hseen, hexecutable, _, hcheck, h⟩
      cases h
      cases seen with
      | true => exact absurd rfl hseen
      | false => exact ⟨⟨not_not.mp hexecutable, checkFileRange_ok hcheck⟩, by decide, hlength, rfl, rfl⟩
    · rintro ⟨⟨hexecutable, hfile⟩, hseen, -, rfl, hseen'⟩
      cases seen with
      | true => exact absurd hseen (by decide)
      | false =>
          refine ⟨Bool.false_ne_true, not_not.mpr hexecutable, (), (checkFileRange_eq_ok hinput).mpr hfile, ?_⟩
          rw [show seen' = true from toNat_inj hseen']
          rfl
  by_cases hload : ph.type = ptLoad
  · have hok : ph.Ok bytes.length ↔ ph.load.Ok bytes.length := by
      simp only [Phdr.Ok, eq_false hnote, eq_true hload, eq_false hstack, true_and, false_and, false_or]
    rw [if_neg hnote, if_neg hstack, if_pos hload, hok, loads_of_eq hload, gnuStacks_of_ne hstack,
      Outcome.bind_eq_ok_iff]
    constructor
    · rintro ⟨result'', happend, h⟩
      cases h
      obtain ⟨hfields, hloads, hresult⟩ := (appendLoad_eq_ok hinput).mp happend
      exact ⟨hfields, by cases seen <;> decide, hloads, hresult, (Nat.zero_add _).symm⟩
    · rintro ⟨hfields, -, hloads, rfl, hseen⟩
      rw [Nat.zero_add] at hseen
      exact ⟨_, (appendLoad_eq_ok hinput).mpr ⟨hfields, hloads, rfl⟩, by rw [toNat_inj hseen]; rfl⟩
  · rw [if_neg hnote, if_neg hstack, if_neg hload]
    refine iff_of_false (by nofun) fun h => ?_
    rcases h.1 with ⟨htype, -⟩ | ⟨htype, -⟩ | ⟨htype, -⟩
    · exact hnote htype
    · exact hstack htype
    · exact hload htype

/-! ### The program header table -/

/-- The `n`-byte number at `off`. -/
def field (n : Nat) (bytes : List UInt8) (off : Nat) : Nat := LittleEndian.decode (fun i => byteAt bytes (off + i)) n

/-- The program header at `phOff`. -/
def phdrAt (bytes : List UInt8) (phOff : Nat) : Phdr where
  type := field 4 bytes (phOff + 0)
  flags := field 4 bytes (phOff + 4)
  offset := field 8 bytes (phOff + 8)
  vaddr := field 8 bytes (phOff + 16)
  filesz := field 8 bytes (phOff + 32)
  memsz := field 8 bytes (phOff + 40)
  align := field 8 bytes (phOff + 48)

/-- The program headers from index `i` on. -/
def phdrsFrom (bytes : List UInt8) (phoff i left : Nat) : List Phdr :=
  (List.range' i left).map fun j => phdrAt bytes (phoff + j * phdrSize)

theorem readInt_of_le (hinput : bytes.length ≤ maxInput) {n off : Nat} (h : off + n ≤ bytes.length) :
    readInt n bytes off = .ok (field n bytes off) := by
  have hbound : maxInput < u64Bound := by decide
  rw [readInt, mathAdd, if_pos (by omega)]
  exact if_neg (Nat.not_lt.mpr h)

theorem field_run {α : Type} (hinput : bytes.length ≤ maxInput) {phOff k n : Nat} {f : Nat → Outcome Error α}
    (h : phOff + k + n ≤ bytes.length) :
    (addU64 phOff k >>= fun off => readInt n bytes off >>= f) = f (field n bytes (phOff + k)) := by
  have hbound : maxInput < u64Bound := by decide
  rw [addU64_of_lt (by omega), Outcome.ok_bind, readInt_of_le hinput h, Outcome.ok_bind]

theorem readPhdr_of_le (hinput : bytes.length ≤ maxInput) {phOff : Nat} (h : phOff + phdrSize ≤ bytes.length) :
    readPhdr bytes phOff = .ok (phdrAt bytes phOff) := by
  have hsize : phdrSize = 56 := rfl
  rw [hsize] at h
  unfold readPhdr
  iterate 8 rw [field_run hinput (by omega)]
  rfl

theorem phdrsFrom_succ (phoff i left : Nat) : phdrsFrom bytes phoff i (left + 1) =
    phdrAt bytes (phoff + i * phdrSize) :: phdrsFrom bytes phoff (i + 1) left := by
  rw [phdrsFrom, List.range'_succ, List.map_cons]
  rfl

theorem loads_cons (ph : Phdr) (rest : List Phdr) : loads (ph :: rest) = loads [ph] ++ loads rest := by
  rw [loads, loads, loads, ← List.map_append, ← List.filter_append]
  rfl

theorem gnuStacks_cons (ph : Phdr) (rest : List Phdr) : gnuStacks (ph :: rest) = gnuStacks [ph] + gnuStacks rest := by
  rw [gnuStacks, gnuStacks, gnuStacks, ← List.countP_append]
  rfl

/-- The loop takes a table whose headers all pass, with at most one stack header and eight load headers,
and appends the segments of the load headers. -/
theorem planPhdrs_eq_ok (hinput : bytes.length ≤ maxInput) {phoff left i : Nat} {result result' : Plan} {seen : Bool}
    (htable : phoff + (i + left) * phdrSize ≤ bytes.length) (hlength : result.segments.length ≤ maxLoads)
    (hseen : seen.toNat ≤ 1) :
    planPhdrs bytes phoff left i result seen = .ok result' ↔
      (∀ ph ∈ phdrsFrom bytes phoff i left, ph.Ok bytes.length) ∧
        gnuStacks (phdrsFrom bytes phoff i left) + seen.toNat ≤ 1 ∧
        result.segments.length + (loads (phdrsFrom bytes phoff i left)).length ≤ maxLoads ∧
        result' = { result with segments := result.segments ++ loads (phdrsFrom bytes phoff i left) } := by
  induction left generalizing i result seen with
  | zero =>
      have hnil : phdrsFrom bytes phoff i 0 = [] := rfl
      have hresult : ({ result with segments := result.segments ++ loads [] } : Plan) = result := by
        rw [show loads [] = [] from rfl, List.append_nil]
      rw [hnil, hresult, planPhdrs]
      constructor
      · intro h
        cases h
        exact ⟨fun ph hph => absurd hph List.not_mem_nil, (Nat.zero_add _).trans_le hseen, hlength, rfl⟩
      · rintro ⟨-, -, -, rfl⟩
        rfl
  | succ left ih =>
      have hsize : phdrSize = 56 := rfl
      have hbound : maxInput < u64Bound := by decide
      rw [hsize] at htable
      have hmul : (mulU64 i phdrSize : Outcome Error Nat) = .ok (i * phdrSize) := by
        rw [mulU64, hsize, if_pos (by omega)]
      have hread : readPhdr bytes (phoff + i * phdrSize) = .ok (phdrAt bytes (phoff + i * phdrSize)) :=
        readPhdr_of_le hinput (by rw [hsize]; omega)
      have hrest : phoff + (i + 1 + left) * phdrSize ≤ bytes.length := by
        rw [hsize]
        omega
      rw [planPhdrs, hmul, Outcome.ok_bind, addU64_of_lt (by rw [hsize]; omega), Outcome.ok_bind, hread,
        Outcome.ok_bind, phdrsFrom_succ, loads_cons, gnuStacks_cons, Outcome.bind_eq_ok_iff]
      generalize phdrAt bytes (phoff + i * phdrSize) = ph
      rw [List.length_append, List.forall_mem_cons]
      constructor
      · rintro ⟨⟨next, seen'⟩, htake, h⟩
        obtain ⟨hok, hstack, hloads, rfl, hseen'⟩ := (takePhdr_eq_ok hinput hlength).mp htake
        rw [← List.length_append] at hloads
        obtain ⟨hrestOk, hrestStack, hrestLoads, hresult⟩ := (ih hrest hloads (hseen' ▸ hstack)).mp h
        simp only [List.length_append] at hrestLoads
        refine ⟨⟨hok, hrestOk⟩, by omega, by omega, ?_⟩
        rw [hresult, List.append_assoc]
      · rintro ⟨⟨hok, hrestOk⟩, hstack, hloads, rfl⟩
        obtain ⟨seen', hseen'⟩ : ∃ b : Bool, b.toNat = gnuStacks [ph] + seen.toNat := by
          rcases Nat.le_one_iff_eq_zero_or_eq_one.mp (by omega : gnuStacks [ph] + seen.toNat ≤ 1) with h | h
          · exact ⟨false, h.symm⟩
          · exact ⟨true, h.symm⟩
        refine ⟨({ result with segments := result.segments ++ loads [ph] }, seen'), ?_, ?_⟩
        · exact (takePhdr_eq_ok hinput hlength).mpr ⟨hok, by omega, by omega, rfl, hseen'⟩
        · refine (ih hrest ?_ (by omega)).mpr ⟨hrestOk, by omega, ?_, ?_⟩
          · rw [List.length_append]
            omega
          · simp only [List.length_append]
            omega
          · rw [List.append_assoc]

/-! ### The whole plan -/

/-- Two hulls share no page. -/
def Segment.Apart (a b : Segment) : Prop := a.mapEnd ≤ b.mapStart ∨ b.mapEnd ≤ a.mapStart

/-- What `plan` asks of the segments together. -/
structure Plan.Accepted (p : Plan) : Prop where
  nonempty : p.segments ≠ []
  apart : p.segments.Pairwise Segment.Apart
  span : ∀ s ∈ p.segments, ∀ t ∈ p.segments, t.mapEnd - s.mapStart ≤ maxImageSpan
  pages : (p.segments.map Segment.pages).sum ≤ maxMappedPages
  entry : ∃ s ∈ p.segments, s.flags &&& pfX ≠ 0 ∧ s.vaddr ≤ p.entry ∧ p.entry < s.vaddr + s.filesz

theorem overlapsAny_eq_false {a : Segment} {segs : List Segment} :
    overlapsAny a segs = false ↔ ∀ b ∈ segs, a.Apart b := by
  induction segs with
  | nil => exact iff_of_true rfl fun b hb => absurd hb List.not_mem_nil
  | cons b rest ih =>
      rw [overlapsAny, List.forall_mem_cons, ← ih, Segment.Apart]
      by_cases hmeet : a.mapStart < b.mapEnd ∧ b.mapStart < a.mapEnd
      · rw [if_pos hmeet]
        exact iff_of_false (by nofun) fun h => by omega
      · rw [if_neg hmeet]
        exact ⟨fun h => ⟨by omega, h⟩, fun h => h.2⟩

theorem rejectPageOverlap_eq_ok {segs : List Segment} :
    rejectPageOverlap segs = .ok () ↔ segs.Pairwise Segment.Apart := by
  induction segs with
  | nil => exact iff_of_true rfl List.Pairwise.nil
  | cons a rest ih =>
      rw [rejectPageOverlap, List.pairwise_cons, ← ih, ← overlapsAny_eq_false, Outcome.ite_error_eq_ok_iff,
        Bool.not_eq_true]

/-- The lowest start and the highest end belong to segments, so the span check compares all pairs. -/
theorem rejectImageBudget_eq_ok {p : Plan} {length : Nat} (hvalid : p.Valid length) (hsome : p.segments.length ≠ 0) :
    rejectImageBudget p.segments = .ok () ↔
      (∀ s ∈ p.segments, ∀ t ∈ p.segments, t.mapEnd - s.mapStart ≤ maxImageSpan) ∧
        (p.segments.map Segment.pages).sum ≤ maxMappedPages := by
  obtain ⟨lowest, highest, pages, hrun, hbudget, hle⟩ := budget_of_valid hvalid hsome
  have hpages : pages = (p.segments.map Segment.pages).sum := hbudget.pages.trans (Nat.zero_add _)
  rw [rejectImageBudget, hrun, Outcome.ok_bind]
  simp only [subU64, if_pos hle, Outcome.ok_bind, Outcome.ite_error_eq_ok_iff, and_true, Nat.not_lt, hpages]
  refine and_congr_left fun _ => ⟨fun h s hs t ht => ?_, fun h => ?_⟩
  · have := hbudget.low.2 s hs
    have := hbudget.high.2 t ht
    omega
  · obtain ⟨s₀, hs₀⟩ := List.exists_mem_of_length_pos (Nat.pos_of_ne_zero hsome)
    have hvalid₀ := hvalid.segments s₀ hs₀
    have hlow₀ := hbudget.low.2 s₀ hs₀
    have hhigh₀ := hbudget.high.2 s₀ hs₀
    have hstart := hvalid₀.mapStart_le
    have hend := hvalid₀.vaddr_lt
    have hmax : imageHi < maxU64 := by decide
    rcases hbudget.lowest with heq | ⟨s, hs, heq⟩
    · have := hvalid₀.high
      omega
    · rcases hbudget.highest with heq' | ⟨t, ht, heq'⟩
      · omega
      · rw [heq, heq']
        exact h s hs t ht

theorem requireExecutableFileEntry_eq_ok {entry length : Nat} {segs : List Segment}
    (hvalid : ∀ s ∈ segs, s.Valid length) :
    requireExecutableFileEntry entry segs = .ok () ↔
      ∃ s ∈ segs, s.flags &&& pfX ≠ 0 ∧ s.vaddr ≤ entry ∧ entry < s.vaddr + s.filesz := by
  induction segs with
  | nil => exact iff_of_false (by nofun) (by rintro ⟨s, hs, -⟩; exact absurd hs List.not_mem_nil)
  | cons s rest ih =>
      have hrest := ih fun s' hs' => hvalid s' (List.mem_cons_of_mem _ hs')
      have hs := hvalid s List.mem_cons_self
      have hend : s.vaddr + s.filesz < u64Bound := by
        have hhi : imageHi < u64Bound := by decide
        have := hs.filesz
        have := hs.byteEnd
        have := hs.byteEnd_le
        have := hs.high
        omega
      rw [requireExecutableFileEntry, List.exists_mem_cons_iff, ← hrest]
      by_cases hexecutable : s.flags &&& pfX = 0
      · rw [if_pos hexecutable]
        exact ⟨Or.inr, fun h => h.resolve_left fun hs => hs.1 hexecutable⟩
      · rw [if_neg hexecutable, addU64_of_lt hend, Outcome.ok_bind]
        by_cases hentry : entry ≥ s.vaddr ∧ entry < s.vaddr + s.filesz
        · rw [if_pos hentry]
          exact iff_of_true rfl (Or.inl ⟨hexecutable, hentry⟩)
        · rw [if_neg hentry]
          exact ⟨Or.inr, fun h => h.resolve_left fun hs => hentry hs.2⟩

theorem acceptPlan_eq_ok {p p' : Plan} {length : Nat} (hvalid : p.Valid length) :
    acceptPlan p = .ok p' ↔ p' = p ∧ p.Accepted := by
  rw [acceptPlan, Outcome.ite_error_eq_ok_iff]
  simp only [Outcome.bind_eq_ok_iff]
  constructor
  · rintro ⟨hsome, _, hoverlap, _, hbudget, _, hentry, h⟩
    cases h
    obtain ⟨hspan, hpages⟩ := (rejectImageBudget_eq_ok hvalid hsome).mp hbudget
    exact ⟨rfl,
      { nonempty := fun hnil => hsome (by rw [hnil]; rfl)
        apart := rejectPageOverlap_eq_ok.mp hoverlap
        span := hspan
        pages := hpages
        entry := (requireExecutableFileEntry_eq_ok hvalid.segments).mp hentry }⟩
  · rintro ⟨rfl, h⟩
    have hsome : p'.segments.length ≠ 0 := fun hzero => h.nonempty (List.length_eq_zero_iff.mp hzero)
    exact ⟨hsome, (), rejectPageOverlap_eq_ok.mpr h.apart, (),
      (rejectImageBudget_eq_ok hvalid hsome).mpr ⟨h.span, h.pages⟩, (),
      (requireExecutableFileEntry_eq_ok hvalid.segments).mpr h.entry, rfl⟩

/-- A file header that `plan` goes on from. -/
structure Header (bytes : List UInt8) (e : Ehdr) : Prop where
  input : bytes.length ≤ maxInput
  size : ehdrSize ≤ bytes.length
  magic : bytes.take 4 = [0x7f, 0x45, 0x4c, 0x46]
  elfClass : byteAt bytes 4 = elfclass64
  endian : byteAt bytes 5 = elfdata2lsb
  identVersion : byteAt bytes 6 = evCurrent
  osAbi : byteAt bytes 7 = elfosabiNone
  abiVersion : byteAt bytes 8 = 0
  read : readEhdr bytes = .ok e
  type : e.type = etExec
  machine : e.machine = emX8664
  version : e.version = 1
  flags : e.flags = 0
  ehsize : e.ehsize = ehdrSize
  phentsize : e.phentsize = phdrSize
  phnum_pos : e.phnum ≠ 0
  phnum_le : e.phnum ≤ maxPhdrs
  table : e.phoff + e.phnum * phdrSize ≤ bytes.length

/-- The program headers of a file. -/
def phdrs (bytes : List UInt8) (e : Ehdr) : List Phdr := phdrsFrom bytes e.phoff 0 e.phnum

/-- A table of program headers that `plan` accepts, and the plan it stands for. -/
structure Table (bytes : List UInt8) (entry : Nat) (phs : List Phdr) (p : Plan) : Prop where
  headers : ∀ ph ∈ phs, ph.Ok bytes.length
  gnuStacks : gnuStacks phs ≤ 1
  loads : (loads phs).length ≤ maxLoads
  plan : p = { entry, segments := UserElf.loads phs }
  accepted : p.Accepted

theorem planTable_eq_ok (hinput : bytes.length ≤ maxInput) {entry phoff phnum : Nat} {p : Plan}
    (htable : phoff + phnum * phdrSize ≤ bytes.length) :
    (planPhdrs bytes phoff phnum 0 { entry, segments := [] } false >>= acceptPlan) = .ok p ↔
      Table bytes entry (phdrsFrom bytes phoff 0 phnum) p := by
  have hempty : ({ entry, segments := [] } : Plan).Valid bytes.length :=
    ⟨fun s hs => absurd hs List.not_mem_nil, Nat.zero_le _⟩
  have hphdrs {result : Plan} :
      planPhdrs bytes phoff phnum 0 { entry, segments := [] } false = .ok result ↔
        (∀ ph ∈ phdrsFrom bytes phoff 0 phnum, ph.Ok bytes.length) ∧ gnuStacks (phdrsFrom bytes phoff 0 phnum) ≤ 1 ∧
          0 + (loads (phdrsFrom bytes phoff 0 phnum)).length ≤ maxLoads ∧
          result = { entry, segments := loads (phdrsFrom bytes phoff 0 phnum) } :=
    planPhdrs_eq_ok hinput (by rwa [Nat.zero_add]) (Nat.zero_le _) (Nat.zero_le _)
  rw [Outcome.bind_eq_ok_iff]
  constructor
  · rintro ⟨result, hresult, haccept⟩
    obtain ⟨rfl, haccepted⟩ := (acceptPlan_eq_ok (planPhdrs_ok hempty hresult)).mp haccept
    obtain ⟨hheaders, hstacks, hloads, hplan⟩ := hphdrs.mp hresult
    exact ⟨hheaders, hstacks, (Nat.zero_add _).symm.trans_le hloads, hplan, haccepted⟩
  · intro h
    have hresult := hphdrs.mpr ⟨h.headers, h.gnuStacks, (Nat.zero_add _).trans_le h.loads, h.plan⟩
    exact ⟨p, hresult, (acceptPlan_eq_ok (planPhdrs_ok hempty hresult)).mpr ⟨rfl, h.accepted⟩⟩

/-- What `plan` accepts, and the plan it returns. -/
theorem plan_eq_ok {p : Plan} :
    plan bytes = .ok p ↔ ∃ e, Header bytes e ∧ Table bytes e.entry (phdrs bytes e) p := by
  have hbound : maxInput < u64Bound := by decide
  have hsize : phdrSize = 56 := rfl
  have hphnum : maxPhdrs = 64 := rfl
  rw [plan]
  simp only [Outcome.ite_error_eq_ok_iff, Outcome.bind_eq_ok_iff, planEhdr]
  constructor
  · rintro ⟨hinput, hlength, hmagic, hclass, hendian, hident, hosabi, habi, e, hread, htype, hmachine, hversion, hflags,
      hehsize, hphentsize, hpos, hle, h⟩
    cases hmul : mathMul e.phentsize e.phnum with
    | none => simp only [hmul, reduceCtorEq] at h
    | some tableBytes =>
        simp only [hmul] at h
        cases hadd : mathAdd e.phoff tableBytes with
        | none => simp only [hadd, reduceCtorEq] at h
        | some tableEnd =>
            obtain ⟨-, rfl⟩ := mathMul_eq_some.mp hmul
            obtain ⟨-, rfl⟩ := mathAdd_eq_some.mp hadd
            simp only [hadd] at h
            obtain ⟨hend, h⟩ := Outcome.ite_error_eq_ok h
            have htable : e.phoff + e.phnum * phdrSize ≤ bytes.length := by
              rw [Nat.mul_comm, ← not_not.mp hphentsize]
              exact Nat.le_of_not_lt hend
            refine ⟨e, ?_, (planTable_eq_ok (Nat.le_of_not_lt hinput) htable).mp h⟩
            exact
              { input := Nat.le_of_not_lt hinput
                size := Nat.le_of_not_lt hlength
                magic := not_not.mp hmagic
                elfClass := not_not.mp hclass
                endian := not_not.mp hendian
                identVersion := not_not.mp hident
                osAbi := not_not.mp hosabi
                abiVersion := not_not.mp habi
                read := hread
                type := not_not.mp htype
                machine := not_not.mp hmachine
                version := not_not.mp hversion
                flags := not_not.mp hflags
                ehsize := not_not.mp hehsize
                phentsize := not_not.mp hphentsize
                phnum_pos := hpos
                phnum_le := Nat.le_of_not_lt hle
                table := htable }
  · rintro ⟨e, h, htable⟩
    have hfits := h.table
    have hinput := h.input
    have hle := h.phnum_le
    have hmul : mathMul e.phentsize e.phnum = some (e.phnum * phdrSize) := by
      rw [h.phentsize, Nat.mul_comm]
      exact mathMul_eq_some.mpr ⟨by rw [Nat.mul_comm]; omega, rfl⟩
    have hadd : mathAdd e.phoff (e.phnum * phdrSize) = some (e.phoff + e.phnum * phdrSize) :=
      mathAdd_eq_some.mpr ⟨by omega, rfl⟩
    refine ⟨Nat.not_lt.mpr h.input, Nat.not_lt.mpr h.size, not_not.mpr h.magic, not_not.mpr h.elfClass,
      not_not.mpr h.endian, not_not.mpr h.identVersion, not_not.mpr h.osAbi, not_not.mpr h.abiVersion, e, h.read,
      not_not.mpr h.type, not_not.mpr h.machine, not_not.mpr h.version, not_not.mpr h.flags, not_not.mpr h.ehsize,
      not_not.mpr h.phentsize, h.phnum_pos, Nat.not_lt.mpr h.phnum_le, ?_⟩
    simp only [hmul, hadd, if_neg (Nat.not_lt.mpr h.table)]
    exact (planTable_eq_ok h.input h.table).mpr htable

end UserElf

end Native
