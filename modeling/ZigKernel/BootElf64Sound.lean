import ZigKernel.BootElf64
import Mathlib.Data.List.Pairwise

/-! The boot loader's plan is sound: its segments are disjoint parts of the window above the base, and its
execution leaves exactly the image. One invariant goes through the program header loop, another through the
loop that copies. -/

namespace Boot

open Zig

namespace Elf64

variable {bytes dest : List UInt8} {length : Nat}

/-- A segment of a file of so many bytes. -/
structure Segment.Valid (length : Nat) (s : Segment) : Prop where
  stop_eq : s.stop = s.paddr + s.memsz
  stop_lt : s.stop < u64Bound
  filesz_le : s.filesz ≤ s.memsz
  file_le : s.fileOff + s.filesz ≤ length
  file_lt : s.fileOff + s.filesz < u64Bound

/-- The two segments have no address in common. -/
def Segment.Apart (a b : Segment) : Prop := a.stop ≤ b.paddr ∨ b.stop ≤ a.paddr

/-- The address is in the segment. -/
def Segment.Contains (s : Segment) (a : Nat) : Prop := s.paddr ≤ a ∧ a < s.stop

/-- The file has a byte for the address. -/
def Segment.Backs (s : Segment) (a : Nat) : Prop := s.paddr ≤ a ∧ a < s.paddr + s.filesz

instance (s : Segment) (a : Nat) : Decidable (s.Contains a) := inferInstanceAs (Decidable (_ ∧ _))
instance (s : Segment) (a : Nat) : Decidable (s.Backs a) := inferInstanceAs (Decidable (_ ∧ _))

theorem Segment.Apart.not_contains {a b : Segment} (h : a.Apart b) {x : Nat} (ha : a.Contains x) : ¬b.Contains x := by
  rintro ⟨hstart, hstop⟩
  obtain ⟨hstart', hstop'⟩ := ha
  rcases h with h | h <;> omega

/-- The segment of a program header. -/
def Phdr.segment (ph : Phdr) : Segment :=
  { paddr := ph.paddr, fileOff := ph.offset, filesz := ph.filesz, memsz := ph.memsz, stop := ph.paddr + ph.memsz,
    flags := ph.flags }

/-- The segments of the nonempty `PT_LOAD` headers. -/
def loads (phs : List Phdr) : List Segment := (phs.filter fun ph => ph.type = ptLoad ∧ ph.memsz ≠ 0).map Phdr.segment

/-- The program headers from index `i` on. -/
def phdrsFrom (bytes : List UInt8) (phoff phentsize i left : Nat) : List Phdr :=
  (List.range left).map fun k => Phdr.ofBytes ((bytes.drop (phoff + (i + k) * phentsize)).take phdrSize)

theorem phdrsFrom_succ (phoff phentsize i left : Nat) : phdrsFrom bytes phoff phentsize i (left + 1) =
    Phdr.ofBytes ((bytes.drop (phoff + i * phentsize)).take phdrSize) :: phdrsFrom bytes phoff phentsize (i + 1) left := by
  rw [phdrsFrom, List.range_succ_eq_map, List.map_cons, List.map_map, phdrsFrom, Nat.add_zero]
  refine congrArg _ (List.map_congr_left fun k _ => ?_)
  rw [Function.comp, Nat.add_assoc, Nat.add_comm 1 k]

theorem loads_cons (ph : Phdr) (rest : List Phdr) : loads (ph :: rest) = loads [ph] ++ loads rest := by
  rw [loads, loads, loads, ← List.map_append, ← List.filter_append, List.singleton_append]

/-! ### The program header loop -/

theorem readInt_of_le {size off : Nat} (h : off + size ≤ bytes.length) (hbound : off + size < u64Bound) :
    readInt size bytes off = .ok ((bytes.drop off).take size) := by
  rw [readInt, addU64_of_lt hbound, Outcome.ok_bind, if_neg (Nat.not_lt_of_le h), slice_of_le (Nat.le_add_right _ _) h,
    Nat.add_sub_cancel_left]

theorem checkAlign_spec {ph : Phdr} : (checkAlign ph).Ensures fun _ => True := by
  rw [checkAlign]
  by_cases halign : ph.align > 1
  · rw [if_pos halign]
    exact .guard fun _ => .guard fun _ => .ok trivial
  · rw [if_neg halign]
    exact .ok trivial

/-- What the loop has found so far. -/
structure Scan.Valid (length : Nat) (scan : Scan) : Prop where
  segments : ∀ s ∈ scan.segments, s.Valid length
  lowest : ∀ s ∈ scan.segments, scan.lowest ≤ s.paddr
  highest : ∀ s ∈ scan.segments, s.stop ≤ scan.highest

theorem Scan.push_spec {scan : Scan} {s : Segment} (hvalid : scan.Valid length) (hs : s.Valid length)
    (hroom : scan.segments.length < maxPhdrs) :
    (scan.push s).Ensures fun scan' => scan'.Valid length ∧ scan'.segments = scan.segments ++ [s] := by
  rw [Scan.push, if_pos hroom]
  refine .ok ⟨⟨?_, ?_, ?_⟩, rfl⟩
  · exact List.forall_mem_append.mpr ⟨hvalid.segments, List.forall_mem_singleton.mpr hs⟩
  · refine List.forall_mem_append.mpr ⟨fun t ht => ?_, List.forall_mem_singleton.mpr (Nat.min_le_right _ _)⟩
    exact Nat.le_trans (Nat.min_le_left _ _) (hvalid.lowest t ht)
  · refine List.forall_mem_append.mpr ⟨fun t ht => ?_, List.forall_mem_singleton.mpr (Nat.le_max_right _ _)⟩
    exact Nat.le_trans (hvalid.highest t ht) (Nat.le_max_left _ _)

theorem length_loads_singleton (ph : Phdr) : (loads [ph]).length ≤ 1 := by
  rw [loads, List.length_map]
  exact List.length_filter_le _ _

theorem planPhdr_spec {ph : Phdr} {scan : Scan} (hvalid : scan.Valid bytes.length)
    (hroom : scan.segments.length < maxPhdrs) :
    (planPhdr bytes ph scan).Ensures fun scan' =>
      scan'.Valid bytes.length ∧ scan'.segments = scan.segments ++ loads [ph] := by
  rw [planPhdr]
  by_cases htype : ph.type = ptLoad
  swap
  · rw [if_pos htype]
    exact .ok ⟨hvalid, by simp [loads, htype]⟩
  rw [if_neg (not_not.mpr htype)]
  refine .guard fun hfilesz => .guard fun _ => ?_
  by_cases hempty : ph.memsz = 0
  · rw [if_pos hempty]
    exact checkAlign_spec.bind fun _ _ => .ok ⟨hvalid, by simp [loads, hempty]⟩
  rw [if_neg hempty]
  cases hfile : mathAdd ph.offset ph.filesz with
  | none => exact .error _
  | some fileEnd =>
      obtain ⟨hfileLt, rfl⟩ := mathAdd_eq_some.mp hfile
      refine .guard fun hfileLe => ?_
      cases hstop : mathAdd ph.paddr ph.memsz with
      | none => exact .error _
      | some segEnd =>
          obtain ⟨hstopLt, rfl⟩ := mathAdd_eq_some.mp hstop
          have hloads : loads [ph] = [ph.segment] := by simp [loads, htype, hempty]
          have hsegment : ph.segment.Valid bytes.length :=
            ⟨rfl, hstopLt, Nat.le_of_not_lt hfilesz, Nat.le_of_not_lt hfileLe, hfileLt⟩
          rw [hloads]
          exact checkAlign_spec.bind fun _ _ => Scan.push_spec hvalid hsegment hroom

/-- The loop over a table that lies in the file. -/
theorem planPhdrs_spec {phoff phentsize left i : Nat} {scan : Scan} (hsize : phdrSize ≤ phentsize)
    (htable : phoff + (i + left) * phentsize ≤ bytes.length) (hbound : phoff + (i + left) * phentsize < u64Bound)
    (hvalid : scan.Valid bytes.length) (hcount : scan.segments.length ≤ i) (hmax : i + left ≤ maxPhdrs) :
    (planPhdrs bytes phoff phentsize left i scan).Ensures fun scan' =>
      scan'.Valid bytes.length ∧ scan'.segments = scan.segments ++ loads (phdrsFrom bytes phoff phentsize i left) := by
  induction left generalizing i scan with
  | zero => exact .ok ⟨hvalid, (List.append_nil _).symm⟩
  | succ left ih =>
      have hrow : (i + (left + 1)) * phentsize = i * phentsize + phentsize + left * phentsize := by
        rw [Nat.add_mul, Nat.succ_mul, Nat.add_comm (left * phentsize), Nat.add_assoc]
      have hnext : i + (left + 1) = i + 1 + left := by omega
      have hread : readInt phdrSize bytes (phoff + i * phentsize) =
          .ok ((bytes.drop (phoff + i * phentsize)).take phdrSize) := readInt_of_le (by omega) (by omega)
      have hstep : planPhdrs bytes phoff phentsize (left + 1) i scan =
          planPhdr bytes (Phdr.ofBytes ((bytes.drop (phoff + i * phentsize)).take phdrSize)) scan >>=
            planPhdrs bytes phoff phentsize left (i + 1) := by
        rw [planPhdrs, mulU64_of_lt (by omega), Outcome.ok_bind, addU64_of_lt (by omega), Outcome.ok_bind, hread]
        rfl
      have hphdr : (planPhdr bytes (Phdr.ofBytes ((bytes.drop (phoff + i * phentsize)).take phdrSize)) scan).Ensures _ :=
        planPhdr_spec hvalid (by omega)
      rw [hstep, phdrsFrom_succ, loads_cons]
      refine hphdr.bind fun scan₁ ⟨hvalid₁, hsegments₁⟩ => ?_
      have hlength := length_loads_singleton (Phdr.ofBytes ((bytes.drop (phoff + i * phentsize)).take phdrSize))
      have hcount₁ : scan₁.segments.length ≤ i + 1 := by
        rw [hsegments₁, List.length_append]
        omega
      rw [← List.append_assoc, ← hsegments₁]
      exact ih (hnext ▸ htable) (hnext ▸ hbound) hvalid₁ hcount₁ (hnext ▸ hmax)

/-! ### The checks behind the loop -/

theorem overlapsAny_false {a : Segment} {segments : List Segment} (h : overlapsAny a segments = false) :
    ∀ b ∈ segments, a.Apart b := by
  induction segments with
  | nil => exact fun b hb => absurd hb List.not_mem_nil
  | cons b rest ih =>
      rw [overlapsAny] at h
      by_cases hmeet : a.paddr < b.stop ∧ b.paddr < a.stop
      · rw [if_pos hmeet] at h
        cases h
      · rw [if_neg hmeet] at h
        refine List.forall_mem_cons.mpr ⟨?_, ih h⟩
        unfold Segment.Apart
        omega

theorem overlaps_false {segments : List Segment} (h : overlaps segments = false) : segments.Pairwise Segment.Apart := by
  induction segments with
  | nil => exact .nil
  | cons a rest ih =>
      rw [overlaps] at h
      cases hany : overlapsAny a rest with
      | true =>
          rw [hany, if_pos rfl] at h
          cases h
      | false =>
          rw [hany, if_neg Bool.false_ne_true] at h
          exact .cons (overlapsAny_false hany) (ih h)

/-- A plan that can be executed: disjoint segments in the window above the base, and an entry that the file backs. -/
structure Plan.Sound (p : Plan) (length requiredBase : Nat) : Prop where
  base_eq : p.base = requiredBase
  base_aligned : p.base % 4096 = 0
  span_le : p.span ≤ maxKernelSpan
  segments : ∀ s ∈ p.segments, s.Valid length ∧ p.base ≤ s.paddr ∧ s.stop ≤ p.base + p.span
  disjoint : p.segments.Pairwise Segment.Apart
  entry : ∃ s ∈ p.segments, s.flags &&& pfX ≠ 0 ∧ s.Backs p.entry

theorem acceptScan_spec {entry requiredBase : Nat} {scan : Scan} (hvalid : scan.Valid length) :
    (acceptScan entry requiredBase scan).Ensures fun p =>
      p.Sound length requiredBase ∧ p.entry = entry ∧ p.segments = scan.segments := by
  rw [acceptScan]
  refine .guard fun hsome => .guard fun hbase => .guard fun haligned => .guard fun hoverlaps => .guard fun hentry => ?_
  obtain ⟨t, ht⟩ := List.exists_mem_of_length_pos (Nat.pos_of_ne_zero hsome)
  have hle : scan.lowest ≤ scan.highest := by
    have hlowest := hvalid.lowest t ht
    have hhighest := hvalid.highest t ht
    have hstop := (hvalid.segments t ht).stop_eq
    omega
  have hbase := not_not.mp hbase
  rw [subU64_of_le hle, Outcome.ok_bind]
  cases mathAdd scan.lowest maxKernelSpan with
  | none => exact .error _
  | some windowEnd =>
      refine .guard fun hspan => .guard fun _ => .ok ⟨⟨hbase, ?_, Nat.le_of_not_lt hspan, ?_, ?_, ?_⟩, rfl, rfl⟩
      · exact (congrArg (· % 4096) hbase).trans (not_not.mp haligned)
      · intro s hs
        refine ⟨hvalid.segments s hs, hvalid.lowest s hs, ?_⟩
        show s.stop ≤ scan.lowest + (scan.highest - scan.lowest)
        rw [Nat.add_sub_cancel' hle]
        exact hvalid.highest s hs
      · exact overlaps_false (Bool.eq_false_iff.mpr hoverlaps)
      · obtain ⟨s, hs, hin⟩ := List.any_eq_true.mp (not_not.mp hentry)
        obtain ⟨hexec, hlo, hhi⟩ := of_decide_eq_true hin
        have hs' := hvalid.segments s hs
        have hfits : s.paddr + s.filesz < u64Bound := by
          have hstop := hs'.stop_eq
          have hlt := hs'.stop_lt
          have hfilesz := hs'.filesz_le
          omega
        rw [mathAdd, if_pos hfits] at hhi
        exact ⟨s, hs, hexec, hlo, hhi⟩

/-- The entry and the segments are those of the file: the nonempty loads of its table, in order. -/
def Plan.IsOf (p : Plan) (bytes : List UInt8) : Prop :=
  let eh := Ehdr.ofBytes (bytes.take ehdrSize)
  p.entry = eh.entry ∧ p.segments = loads (phdrsFrom bytes eh.phoff eh.phentsize 0 eh.phnum)

theorem plan_spec (bytes : List UInt8) (requiredBase : Nat) :
    (plan bytes requiredBase).Ensures fun p => p.Sound bytes.length requiredBase ∧ p.IsOf bytes := by
  rw [plan]
  refine .guard fun hlength => ?_
  have hsize : ehdrSize < u64Bound := by decide
  have hread : readInt ehdrSize bytes 0 = .ok (bytes.take ehdrSize) := by
    rw [readInt_of_le (by omega) (by omega), List.drop_zero]
  rw [hread]
  show (planEhdr bytes (Ehdr.ofBytes (bytes.take ehdrSize)) requiredBase).Ensures _
  generalize heh : Ehdr.ofBytes (bytes.take ehdrSize) = eh
  rw [planEhdr]
  iterate 7 refine .guard fun _ => ?_
  refine .guard fun hphentsize => .guard fun _ => .guard fun hphnum => ?_
  cases hmul : mathMul eh.phentsize eh.phnum with
  | none => exact .error _
  | some tableBytes =>
      obtain ⟨-, rfl⟩ := mathMul_eq_some.mp hmul
      simp only
      cases hadd : mathAdd eh.phoff (eh.phentsize * eh.phnum) with
      | none => exact .error _
      | some phEnd =>
          obtain ⟨hbound, rfl⟩ := mathAdd_eq_some.mp hadd
          refine .guard fun htable => ?_
          have hempty : ({} : Scan).Valid bytes.length := ⟨by nofun, by nofun, by nofun⟩
          have hsame : eh.phoff + (0 + eh.phnum) * eh.phentsize = eh.phoff + eh.phentsize * eh.phnum := by
            rw [Nat.zero_add, Nat.mul_comm]
          have hphdrs := planPhdrs_spec (Nat.le_of_not_lt hphentsize) (hsame ▸ Nat.le_of_not_lt htable) (hsame ▸ hbound)
            hempty (Nat.zero_le 0) (by omega)
          refine hphdrs.bind fun scan ⟨hvalid, hsegments⟩ => (acceptScan_spec hvalid).mono ?_
          rintro p ⟨hsound, hentry, hp⟩
          rw [List.nil_append] at hsegments
          rw [Plan.IsOf, heh]
          exact ⟨hsound, hentry, hp.trans hsegments⟩

/-! ### Execution -/

/-- What one turn of the loop writes. -/
theorem executeSegment_run {p : Plan} {s : Segment} (hs : s.Valid bytes.length) (hbase : p.base ≤ s.paddr)
    (hstop : s.stop ≤ p.base + dest.length) :
    ∃ out, executeSegment p bytes s dest = .ok out ∧ out.length = dest.length ∧ ∀ a, p.base ≤ a →
      out[a - p.base]? = if s.Backs a then bytes[s.fileOff + (a - s.paddr)]?
        else if s.Contains a then some 0 else dest[a - p.base]? := by
  have hend := hs.stop_eq
  have hfilesz := hs.filesz_le
  have hlt := hs.stop_lt
  have hfile := hs.file_le
  have hlength : ((bytes.drop s.fileOff).take (s.fileOff + s.filesz - s.fileOff)).length = s.filesz := by
    rw [length_slice (Nat.le_add_right _ _) hfile, Nat.add_sub_cancel_left]
  have hzeros : (List.replicate (s.paddr - p.base + s.memsz - (s.paddr - p.base + s.filesz)) (0 : UInt8)).length =
      s.memsz - s.filesz := by
    rw [List.length_replicate]
    omega
  generalize hcopied : overwrite dest (s.paddr - p.base) ((bytes.drop s.fileOff).take (s.fileOff + s.filesz - s.fileOff)) =
    copied
  have hlengthCopied : copied.length = dest.length := by
    rw [← hcopied]
    exact length_overwrite (by rw [hlength]; omega)
  refine ⟨overwrite copied (s.paddr - p.base + s.filesz)
    (List.replicate (s.paddr - p.base + s.memsz - (s.paddr - p.base + s.filesz)) 0), ?_, ?_, fun a ha => ?_⟩
  · rw [executeSegment, subU64_of_le hbase, Outcome.ok_bind, addU64_of_lt hs.file_lt, Outcome.ok_bind,
      slice_of_le (Nat.le_add_right _ _) hfile, Outcome.ok_bind, addU64_of_lt (by omega), Outcome.ok_bind,
      memcpy_of_le (Nat.le_add_right _ _) (by omega) (by rw [hlength]; omega), Outcome.ok_bind, Outcome.ok_bind,
      addU64_of_lt (by omega), Outcome.ok_bind, hcopied, memset_of_le (by omega) (by omega)]
  · rw [length_overwrite (by rw [hzeros]; omega), hlengthCopied]
  · rw [getElem?_overwrite (by rw [hzeros]; omega), hzeros, ← hcopied, getElem?_overwrite (by rw [hlength]; omega), hlength]
    by_cases hbacks : s.Backs a
    · obtain ⟨hlo, hhi⟩ := hbacks
      rw [if_neg (by omega), if_pos (by omega), if_pos ⟨hlo, hhi⟩, getElem?_slice (by omega)]
      congr 1
      omega
    · have hmiss : ¬(s.paddr ≤ a ∧ a < s.paddr + s.filesz) := hbacks
      rw [if_neg hbacks]
      by_cases hcontains : s.Contains a
      · obtain ⟨hlo, hhi⟩ := hcontains
        rw [if_pos (by omega), if_pos ⟨hlo, hhi⟩, List.getElem?_replicate_of_lt (by omega)]
      · have hout : ¬(s.paddr ≤ a ∧ a < s.stop) := hcontains
        rw [if_neg (by omega), if_neg (by omega), if_neg hcontains]

/-- Where no segment lies, the loop leaves what was there; the part of a segment shows its file bytes and zeros. -/
theorem executeSegments_run {p : Plan} {segments : List Segment}
    (hsegments : ∀ s ∈ segments, s.Valid bytes.length ∧ p.base ≤ s.paddr ∧ s.stop ≤ p.base + dest.length)
    (hdisjoint : segments.Pairwise Segment.Apart) :
    ∃ out, executeSegments p bytes segments dest = .ok out ∧ out.length = dest.length ∧ ∀ a, p.base ≤ a →
      (∀ s ∈ segments, s.Backs a → out[a - p.base]? = bytes[s.fileOff + (a - s.paddr)]?) ∧
      (∀ s ∈ segments, s.Contains a → ¬s.Backs a → out[a - p.base]? = some 0) ∧
      ((∀ s ∈ segments, ¬s.Contains a) → out[a - p.base]? = dest[a - p.base]?) := by
  induction segments generalizing dest with
  | nil => exact ⟨dest, rfl, rfl, fun a _ => ⟨by nofun, by nofun, fun _ => rfl⟩⟩
  | cons s rest ih =>
      obtain ⟨⟨hs, hbase, hstop⟩, hrest⟩ := List.forall_mem_cons.mp hsegments
      obtain ⟨hapart, hpairs⟩ := List.pairwise_cons.mp hdisjoint
      obtain ⟨dest₁, hrun₁, hlength₁, hbyte₁⟩ := executeSegment_run hs hbase hstop
      obtain ⟨out, hrun, hlength, hbyte⟩ := ih (hlength₁ ▸ hrest) hpairs
      refine ⟨out, ?_, hlength.trans hlength₁, fun a ha => ?_⟩
      · rw [executeSegments, hrun₁, Outcome.ok_bind, hrun]
      obtain ⟨hfile, hzero, hother⟩ := hbyte a ha
      -- the segments behind this one leave its part alone
      have hkeep (hin : s.Contains a) : out[a - p.base]? = dest₁[a - p.base]? :=
        hother fun t ht => (hapart t ht).not_contains hin
      have hstopEq := hs.stop_eq
      have hfilesz := hs.filesz_le
      refine ⟨List.forall_mem_cons.mpr ⟨fun hbacks => ?_, hfile⟩, List.forall_mem_cons.mpr ⟨fun hin hbacks => ?_, hzero⟩,
        fun hnone => ?_⟩
      · obtain ⟨hlo, hhi⟩ := hbacks
        rw [hkeep ⟨hlo, by omega⟩, hbyte₁ a ha, if_pos ⟨hlo, hhi⟩]
      · rw [hkeep hin, hbyte₁ a ha, if_neg hbacks, if_pos hin]
      · obtain ⟨hnot, hnone⟩ := List.forall_mem_cons.mp hnone
        have hbacks : ¬s.Backs a := fun ⟨hlo, hhi⟩ => hnot ⟨hlo, by omega⟩
        rw [hother hnone, hbyte₁ a ha, if_neg hbacks, if_neg hnot]

/-- The loader is safe and exact: the plan of any file is sound or an error, and its execution on any buffer of
its span leaves the file bytes, the zeros of the tails, and nothing else. -/
theorem loader_exact (bytes : List UInt8) (requiredBase : Nat) :
    (plan bytes requiredBase).Ensures fun p =>
      p.Sound bytes.length requiredBase ∧ p.IsOf bytes ∧
        ∀ dest : List UInt8, dest.length = p.span →
          ∃ out, execute p bytes dest = .ok out ∧ out.length = dest.length ∧ ∀ a, p.base ≤ a →
            (∀ s ∈ p.segments, s.Backs a → out[a - p.base]? = bytes[s.fileOff + (a - s.paddr)]?) ∧
            (∀ s ∈ p.segments, s.Contains a → ¬s.Backs a → out[a - p.base]? = some 0) ∧
            ((∀ s ∈ p.segments, ¬s.Contains a) → out[a - p.base]? = dest[a - p.base]?) := by
  refine (plan_spec bytes requiredBase).mono fun p ⟨hsound, hof⟩ => ⟨hsound, hof, fun dest hdest => ?_⟩
  exact executeSegments_run (hdest ▸ hsound.segments) hsound.disjoint

/-- The first byte behind the file part of the sample is zero, whatever was there. -/
theorem loader_exact_sample :
    ∃ out, execute samplePlan sampleImage (List.replicate 140 0xaa) = .ok out ∧ out[124]? = some 0 := by
  have hplan : plan sampleImage 0x200000 = .ok samplePlan := by decide +kernel
  obtain ⟨-, -, hexecute⟩ := (loader_exact sampleImage 0x200000).2 samplePlan hplan
  obtain ⟨out, hrun, -, hbyte⟩ := hexecute (List.replicate 140 0xaa) List.length_replicate
  obtain ⟨-, hzero, -⟩ := hbyte (0x200000 + 124) (by decide)
  exact ⟨out, hrun, hzero _ List.mem_cons_self (by decide) (by decide)⟩

end Elf64

end Boot
