import ZigKernel.NativeUserElf

/-! What the planner establishes about the segments it accepts, and that no arithmetic on the way to a
plan overflows. -/

namespace Native

open Zig

namespace UserElf

variable {bytes : List UInt8}

/-- A segment of an accepted image of `length` bytes. -/
structure Segment.Valid (length : Nat) (s : Segment) : Prop where
  fileRange : s.fileOff + s.filesz ≤ length
  nonempty : s.memsz ≠ 0
  filesz : s.filesz ≤ s.memsz
  readable : s.flags &&& pfR ≠ 0
  writeExecute : ¬(s.flags &&& pfW ≠ 0 ∧ s.flags &&& pfX ≠ 0)
  byteEnd : s.byteEnd = s.vaddr + s.memsz
  mapStart : s.mapStart = s.vaddr / page * page
  mapEnd : s.mapEnd = (s.byteEnd + (page - 1)) / page * page
  low : imageLo ≤ s.mapStart
  high : s.mapEnd ≤ imageHi

namespace Segment.Valid

variable {length : Nat} {s : Segment}

theorem mapStart_le (h : s.Valid length) : s.mapStart ≤ s.vaddr := by
  rw [h.mapStart]
  exact Nat.div_mul_le_self _ _

theorem byteEnd_le (h : s.Valid length) : s.byteEnd ≤ s.mapEnd := by
  have hpage : page = 4096 := rfl
  rw [h.mapEnd, hpage]
  omega

theorem vaddr_lt (h : s.Valid length) : s.vaddr < s.mapEnd := by
  have := h.byteEnd_le
  have := h.byteEnd
  have := h.nonempty
  omega

theorem start_aligned (h : s.Valid length) : s.mapStart % page = 0 := by
  rw [h.mapStart]
  exact Nat.mul_mod_left _ _

theorem end_aligned (h : s.Valid length) : s.mapEnd % page = 0 := by
  rw [h.mapEnd]
  exact Nat.mul_mod_left _ _

end Segment.Valid

/-! ### Reading the headers -/

theorem checkFileRange_ok {offset filesz : Nat} (h : checkFileRange bytes offset filesz = .ok ()) :
    offset + filesz ≤ bytes.length := by
  unfold checkFileRange at h
  cases hsum : mathAdd offset filesz with
  | none => simp only [hsum, reduceCtorEq] at h
  | some stop =>
      obtain ⟨-, rfl⟩ := mathAdd_eq_some.mp hsum
      simp only [hsum] at h
      exact Nat.le_of_not_lt (Outcome.ite_error_eq_ok h).1

theorem checkFileRange_ne_trap {offset filesz : Nat} : checkFileRange bytes offset filesz ≠ .trap := by
  unfold checkFileRange
  cases mathAdd offset filesz with
  | none => nofun
  | some stop => exact Outcome.ite_error_ne_trap fun _ => by nofun

theorem readInt_ne_trap {n off : Nat} : readInt n bytes off ≠ .trap := by
  unfold readInt
  cases mathAdd off n with
  | none => nofun
  | some stop => exact Outcome.ite_error_ne_trap fun _ => by nofun

theorem field_ne_trap {α : Type} {phOff n k : Nat} {f : Nat → Outcome Error α} (h : phOff + k < u64Bound)
    (hf : ∀ v, f v ≠ .trap) : (addU64 phOff k >>= fun off => readInt n bytes off >>= f) ≠ .trap :=
  Outcome.bind_ne_trap (addU64_ne_trap h) fun _ _ => Outcome.bind_ne_trap readInt_ne_trap fun v _ => hf v

/-- The offsets of the fields stay within the table. -/
theorem readPhdr_ne_trap {phOff : Nat} (h : phOff + phdrSize < u64Bound) : readPhdr bytes phOff ≠ .trap := by
  have hsize : phdrSize = 56 := rfl
  rw [hsize] at h
  unfold readPhdr
  iterate 8 refine field_ne_trap (by omega) fun _ => ?_
  nofun

theorem readEhdr_ne_trap : readEhdr bytes ≠ .trap := by
  unfold readEhdr
  iterate 9 refine Outcome.bind_ne_trap readInt_ne_trap fun _ _ => ?_
  nofun

/-! ### Load segments -/

theorem alignUpPage_ok {a b : Nat} (h : alignUpPage a = .ok b) : b = (a + (page - 1)) / page * page := by
  unfold alignUpPage at h
  cases hsum : mathAdd a (page - 1) with
  | none => simp only [hsum, reduceCtorEq] at h
  | some sum =>
      obtain ⟨hbound, rfl⟩ := mathAdd_eq_some.mp hsum
      simp only [hsum] at h
      have hmask : (a + (page - 1)) &&& notU64 (2 ^ 12 - 1) = (a + (page - 1)) / 2 ^ 12 * 2 ^ 12 :=
        and_notU64 hbound (by decide)
      cases h
      exact hmask

theorem alignUpPage_ne_trap {a : Nat} : alignUpPage a ≠ .trap := by
  unfold alignUpPage
  cases mathAdd a (page - 1) <;> nofun

/-- `appendLoad` refuses a header, or adds a valid segment. -/
theorem appendLoad_ok {result result' : Plan} {ph : LoadFields} (h : appendLoad result bytes ph = .ok result') :
    ∃ s, s.Valid bytes.length ∧ result'.segments = result.segments ++ [s] ∧ result.segments.length < maxLoads := by
  unfold appendLoad at h
  obtain ⟨hmemsz, h⟩ := Outcome.ite_error_eq_ok h
  obtain ⟨hfilesz, h⟩ := Outcome.ite_error_eq_ok h
  obtain ⟨_, hrange, h⟩ := Outcome.bind_eq_ok h
  cases hend : mathAdd ph.vaddr ph.memsz with
  | none => simp only [hend, reduceCtorEq] at h
  | some byteEnd =>
      obtain ⟨hbound, rfl⟩ := mathAdd_eq_some.mp hend
      simp only [hend] at h
      obtain ⟨-, h⟩ := Outcome.ite_error_eq_ok h
      obtain ⟨hreadable, h⟩ := Outcome.ite_error_eq_ok h
      obtain ⟨hwx, h⟩ := Outcome.ite_error_eq_ok h
      iterate 2 replace h := (Outcome.ite_error_eq_ok h).2
      unfold placeLoad at h
      obtain ⟨mapEnd, halign, h⟩ := Outcome.bind_eq_ok h
      obtain ⟨himage, h⟩ := Outcome.ite_error_eq_ok h
      obtain ⟨hloads, h⟩ := Outcome.ite_error_eq_ok h
      have hstart : ph.vaddr &&& notU64 (2 ^ 12 - 1) = ph.vaddr / 2 ^ 12 * 2 ^ 12 :=
        and_notU64 (Nat.lt_of_le_of_lt (Nat.le_add_right _ _) hbound) (by decide)
      cases h
      refine ⟨_, ?_, rfl, Nat.lt_of_not_ge hloads⟩
      exact
        { fileRange := checkFileRange_ok hrange
          nonempty := hmemsz
          filesz := Nat.le_of_not_lt hfilesz
          readable := hreadable
          writeExecute := hwx
          byteEnd := rfl
          mapStart := hstart
          mapEnd := alignUpPage_ok halign
          low := Nat.le_of_not_lt fun hlt => himage (Or.inr (Or.inr (Or.inl hlt)))
          high := Nat.le_of_not_lt fun hlt => himage (Or.inr (Or.inr (Or.inr hlt))) }

theorem appendLoad_ne_trap {result : Plan} {ph : LoadFields} : appendLoad result bytes ph ≠ .trap := by
  unfold appendLoad
  refine Outcome.ite_error_ne_trap fun _ => Outcome.ite_error_ne_trap fun _ => ?_
  refine Outcome.bind_ne_trap checkFileRange_ne_trap fun _ _ => ?_
  cases mathAdd ph.vaddr ph.memsz with
  | none => nofun
  | some byteEnd =>
      simp only
      iterate 5 refine Outcome.ite_error_ne_trap fun _ => ?_
      refine Outcome.bind_ne_trap alignUpPage_ne_trap fun _ _ => ?_
      exact Outcome.ite_error_ne_trap fun _ => Outcome.ite_error_ne_trap fun _ => by nofun

/-- The segments so far. -/
structure Plan.Valid (length : Nat) (p : Plan) : Prop where
  segments : ∀ s ∈ p.segments, s.Valid length
  loads : p.segments.length ≤ maxLoads

theorem takePhdr_ok {ph : Phdr} {result result' : Plan} {seen seen' : Bool} (hvalid : result.Valid bytes.length)
    (h : takePhdr bytes ph result seen = .ok (result', seen')) : result'.Valid bytes.length := by
  unfold takePhdr at h
  split_ifs at h
  · obtain ⟨_, -, h⟩ := Outcome.bind_eq_ok h
    cases h
    exact hvalid
  · obtain ⟨_, -, h⟩ := Outcome.bind_eq_ok h
    cases h
    exact hvalid
  · obtain ⟨result'', happend, h⟩ := Outcome.bind_eq_ok h
    cases h
    obtain ⟨s, hs, hsegments, hloads⟩ := appendLoad_ok happend
    constructor
    · intro s' hs'
      rw [hsegments] at hs'
      rcases List.mem_append.mp hs' with hs' | hs'
      · exact hvalid.segments s' hs'
      · rw [List.mem_singleton.mp hs']
        exact hs
    · rw [hsegments, List.length_append]
      exact hloads

theorem takePhdr_ne_trap {ph : Phdr} {result : Plan} {seen : Bool} : takePhdr bytes ph result seen ≠ .trap := by
  unfold takePhdr
  split_ifs
  · exact Outcome.bind_ne_trap checkFileRange_ne_trap fun _ _ => by nofun
  · nofun
  · nofun
  · exact Outcome.bind_ne_trap checkFileRange_ne_trap fun _ _ => by nofun
  · exact Outcome.bind_ne_trap appendLoad_ne_trap fun _ _ => by nofun
  · nofun

theorem planPhdrs_ok {phoff left i : Nat} {result result' : Plan} {seen : Bool}
    (hvalid : result.Valid bytes.length) (h : planPhdrs bytes phoff left i result seen = .ok result') :
    result'.Valid bytes.length := by
  induction left generalizing i result seen with
  | zero =>
      cases h
      exact hvalid
  | succ left ih =>
      rw [planPhdrs] at h
      obtain ⟨_, -, h⟩ := Outcome.bind_eq_ok h
      obtain ⟨_, -, h⟩ := Outcome.bind_eq_ok h
      obtain ⟨_, -, h⟩ := Outcome.bind_eq_ok h
      obtain ⟨⟨next, seen'⟩, htake, h⟩ := Outcome.bind_eq_ok h
      exact ih (takePhdr_ok hvalid htake) h

theorem planPhdrs_ne_trap {phoff left i : Nat} {result : Plan} {seen : Bool}
    (htable : phoff + (i + left) * phdrSize < u64Bound) : planPhdrs bytes phoff left i result seen ≠ .trap := by
  induction left generalizing i result seen with
  | zero => nofun
  | succ left ih =>
      have hsize : phdrSize = 56 := rfl
      rw [hsize] at htable
      have hmul : (mulU64 i phdrSize : Outcome Error Nat) = .ok (i * phdrSize) := by
        rw [mulU64, hsize, if_pos (by omega)]
      rw [planPhdrs, hmul, Outcome.ok_bind]
      refine Outcome.bind_ne_trap (addU64_ne_trap (by rw [hsize]; omega)) fun phOff hoff => ?_
      obtain ⟨-, rfl⟩ := addU64_eq_ok.mp hoff
      refine Outcome.bind_ne_trap (readPhdr_ne_trap (by rw [hsize]; omega)) fun ph _ => ?_
      refine Outcome.bind_ne_trap takePhdr_ne_trap fun next _ => ih ?_
      rw [hsize]
      omega

/-! ### The checks of the whole plan -/

/-- The pages a segment maps. -/
def Segment.pages (s : Segment) : Nat := (s.mapEnd - s.mapStart) / page

/-- What the budget loop computes: the least start, the greatest end and the sum of the pages. -/
structure Budget (segs : List Segment) (lowest highest pages lowest' highest' pages' : Nat) : Prop where
  low : lowest' ≤ lowest ∧ ∀ s ∈ segs, lowest' ≤ s.mapStart
  high : highest ≤ highest' ∧ ∀ s ∈ segs, s.mapEnd ≤ highest'
  lowest : lowest' = lowest ∨ ∃ s ∈ segs, lowest' = s.mapStart
  highest : highest' = highest ∨ ∃ s ∈ segs, highest' = s.mapEnd
  pages : pages' = pages + (segs.map Segment.pages).sum

/-- The sum of the pages stays small. -/
theorem imageBudget_run (lowest highest : Nat) {segs : List Segment} {pages length : Nat}
    (hvalid : ∀ s ∈ segs, s.Valid length) (hpages : pages + segs.length * imageHi < u64Bound) :
    ∃ lowest' highest' pages', imageBudget segs lowest highest pages = .ok (lowest', highest', pages') ∧
      Budget segs lowest highest pages lowest' highest' pages' := by
  induction segs generalizing lowest highest pages with
  | nil =>
      refine ⟨lowest, highest, pages, rfl, ?_⟩
      exact
        { low := ⟨Nat.le_refl _, fun s hs => absurd hs List.not_mem_nil⟩
          high := ⟨Nat.le_refl _, fun s hs => absurd hs List.not_mem_nil⟩
          lowest := Or.inl rfl
          highest := Or.inl rfl
          pages := rfl }
  | cons s rest ih =>
      have hs := hvalid s List.mem_cons_self
      have hspan : s.mapStart ≤ s.mapEnd := Nat.le_trans hs.mapStart_le (Nat.le_of_lt hs.vaddr_lt)
      have hbudget : (s.mapEnd - s.mapStart) / page ≤ imageHi :=
        Nat.le_trans (Nat.div_le_self _ _) (Nat.le_trans (Nat.sub_le _ _) hs.high)
      rw [List.length_cons, Nat.succ_mul] at hpages
      have hsum : pages + (s.mapEnd - s.mapStart) / page < u64Bound := by omega
      rw [imageBudget, subU64, if_pos hspan, Outcome.ok_bind, addU64_of_lt hsum, Outcome.ok_bind]
      obtain ⟨lowest', highest', pages', hrun, hrest⟩ :=
        ih (min lowest s.mapStart) (max highest s.mapEnd) (fun s' hs' => hvalid s' (List.mem_cons_of_mem _ hs'))
          (by omega : pages + (s.mapEnd - s.mapStart) / page + rest.length * imageHi < u64Bound)
      have hlow := hrest.low.1
      have hhigh := hrest.high.1
      refine ⟨lowest', highest', pages', hrun, ?_⟩
      constructor
      · refine ⟨by omega, List.forall_mem_cons.mpr ⟨by omega, hrest.low.2⟩⟩
      · refine ⟨by omega, List.forall_mem_cons.mpr ⟨by omega, hrest.high.2⟩⟩
      · rcases hrest.lowest with heq | ⟨t, ht, heq⟩
        · rcases Nat.le_total lowest s.mapStart with hle | hle
          · exact Or.inl (heq.trans (Nat.min_eq_left hle))
          · exact Or.inr ⟨s, List.mem_cons_self, heq.trans (Nat.min_eq_right hle)⟩
        · exact Or.inr ⟨t, List.mem_cons_of_mem _ ht, heq⟩
      · rcases hrest.highest with heq | ⟨t, ht, heq⟩
        · rcases Nat.le_total s.mapEnd highest with hle | hle
          · exact Or.inl (heq.trans (Nat.max_eq_left hle))
          · exact Or.inr ⟨s, List.mem_cons_self, heq.trans (Nat.max_eq_right hle)⟩
        · exact Or.inr ⟨t, List.mem_cons_of_mem _ ht, heq⟩
      · rw [hrest.pages, List.map_cons, List.sum_cons, ← Nat.add_assoc]
        rfl

/-- The budget of a nonempty plan: eight segments below the image end cannot overflow the sum. -/
theorem budget_of_valid {p : Plan} {length : Nat} (hvalid : p.Valid length) (hsome : p.segments.length ≠ 0) :
    ∃ lowest highest pages, imageBudget p.segments maxU64 0 0 = .ok (lowest, highest, pages) ∧
      Budget p.segments maxU64 0 0 lowest highest pages ∧ lowest ≤ highest := by
  have hpages : 0 + p.segments.length * imageHi < u64Bound := by
    have hhi : imageHi = 1610612736 := rfl
    have hmax : maxLoads = 8 := rfl
    have hbound : u64Bound = 18446744073709551616 := rfl
    have hloads := hvalid.loads
    rw [hhi, hbound]
    omega
  obtain ⟨lowest, highest, pages, hrun, hbudget⟩ := imageBudget_run maxU64 0 hvalid.segments hpages
  obtain ⟨s, hs⟩ := List.exists_mem_of_length_pos (Nat.pos_of_ne_zero hsome)
  have hs' := hvalid.segments s hs
  have := hbudget.low.2 s hs
  have := hbudget.high.2 s hs
  have := hs'.mapStart_le
  have := hs'.vaddr_lt
  exact ⟨lowest, highest, pages, hrun, hbudget, by omega⟩

theorem rejectImageBudget_ne_trap {p : Plan} {length : Nat} (hvalid : p.Valid length) (hsome : p.segments.length ≠ 0) :
    rejectImageBudget p.segments ≠ .trap := by
  obtain ⟨lowest, highest, pages, hrun, -, hle⟩ := budget_of_valid hvalid hsome
  rw [rejectImageBudget, hrun, Outcome.ok_bind]
  simp only
  rw [subU64, if_pos hle, Outcome.ok_bind]
  exact Outcome.ite_error_ne_trap fun _ => Outcome.ite_error_ne_trap fun _ => by nofun

theorem rejectPageOverlap_ne_trap {segs : List Segment} : rejectPageOverlap segs ≠ .trap := by
  induction segs with
  | nil => nofun
  | cons a rest ih => exact Outcome.ite_error_ne_trap fun _ => ih

theorem requireExecutableFileEntry_ne_trap {entry length : Nat} {segs : List Segment}
    (hvalid : ∀ s ∈ segs, s.Valid length) : requireExecutableFileEntry entry segs ≠ .trap := by
  induction segs with
  | nil => nofun
  | cons s rest ih =>
      have hrest := ih fun s' hs' => hvalid s' (List.mem_cons_of_mem _ hs')
      have hs := hvalid s List.mem_cons_self
      have hend : s.vaddr + s.filesz < u64Bound := by
        have hhi : imageHi < u64Bound := by decide
        have := hs.filesz
        have := hs.byteEnd
        have := hs.byteEnd_le
        have := hs.high
        omega
      rw [requireExecutableFileEntry]
      split_ifs
      · exact hrest
      · rw [addU64_of_lt hend, Outcome.ok_bind]
        split_ifs
        · nofun
        · exact hrest

theorem plan_valid {p : Plan} (h : plan bytes = .ok p) : p.Valid bytes.length := by
  unfold plan at h
  iterate 8 replace h := (Outcome.ite_error_eq_ok h).2
  obtain ⟨e, -, h⟩ := Outcome.bind_eq_ok h
  unfold planEhdr at h
  iterate 8 replace h := (Outcome.ite_error_eq_ok h).2
  cases hmul : mathMul e.phentsize e.phnum with
  | none => simp only [hmul, reduceCtorEq] at h
  | some tableBytes =>
      simp only [hmul] at h
      cases hadd : mathAdd e.phoff tableBytes with
      | none => simp only [hadd, reduceCtorEq] at h
      | some tableEnd =>
          simp only [hadd] at h
          replace h := (Outcome.ite_error_eq_ok h).2
          obtain ⟨result, hphdrs, h⟩ := Outcome.bind_eq_ok h
          have hvalid := planPhdrs_ok ⟨fun s hs => absurd hs List.not_mem_nil, Nat.zero_le _⟩ hphdrs
          unfold acceptPlan at h
          replace h := (Outcome.ite_error_eq_ok h).2
          obtain ⟨_, -, h⟩ := Outcome.bind_eq_ok h
          obtain ⟨_, -, h⟩ := Outcome.bind_eq_ok h
          obtain ⟨_, -, h⟩ := Outcome.bind_eq_ok h
          cases h
          exact hvalid

/-- The planner is total: no input makes its arithmetic overflow. -/
theorem plan_ne_trap : plan bytes ≠ .trap := by
  unfold plan
  refine Outcome.ite_error_ne_trap fun hinput => ?_
  iterate 7 refine Outcome.ite_error_ne_trap fun _ => ?_
  refine Outcome.bind_ne_trap readEhdr_ne_trap fun e _ => ?_
  unfold planEhdr
  iterate 5 refine Outcome.ite_error_ne_trap fun _ => ?_
  refine Outcome.ite_error_ne_trap fun hphentsize => ?_
  iterate 2 refine Outcome.ite_error_ne_trap fun _ => ?_
  cases hmul : mathMul e.phentsize e.phnum with
  | none => nofun
  | some tableBytes =>
      simp only
      cases hadd : mathAdd e.phoff tableBytes with
      | none => nofun
      | some tableEnd =>
          simp only
          refine Outcome.ite_error_ne_trap fun _ => ?_
          obtain ⟨-, rfl⟩ := mathMul_eq_some.mp hmul
          obtain ⟨hbound, -⟩ := mathAdd_eq_some.mp hadd
          have htable : e.phoff + (0 + e.phnum) * phdrSize < u64Bound := by
            rw [Nat.zero_add, Nat.mul_comm, ← not_not.mp hphentsize]
            exact hbound
          refine Outcome.bind_ne_trap (planPhdrs_ne_trap htable) fun result hphdrs => ?_
          have hvalid := planPhdrs_ok ⟨fun s hs => absurd hs List.not_mem_nil, Nat.zero_le _⟩ hphdrs
          refine Outcome.ite_error_ne_trap fun hsome => ?_
          refine Outcome.bind_ne_trap rejectPageOverlap_ne_trap fun _ _ => ?_
          refine Outcome.bind_ne_trap (rejectImageBudget_ne_trap hvalid hsome) fun _ _ => ?_
          exact Outcome.bind_ne_trap (requireExecutableFileEntry_ne_trap hvalid.segments) fun _ _ => by nofun

end UserElf

end Native
