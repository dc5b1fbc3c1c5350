import ZigKernel.NativeUserElfAccept
import ZigKernel.NativeUserVmSupply
import Mathlib.Data.Finset.Max
import Mathlib.Data.Finset.Union
import Mathlib.Order.Interval.Finset.Nat

/-! The budgets of a construction. What has been built so far is a set of pages and the set of the page tables
that serve them; the counters of the space and its journal hold the sizes of these sets, so no budget runs out
before everything that is aimed at is built. -/

namespace Native

namespace UserVm

/-! ### Pages and page tables -/

namespace PtKind

/-- The counter of the page tables of a kind. -/
def pts : PtKind → AddressSpace → Nat
  | .image, s => s.imagePts
  | .stack, s => s.stackPts

def maxPts : PtKind → Nat
  | .image => maxImagePts
  | .stack => maxStackPts

def countPt : PtKind → AddressSpace → AddressSpace
  | .image, s => { s with tablePages := s.tablePages + 1, imagePts := s.imagePts + 1 }
  | .stack, s => { s with tablePages := s.tablePages + 1, stackPts := s.stackPts + 1 }

@[simp] theorem pages_journal (kind : PtKind) (s : AddressSpace) (j : Journal) :
    kind.pages { s with journal := j } = kind.pages s := by
  cases kind <;> rfl

@[simp] theorem pts_journal (kind : PtKind) (s : AddressSpace) (j : Journal) :
    kind.pts { s with journal := j } = kind.pts s := by
  cases kind <;> rfl

end PtKind

/-- A page by its number, or a page table by the number of the 2 MiB region that it serves. -/
abbrev Slot : Type := PtKind × Nat

/-- The page table that serves a page. -/
def tableOf (x : Slot) : Slot := (x.1, x.2 / 512)

/-- The frames for the pages in `A`: the three top tables, the page tables and the pages. -/
def framesFor (A : Finset Slot) : Nat := 3 + (A.image tableOf).card + A.card

/-- Pages that can be built together. -/
structure Feasible (A : Finset Slot) : Prop where
  gib : ∀ x ∈ A, x.2 / 2 ^ 18 = 1
  apart : ∀ x ∈ A, ∀ y ∈ A, x.2 / 512 = y.2 / 512 → x.1 = y.1
  pages : ∀ kind : PtKind, (A.filter fun x => x.1 = kind).card ≤ kind.maxPages
  pts : ∀ kind : PtKind, ((A.image tableOf).filter fun x => x.1 = kind).card ≤ kind.maxPts

variable {A V T : Finset Slot} {top : Nat} {s : AddressSpace} {handed : List Nat}

theorem card_eq_kinds (S : Finset Slot) :
    S.card = (S.filter fun x => x.1 = .image).card + (S.filter fun x => x.1 = .stack).card := by
  rw [← Finset.card_filter_add_card_filter_not (s := S) fun x => x.1 = PtKind.image]
  congr 2
  refine Finset.filter_congr fun x _ => ?_
  cases x.1 <;> decide

theorem Feasible.framesFor_le (h : Feasible A) : framesFor A ≤ maxOwnedFrames := by
  have hmax : maxOwnedFrames = 3 + (maxImagePts + maxStackPts) + (maxImagePages + maxStackPages) := rfl
  have himage := h.pages .image
  have hstack := h.pages .stack
  have himagePts := h.pts .image
  have hstackPts := h.pts .stack
  rw [framesFor, card_eq_kinds (A.image tableOf), card_eq_kinds A, hmax]
  exact Nat.add_le_add (Nat.add_le_add_left (Nat.add_le_add himagePts hstackPts) 3) (Nat.add_le_add himage hstack)

/-- The counters and the journal while `top` of the three top tables, the pages in `V` and the page tables in `T`
are there, out of what the pages in `A` need. -/
structure Accounts (A : Finset Slot) (top : Nat) (V T : Finset Slot) (handed : List Nat) (s : AddressSpace) : Prop where
  top_le : top ≤ 3
  aimed : V ⊆ A
  tables : T ⊆ A.image tableOf
  journal : handed = s.journal.live.reverse
  domain : ∀ f ∈ handed, f ≠ 0 ∧ f % page = 0 ∧ f < physTop
  slots : framesFor A ≤ s.journal.frames.length
  count : s.journal.count = top + T.card + V.card
  tablePages : s.tablePages = top + T.card
  pages : ∀ kind : PtKind, kind.pages s = (V.filter fun x => x.1 = kind).card
  pts : ∀ kind : PtKind, kind.pts s = (T.filter fun x => x.1 = kind).card

theorem card_lt_of_new {S S' : Finset Slot} {x : Slot} (hsub : S ⊆ S') (hx : x ∈ S') (hnew : x ∉ S) :
    S.card < S'.card := Finset.card_lt_card ⟨hsub, fun hback => hnew (hback hx)⟩

theorem card_kind_lt_of_new {S S' : Finset Slot} {x : Slot} (hsub : S ⊆ S') (hx : x ∈ S') (hnew : x ∉ S) :
    (S.filter fun y => y.1 = x.1).card < (S'.filter fun y => y.1 = x.1).card :=
  card_lt_of_new (Finset.filter_subset_filter _ hsub) (Finset.mem_filter.mpr ⟨hx, rfl⟩)
    fun hmem => hnew (Finset.mem_filter.mp hmem).1

theorem card_kind_insert {S : Finset Slot} {x : Slot} (hnew : x ∉ S) (kind : PtKind) :
    ((insert x S).filter fun y => y.1 = kind).card = (S.filter fun y => y.1 = kind).card + if x.1 = kind then 1 else 0 := by
  rw [Finset.filter_insert]
  by_cases hkind : x.1 = kind
  · rw [if_pos hkind, if_pos hkind, Finset.card_insert_of_notMem fun hmem => hnew (Finset.mem_filter.mp hmem).1]
  · rw [if_neg hkind, if_neg hkind]
    rfl

namespace Accounts

theorem live (h : Accounts A top V T handed s) : ∀ f ∈ s.journal.live, f ∈ handed := by
  intro f hf
  rw [h.journal]
  exact List.mem_reverse.mpr hf

theorem contains (h : Accounts A top V T handed s) {f : Nat} (hf : f ∈ handed) : s.journal.contains f = true := by
  rw [h.journal] at hf
  exact List.contains_iff_mem.mpr (List.mem_reverse.mp hf)

theorem length_handed (h : Accounts A top V T handed s) (hroom : s.journal.count < framesFor A) :
    handed.length = s.journal.count := by
  rw [h.journal, List.length_reverse, Journal.length_live (Nat.le_trans (Nat.le_of_lt hroom) h.slots)]

/-- Only the journal and the counters matter. -/
theorem congr (h : Accounts A top V T handed s) {s' : AddressSpace} (hjournal : s'.journal = s.journal)
    (htables : s'.tablePages = s.tablePages)
    (hcounts : ∀ kind : PtKind, kind.pages s' = kind.pages s ∧ kind.pts s' = kind.pts s) :
    Accounts A top V T handed s' := by
  refine ⟨h.top_le, h.aimed, h.tables, hjournal ▸ h.journal, h.domain, hjournal ▸ h.slots, hjournal ▸ h.count,
    htables.trans h.tablePages, fun kind => ?_, fun kind => ?_⟩
  · rw [(hcounts kind).1, h.pages]
  · rw [(hcounts kind).2, h.pts]

/-- There is a frame for each top table that is missing, -/
theorem room_top (h : Accounts A top V T handed s) (htop : top < 3) : s.journal.count < framesFor A := by
  have hpages := Finset.card_le_card h.aimed
  have htables := Finset.card_le_card h.tables
  rw [h.count, framesFor]
  omega

/-- for each page table -/
theorem room_pt (h : Accounts A top V T handed s) {t : Slot} (ht : t ∈ A.image tableOf) (hnew : t ∉ T) :
    s.journal.count < framesFor A := by
  have hpages := Finset.card_le_card h.aimed
  have htables := card_lt_of_new h.tables ht hnew
  have htop := h.top_le
  rw [h.count, framesFor]
  omega

/-- and for each page. -/
theorem room_page (h : Accounts A top V T handed s) {x : Slot} (hx : x ∈ A) (hnew : x ∉ V) :
    s.journal.count < framesFor A := by
  have hpages := card_lt_of_new h.aimed hx hnew
  have htables := Finset.card_le_card h.tables
  have htop := h.top_le
  rw [h.count, framesFor]
  omega

theorem pts_lt (h : Accounts A top V T handed s) (hA : Feasible A) {t : Slot} (ht : t ∈ A.image tableOf) (hnew : t ∉ T) :
    t.1.pts s < t.1.maxPts := by
  rw [h.pts]
  exact Nat.lt_of_lt_of_le (card_kind_lt_of_new h.tables ht hnew) (hA.pts t.1)

theorem pages_lt (h : Accounts A top V T handed s) (hA : Feasible A) {x : Slot} (hx : x ∈ A) (hnew : x ∉ V) :
    x.1.pages s < x.1.maxPages := by
  rw [h.pages]
  exact Nat.lt_of_lt_of_le (card_kind_lt_of_new h.aimed hx hnew) (hA.pages x.1)

/-- The journal takes one more frame. -/
theorem push (h : Accounts A top V T handed s) {f : Nat} (hdomain : f ≠ 0 ∧ f % page = 0 ∧ f < physTop)
    (hroom : s.journal.count < framesFor A) :
    f :: handed = (s.journal.push f).live.reverse ∧ (∀ g ∈ f :: handed, g ≠ 0 ∧ g % page = 0 ∧ g < physTop) ∧
      framesFor A ≤ (s.journal.push f).frames.length := by
  have hslots := h.slots
  refine ⟨?_, List.forall_mem_cons.mpr ⟨hdomain, h.domain⟩, ?_⟩
  · rw [Journal.live_push (by omega), List.reverse_append, List.reverse_singleton, List.singleton_append, h.journal]
  · rw [Journal.push, List.length_set]
    exact hslots

/-- One of the top tables. -/
theorem addTop (h : Accounts A top V T handed s) {f : Nat} {s' : AddressSpace} (htop : top < 3)
    (hdomain : f ≠ 0 ∧ f % page = 0 ∧ f < physTop) (hjournal : s'.journal = s.journal.push f)
    (htables : s'.tablePages = s.tablePages + 1)
    (hcounts : ∀ kind : PtKind, kind.pages s' = kind.pages s ∧ kind.pts s' = kind.pts s) :
    Accounts A (top + 1) V T (f :: handed) s' := by
  obtain ⟨hpushed, hdomain', hslots⟩ := h.push hdomain (h.room_top htop)
  refine ⟨htop, h.aimed, h.tables, ?_, hdomain', ?_, ?_, ?_, fun kind => ?_, fun kind => ?_⟩
  · rw [hjournal]
    exact hpushed
  · rw [hjournal]
    exact hslots
  · have hcount := h.count
    rw [hjournal, Journal.push]
    simp only
    omega
  · have hcount := h.tablePages
    omega
  · rw [(hcounts kind).1, h.pages]
  · rw [(hcounts kind).2, h.pts]

theorem addPt (h : Accounts A top V T handed s) {t : Slot} {f : Nat} (ht : t ∈ A.image tableOf) (hnew : t ∉ T)
    (hdomain : f ≠ 0 ∧ f % page = 0 ∧ f < physTop) :
    Accounts A top V (insert t T) (f :: handed) (t.1.countPt { s with journal := s.journal.push f }) := by
  obtain ⟨hjournal, hdomain', hslots⟩ := h.push hdomain (h.room_pt ht hnew)
  have hcard := Finset.card_insert_of_notMem hnew
  have hcount : s.journal.count + 1 = top + (insert t T).card + V.card := by
    rw [h.count, hcard]
    omega
  have htablePages : s.tablePages + 1 = top + (insert t T).card := by
    rw [h.tablePages, hcard]
    omega
  obtain ⟨kind, i⟩ := t
  refine ⟨h.top_le, h.aimed, Finset.insert_subset ht h.tables, ?_, hdomain', ?_, ?_, ?_, fun kind' => ?_, fun kind' => ?_⟩
  · cases kind <;> exact hjournal
  · cases kind <;> exact hslots
  · cases kind <;> exact hcount
  · cases kind <;> exact htablePages
  · rw [← h.pages]
    cases kind <;> cases kind' <;> rfl
  · rw [card_kind_insert hnew, ← h.pts]
    cases kind <;> cases kind' <;> rfl

theorem addPage (h : Accounts A top V T handed s) {x : Slot} {f : Nat} (hx : x ∈ A) (hnew : x ∉ V)
    (hdomain : f ≠ 0 ∧ f % page = 0 ∧ f < physTop) :
    Accounts A top (insert x V) T (f :: handed) (x.1.countPage { s with journal := s.journal.push f }) := by
  obtain ⟨hjournal, hdomain', hslots⟩ := h.push hdomain (h.room_page hx hnew)
  have hcount : s.journal.count + 1 = top + T.card + (insert x V).card := by
    rw [h.count, Finset.card_insert_of_notMem hnew]
    omega
  obtain ⟨kind, n⟩ := x
  refine ⟨h.top_le, Finset.insert_subset hx h.aimed, h.tables, ?_, hdomain', ?_, ?_, ?_, fun kind' => ?_, fun kind' => ?_⟩
  · cases kind <;> exact hjournal
  · cases kind <;> exact hslots
  · cases kind <;> exact hcount
  · cases kind <;> exact h.tablePages
  · rw [card_kind_insert hnew, ← h.pages]
    cases kind <;> cases kind' <;> rfl
  · rw [← h.pts]
    cases kind <;> cases kind' <;> rfl

end Accounts

/-! ### What a plan asks for -/

/-- The pages from `lo` up to `hi`. -/
def run (kind : PtKind) (lo hi : Nat) : Finset Slot := (Finset.Ico (lo / page) (hi / page)).image (Prod.mk kind)

theorem mem_run {kind : PtKind} {lo hi : Nat} {x : Slot} :
    x ∈ run kind lo hi ↔ x.1 = kind ∧ lo / page ≤ x.2 ∧ x.2 < hi / page := by
  rw [run, Finset.mem_image]
  constructor
  · rintro ⟨n, hn, rfl⟩
    exact ⟨rfl, Finset.mem_Ico.mp hn⟩
  · rintro ⟨rfl, hn⟩
    exact ⟨x.2, Finset.mem_Ico.mpr hn, rfl⟩

theorem card_run (kind : PtKind) (lo hi : Nat) : (run kind lo hi).card = hi / page - lo / page := by
  rw [run, Finset.card_image_of_injective _ fun _ _ h => (Prod.mk.inj h).2, Nat.card_Ico]

theorem run_empty {kind : PtKind} {lo hi : Nat} (h : hi ≤ lo) : run kind lo hi = ∅ := by
  rw [run, Finset.Ico_eq_empty_of_le (Nat.div_le_div_right h), Finset.image_empty]

/-- The first page of a run. -/
theorem run_succ {kind : PtKind} {lo hi : Nat} (hlo : lo % page = 0) (hhi : hi % page = 0) (h : lo < hi) :
    run kind lo hi = insert (kind, lo / page) (run kind (lo + page) hi) := by
  have hpage : page = 4096 := rfl
  rw [hpage] at hlo hhi
  ext ⟨kind', n⟩
  rw [Finset.mem_insert, mem_run, mem_run, Prod.mk.injEq, ← and_or_left, hpage]
  refine and_congr_right fun _ => ?_
  simp only
  omega

/-- The pages of the segments. -/
def imageSlots : List UserElf.Segment → Finset Slot
  | [] => ∅
  | s :: rest => run .image s.mapStart s.mapEnd ∪ imageSlots rest

theorem mem_imageSlots {segs : List UserElf.Segment} {x : Slot} :
    x ∈ imageSlots segs ↔ ∃ s ∈ segs, x ∈ run .image s.mapStart s.mapEnd := by
  induction segs with
  | nil => simp [imageSlots]
  | cons s rest ih => rw [imageSlots, Finset.mem_union, ih, List.exists_mem_cons_iff]

/-- The pages of the stack. -/
def stackSlots : Finset Slot := run .stack stackLo UserVm.stackTop

def planSlots (plan : UserElf.Plan) : Finset Slot := imageSlots plan.segments ∪ stackSlots

def huge : Nat := 2 * 1024 * 1024

/-- The 2 MiB regions that the segments touch. -/
def touchedRegions (segs : List UserElf.Segment) : Finset Nat :=
  segs.toFinset.biUnion fun s => Finset.Icc (s.mapStart / huge) ((s.mapEnd - 1) / huge)

/-- The frames that the address space of a plan takes. -/
def frameBudget (plan : UserElf.Plan) : Nat :=
  maxRootTables + (touchedRegions plan.segments).card + (plan.segments.map UserElf.Segment.pages).sum + maxStackPts +
    maxStackPages

section Plan

variable {length : Nat} {segs : List UserElf.Segment} (hvalid : ∀ s ∈ segs, s.Valid length)

include hvalid

theorem bounds_of_valid {s : UserElf.Segment} (hs : s ∈ segs) :
    s.mapStart % 4096 = 0 ∧ s.mapEnd % 4096 = 0 ∧ s.mapStart < s.mapEnd ∧ 0x40000000 ≤ s.mapStart ∧ s.mapEnd ≤ 0x60000000 := by
  have h := hvalid s hs
  exact ⟨h.start_aligned, h.end_aligned, Nat.lt_of_le_of_lt h.mapStart_le h.vaddr_lt, h.low, h.high⟩

/-- A region is touched if and only if a byte of it is mapped. -/
theorem mem_touchedRegions {r : Nat} :
    r ∈ touchedRegions segs ↔ ∃ s ∈ segs, ∃ va, s.mapStart ≤ va ∧ va < s.mapEnd ∧ va / huge = r := by
  have hhuge : huge = 2097152 := rfl
  simp only [touchedRegions, Finset.mem_biUnion, List.mem_toFinset, Finset.mem_Icc]
  refine exists_congr fun s => and_congr_right fun hs => ?_
  obtain ⟨-, -, hlt, -⟩ := bounds_of_valid hvalid hs
  rw [hhuge]
  constructor
  · rintro ⟨hlo, hhi⟩
    exact ⟨max s.mapStart (r * 2097152), by omega, by omega, by omega⟩
  · rintro ⟨va, hlo, hhi, rfl⟩
    omega

theorem image_tables : (imageSlots segs).image tableOf = (touchedRegions segs).image (Prod.mk .image) := by
  have hpage : page = 4096 := rfl
  have hhuge : huge = 2097152 := rfl
  ext ⟨kind, r⟩
  simp only [Finset.mem_image, mem_imageSlots, mem_touchedRegions hvalid, mem_run, tableOf, Prod.mk.injEq]
  constructor
  · rintro ⟨⟨_, n⟩, ⟨s, hs, rfl, hlo, hhi⟩, rfl, rfl⟩
    obtain ⟨hstart, hend, -⟩ := bounds_of_valid hvalid hs
    simp only [hpage] at hlo hhi
    exact ⟨_, ⟨s, hs, n * 4096, by omega, by omega, by rw [hhuge]; omega⟩, rfl, rfl⟩
  · rintro ⟨_, ⟨s, hs, va, hlo, hhi, rfl⟩, rfl, rfl⟩
    obtain ⟨hstart, hend, -⟩ := bounds_of_valid hvalid hs
    refine ⟨(.image, va / 4096), ⟨s, hs, rfl, ?_, ?_⟩, rfl, ?_⟩
    · rw [hpage]
      exact Nat.div_le_div_right hlo
    · simp only [hpage]
      omega
    · simp only [hhuge]
      omega

omit hvalid in
theorem disjoint_imageSlots {s : UserElf.Segment} {rest : List UserElf.Segment} (hvalid : ∀ t ∈ s :: rest, t.Valid length)
    (hapart : (s :: rest).Pairwise UserElf.Segment.Apart) : Disjoint (run .image s.mapStart s.mapEnd) (imageSlots rest) := by
  have hpage : page = 4096 := rfl
  obtain ⟨hstart, hend, -⟩ := bounds_of_valid hvalid List.mem_cons_self
  refine Finset.disjoint_left.mpr fun x hx hx' => ?_
  obtain ⟨t, ht, hx'⟩ := mem_imageSlots.mp hx'
  obtain ⟨hstart', hend', -⟩ := bounds_of_valid hvalid (List.mem_cons_of_mem _ ht)
  have hs := (mem_run.mp hx).2
  have ht' := (mem_run.mp hx').2
  have hapart := (List.pairwise_cons.mp hapart).1 t ht
  rw [UserElf.Segment.Apart] at hapart
  rw [hpage] at hs ht'
  omega

theorem card_imageSlots (hapart : segs.Pairwise UserElf.Segment.Apart) :
    (imageSlots segs).card = (segs.map UserElf.Segment.pages).sum := by
  induction segs with
  | nil => rfl
  | cons s rest ih =>
      have hpages : UserElf.Segment.pages s = s.mapEnd / page - s.mapStart / page := by
        obtain ⟨hstart, hend, -⟩ := bounds_of_valid hvalid List.mem_cons_self
        have hpage : page = 4096 := rfl
        have hpage' : UserElf.page = 4096 := rfl
        rw [UserElf.Segment.pages, hpage', hpage]
        omega
      rw [imageSlots, Finset.card_union_of_disjoint (disjoint_imageSlots hvalid hapart), card_run,
        ih (fun t ht => hvalid t (List.mem_cons_of_mem _ ht)) (List.pairwise_cons.mp hapart).2, List.map_cons,
        List.sum_cons, hpages]

/-- A span of 32 MiB touches at most seventeen regions. -/
theorem card_touchedRegions (hspan : ∀ s ∈ segs, ∀ t ∈ segs, t.mapEnd - s.mapStart ≤ UserElf.maxImageSpan) :
    (touchedRegions segs).card ≤ maxImagePts := by
  have hmax : UserElf.maxImageSpan = 33554432 := rfl
  have hhuge : huge = 2097152 := rfl
  rcases segs.toFinset.eq_empty_or_nonempty with hempty | hne
  · rw [touchedRegions, hempty]
    exact Nat.zero_le _
  · obtain ⟨first, hfirst, hleast⟩ := Finset.exists_min_image segs.toFinset (fun s => s.mapStart) hne
    have hfirst := List.mem_toFinset.mp hfirst
    have hwithin : touchedRegions segs ⊆ Finset.Icc (first.mapStart / huge) (first.mapStart / huge + 16) := by
      intro r hr
      obtain ⟨s, hs, va, hlo, hhi, rfl⟩ := (mem_touchedRegions hvalid).mp hr
      have hlow := hleast s (List.mem_toFinset.mpr hs)
      have hhigh := hspan first hfirst s hs
      rw [hmax] at hhigh
      rw [Finset.mem_Icc, hhuge]
      omega
    refine (Finset.card_le_card hwithin).trans ?_
    rw [Nat.card_Icc]
    have hpts : maxImagePts = 17 := rfl
    omega

end Plan

/-! ### The pages of a plan are feasible -/

theorem filter_kind {S S' : Finset Slot} (kind : PtKind) (hS : ∀ x ∈ S, x.1 = kind) (hS' : ∀ x ∈ S', x.1 ≠ kind) :
    ((S ∪ S').filter fun x => x.1 = kind) = S := by
  rw [Finset.filter_union, Finset.filter_true_of_mem hS, Finset.filter_false_of_mem hS', Finset.union_empty]

theorem kind_imageSlots {segs : List UserElf.Segment} {x : Slot} (hx : x ∈ imageSlots segs) : x.1 = .image := by
  obtain ⟨s, -, hx⟩ := mem_imageSlots.mp hx
  exact (mem_run.mp hx).1

theorem kind_stackSlots {x : Slot} (hx : x ∈ stackSlots) : x.1 = .stack := (mem_run.mp hx).1

theorem kind_tableOf {S : Finset Slot} {kind : PtKind} (hS : ∀ x ∈ S, x.1 = kind) : ∀ t ∈ S.image tableOf, t.1 = kind := by
  intro t ht
  obtain ⟨x, hx, rfl⟩ := Finset.mem_image.mp ht
  exact hS x hx

theorem stack_ne {kind : PtKind} (h : kind = .stack) : kind ≠ .image := by rw [h]; simp
theorem image_ne {kind : PtKind} (h : kind = .image) : kind ≠ .stack := by rw [h]; simp

theorem pages_image {plan : UserElf.Plan} : ((planSlots plan).filter fun x => x.1 = .image) = imageSlots plan.segments :=
  filter_kind .image (fun _ => kind_imageSlots) fun _ hx => stack_ne (kind_stackSlots hx)

theorem pages_stack {plan : UserElf.Plan} : ((planSlots plan).filter fun x => x.1 = .stack) = stackSlots := by
  rw [planSlots, Finset.union_comm]
  exact filter_kind .stack (fun _ => kind_stackSlots) fun _ hx => image_ne (kind_imageSlots hx)

theorem tables_image {plan : UserElf.Plan} :
    (((planSlots plan).image tableOf).filter fun x => x.1 = .image) = (imageSlots plan.segments).image tableOf := by
  rw [planSlots, Finset.image_union]
  exact filter_kind .image (kind_tableOf fun _ => kind_imageSlots)
    fun x hx => stack_ne (kind_tableOf (fun _ => kind_stackSlots) x hx)

theorem tables_stack {plan : UserElf.Plan} :
    (((planSlots plan).image tableOf).filter fun x => x.1 = .stack) = stackSlots.image tableOf := by
  rw [planSlots, Finset.union_comm, Finset.image_union]
  exact filter_kind .stack (kind_tableOf fun _ => kind_stackSlots)
    fun x hx => image_ne (kind_tableOf (fun _ => kind_imageSlots) x hx)

theorem card_stackSlots : stackSlots.card = maxStackPages := card_run _ _ _

/-- The stack lies in the last region of the second GiB. -/
theorem stack_region {x : Slot} (hx : x ∈ stackSlots) : x.2 / 512 = 1023 ∧ x.2 / 2 ^ 18 = 1 := by
  have hpage : page = 4096 := rfl
  have hlo : stackLo = 2147409920 := rfl
  have htop : UserVm.stackTop = 2147475456 := rfl
  have hrun := (mem_run.mp hx).2
  rw [hpage, hlo, htop] at hrun
  omega

theorem card_stackTables : (stackSlots.image tableOf).card = maxStackPts := by
  have hfirst : (PtKind.stack, stackLo / page) ∈ stackSlots := mem_run.mpr ⟨rfl, by decide, by decide⟩
  have hall : stackSlots.image tableOf = {(PtKind.stack, 1023)} := by
    refine Finset.eq_singleton_iff_unique_mem.mpr ⟨Finset.mem_image.mpr ⟨_, hfirst, rfl⟩, fun t ht => ?_⟩
    obtain ⟨x, hx, rfl⟩ := Finset.mem_image.mp ht
    rw [tableOf, (stack_region hx).1, kind_stackSlots hx]
  rw [hall, Finset.card_singleton]
  rfl

section Plan

variable {length : Nat} {plan : UserElf.Plan}

theorem image_region (hvalid : plan.Valid length) {x : Slot} (hx : x ∈ imageSlots plan.segments) :
    x.2 / 512 < 768 ∧ x.2 / 2 ^ 18 = 1 := by
  have hpage : page = 4096 := rfl
  obtain ⟨s, hs, hx⟩ := mem_imageSlots.mp hx
  obtain ⟨-, -, -, hlow, hhigh⟩ := bounds_of_valid hvalid.segments hs
  have hrun := (mem_run.mp hx).2
  rw [hpage] at hrun
  omega

theorem card_imageTables (hvalid : plan.Valid length) :
    ((imageSlots plan.segments).image tableOf).card = (touchedRegions plan.segments).card := by
  rw [image_tables hvalid.segments, Finset.card_image_of_injective _ fun _ _ h => (Prod.mk.inj h).2]

theorem feasible_planSlots (hvalid : plan.Valid length) (haccepted : plan.Accepted) : Feasible (planSlots plan) where
  gib x hx := by
    rcases Finset.mem_union.mp hx with hx | hx
    · exact (image_region hvalid hx).2
    · exact (stack_region hx).2
  apart x hx y hy hregion := by
    rcases Finset.mem_union.mp hx with hx | hx <;> rcases Finset.mem_union.mp hy with hy | hy
    · rw [kind_imageSlots hx, kind_imageSlots hy]
    · have hlow := (image_region hvalid hx).1
      have hhigh := (stack_region hy).1
      omega
    · have hlow := (image_region hvalid hy).1
      have hhigh := (stack_region hx).1
      omega
    · rw [kind_stackSlots hx, kind_stackSlots hy]
  pages kind := by
    cases kind with
    | image =>
        rw [pages_image, card_imageSlots hvalid.segments haccepted.apart]
        exact haccepted.pages
    | stack =>
        rw [pages_stack, card_stackSlots]
        exact Nat.le_refl _
  pts kind := by
    cases kind with
    | image =>
        rw [tables_image, card_imageTables hvalid]
        exact card_touchedRegions hvalid.segments haccepted.span
    | stack =>
        rw [tables_stack, card_stackTables]
        exact Nat.le_refl _

theorem framesFor_planSlots (hvalid : plan.Valid length) (haccepted : plan.Accepted) :
    framesFor (planSlots plan) = frameBudget plan := by
  have hroot : maxRootTables = 3 := rfl
  rw [framesFor, frameBudget, card_eq_kinds ((planSlots plan).image tableOf), card_eq_kinds (planSlots plan), tables_image,
    tables_stack, pages_image, pages_stack, card_imageTables hvalid, card_stackTables, card_stackSlots,
    card_imageSlots hvalid.segments haccepted.apart, hroot]
  omega

end Plan

end UserVm

end Native
