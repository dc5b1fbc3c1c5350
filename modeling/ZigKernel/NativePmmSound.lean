import ZigKernel.NativePmm
import Mathlib.Data.List.Nodup
import Mathlib.Data.List.Perm.Subperm
import Mathlib.Order.Basic

/-! Soundness of the page allocator. `init` publishes exactly the conventional frames of an accepted
map; from then on the free pages and the pages handed out partition them, along every run. -/

namespace Native

open Zig

namespace Pmm

variable {info : BootInfo} {s t : Pmm} {p : Nat}

/-! ### Lists of frames -/

/-- Distinct page-aligned addresses below the ceiling. -/
structure Framed (pages : List Nat) : Prop where
  nodup : pages.Nodup
  domain : ∀ p ∈ pages, p % page = 0 ∧ p < managedTop

/-- There are no more frames than entries of `backing`. -/
theorem Framed.length_le {pages : List Nat} (h : Framed pages) : pages.length ≤ managedPages := by
  have hindex : (pages.map (· / page)).Nodup := by
    refine h.nodup.map_on fun a ha b hb heq => ?_
    have hamod := (h.domain a ha).1
    have hbmod := (h.domain b hb).1
    rw [← Nat.div_add_mod a page, ← Nat.div_add_mod b page, hamod, hbmod, heq]
  have hsubset : pages.map (· / page) ⊆ List.range managedPages := by
    intro i hi
    obtain ⟨a, ha, rfl⟩ := List.mem_map.mp hi
    rw [List.mem_range]
    exact Nat.div_lt_of_lt_mul (Nat.lt_of_lt_of_eq (h.domain a ha).2 (by decide))
  have := (List.subperm_of_subset hindex hsubset).length_le
  rwa [List.length_map, List.length_range] at this

theorem Framed.of_append_right {pages pages' : List Nat} (h : Framed (pages ++ pages')) : Framed pages' where
  nodup := h.nodup.of_append_right
  domain p hp := h.domain p (List.mem_append_right _ hp)

theorem mem_rangeFrames {r : Range} (haligned : r.physStart % page = 0) :
    p ∈ rangeFrames r ↔ r.kind = .conventional ∧ p % page = 0 ∧ p < managedTop ∧ r.Contains p := by
  have hpage : page = 4096 := rfl
  have htop : managedTop = 268435456 := rfl
  have hstop : r.stop = r.physStart + r.pageCount * 4096 := rfl
  unfold rangeFrames Range.Contains
  by_cases hmanaged : r.kind = .conventional ∧ r.physStart < managedTop
  · rw [if_pos hmanaged, List.mem_map]
    constructor
    · rintro ⟨i, hi, rfl⟩
      rw [List.mem_range, hpage] at hi
      rw [hpage] at haligned
      refine ⟨hmanaged.1, ?_, ?_, ?_, ?_⟩ <;> rw [hpage] <;> omega
    · rintro ⟨-, hp, hlow, hstart, hlt⟩
      rw [hpage] at haligned hp
      refine ⟨(p - r.physStart) / page, List.mem_range.mpr ?_, ?_⟩ <;> rw [hpage] <;> omega
  · rw [if_neg hmanaged]
    constructor
    · exact fun h => absurd h List.not_mem_nil
    · rintro ⟨hkind, -, hlow, hstart, -⟩
      exact absurd ⟨hkind, Nat.lt_of_le_of_lt hstart hlow⟩ hmanaged

theorem conventional_of_mem {r : Range} (hp : p ∈ rangeFrames r) : r.kind = .conventional := by
  unfold rangeFrames at hp
  split_ifs at hp with h
  · exact h.1
  · exact absurd hp List.not_mem_nil

theorem rangeFrames_nodup (r : Range) : (rangeFrames r).Nodup := by
  unfold rangeFrames
  split_ifs
  · refine List.Nodup.map_on (fun i _ j _ heq => ?_) List.nodup_range
    simp only [page] at heq
    omega
  · exact List.nodup_nil

/-- A range apart from the frames so far adds its own frames. -/
theorem Framed.append_range {pages : List Nat} (h : Framed pages) {r : Range} (haligned : r.physStart % page = 0)
    (hfresh : ∀ p ∈ pages, ¬r.Contains p) : Framed ((rangeFrames r).reverse ++ pages) where
  nodup := by
    rw [List.nodup_append]
    refine ⟨List.nodup_reverse.mpr (rangeFrames_nodup r), h.nodup, fun a ha b hb heq => ?_⟩
    subst heq
    exact hfresh a hb ((mem_rangeFrames haligned).mp (List.mem_reverse.mp ha)).2.2.2
  domain p hp := by
    rcases List.mem_append.mp hp with hp | hp
    · obtain ⟨-, hmod, htop, -⟩ := (mem_rangeFrames haligned).mp (List.mem_reverse.mp hp)
      exact ⟨hmod, htop⟩
    · exact h.domain p hp

/-! ### `init` -/

/-- The page loop fits into `backing` because what it pushes is framed. -/
theorem pushPages_run (physStart : Nat) (left i : Nat) (pages : List Nat)
    (h : Framed (((List.range' i left).map fun j => physStart + j * page).reverse ++ pages)) :
    pushPages physStart left i pages =
      .ok (((List.range' i left).map fun j => physStart + j * page).reverse ++ pages) := by
  induction left generalizing i pages with
  | zero => rfl
  | succ left ih =>
      have hsplit : ((List.range' i (left + 1)).map fun j => physStart + j * page).reverse ++ pages =
          ((List.range' (i + 1) left).map fun j => physStart + j * page).reverse ++
            (physStart + i * page) :: pages := by
        rw [List.range'_succ, List.map_cons, List.reverse_cons, List.append_assoc, List.singleton_append]
      rw [hsplit] at h ⊢
      have hroom : ¬pages.length ≥ managedPages := by
        have := h.of_append_right.length_le
        rw [List.length_cons] at this
        omega
      rw [pushPages, if_neg hroom]
      exact ih (i + 1) _ h

theorem addOrOverflow_cases (a b : Nat) :
    addOrOverflow a b = .ok (a + b) ∨ addOrOverflow a b = .error .rangeOverflow := by
  unfold addOrOverflow mathAdd
  split_ifs
  · exact Or.inl rfl
  · exact Or.inr rfl

/-- The outcomes of the range loop's body: an error other than a full `backing`, or the frames of the
range on top. -/
theorem tallyRange_cases (t : Tally) {r : Range} (hbounded : r.stop < u64Bound) (hpages : r.pageCount ≠ 0)
    (hframed : r.physStart % page = 0 → Framed ((rangeFrames r).reverse ++ t.pages)) :
    (∃ e, tallyRange t r = .error e ∧ e ≠ .tooManyPages) ∨
      ∃ t', tallyRange t r = .ok t' ∧ t'.pages = (rangeFrames r).reverse ++ t.pages ∧
        t'.total = t.total + (rangeFrames r).length ∧ (r.kind = .conventional → r.physStart % page = 0) := by
  rw [tallyRange, if_neg hpages]
  by_cases hkind : r.kind = .conventional
  swap
  · have hunusable : ¬rangeUsable r = true := fun h => hkind (of_decide_eq_true h).1
    have hnone : rangeFrames r = [] := if_neg fun h => hkind h.1
    rw [if_pos hunusable]
    rcases addOrOverflow_cases t.excluded r.pageCount with h | h <;> rw [h]
    · exact Or.inr ⟨_, rfl, by rw [hnone]; rfl, by rw [hnone]; rfl, fun h => absurd h hkind⟩
    · exact Or.inl ⟨_, rfl, by nofun⟩
  have husable : rangeUsable r = true := decide_eq_true ⟨hkind, Nat.pos_of_ne_zero hpages⟩
  rw [if_neg (not_not.mpr husable)]
  by_cases haligned : r.physStart % page = 0
  swap
  · rw [if_pos haligned]
    exact Or.inl ⟨_, rfl, by nofun⟩
  have hbytes : mulOrOverflow r.pageCount page = .ok (r.pageCount * page) := by
    have : r.pageCount * page < u64Bound := Nat.lt_of_le_of_lt (Nat.le_add_left _ _) hbounded
    rw [mulOrOverflow, mathMul, if_pos this]
  have hstop : addOrOverflow r.physStart (r.pageCount * page) = .ok r.stop := by
    have hend : r.physStart + r.pageCount * page = r.stop := rfl
    rw [hend.symm] at hbounded
    rw [addOrOverflow, mathAdd, if_pos hbounded, hend]
  rw [if_neg (not_not.mpr haligned), hbytes, Outcome.ok_bind, hstop, Outcome.ok_bind]
  by_cases habove : r.physStart ≥ managedTop
  · have hnone : rangeFrames r = [] := if_neg fun h => Nat.not_le_of_lt h.2 habove
    rw [if_pos habove]
    rcases addOrOverflow_cases t.unmanaged r.pageCount with h | h <;> rw [h]
    · exact Or.inr ⟨_, rfl, by rw [hnone]; rfl, by rw [hnone]; rfl, fun _ => haligned⟩
    · exact Or.inl ⟨_, rfl, by nofun⟩
  have hframes : rangeFrames r =
      (List.range' 0 ((min r.stop managedTop - r.physStart) / page)).map fun i => r.physStart + i * page := by
    rw [rangeFrames, if_pos ⟨hkind, Nat.lt_of_not_ge habove⟩, List.range_eq_range']
  have hlength : (rangeFrames r).length = (min r.stop managedTop - r.physStart) / page := by
    rw [hframes, List.length_map, List.length_range']
  rw [← hlength] at hframes
  have hpush : pushPages r.physStart (rangeFrames r).length 0 t.pages = .ok ((rangeFrames r).reverse ++ t.pages) := by
    have hpushed := hframed haligned
    rw [hframes] at hpushed
    conv_rhs => rw [hframes]
    exact pushPages_run r.physStart _ 0 t.pages hpushed
  rw [if_neg habove]
  simp only [hpush, ← hlength]
  rcases addOrOverflow_cases t.unmanaged (r.pageCount - (rangeFrames r).length) with h | h <;>
    rw [h]
  swap
  · exact Or.inl ⟨_, rfl, by nofun⟩
  rw [Outcome.ok_bind, Outcome.ok_bind]
  rcases addOrOverflow_cases t.total (rangeFrames r).length with h | h <;> rw [h]
  · exact Or.inr ⟨_, rfl, rfl, rfl, fun _ => haligned⟩
  · exact Or.inl ⟨_, rfl, by nofun⟩

/-- The pushed frames stay framed, because the ranges to come are apart from the ones behind them. -/
theorem tallyRanges_cases (t : Tally) (rs : List Range) (hbounded : ∀ r ∈ rs, r.stop < u64Bound)
    (hpages : ∀ r ∈ rs, r.pageCount ≠ 0) (hapart : rs.Pairwise Range.Apart) (hframed : Framed t.pages)
    (hfresh : ∀ r ∈ rs, ∀ p ∈ t.pages, ¬r.Contains p) :
    (∃ e, tallyRanges t rs = .error e ∧ e ≠ .tooManyPages) ∨
      ∃ t', tallyRanges t rs = .ok t' ∧ Framed t'.pages ∧
        (∀ p, p ∈ t'.pages ↔ p ∈ t.pages ∨ ∃ r ∈ rs, p ∈ rangeFrames r) ∧
        t'.total + t.pages.length = t.total + t'.pages.length ∧
        ∀ r ∈ rs, r.kind = .conventional → r.physStart % page = 0 := by
  induction rs generalizing t with
  | nil =>
      refine Or.inr ⟨t, rfl, hframed, fun p => ?_, rfl, fun r hr => absurd hr List.not_mem_nil⟩
      simp only [List.not_mem_nil, false_and, exists_false, or_false]
  | cons r rest ih =>
      have hadded (haligned : r.physStart % page = 0) : Framed ((rangeFrames r).reverse ++ t.pages) :=
        hframed.append_range haligned (hfresh r List.mem_cons_self)
      rw [tallyRanges]
      rcases tallyRange_cases t (hbounded r List.mem_cons_self) (hpages r List.mem_cons_self) hadded with
        ⟨e, hrun, hne⟩ | ⟨t', hrun, hpages', htotal, haligned⟩
      · rw [hrun, Outcome.error_bind]
        exact Or.inl ⟨e, rfl, hne⟩
      rw [hrun, Outcome.ok_bind]
      rw [List.pairwise_cons] at hapart
      have hmem (p : Nat) : p ∈ t'.pages ↔ p ∈ rangeFrames r ∨ p ∈ t.pages := by
        rw [hpages', List.mem_append, List.mem_reverse]
      have hframed' : Framed t'.pages := by
        by_cases hkind : r.kind = .conventional
        · exact hpages' ▸ hadded (haligned hkind)
        · have hnone : rangeFrames r = [] := if_neg fun h => hkind h.1
          rw [hpages', hnone]
          exact hframed
      have hfresh' (b : Range) (hb : b ∈ rest) (p : Nat) (hp : p ∈ t'.pages) : ¬b.Contains p := by
        rcases (hmem p).mp hp with hp | hp
        · have hcontains := ((mem_rangeFrames (haligned (conventional_of_mem hp))).mp hp).2.2.2
          exact (hapart.1 b hb).not_contains hcontains
        · exact hfresh b (List.mem_cons_of_mem _ hb) p hp
      rcases ih t' (fun b hb => hbounded b (List.mem_cons_of_mem _ hb))
          (fun b hb => hpages b (List.mem_cons_of_mem _ hb)) hapart.2 hframed' hfresh' with
        h | ⟨t'', hrest, hframed'', hmem', htotal', haligned'⟩
      · exact Or.inl h
      refine Or.inr ⟨t'', hrest, hframed'', fun p => ?_, ?_, ?_⟩
      · rw [hmem', hmem, List.exists_mem_cons_iff]
        tauto
      · rw [hpages', List.length_append, List.length_reverse] at htotal'
        omega
      · intro b hb
        rcases List.mem_cons.mp hb with rfl | hb
        · exact haligned
        · exact haligned' b hb

/-- The allocator `s` serves `info`, and `held` are the pages it has handed out: the two lists partition
the frames of the map, and the counters count them. -/
structure Sound (info : BootInfo) (s : Pmm) (held : List Nat) : Prop where
  wellFormed : info.WellFormed
  aligned : ∀ r ∈ info.ranges, r.kind = .conventional → r.physStart % page = 0
  initialized : s.initialized = true
  cached : s.cached = some info
  nodup : (s.freeStack ++ held).Nodup
  frames : ∀ p, p ∈ s.freeStack ++ held ↔ Frame info p
  used : s.usedPages = held.length
  total : s.totalPages = s.freeStack.length + held.length

theorem init_cases (info : BootInfo) (s₀ : Pmm) :
    (∃ e s, init info s₀ = (.error e, s) ∧ e ≠ .tooManyPages) ∨ (init info s₀).1 = .trap ∨
      ∃ s, init info s₀ = (.ok (), s) ∧ Sound info s [] := by
  rw [init, Act.modify_bind_run, Act.bind_run, Act.orFail, Act.catchError, Act.lift_run]
  cases hvalidate : info.validate with
  | error e => exact Or.inl ⟨.badBootInfo, _, rfl, by simp⟩
  | trap => exact Or.inr (Or.inl rfl)
  | ok u =>
      have h := BootInfo.wellFormed_of_validate hvalidate
      have hempty : Framed ({} : Tally).pages := ⟨List.nodup_nil, fun p hp => absurd hp List.not_mem_nil⟩
      simp only
      rcases tallyRanges_cases {} info.ranges h.bounded h.pages h.apart hempty
          (fun _ _ p hp => absurd hp List.not_mem_nil) with
        ⟨e, hrun, hne⟩ | ⟨t, hrun, hframed, hmem, htotal, haligned⟩
      · rw [hrun, Act.lift_error_bind_run]
        exact Or.inl ⟨e, _, rfl, hne⟩
      rw [hrun, Act.lift_ok_bind_run]
      refine Or.inr (Or.inr ⟨_, rfl, h, haligned, rfl, rfl, ?_, fun p => ?_, rfl, ?_⟩)
      · rw [List.append_nil]
        exact hframed.nodup
      · rw [List.append_nil, hmem]
        constructor
        · rintro (hp | ⟨r, hr, hp⟩)
          · exact absurd hp List.not_mem_nil
          have hkind := conventional_of_mem hp
          obtain ⟨-, hmod, htop, hcontains⟩ := (mem_rangeFrames (haligned r hr hkind)).mp hp
          exact ⟨hmod, htop, r, hr, hkind, hcontains⟩
        · rintro ⟨hmod, htop, r, hr, hkind, hcontains⟩
          exact Or.inr ⟨r, hr, (mem_rangeFrames (haligned r hr hkind)).mpr ⟨hkind, hmod, htop, hcontains⟩⟩
      · have hnone : ({} : Tally).pages.length = 0 := rfl
        have hzero : ({} : Tally).total = 0 := rfl
        show t.total = t.pages.length + 0
        omega

/-! ### The calls -/

/-- In a well-formed map the first range that holds an address is the only one. -/
theorem usableAt_iff (rs : List Range) (hbounded : ∀ r ∈ rs, r.stop < u64Bound) (hapart : rs.Pairwise Range.Apart)
    (hpages : ∀ r ∈ rs, r.pageCount ≠ 0) :
    usableAt p rs = true ↔ ∃ r ∈ rs, r.kind = .conventional ∧ r.Contains p := by
  induction rs with
  | nil => simp only [usableAt, List.not_mem_nil, false_and, exists_false, Bool.false_eq_true]
  | cons r rest ih =>
      have hstop : r.physStart + r.pageCount * page < u64Bound := hbounded r List.mem_cons_self
      have hbytes : r.pageCount * page < u64Bound := Nat.lt_of_le_of_lt (Nat.le_add_left _ _) hstop
      rw [List.pairwise_cons] at hapart
      rw [usableAt, mathMul, if_pos hbytes]
      simp only
      rw [mathAdd, if_pos hstop]
      simp only
      rw [List.exists_mem_cons_iff]
      by_cases hwithin : p ≥ r.physStart ∧ p < r.physStart + r.pageCount * page
      · have hcontains : r.Contains p := hwithin
        rw [if_pos hwithin]
        have hothers (b : Range) (hb : b ∈ rest) : ¬b.Contains p := (hapart.1 b hb).not_contains hcontains
        constructor
        · exact fun h => Or.inl ⟨(of_decide_eq_true h).1, hcontains⟩
        · rintro (⟨hkind, -⟩ | ⟨b, hb, -, hin⟩)
          · exact decide_eq_true ⟨hkind, Nat.pos_of_ne_zero (hpages r List.mem_cons_self)⟩
          · exact absurd hin (hothers b hb)
      · have hcontains : ¬r.Contains p := hwithin
        rw [if_neg hwithin, ih (fun b hb => hbounded b (List.mem_cons_of_mem _ hb)) hapart.2
          fun b hb => hpages b (List.mem_cons_of_mem _ hb)]
        simp only [hcontains, and_false, false_or]

namespace Sound

variable {held : List Nat}

theorem framed (h : Sound info s held) : Framed (s.freeStack ++ held) where
  nodup := h.nodup
  domain p hp := by
    obtain ⟨hmod, htop, -⟩ := (h.frames p).mp hp
    exact ⟨hmod, htop⟩

theorem isAllocatable_iff (h : Sound info s held) : s.isAllocatable p = true ↔ Frame info p := by
  rw [isAllocatable, Frame]
  by_cases hdomain : inManagedDomain p = true
  · obtain ⟨hmod, htop⟩ := of_decide_eq_true hdomain
    rw [if_neg (not_not.mpr hdomain), h.cached]
    simp only [usableAt_iff info.ranges h.wellFormed.bounded h.wellFormed.apart h.wellFormed.pages, hmod, htop,
      true_and]
  · rw [if_pos hdomain]
    refine iff_of_false (by nofun) fun hframe => hdomain ?_
    exact decide_eq_true ⟨hframe.1, hframe.2.1⟩

/-- `freePage` accepts exactly the pages that are out. -/
theorem freePage_cases (h : Sound info s held) (p : Nat) :
    (p ∈ held ∧
        s.freePage p = (true, { s with freeStack := p :: s.freeStack, usedPages := s.usedPages - 1 })) ∨
      (p ∉ held ∧ s.freePage p = (false, s)) := by
  rw [freePage, if_neg (not_not.mpr h.initialized)]
  by_cases hframe : Frame info p
  swap
  · rw [if_pos (h.isAllocatable_iff.not.mpr hframe)]
    exact Or.inr ⟨fun hp => hframe ((h.frames p).mp (List.mem_append_right _ hp)), rfl⟩
  rw [if_neg (not_not.mpr (h.isAllocatable_iff.mpr hframe))]
  by_cases hfree : p ∈ s.freeStack
  · rw [if_pos (List.contains_iff_mem.mpr hfree)]
    exact Or.inr ⟨fun hp => (List.nodup_append.mp h.nodup).2.2 p hfree p hp rfl, rfl⟩
  have hheld : p ∈ held := by
    rcases List.mem_append.mp ((h.frames p).mpr hframe) with hp | hp
    · exact absurd hp hfree
    · exact hp
  have hout : 0 < held.length := List.length_pos_of_mem hheld
  have hroom : ¬s.freeStack.length ≥ managedPages := by
    have := h.framed.length_le
    rw [List.length_append] at this
    omega
  have hused : s.usedPages > 0 := h.used ▸ hout
  rw [if_neg (fun hcontains => hfree (List.contains_iff_mem.mp hcontains)), if_neg hroom, if_pos hused]
  exact Or.inl ⟨hheld, rfl⟩

theorem allocPage_cases (h : Sound info s held) :
    s.allocPage = (none, s) ∨
      ∃ top rest, s.freeStack = top :: rest ∧
        s.allocPage = (some top, { s with freeStack := rest, usedPages := s.usedPages + 1 }) := by
  rw [allocPage, if_neg (not_not.mpr h.initialized)]
  cases hstack : s.freeStack with
  | nil => exact Or.inl rfl
  | cons top rest => exact Or.inr ⟨top, rest, rfl, rfl⟩

/-- Moving pages between the two lists keeps the partition. -/
theorem moved (h : Sound info s held) {s' : Pmm} {held' : List Nat}
    (hperm : (s'.freeStack ++ held').Perm (s.freeStack ++ held)) (hinitialized : s'.initialized = s.initialized)
    (hcached : s'.cached = s.cached) (htotal : s'.totalPages = s.totalPages)
    (hused : s'.usedPages = held'.length) : Sound info s' held' where
  wellFormed := h.wellFormed
  aligned := h.aligned
  initialized := hinitialized.trans h.initialized
  cached := hcached.trans h.cached
  nodup := hperm.nodup_iff.mpr h.nodup
  frames p := hperm.mem_iff.trans (h.frames p)
  used := hused
  total := by
    have hlength := hperm.length_eq
    rw [List.length_append, List.length_append] at hlength
    rw [htotal, h.total, hlength]

theorem step {call : Call} (h : Sound info s held) (hstep : Step s call t) :
    Sound info t (heldAfter held call) := by
  cases hstep with
  | alloc =>
      rcases h.allocPage_cases with hrun | ⟨top, rest, hstack, hrun⟩ <;> rw [hrun]
      · exact h
      · refine h.moved ?_ rfl rfl rfl ?_
        · rw [hstack]
          exact List.perm_middle
        · exact congrArg (· + 1) h.used
  | free p =>
      rcases h.freePage_cases p with ⟨hheld, hrun⟩ | ⟨-, hrun⟩ <;> rw [hrun]
      · refine h.moved ?_ rfl rfl rfl ?_
        · have herase : (p :: held.erase p).Perm held := (List.perm_cons_erase hheld).symm
          exact List.perm_middle.symm.trans (herase.append_left s.freeStack)
        · show s.usedPages - 1 = (held.erase p).length
          rw [List.length_erase_of_mem hheld, h.used]
      · exact h

theorem run {trace : List Call} (h : Sound info s []) (hrun : Run s trace t) : Sound info t (Pmm.held trace) := by
  refine hrun.history (P := fun trace t => Sound info t (Pmm.held trace)) h ?_
  intro trace t call u _ hsound hstep
  rw [Pmm.held, List.foldl_append]
  exact hsound.step hstep

end Sound

/-- An allocator is sound from its initialisation on. -/
theorem sound_of_run {trace : List Call} {s₀ : Pmm} (hinit : init info s₀ = (.ok (), s)) (hrun : Run s trace t) :
    Sound info t (held trace) := by
  rcases init_cases info s₀ with ⟨e, s', h, -⟩ | h | ⟨s', h, hsound⟩
  · rw [hinit] at h
    cases h
  · rw [hinit] at h
    cases h
  · rw [hinit] at h
    cases h
    exact hsound.run hrun

/-! ### Owned memory -/

/-- The address belongs to a region the header records: the kernel image, the initramfs, the kernel stack
or the boot structure itself. -/
def Owned (info : BootInfo) (x : Nat) : Prop :=
  (info.kernelBase.val ≤ x ∧ x < info.kernelBase + info.kernelSize) ∨
    (info.initramfsBase.val ≤ x ∧ x < info.initramfsBase + info.initramfsSize) ∨
    (info.stackBase.val ≤ x ∧ x < info.stackBase + info.stackSize) ∨
    (info.selfAddr.val ≤ x ∧ x < info.selfAddr + info.totalSize)

theorem Owned.covered {x : Nat} (h : Owned info x) (hwf : info.WellFormed) :
    ∃ r ∈ info.ranges, r.kind ≠ .conventional ∧ r.Contains x := by
  rcases h with h | h | h | h
  · obtain ⟨r, hr, hkind, hcontains⟩ := hwf.kernel x h.1 h.2
    exact ⟨r, hr, by rw [hkind]; nofun, hcontains⟩
  · obtain ⟨r, hr, hkind, hcontains⟩ := hwf.initramfs x h.1 h.2
    exact ⟨r, hr, by rw [hkind]; nofun, hcontains⟩
  · obtain ⟨r, hr, hkind, hcontains⟩ := hwf.stack x h.1 h.2
    exact ⟨r, hr, by rw [hkind]; nofun, hcontains⟩
  · obtain ⟨r, hr, hkind, hcontains⟩ := hwf.bootInfo x h.1 h.2
    exact ⟨r, hr, by rw [hkind]; nofun, hcontains⟩

/-- A frame lies in its range with the whole page, so no byte of it is owned. -/
theorem Frame.not_owned (hwf : info.WellFormed)
    (haligned : ∀ r ∈ info.ranges, r.kind = .conventional → r.physStart % page = 0) (h : Frame info p) {x : Nat}
    (hx : p ≤ x) (hpage : x < p + page) : ¬Owned info x := by
  intro howned
  obtain ⟨hmod, -, r, hr, hkind, hstart, hstop⟩ := h
  obtain ⟨r', hr', hkind', hcontains'⟩ := howned.covered hwf
  have hcontains : r.Contains x := by
    have hrange : r.stop = r.physStart + r.pageCount * page := rfl
    have hrmod := haligned r hr hkind
    have hsize : page = 4096 := rfl
    rw [hsize] at hpage hmod hrange hrmod
    exact ⟨Nat.le_trans hstart hx, by omega⟩
  have heq := hwf.unique hr hr' hcontains hcontains'
  exact hkind' (heq ▸ hkind)

/-- Soundness of the allocator over any run. -/
theorem pmm_sound {trace : List Call} {s₀ : Pmm} (hinit : init info s₀ = (.ok (), s)) (hrun : Run s trace t) :
    (t.freeStack.Nodup ∧ ∀ p ∈ t.freeStack, p % page = 0 ∧ p < managedTop) ∧
      ((t.freeStack ++ held trace).Nodup ∧ ∀ p, Frame info p ↔ p ∈ t.freeStack ∨ p ∈ held trace) ∧
      (t.stats.total = t.stats.free + t.stats.used ∧ t.stats.used = (held trace).length) ∧
      (∀ p, t.allocPage.1 = some p →
        p ∉ held trace ∧ ∀ x, p ≤ x → x < p + page → ¬Owned info x) ∧
      (∀ p, ((t.freePage p).1 = true ↔ p ∈ held trace) ∧ ((t.freePage p).1 = false → (t.freePage p).2 = t)) ∧
      ∀ info' s', (init info' s').1 ≠ .error .tooManyPages := by
  have h := sound_of_run hinit hrun
  have hdisjoint := (List.nodup_append.mp h.nodup).2.2
  refine ⟨⟨(List.nodup_append.mp h.nodup).1, fun p hp => h.framed.domain p (List.mem_append_left _ hp)⟩,
    ⟨h.nodup, fun p => (h.frames p).symm.trans List.mem_append⟩, ⟨?_, h.used⟩, ?_, ?_, ?_⟩
  · show t.totalPages = t.freeStack.length + t.usedPages
    rw [h.total, h.used]
  · intro p hp
    rcases h.allocPage_cases with hnone | ⟨top, rest, hstack, htop⟩
    · rw [hnone] at hp
      cases hp
    · rw [htop] at hp
      cases hp
      have hfree : p ∈ t.freeStack := by
        rw [hstack]
        exact List.mem_cons_self
      have hframe : Frame info p := (h.frames p).mp (List.mem_append_left _ hfree)
      exact ⟨fun hheld => hdisjoint p hfree p hheld rfl, fun x => hframe.not_owned h.wellFormed h.aligned⟩
  · intro p
    rcases h.freePage_cases p with ⟨hheld, hfree⟩ | ⟨hheld, hfree⟩ <;> rw [hfree]
    · exact ⟨iff_of_true rfl hheld, by nofun⟩
    · exact ⟨iff_of_false (by nofun) hheld, fun _ => rfl⟩
  · intro info' s' hfull
    rcases init_cases info' s' with ⟨e, s, h, hne⟩ | h | ⟨s, h, -⟩
    · rw [h] at hfull
      cases hfull
      exact hne rfl
    · rw [h] at hfull
      cases hfull
    · rw [h] at hfull
      cases hfull

/-- A map with the regions of the header and two conventional ranges, of which the ceiling clips one. -/
def sampleMap : BootInfo :=
  let info : BootInfo :=
    { totalSize := 4096, rangeCount := 5, efiDescSize := 48, efiDescVersion := 1
      kernelBase := 0x100000, kernelSize := 0x10000, kernelEntry := 0x100040
      initramfsBase := 0, initramfsSize := 0, stackBase := 0x200000, stackSize := 0x4000, selfAddr := 0x300000
      rangeArray
        | 0 => ⟨0x100000, 16, .kernel⟩
        | 1 => ⟨0x200000, 4, .kernelStack⟩
        | 2 => ⟨0x300000, 1, .bootInfo⟩
        | 3 => ⟨0x400000, 2, .conventional⟩
        | _ => ⟨0xffff000, 3, .conventional⟩ }
  { info with checksum := Fin.ofNat _ info.computeChecksum }

theorem pmm_sound_sample :
    (init sampleMap {}).1 = .ok () ∧ (init sampleMap {}).2.freeStack = [0xffff000, 0x401000, 0x400000] ∧
      ∀ p, ((init sampleMap {}).2.allocPage.2.freePage p).1 = true ↔ p ∈ [0xffff000] := by
  have hok : (init sampleMap {}).1 = .ok () := by decide +kernel
  have hinit : init sampleMap {} = (.ok (), (init sampleMap {}).2) := Prod.ext hok rfl
  have hreply : (init sampleMap {}).2.allocPage.1 = some 0xffff000 := by decide +kernel
  have hrun : Run (init sampleMap {}).2 [.alloc (some 0xffff000)] (init sampleMap {}).2.allocPage.2 :=
    Runs.Run.single (hreply ▸ Step.alloc)
  refine ⟨hok, by decide +kernel, fun p => ?_⟩
  obtain ⟨-, -, -, -, hfree, -⟩ := pmm_sound hinit hrun
  exact (hfree p).1

end Pmm

end Native
