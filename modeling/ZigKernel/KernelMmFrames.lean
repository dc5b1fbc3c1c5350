import ZigKernel.KernelMmAreas
import ZigKernel.LibBits

/-! The frames. A frame's mark, its count of references and its bit always agree, and the reserve is kept. The number of
frames in use is that of the frames handed out and of the anonymous pages, as long as no anonymous mapping is made
without all its frames and none with pages is taken away. -/

namespace Kernel.Mm

open Zig

/-! ### One frame -/

/-- The three representations of a frame's state; no frame has more than one reference. -/
structure Agrees (m : Mm) (i : Fin maxPages) : Prop where
  count : (m.pages i).refCount = if (m.pages i).inUse then 1 else 0
  bit : m.isPageSet i = (m.pages i).inUse

def Sound (m : Mm) : Prop := ∀ i, Agrees m i

section Bitmap

variable {m : Mm} {i j : Fin maxPages}

theorem isPageSet_eq (m : Mm) (i : Fin maxPages) : m.isPageSet i = (m.pageBitmap (byteOf i)).getLsbD (i.val % 8) :=
  Bits.and_mask _ (Nat.mod_lt _ (by decide))

theorem same_bit (h : byteOf i = byteOf j) : i.val % 8 = j.val % 8 ↔ i = j := by
  have hdiv : i.val / 8 = j.val / 8 := congrArg Fin.val h
  refine ⟨fun hmod => Fin.ext ?_, fun h => by rw [h]⟩
  omega

theorem isPageSet_setPage : (setPage i m).isPageSet j = (m.isPageSet j || decide (i = j)) := by
  rw [isPageSet_eq, isPageSet_eq]
  by_cases hbyte : byteOf i = byteOf j
  · have hnew : (setPage i m).pageBitmap (byteOf j) = m.pageBitmap (byteOf j) ||| Bits.mask 8 (i.val % 8) := by
      rw [← hbyte]
      exact Function.update_self _ _ _
    rw [hnew, Bits.getLsbD_or_mask _ (Nat.mod_lt _ (by decide)), decide_eq_decide.mpr (same_bit hbyte)]
  · have hold : (setPage i m).pageBitmap (byteOf j) = m.pageBitmap (byteOf j) :=
      Function.update_of_ne (Ne.symm hbyte) _ _
    have hne : i ≠ j := fun heq => hbyte (congrArg byteOf heq)
    rw [hold, decide_eq_false hne, Bool.or_false]

theorem isPageSet_clearPage : (clearPage i m).isPageSet j = (m.isPageSet j && !decide (i = j)) := by
  rw [isPageSet_eq, isPageSet_eq]
  by_cases hbyte : byteOf i = byteOf j
  · have hnew : (clearPage i m).pageBitmap (byteOf j) = m.pageBitmap (byteOf j) &&& ~~~Bits.mask 8 (i.val % 8) := by
      rw [← hbyte]
      exact Function.update_self _ _ _
    rw [hnew, Bits.getLsbD_and_not_mask _ (Nat.mod_lt _ (by decide)), decide_eq_decide.mpr (same_bit hbyte)]
  · have hold : (clearPage i m).pageBitmap (byteOf j) = m.pageBitmap (byteOf j) :=
      Function.update_of_ne (Ne.symm hbyte) _ _
    have hne : i ≠ j := fun heq => hbyte (congrArg byteOf heq)
    rw [hold, decide_eq_false hne, Bool.not_false, Bool.and_true]

end Bitmap

/-! ### Taking and giving back a frame -/

section Frames

variable {m t : Mm} {i j : Fin maxPages}

theorem freeCount_add_usedPages (m : Mm) : m.freeCount + m.usedPages = maxPages := by
  have hlen := List.length_eq_countP_add_countP (fun i => (m.pages i).inUse) (l := List.finRange maxPages)
  rw [List.length_finRange] at hlen
  rw [freeCount, usedPages, Nat.add_comm]
  refine Eq.trans (congrArg _ (List.countP_congr fun i _ => ?_)) hlen.symm
  cases (m.pages i).inUse <;> decide

/-- The frame is taken, and nothing else changes. -/
structure Takes (m : Mm) (i : Fin maxPages) (t : Mm) : Prop where
  free : (m.pages i).inUse = false
  self : t.pages i = { inUse := true, refCount := 1 }
  other : ∀ j, j ≠ i → t.pages j = m.pages j
  bit : ∀ j, t.isPageSet j = (m.isPageSet j || decide (i = j))
  areas : t.vmAreas = m.vmAreas

theorem allocPageInner_some (h : m.nextPage = some i) : Takes m i m.allocPageInner := by
  have hfree : (m.pages i).inUse = false := by simpa using Table.find?_some h
  have heq : m.allocPageInner =
      setPage i { m with pages := Function.update m.pages i { inUse := true, refCount := 1 } } := by
    unfold allocPageInner
    rw [h]
  rw [heq]
  exact ⟨hfree, Function.update_self _ _ _, fun j hj => Function.update_of_ne hj _ _, fun j => isPageSet_setPage, rfl⟩

theorem allocPageInner_none (h : m.nextPage = none) : m.allocPageInner = m := by
  unfold allocPageInner
  rw [h]

theorem Takes.sound (h : Takes m i t) (hm : Sound m) : Sound t := by
  intro j
  by_cases hj : j = i
  · subst hj
    refine ⟨?_, ?_⟩
    · rw [h.self]
      rfl
    · rw [h.bit, h.self, decide_eq_true rfl, Bool.or_true]
  · refine ⟨?_, ?_⟩
    · rw [h.other j hj]
      exact (hm j).count
    · rw [h.bit, h.other j hj, decide_eq_false (Ne.symm hj), Bool.or_false]
      exact (hm j).bit

theorem Takes.pages (h : Takes m i t) : t.pages = Function.update m.pages i { inUse := true, refCount := 1 } := by
  funext j
  by_cases hj : j = i
  · rw [hj, h.self, Function.update_self]
  · rw [h.other j hj, Function.update_of_ne hj]

theorem Takes.usedPages (h : Takes m i t) : t.usedPages = m.usedPages + 1 := by
  have hcount := Table.countP_update m.pages Page.inUse i { inUse := true, refCount := 1 }
  rw [h.free, if_neg Bool.false_ne_true, Nat.add_zero, if_pos rfl] at hcount
  rw [Mm.usedPages, h.pages, hcount, Mm.usedPages]

/-- The frame is given back, and nothing else changes. -/
structure GivesBack (m : Mm) (i : Fin maxPages) (t : Mm) : Prop where
  used : (m.pages i).inUse = true
  self : t.pages i = { inUse := false, refCount := 0 }
  other : ∀ j, j ≠ i → t.pages j = m.pages j
  bit : ∀ j, t.isPageSet j = (m.isPageSet j && !decide (i = j))
  areas : t.vmAreas = m.vmAreas

theorem freePage_used (hm : Sound m) (hused : (m.pages i).inUse = true) : GivesBack m i (freePage i m) := by
  have hone : (m.pages i).refCount = 1 := by
    rw [(hm i).count, hused]
    rfl
  have heq : freePage i m =
      clearPage i { m with pages := Function.update m.pages i { inUse := false, refCount := 0 } } := by
    rw [freePage, hone]
    rfl
  rw [heq]
  exact ⟨hused, Function.update_self _ _ _, fun j hj => Function.update_of_ne hj _ _, fun j => isPageSet_clearPage, rfl⟩

theorem GivesBack.sound (h : GivesBack m i t) (hm : Sound m) : Sound t := by
  intro j
  by_cases hj : j = i
  · subst hj
    refine ⟨?_, ?_⟩
    · rw [h.self]
      rfl
    · rw [h.bit, h.self, decide_eq_true rfl, Bool.not_true, Bool.and_false]
  · refine ⟨?_, ?_⟩
    · rw [h.other j hj]
      exact (hm j).count
    · rw [h.bit, h.other j hj, decide_eq_false (Ne.symm hj), Bool.not_false, Bool.and_true]
      exact (hm j).bit

theorem GivesBack.usedPages (h : GivesBack m i t) : t.usedPages + 1 = m.usedPages := by
  have hpages : t.pages = Function.update m.pages i { inUse := false, refCount := 0 } := by
    funext j
    by_cases hj : j = i
    · rw [hj, h.self, Function.update_self]
    · rw [h.other j hj, Function.update_of_ne hj]
  have hcount := Table.countP_update m.pages Page.inUse i { inUse := false, refCount := 0 }
  rw [h.used, if_pos rfl, if_neg Bool.false_ne_true, Nat.add_zero] at hcount
  rw [Mm.usedPages, hpages, hcount, Nat.add_zero, Mm.usedPages]

/-! ### The frames behind a mapping -/

/-- The frames above the reserve. -/
def available (m : Mm) : Nat := m.freeCount - reservePages

/-- Some frames are taken, and nothing else changes. -/
structure Grows (m : Mm) (n : Nat) (t : Mm) : Prop where
  sound : Sound t
  used : t.usedPages = m.usedPages + n
  keeps : ∀ i, (m.pages i).inUse = true → (t.pages i).inUse = true
  areas : t.vmAreas = m.vmAreas

theorem Grows.refl (hm : Sound m) : Grows m 0 m := ⟨hm, (Nat.add_zero _).symm, fun _ h => h, rfl⟩

theorem Takes.grows (h : Takes m i t) (hm : Sound m) : Grows m 1 t := by
  refine ⟨h.sound hm, h.usedPages, fun j hj => ?_, h.areas⟩
  by_cases hji : j = i
  · rw [hji, h.self]
  · rwa [h.other j hji]

theorem Grows.trans {n n' : Nat} {u : Mm} (h : Grows m n t) (h' : Grows t n' u) : Grows m (n + n') u :=
  ⟨h'.sound, by rw [h'.used, h.used, Nat.add_assoc], fun i hi => h'.keeps i (h.keeps i hi), h'.areas.trans h.areas⟩

/-- A frame is free where the count says so. -/
theorem nextPage_isSome (h : 0 < m.freeCount) : ∃ i, m.nextPage = some i := by
  obtain ⟨i, -, hi⟩ := List.countP_pos_iff.mp h
  exact Table.find?_isSome hi

theorem allocPage_grows (hm : Sound m) : Grows m (min 1 m.available) m.allocPage := by
  rw [allocPage, available]
  by_cases hreserve : m.freeCount ≤ reservePages
  · rw [if_pos hreserve, Nat.sub_eq_zero_of_le hreserve, Nat.min_zero]
    exact .refl hm
  · have hlt := Nat.not_le.mp hreserve
    obtain ⟨i, hi⟩ := nextPage_isSome (Nat.zero_lt_of_lt hlt)
    rw [if_neg hreserve, Nat.min_eq_left (Nat.sub_pos_of_lt hlt)]
    exact (allocPageInner_some hi).grows hm

theorem Grows.available {n : Nat} (h : Grows m n t) : t.available = m.available - n := by
  have hm := freeCount_add_usedPages m
  have ht := freeCount_add_usedPages t
  have hused := h.used
  rw [Mm.available, Mm.available]
  omega

/-- The page loop takes what it needs, but never from the reserve. -/
theorem allocPages_grows (n : Nat) (hm : Sound m) : Grows m (min n m.available) (allocPages n m) := by
  induction n generalizing m with
  | zero =>
      rw [Nat.zero_min]
      exact .refl hm
  | succ n ih =>
      have hfirst := allocPage_grows hm
      have hleft := hfirst.available
      have hrest := hfirst.trans (ih hfirst.sound)
      have hsum : min 1 m.available + min n m.allocPage.available = min (n + 1) m.available := by
        rw [hleft]
        omega
      rwa [hsum] at hrest

end Frames

/-! ### What the other calls do to frames and areas -/

/-- The pages of an anonymous area. -/
def anonPages : Option VmArea → Nat
  | none => 0
  | some vma => if vma.flags &&& mapAnonymous ≠ 0 then (vma.stop - vma.start) / pageSize else 0

section Areas

variable {m t : Mm}

theorem anonPages_newArea (base len prot flags : Nat) : anonPages (some (newArea base len prot flags)) = pagesOf len flags := by
  rw [anonPages, pagesOf, newArea, Nat.add_sub_cancel_left]

theorem anonPages_unmapped_le (addr stop : Nat) (slot : Option VmArea) :
    anonPages (unmapped addr stop slot) ≤ anonPages slot := by
  cases slot with
  | none => exact Nat.le_refl 0
  | some vma =>
      by_cases hwithin : vma.within addr stop
      · rw [unmapped_within hwithin]
        exact Nat.zero_le _
      · rw [unmapped_not hwithin]

/-- Nothing changes but marks of areas. -/
structure Marks (m t : Mm) : Prop where
  pages : SamePages m t
  areas : ∀ i, anonPages (t.vmAreas i) = anonPages (m.vmAreas i)

theorem Marks.refl (m : Mm) : Marks m m := ⟨⟨rfl, rfl⟩, fun _ => rfl⟩

theorem Marks.trans {u : Mm} (h : Marks m t) (h' : Marks t u) : Marks m u :=
  ⟨⟨h'.pages.1.trans h.pages.1, h'.pages.2.trans h.pages.2⟩, fun i => (h'.areas i).trans (h.areas i)⟩

theorem Marks.update {i : Fin maxVmAreas} {vma vma' : VmArea} (hi : m.vmAreas i = some vma)
    (hsame : anonPages (some vma') = anonPages (some vma)) :
    Marks m { m with vmAreas := Function.update m.vmAreas i (some vma') } := by
  refine ⟨⟨rfl, rfl⟩, fun j => ?_⟩
  dsimp only
  by_cases hj : j = i
  · rw [hj, Function.update_self, hi, hsame]
  · rw [Function.update_of_ne hj]

theorem markCowLoop_marks {addr stop n r : Nat} {slots : List (Fin maxVmAreas)}
    (h : markCowLoop addr stop n slots m = (.ok r, t)) : Marks m t := by
  induction slots generalizing m n with
  | nil =>
      cases h
      exact .refl _
  | cons i rest ih =>
      rw [markCowLoop, Act.get_bind_run] at h
      cases hi : m.vmAreas i with
      | none =>
          rw [hi] at h
          exact ih h
      | some vma =>
          rw [hi] at h
          dsimp only at h
          split at h
          · obtain ⟨len, -, hrest⟩ := Act.lift_bind_run_eq_ok h
            obtain ⟨cowPages, -, hrest⟩ := Act.lift_bind_run_eq_ok hrest
            rw [Act.modify_bind_run] at hrest
            obtain ⟨n', -, hrest⟩ := Act.lift_bind_run_eq_ok hrest
            have hmarks := @Marks.update m i vma { vma with cow := true, cowPages } hi rfl
            exact hmarks.trans (ih hrest)
          · exact ih h

theorem markCowRange_marks {addr len r : Nat} (h : markCowRange addr len m = (.ok r, t)) : Marks m t := by
  obtain ⟨stop, -, hrest⟩ := Act.lift_bind_run_eq_ok h
  exact markCowLoop_marks hrest

theorem findCow_area {addr : Nat} {i : Fin maxVmAreas} {vma : VmArea} (h : m.findCow addr = some (i, vma)) :
    m.vmAreas i = some vma := by
  obtain ⟨j, -, hj⟩ := Option.bind_eq_some_iff.mp h
  obtain ⟨v, hv, hcow⟩ := Option.bind_eq_some_iff.mp hj
  split at hcow
  · cases hcow
    exact hv
  · cases hcow

/-- A copy takes a frame from the reserve too, and marks the area. -/
theorem cowFault_result {addr : Nat} {r : Option (Fin maxPages)} (h : cowFault addr m = (.ok r, t)) :
    (r = none ∧ t = m) ∨ ∃ i u, r = some i ∧ Takes m i u ∧ Marks u t := by
  rw [cowFault, Act.get_bind_run] at h
  cases hfound : m.findCow addr with
  | none =>
      rw [hfound] at h
      cases h
      exact Or.inl ⟨rfl, rfl⟩
  | some found =>
      cases hpage : m.nextPage with
      | none =>
          rw [hfound, hpage] at h
          cases h
          exact Or.inl ⟨rfl, rfl⟩
      | some page =>
          rw [hfound, hpage] at h
          cases h
          have htakes := allocPageInner_some hpage
          refine Or.inr ⟨page, m.allocPageInner, rfl, htakes, @Marks.update _ _ found.2 _ ?_ rfl⟩
          rw [htakes.areas]
          exact findCow_area hfound

theorem Marks.sound (h : Marks m t) (hm : Sound m) : Sound t := by
  intro i
  have hpage : t.pages i = m.pages i := congrFun h.pages.1 i
  refine ⟨?_, ?_⟩
  · rw [hpage]
    exact (hm i).count
  · rw [hpage, isPageSet, h.pages.2]
    exact (hm i).bit

theorem Marks.usedPages (h : Marks m t) : t.usedPages = m.usedPages := by
  rw [Mm.usedPages, h.pages.1, Mm.usedPages]

end Areas

/-! ### Runs -/

/-- The memory with the frames that callers have obtained and not given back. -/
structure Books where
  mm : Mm := {}
  owned : Finset (Fin maxPages) := ∅

/-- The frames once a call has handed out one. -/
def Books.obtain (s : Books) (page : Option (Fin maxPages)) : Finset (Fin maxPages) :=
  match page with
  | none => s.owned
  | some i => insert i s.owned

inductive FrameCall where
  | allocPage
  | allocPageAtomic
  | freePage (i : Fin maxPages)
  | mmap (addr len prot flags : Nat)
  | munmap (addr len : Nat)
  | markCowRange (addr len : Nat)
  | cowFault (addr : Nat)

namespace FrameCall

/-- The calls that return. A caller frees a page that it has obtained, and frees it once. -/
inductive Step (s : Books) : FrameCall → Books → Prop where
  | allocPage : Step s .allocPage ⟨s.mm.allocPage, s.obtain s.mm.grantedPage⟩
  | allocPageAtomic : Step s .allocPageAtomic ⟨s.mm.allocPageInner, s.obtain s.mm.nextPage⟩
  | freePage {i : Fin maxPages} (hi : i ∈ s.owned) : Step s (.freePage i) ⟨Mm.freePage i s.mm, s.owned.erase i⟩
  | mmap {addr len prot flags : Nat} {r : Option Nat} {m : Mm} (h : Mm.mmap addr len prot flags s.mm = (.ok r, m)) :
      Step s (.mmap addr len prot flags) ⟨m, s.owned⟩
  | munmap {addr len : Nat} {r : Int} {m : Mm} (h : Mm.munmap addr len s.mm = (.ok r, m)) :
      Step s (.munmap addr len) ⟨m, s.owned⟩
  | markCowRange {addr len r : Nat} {m : Mm} (h : Mm.markCowRange addr len s.mm = (.ok r, m)) :
      Step s (.markCowRange addr len) ⟨m, s.owned⟩
  | cowFault {addr : Nat} {r : Option (Fin maxPages)} {m : Mm} (h : Mm.cowFault addr s.mm = (.ok r, m)) :
      Step s (.cowFault addr) ⟨m, s.obtain r⟩

end FrameCall

/-- The three representations of a frame agree. -/
def Consistent (m : Mm) : Prop := ∀ i, ((m.pages i).inUse = true ↔ 0 < (m.pages i).refCount) ∧
  m.isPageSet i = (m.pages i).inUse

/-- Every frame in use is accounted for. -/
def Books.Balanced (s : Books) : Prop := s.mm.usedPages = s.owned.card + ∑ i, anonPages (s.mm.vmAreas i)

/-- The call does not take frames out of the reserve. -/
def KeepsReserve (m t : Mm) : Prop := reservePages ≤ t.freeCount ∨ t.freeCount = m.freeCount

/-- The frames for `n` pages are there without the reserve. -/
def Gets (m : Mm) (n : Nat) : Prop := n ≤ m.available

/-- What is expected of a call. -/
def FrameCall.Accounted (s : Books) (c : FrameCall) (t : Books) : Prop := Consistent t.mm ∧ t.Balanced ∧
  match c with
  | allocPage => KeepsReserve s.mm t.mm
  | mmap addr len prot flags => KeepsReserve s.mm t.mm ∧
      (¬Gets s.mm (pagesOf len flags) → Mm.mmap addr len prot flags s.mm = (.ok none, s.mm))
  | _ => True

/-- An anonymous mapping has all its frames, or is refused at the address that is asked for; and what is taken away has
no anonymous pages. -/
def FrameCall.Covered (m : Mm) : FrameCall → Prop
  | mmap addr len _ flags => Gets m (pagesOf len flags) ∨ addr ≠ 0 ∧ ¬Accepts m addr len flags
  | munmap addr len => ∀ i vma, m.vmAreas i = some vma → vma.within addr (addr + alignUp len) → anonPages (some vma) = 0
  | _ => True

/-- The books are in order. -/
structure Books.Good (s : Books) : Prop where
  sound : Sound s.mm
  owned : ∀ i ∈ s.owned, (s.mm.pages i).inUse = true
  balanced : s.Balanced

section Steps

variable {s t : Books}

theorem Sound.consistent {m : Mm} (h : Sound m) : Consistent m := by
  intro i
  refine ⟨?_, (h i).bit⟩
  rw [(h i).count]
  cases (m.pages i).inUse <;> decide

theorem Books.Good.accounted (h : t.Good) {c : FrameCall} (hrest : (match c with
    | .allocPage => KeepsReserve s.mm t.mm
    | .mmap addr len prot flags => KeepsReserve s.mm t.mm ∧
        (¬Gets s.mm (pagesOf len flags) → Mm.mmap addr len prot flags s.mm = (.ok none, s.mm))
    | _ => True : Prop)) : c.Accounted s t :=
  ⟨h.sound.consistent, h.balanced, by cases c <;> exact hrest⟩

/-- A frame is handed out. -/
theorem Books.Good.takes (hs : s.Good) {i : Fin maxPages} {m : Mm} (h : Takes s.mm i m) :
    Books.Good ⟨m, insert i s.owned⟩ := by
  have hnew : i ∉ s.owned := fun hi => by
    have hused := hs.owned i hi
    rw [h.free] at hused
    cases hused
  refine ⟨h.sound hs.sound, fun j hj => ?_, ?_⟩
  · rcases Finset.mem_insert.mp hj with rfl | hold
    · rw [h.self]
    · exact (h.grows hs.sound).keeps j (hs.owned j hold)
  · rw [Balanced, h.usedPages, h.areas, Finset.card_insert_of_notMem hnew, hs.balanced]
    omega

theorem Books.Good.marks (hs : s.Good) {m : Mm} (h : Marks s.mm m) : Books.Good ⟨m, s.owned⟩ := by
  refine ⟨h.sound hs.sound, fun i hi => ?_, ?_⟩
  · rw [h.pages.1]
    exact hs.owned i hi
  · rw [Balanced, h.usedPages, hs.balanced, Finset.sum_congr rfl fun i _ => h.areas i]

/-- A frame is given back. -/
theorem Books.Good.givesBack (hs : s.Good) {i : Fin maxPages} (hi : i ∈ s.owned) {m : Mm} (h : GivesBack s.mm i m) :
    Books.Good ⟨m, s.owned.erase i⟩ := by
  refine ⟨h.sound hs.sound, fun j hj => ?_, ?_⟩
  · obtain ⟨hne, hmem⟩ := Finset.mem_erase.mp hj
    rw [h.other j hne]
    exact hs.owned j hmem
  · have hused := h.usedPages
    have hcard := Finset.card_erase_add_one hi
    have hbalanced := hs.balanced
    rw [Balanced] at hbalanced ⊢
    dsimp only
    rw [h.areas]
    omega

theorem keepsReserve_takes {m u : Mm} {i : Fin maxPages} (h : Takes m i u) (hfree : reservePages < m.freeCount) :
    KeepsReserve m u := by
  have hm := freeCount_add_usedPages m
  have hu := freeCount_add_usedPages u
  have hused := h.usedPages
  exact Or.inl (by omega)

theorem keepsReserve_grows {m u : Mm} {n : Nat} (h : Grows m (min n m.available) u) : KeepsReserve m u := by
  have hm := freeCount_add_usedPages m
  have hu := freeCount_add_usedPages u
  have hused := h.used
  rw [Mm.available] at hused
  rw [KeepsReserve]
  omega

/-- `allocPage` hands out the next frame or none. -/
theorem allocPage_good (hs : s.Good) : Books.Good ⟨s.mm.allocPage, s.obtain s.mm.grantedPage⟩ ∧
    KeepsReserve s.mm s.mm.allocPage := by
  by_cases hreserve : s.mm.freeCount ≤ reservePages
  · have hsame : s.mm.allocPage = s.mm := if_pos hreserve
    have hnone : s.mm.grantedPage = none := if_pos hreserve
    rw [hsame, hnone]
    exact ⟨hs, Or.inr rfl⟩
  · have hlt := Nat.not_le.mp hreserve
    obtain ⟨i, hi⟩ := nextPage_isSome (Nat.zero_lt_of_lt hlt)
    have hpage : s.mm.allocPage = s.mm.allocPageInner := if_neg hreserve
    have hsome : s.mm.grantedPage = some i := (if_neg hreserve).trans hi
    rw [hpage, hsome]
    exact ⟨hs.takes (allocPageInner_some hi), keepsReserve_takes (allocPageInner_some hi) hlt⟩

theorem allocPageAtomic_good (hs : s.Good) : Books.Good ⟨s.mm.allocPageInner, s.obtain s.mm.nextPage⟩ := by
  cases hpage : s.mm.nextPage with
  | none =>
      rw [allocPageInner_none hpage]
      exact hs
  | some i => exact hs.takes (allocPageInner_some hpage)

theorem room_pos (len : Nat) : 0 < room len := Nat.lt_of_lt_of_le (by decide) (Nat.le_add_left (pageSize * 256) _)

/-- `mmap` that maps nothing. -/
theorem mmap_refused (hs : s.Good) {addr len prot flags : Nat} (hnot : ¬Accepts s.mm addr len flags)
    (h : Mm.mmap addr len prot flags s.mm = (.ok none, { s.mm with nextAnonAddr := nextOf s.mm addr len })) :
    Books.Good ⟨{ s.mm with nextAnonAddr := nextOf s.mm addr len }, s.owned⟩ ∧
      ((.mmap addr len prot flags : FrameCall).Accounted s
          ⟨{ s.mm with nextAnonAddr := nextOf s.mm addr len }, s.owned⟩ ↔
        (.mmap addr len prot flags : FrameCall).Covered s.mm) := by
  have hgood : Books.Good ⟨{ s.mm with nextAnonAddr := nextOf s.mm addr len }, s.owned⟩ :=
    hs.marks ⟨⟨rfl, rfl⟩, fun _ => rfl⟩
  have hcovered : (.mmap addr len prot flags : FrameCall).Covered s.mm ↔ Gets s.mm (pagesOf len flags) ∨ addr ≠ 0 :=
    or_congr Iff.rfl (and_iff_left hnot)
  refine ⟨hgood, ?_⟩
  rw [hcovered]
  constructor
  · rintro ⟨-, -, -, hfailed⟩
    by_contra hneither
    rw [not_or, not_not] at hneither
    have hrun := h.symm.trans (hfailed hneither.1)
    have hnext : nextOf s.mm addr len = s.mm.nextAnonAddr := congrArg Mm.nextAnonAddr (Prod.mk.inj hrun).2
    rw [nextOf, if_pos hneither.2] at hnext
    exact absurd hnext (Nat.ne_of_gt (Nat.lt_add_of_pos_right (room_pos len)))
  · intro hcase
    refine hgood.accounted ⟨Or.inr rfl, fun hgets => ?_⟩
    have haddr := hcase.resolve_left hgets
    rw [nextOf, if_neg haddr] at h
    exact h

/-- `mmap` that makes an area. -/
theorem mmap_mapped (hs : s.Good) {addr len prot flags count : Nat} {slot : Fin maxVmAreas} {m : Mm}
    (haccepts : Accepts s.mm addr len flags) (hslot : s.mm.findFreeVmaSlot = some slot)
    (hm : m = allocPages (pagesOf len flags) { s.mm with
      vmAreas := Function.update s.mm.vmAreas slot (some (newArea (baseOf s.mm addr) len prot flags))
      vmAreaCount := count, nextAnonAddr := nextOf s.mm addr len })
    (h : Mm.mmap addr len prot flags s.mm = (.ok (some (baseOf s.mm addr)), m)) :
    ((.mmap addr len prot flags : FrameCall).Covered s.mm → Books.Good ⟨m, s.owned⟩) ∧
      ((.mmap addr len prot flags : FrameCall).Accounted s ⟨m, s.owned⟩ ↔
        (.mmap addr len prot flags : FrameCall).Covered s.mm) := by
  have hcovered : (.mmap addr len prot flags : FrameCall).Covered s.mm ↔ Gets s.mm (pagesOf len flags) :=
    or_iff_left fun hand => hand.2 haccepts
  have hfree : s.mm.vmAreas slot = none := Option.isNone_iff_eq_none.mp (Table.find?_some hslot)
  set inserted : Mm := { s.mm with
    vmAreas := Function.update s.mm.vmAreas slot (some (newArea (baseOf s.mm addr) len prot flags))
    vmAreaCount := count, nextAnonAddr := nextOf s.mm addr len } with hinserted
  have hsound : Sound inserted := fun i => ⟨(hs.sound i).count, (hs.sound i).bit⟩
  have hgrows : Grows inserted (min (pagesOf len flags) s.mm.available) m := by
    rw [hm]
    exact allocPages_grows (pagesOf len flags) hsound
  have hsum := Table.sum_update s.mm.vmAreas anonPages slot (some (newArea (baseOf s.mm addr) len prot flags))
  have hzero : anonPages none = 0 := rfl
  rw [hfree, anonPages_newArea, hzero, Nat.add_zero] at hsum
  have hgood (hgets : Gets s.mm (pagesOf len flags)) : Books.Good ⟨m, s.owned⟩ := by
    refine ⟨hgrows.sound, fun i hi => hgrows.keeps i (hs.owned i hi), ?_⟩
    have hused : m.usedPages = s.mm.usedPages + pagesOf len flags := by
      rw [hgrows.used, Nat.min_eq_left hgets]
      rfl
    have hbalanced := hs.balanced
    rw [Books.Balanced] at hbalanced ⊢
    dsimp only
    rw [hgrows.areas, hused, hbalanced, Nat.add_assoc]
    exact congrArg (s.owned.card + ·) hsum.symm
  rw [hcovered]
  refine ⟨hgood, ?_, fun hgets => ?_⟩
  · rintro ⟨-, -, -, hfailed⟩
    by_contra hgets
    have hrun := h.symm.trans (hfailed hgets)
    exact Option.some_ne_none _ (Outcome.ok.inj (congrArg Prod.fst hrun))
  · have hkeeps : KeepsReserve s.mm m := keepsReserve_grows (m := inserted) hgrows
    exact (hgood hgets).accounted ⟨hkeeps, fun hnot => absurd hgets hnot⟩

/-- `munmap` gives no frame back. -/
theorem munmap_good (hs : s.Good) {addr len : Nat} {r : Int} {m : Mm} (h : Mm.munmap addr len s.mm = (.ok r, m)) :
    ((.munmap addr len : FrameCall).Covered s.mm → Books.Good ⟨m, s.owned⟩) ∧
      ((.munmap addr len : FrameCall).Accounted s ⟨m, s.owned⟩ ↔ (.munmap addr len : FrameCall).Covered s.mm) := by
  obtain ⟨hareas, hpages, -⟩ := munmap_result h
  have hle (i : Fin maxVmAreas) : anonPages (m.vmAreas i) ≤ anonPages (s.mm.vmAreas i) := by
    rw [hareas i]
    exact anonPages_unmapped_le _ _ _
  have hused : m.usedPages = s.mm.usedPages := by
    rw [Mm.usedPages, hpages.1, Mm.usedPages]
  have hsums : Books.Balanced ⟨m, s.owned⟩ ↔ ∀ i, anonPages (m.vmAreas i) = anonPages (s.mm.vmAreas i) := by
    have hbalanced := hs.balanced
    rw [Books.Balanced] at hbalanced ⊢
    dsimp only
    rw [hused, hbalanced, Nat.add_left_cancel_iff, eq_comm, Finset.sum_eq_sum_iff_of_le fun i _ => hle i]
    exact ⟨fun hall i => hall i (Finset.mem_univ i), fun hall i _ => hall i⟩
  have hcovered : (∀ i, anonPages (m.vmAreas i) = anonPages (s.mm.vmAreas i)) ↔
      (.munmap addr len : FrameCall).Covered s.mm := by
    refine ⟨fun hall i vma hi hwithin => ?_, fun hcovered i => ?_⟩
    · rw [← hi, ← hall i, hareas i, hi, unmapped_within hwithin]
      rfl
    · rw [hareas i]
      cases hi : s.mm.vmAreas i with
      | none => rfl
      | some vma =>
          by_cases hwithin : vma.within addr (addr + alignUp len)
          · rw [unmapped_within hwithin, hcovered i vma hi hwithin]
            rfl
          · rw [unmapped_not hwithin]
  have hgood (hbalanced : Books.Balanced ⟨m, s.owned⟩) : Books.Good ⟨m, s.owned⟩ := by
    refine ⟨fun i => ?_, fun i hi => ?_, hbalanced⟩
    · have hpage : m.pages i = s.mm.pages i := congrFun hpages.1 i
      refine ⟨?_, ?_⟩
      · rw [hpage]
        exact (hs.sound i).count
      · rw [hpage, isPageSet, hpages.2]
        exact (hs.sound i).bit
    · rw [hpages.1]
      exact hs.owned i hi
  rw [← hcovered, ← hsums]
  exact ⟨hgood, fun hacc => hacc.2.1, fun hbalanced => (hgood hbalanced).accounted True.intro⟩

/-- A call is accounted for exactly if it is covered, and then the books are in order after it. -/
theorem FrameCall.step_iff (hs : s.Good) {c : FrameCall} (h : Step s c t) :
    (c.Covered s.mm → t.Good) ∧ (c.Accounted s t ↔ c.Covered s.mm) := by
  have hplain {u : Books} {c : FrameCall} (hu : u.Good) (haccounted : c.Accounted s u) (hcovered : c.Covered s.mm) :
      (c.Covered s.mm → u.Good) ∧ (c.Accounted s u ↔ c.Covered s.mm) :=
    ⟨fun _ => hu, iff_of_true haccounted hcovered⟩
  cases h with
  | allocPage =>
      obtain ⟨hgood, hkeeps⟩ := allocPage_good hs
      refine hplain hgood (hgood.accounted ?_) True.intro
      dsimp only
      exact hkeeps
  | allocPageAtomic =>
      have hgood := allocPageAtomic_good hs
      exact hplain hgood (hgood.accounted True.intro) True.intro
  | freePage hi =>
      have hgood := hs.givesBack hi (freePage_used hs.sound (hs.owned _ hi))
      exact hplain hgood (hgood.accounted True.intro) True.intro
  | mmap h =>
      rename_i addr len prot flags r m
      have hresult := mmap_result h
      cases hresult with
      | refused hnot =>
          obtain ⟨hgood, hiff⟩ := mmap_refused hs hnot h
          exact ⟨fun _ => hgood, hiff⟩
      | mapped count haccepts hslot => exact mmap_mapped hs haccepts hslot rfl h
  | munmap h => exact munmap_good hs h
  | markCowRange h =>
      have hgood := hs.marks (markCowRange_marks h)
      exact hplain hgood (hgood.accounted True.intro) True.intro
  | cowFault h =>
      rcases cowFault_result h with ⟨rfl, rfl⟩ | ⟨i, u, rfl, htakes, hmarks⟩
      · exact hplain hs (hs.accounted True.intro) True.intro
      · have hgood := (hs.takes htakes).marks hmarks
        exact hplain hgood (hgood.accounted True.intro) True.intro

end Steps

theorem usedPages_init : ({} : Mm).usedPages = 0 := List.countP_eq_zero.mpr fun _ _ => Bool.false_ne_true

theorem Books.good_init : Books.Good {} := by
  refine ⟨fun i => ⟨rfl, ?_⟩, fun i hi => absurd hi (Finset.notMem_empty i), ?_⟩
  · rw [isPageSet_eq]
    exact BitVec.getLsbD_zero
  · rw [Books.Balanced]
    dsimp only
    rw [usedPages_init, Finset.card_empty, Nat.zero_add]
    exact (Finset.sum_eq_zero fun _ _ => rfl).symm

/-- In a run of the calls every frame is accounted for after every call exactly if every call is covered. -/
theorem fault_frames_accounted (calls : List FrameCall) (t : Books) :
    Runs.Run (fun s c t => FrameCall.Step s c t ∧ c.Accounted s t) {} calls t ↔
      Runs.Run (fun s c t => FrameCall.Step s c t ∧ c.Covered s.mm) {} calls t :=
  Runs.Run.along_iff (I := Books.Good) (B := fun s (c : FrameCall) _ => c.Covered s.mm) Books.good_init
    (fun _ _ _ hs hstep => (FrameCall.step_iff hs hstep).2) fun _ _ _ hs hstep => (FrameCall.step_iff hs hstep).1

/-- All frames at once, of which the reserve cannot be had. -/
def hugeMapping : FrameCall := .mmap 0x10000 0x1000000 3 0x22

/-- The value of a call that is known, with the state that it leaves. -/
theorem run_of_value {α : Type} {call : Run α} {m : Mm} {o : Outcome Spins α} (h : (call m).1 = o) :
    call m = (o, (call m).2) := by
  rw [← h]

/-- An anonymous mapping is made although it does not get its frames. -/
theorem huge_mapping_not_refused : ¬∀ calls t, Runs.Run FrameCall.Step {} calls t →
    Runs.Run (fun s c t => FrameCall.Step s c t ∧ c.Accounted s t) {} calls t := by
  intro h
  have hvalue : (Mm.mmap 0x10000 0x1000000 3 0x22 {}).1 = .ok (some 0x10000) := rfl
  have hmmap : Mm.mmap 0x10000 0x1000000 3 0x22 {} = _ := run_of_value hvalue
  obtain ⟨t, ⟨-, -, -, -, hfailed⟩, -⟩ := (h [hugeMapping] _ (.single (.mmap hmmap))).cons_inv
  have hpages : pagesOf 0x1000000 0x22 = 4096 := by decide
  have hfree := freeCount_add_usedPages {}
  rw [usedPages_init, Nat.add_zero] at hfree
  have hgets : ¬Gets {} (pagesOf 0x1000000 0x22) := by
    rw [Gets, hpages, available, hfree]
    decide
  have hrun := hmmap.symm.trans (hfailed hgets)
  exact Option.some_ne_none _ (Outcome.ok.inj (congrArg Prod.fst hrun))

end Kernel.Mm
