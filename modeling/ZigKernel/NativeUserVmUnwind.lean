import ZigKernel.NativePmmSound
import ZigKernel.NativeUserVmBuild
import ZigKernel.NativeUserVmPmm

/-! User spaces over the page allocator. A space takes pages from the top of the free stack and gives them
back last one first, so that a construction that fails, or one that is torn down, leaves the allocator as
it was. -/

namespace Native

open Zig

namespace UserVmPmm

open UserVm (Machine Journal AddressSpace KernelTemplate Vm Steady maxOwnedFrames)

/-- Some pages of `pmm₀` are out with a space: `live`, oldest first. The rest of the allocator is as in
`pmm₀`, and what has come back was zero, but for page 0. -/
structure Lent (info : BootInfo) (pmm₀ : Pmm) (held₀ live : List Nat) (h : Host) : Prop where
  stack : pmm₀.freeStack = live ++ h.pmm.freeStack
  pmm : h.pmm = { pmm₀ with freeStack := h.pmm.freeStack, usedPages := pmm₀.usedPages + live.length }
  sound : Pmm.Sound info h.pmm (live.reverse ++ held₀)
  adapter : h.adapter.live = live
  room : h.adapter.count ≤ h.adapter.owned.length
  nonzero : 0 ∉ live
  zeroed : ∀ e ∈ h.returned, e.1 ≠ 0 → e.2 = UserVm.zeroPage

variable {info : BootInfo} {pmm₀ : Pmm} {held₀ live : List Nat} {h : Host} {p : Nat}

theorem Adapter.live_push {a : Adapter} (hroom : a.count < a.owned.length) (phys : Nat) :
    (a.push phys).live = a.live ++ [phys] := by
  have hlength : a.count < (a.owned.set a.count phys).length := by
    rw [List.length_set]
    exact hroom
  rw [Adapter.live, Adapter.push, List.take_succ_eq_append_getElem hlength, List.getElem_set_self,
    List.take_set_of_le (Nat.le_refl _), Adapter.live]

/-- Removing the newest page leaves the others in place. -/
theorem Adapter.live_swapRemove {a : Adapter} {rest : List Nat} (hroom : a.count ≤ a.owned.length)
    (hlive : a.live = rest ++ [p]) : (a.swapRemove (a.count - 1)).live = rest ∧ a.count = rest.length + 1 := by
  have hlength : a.live.length = a.count := by
    rw [Adapter.live, List.length_take, Nat.min_eq_left hroom]
  have hcount : a.count = rest.length + 1 := by
    rw [← hlength, hlive, List.length_append, List.length_singleton]
  refine ⟨?_, hcount⟩
  have hprefix : a.owned.take rest.length = a.live.take rest.length := by
    rw [Adapter.live, List.take_take, Nat.min_eq_left (by omega)]
  rw [Adapter.live, Adapter.swapRemove, hcount, Nat.add_sub_cancel, List.take_set_of_le (Nat.le_refl _), hprefix, hlive,
    List.take_left]

theorem idxOf?_last {rest : List Nat} (h : p ∉ rest) : (rest ++ [p]).idxOf? p = some rest.length := by
  induction rest with
  | nil => rw [List.nil_append, List.idxOf?_singleton, if_pos BEq.rfl, List.length_nil]
  | cons a rest ih =>
      rw [List.mem_cons, not_or] at h
      have hne : ¬(a == p) = true := fun heq => h.1 (LawfulBEq.eq_of_beq heq).symm
      rw [List.cons_append, List.idxOf?_cons, if_neg hne, ih h.2, List.length_cons]
      rfl

namespace Lent

/-! ### Taking a page -/

theorem frame_of_live (hl : Lent info pmm₀ held₀ live h) (hp : p ∈ live) : Pmm.Frame info p := by
  refine (hl.sound.frames p).mp (List.mem_append_right _ (List.mem_append_left _ ?_))
  exact List.mem_reverse.mpr hp

theorem frame_of_free (hl : Lent info pmm₀ held₀ live h) (hp : p ∈ h.pmm.freeStack) : Pmm.Frame info p :=
  (hl.sound.frames p).mp (List.mem_append_left _ hp)

/-- A page on top of the free stack is not out. -/
theorem top_fresh (hl : Lent info pmm₀ held₀ live h) {rest : List Nat} (hstack : h.pmm.freeStack = p :: rest) :
    p ∉ live := by
  intro hmem
  have hdisjoint := (List.nodup_append.mp hl.sound.nodup).2.2
  refine hdisjoint p (hstack ▸ List.mem_cons_self) p ?_ rfl
  exact List.mem_append_left _ (List.mem_reverse.mpr hmem)

/-- Popping a page. -/
theorem popped (hl : Lent info pmm₀ held₀ live h) {rest : List Nat} (hstack : h.pmm.freeStack = p :: rest) :
    h.pmm.allocPage = (some p, { h.pmm with freeStack := rest, usedPages := h.pmm.usedPages + 1 }) ∧
      Pmm.Sound info { h.pmm with freeStack := rest, usedPages := h.pmm.usedPages + 1 }
        (p :: (live.reverse ++ held₀)) := by
  have hrun : h.pmm.allocPage = (some p, { h.pmm with freeStack := rest, usedPages := h.pmm.usedPages + 1 }) := by
    rw [Pmm.allocPage, if_neg (not_not.mpr hl.sound.initialized), hstack]
  have hsound := hl.sound.step Pmm.Step.alloc
  rw [hrun] at hsound
  exact ⟨hrun, hsound⟩

/-- Pushing a popped page back restores the allocator. -/
theorem pushed_back (hl : Lent info pmm₀ held₀ live h) {rest : List Nat} (hstack : h.pmm.freeStack = p :: rest) :
    ({ h.pmm with freeStack := rest, usedPages := h.pmm.usedPages + 1 } : Pmm).freePage p = (true, h.pmm) := by
  rcases (hl.popped hstack).2.freePage_cases p with ⟨-, hrun⟩ | ⟨hnot, -⟩
  · rw [hrun]
    simp only [Nat.add_sub_cancel, ← hstack]
  · exact absurd List.mem_cons_self hnot

theorem alloc_cases (hl : Lent info pmm₀ held₀ live h) :
    (∃ e h', h.allocPage = (.error e, h') ∧ Lent info pmm₀ held₀ live h') ∨
      ∃ p h', h.allocPage = (.ok p, h') ∧ Lent info pmm₀ held₀ (live ++ [p]) h' ∧ p ≠ 0 ∧ p ∉ live ∧
        Pmm.Frame info p := by
  rw [Host.allocPage]
  by_cases hfull : h.adapter.count ≥ h.adapter.owned.length
  · rw [if_pos hfull]
    exact Or.inl ⟨_, h, rfl, hl⟩
  rw [if_neg hfull]
  rcases hl.sound.allocPage_cases with hnone | ⟨p, rest, hstack, -⟩
  · rw [hnone]
    exact Or.inl ⟨_, h, rfl, hl⟩
  obtain ⟨hpop, hsound⟩ := hl.popped hstack
  rw [hpop]
  simp only
  by_cases hzero : p = 0
  · subst hzero
    rw [if_pos rfl, Host.pmmFree, hl.pushed_back hstack]
    refine Or.inl ⟨_, _, rfl, { hl with zeroed := fun e he hne => ?_ }⟩
    rcases List.mem_append.mp he with he | he
    · exact hl.zeroed e he hne
    · rw [List.mem_singleton] at he
      exact absurd (congrArg Prod.fst he) hne
  have hmem : p ∈ h.pmm.freeStack := hstack ▸ List.mem_cons_self
  have hframe := hl.frame_of_free hmem
  have hdomain : Pmm.inManagedDomain p = true := decide_eq_true ⟨hframe.1, hframe.2.1⟩
  have hfresh := hl.top_fresh hstack
  have howns : ¬h.adapter.owns p = true := by
    rw [Adapter.owns, hl.adapter, List.contains_iff_mem]
    exact hfresh
  rw [if_neg hzero, if_neg (not_not.mpr hframe.1), if_neg (not_not.mpr hdomain),
    if_neg (not_not.mpr (hsound.isAllocatable_iff.mpr hframe)), if_neg howns]
  refine Or.inr ⟨p, _, rfl, ?_, hzero, hfresh, hframe⟩
  constructor
  · rw [List.append_assoc]
    exact hl.stack.trans (congrArg (live ++ ·) hstack)
  · have hcount : pmm₀.usedPages + (live ++ [p]).length = pmm₀.usedPages + live.length + 1 := by
      rw [List.length_append, List.length_singleton, Nat.add_assoc]
    rw [hcount]
    have hpmm := hl.pmm
    simp only [Host.own]
    rw [hpmm]
  · rw [List.reverse_append, List.reverse_singleton, List.singleton_append, List.cons_append]
    exact hsound
  · exact (Adapter.live_push (Nat.lt_of_not_ge hfull) p).trans (congrArg (· ++ [p]) hl.adapter)
  · show h.adapter.count + 1 ≤ (h.adapter.owned.set _ _).length
    rw [List.length_set]
    exact Nat.lt_of_not_ge hfull
  · rw [List.mem_append, List.mem_singleton]
    exact fun hmem => hmem.elim hl.nonzero fun heq => hzero heq.symm
  · exact hl.zeroed

/-! ### Giving pages back -/

/-- The newest page is scrubbed and goes back on top of the free stack. -/
theorem offer_run {rest : List Nat} (hl : Lent info pmm₀ held₀ (rest ++ [p]) h) :
    ∃ h', UserVm.offer (provider native) p h = (true, h') ∧ Lent info pmm₀ held₀ rest h' := by
  have hlast : p ∈ rest ++ [p] := List.mem_append_right _ List.mem_cons_self
  have hne : p ≠ 0 := fun heq => hl.nonzero (heq ▸ hlast)
  have hframe := hl.frame_of_live hlast
  have hdomain : Pmm.inManagedDomain p = true := decide_eq_true ⟨hframe.1, hframe.2.1⟩
  have howns : h.adapter.owns p = true := by
    rw [Adapter.owns, hl.adapter, List.contains_iff_mem]
    exact hlast
  have hbytes : h.pageBytes native p = .ok p := by
    rw [Host.pageBytes, if_neg hne, if_neg (not_not.mpr hframe.1), if_neg (not_not.mpr hdomain),
      if_neg (not_not.mpr howns)]
    rfl
  have hreverse : (rest ++ [p]).reverse ++ held₀ = p :: (rest.reverse ++ held₀) := by
    rw [List.reverse_append, List.reverse_singleton, List.singleton_append, List.cons_append]
  have hsound := hl.sound
  rw [hreverse] at hsound
  have hnew : p ∉ rest := by
    have hnodup := (List.nodup_append.mp hsound.nodup).2.1
    exact fun hmem => (List.nodup_cons.mp hnodup).1 (List.mem_append_left _ (List.mem_reverse.mpr hmem))
  rcases hsound.freePage_cases p with ⟨-, hfree⟩ | ⟨hnot, -⟩
  swap
  · exact absurd List.mem_cons_self hnot
  have hstep := hsound.step (Pmm.Step.free p)
  rw [hfree] at hstep
  obtain ⟨hlive, hcount⟩ := Adapter.live_swapRemove hl.room hl.adapter
  have hindex : h.adapter.indexOf p = some (h.adapter.count - 1) := by
    rw [Adapter.indexOf, hl.adapter, idxOf?_last hnew, hcount, Nat.add_sub_cancel]
  rw [UserVm.offer, UserVm.scrubbed]
  simp only [provider, hbytes, Host.freePage, hindex, Host.pmmFree, hfree]
  refine ⟨_, rfl, ?_⟩
  constructor
  · rw [hl.stack, List.append_assoc, List.singleton_append]
  · have hpmm := hl.pmm
    rw [List.length_append, List.length_singleton] at hpmm
    simp only
    rw [hpmm]
    rfl
  · rw [Pmm.heldAfter, List.erase_cons_head] at hstep
    exact hstep
  · exact hlive
  · show h.adapter.count - 1 ≤ (h.adapter.owned.set _ _).length
    rw [List.length_set]
    exact Nat.le_trans (Nat.sub_le _ _) hl.room
  · exact fun hmem => hl.nonzero (List.mem_append_left _ hmem)
  · intro e he hne'
    rcases List.mem_append.mp he with he | he
    · exact hl.zeroed e he hne'
    · rw [List.mem_singleton.mp he]
      simp only [if_true]

theorem offerAll_run {frames : List Nat} (hl : Lent info pmm₀ held₀ frames.reverse h) :
    (UserVm.offerAll (provider native) frames h).1 = [] ∧
      Lent info pmm₀ held₀ [] (UserVm.offerAll (provider native) frames h).2 := by
  induction frames generalizing h with
  | nil => exact ⟨rfl, hl⟩
  | cons p rest ih =>
      rw [List.reverse_cons] at hl
      obtain ⟨h', hoffer, hl'⟩ := hl.offer_run
      have htaken : (UserVm.offer (provider native) p h).1 = true := by
        rw [hoffer]
      rw [UserVm.offerAll_taken htaken, hoffer]
      exact ih hl'

/-- When everything is back the allocator is as it was. -/
theorem restored (hl : Lent info pmm₀ held₀ [] h) : h.pmm = pmm₀ := by
  have hpmm := hl.pmm
  have hstack := hl.stack
  rw [List.nil_append] at hstack
  rw [← hstack] at hpmm
  exact hpmm

theorem count_eq_zero (hl : Lent info pmm₀ held₀ [] h) : h.adapter.count = 0 := by
  have hlength : h.adapter.live.length = h.adapter.count := by
    rw [Adapter.live, List.length_take, Nat.min_eq_left hl.room]
  rw [← hlength, hl.adapter, List.length_nil]

end Lent

/-! ### The space -/

/-- What is out is what the journal records. -/
structure Building (info : BootInfo) (pmm₀ : Pmm) (held₀ : List Nat) (m : Machine Host) : Prop where
  lent : Lent info pmm₀ held₀ m.space.journal.live m.world
  journal : m.space.journal.Wf
  noZero : m.space.ownsZero = false

/-- Everything is back. -/
structure Unwound (info : BootInfo) (pmm₀ : Pmm) (held₀ : List Nat) (m : Machine Host) : Prop where
  lent : Lent info pmm₀ held₀ [] m.world
  count : m.space.journal.count = 0
  noZero : m.space.ownsZero = false

variable {template : KernelTemplate} {bytes : List UInt8}

/-- A page of the allocator is never refused by the space. -/
theorem acceptFrame_building {m : Machine Host} {h' : Host} (hb : Building info pmm₀ held₀ m)
    (hroot : ¬Pmm.Frame info template.rootPhys.val) (hpd : ¬Pmm.Frame info template.borrowedPd)
    (hroom : m.space.journal.count < m.space.journal.frames.length)
    (hl : Lent info pmm₀ held₀ (m.space.journal.live ++ [p]) h') (hzero : p ≠ 0) (hnew : p ∉ m.space.journal.live)
    (hframe : Pmm.Frame info p) :
    Act.Ensures (UserVm.acceptFrame template p) { m with world := h' } (fun _ => Building info pmm₀ held₀)
      (fun _ => Building info pmm₀ held₀) False := by
  have htop : managedTop = UserVm.physTop := rfl
  have hlive := Journal.live_push hroom p
  refine Act.Ensures.get_bind (Act.Ensures.ite (fun h0 => absurd h0 hzero) fun _ => ?_)
  refine Act.Ensures.guard (fun hunaligned => absurd hframe.1 hunaligned) fun _ => ?_
  refine Act.Ensures.guard (fun hhigh => absurd (htop ▸ hframe.2.1) (Nat.not_lt_of_ge hhigh)) fun _ => ?_
  refine Act.Ensures.guard (fun hduplicate => absurd (List.contains_iff_mem.mp hduplicate) hnew) fun _ => ?_
  refine Act.Ensures.guard (fun hreserved => ?_) fun _ => ?_
  · rcases hreserved with heq | heq
    · exact absurd (heq ▸ hframe) hroot
    · exact absurd (heq ▸ hframe) hpd
  · constructor
    · show Lent info pmm₀ held₀ (m.space.journal.push p).live h'
      rw [hlive]
      exact hl
    · refine ⟨?_, ?_, ?_⟩
      · show m.space.journal.count + 1 ≤ (m.space.journal.frames.set _ _).length
        rw [List.length_set]
        exact hroom
      · rw [hlive]
        exact hl.nonzero
      · rw [hlive, ← List.concat_eq_append]
        exact hb.journal.nodup.concat hnew
    · exact hb.noZero

theorem steady_building (hroot : ¬Pmm.Frame info template.rootPhys.val) (hpd : ¬Pmm.Frame info template.borrowedPd) :
    Steady (provider native) template (Building info pmm₀ held₀) where
  space m s hb hjournal hzero := ⟨hjournal ▸ hb.lent, hjournal ▸ hb.journal, hzero.trans hb.noZero⟩
  access _ _ hb := hb
  write _ _ _ hb := ⟨{ hb.lent with }, hb.journal, hb.noZero⟩
  take := by
    refine UserVm.takeFrame_keeps (fun m e hb hreply => ?_) (fun m p hb hroom hreply => ?_) (fun _ _ hb => hb)
      fun _ _ _ hb => ⟨{ hb.lent with }, hb.journal, hb.noZero⟩
    · simp only [provider] at hreply ⊢
      rcases hb.lent.alloc_cases with ⟨e', h', hrun, hl⟩ | ⟨p, h', hrun, -⟩ <;> rw [hrun] at hreply ⊢
      · exact ⟨hl, hb.journal, hb.noZero⟩
      · cases hreply
    · simp only [provider] at hreply ⊢
      rcases hb.lent.alloc_cases with ⟨e', h', hrun, -⟩ | ⟨p', h', hrun, hl, hzero, hnew, hframe⟩ <;>
        rw [hrun] at hreply ⊢
      · cases hreply
      · cases hreply
        exact acceptFrame_building hb hroot hpd hroom hl hzero hnew hframe

theorem releaseAll_building {m : Machine Host} (hb : Building info pmm₀ held₀ m) :
    Act.Ensures (UserVm.releaseAll (provider native)) m (fun _ => Unwound info pmm₀ held₀) (fun _ _ => False) False := by
  obtain ⟨journal, hlive, hcount, -, hrun⟩ := UserVm.releaseAll_run (P := provider native) hb.journal
  have hl := hb.lent
  rw [← List.reverse_reverse m.space.journal.live] at hl
  obtain ⟨hrefused, hdone⟩ := hl.offerAll_run
  have hkept := UserVm.remains_kept (provider native) m
  rw [hrefused, List.reverse_nil] at hkept
  obtain ⟨hzero, hworld⟩ := UserVm.remains_of_no_zero (P := provider native) hb.noZero
  have hfirst := UserVm.Remains.first_eq_none.mpr ⟨hkept, hzero⟩
  rw [Act.Ensures, hrun, hfirst]
  refine ⟨?_, ?_, hzero⟩
  · simp only [hworld]
    exact hdone
  · have hlength := Journal.length_live hcount
    rw [hlive, hkept] at hlength
    exact hlength.symm

theorem releaseOrDestroy_building {m : Machine Host} (hb : Building info pmm₀ held₀ m) :
    Act.Ensures (UserVm.releaseOrDestroy (provider native)) m (fun _ => Unwound info pmm₀ held₀) (fun _ _ => False) False :=
  (releaseAll_building hb).catchError fun _ _ h => h.elim

theorem construct_building (bytes : List UInt8) {m : Machine Host} (hroot : ¬Pmm.Frame info template.rootPhys.val)
    (hpd : ¬Pmm.Frame info template.borrowedPd) (hworld : Lent info pmm₀ held₀ [] m.world) (hcount : m.space.journal.count = 0) (hzero : m.space.ownsZero = false) :
    Act.Ensures (UserVm.construct (provider native) bytes template) m
      (fun _ m' => Building info pmm₀ held₀ m' ∧ m'.space.state = .ready) (fun _ => Unwound info pmm₀ held₀) False := by
  have hsteady : Steady (provider native) template (Building info pmm₀ held₀) := steady_building hroot hpd
  have hunwound : Unwound info pmm₀ held₀ m := ⟨hworld, hcount, hzero⟩
  have hnil : m.space.journal.live = [] := by
    rw [Journal.live, hcount, List.take_zero]
  have hstart : Building info pmm₀ held₀ { m with space := { m.space with state := .building } } :=
    ⟨hnil ▸ hworld, ⟨hcount ▸ Nat.zero_le _, hnil ▸ List.not_mem_nil, hnil ▸ List.nodup_nil⟩, hzero⟩
  have hplan : UserElf.plan bytes ≠ .trap := UserElf.plan_ne_trap
  rw [UserVm.construct]
  cases hrun : UserElf.plan bytes with
  | trap => exact absurd hrun hplan
  | error e => exact hunwound
  | ok plan =>
      refine Act.Ensures.get_bind (Act.Ensures.guard (fun _ => hunwound) fun _ =>
        Act.Ensures.guard (fun _ => hunwound) fun _ => ?_)
      cases hvalid : UserVm.validateTemplate template with
      | trap => exact absurd hvalid Steady.validateTemplate_ne_trap
      | error e => exact hunwound
      | ok _ =>
          change Act.Ensures ((UserVm.inner (provider native) bytes plan template).catchError _ >>= _)
            { m with space := { m.space with state := .building } } _ _ _
          refine Act.Ensures.bind (Q := fun _ => Building info pmm₀ held₀) ?_ fun _ t ht => ?_
          · refine (hsteady.inner bytes plan _ hstart).catchError fun err t ht => ?_
            refine ((releaseOrDestroy_building ht).mono (fun _ _ h => h) (fun _ _ h => h.elim) id).bind fun _ t' ht' => ?_
            exact ⟨ht'.lent, ht'.count, rfl⟩
          · exact ⟨⟨ht.lent, ht.journal, ht.noZero⟩, rfl⟩

theorem destroy_building {m : Machine Host} (hb : Building info pmm₀ held₀ m) (hready : m.space.state = .ready) :
    Act.Ensures (UserVm.destroy (provider native) .inactive) m (fun _ => Unwound info pmm₀ held₀) (fun _ _ => False)
      False := by
  refine Act.Ensures.get_bind ?_
  rw [hready]
  exact (releaseOrDestroy_building hb).bind fun _ t ht => ⟨ht.lent, ht.count, rfl⟩

/-- A new adapter and an empty space over an allocator and a memory. -/
def fresh (pmm : Pmm) (storage frames : List Nat) (memory : Nat → UserVm.Page) : Machine Host where
  world := { pmm, adapter := Adapter.init storage, memory }
  space := AddressSpace.init (Journal.init frames)

/-- The allocator is `pmm₀` again, the adapter and the space own nothing, and every page but page 0 was
zero-filled when the allocator took it back. -/
structure Restored (pmm₀ : Pmm) (m : Machine Host) : Prop where
  pmm : m.world.pmm = pmm₀
  adapter : m.world.adapter.count = 0
  journal : m.space.journal.count = 0
  ownsZero : m.space.ownsZero = false
  zeroed : ∀ e ∈ m.world.returned, e.1 ≠ 0 → e.2 = UserVm.zeroPage

theorem Unwound.restored {m : Machine Host} (h : Unwound info pmm₀ held₀ m) : Restored pmm₀ m :=
  ⟨h.lent.restored, h.lent.count_eq_zero, h.count, h.noZero, h.lent.zeroed⟩

/-- Over the page allocator a construction that fails, or one that is torn down, is undone completely. -/
theorem unwind_restores {s₀ s : Pmm} {calls : List Pmm.Call} {storage frames : List Nat} {memory : Nat → UserVm.Page}
    {result : Outcome UserVm.Error Unit} {built : Machine Host} (hinit : Pmm.init info s₀ = (.ok (), s))
    (hrun : Pmm.Run s calls pmm₀) (hroot : pmm₀.isAllocatable template.rootPhys.val = false)
    (hpd : pmm₀.isAllocatable template.borrowedPd = false)
    (hbuilt : UserVm.construct (provider native) bytes template (fresh pmm₀ storage frames memory) = (result, built)) :
    result ≠ .trap ∧ (∀ e, result = .error e → Restored pmm₀ built) ∧
      (result = .ok () →
        ∃ torn, UserVm.destroy (provider native) .inactive built = (.ok (), torn) ∧ Restored pmm₀ torn) := by
  have hsound := Pmm.sound_of_run hinit hrun
  have hworld : Lent info pmm₀ (Pmm.held calls) [] (fresh pmm₀ storage frames memory).world :=
    { stack := rfl
      pmm := rfl
      sound := hsound
      adapter := rfl
      room := Nat.zero_le _
      nonzero := List.not_mem_nil
      zeroed := fun e he => absurd he List.not_mem_nil }
  have hframe {phys : Nat} (h : pmm₀.isAllocatable phys = false) : ¬Pmm.Frame info phys := fun hframe => by
    rw [hsound.isAllocatable_iff.mpr hframe] at h
    cases h
  have hensures := construct_building bytes (hframe hroot) (hframe hpd) hworld rfl rfl
  rw [Act.Ensures, hbuilt] at hensures
  cases result with
  | error e => exact ⟨by simp, fun _ _ => hensures.restored, by simp⟩
  | trap => exact hensures.elim
  | ok u =>
      refine ⟨by simp, by simp, fun _ => ?_⟩
      have htorn := destroy_building hensures.1 hensures.2
      rw [Act.Ensures] at htorn
      rcases hdestroy : UserVm.destroy (provider native) .inactive built with ⟨u' | e | _, torn⟩ <;>
        rw [hdestroy] at htorn
      · exact ⟨torn, rfl, htorn.restored⟩
      · exact htorn.elim
      · exact htorn.elim

/-- A machine with one free range. -/
def oneRange (r : Range) : BootInfo :=
  let info : BootInfo :=
    { totalSize := 4096, rangeCount := 4, efiDescSize := 48, efiDescVersion := 1
      kernelBase := 0x100000, kernelSize := 0x10000, kernelEntry := 0x100040
      initramfsBase := 0, initramfsSize := 0, stackBase := 0x200000, stackSize := 0x4000, selfAddr := 0x300000
      rangeArray
        | 0 => ⟨0x100000, 16, .kernel⟩
        | 1 => ⟨0x200000, 4, .kernelStack⟩
        | 2 => ⟨0x300000, 1, .bootInfo⟩
        | _ => r }
  { info with checksum := Fin.ofNat _ info.computeChecksum }

/-- A space over the allocator of a machine that comes up with memory full of other data. -/
def booted (info : BootInfo) : Machine Host :=
  fresh (Pmm.init info {}).2 (List.replicate maxOwnedFrames 0) (List.replicate maxOwnedFrames 0) fun _ _ => 0xa5

def wideMap : BootInfo := oneRange ⟨0x400000, 32, .conventional⟩

theorem unwind_restores_sample :
    ∃ built torn,
      UserVm.construct (provider native) UserElf.sampleImage UserVm.sampleTemplate (booted wideMap) = (.ok (), built) ∧
      UserVm.destroy (provider native) .inactive built = (.ok (), torn) ∧ Restored (Pmm.init wideMap {}).2 torn := by
  have hok : (Pmm.init wideMap {}).1 = .ok () := by decide +kernel
  have hinit : Pmm.init wideMap {} = (.ok (), (Pmm.init wideMap {}).2) := Prod.ext hok rfl
  have hroot : (Pmm.init wideMap {}).2.isAllocatable UserVm.sampleTemplate.rootPhys.val = false := by decide +kernel
  have hpd : (Pmm.init wideMap {}).2.isAllocatable UserVm.sampleTemplate.borrowedPd = false := by decide +kernel
  have hresult : (UserVm.construct (provider native) UserElf.sampleImage UserVm.sampleTemplate (booted wideMap)).1 =
      .ok () := by
    decide +kernel
  have hpair {x : Outcome UserVm.Error Unit × Machine Host} (h : x.1 = .ok ()) : x = (.ok (), x.2) := Prod.ext h rfl
  have hbuilt := hpair hresult
  rw [booted] at hbuilt ⊢
  obtain ⟨-, -, htorn⟩ := unwind_restores hinit Runs.Run.refl hroot hpd hbuilt
  obtain ⟨torn, hdestroy, hrestored⟩ := htorn rfl
  exact ⟨_, torn, hbuilt, hdestroy, hrestored⟩

/-- Page 0 goes back with whatever it held. -/
theorem page_zero_unscrubbed :
    let start := booted (oneRange ⟨0, 1, .conventional⟩)
    let built := UserVm.construct (provider native) UserElf.sampleImage UserVm.sampleTemplate start
    (Pmm.init (oneRange ⟨0, 1, .conventional⟩) {}).1 = .ok () ∧
      start.world.pmm.isAllocatable UserVm.sampleTemplate.rootPhys.val = false ∧
      start.world.pmm.isAllocatable UserVm.sampleTemplate.borrowedPd = false ∧
      built.1 = .error .physicalZero ∧ built.2.world.returned.map (fun e => (e.1, e.2 0)) = [(0, 0xa5)] := by
  decide +kernel

end UserVmPmm

end Native
