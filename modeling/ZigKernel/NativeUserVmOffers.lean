import ZigKernel.NativeUserVmRelease
import ZigKernel.NativeUserVmLayout

/-! The calls that `releaseAll` makes to its provider, on record: which pages are looked at, and what every
frame holds when it is offered. -/

namespace Native

open Zig

namespace UserVm

variable {ω : Type} {P : Provider ω}

/-! ### Watching a provider -/

/-- A page that was asked for, a write through a pointer, and a frame that was offered in some world. -/
inductive Use (ω : Type) where
  | page (phys : Nat) (reply : Except AccessError Nat)
  | store (ptr : Nat)
  | free (phys : Nat) (taken : Bool) (world : ω)

/-- The same provider, with a record of how it is used. -/
def Provider.watched (P : Provider ω) : Provider (ω × List (Use ω)) where
  allocPage w := ((P.allocPage w.1).1, ((P.allocPage w.1).2, w.2))
  pageBytes phys w := ((P.pageBytes phys w.1).1, ((P.pageBytes phys w.1).2, w.2 ++ [.page phys (P.pageBytes phys w.1).1]))
  freePage phys w :=
    ((P.freePage phys w.1).1, ((P.freePage phys w.1).2, w.2 ++ [.free phys (P.freePage phys w.1).1 w.1]))
  load ptr w := P.load ptr w.1
  store ptr bytes w := (P.store ptr bytes w.1, w.2 ++ [.store ptr])

/-- The frames that were offered, in order. -/
def offered (log : List (Use ω)) : List Nat :=
  log.filterMap fun
    | .free phys _ _ => some phys
    | _ => none

/-- The frames that were not taken, in order. -/
def refused (log : List (Use ω)) : List Nat :=
  log.filterMap fun
    | .free phys false _ => some phys
    | _ => none

/-- A page that `pageBytes` returns reads as what was last written to it. -/
def Provider.Stores (P : Provider ω) : Prop :=
  ∀ phys w ptr w' bytes, P.pageBytes phys w = (.ok ptr, w') → SameBytes (P.load ptr (P.store ptr bytes w')) bytes

/-- Every frame is offered once, last one first and frame 0 at the end, and it has been wiped where its page
can be had. -/
structure Offers (P : Provider ω) (s : AddressSpace) (log : List (Use ω)) : Prop where
  order : offered log = s.journal.live.reverse ++ if s.ownsZero then [0] else []
  once : (offered log).Nodup
  asked : ∀ phys taken w, Use.free phys taken w ∈ log → phys ≠ 0 → ∃ reply, Use.page phys reply ∈ log
  wiped : ∀ phys taken w, Use.free phys taken w ∈ log → ∀ ptr, Use.page phys (.ok ptr) ∈ log → SameBytes (P.load ptr w) zeroPage
  zero : ∀ reply, Use.page 0 reply ∉ log
  stores : ∀ ptr, Use.store ptr ∈ log → ∃ phys ∈ s.journal.live, Use.page phys (.ok ptr) ∈ log

/-- What is left of the space is what was refused. -/
structure Compacted (s : AddressSpace) (log : List (Use ω)) (result : Outcome Error Unit) (s' : AddressSpace) : Prop where
  journal : s'.journal.live = s.journal.live.filter (· ∈ refused log)
  ownsZero : s'.ownsZero = true ↔ s.ownsZero = true ∧ 0 ∈ refused log
  result : result = if refused log = [] then .ok () else .error .releaseFailed
  first : s'.failedReleaseFrame = (refused log).head?.getD 0

/-! ### One offer -/

/-- How one offer uses the provider. -/
def offerUses (P : Provider ω) (phys : Nat) (w : ω) : List (Use ω) :=
  .page phys (P.pageBytes phys w).1 ::
    match (P.pageBytes phys w).1 with
    | .error _ => [.free phys (offer P phys w).1 (scrubbed P phys w)]
    | .ok ptr => [.store ptr, .free phys (offer P phys w).1 (scrubbed P phys w)]

theorem offer_watched (phys : Nat) (w : ω) (log : List (Use ω)) :
    offer P.watched phys (w, log) = ((offer P phys w).1, ((offer P phys w).2, log ++ offerUses P phys w)) := by
  rw [offerUses, offer, offer, scrubbed, scrubbed]
  simp only [Provider.watched]
  rcases P.pageBytes phys w with ⟨e | ptr, w'⟩
  · simp only [List.append_assoc, List.cons_append, List.nil_append]
  · simp only [List.append_assoc, List.cons_append, List.nil_append]

theorem offered_offerUses (phys : Nat) (w : ω) : offered (offerUses P phys w) = [phys] := by
  rw [offerUses]
  cases (P.pageBytes phys w).1 <;> rfl

theorem refused_offerUses (phys : Nat) (w : ω) :
    refused (offerUses P phys w) = if (offer P phys w).1 then [] else [phys] := by
  rw [offerUses]
  cases (P.pageBytes phys w).1 <;> cases (offer P phys w).1 <;> rfl

theorem page_mem_offerUses {phys other : Nat} {reply : Except AccessError Nat} {w : ω} :
    .page other reply ∈ offerUses P phys w ↔ other = phys ∧ reply = (P.pageBytes phys w).1 := by
  rw [offerUses, List.mem_cons]
  cases (P.pageBytes phys w).1 <;> simp

theorem free_mem_offerUses {phys other : Nat} {taken : Bool} {w world : ω} (h : .free other taken world ∈ offerUses P phys w) :
    other = phys ∧ world = scrubbed P phys w := by
  rw [offerUses, List.mem_cons] at h
  cases hreply : (P.pageBytes phys w).1 <;> simp [hreply] at h <;> exact ⟨h.1, h.2.2⟩

theorem store_mem_offerUses {phys ptr : Nat} {w : ω} (h : .store ptr ∈ offerUses P phys w) :
    (P.pageBytes phys w).1 = .ok ptr := by
  rw [offerUses, List.mem_cons] at h
  cases hreply : (P.pageBytes phys w).1 <;> simp [hreply] at h
  rw [h]

theorem scrubbed_zero (hstores : P.Stores) {phys ptr : Nat} {w : ω} (h : (P.pageBytes phys w).1 = .ok ptr) :
    SameBytes (P.load ptr (scrubbed P phys w)) zeroPage := by
  rw [scrubbed]
  rcases hpage : P.pageBytes phys w with ⟨e | ptr', w'⟩
  · rw [hpage] at h
    cases h
  · rw [hpage] at h
    cases h
    exact hstores phys w ptr w' zeroPage hpage

/-! ### All offers -/

/-- How the offers of the frames use the provider. -/
def offersUses (P : Provider ω) : List Nat → ω → List (Use ω)
  | [], _ => []
  | phys :: rest, w => offerUses P phys w ++ offersUses P rest (offer P phys w).2

theorem offerAll_watched (frames : List Nat) (w : ω) (log : List (Use ω)) :
    offerAll P.watched frames (w, log) =
      ((offerAll P frames w).1, ((offerAll P frames w).2, log ++ offersUses P frames w)) := by
  induction frames generalizing w log with
  | nil => rw [offersUses, List.append_nil]; rfl
  | cons phys rest ih =>
      simp only [offerAll, offer_watched, ih, offersUses, List.append_assoc]

theorem offered_offersUses (frames : List Nat) (w : ω) : offered (offersUses P frames w) = frames := by
  induction frames generalizing w with
  | nil => rfl
  | cons phys rest ih =>
      have happend : offered (offersUses P (phys :: rest) w) =
          offered (offerUses P phys w) ++ offered (offersUses P rest (offer P phys w).2) := List.filterMap_append
      rw [happend, offered_offerUses, ih, List.singleton_append]

theorem refused_offersUses (frames : List Nat) (w : ω) : refused (offersUses P frames w) = (offerAll P frames w).1 := by
  induction frames generalizing w with
  | nil => rfl
  | cons phys rest ih =>
      have happend : refused (offersUses P (phys :: rest) w) =
          refused (offerUses P phys w) ++ refused (offersUses P rest (offer P phys w).2) := List.filterMap_append
      rw [happend, refused_offerUses, ih]
      cases htaken : (offer P phys w).1 with
      | true => rw [offerAll_taken htaken, if_pos rfl, List.nil_append]
      | false => rw [offerAll_refused htaken, if_neg (by nofun), List.singleton_append]

theorem page_mem_offersUses {frames : List Nat} {phys : Nat} {reply : Except AccessError Nat} {w : ω}
    (h : .page phys reply ∈ offersUses P frames w) : phys ∈ frames := by
  induction frames generalizing w with
  | nil => exact absurd h List.not_mem_nil
  | cons first rest ih =>
      rw [offersUses, List.mem_append, page_mem_offerUses] at h
      rcases h with ⟨rfl, -⟩ | h
      · exact List.mem_cons_self
      · exact List.mem_cons_of_mem first (ih h)

theorem free_mem_offersUses {frames : List Nat} {phys : Nat} {taken : Bool} {w world : ω}
    (h : .free phys taken world ∈ offersUses P frames w) : phys ∈ frames := by
  rw [← offered_offersUses (P := P) frames w]
  exact List.mem_filterMap.mpr ⟨_, h, rfl⟩

/-- The frames are distinct, so the page of each is asked for in its own offer only. -/
theorem offersUses_wiped (hstores : P.Stores) {frames : List Nat} (hnodup : frames.Nodup) {w world : ω} {phys ptr : Nat}
    {taken : Bool} (hfree : .free phys taken world ∈ offersUses P frames w)
    (hpage : .page phys (.ok ptr) ∈ offersUses P frames w) : SameBytes (P.load ptr world) zeroPage := by
  induction frames generalizing w with
  | nil => exact absurd hfree List.not_mem_nil
  | cons first rest ih =>
      obtain ⟨hfirst, hrest⟩ := List.nodup_cons.mp hnodup
      rw [offersUses, List.mem_append] at hfree hpage
      rcases hfree with hfree | hfree
      · obtain ⟨rfl, rfl⟩ := free_mem_offerUses hfree
        rcases hpage with hpage | hpage
        · exact scrubbed_zero hstores (page_mem_offerUses.mp hpage).2.symm
        · exact absurd (page_mem_offersUses hpage) hfirst
      · rcases hpage with hpage | hpage
        · obtain ⟨rfl, -⟩ := page_mem_offerUses.mp hpage
          exact absurd (free_mem_offersUses hfree) hfirst
        · exact ih hrest hfree hpage

theorem offersUses_asked {frames : List Nat} {phys : Nat} (h : phys ∈ frames) (w : ω) :
    ∃ reply, .page phys reply ∈ offersUses P frames w := by
  induction frames generalizing w with
  | nil => exact absurd h List.not_mem_nil
  | cons first rest ih =>
      rw [offersUses]
      rcases List.mem_cons.mp h with rfl | h
      · exact ⟨_, List.mem_append_left _ (page_mem_offerUses.mpr ⟨rfl, rfl⟩)⟩
      · obtain ⟨reply, hreply⟩ := ih h (offer P first w).2
        exact ⟨reply, List.mem_append_right _ hreply⟩

theorem store_mem_offersUses {frames : List Nat} {ptr : Nat} {w : ω} (h : .store ptr ∈ offersUses P frames w) :
    ∃ phys ∈ frames, .page phys (.ok ptr) ∈ offersUses P frames w := by
  induction frames generalizing w with
  | nil => exact absurd h List.not_mem_nil
  | cons first rest ih =>
      rw [offersUses, List.mem_append] at h
      rw [offersUses]
      rcases h with h | h
      · have hpage := store_mem_offerUses h
        exact ⟨first, List.mem_cons_self, List.mem_append_left _ (page_mem_offerUses.mpr ⟨rfl, hpage.symm⟩)⟩
      · obtain ⟨phys, hphys, hpage⟩ := ih h
        exact ⟨phys, List.mem_cons_of_mem _ hphys, List.mem_append_right _ hpage⟩

/-! ### The release -/

/-- How a release uses the provider. -/
def releaseUses (P : Provider ω) (m : Machine ω) : List (Use ω) :=
  let world := (offerAll P m.space.journal.live.reverse m.world).2
  offersUses P m.space.journal.live.reverse m.world ++
    if m.space.ownsZero then [.free 0 (P.freePage 0 world).1 world] else []

theorem remains_watched (m : Machine ω) :
    remains P.watched { world := (m.world, []), space := m.space } =
      { kept := (remains P m).kept, zero := (remains P m).zero, world := ((remains P m).world, releaseUses P m) } := by
  rw [remains, remains, releaseUses]
  simp only [offerAll_watched, List.nil_append]
  by_cases hzero : m.space.ownsZero = true
  · simp only [if_pos hzero, Provider.watched]
    rfl
  · simp only [if_neg hzero, List.append_nil]

theorem offered_releaseUses (m : Machine ω) :
    offered (releaseUses P m) = m.space.journal.live.reverse ++ if m.space.ownsZero then [0] else [] := by
  rw [releaseUses, offered, List.filterMap_append, ← offered, offered_offersUses]
  cases m.space.ownsZero <;> rfl

theorem refused_releaseUses (m : Machine ω) :
    refused (releaseUses P m) = (remains P m).kept.reverse ++ if (remains P m).zero then [0] else [] := by
  rw [releaseUses, refused, List.filterMap_append, ← refused, refused_offersUses, remains_kept, List.reverse_reverse]
  cases hzero : m.space.ownsZero with
  | false => rw [(remains_of_no_zero hzero).1]; rfl
  | true =>
      rw [(remains_of_zero hzero).1]
      cases (P.freePage 0 (offerAll P m.space.journal.live.reverse m.world).2).1 <;> rfl

theorem first_eq_head? (m : Machine ω) : (remains P m).first = (refused (releaseUses P m)).head? := by
  rw [refused_releaseUses, List.head?_append, List.head?_reverse, Remains.first]
  cases (remains P m).zero <;> rfl

/-- A sublist of distinct elements is what membership in it selects. -/
theorem filter_mem_of_sublist {l l' : List Nat} (h : l.Sublist l') (hnodup : l'.Nodup) : l'.filter (· ∈ l) = l := by
  induction h with
  | slnil => rfl
  | cons a hsub ih =>
      obtain ⟨ha, hrest⟩ := List.nodup_cons.mp hnodup
      rw [List.filter_cons_of_neg (by simpa using fun hmem => ha (hsub.subset hmem)), ih hrest]
  | @cons_cons l l' a hsub ih =>
      obtain ⟨ha, hrest⟩ := List.nodup_cons.mp hnodup
      have hcongr : l'.filter (· ∈ a :: l) = l'.filter (· ∈ l) := by
        refine List.filter_congr fun b hb => ?_
        have hne : b ≠ a := fun heq => ha (heq ▸ hb)
        simp only [List.mem_cons, hne, false_or]
      rw [List.filter_cons_of_pos (by simp), hcongr, ih hrest]

theorem zero_mem_refused {m : Machine ω} (h : m.space.journal.Wf) :
    0 ∈ refused (releaseUses P m) ↔ (remains P m).zero = true := by
  have hkept : 0 ∉ (remains P m).kept := fun hmem => h.nonzero ((remains_sublist P m).subset hmem)
  rw [refused_releaseUses, List.mem_append, List.mem_reverse, or_iff_right hkept]
  cases (remains P m).zero <;> simp

theorem releaseUses_offers (hstores : P.Stores) {m : Machine ω} (h : m.space.journal.Wf) :
    Offers P m.space (releaseUses P m) := by
  have hnodup : m.space.journal.live.reverse.Nodup := (List.reverse_perm _).nodup_iff.mpr h.nodup
  have hpage {phys : Nat} {reply : Except AccessError Nat} (hmem : Use.page phys reply ∈ releaseUses P m) :
      .page phys reply ∈ offersUses P m.space.journal.live.reverse m.world := by
    rcases List.mem_append.mp hmem with hmem | hmem
    · exact hmem
    · split_ifs at hmem <;> simp at hmem
  have hfree {phys : Nat} {taken : Bool} {w : ω} (hmem : Use.free phys taken w ∈ releaseUses P m) (hphys : phys ≠ 0) :
      .free phys taken w ∈ offersUses P m.space.journal.live.reverse m.world := by
    rcases List.mem_append.mp hmem with hmem | hmem
    · exact hmem
    · split_ifs at hmem <;> simp [hphys] at hmem
  have hlive {phys : Nat} {reply : Except AccessError Nat} (hmem : Use.page phys reply ∈ releaseUses P m) :
      phys ∈ m.space.journal.live := List.mem_reverse.mp (page_mem_offersUses (hpage hmem))
  refine ⟨offered_releaseUses m, ?_, ?_, ?_, fun reply hmem => h.nonzero (hlive hmem), ?_⟩
  · rw [offered_releaseUses]
    refine List.nodup_append.mpr ⟨hnodup, by split_ifs <;> simp, fun a ha b hb => ?_⟩
    have hb : b = 0 := by
      split_ifs at hb
      · exact List.mem_singleton.mp hb
      · exact absurd hb List.not_mem_nil
    exact fun heq => h.nonzero (hb ▸ heq ▸ List.mem_reverse.mp ha)
  · intro phys taken w hmem hphys
    obtain ⟨reply, hreply⟩ := offersUses_asked (P := P) (free_mem_offersUses (hfree hmem hphys)) m.world
    exact ⟨reply, List.mem_append_left _ hreply⟩
  · intro phys taken w hmem ptr hptr
    have hphys : phys ≠ 0 := fun hzero => h.nonzero (hzero ▸ hlive hptr)
    exact offersUses_wiped hstores hnodup (hfree hmem hphys) (hpage hptr)
  · intro ptr hmem
    rcases List.mem_append.mp hmem with hmem | hmem
    · obtain ⟨phys, hphys, hptr⟩ := store_mem_offersUses hmem
      exact ⟨phys, List.mem_reverse.mp hphys, List.mem_append_left _ hptr⟩
    · split_ifs at hmem <;> simp at hmem

/-- A provider that takes every frame leaves nothing. -/
theorem releaseAll_accepting {m : Machine ω} (h : m.space.journal.Wf) (haccepts : ∀ phys w, (P.freePage phys w).1 = true) :
    (releaseAll P m).1 = .ok () ∧ (releaseAll P m).2.space.owned = [] := by
  have htaken (frames : List Nat) (w : ω) : (offerAll P frames w).1 = [] := by
    induction frames generalizing w with
    | nil => rfl
    | cons phys rest ih =>
        rw [offerAll_taken (haccepts phys _)]
        exact ih _
  have hkept : (remains P m).kept = [] := by
    rw [remains_kept, htaken]
    rfl
  have hzero : (remains P m).zero = false := by
    cases howns : m.space.ownsZero with
    | false => exact (remains_of_no_zero howns).1
    | true =>
        rw [(remains_of_zero howns).1, haccepts]
        rfl
  obtain ⟨journal, hlive, -, -, hrun⟩ := releaseAll_run (P := P) h
  rw [hrun, Remains.first_eq_none.mpr ⟨hkept, hzero⟩, AddressSpace.owned]
  refine ⟨rfl, ?_⟩
  show journal.live ++ (if (remains P m).zero then [0] else []) = []
  rw [hlive, hkept, hzero]
  rfl

/-- A release offers everything once, wiped, and keeps what is refused; a second one that is refused nothing
leaves nothing. -/
theorem releaseAll_keeps_refused (hstores : P.Stores) {m : Machine ω} (h : m.space.journal.Wf) :
    let released := releaseAll P.watched { world := (m.world, []), space := m.space }
    Offers P m.space released.2.world.2 ∧ Compacted m.space released.2.world.2 released.1 released.2.space ∧
      ∀ (ω' : Type) (Q : Provider ω') (w' : ω'), (∀ phys w, (Q.freePage phys w).1 = true) →
        let again := releaseAll Q { world := w', space := released.2.space }
        again.1 = .ok () ∧ again.2.space.owned = [] := by
  intro released
  obtain ⟨journal, hlive, hcount, -, hrun⟩ :=
    releaseAll_run (P := P.watched) (m := { world := (m.world, []), space := m.space }) h
  rw [remains_watched] at hlive hrun
  have hfirst : ({ kept := (remains P m).kept, zero := (remains P m).zero, world := ((remains P m).world, releaseUses P m) } :
      Remains (ω × List (Use ω))).first = (refused (releaseUses P m)).head? := first_eq_head? m
  rw [hfirst] at hrun
  have hsub := remains_sublist P m
  have hjournal : journal.Wf := by
    refine ⟨hcount, ?_, ?_⟩
    · rw [hlive]
      exact fun hmem => h.nonzero (hsub.subset hmem)
    · rw [hlive]
      exact hsub.nodup h.nodup
  have hreleased : released = _ := hrun
  rw [hreleased]
  refine ⟨releaseUses_offers hstores h, ⟨?_, ?_, ?_, ?_⟩, fun ω' Q w' haccepts => releaseAll_accepting hjournal haccepts⟩
  · show journal.live = _
    have hmem (phys : Nat) (hphys : phys ∈ m.space.journal.live) :
        phys ∈ refused (releaseUses P m) ↔ phys ∈ (remains P m).kept := by
      have hne : phys ≠ 0 := fun hzero => h.nonzero (hzero ▸ hphys)
      rw [refused_releaseUses, List.mem_append, List.mem_reverse]
      refine or_iff_left fun hzero => ?_
      split_ifs at hzero
      · exact hne (List.mem_singleton.mp hzero)
      · exact absurd hzero List.not_mem_nil
    have hselected : m.space.journal.live.filter (· ∈ refused (releaseUses P m)) =
        m.space.journal.live.filter (· ∈ (remains P m).kept) :=
      List.filter_congr fun phys hphys => decide_eq_decide.mpr (hmem phys hphys)
    rw [hlive]
    exact (hselected.trans (filter_mem_of_sublist hsub h.nodup)).symm
  · show (remains P m).zero = true ↔ _
    rw [zero_mem_refused h]
    refine ⟨fun hzero => ⟨?_, hzero⟩, And.right⟩
    by_contra howns
    rw [(remains_of_no_zero (Bool.not_eq_true _ ▸ howns)).1] at hzero
    cases hzero
  · dsimp only
    cases refused (releaseUses P m) <;> rfl
  · exact congrArg (·.getD 0) hfirst

/-- Takes back neither frame 0 nor the frame at `0x2000`, and does not find the page of the one at `0x3000`. -/
def picky : Provider Arena :=
  { bump with
    pageBytes := fun phys w => (if phys = 0x3000 then .error .pageAccess else .ok phys, w)
    freePage := fun phys w => (phys ≠ 0 ∧ phys ≠ 0x2000, w) }

theorem picky_stores : picky.Stores := by
  intro phys w ptr w' bytes hpage offset _
  show (if ptr = ptr then bytes else w'.memory ptr) offset = bytes offset
  rw [if_pos rfl]

/-- Three frames and frame 0, over other data. -/
def pickyMachine : Machine Arena where
  world := { next := 0x4000, memory := fun _ _ => 0xa5 }
  space := { journal := { frames := [0x1000, 0x2000, 0x3000, 0], count := 3 }, ownsZero := true }

theorem releaseAll_keeps_refused_sample :
    let released := releaseAll picky.watched { world := (pickyMachine.world, []), space := pickyMachine.space }
    released.1 = .error .releaseFailed ∧ offered released.2.world.2 = [0x3000, 0x2000, 0x1000, 0] ∧
      released.2.space.journal.live = [0x2000] ∧ released.2.space.failedReleaseFrame = 0x2000 ∧
      (releaseAll bump { world := pickyMachine.world, space := released.2.space }).2.space.owned = [] := by
  intro released
  have hjournal : pickyMachine.space.journal.Wf := ⟨by decide, by decide, by decide⟩
  obtain ⟨hoffers, hcompacted, hagain⟩ := releaseAll_keeps_refused picky_stores hjournal
  have hrefused : refused released.2.world.2 = [0x2000, 0] := by decide +kernel
  refine ⟨?_, ?_, ?_, ?_, (hagain Arena bump pickyMachine.world fun _ _ => rfl).2⟩
  · rw [hcompacted.result, hrefused]
    rfl
  · rw [hoffers.order]
    rfl
  · rw [hcompacted.journal, hrefused]
    rfl
  · rw [hcompacted.first, hrefused]
    rfl

end UserVm

end Native
