import ZigKernel.KernelElf64Sound

/-! `load` on a program that `validate` returned. Where it returns the entry, there is one new area for each segment.
It undoes nothing, so that a fault leaves the areas as they were only at the first segment. -/

namespace Kernel.Elf64

open Zig

/-- The flags of the mappings of `load`. -/
def loadFlags : Nat := Mm.mapPrivate ||| Mm.mapAnonymous ||| Mm.mapFixed

/-- The area of a segment: its page hull with its protection. -/
def Segment.area (s : Segment) : Mm.VmArea := { start := s.start, stop := s.stop, flags := loadFlags, prot := s.prot }

/-- One new area for each segment, each in a slot of its own, and nothing else. -/
def Loaded (m t : Mm) (segs : List Segment) : Prop :=
  ∃ slots : List (Fin Mm.maxVmAreas), slots.Nodup ∧ (∀ i ∈ slots, m.vmAreas i = none) ∧
    slots.map t.vmAreas = segs.map (fun s => some s.area) ∧ ∀ i, i ∉ slots → t.vmAreas i = m.vmAreas i

/-- The areas and the frames are as before. -/
structure Untouched (m t : Mm) : Prop where
  areas : t.vmAreas = m.vmAreas
  count : t.vmAreaCount = m.vmAreaCount
  frames : Mm.SamePages m t

/-- `load` maps all segments, or it returns an error and nothing has changed. -/
def AllOrNothing (m : Mm) (v : Validated) : Prop :=
  Act.Ensures (load v) m (fun entry t => entry = v.entry ∧ Loaded m t v.segs) (fun _ t => Untouched m t) True

def freeSlots (m : Mm) : Nat := (List.finRange Mm.maxVmAreas).countP fun i => (m.vmAreas i).isNone

/-- Every segment is mapped where it belongs and overlaps no area, and there is a slot for each. -/
structure RoomFor (m : Mm) (segs : List Segment) : Prop where
  inPlace : ∀ s ∈ segs, Mm.baseOf m s.start = s.start
  free : ∀ s ∈ segs, m.findVmaOverlap s.start s.stop = none
  slots : segs.length ≤ freeSlots m

/-- `mmap` refuses the first segment. -/
def FirstRefused (m : Mm) (segs : List Segment) : Prop :=
  ∃ s, segs.head? = some s ∧ ¬Mm.Accepts m s.start (s.stop - s.start) loadFlags

/-! ### One segment -/

/-- The hull of a segment that `validate` accepts. -/
structure Placed (s : Segment) : Prop where
  nonempty : s.start < s.stop
  user : s.stop ≤ Gdt.userMax + 1

variable {m t u : Mm} {s : Segment} {segs rest : List Segment} {slot : Fin Mm.maxVmAreas}

theorem allocPages_next (n : Nat) (m : Mm) : (Mm.allocPages n m).nextAnonAddr = m.nextAnonAddr := by
  obtain ⟨pages, bitmap, heq⟩ := Mm.allocPages_eq n m
  rw [heq]

theorem alignUp_span (s : Segment) : Mm.alignUp (s.stop - s.start) = s.stop - s.start := by
  have hpage : Mm.pageSize = 4096 := rfl
  rw [Segment.start, Segment.stop, Mm.alignUp, Mm.alignUp, hpage]
  omega

theorem newArea_eq (h : s.start < s.stop) : Mm.newArea s.start (s.stop - s.start) s.prot loadFlags = s.area := by
  rw [Mm.newArea, alignUp_span, Nat.add_sub_cancel' (Nat.le_of_lt h)]
  rfl

attribute [local irreducible] Mm.mmap pageEnd

/-- What `mmap` does with the hull of a segment, as a rule for the loop. -/
theorem mapSegments_cons {Q : Unit → Mm → Prop} {E : Error → Mm → Prop} (hs : Placed s)
    (hrefused : ∀ next, ¬Mm.Accepts m s.start (s.stop - s.start) loadFlags → E .noMem { m with nextAnonAddr := next })
    (hmapped : ∀ slot t, Mm.Accepts m s.start (s.stop - s.start) loadFlags →
      Mm.Inserted m t slot (Mm.newArea (Mm.baseOf m s.start) (s.stop - s.start) s.prot loadFlags) →
      t.nextAnonAddr = Mm.nextOf m s.start (s.stop - s.start) →
      if Mm.baseOf m s.start = s.start then Act.Ensures (mapSegments rest) t Q E True else E .mapMismatch t) :
    Act.Ensures (mapSegments (s :: rest)) m Q E True := by
  have hhull := hull_of_user hs.user
  have hcall : Act.Ensures ((Mm.mmap s.start (s.stop - s.start) s.prot loadFlags).catchError
      fun _ => (Act.lift .trap : Act Mm Error (Option Nat))) m
      (Mm.MmapResult m s.start (s.stop - s.start) s.prot loadFlags) E True := by
    refine Act.Ensures.catchError (E := fun _ _ => True) ?_ fun _ _ _ => True.intro
    exact Act.Ensures.intro (fun r t hrun => Mm.mmap_result hrun) (fun _ _ _ => True.intro) fun _ _ => True.intro
  have hflags : Mm.mapPrivate ||| Mm.mapAnonymous ||| Mm.mapFixed = loadFlags := rfl
  rw [mapSegments, hhull.1, hhull.2, hflags]
  apply Act.Ensures.run_bind (Act.lift_run _ _)
  rw [subU64_of_le (Nat.le_of_lt hs.nonempty)]
  apply Act.Ensures.run_bind (Act.lift_run _ _)
  refine Act.Ensures.bind hcall fun r t hresult => ?_
  cases hresult with
  | refused hnot => exact hrefused _ hnot
  | mapped count haccepts hslot =>
      have hfree := Option.isNone_iff_eq_none.mp (Table.find?_some hslot)
      generalize hm : Mm.allocPages (Mm.pagesOf (s.stop - s.start) loadFlags) _ = t
      have hstep := hmapped _ t haccepts ⟨hfree, by rw [← hm, Mm.allocPages_areas]⟩ (by rw [← hm, allocPages_next])
      dsimp only
      by_cases hbase : Mm.baseOf m s.start = s.start
      · rw [if_neg (not_not.mpr hbase)]
        rw [if_pos hbase] at hstep
        exact hstep
      · rw [if_pos hbase]
        rw [if_neg hbase] at hstep
        exact hstep

/-! ### Room and slots -/

theorem findVmaOverlap_none {start stop : Nat} :
    m.findVmaOverlap start stop = none ↔ ∀ i vma, m.vmAreas i = some vma → ¬(start < vma.stop ∧ vma.start < stop) := by
  rw [Mm.findVmaOverlap, Table.find?_none]
  constructor
  · intro h i vma hi
    have hno := h i
    rw [hi, Option.any_some, Mm.VmArea.overlaps] at hno
    simpa using hno
  · intro h i
    cases hi : m.vmAreas i with
    | none => rfl
    | some vma =>
        have hno := h i vma hi
        rw [Option.any_some, Mm.VmArea.overlaps]
        simpa using hno

theorem freeSlots_inserted {vma : Mm.VmArea} (h : Mm.Inserted m t slot vma) : freeSlots t + 1 = freeSlots m := by
  have hcount := Table.countP_update m.vmAreas Option.isNone slot (some vma)
  rw [h.1] at hcount
  rw [freeSlots, freeSlots, h.2]
  exact hcount

theorem slot_of_freeSlots (h : 0 < freeSlots m) : m.findFreeVmaSlot.isSome = true := by
  obtain ⟨i, -, hi⟩ := List.countP_pos_iff.mp h
  exact Option.isSome_iff_exists.mpr (Table.find?_isSome hi)

/-- A segment in its place is accepted where there is room for it. -/
theorem RoomFor.accepts (hs : Placed s) (h : RoomFor m (s :: rest)) :
    Mm.Accepts m s.start (s.stop - s.start) loadFlags := by
  refine ⟨fun _ => ?_, slot_of_freeSlots (Nat.lt_of_lt_of_le (Nat.zero_lt_succ _) h.slots)⟩
  rw [h.inPlace s List.mem_cons_self, alignUp_span, Nat.add_sub_cancel' (Nat.le_of_lt hs.nonempty)]
  exact h.free s List.mem_cons_self

/-- A segment takes its own place and one slot. -/
theorem roomFor_cons (hs : Placed s) (hrest : ∀ r ∈ rest, Placed r) (hapart : ∀ r ∈ rest, s.Apart r)
    (haccepts : Mm.Accepts m s.start (s.stop - s.start) loadFlags) (hbase : Mm.baseOf m s.start = s.start)
    (h : Mm.Inserted m t slot s.area) (hnext : t.nextAnonAddr = Mm.nextOf m s.start (s.stop - s.start)) :
    RoomFor m (s :: rest) ↔ RoomFor t rest := by
  have hslots := freeSlots_inserted h
  have hplace : ∀ r ∈ rest, Mm.baseOf t r.start = Mm.baseOf m r.start := by
    intro r hr
    rw [Mm.baseOf, Mm.baseOf, hnext, Mm.nextOf]
    by_cases hzero : s.start = 0
    · have hpos : r.start ≠ 0 := by
        have hr' := (hrest r hr).nonempty
        have hs' := hs.nonempty
        have happ := hapart r hr
        rw [Segment.Apart] at happ
        omega
      rw [if_neg hpos, if_neg hpos]
    · rw [if_neg hzero]
  have hfree : ∀ r ∈ rest, t.findVmaOverlap r.start r.stop = none ↔ m.findVmaOverlap r.start r.stop = none := by
    intro r hr
    rw [findVmaOverlap_none, findVmaOverlap_none]
    constructor
    · exact fun hall i vma hi => hall i vma (h.old hi).2
    · intro hall i vma hi
      rcases h.area hi with ⟨-, rfl⟩ | ⟨-, hold⟩
      · have happ := hapart r hr
        rw [Segment.Apart] at happ
        change ¬(r.start < s.stop ∧ s.start < r.stop)
        omega
      · exact hall i vma hold
  have hspan : s.start + Mm.alignUp (s.stop - s.start) = s.stop := by
    rw [alignUp_span, Nat.add_sub_cancel' (Nat.le_of_lt hs.nonempty)]
  have hself : m.findVmaOverlap s.start s.stop = none := by
    have hnone := haccepts.1 (.inr (by decide))
    rw [hbase, hspan] at hnone
    exact hnone
  constructor
  · intro hroom
    refine ⟨fun r hr => ?_, fun r hr => ?_, ?_⟩
    · rw [hplace r hr]
      exact hroom.inPlace r (List.mem_cons_of_mem _ hr)
    · exact (hfree r hr).mpr (hroom.free r (List.mem_cons_of_mem _ hr))
    · have hlen := hroom.slots
      rw [List.length_cons] at hlen
      omega
  · intro hroom
    refine ⟨List.forall_mem_cons.mpr ⟨hbase, fun r hr => ?_⟩, List.forall_mem_cons.mpr ⟨hself, fun r hr => ?_⟩, ?_⟩
    · rw [← hplace r hr]
      exact hroom.inPlace r hr
    · exact (hfree r hr).mp (hroom.free r hr)
    · have hlen := hroom.slots
      rw [List.length_cons]
      omega

theorem loaded_nil (m : Mm) : Loaded m m [] := ⟨[], List.nodup_nil, nofun, rfl, fun _ _ => rfl⟩

theorem Loaded.cons (h : Mm.Inserted m t slot s.area) (hrest : Loaded t u rest) : Loaded m u (s :: rest) := by
  obtain ⟨slots, hnodup, hfree, hareas, hother⟩ := hrest
  have hnew : slot ∉ slots := by
    intro hmem
    have hnone := hfree slot hmem
    rw [h.new] at hnone
    cases hnone
  refine ⟨slot :: slots, List.nodup_cons.mpr ⟨hnew, hnodup⟩, List.forall_mem_cons.mpr ⟨h.1, fun i hi => ?_⟩, ?_, fun i hi => ?_⟩
  · have hnone := hfree i hi
    rw [h.2, Function.update_of_ne (ne_of_mem_of_not_mem hi hnew)] at hnone
    exact hnone
  · rw [List.map_cons, List.map_cons, hareas, hother slot hnew, h.new]
  · rw [List.mem_cons, not_or] at hi
    rw [hother i hi.2, h.2, Function.update_of_ne hi.1]

/-! ### The loop -/

/-- The areas of `m` are still there. -/
def Extends (m t : Mm) : Prop := ∀ i vma, m.vmAreas i = some vma → t.vmAreas i = some vma

/-- The induction is on the segments to go: with room for all the loop maps them all, and it never removes an area. -/
theorem mapSegments_result (hsegs : ∀ s ∈ segs, Placed s) (hapart : segs.Pairwise Segment.Apart) :
    Act.Ensures (mapSegments segs) m (fun _ t => RoomFor m segs ∧ Loaded m t segs)
      (fun _ t => ¬RoomFor m segs ∧ Extends m t) True := by
  induction segs generalizing m with
  | nil => exact ⟨⟨nofun, nofun, Nat.zero_le _⟩, loaded_nil m⟩
  | cons s rest ih =>
      obtain ⟨hs, hrest⟩ := List.forall_mem_cons.mp hsegs
      obtain ⟨hfirst, hothers⟩ := List.pairwise_cons.mp hapart
      refine mapSegments_cons hs (fun next hnot => ?_) fun slot t haccepts hinserted hnext => ?_
      · exact ⟨fun hroom => hnot (hroom.accepts hs), fun _ _ hi => hi⟩
      have hextends : Extends m t := fun i vma hi => (hinserted.old hi).2
      by_cases hbase : Mm.baseOf m s.start = s.start
      · rw [if_pos hbase]
        rw [hbase, newArea_eq hs.nonempty] at hinserted
        have hiff := roomFor_cons hs hrest hfirst haccepts hbase hinserted hnext
        refine (ih hrest hothers).mono (fun _ u hu => ?_) (fun e u hu => ?_) id
        · exact ⟨hiff.mpr hu.1, hu.2.cons hinserted⟩
        · exact ⟨mt hiff.mp hu.1, fun i vma hi => hu.2 i vma (hextends i vma hi)⟩
      · rw [if_neg hbase]
        exact ⟨fun hroom => hbase (hroom.inPlace s List.mem_cons_self), hextends⟩

/-- Behind a first segment that `mmap` takes there is an area in a slot that was free. -/
theorem mapSegments_taken (hsegs : ∀ r ∈ s :: rest, Placed r) (hapart : (s :: rest).Pairwise Segment.Apart)
    (haccepts : Mm.Accepts m s.start (s.stop - s.start) loadFlags) :
    Act.Ensures (mapSegments (s :: rest)) m (fun _ _ => True) (fun _ t => ¬Untouched m t) True := by
  obtain ⟨hs, hrest⟩ := List.forall_mem_cons.mp hsegs
  have htouched : ∀ {slot : Fin Mm.maxVmAreas} {t u : Mm} {vma : Mm.VmArea}, Mm.Inserted m t slot vma → Extends t u →
      ¬Untouched m u := by
    intro slot t u vma hinserted hextends hsame
    have hnew := hextends slot vma hinserted.new
    rw [hsame.areas, hinserted.1] at hnew
    cases hnew
  refine mapSegments_cons hs (fun next hnot => absurd haccepts hnot) fun slot t _ hinserted _ => ?_
  split
  · refine (mapSegments_result hrest (List.pairwise_cons.mp hapart).2).mono (fun _ _ _ => True.intro) (fun e u hu => ?_) id
    exact htouched hinserted hu.2
  · exact htouched hinserted fun _ _ hi => hi

/-- A first segment that `mmap` refuses leaves everything as it was. -/
theorem mapSegments_refused (hs : Placed s) (hnot : ¬Mm.Accepts m s.start (s.stop - s.start) loadFlags) :
    Act.Ensures (mapSegments (s :: rest)) m (fun _ _ => False) (fun _ t => Untouched m t) True :=
  mapSegments_cons hs (fun _ _ => ⟨rfl, rfl, rfl, rfl⟩) fun _ _ haccepts => absurd haccepts hnot

/-! ### The program -/

theorem Accepted.placed {image : List UInt8} {v : Validated} (h : Accepted image v) : ∀ s ∈ v.segs, Placed s :=
  fun s hs => ⟨h.nonempty s hs, h.user s hs⟩

/-- `load` hands out the entry behind the loop. -/
theorem allOrNothing_iff {v : Validated} : AllOrNothing m v ↔
    Act.Ensures (mapSegments v.segs) m (fun _ t => Loaded m t v.segs) (fun _ t => Untouched m t) True := by
  rw [AllOrNothing, Act.Ensures, Act.Ensures, load, Act.bind_run]
  rcases mapSegments v.segs m with ⟨_ | e | _, t⟩
  · exact and_iff_right rfl
  · exact Iff.rfl
  · exact Iff.rfl

/-- `load` maps all segments or leaves everything as it was, exactly where there is room for all of them or `mmap`
refuses the first. -/
theorem load_all_or_nothing_iff {image : List UInt8} {v : Validated} (hv : validate image = .ok v) (m : Mm)
    (hreturns : (load v m).1 ≠ .trap) : AllOrNothing m v ↔ RoomFor m v.segs ∨ FirstRefused m v.segs := by
  have haccepted := accepted_of_validate hv
  have hplaced := haccepted.placed
  have hapart := haccepted.apart
  have hresult := mapSegments_result (m := m) hplaced hapart
  rw [allOrNothing_iff]
  obtain ⟨s, hs, -⟩ := haccepted.entry
  cases hsegs : v.segs with
  | nil =>
      rw [hsegs] at hs
      cases hs
  | cons first rest =>
      rw [hsegs] at hplaced hapart hresult
      constructor
      · intro hall
        cases hrun : mapSegments (first :: rest) m with
        | mk o t =>
        cases o with
        | ok _ => exact .inl (hresult.of_ok hrun).1
        | error e =>
            refine .inr ⟨first, rfl, fun haccepts => ?_⟩
            exact (mapSegments_taken hplaced hapart haccepts).of_error hrun (hall.of_error hrun)
        | trap =>
            refine absurd ?_ hreturns
            rw [load, hsegs]
            exact Act.bind_traps (congrArg Prod.fst hrun)
      · rintro (hroom | ⟨s, hhead, hnot⟩)
        · exact hresult.mono (fun _ _ h => h.2) (fun _ _ h => absurd hroom h.1) id
        · cases Option.some.inj hhead
          have hrefused := @mapSegments_refused m first rest (hplaced first List.mem_cons_self) hnot
          exact hrefused.mono (fun _ _ h => h.elim) (fun _ _ h => h) id

/-- A program of two segments of one page each. -/
def twoPages : List UInt8 :=
  ehdrBytes 2 [64, 0, 0, 0, 0, 0, 0, 0] ++ loadBytes [0, 0, 0x40, 0, 0, 0, 0, 0] ++ loadBytes [0, 0x10, 0x40, 0, 0, 0, 0, 0]

def twoPagesLoaded : Validated :=
  { entry := 0x400000
    segs := [{ vaddr := 0x400000, memsz := 1, prot := 5, flags := 5 }, { vaddr := 0x401000, memsz := 1, prot := 5, flags := 5 }] }

theorem load_all_or_nothing_two_pages : (load twoPagesLoaded {}).1 ≠ .trap ∧
    (AllOrNothing {} twoPagesLoaded ↔ RoomFor {} twoPagesLoaded.segs ∨ FirstRefused {} twoPagesLoaded.segs) := by
  have hvalid : validate twoPages = .ok twoPagesLoaded := by decide +kernel
  have hreturns : (load twoPagesLoaded {}).1 ≠ .trap := by decide +kernel
  exact ⟨hreturns, load_all_or_nothing_iff hvalid {} hreturns⟩

/-- The page of the second segment is taken. -/
def secondTaken : Mm := (Mm.mmap 0x401000 0x1000 3 loadFlags {}).2

/-- The area of the first segment stays behind. -/
theorem first_segment_stays : ¬∀ image v m, validate image = .ok v → AllOrNothing m v := by
  intro h
  have hvalid : validate twoPages = .ok twoPagesLoaded := by decide +kernel
  have hfailed : (load twoPagesLoaded secondTaken).1 = .error .noMem := by decide +kernel
  have hbefore : (secondTaken.vmAreas ⟨1, by decide⟩).isSome = false := by decide +kernel
  have hafter : ((load twoPagesLoaded secondTaken).2.vmAreas ⟨1, by decide⟩).isSome = true := by decide +kernel
  have hsame := (h twoPages twoPagesLoaded secondTaken hvalid).of_error (Act.run_of_fst hfailed)
  rw [hsame.areas, hbefore] at hafter
  cases hafter

end Kernel.Elf64
