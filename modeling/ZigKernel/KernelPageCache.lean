import ZigKernel.LangInt
import ZigKernel.LangReturns
import ZigKernel.LibTable

/-! `src/mm/page_cache.zig`: the page cache, keyed by device and block. The sectors of a page are read into the entry
that is to be replaced before the entry gets its new key, by a reader that can fail at each of them. -/

namespace Kernel.PageCache

open Zig

def sectorsPerPage : Nat := 8
def cacheEntries : Nat := 32

abbrev Sector := Vector UInt8 512

/-- `data`, as the eight sectors `data[off .. off + 512]`. -/
abbrev Data := Fin sectorsPerPage → Sector

structure Page where
  dev : Nat := 0
  blockNr : Nat := 0
  valid : Bool := false
  dirty : Bool := false
  data : Data := fun _ => Vector.replicate 512 0

structure Cache where
  entries : Fin cacheEntries → Page := fun _ => {}
  nextVictim : Fin cacheEntries := ⟨0, by decide⟩
  hits : Nat := 0
  misses : Nat := 0

/-- The sectors of a device, by their lba. -/
abbrev Disk := Nat → Sector

inductive IoError where
  | failed
  deriving DecidableEq

/-- What a reader leaves in the slice that it was to fill, or a writer at the lba. -/
structure Reply where
  sector : Sector
  failed : Bool

/-- `reader(lba, out)`, from the lba and what `out` holds. -/
abbrev Reader := Nat → Sector → Reply

/-- `writer(lba, data)` -/
abbrev Writer := Nat → Sector → Reply

def find (c : Cache) (dev blockNr : Nat) : Option (Fin cacheEntries) :=
  Table.find? c.entries fun p => p.valid && p.dev == dev && p.blockNr == blockNr

/-- `(next_victim + 1) % CACHE_ENTRIES` -/
def next (victim : Fin cacheEntries) : Fin cacheEntries := ⟨(victim.val + 1) % cacheEntries, Nat.mod_lt _ (by decide)⟩

def Cache.setPage (c : Cache) (i : Fin cacheEntries) (p : Page) : Cache := { c with entries := Function.update c.entries i p }

/-- The sector loop of `read_page`. -/
def readSectors (reader : Reader) (baseLba : Nat) : List (Fin sectorsPerPage) → Act Data IoError Unit
  | [] => pure ()
  | s :: rest => do
      let lba ← Act.lift (addU64 baseLba s.val)
      let data ← Act.get
      let reply := reader lba (data s)
      Act.modify fun data => Function.update data s reply.sector
      if reply.failed then Act.fail .failed else readSectors reader baseLba rest

def readPage (dev blockNr : Nat) (reader : Reader) : Act Cache IoError (Fin cacheEntries) := do
  let c ← Act.get
  match find c dev blockNr with
  | some i => do
      let hits ← Act.lift (addU64 c.hits 1)
      Act.modify fun c => { c with hits }
      pure i
  | none => do
      let misses ← Act.lift (addU64 c.misses 1)
      let victim := c.nextVictim
      Act.modify fun c => { c with misses, nextVictim := next victim }
      let baseLba ← Act.lift (mulU64 blockNr sectorsPerPage)
      Act.zoom (fun c => (c.entries victim).data) (fun data c => c.setPage victim { c.entries victim with data })
        (readSectors reader baseLba (List.finRange sectorsPerPage))
      Act.modify fun c => c.setPage victim { c.entries victim with dev, blockNr, valid := true, dirty := false }
      pure victim

def markDirty (dev blockNr : Nat) (c : Cache) : Cache :=
  match find c dev blockNr with
  | some i => c.setPage i { c.entries i with dirty := true }
  | none => c

/-- The sector loop of `flush_one`, on the device. -/
def writeSectors (writer : Writer) (baseLba : Nat) (data : Data) : List (Fin sectorsPerPage) → Act Disk IoError Unit
  | [] => pure ()
  | s :: rest => do
      let lba ← Act.lift (addU64 baseLba s.val)
      let reply := writer lba (data s)
      Act.modify fun disk => Function.update disk lba reply.sector
      if reply.failed then Act.fail .failed else writeSectors writer baseLba data rest

/-- The cache and the devices behind it. -/
structure State where
  cache : Cache := {}
  disks : Nat → Disk

def flushOne (dev blockNr : Nat) (writer : Writer) : Act State IoError Bool := do
  let s ← Act.get
  match find s.cache dev blockNr with
  | none => pure false
  | some i =>
      if ¬(s.cache.entries i).dirty then pure false
      else do
        let baseLba ← Act.lift (mulU64 blockNr sectorsPerPage)
        Act.zoom (fun s => s.disks dev) (fun disk s => { s with disks := Function.update s.disks dev disk })
          (writeSectors writer baseLba (s.cache.entries i).data (List.finRange sectorsPerPage))
        Act.modify fun s => { s with cache := s.cache.setPage i { s.cache.entries i with dirty := false } }
        pure true

/-- The caller changes the page of a key that is cached, and marks it. -/
def edit (dev blockNr : Nat) (data : Data) (c : Cache) : Cache :=
  match find c dev blockNr with
  | some i => markDirty dev blockNr (c.setPage i { c.entries i with data })
  | none => markDirty dev blockNr c

/-- The sectors of a page on its device. -/
def onDisk (disk : Disk) (blockNr : Nat) : Data := fun s => disk (blockNr * sectorsPerPage + s.val)

/-! ### The search -/

section Find

variable {c : Cache} {dev blockNr : Nat} {i : Fin cacheEntries}

theorem find_some (h : find c dev blockNr = some i) :
    (c.entries i).valid = true ∧ (c.entries i).dev = dev ∧ (c.entries i).blockNr = blockNr := by
  simpa [and_assoc] using Table.find?_some h

theorem find_none (h : find c dev blockNr = none) (hvalid : (c.entries i).valid = true) :
    ¬((c.entries i).dev = dev ∧ (c.entries i).blockNr = blockNr) := by
  have hno := Table.find?_none.mp h i
  rintro ⟨rfl, rfl⟩
  simp [hvalid] at hno

/-- At most one entry is valid for a key. -/
def Unique (c : Cache) : Prop := ∀ i j, (c.entries i).valid = true → (c.entries j).valid = true →
  (c.entries i).dev = (c.entries j).dev → (c.entries i).blockNr = (c.entries j).blockNr → i = j

theorem find_eq (h : Unique c) (hvalid : (c.entries i).valid = true) :
    find c (c.entries i).dev (c.entries i).blockNr = some i := by
  refine Table.find?_eq_of_unique (by simp [hvalid]) fun j hj => ?_
  simp only [Bool.and_eq_true, beq_iff_eq] at hj
  exact h j i hj.1.1 hvalid hj.1.2 hj.2

end Find

@[simp] theorem setPage_self (c : Cache) (i : Fin cacheEntries) (p : Page) : (c.setPage i p).entries i = p :=
  Function.update_self ..

theorem setPage_of_ne {c : Cache} {i j : Fin cacheEntries} (h : j ≠ i) (p : Page) :
    (c.setPage i p).entries j = c.entries j := Function.update_of_ne h _ _

/-! ### The sector loops -/

section Loops

variable {reader : Reader} {writer : Writer} {baseLba : Nat} {data data' : Data} {disk disk' : Disk}
  {sectors : List (Fin sectorsPerPage)} {s : Fin sectorsPerPage}

/-- What the reader does with a sector of the page. -/
def replyAt (reader : Reader) (baseLba : Nat) (data : Data) (s : Fin sectorsPerPage) : Reply :=
  reader (baseLba + s.val) (data s)

/-- The page with the sectors of a list read. -/
def filled (reader : Reader) (baseLba : Nat) (data : Data) (sectors : List (Fin sectorsPerPage)) : Data :=
  fun s => if s ∈ sectors then (replyAt reader baseLba data s).sector else data s

theorem filled_nil : filled reader baseLba data [] = data := by
  funext s
  simp [filled]

theorem filled_cons (hs : s ∉ sectors) :
    filled reader baseLba (Function.update data s (replyAt reader baseLba data s).sector) sectors =
      filled reader baseLba data (s :: sectors) := by
  funext r
  by_cases hr : r = s
  · simp [filled, hr, hs]
  · simp [filled, replyAt, hr]

/-- The loop reads all sectors, or the ones up to the first at which the reader fails. -/
theorem readSectors_cases (reader : Reader) (data : Data) (hnodup : sectors.Nodup) (hlba : ∀ s ∈ sectors, baseLba + s.val < u64Bound) :
    ((∀ s ∈ sectors, (replyAt reader baseLba data s).failed = false) ∧
      readSectors reader baseLba sectors data = (.ok (), filled reader baseLba data sectors)) ∨
    ∃ before s after, sectors = before ++ s :: after ∧ (∀ r ∈ before, (replyAt reader baseLba data r).failed = false) ∧
      (replyAt reader baseLba data s).failed = true ∧
      readSectors reader baseLba sectors data = (.error .failed, filled reader baseLba data (before ++ [s])) := by
  induction sectors generalizing data with
  | nil => exact Or.inl ⟨by simp, by rw [filled_nil]; rfl⟩
  | cons s sectors ih =>
      rw [List.nodup_cons] at hnodup
      rw [List.forall_mem_cons] at hlba
      have hstep : readSectors reader baseLba (s :: sectors) data =
          if (replyAt reader baseLba data s).failed then
            (.error .failed, Function.update data s (replyAt reader baseLba data s).sector)
          else readSectors reader baseLba sectors (Function.update data s (replyAt reader baseLba data s).sector) := by
        rw [readSectors, addU64_of_lt hlba.1, Act.lift_ok_bind_run, Act.get_bind_run, Act.modify_bind_run]
        simp only [replyAt]
        by_cases hfailed : (reader (baseLba + s.val) (data s)).failed
        · rw [if_pos hfailed]
          exact (if_pos hfailed).symm
        · rw [if_neg hfailed]
          exact (if_neg hfailed).symm
      have hsame {r : Fin sectorsPerPage} (hr : r ∈ sectors) :
          replyAt reader baseLba (Function.update data s (replyAt reader baseLba data s).sector) r =
            replyAt reader baseLba data r := by
        have hrs : r ≠ s := fun heq => hnodup.1 (heq ▸ hr)
        simp [replyAt, hrs]
      rw [hstep]
      cases hfailed : (replyAt reader baseLba data s).failed with
      | true =>
          rw [if_pos rfl]
          refine Or.inr ⟨[], s, sectors, rfl, by simp, hfailed, ?_⟩
          rw [List.nil_append, ← filled_cons List.not_mem_nil, filled_nil]
      | false =>
          rw [if_neg Bool.false_ne_true]
          rcases ih _ hnodup.2 hlba.2 with ⟨hall, hrun⟩ | ⟨before, r, after, hsplit, hbefore, hr, hrun⟩
          · refine Or.inl ⟨List.forall_mem_cons.mpr ⟨hfailed, fun r hr => ?_⟩, ?_⟩
            · rw [← hsame hr]
              exact hall r hr
            · rw [hrun, filled_cons hnodup.1]
          · have hmem {q : Fin sectorsPerPage} (hq : q ∈ before ++ [r]) : q ∈ sectors := by
              rw [hsplit]
              rcases List.mem_append.mp hq with hq | hq
              · exact List.mem_append_left _ hq
              · rw [List.mem_singleton.mp hq]
                exact List.mem_append_right _ List.mem_cons_self
            refine Or.inr ⟨s :: before, r, after, by rw [hsplit, List.cons_append], ?_, ?_, ?_⟩
            · refine List.forall_mem_cons.mpr ⟨hfailed, fun q hq => ?_⟩
              rw [← hsame (hmem (List.mem_append_left _ hq))]
              exact hbefore q hq
            · rwa [hsame (hmem (List.mem_append_right _ List.mem_cons_self))] at hr
            · rw [hrun, filled_cons fun hs => hnodup.1 (hmem hs), List.cons_append]

/-- A sector is reached when the reader fails at none of those in front of it. -/
def Reached (reader : Reader) (baseLba : Nat) (data : Data) (s : Fin sectorsPerPage) : Prop :=
  ∀ r < s, (replyAt reader baseLba data r).failed = false

/-- The two ways through the sectors of a page. -/
theorem readSectors_page (reader : Reader) (data : Data) (hlba : baseLba + sectorsPerPage ≤ u64Bound) :
    ((∀ s, (replyAt reader baseLba data s).failed = false) ∧ ∃ data',
      readSectors reader baseLba (List.finRange sectorsPerPage) data = (.ok (), data') ∧
        ∀ s, data' s = (replyAt reader baseLba data s).sector) ∨
    (¬(∀ s, (replyAt reader baseLba data s).failed = false) ∧ ∃ data',
      readSectors reader baseLba (List.finRange sectorsPerPage) data = (.error .failed, data') ∧
        (data' = data ↔ ∀ s, Reached reader baseLba data s → (replyAt reader baseLba data s).sector = data s)) := by
  have hall : ∀ s ∈ List.finRange sectorsPerPage, baseLba + s.val < u64Bound := fun s _ => by
    have := s.isLt
    omega
  rcases readSectors_cases reader data (List.nodup_finRange sectorsPerPage) hall with
    ⟨hnone, hrun⟩ | ⟨before, s, after, hsplit, hbefore, hs, hrun⟩
  · refine Or.inl ⟨fun s => hnone s (List.mem_finRange s), _, hrun, fun s => ?_⟩
    rw [filled, if_pos (List.mem_finRange s)]
  · refine Or.inr ⟨fun hnone => ?_, _, hrun, ?_⟩
    · rw [hnone s] at hs
      cases hs
    -- the sectors up to the one that fails are those that are reached
    have hsorted : (before ++ s :: after).Pairwise (· < ·) := by
      rw [← hsplit]
      exact List.pairwise_lt_finRange sectorsPerPage
    rw [List.pairwise_append, List.pairwise_cons] at hsorted
    obtain ⟨-, ⟨hafter, -⟩, hfront⟩ := hsorted
    have hreached (r : Fin sectorsPerPage) : r ∈ before ++ [s] ↔ Reached reader baseLba data r := by
      rw [List.mem_append, List.mem_singleton]
      constructor
      · rintro hr q hq
        have hqs : q < s := by
          rcases hr with hr | rfl
          · exact hq.trans (hfront r hr s List.mem_cons_self)
          · exact hq
        have hmem : q ∈ before ++ s :: after := by
          rw [← hsplit]
          exact List.mem_finRange q
        rcases List.mem_append.mp hmem with hq | hq
        · exact hbefore q hq
        · rcases List.mem_cons.mp hq with rfl | hq
          · exact absurd hqs (lt_irrefl _)
          · exact absurd (hqs.trans (hafter q hq)) (lt_irrefl _)
      · intro hr
        have hmem : r ∈ before ++ s :: after := by
          rw [← hsplit]
          exact List.mem_finRange r
        rcases List.mem_append.mp hmem with hr' | hr'
        · exact Or.inl hr'
        · rcases List.mem_cons.mp hr' with rfl | hr'
          · exact Or.inr rfl
          · have := hr s (hafter r hr')
            rw [hs] at this
            cases this
    rw [funext_iff]
    refine forall_congr' fun r => ?_
    rw [filled]
    split_ifs with hr
    · rw [forall_prop_of_true ((hreached r).mp hr)]
    · exact iff_of_true rfl fun h => absurd ((hreached r).mpr h) hr

/-- The writer changes sectors of the page only, and writes all of them unless it fails. -/
theorem writeSectors_ensures (data : Data) (disk : Disk)
    (hwriter : ∀ lba data, (writer lba data).failed = false → (writer lba data).sector = data)
    (hnodup : sectors.Nodup) (hlba : ∀ s ∈ sectors, baseLba + s.val < u64Bound) :
    Act.Ensures (writeSectors writer baseLba data sectors) disk
      (fun _ disk' => (∀ s ∈ sectors, disk' (baseLba + s.val) = data s) ∧
        ∀ lba, (∀ s ∈ sectors, lba ≠ baseLba + s.val) → disk' lba = disk lba)
      (fun _ disk' => ∀ lba, (∀ s ∈ sectors, lba ≠ baseLba + s.val) → disk' lba = disk lba) False := by
  induction sectors generalizing disk with
  | nil => exact .pure ⟨by simp, fun _ _ => rfl⟩
  | cons s sectors ih =>
      rw [List.nodup_cons] at hnodup
      rw [List.forall_mem_cons] at hlba
      rw [writeSectors, addU64_of_lt hlba.1]
      have hother {disk' : Disk} (hrest : ∀ lba, (∀ r ∈ sectors, lba ≠ baseLba + r.val) →
          disk' lba = Function.update disk (baseLba + s.val) (writer (baseLba + s.val) (data s)).sector lba) (lba : Nat)
          (h : ∀ r ∈ s :: sectors, lba ≠ baseLba + r.val) : disk' lba = disk lba := by
        rw [hrest lba fun r hr => h r (List.mem_cons_of_mem _ hr)]
        exact Function.update_of_ne (h s List.mem_cons_self) _ _
      apply Act.Ensures.run_bind rfl
      apply Act.Ensures.modify_bind
      apply Act.Ensures.ite
      · exact fun _ => .fail (hother fun _ _ => rfl)
      · intro hok
        refine (ih _ hnodup.2 hlba.2).mono (fun _ disk' h => ⟨?_, hother h.2⟩) (fun _ disk' h => hother h) id
        refine List.forall_mem_cons.mpr ⟨?_, h.1⟩
        have hnot : ∀ r ∈ sectors, baseLba + s.val ≠ baseLba + r.val := by
          intro r hr heq
          have hsr : s = r := Fin.ext (by omega)
          exact hnodup.1 (hsr ▸ hr)
        rw [h.2 (baseLba + s.val) hnot, Function.update_self]
        exact hwriter _ _ (by simpa using hok)

end Loops

end Kernel.PageCache
