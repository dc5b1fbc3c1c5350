import ZigKernel.KernelPageCache
import ZigKernel.LangSigned
import ZigKernel.LibRuns

/-! The page cache over runs. What a key holds is its device, or what was written to its page since it was last cached or
flushed. A reader that fails halfway leaves a page with sectors of two blocks behind, which is valid under its old key. -/

namespace Kernel.PageCache

open Zig

/-- `base_lba` and the sectors behind it fit in 64 bits below this. -/
def maxBlocks : Nat := 2 ^ 61

def Page.key (p : Page) : Nat × Nat := (p.dev, p.blockNr)

/-- The cache, the devices, and the edits of pages since they were cached or flushed. -/
structure Books extends State where
  edits : Nat × Nat → Option Data := fun _ => none

/-- What the page of a key holds. -/
def Books.content (s : Books) (key : Nat × Nat) : Data := (s.edits key).getD (onDisk (s.disks key.1) key.2)

def Books.victim (s : Books) : Page := s.cache.entries s.cache.nextVictim

/-- The edits of a page that is replaced are lost. -/
def Books.evicted (s : Books) : Nat × Nat → Option Data :=
  if s.victim.valid then Function.update s.edits s.victim.key none else s.edits

/-- The reader fills a slice with the sector of the device, unless it fails. -/
def Reads (disk : Disk) (reader : Reader) : Prop :=
  ∀ lba old, (reader lba old).failed = false → (reader lba old).sector = disk lba

def Writes (writer : Writer) : Prop := ∀ lba data, (writer lba data).failed = false → (writer lba data).sector = data

/-- The calls with their results; there is none where the call fails. -/
inductive Event where
  | read (dev blockNr : Nat) (reader : Reader) (page : Option (Fin cacheEntries))
  | edit (dev blockNr : Nat) (data : Data)
  | flush (dev blockNr : Nat) (writer : Writer) (flushed : Option Bool)

inductive Step (s : Books) : Event → Books → Prop where
  | hit {dev blockNr : Nat} {reader : Reader} {i : Fin cacheEntries} {c : Cache} (hblock : blockNr < maxBlocks)
      (hreader : Reads (s.disks dev) reader) (hfind : find s.cache dev blockNr ≠ none)
      (h : readPage dev blockNr reader s.cache = (.ok i, c)) :
      Step s (.read dev blockNr reader (some i)) { s with cache := c }
  | fill {dev blockNr : Nat} {reader : Reader} {i : Fin cacheEntries} {c : Cache} (hblock : blockNr < maxBlocks)
      (hreader : Reads (s.disks dev) reader) (hfind : find s.cache dev blockNr = none)
      (h : readPage dev blockNr reader s.cache = (.ok i, c)) :
      Step s (.read dev blockNr reader (some i)) { s with cache := c, edits := s.evicted }
  | unread {dev blockNr : Nat} {reader : Reader} {e : IoError} {c : Cache} (hblock : blockNr < maxBlocks)
      (hreader : Reads (s.disks dev) reader) (h : readPage dev blockNr reader s.cache = (.error e, c)) :
      Step s (.read dev blockNr reader none) { s with cache := c }
  | edit {dev blockNr : Nat} (hblock : blockNr < maxBlocks) (data : Data) :
      Step s (.edit dev blockNr data) { s with
        cache := PageCache.edit dev blockNr data s.cache
        edits := if (find s.cache dev blockNr).isSome then Function.update s.edits (dev, blockNr) (some data) else s.edits }
  | flushed {dev blockNr : Nat} {writer : Writer} {t : State} (hblock : blockNr < maxBlocks) (hwriter : Writes writer)
      (h : flushOne dev blockNr writer s.toState = (.ok true, t)) :
      Step s (.flush dev blockNr writer (some true)) ⟨t, Function.update s.edits (dev, blockNr) none⟩
  | clean {dev blockNr : Nat} {writer : Writer} {t : State} (hblock : blockNr < maxBlocks) (hwriter : Writes writer)
      (h : flushOne dev blockNr writer s.toState = (.ok false, t)) :
      Step s (.flush dev blockNr writer (some false)) ⟨t, s.edits⟩
  | unflushed {dev blockNr : Nat} {writer : Writer} {e : IoError} {t : State} (hblock : blockNr < maxBlocks)
      (hwriter : Writes writer) (h : flushOne dev blockNr writer s.toState = (.error e, t)) :
      Step s (.flush dev blockNr writer none) ⟨t, s.edits⟩

/-- A key has one page, and a page that is not dirty is what the device holds. -/
def Coherent (s : Books) : Prop := Unique s.cache ∧
  ∀ i, (s.cache.entries i).valid = true → (s.cache.entries i).dirty = false →
    (s.cache.entries i).data = onDisk (s.disks (s.cache.entries i).dev) (s.cache.entries i).blockNr

/-- Every valid entry keeps its key and its data. -/
def Untouched (c c' : Cache) : Prop := ∀ i, (c.entries i).valid = true → (c'.entries i).valid = true ∧
  (c'.entries i).key = (c.entries i).key ∧ (c'.entries i).data = (c.entries i).data

/-- What is expected of the result of a call. -/
def Event.Expected (s t : Books) : Event → Prop
  | read dev blockNr _ (some i) => (t.cache.entries i).valid = true ∧ (t.cache.entries i).key = (dev, blockNr) ∧
      (t.cache.entries i).data = s.content (dev, blockNr)
  | read _ _ _ none => Untouched s.cache t.cache
  | flush _ _ _ none => Untouched s.cache t.cache
  | _ => True

def Event.Accounted (s : Books) (e : Event) (t : Books) : Prop := Coherent t ∧ e.Expected s t

/-- Where a page has to be read and the reader fails, the entry that is to be replaced is not valid, or the reader leaves
in it what it holds. -/
def Event.Covered (s : Books) : Event → Prop
  | read dev blockNr reader _ => find s.cache dev blockNr = none →
      (∃ r, (replyAt reader (blockNr * sectorsPerPage) s.victim.data r).failed = true) → s.victim.valid = true →
        ∀ r, Reached reader (blockNr * sectorsPerPage) s.victim.data r →
          (replyAt reader (blockNr * sectorsPerPage) s.victim.data r).sector = s.victim.data r
  | _ => True

/-- The page holds what its key holds, and is dirty if that has been edited. -/
structure Books.Holds (s : Books) (p : Page) : Prop where
  bounded : p.blockNr < maxBlocks
  data : p.data = s.content p.key
  dirty : p.dirty = true ↔ (s.edits p.key).isSome = true

structure Good (s : Books) : Prop where
  unique : Unique s.cache
  holds : ∀ i, (s.cache.entries i).valid = true → s.Holds (s.cache.entries i)
  cached : ∀ key, (s.edits key).isSome = true → ∃ i, (s.cache.entries i).valid = true ∧ (s.cache.entries i).key = key

section Steps

variable {s t : Books} {e : Event} {c c' : Cache} {dev blockNr : Nat} {reader : Reader} {writer : Writer}
  {i : Fin cacheEntries}

theorem Books.Holds.congr {p : Page} (h : s.Holds p)
    (hdisk : onDisk (t.disks p.dev) p.blockNr = onDisk (s.disks p.dev) p.blockNr) (hedits : t.edits p.key = s.edits p.key) :
    t.Holds p := by
  refine ⟨h.bounded, ?_, ?_⟩
  · rw [h.data, Books.content, Books.content, hedits]
    exact congrArg _ hdisk.symm
  · rw [h.dirty, hedits]

theorem Good.coherent (h : Good s) : Coherent s := by
  refine ⟨h.unique, fun i hvalid hclean => ?_⟩
  have hnone : s.edits (s.cache.entries i).key = none := by
    rw [← Option.not_isSome_iff_eq_none, ← (h.holds i hvalid).dirty, hclean]
    exact Bool.false_ne_true
  rw [(h.holds i hvalid).data, Books.content, hnone]
  rfl

/-- What is not cached has no edits. -/
theorem Good.no_edits (h : Good s) (hfind : find s.cache dev blockNr = none) : s.edits (dev, blockNr) = none := by
  rw [← Option.not_isSome_iff_eq_none]
  intro hsome
  obtain ⟨i, hvalid, hkey⟩ := h.cached _ hsome
  exact find_none hfind hvalid ⟨congrArg Prod.fst hkey, congrArg Prod.snd hkey⟩

/-- The keys of two valid entries are two. -/
theorem Good.key_inj (h : Good s) {i j : Fin cacheEntries} (hi : (s.cache.entries i).valid = true)
    (hj : (s.cache.entries j).valid = true) (hkey : (s.cache.entries i).key = (s.cache.entries j).key) : i = j :=
  h.unique i j hi hj (congrArg Prod.fst hkey) (congrArg Prod.snd hkey)

/-- The books are about the entries only. -/
theorem Good.congr (h : Good s) (hentries : c.entries = s.cache.entries) : Good { s with cache := c } := by
  refine ⟨fun i j => ?_, fun i => ?_, fun key hsome => ?_⟩
  · rw [hentries]
    exact h.unique i j
  · rw [hentries]
    exact fun hvalid => (h.holds i hvalid).congr rfl rfl
  · rw [hentries]
    exact h.cached key hsome

/-- One entry is replaced; the others stay what they are, and hold what they held. -/
theorem Good.replace (h : Good s) {p : Page} (hentries : t.cache.entries = Function.update s.cache.entries i p)
    (hself : p.valid = true → t.Holds p ∧ ∀ j, j ≠ i → (s.cache.entries j).valid = true → (s.cache.entries j).key ≠ p.key)
    (hothers : ∀ j, j ≠ i → (s.cache.entries j).valid = true → t.Holds (s.cache.entries j))
    (hedits : ∀ key, (t.edits key).isSome = true → p.valid = true ∧ p.key = key ∨
      ∃ j, j ≠ i ∧ (s.cache.entries j).valid = true ∧ (s.cache.entries j).key = key) : Good t := by
  have hi : t.cache.entries i = p := by rw [hentries, Function.update_self]
  have hj {j : Fin cacheEntries} (hne : j ≠ i) : t.cache.entries j = s.cache.entries j := by
    rw [hentries, Function.update_of_ne hne]
  refine ⟨fun j k hjv hkv hdev hblock => ?_, fun j hjv => ?_, fun key hsome => ?_⟩
  · by_cases hji : j = i
    · by_cases hki : k = i
      · rw [hji, hki]
      · rw [hji, hi] at hjv hdev hblock
        rw [hj hki] at hkv hdev hblock
        exact absurd (Prod.ext hdev.symm hblock.symm) ((hself hjv).2 k hki hkv)
    · rw [hj hji] at hjv hdev hblock
      by_cases hki : k = i
      · rw [hki, hi] at hkv hdev hblock
        exact absurd (Prod.ext hdev hblock) ((hself hkv).2 j hji hjv)
      · rw [hj hki] at hkv hdev hblock
        exact h.unique j k hjv hkv hdev hblock
  · by_cases hji : j = i
    · rw [hji, hi] at hjv ⊢
      exact (hself hjv).1
    · rw [hj hji] at hjv ⊢
      exact hothers j hji hjv
  · rcases hedits key hsome with ⟨hvalid, hkey⟩ | ⟨j, hne, hvalid, hkey⟩
    · exact ⟨i, by rwa [hi], by rwa [hi]⟩
    · exact ⟨j, by rwa [hj hne], by rwa [hj hne]⟩

/-! ### Reading -/

theorem base_fits (hblock : blockNr < maxBlocks) : blockNr * sectorsPerPage < u64Bound ∧
    blockNr * sectorsPerPage + sectorsPerPage ≤ u64Bound := by
  rw [maxBlocks] at hblock
  rw [sectorsPerPage, u64Bound]
  omega

/-- A call on the data of an entry. -/
theorem zoom_page {m : Act Data IoError Unit} {o : Outcome IoError Unit} {data data' : Data}
    (hdata : (c.entries i).data = data) (hrun : m data = (o, data')) :
    Act.zoom (fun c => (c.entries i).data) (fun data c => c.setPage i { c.entries i with data }) m c =
      (o, c.setPage i { c.entries i with data := data' }) := by
  rw [Act.zoom, hdata, hrun]

/-- The ways in which `read_page` ends. -/
theorem readPage_cases (hblock : blockNr < maxBlocks) {o : Outcome IoError (Fin cacheEntries)}
    (h : readPage dev blockNr reader c = (o, c')) :
    o = .trap ∨
    (∃ i, find c dev blockNr = some i ∧ o = .ok i ∧ c'.entries = c.entries) ∨
    find c dev blockNr = none ∧
      ((∀ r, (replyAt reader (blockNr * sectorsPerPage) (c.entries c.nextVictim).data r).failed = false) ∧
          o = .ok c.nextVictim ∧ c'.entries = Function.update c.entries c.nextVictim
            { dev, blockNr, valid := true, dirty := false
              data := fun r => (replyAt reader (blockNr * sectorsPerPage) (c.entries c.nextVictim).data r).sector } ∨
        ¬(∀ r, (replyAt reader (blockNr * sectorsPerPage) (c.entries c.nextVictim).data r).failed = false) ∧
          o = .error .failed ∧ ∃ data,
            c'.entries = Function.update c.entries c.nextVictim { c.entries c.nextVictim with data } ∧
              (data = (c.entries c.nextVictim).data ↔
                ∀ r, Reached reader (blockNr * sectorsPerPage) (c.entries c.nextVictim).data r →
                  (replyAt reader (blockNr * sectorsPerPage) (c.entries c.nextVictim).data r).sector =
                    (c.entries c.nextVictim).data r)) := by
  rw [readPage, Act.get_bind_run] at h
  cases hfind : find c dev blockNr with
  | some i =>
      rw [hfind] at h
      dsimp only at h
      by_cases hhits : c.hits + 1 < u64Bound
      · rw [addU64_of_lt hhits] at h
        cases h
        exact Or.inr (Or.inl ⟨i, rfl, rfl, rfl⟩)
      · rw [addU64_of_le (Nat.le_of_not_lt hhits)] at h
        cases h
        exact Or.inl rfl
  | none =>
      rw [hfind] at h
      dsimp only at h
      by_cases hmisses : c.misses + 1 < u64Bound
      swap
      · rw [addU64_of_le (Nat.le_of_not_lt hmisses)] at h
        cases h
        exact Or.inl rfl
      obtain ⟨hbase, hroom⟩ := base_fits hblock
      rw [addU64_of_lt hmisses, Act.lift_ok_bind_run, Act.modify_bind_run, mulU64_of_lt hbase, Act.lift_ok_bind_run] at h
      rcases readSectors_page reader (c.entries c.nextVictim).data hroom with
        ⟨hnone, data, hrun, hdata⟩ | ⟨hsome, data, hrun, hdata⟩
      · have hzoom := zoom_page (c := { c with misses := c.misses + 1, nextVictim := next c.nextVictim }) rfl hrun
        rw [Act.bind_ok_run hzoom, Act.modify_bind_run] at h
        cases h
        refine Or.inr (Or.inr ⟨rfl, Or.inl ⟨hnone, rfl, ?_⟩⟩)
        have hfilled : data = fun r => (replyAt reader (blockNr * sectorsPerPage) (c.entries c.nextVictim).data r).sector :=
          funext hdata
        rw [← hfilled]
        simp [Cache.setPage]
      · have hzoom := zoom_page (c := { c with misses := c.misses + 1, nextVictim := next c.nextVictim }) rfl hrun
        rw [Act.bind_error_run hzoom] at h
        cases h
        exact Or.inr (Or.inr ⟨rfl, Or.inr ⟨hsome, rfl, data, rfl, hdata⟩⟩)

/-- The entries of the other keys. -/
theorem Good.evicted_other (h : Good s) {j : Fin cacheEntries} (hj : j ≠ s.cache.nextVictim)
    (hvalid : (s.cache.entries j).valid = true) : s.evicted (s.cache.entries j).key = s.edits (s.cache.entries j).key := by
  rw [Books.evicted]
  split_ifs with hold
  · exact Function.update_of_ne (fun heq => hj (h.key_inj hvalid hold heq)) _ _
  · rfl

/-- A page that is read into the entry of another. -/
theorem Good.filled (h : Good s) (hblock : blockNr < maxBlocks) (hfind : find s.cache dev blockNr = none) {p : Page}
    (hkey : p.key = (dev, blockNr)) (hclean : p.dirty = false) (hdata : p.data = onDisk (s.disks dev) blockNr)
    (hentries : c.entries = Function.update s.cache.entries s.cache.nextVictim p) :
    Good { s with cache := c, edits := s.evicted } := by
  have hnew {j : Fin cacheEntries} (hj : (s.cache.entries j).valid = true) : (s.cache.entries j).key ≠ (dev, blockNr) :=
    fun heq => find_none hfind hj ⟨congrArg Prod.fst heq, congrArg Prod.snd heq⟩
  have hnone : s.evicted (dev, blockNr) = none := by
    rw [Books.evicted]
    split_ifs with hold
    · have hne : (dev, blockNr) ≠ s.victim.key := (hnew hold).symm
      rw [Function.update_of_ne hne, h.no_edits hfind]
    · exact h.no_edits hfind
  refine h.replace hentries (fun _ => ⟨⟨?_, ?_, ?_⟩, fun j _ hj => ?_⟩) (fun j hj hjv => ?_) fun key hsome => ?_
  · rw [show p.blockNr = blockNr from congrArg Prod.snd hkey]
    exact hblock
  · rw [hdata, Books.content, hkey]
    dsimp only
    rw [hnone]
    rfl
  · rw [hclean, hkey]
    dsimp only
    rw [hnone]
    simp
  · rw [hkey]
    exact hnew hj
  · exact (h.holds j hjv).congr rfl (h.evicted_other hj hjv)
  · -- what has edits still was cached before, in another entry
    right
    dsimp only [Books.evicted] at hsome
    split_ifs at hsome with hold
    · by_cases hkey' : key = s.victim.key
      · rw [hkey', Function.update_self] at hsome
        cases hsome
      · rw [Function.update_of_ne hkey'] at hsome
        obtain ⟨j, hj, heq⟩ := h.cached key hsome
        refine ⟨j, ?_, hj, heq⟩
        rintro rfl
        exact hkey' heq.symm
    · obtain ⟨j, hj, heq⟩ := h.cached key hsome
      refine ⟨j, ?_, hj, heq⟩
      rintro rfl
      exact hold hj

/-- A page of which some sectors may have been read over is no worse if it is not valid, or the sectors are the old ones. -/
theorem Good.half_filled (h : Good s) {data : Data}
    (hentries : c.entries = Function.update s.cache.entries s.cache.nextVictim { s.victim with data })
    (hsame : s.victim.valid = true → data = s.victim.data) : Good { s with cache := c } := by
  by_cases hold : s.victim.valid = true
  · refine h.congr ?_
    rw [hentries, hsame hold]
    exact Function.update_eq_self _ _
  · refine h.replace hentries (fun hvalid => absurd hvalid hold) (fun j _ hj => (h.holds j hj).congr rfl rfl)
      fun key hsome => ?_
    obtain ⟨j, hj, hkey⟩ := h.cached key hsome
    refine Or.inr ⟨j, ?_, hj, hkey⟩
    rintro rfl
    exact hold hj

/-! ### Editing -/

theorem find_setPage {p : Page} (hvalid : p.valid = (c.entries i).valid) (hkey : p.key = (c.entries i).key) :
    find (c.setPage i p) dev blockNr = find c dev blockNr := by
  refine Table.find?_congr fun j => ?_
  by_cases hj : j = i
  · rw [hj, setPage_self, hvalid, show p.dev = (c.entries i).dev from congrArg Prod.fst hkey,
      show p.blockNr = (c.entries i).blockNr from congrArg Prod.snd hkey]
  · rw [setPage_of_ne hj]

theorem edit_entries (hfind : find c dev blockNr = some i) (data : Data) :
    (edit dev blockNr data c).entries = Function.update c.entries i { c.entries i with data, dirty := true } := by
  have hagain : find (c.setPage i { c.entries i with data }) dev blockNr = some i := by
    exact (find_setPage (p := { c.entries i with data }) rfl rfl).trans hfind
  rw [edit, hfind]
  dsimp only
  rw [markDirty, hagain]
  simp [Cache.setPage]

theorem Good.edited (h : Good s) (data : Data) : Good { s with
    cache := PageCache.edit dev blockNr data s.cache
    edits := if (find s.cache dev blockNr).isSome then Function.update s.edits (dev, blockNr) (some data) else s.edits } := by
  cases hfind : find s.cache dev blockNr with
  | none =>
      refine h.congr ?_
      rw [edit, hfind]
      dsimp only
      rw [markDirty, hfind]
  | some i =>
      obtain ⟨hvalid, hdev, hblock⟩ := find_some hfind
      have hkey : (s.cache.entries i).key = (dev, blockNr) := Prod.ext hdev hblock
      have hother {j : Fin cacheEntries} (hj : j ≠ i) (hjv : (s.cache.entries j).valid = true) :
          (s.cache.entries j).key ≠ (dev, blockNr) := fun heq => hj (h.key_inj hjv hvalid (heq.trans hkey.symm))
      have hedit : Function.update s.edits (dev, blockNr) (some data) (s.cache.entries i).key = some data := by
        rw [hkey, Function.update_self]
      refine h.replace (edit_entries hfind data) (fun _ => ⟨⟨(h.holds i hvalid).bounded, ?_, ?_⟩, fun j hj hjv => ?_⟩)
        (fun j hj hjv => (h.holds j hjv).congr rfl (Function.update_of_ne (hother hj hjv) _ _)) fun key hsome => ?_
      · show data = (Function.update s.edits (dev, blockNr) (some data) (s.cache.entries i).key).getD _
        rw [hedit]
        rfl
      · show true = true ↔ (Function.update s.edits (dev, blockNr) (some data) (s.cache.entries i).key).isSome = true
        rw [hedit]
        exact Iff.rfl
      · show (s.cache.entries j).key ≠ (s.cache.entries i).key
        rw [hkey]
        exact hother hj hjv
      · by_cases hk : key = (dev, blockNr)
        · exact Or.inl ⟨hvalid, hkey.trans hk.symm⟩
        · change (Function.update s.edits (dev, blockNr) (some data) key).isSome = true at hsome
          rw [Function.update_of_ne hk] at hsome
          obtain ⟨j, hj, heq⟩ := h.cached key hsome
          refine Or.inr ⟨j, ?_, hj, heq⟩
          rintro rfl
          exact hk (heq.symm.trans hkey)

/-! ### Flushing -/

/-- The ways in which `flush_one` ends. -/
theorem flushOne_cases {s t : State} (hblock : blockNr < maxBlocks) (hwriter : Writes writer) {o : Outcome IoError Bool}
    (h : flushOne dev blockNr writer s = (o, t)) :
    (o = .ok false ∧ t = s) ∨
    ∃ i disk, find s.cache dev blockNr = some i ∧ (s.cache.entries i).dirty = true ∧
      (∀ lba, (∀ r : Fin sectorsPerPage, lba ≠ blockNr * sectorsPerPage + r.val) → disk lba = s.disks dev lba) ∧
      t.disks = Function.update s.disks dev disk ∧
      ((o = .ok true ∧ onDisk disk blockNr = (s.cache.entries i).data ∧
          t.cache = s.cache.setPage i { s.cache.entries i with dirty := false }) ∨
        (∃ e, o = .error e) ∧ t.cache = s.cache) := by
  rw [flushOne, Act.get_bind_run] at h
  cases hfind : find s.cache dev blockNr with
  | none =>
      rw [hfind] at h
      cases h
      exact Or.inl ⟨rfl, rfl⟩
  | some i =>
      rw [hfind] at h
      dsimp only at h
      by_cases hdirty : (s.cache.entries i).dirty = true
      swap
      · rw [if_pos hdirty] at h
        cases h
        exact Or.inl ⟨rfl, rfl⟩
      obtain ⟨hbase, hroom⟩ := base_fits hblock
      rw [if_neg (not_not.mpr hdirty), mulU64_of_lt hbase, Act.lift_ok_bind_run] at h
      have hwrite := writeSectors_ensures (s.cache.entries i).data (s.disks dev) hwriter (List.nodup_finRange sectorsPerPage)
        fun r _ => Nat.lt_of_lt_of_le (Nat.add_lt_add_left r.isLt _) hroom
      have hzoom {o : Outcome IoError Unit} {disk : Disk} (hrun : writeSectors writer (blockNr * sectorsPerPage)
          (s.cache.entries i).data (List.finRange sectorsPerPage) (s.disks dev) = (o, disk)) :
          Act.zoom (fun s => s.disks dev) (fun disk s => { s with disks := Function.update s.disks dev disk })
            (writeSectors writer (blockNr * sectorsPerPage) (s.cache.entries i).data (List.finRange sectorsPerPage)) s =
              (o, { s with disks := Function.update s.disks dev disk }) := by
        rw [Act.zoom, hrun]
      cases hrun : writeSectors writer (blockNr * sectorsPerPage) (s.cache.entries i).data (List.finRange sectorsPerPage)
          (s.disks dev) with
      | mk o' disk =>
          refine Or.inr ⟨i, disk, rfl, hdirty, ?_⟩
          cases o' with
          | ok _ =>
              rw [Act.bind_ok_run (hzoom hrun)] at h
              cases h
              obtain ⟨hwritten, hothers⟩ := hwrite.of_ok hrun
              refine ⟨fun lba hlba => hothers lba fun r _ => hlba r, rfl, Or.inl ⟨rfl, ?_, rfl⟩⟩
              exact funext fun r => hwritten r (List.mem_finRange r)
          | error e =>
              rw [Act.bind_error_run (hzoom hrun)] at h
              cases h
              exact ⟨fun lba hlba => hwrite.of_error hrun lba fun r _ => hlba r, rfl, Or.inr ⟨⟨e, rfl⟩, rfl⟩⟩
          | trap => exact (hwrite.of_trap hrun).elim

/-- The pages of other keys are on other sectors. -/
theorem onDisk_other {disks : Nat → Disk} {disk : Disk} {key : Nat × Nat}
    (hdisk : ∀ lba, (∀ r : Fin sectorsPerPage, lba ≠ blockNr * sectorsPerPage + r.val) → disk lba = disks dev lba)
    (hkey : key ≠ (dev, blockNr)) :
    onDisk (Function.update disks dev disk key.1) key.2 = onDisk (disks key.1) key.2 := by
  by_cases hdev : key.1 = dev
  · rw [hdev, Function.update_self]
    funext r
    refine hdisk _ fun q heq => hkey (Prod.ext hdev ?_)
    show key.2 = blockNr
    have hr : r.val < 8 := r.isLt
    have hq : q.val < 8 := q.isLt
    change key.2 * 8 + r.val = blockNr * 8 + q.val at heq
    omega
  · rw [Function.update_of_ne hdev]

/-- The sectors of a key are written over, and its edits are over or still there. -/
theorem Good.written (h : Good s) {disk : Disk} (hfind : find s.cache dev blockNr = some i)
    (hdisk : ∀ lba, (∀ r : Fin sectorsPerPage, lba ≠ blockNr * sectorsPerPage + r.val) → disk lba = s.disks dev lba)
    {p : Page} (hentries : t.cache.entries = Function.update s.cache.entries i p)
    (hdisks : t.disks = Function.update s.disks dev disk) (hedits : ∀ key, key ≠ (dev, blockNr) → t.edits key = s.edits key)
    (hpage : p.valid = true ∧ p.key = (dev, blockNr) ∧ t.Holds p) : Good t := by
  obtain ⟨hvalid, hdev, hblock⟩ := find_some hfind
  have hkey : (s.cache.entries i).key = (dev, blockNr) := Prod.ext hdev hblock
  have hother {j : Fin cacheEntries} (hj : j ≠ i) (hjv : (s.cache.entries j).valid = true) :
      (s.cache.entries j).key ≠ (dev, blockNr) := fun heq => hj (h.key_inj hjv hvalid (heq.trans hkey.symm))
  refine h.replace hentries (fun _ => ⟨hpage.2.2, fun j hj hjv => ?_⟩) (fun j hj hjv => ?_) fun key hsome => ?_
  · rw [hpage.2.1]
    exact hother hj hjv
  · refine (h.holds j hjv).congr ?_ (hedits _ (hother hj hjv))
    rw [hdisks]
    exact onDisk_other hdisk (hother hj hjv)
  · by_cases hk : key = (dev, blockNr)
    · exact Or.inl ⟨hpage.1, hpage.2.1.trans hk.symm⟩
    · rw [hedits key hk] at hsome
      obtain ⟨j, hj, heq⟩ := h.cached key hsome
      refine Or.inr ⟨j, ?_, hj, heq⟩
      rintro rfl
      exact hk (heq.symm.trans hkey)

/-! ### One call -/

/-- A call that leaves the books in order is accounted for if its result is the expected one. -/
theorem accounted_iff_of_good (ht : Good t) : e.Accounted s t ↔ e.Expected s t :=
  and_iff_right ht.coherent

theorem untouched_of_entries (hentries : c'.entries = c.entries) : Untouched c c' := by
  intro i hvalid
  rw [hentries]
  exact ⟨hvalid, rfl, rfl⟩

/-- What a read puts in an entry of which the old page was valid is noticed. -/
theorem untouched_half_filled {data : Data} (hold : (c.entries i).valid = true)
    (hentries : c'.entries = Function.update c.entries i { c.entries i with data }) :
    Untouched c c' ↔ data = (c.entries i).data := by
  constructor
  · intro h
    have hdata := (h i hold).2.2
    rwa [hentries, Function.update_self] at hdata
  · rintro rfl
    refine untouched_of_entries ?_
    rw [hentries]
    exact Function.update_eq_self _ _

theorem read_hit_step (hs : Good s) (hblock : blockNr < maxBlocks) (hfind : find s.cache dev blockNr ≠ none)
    (h : readPage dev blockNr reader s.cache = (.ok i, c)) :
    Good { s with cache := c } ∧ (Event.read dev blockNr reader (some i)).Expected s { s with cache := c } := by
  rcases readPage_cases hblock h with htrap | ⟨j, hj, hok, hentries⟩ | ⟨hnone, -⟩
  · cases htrap
  · cases hok
    obtain ⟨hvalid, hdev, hnr⟩ := find_some hj
    refine ⟨hs.congr hentries, ?_⟩
    show (c.entries i).valid = true ∧ (c.entries i).key = (dev, blockNr) ∧ (c.entries i).data = s.content (dev, blockNr)
    have hkey : (s.cache.entries i).key = (dev, blockNr) := Prod.ext hdev hnr
    rw [hentries, ← hkey]
    exact ⟨hvalid, rfl, (hs.holds i hvalid).data⟩
  · exact absurd hnone hfind

theorem read_fill_step (hs : Good s) (hblock : blockNr < maxBlocks) (hreader : Reads (s.disks dev) reader)
    (hfind : find s.cache dev blockNr = none) (h : readPage dev blockNr reader s.cache = (.ok i, c)) :
    Good { s with cache := c, edits := s.evicted } ∧
      (Event.read dev blockNr reader (some i)).Expected s { s with cache := c, edits := s.evicted } := by
  rcases readPage_cases hblock h with htrap | ⟨j, hj, -, -⟩ | ⟨-, ⟨hall, hok, hentries⟩ | ⟨-, herror, -⟩⟩
  · cases htrap
  · rw [hfind] at hj
    cases hj
  · cases hok
    have hdata : (fun r => (replyAt reader (blockNr * sectorsPerPage) (s.cache.entries s.cache.nextVictim).data r).sector) =
        onDisk (s.disks dev) blockNr := funext fun r => hreader _ _ (hall r)
    rw [hdata] at hentries
    refine ⟨hs.filled hblock hfind rfl rfl rfl hentries, ?_⟩
    show (c.entries _).valid = true ∧ (c.entries _).key = _ ∧ (c.entries _).data = s.content (dev, blockNr)
    rw [hentries, Function.update_self, Books.content, hs.no_edits hfind]
    exact ⟨rfl, rfl, rfl⟩
  · cases herror

/-- A read that fails is accounted for exactly if it leaves a valid page as it is. -/
theorem read_failed_step (hs : Good s) (hblock : blockNr < maxBlocks) {err : IoError}
    (h : readPage dev blockNr reader s.cache = (.error err, c)) :
    (Untouched s.cache c ↔ (Event.read dev blockNr reader none).Covered s) ∧
      ((Event.read dev blockNr reader none).Covered s → Good { s with cache := c }) := by
  rcases readPage_cases hblock h with htrap | ⟨j, -, hok, -⟩ | ⟨hnone, ⟨-, hok, -⟩ | ⟨hfails, -, data, hentries, hsame⟩⟩
  · cases htrap
  · cases hok
  · cases hok
  have hfailed : ∃ r, (replyAt reader (blockNr * sectorsPerPage) s.victim.data r).failed = true := by
    simpa [Books.victim] using hfails
  have hcovered : (Event.read dev blockNr reader none).Covered s ↔ (s.victim.valid = true → data = s.victim.data) := by
    rw [Event.Covered, forall_prop_of_true hnone, forall_prop_of_true hfailed]
    exact forall_congr' fun _ => hsame.symm
  rw [hcovered]
  refine ⟨?_, hs.half_filled hentries⟩
  by_cases hold : s.victim.valid = true
  · rw [forall_prop_of_true hold]
    exact untouched_half_filled hold hentries
  · refine iff_of_true (fun j hj => ?_) fun h => absurd h hold
    have hne : j ≠ s.cache.nextVictim := by
      rintro rfl
      exact hold hj
    rw [hentries, Function.update_of_ne hne]
    exact ⟨hj, rfl, rfl⟩

theorem flushed_step (hs : Good s) (hblock : blockNr < maxBlocks) (hwriter : Writes writer) {u : State}
    (h : flushOne dev blockNr writer s.toState = (.ok true, u)) :
    Good ⟨u, Function.update s.edits (dev, blockNr) none⟩ := by
  rcases flushOne_cases hblock hwriter h with ⟨hok, -⟩ | ⟨i, disk, hfind, -, hdisk, hdisks, ⟨-, hdata, hcache⟩ | ⟨⟨e, he⟩, -⟩⟩
  · cases hok
  · obtain ⟨hvalid, hdev, hnr⟩ := find_some hfind
    have hkey : (s.cache.entries i).key = (dev, blockNr) := Prod.ext hdev hnr
    have hentries := congrArg Cache.entries hcache
    refine hs.written hfind hdisk hentries hdisks (fun key hk => Function.update_of_ne hk _ _) ⟨hvalid, hkey, ?_⟩
    refine ⟨(hs.holds i hvalid).bounded, ?_, ?_⟩
    · show (s.cache.entries i).data = Option.getD (Function.update s.edits (dev, blockNr) none (s.cache.entries i).key)
        (onDisk (u.disks (s.cache.entries i).key.1) (s.cache.entries i).key.2)
      rw [hkey, Function.update_self, hdisks, Function.update_self, Option.getD_none, hdata]
    · show false = true ↔ (Function.update s.edits (dev, blockNr) none (s.cache.entries i).key).isSome = true
      rw [hkey, Function.update_self]
      exact Iff.rfl
  · cases he

theorem clean_step (hs : Good s) (hblock : blockNr < maxBlocks) (hwriter : Writes writer) {u : State}
    (h : flushOne dev blockNr writer s.toState = (.ok false, u)) : Good ⟨u, s.edits⟩ := by
  rcases flushOne_cases hblock hwriter h with ⟨-, rfl⟩ | ⟨i, disk, -, -, -, -, ⟨hok, -⟩ | ⟨⟨e, he⟩, -⟩⟩
  · exact hs
  · cases hok
  · cases he

/-- A flush that fails has written over sectors of a page that stays dirty. -/
theorem unflushed_step (hs : Good s) (hblock : blockNr < maxBlocks) (hwriter : Writes writer) {u : State} {err : IoError}
    (h : flushOne dev blockNr writer s.toState = (.error err, u)) :
    Good ⟨u, s.edits⟩ ∧ Untouched s.cache u.cache := by
  rcases flushOne_cases hblock hwriter h with
    ⟨hok, -⟩ | ⟨i, disk, hfind, hdirty, hdisk, hdisks, ⟨hok, -⟩ | ⟨-, hcache⟩⟩
  · cases hok
  · cases hok
  obtain ⟨hvalid, hdev, hnr⟩ := find_some hfind
  have hkey : (s.cache.entries i).key = (dev, blockNr) := Prod.ext hdev hnr
  have hentries : u.cache.entries = Function.update s.cache.entries i (s.cache.entries i) := by
    rw [hcache, Function.update_eq_self]
  refine ⟨hs.written hfind hdisk hentries hdisks (fun _ _ => rfl) ⟨hvalid, hkey, ?_⟩, untouched_of_entries (congrArg _ hcache)⟩
  obtain ⟨hbounded, hdata, hmarked⟩ := hs.holds i hvalid
  refine ⟨hbounded, ?_, hmarked⟩
  -- the edits of a dirty page are what it holds, whatever is on the device
  obtain ⟨edited, hedited⟩ := Option.isSome_iff_exists.mp (hmarked.mp hdirty)
  rw [hdata, Books.content, Books.content, hedited]
  rfl

theorem step_iff (hs : Good s) (hstep : Step s e t) : (e.Accounted s t ↔ e.Covered s) ∧ (e.Covered s → Good t) := by
  cases hstep with
  | hit hblock hreader hfind h =>
      obtain ⟨ht, hexpected⟩ := read_hit_step hs hblock hfind h
      refine ⟨?_, fun _ => ht⟩
      rw [accounted_iff_of_good ht]
      exact iff_of_true hexpected fun hnone => absurd hnone hfind
  | @fill dev blockNr reader i c hblock hreader hfind h =>
      obtain ⟨ht, hexpected⟩ := read_fill_step hs hblock hreader hfind h
      refine ⟨?_, fun _ => ht⟩
      rw [accounted_iff_of_good ht]
      refine iff_of_true hexpected fun _ hfails => ?_
      rcases readPage_cases hblock h with htrap | ⟨j, hj, -, -⟩ | ⟨-, ⟨hall, -, -⟩ | ⟨-, herror, -⟩⟩
      · cases htrap
      · rw [hfind] at hj
        cases hj
      · obtain ⟨r, hr⟩ := hfails
        exact absurd ((hall r).symm.trans hr) Bool.false_ne_true
      · cases herror
  | unread hblock hreader h =>
      obtain ⟨huntouched, hgood⟩ := read_failed_step hs hblock h
      refine ⟨⟨fun haccounted => huntouched.mp haccounted.2, fun hcovered => ?_⟩, hgood⟩
      exact ⟨(hgood hcovered).coherent, huntouched.mpr hcovered⟩
  | edit hblock data =>
      exact ⟨iff_of_true ⟨(hs.edited data).coherent, trivial⟩ trivial, fun _ => hs.edited data⟩
  | flushed hblock hwriter h =>
      have ht := flushed_step hs hblock hwriter h
      exact ⟨iff_of_true ⟨ht.coherent, trivial⟩ trivial, fun _ => ht⟩
  | clean hblock hwriter h =>
      have ht := clean_step hs hblock hwriter h
      exact ⟨iff_of_true ⟨ht.coherent, trivial⟩ trivial, fun _ => ht⟩
  | unflushed hblock hwriter h =>
      obtain ⟨ht, huntouched⟩ := unflushed_step hs hblock hwriter h
      exact ⟨iff_of_true ⟨ht.coherent, huntouched⟩ trivial, fun _ => ht⟩

end Steps

theorem good_init (disks : Nat → Disk) : Good { disks } := by
  refine ⟨fun i j hi => ?_, fun i hi => ?_, fun key hsome => ?_⟩
  · cases hi
  · cases hi
  · cases hsome

/-- The calls of a run are accounted for exactly if no reader fails in the middle of a page that still stands for
another key. -/
theorem page_cache_coherent (disks : Nat → Disk) (events : List Event) (t : Books) :
    Runs.Run (fun s e t => Step s e t ∧ e.Accounted s t) { disks } events t ↔
      Runs.Run (fun s e t => Step s e t ∧ e.Covered s) { disks } events t :=
  Runs.Run.along_iff (I := Good) (B := fun s (e : Event) _ => e.Covered s) (good_init disks)
    (fun _ _ _ hs hstep => (step_iff hs hstep).1) fun _ _ _ hs hstep => (step_iff hs hstep).2

/-! ### A page of two blocks -/

/-- A reader that fails at once. -/
def stuck : Reader := fun _ old => ⟨old, true⟩

theorem readPage_stuck {c : Cache} {dev blockNr : Nat} (hblock : blockNr < maxBlocks) (hfind : find c dev blockNr = none)
    (hmisses : c.misses + 1 < u64Bound) : readPage dev blockNr stuck c =
      (.error .failed, { c with misses := c.misses + 1, nextVictim := next c.nextVictim }) := by
  obtain ⟨hbase, hroom⟩ := base_fits hblock
  have hrun : readSectors stuck (blockNr * sectorsPerPage) (List.finRange sectorsPerPage)
      (c.entries c.nextVictim).data = (.error .failed, (c.entries c.nextVictim).data) := by
    rcases readSectors_page stuck (c.entries c.nextVictim).data hroom with ⟨hnone, -⟩ | ⟨-, data, hrun, hdata⟩
    · cases hnone ⟨0, by decide⟩
    · rw [hrun, hdata.mpr fun _ _ => rfl]
  have hzoom := zoom_page (c := { c with misses := c.misses + 1, nextVictim := next c.nextVictim }) rfl hrun
  rw [readPage, Act.get_bind_run, hfind]
  dsimp only
  rw [addU64_of_lt hmisses, Act.lift_ok_bind_run, Act.modify_bind_run, mulU64_of_lt hbase, Act.lift_ok_bind_run,
    Act.bind_error_run hzoom]
  simp [Cache.setPage]

/-- The cache after so many reads that have failed at once. -/
def Cache.advanced (c : Cache) (n : Nat) : Cache :=
  { c with misses := c.misses + n, nextVictim := next^[n] c.nextVictim }

theorem run_stuck {s : Books} {dev blockNr : Nat} (hblock : blockNr < maxBlocks) (hfind : find s.cache dev blockNr = none)
    (n : Nat) (hmisses : s.cache.misses + n < u64Bound) :
    Runs.Run Step s (List.replicate n (.read dev blockNr stuck none)) { s with cache := s.cache.advanced n } := by
  induction n with
  | zero => exact .refl
  | succ n ih =>
      rw [List.replicate_succ']
      refine (ih (by omega)).snoc ?_
      have hnext : s.cache.advanced (n + 1) =
          { s.cache.advanced n with misses := (s.cache.advanced n).misses + 1, nextVictim := next (s.cache.advanced n).nextVictim } := by
        simp only [Cache.advanced, Function.iterate_succ_apply', Nat.add_assoc]
      rw [hnext]
      refine .unread hblock ?_ (readPage_stuck hblock (c := s.cache.advanced n) hfind ?_)
      · exact fun _ _ h => by cases h
      · show s.cache.misses + n + 1 < u64Bound
        omega

def zeros : Sector := Vector.replicate 512 0
def ones : Sector := Vector.replicate 512 1

/-- A device with zeros in its first page and ones behind it. -/
def striped : Disk := fun lba => if lba < 8 then zeros else ones

/-- A reader of this device that fails behind the first sector of the second page. -/
def faulty : Reader := fun lba old => if lba < 9 then ⟨striped lba, false⟩ else ⟨old, true⟩

/-- Block 0 is cached, and then 31 reads of block 1 fail at once. -/
def firstCached : Cache := (readPage 0 0 (fun lba _ => ⟨striped lba, false⟩) {}).2

/-- A page that is read halfway into the entry of block 0 is taken for block 0. -/
theorem half_filled_page_served : ¬∀ disks events t, Runs.Run Step { disks } events t → Coherent t := by
  intro h
  let disks : Nat → Disk := fun _ => striped
  have hfirst : Step { disks } (.read 0 0 (fun lba _ => ⟨striped lba, false⟩) (some ⟨0, by decide⟩))
      { cache := firstCached, disks } := .fill (by decide) (fun _ _ _ => rfl) rfl rfl
  have hstuck : Runs.Run Step { cache := firstCached, disks } (List.replicate 31 (.read 0 1 stuck none))
      { cache := firstCached.advanced 31, disks } := run_stuck (by decide) rfl 31 (by decide)
  have hlast : readPage 0 1 faulty (firstCached.advanced 31) = (.error .failed, (readPage 0 1 faulty (firstCached.advanced 31)).2) :=
    rfl
  have hrun := ((Runs.Run.single hfirst).append hstuck).snoc (.unread (by decide) ?_ hlast)
  · obtain ⟨-, hclean⟩ := h disks _ _ hrun
    let first : Fin cacheEntries := ⟨0, by decide⟩
    let front : Fin sectorsPerPage := ⟨0, by decide⟩
    have hpage := hclean first rfl rfl
    have hsector : ones = zeros := congrFun hpage front
    have hbyte : ones[0] = zeros[0] := by rw [hsector]
    simp [ones, zeros] at hbyte
  · intro lba old hok
    simp only [faulty] at hok ⊢
    split_ifs at hok ⊢
    rfl

end Kernel.PageCache
