import ZigKernel.ToolsMkesp

/-! What `mkesp` writes, and where. All writes of an image are apart from each other, so that everything written stands
there in the end and the rest is zero: the boot sector, two equal FATs, the directories and the files. -/

namespace Tools.Mkesp

open Zig LittleEndian

/-! ### Geometry -/

/-- The clusters that FATs of a size leave, and the size that clusters need. -/
def clustersBehind (totalSectors fatSectors : Nat) : Nat :=
  (totalSectors - (reserved + nfats * fatSectors + rootSectors)) / spc

def fatNeeded (clusters : Nat) : Nat := ((clusters + 2) * 2 + sector - 1) / sector

theorem fitFat_turn {totalSectors turns fatSectors clusters : Nat} {r : Nat × Nat}
    (h : fitFat totalSectors (turns + 1) fatSectors clusters = .ok r) :
    fatNeeded (clustersBehind totalSectors fatSectors) = fatSectors ∧ r = (fatSectors, clustersBehind totalSectors fatSectors) ∨
      fitFat totalSectors turns (fatNeeded (clustersBehind totalSectors fatSectors)) (clustersBehind totalSectors fatSectors) =
        .ok r := by
  rw [fitFat] at h
  obtain ⟨a, ha, h⟩ := Outcome.bind_eq_ok h
  obtain ⟨b, hb, h⟩ := Outcome.bind_eq_ok h
  obtain ⟨c, hc, h⟩ := Outcome.bind_eq_ok h
  obtain ⟨-, rfl⟩ := subU64_eq_ok.mp ha
  obtain ⟨-, rfl⟩ := subU64_eq_ok.mp hb
  obtain ⟨-, rfl⟩ := subU64_eq_ok.mp hc
  rw [Nat.sub_sub, Nat.sub_sub] at h
  change (if fatNeeded (clustersBehind totalSectors fatSectors) = fatSectors then
    Outcome.ok (fatSectors, clustersBehind totalSectors fatSectors)
    else fitFat totalSectors turns (fatNeeded (clustersBehind totalSectors fatSectors)) (clustersBehind totalSectors fatSectors)) =
      .ok r at h
  split_ifs at h with hneed
  · cases h
    exact Or.inl ⟨hneed, rfl⟩
  · exact Or.inr h

/-- More than 128 MiB have too many clusters, after every turn. -/
theorem fitFat_large {totalSectors turns fatSectors clusters : Nat} {r : Nat × Nat} (htotal : 264192 ≤ totalSectors)
    (hfat : fatSectors ≤ totalSectors / 1024 + 2) (hturns : turns ≠ 0)
    (h : fitFat totalSectors turns fatSectors clusters = .ok r) : maxClusters ≤ r.2 := by
  induction turns generalizing fatSectors clusters with
  | zero => exact absurd rfl hturns
  | succ turns ih =>
      have hmany : maxClusters ≤ clustersBehind totalSectors fatSectors := by
        simp only [clustersBehind, maxClusters, reserved, nfats, rootSectors, rootEntries, sector, spc]
        omega
      rcases fitFat_turn h with ⟨-, rfl⟩ | h
      · exact hmany
      · rcases Nat.eq_zero_or_pos turns with rfl | hpos
        · cases h
          exact hmany
        · refine ih ?_ (Nat.ne_of_gt hpos) h
          simp only [fatNeeded, clustersBehind, reserved, nfats, rootSectors, rootEntries, sector, spc]
          omega

/-- A volume whose FATs have an entry for each cluster behind them. -/
structure Geometry (totalSectors fatSectors clusters : Nat) : Prop where
  room : reserved + nfats * fatSectors + rootSectors ≤ totalSectors
  behind : clusters = clustersBehind totalSectors fatSectors
  fat : (clusters + 2) * 2 ≤ fatSectors * sector
  total : totalSectors ≤ 262144

instance (totalSectors fatSectors clusters : Nat) : Decidable (Geometry totalSectors fatSectors clusters) :=
  decidable_of_iff (reserved + nfats * fatSectors + rootSectors ≤ totalSectors ∧
    clusters = clustersBehind totalSectors fatSectors ∧ (clusters + 2) * 2 ≤ fatSectors * sector ∧ totalSectors ≤ 262144)
    ⟨fun ⟨a, b, c, d⟩ => ⟨a, b, c, d⟩, fun ⟨a, b, c, d⟩ => ⟨a, b, c, d⟩⟩

/-- Up to 128 MiB the iteration arrives at a size that fits. -/
theorem fitFat_small {mib : Nat} (hmib : mib < 129) {r : Nat × Nat} (h : fitFat (mib * 2048) 8 1 0 = .ok r)
    (hlower : 4085 ≤ r.2) : Geometry (mib * 2048) r.1 r.2 := by
  have hall : ∀ mib < 129, (fitFat (mib * 2048) 8 1 0).bind
      (fun r => .ok (decide (4085 ≤ r.2 → Geometry (mib * 2048) r.1 r.2))) ≠ .ok false := by
    decide +kernel
  have hmib := hall mib hmib
  rw [h] at hmib
  by_contra hgeo
  exact hmib (congrArg Outcome.ok (decide_eq_false fun himp => hgeo (himp hlower)))

theorem fitFat_geometry {mib : Nat} {r : Nat × Nat} (h : fitFat (mib * 2048) 8 1 0 = .ok r) (hlower : 4085 ≤ r.2)
    (hupper : r.2 < maxClusters) : Geometry (mib * 2048) r.1 r.2 := by
  rcases Nat.lt_or_ge mib 129 with hmib | hmib
  · exact fitFat_small hmib h hlower
  · exact absurd hupper (Nat.not_lt.mpr (fitFat_large (by omega) (by omega) (by decide) h))

/-! ### Files in their clusters -/

/-- The files stand one behind the other, from `lo` up to `hi`. -/
def Consecutive : (lo : Nat) → List File → (hi : Nat) → Prop
  | lo, [], hi => lo = hi
  | lo, f :: rest, hi => f.firstCluster = lo ∧ Consecutive (lo + clustersOf f.data) rest hi

theorem Consecutive.le {lo hi : Nat} {files : List File} (h : Consecutive lo files hi) : lo ≤ hi := by
  induction files generalizing lo with
  | nil => exact Nat.le_of_eq h
  | cons f rest ih => exact Nat.le_trans (Nat.le_add_right _ _) (ih h.2)

theorem Consecutive.mem {lo hi : Nat} {files : List File} (h : Consecutive lo files hi) {f : File} (hf : f ∈ files) :
    lo ≤ f.firstCluster ∧ f.firstCluster + clustersOf f.data ≤ hi := by
  induction files generalizing lo with
  | nil => cases hf
  | cons g rest ih =>
      obtain ⟨hfirst, hrest⟩ := h
      rcases List.mem_cons.mp hf with rfl | hf
      · exact ⟨Nat.le_of_eq hfirst.symm, hfirst ▸ hrest.le⟩
      · obtain ⟨hlo, hhi⟩ := ih hrest hf
        exact ⟨Nat.le_trans (Nat.le_add_right _ _) hlo, hhi⟩

theorem Consecutive.split {lo hi : Nat} {front back : List File} (h : Consecutive lo (front ++ back) hi) :
    ∃ mid, Consecutive lo front mid ∧ Consecutive mid back hi := by
  induction front generalizing lo with
  | nil => exact ⟨lo, rfl, h⟩
  | cons f rest ih =>
      obtain ⟨mid, hfront, hback⟩ := ih h.2
      exact ⟨mid, ⟨h.1, hfront⟩, hback⟩

/-- Every cluster in between is one of a file. -/
theorem Consecutive.covers {lo hi c : Nat} {files : List File} (h : Consecutive lo files hi) (hlo : lo ≤ c) (hhi : c < hi) :
    ∃ f ∈ files, ∃ i < clustersOf f.data, c = f.firstCluster + i := by
  induction files generalizing lo with
  | nil => exact absurd (h ▸ hlo) (Nat.not_le.mpr hhi)
  | cons g rest ih =>
      obtain ⟨hfirst, hrest⟩ := h
      rcases Nat.lt_or_ge c (lo + clustersOf g.data) with hc | hc
      · exact ⟨g, List.mem_cons_self, c - lo, by omega, by omega⟩
      · obtain ⟨f, hf, hi⟩ := ih hrest hc
        exact ⟨f, List.mem_cons_of_mem _ hf, hi⟩

theorem place_consecutive {next last : Nat} {files placed : List File} (h : place next files = .ok (placed, last)) :
    Consecutive next placed last ∧ placed.map (fun f => (f.name, f.data)) = files.map fun f => (f.name, f.data) := by
  induction files generalizing next placed with
  | nil =>
      cases h
      exact ⟨rfl, rfl⟩
  | cons f rest ih =>
      rw [place] at h
      obtain ⟨n, hn, h⟩ := Outcome.bind_eq_ok h
      obtain ⟨following, hfollowing, h⟩ := Outcome.bind_eq_ok h
      obtain ⟨⟨placed', last'⟩, hplace, h⟩ := Outcome.bind_eq_ok h
      cases h
      obtain ⟨-, rfl⟩ := castU16_eq_ok.mp hn
      obtain ⟨-, rfl⟩ := addU16_eq_ok.mp hfollowing
      obtain ⟨hrest, hsame⟩ := ih hplace
      refine ⟨⟨rfl, hrest⟩, ?_⟩
      rw [List.map_cons, List.map_cons, hsame]

/-! ### The FAT -/

def linkValue (f : File) (i : Nat) : Nat := if i + 1 = clustersOf f.data then eoc else f.firstCluster + i + 1

def linkWrite (f : File) (i : Nat) : Write UInt8 := ⟨2 * (f.firstCluster + i), toBytes 2 (linkValue f i)⟩

def chainWrites (f : File) : List (Write UInt8) := (List.range (clustersOf f.data)).map (linkWrite f)

theorem link_eq {f : File} {i : Nat} {w : Write UInt8} (h : link f i = .ok w) :
    w = linkWrite f i ∧ (f.firstCluster + i) * 2 < u16Bound := by
  rw [link] at h
  obtain ⟨k, hk, h⟩ := Outcome.bind_eq_ok h
  obtain ⟨c, hc, h⟩ := Outcome.bind_eq_ok h
  obtain ⟨next, hnext, h⟩ := Outcome.bind_eq_ok h
  obtain ⟨pos, hpos, h⟩ := Outcome.bind_eq_ok h
  cases h
  obtain ⟨-, rfl⟩ := castU16_eq_ok.mp hk
  obtain ⟨-, rfl⟩ := addU16_eq_ok.mp hc
  obtain ⟨hlow, rfl⟩ := mulU16_eq_ok.mp hpos
  have hvalue : next = linkValue f i := by
    rw [linkValue]
    rw [following] at hnext
    split_ifs at hnext ⊢ with hlast
    · cases hnext
      rfl
    · exact (addU16_eq_ok.mp hnext).2.symm
  refine ⟨?_, hlow⟩
  rw [hvalue, linkWrite, Nat.mul_comm]

theorem links_eq {f : File} {ws : List (Write UInt8)} (h : links f = .ok ws) : ws = chainWrites f :=
  collect_eq_map h fun _ _ hw => (link_eq hw).1

theorem packed_chain (f : File) :
    Packed (2 * f.firstCluster) (2 * (f.firstCluster + clustersOf f.data)) (chainWrites f) := by
  refine ⟨fun w hw => ?_, List.pairwise_map.mpr (List.pairwise_lt_range.imp fun {i j} hij => Or.inl ?_)⟩
  · obtain ⟨i, hi, rfl⟩ := List.mem_map.mp hw
    rw [List.mem_range] at hi
    simp only [linkWrite, Write.stop, length_toBytes]
    omega
  · simp only [linkWrite, Write.stop, length_toBytes]
    omega

theorem packed_chains {lo hi : Nat} {files : List File} (h : Consecutive lo files hi) :
    Packed (2 * lo) (2 * hi) (files.flatMap chainWrites) := by
  induction files generalizing lo with
  | nil => exact .nil _ _
  | cons f rest ih =>
      obtain ⟨rfl, hrest⟩ := h
      rw [List.flatMap_cons]
      exact (packed_chain f).append (ih hrest) (by omega) (Nat.mul_le_mul_left 2 hrest.le)

theorem packed_fatHead : Packed 0 10 fatHead := by
  refine ⟨?_, ?_⟩
  · simp only [fatHead, List.forall_mem_cons, Write.stop, length_toBytes]
    simp
  · simp only [fatHead, List.pairwise_cons, List.forall_mem_cons, Write.Apart, Write.stop, length_toBytes]
    simp

theorem fat_eq {fatSectors : Nat} {files : List File} {bytes : Bytes} (h : fat fatSectors files = .ok bytes) :
    (writeAll (fatHead ++ files.flatMap chainWrites) (List.replicate (fatSectors * sector) 0) : Outcome Error Bytes) = .ok bytes := by
  obtain ⟨chains, hchains, h⟩ := Outcome.bind_eq_ok h
  rw [collect_eq_map hchains fun _ _ => links_eq, ← List.flatMap_def] at h
  exact h

/-- The positions in the FAT have 16 bits. -/
theorem fat_low {fatSectors : Nat} {files : List File} {bytes : Bytes} (h : fat fatSectors files = .ok bytes) {f : File}
    (hf : f ∈ files) {i : Nat} (hi : i < clustersOf f.data) : (f.firstCluster + i) * 2 < u16Bound := by
  obtain ⟨chains, hchains, -⟩ := Outcome.bind_eq_ok h
  obtain ⟨ws, hws⟩ := collect_returns hchains hf
  obtain ⟨w, hw⟩ := collect_returns hws (List.mem_range.mpr hi)
  exact (link_eq hw).2

/-- The entry of a cluster. -/
def entryAt (bytes : Bytes) (c : Nat) : Nat := ofBytes ((bytes.drop (2 * c)).take 2)

theorem entryAt_of_stands {bytes : Bytes} {c v : Nat} (h : Stands bytes (2 * c) (toBytes 2 v)) (hv : v < 256 ^ 2) :
    entryAt bytes c = v := by
  obtain ⟨pre, post, rfl, hpre⟩ := h
  rw [entryAt, ← hpre, List.append_assoc, List.drop_left, List.take_left' (length_toBytes 2 v), ofBytes_toBytes,
    Nat.mod_eq_of_lt hv]

/-- What the entries say, up to the last cluster of the files and behind it. -/
structure Links (files : List File) (hi : Nat) (bytes : Bytes) : Prop where
  media : entryAt bytes 0 = 0xFFF8
  reserved : entryAt bytes 1 = 0xFFFF
  directory : ∀ c, 2 ≤ c → c < 5 → entryAt bytes c = eoc
  chain : ∀ f ∈ files, ∀ i < clustersOf f.data, entryAt bytes (f.firstCluster + i) = linkValue f i
  free : ∀ c, hi ≤ c → 2 * c + 2 ≤ bytes.length → entryAt bytes c = 0

theorem linkValue_lt {f : File} {i hi : Nat} (hi' : i < clustersOf f.data) (hf : f.firstCluster + clustersOf f.data ≤ hi)
    (hhi : hi < u16Bound) : linkValue f i < 256 ^ 2 := by
  rw [linkValue]
  split_ifs with hlast
  · decide
  · have hbound : u16Bound = 256 ^ 2 := by decide
    omega

theorem fat_links {fatSectors hi : Nat} {files : List File} {bytes : Bytes} (h : fat fatSectors files = .ok bytes)
    (hfiles : Consecutive 5 files hi) (hhi : hi < u16Bound) : bytes.length = fatSectors * sector ∧ Links files hi bytes := by
  have hwrites := fat_eq h
  have hlength := length_writeAll hwrites
  rw [List.length_replicate] at hlength
  have hpacked : Packed 0 (2 * hi) (fatHead ++ files.flatMap chainWrites) :=
    packed_fatHead.append (packed_chains hfiles) (by decide) (Nat.mul_le_mul_left 2 hfiles.le)
  have hhead {c v : Nat} (hw : (⟨2 * c, toBytes 2 v⟩ : Write UInt8) ∈ fatHead) (hv : v < 256 ^ 2) : entryAt bytes c = v :=
    entryAt_of_stands (stands_writeAll hwrites hpacked.apart (List.mem_append_left _ hw)) hv
  refine ⟨hlength, hhead (by simp [fatHead]) (by decide), hhead (by simp [fatHead]) (by decide), fun c hlo hhi => ?_,
    fun f hf i hi' => ?_, fun c hc hroom => ?_⟩
  · obtain rfl | rfl | rfl : c = 2 ∨ c = 3 ∨ c = 4 := by omega
    all_goals exact hhead (by simp [fatHead]) (by decide)
  · have hw : linkWrite f i ∈ files.flatMap chainWrites :=
      List.mem_flatMap.mpr ⟨f, hf, List.mem_map.mpr ⟨i, List.mem_range.mpr hi', rfl⟩⟩
    exact entryAt_of_stands (stands_writeAll hwrites hpacked.apart (List.mem_append_right _ hw))
      (linkValue_lt hi' (hfiles.mem hf).2 hhi)
  · refine entryAt_of_stands (stands_writeAll_of_apart hwrites (stands_replicate (k := 2) ?_) fun w hw => Or.inl ?_) (by decide)
    · rw [← hlength]
      exact hroom
    · have hstop := (hpacked.within w hw).2
      dsimp only
      omega

/-! ### Directories -/

def fileRecord (f : File) : Bytes := dirEntry f.name 0x20 f.firstCluster f.data.length

def rootEntriesOf : List Bytes := [dirEntry (lit "EFI        ") 0x10 2 0, dirEntry (lit "ZK         ") 0x10 4 0]

def dots (here up : Nat) : List Bytes := [dirEntry (lit ".          ") 0x10 here 0, dirEntry (lit "..         ") 0x10 up 0]

def efiEntries : List Bytes := dots 2 0 ++ [dirEntry (lit "BOOT       ") 0x10 3 0]
def bootEntries (boot : List File) : List Bytes := dots 3 2 ++ boot.map fileRecord
def zkEntries (zk : List File) : List Bytes := dots 4 0 ++ zk.map fileRecord

theorem fileEntry_eq {f : File} {e : Bytes} (h : fileEntry f = .ok e) : e = fileRecord f ∧ f.data.length < u32Bound := by
  rw [fileEntry, entryOf] at h
  obtain ⟨size, hsize, h⟩ := Outcome.bind_eq_ok h
  cases h
  rw [castU32] at hsize
  split_ifs at hsize with hlt
  cases hsize
  exact ⟨rfl, hlt⟩

theorem directories_eq {rootOff dataOff : Nat} {boot zk : List File} {ws : List (Write UInt8)}
    (h : directories rootOff dataOff boot zk = .ok ws) :
    ws = dirAt rootOff rootEntriesOf ++ dirAt (clusterOff dataOff 2) efiEntries ++
        dirAt (clusterOff dataOff 3) (bootEntries boot) ++ dirAt (clusterOff dataOff 4) (zkEntries zk) ∧
      ∀ f ∈ boot ++ zk, f.data.length < u32Bound := by
  have hefi : short "EFI" = .ok (lit "EFI        ") := by decide
  have hzk : short "ZK" = .ok (lit "ZK         ") := by decide
  have hhere : short "." = .ok (lit ".          ") := by decide
  have hup : short ".." = .ok (lit "..         ") := by decide
  have hboot : short "BOOT" = .ok (lit "BOOT       ") := by decide
  rw [directories, hefi, hzk, hhere, hup, hboot] at h
  simp only [Outcome.ok_bind] at h
  obtain ⟨bootFiles, hbootFiles, h⟩ := Outcome.bind_eq_ok h
  obtain ⟨zkFiles, hzkFiles, h⟩ := Outcome.bind_eq_ok h
  cases h
  refine ⟨?_, fun f hf => ?_⟩
  · rw [collect_eq_map hbootFiles fun _ _ he => (fileEntry_eq he).1, collect_eq_map hzkFiles fun _ _ he => (fileEntry_eq he).1]
    rfl
  · rcases List.mem_append.mp hf with hf | hf
    · obtain ⟨e, he⟩ := collect_returns hbootFiles hf
      exact (fileEntry_eq he).2
    · obtain ⟨e, he⟩ := collect_returns hzkFiles hf
      exact (fileEntry_eq he).2

/-- The entries of a directory and the rest of its space. -/
def dirRegions (off size : Nat) (entries : List Bytes) : List (Write UInt8) :=
  dirAt off entries ++ [⟨off + 32 * entries.length, List.replicate (size - 32 * entries.length) 0⟩]

/-- A directory as bytes. -/
def dirBytes (size : Nat) (entries : List Bytes) : Bytes := entries.flatten ++ List.replicate (size - 32 * entries.length) 0

theorem packed_dirAt {entries : List Bytes} (h : ∀ e ∈ entries, e.length = 32) (off : Nat) :
    Packed off (off + 32 * entries.length) (dirAt off entries) := by
  induction entries generalizing off with
  | nil => exact .nil _ _
  | cons e rest ih =>
      obtain ⟨he, hrest⟩ := List.forall_mem_cons.mp h
      have hone : Packed off (off + 32) [(⟨off, e⟩ : Write UInt8)] := .single (Nat.le_refl _) (by rw [Write.stop, he])
      have hboth := hone.append (ih hrest (off + 32)) (by omega) (by omega)
      rw [List.length_cons, Nat.mul_succ, Nat.add_comm (32 * rest.length), ← Nat.add_assoc]
      exact hboth

theorem packed_dirRegions {entries : List Bytes} (h : ∀ e ∈ entries, e.length = 32) {off size : Nat}
    (hroom : 32 * entries.length ≤ size) : Packed off (off + size) (dirRegions off size entries) := by
  have hrest : off + 32 * entries.length + (size - 32 * entries.length) ≤ off + size := by omega
  refine (packed_dirAt h off).append (.single (Nat.le_refl _) ?_) (Nat.le_add_right _ _) (by omega)
  rw [Write.stop, List.length_replicate]
  exact hrest

theorem stands_dirAt {img : Bytes} {entries : List Bytes} (h : ∀ e ∈ entries, e.length = 32) {off : Nat}
    (hin : off ≤ img.length) (hstands : ∀ w ∈ dirAt off entries, Stands img w.pos w.src) : Stands img off entries.flatten := by
  induction entries generalizing off with
  | nil => exact stands_nil.mpr hin
  | cons e rest ih =>
      obtain ⟨he, hrest⟩ := List.forall_mem_cons.mp h
      obtain ⟨hfirst, hothers⟩ := List.forall_mem_cons.mp hstands
      have hlength := hfirst.length_le
      rw [he] at hlength
      rw [List.flatten_cons]
      refine stands_append.mpr ⟨hfirst, ?_⟩
      rw [he]
      exact ih hrest hlength hothers

theorem length_flatten_entries {entries : List Bytes} (h : ∀ e ∈ entries, e.length = 32) :
    entries.flatten.length = 32 * entries.length := by
  induction entries with
  | nil => rfl
  | cons e rest ih =>
      obtain ⟨he, hrest⟩ := List.forall_mem_cons.mp h
      rw [List.flatten_cons, List.length_append, he, ih hrest, List.length_cons]
      omega

theorem stands_dirBytes {img : Bytes} {entries : List Bytes} (h : ∀ e ∈ entries, e.length = 32) {off size : Nat}
    (hin : off ≤ img.length) (hstands : ∀ w ∈ dirRegions off size entries, Stands img w.pos w.src) :
    Stands img off (dirBytes size entries) := by
  refine stands_append.mpr ⟨stands_dirAt h hin fun w hw => hstands w (List.mem_append_left _ hw), ?_⟩
  rw [length_flatten_entries h]
  exact hstands _ (List.mem_append_right _ (List.mem_singleton_self _))

/-- The parts of an entry. -/
theorem dirEntry_eq {name : Bytes} (h : name.length = 11) (attr : UInt8) (cluster size : Nat) :
    dirEntry name attr cluster size = name ++ (attr :: List.replicate 14 0) ++ toBytes 2 cluster ++ toBytes 4 size := by
  obtain ⟨a, b, c, d, e, f, g, i, j, k, l, rfl⟩ : ∃ a b c d e f g i j k l, name = [a, b, c, d, e, f, g, i, j, k, l] := by
    match name, h with
    | [a, b, c, d, e, f, g, i, j, k, l], _ => exact ⟨a, b, c, d, e, f, g, i, j, k, l, rfl⟩
  rfl

theorem length_dirEntry {name : Bytes} (h : name.length = 11) (attr : UInt8) (cluster size : Nat) :
    (dirEntry name attr cluster size).length = 32 := by
  rw [dirEntry_eq h, List.length_append, List.length_append, List.length_append, List.length_cons, List.length_replicate,
    length_toBytes, length_toBytes, h]

end Tools.Mkesp
