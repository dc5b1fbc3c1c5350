import ZigKernel.ToolsMkespLayout

/-! Where everything stands in an image. The boot sector, the FATs, the directories and the files are written one after the
other, each into its own window, and what is between the writes of a window stays zero. -/

namespace Tools.Mkesp

open Zig LittleEndian

/-! ### The windows -/

def rootOff (fatSectors : Nat) : Nat := (reserved + nfats * fatSectors) * sector
def dataOff (fatSectors : Nat) : Nat := rootOff fatSectors + rootSectors * sector

/-- The fields of the boot sector that stay zero and are read. -/
def bootGaps (totalSectors : Nat) : List (Write UInt8) :=
  [⟨28, List.replicate 4 0⟩, if totalSectors < 65536 then ⟨32, List.replicate 4 0⟩ else ⟨19, List.replicate 2 0⟩]

theorem packed_boot (totalSectors fatSectors : Nat) :
    Packed 0 sector (bootSector totalSectors fatSectors ++ bootGaps totalSectors) := by
  rcases Nat.lt_or_ge totalSectors 65536 with hsmall | hlarge
  · refine packed_of_spans ([(0, 1), (1, 2), (2, 3), (3, 11), (11, 13), (13, 14), (14, 16), (16, 17), (17, 19), (19, 21),
      (21, 22), (22, 24), (24, 26), (26, 28), (36, 37), (38, 39), (39, 43), (43, 54), (54, 62), (510, 511), (511, 512),
      (28, 32), (32, 36)]) ?_ (by decide) (by decide)
    rw [bootSector, bootGaps, if_pos hsmall, if_pos hsmall]
    rfl
  · refine packed_of_spans ([(0, 1), (1, 2), (2, 3), (3, 11), (11, 13), (13, 14), (14, 16), (16, 17), (17, 19), (32, 36),
      (21, 22), (22, 24), (24, 26), (26, 28), (36, 37), (38, 39), (39, 43), (43, 54), (54, 62), (510, 511), (511, 512),
      (28, 32), (19, 21)]) ?_ (by decide) (by decide)
    rw [bootSector, bootGaps, if_neg (Nat.not_lt.mpr hlarge), if_neg (Nat.not_lt.mpr hlarge)]
    rfl

/-- The two FATs. -/
def fatWrites (fatSectors : Nat) (bytes : Bytes) : List (Write UInt8) :=
  (List.range nfats).map fun i => ⟨(reserved + i * fatSectors) * sector, bytes⟩

theorem packed_fats {fatSectors : Nat} {bytes : Bytes} (h : bytes.length = fatSectors * sector) :
    Packed sector (rootOff fatSectors) (fatWrites fatSectors bytes) := by
  refine packed_of_spans ([(sector, sector + fatSectors * sector), (sector + fatSectors * sector, rootOff fatSectors)]) ?_
    ?_ ?_
  · simp only [fatWrites, nfats, List.range_succ, List.range_zero, List.nil_append, List.map_cons, List.map_nil, List.cons_append,
      Write.stop, h, rootOff, reserved, sector, List.cons.injEq, Prod.mk.injEq, and_true]
    omega
  · simp only [List.forall_mem_cons, rootOff, reserved, nfats, sector, List.not_mem_nil, false_imp_iff, implies_true, and_true]
    omega
  · simp

/-- The directories with what stays zero behind their entries. -/
def dirWindows (fatSectors : Nat) (boot zk : List File) : List (Write UInt8) :=
  dirRegions (rootOff fatSectors) (rootSectors * sector) rootEntriesOf ++
    dirRegions (clusterOff (dataOff fatSectors) 2) cluster efiEntries ++
    dirRegions (clusterOff (dataOff fatSectors) 3) cluster (bootEntries boot) ++
    dirRegions (clusterOff (dataOff fatSectors) 4) cluster (zkEntries zk)

/-- The names of the files have the length of the field. -/
def Named (files : List File) : Prop := ∀ f ∈ files, f.name.length = 11

theorem length_dots (here up : Nat) : ∀ e ∈ dots here up, e.length = 32 := by
  rw [dots, List.forall_mem_cons, List.forall_mem_singleton]
  exact ⟨length_dirEntry (by decide) _ _ _, length_dirEntry (by decide) _ _ _⟩

theorem length_records {files : List File} (h : Named files) (here up : Nat) :
    ∀ e ∈ dots here up ++ files.map fileRecord, e.length = 32 := by
  refine List.forall_mem_append.mpr ⟨length_dots here up, List.forall_mem_map.mpr fun f hf => ?_⟩
  exact length_dirEntry (h f hf) _ _ _

theorem length_rootEntriesOf : ∀ e ∈ rootEntriesOf, e.length = 32 := by
  rw [rootEntriesOf, List.forall_mem_cons, List.forall_mem_singleton]
  exact ⟨length_dirEntry (by decide) _ _ _, length_dirEntry (by decide) _ _ _⟩

theorem length_efiEntries : ∀ e ∈ efiEntries, e.length = 32 := by
  refine List.forall_mem_append.mpr ⟨length_dots 2 0, ?_⟩
  rw [List.forall_mem_singleton]
  exact length_dirEntry (by decide) _ _ _

theorem clusterOff_succ {off c : Nat} (h : 2 ≤ c) : clusterOff off c + cluster = clusterOff off (c + 1) := by
  rw [clusterOff, clusterOff, Nat.sub_add_comm h, Nat.succ_mul, Nat.add_assoc]

theorem clusterOff_le {off c c' : Nat} (h : c ≤ c') : clusterOff off c ≤ clusterOff off c' :=
  Nat.add_le_add_left (Nat.mul_le_mul_right _ (Nat.sub_le_sub_right h 2)) _

/-- The names fit into a cluster. -/
structure Fits (boot zk : List File) : Prop where
  named : Named (boot ++ zk)
  boot : 32 * (2 + boot.length) ≤ cluster
  zk : 32 * (2 + zk.length) ≤ cluster

theorem Fits.records {boot zk : List File} (h : Fits boot zk) :
    (∀ e ∈ bootEntries boot, e.length = 32) ∧ ∀ e ∈ zkEntries zk, e.length = 32 :=
  ⟨length_records (fun f hf => h.named f (List.mem_append_left _ hf)) 3 2,
    length_records (fun f hf => h.named f (List.mem_append_right _ hf)) 4 0⟩

/-- A directory of one cluster. -/
theorem packed_dirCluster {entries : List Bytes} (h : ∀ e ∈ entries, e.length = 32) (hroom : 32 * entries.length ≤ cluster)
    (off : Nat) {c k : Nat} (hc : 2 ≤ c) (hk : k = c + 1) :
    Packed (clusterOff off c) (clusterOff off k) (dirRegions (clusterOff off c) cluster entries) := by
  rw [hk, ← clusterOff_succ hc]
  exact packed_dirRegions h hroom

theorem packed_dirs {boot zk : List File} (h : Fits boot zk) (fatSectors : Nat) :
    Packed (rootOff fatSectors) (clusterOff (dataOff fatSectors) 5) (dirWindows fatSectors boot zk) := by
  obtain ⟨hbootRecords, hzkRecords⟩ := h.records
  have hbootRoom : 32 * (bootEntries boot).length ≤ cluster := by
    rw [bootEntries, List.length_append, List.length_map]
    exact h.boot
  have hzkRoom : 32 * (zkEntries zk).length ≤ cluster := by
    rw [zkEntries, List.length_append, List.length_map]
    exact h.zk
  have hroot : Packed (rootOff fatSectors) (dataOff fatSectors)
      (dirRegions (rootOff fatSectors) (rootSectors * sector) rootEntriesOf) :=
    packed_dirRegions length_rootEntriesOf (by decide)
  have hfirst : clusterOff (dataOff fatSectors) 2 = dataOff fatSectors := Nat.add_zero _
  have hefi := packed_dirCluster length_efiEntries (by decide) (dataOff fatSectors) (c := 2) (k := 3) (by decide) rfl
  have hboot := packed_dirCluster hbootRecords hbootRoom (dataOff fatSectors) (c := 3) (k := 4) (by decide) rfl
  have hzk := packed_dirCluster hzkRecords hzkRoom (dataOff fatSectors) (c := 4) (k := 5) (by decide) rfl
  rw [← hfirst] at hroot
  have h₂ : rootOff fatSectors ≤ clusterOff (dataOff fatSectors) 2 := by
    rw [hfirst]
    exact Nat.le_add_right _ _
  have h₃ : clusterOff (dataOff fatSectors) 2 ≤ clusterOff (dataOff fatSectors) 3 := clusterOff_le (by decide)
  have h₄ : clusterOff (dataOff fatSectors) 3 ≤ clusterOff (dataOff fatSectors) 4 := clusterOff_le (by decide)
  have h₅ : clusterOff (dataOff fatSectors) 4 ≤ clusterOff (dataOff fatSectors) 5 := clusterOff_le (by decide)
  have hthird := Nat.le_trans h₂ h₃
  exact ((hroot.append hefi h₂ h₃).append hboot hthird h₄).append hzk (Nat.le_trans hthird h₄) h₅

theorem clustersOf_room (data : Bytes) : data.length ≤ clustersOf data * cluster := by
  rw [clustersOf]
  have hcluster : cluster = 2048 := by decide
  rw [hcluster]
  omega

theorem packed_contents (off : Nat) {lo hi : Nat} {files : List File} (h : Consecutive lo files hi) (hlo : 2 ≤ lo) :
    Packed (clusterOff off lo) (clusterOff off hi) (contents off files) := by
  induction files generalizing lo with
  | nil => exact .nil _ _
  | cons f rest ih =>
      obtain ⟨rfl, hrest⟩ := h
      have hend : clusterOff off f.firstCluster + f.data.length ≤ clusterOff off (f.firstCluster + clustersOf f.data) := by
        have hroom := clustersOf_room f.data
        rw [clusterOff, clusterOff, Nat.sub_add_comm hlo, Nat.add_mul]
        omega
      have hone : Packed (clusterOff off f.firstCluster) (clusterOff off (f.firstCluster + clustersOf f.data))
          [(⟨clusterOff off f.firstCluster, f.data⟩ : Write UInt8)] := .single (Nat.le_refl _) hend
      have hothers := ih hrest (Nat.le_add_right_of_le hlo)
      exact hone.append hothers (clusterOff_le (Nat.le_add_right _ _)) (clusterOff_le hrest.le)

/-! ### The image -/

/-- What stands in an image. -/
structure Layout (img : Bytes) (totalSectors fatSectors : Nat) (fatBytes : Bytes) (boot zk : List File) : Prop where
  length : img.length = totalSectors * sector
  head : ∀ w ∈ bootSector totalSectors fatSectors ++ bootGaps totalSectors, Stands img w.pos w.src
  fats : ∀ w ∈ fatWrites fatSectors fatBytes, Stands img w.pos w.src
  rootDir : Stands img (rootOff fatSectors) (dirBytes (rootSectors * sector) rootEntriesOf)
  efiDir : Stands img (clusterOff (dataOff fatSectors) 2) (dirBytes cluster efiEntries)
  bootDir : Stands img (clusterOff (dataOff fatSectors) 3) (dirBytes cluster (bootEntries boot))
  zkDir : Stands img (clusterOff (dataOff fatSectors) 4) (dirBytes cluster (zkEntries zk))
  contents : ∀ f ∈ boot ++ zk, Stands img (clusterOff (dataOff fatSectors) f.firstCluster) f.data

/-- The entries of all directories. -/
def dirWrites (fatSectors : Nat) (boot zk : List File) : List (Write UInt8) :=
  dirAt (rootOff fatSectors) rootEntriesOf ++ dirAt (clusterOff (dataOff fatSectors) 2) efiEntries ++
    dirAt (clusterOff (dataOff fatSectors) 3) (bootEntries boot) ++ dirAt (clusterOff (dataOff fatSectors) 4) (zkEntries zk)

/-- The stages of `image`. -/
theorem image_stages {totalSectors fatSectors : Nat} {boot zk : List File} {img : Bytes}
    (h : image totalSectors fatSectors boot zk = .ok img) :
    ∃ bytes a b c, fat fatSectors (boot ++ zk) = .ok bytes ∧
      (writeAll (bootSector totalSectors fatSectors) (List.replicate (totalSectors * sector) 0) : Outcome Error Bytes) = .ok a ∧
      (writeAll (fatWrites fatSectors bytes) a : Outcome Error Bytes) = .ok b ∧
      (writeAll (dirWrites fatSectors boot zk) b : Outcome Error Bytes) = .ok c ∧
      (writeAll (contents (dataOff fatSectors) (boot ++ zk)) c : Outcome Error Bytes) = .ok img ∧
      fatSectors < u16Bound ∧ ∀ f ∈ boot ++ zk, f.data.length < u32Bound := by
  rw [image] at h
  obtain ⟨-, -, h⟩ := Outcome.bind_eq_ok h
  obtain ⟨field, hfield, h⟩ := Outcome.bind_eq_ok h
  obtain ⟨a, ha, h⟩ := Outcome.bind_eq_ok h
  obtain ⟨bytes, hbytes, h⟩ := Outcome.bind_eq_ok h
  obtain ⟨b, hb, h⟩ := Outcome.bind_eq_ok h
  obtain ⟨dirs, hdirs, h⟩ := Outcome.bind_eq_ok h
  obtain ⟨rfl, hsizes⟩ := directories_eq hdirs
  obtain ⟨c, hc, himg⟩ := Outcome.bind_eq_ok h
  exact ⟨bytes, a, b, c, hbytes, ha, hb, hc, himg, (castU16_eq_ok.mp hfield).1, hsizes⟩

/-- The windows of all stages lie in the image. -/
theorem Geometry.data_le {totalSectors fatSectors clusters : Nat} (h : Geometry totalSectors fatSectors clusters) {c : Nat}
    (hc : c ≤ clusters + 2) : clusterOff (dataOff fatSectors) c ≤ totalSectors * sector := by
  have hroom := h.room
  have hbehind := h.behind
  simp only [clustersBehind, reserved, nfats, rootSectors, rootEntries, sector, spc] at hroom hbehind
  simp only [clusterOff, dataOff, rootOff, reserved, nfats, rootSectors, rootEntries, cluster, sector, spc]
  omega

theorem sector_le_rootOff (fatSectors : Nat) : sector ≤ rootOff fatSectors := by
  simp only [rootOff, reserved, nfats, sector]
  omega

/-- A window that is written, or zero from the start. -/
def Zero (w : Write UInt8) : Prop := ∃ k, w.src = List.replicate k 0

theorem Zero.stands {w : Write UInt8} {n : Nat} (h : Zero w) (hstop : w.stop ≤ n) : Stands (List.replicate n 0) w.pos w.src := by
  obtain ⟨k, hk⟩ := h
  rw [Write.stop, hk, List.length_replicate] at hstop
  rw [hk]
  exact stands_replicate hstop

theorem zero_gaps {totalSectors : Nat} {w : Write UInt8} (h : w ∈ bootGaps totalSectors) : Zero w := by
  rw [bootGaps, List.mem_cons, List.mem_singleton] at h
  rcases h with rfl | rfl
  · exact ⟨4, rfl⟩
  · split_ifs
    · exact ⟨4, rfl⟩
    · exact ⟨2, rfl⟩

theorem mem_dirRegions {off size : Nat} {entries : List Bytes} {w : Write UInt8} (h : w ∈ dirRegions off size entries) :
    w ∈ dirAt off entries ∨ Zero w := by
  rcases List.mem_append.mp h with hw | hw
  · exact Or.inl hw
  · exact Or.inr ⟨_, congrArg Write.src (List.mem_singleton.mp hw)⟩

theorem dirWrites_sublist (fatSectors : Nat) (boot zk : List File) :
    (dirWrites fatSectors boot zk).Sublist (dirWindows fatSectors boot zk) := by
  have hone (off size : Nat) (entries : List Bytes) : (dirAt off entries).Sublist (dirRegions off size entries) :=
    List.sublist_append_left _ _
  exact (((hone _ _ _).append (hone _ _ _)).append (hone _ _ _)).append (hone _ _ _)

theorem mem_dirWindows {fatSectors : Nat} {boot zk : List File} {w : Write UInt8} (h : w ∈ dirWindows fatSectors boot zk) :
    w ∈ dirWrites fatSectors boot zk ∨ Zero w := by
  simp only [dirWindows, dirWrites, List.mem_append] at h ⊢
  rcases h with ((h | h) | h) | h
  all_goals
    rcases mem_dirRegions h with hw | hzero
    · simp [hw]
    · exact Or.inr hzero

theorem image_layout {totalSectors fatSectors clusters hi : Nat} {boot zk : List File} {img : Bytes}
    (h : image totalSectors fatSectors boot zk = .ok img) (hgeo : Geometry totalSectors fatSectors clusters)
    (hfits : Fits boot zk) (hfiles : Consecutive 5 (boot ++ zk) hi) (hhi : hi ≤ clusters + 2) :
    ∃ bytes, fat fatSectors (boot ++ zk) = .ok bytes ∧ Layout img totalSectors fatSectors bytes boot zk := by
  obtain ⟨bytes, a, b, c, hfat, ha, hb, hc, himg, -⟩ := image_stages h
  have hbytes : bytes.length = fatSectors * sector := by
    rw [length_writeAll (fat_eq hfat), List.length_replicate]
  have hpackedBoot := packed_boot totalSectors fatSectors
  have hpackedFats := packed_fats hbytes
  have hpackedDirs := packed_dirs hfits fatSectors
  have hwritesBoot := hpackedBoot.sublist (List.sublist_append_left _ _)
  have hwritesDirs := hpackedDirs.sublist (dirWrites_sublist fatSectors boot zk)
  have hpackedContents := packed_contents (dataOff fatSectors) hfiles (by decide)
  have hsector := sector_le_rootOff fatSectors
  have hfive : clusterOff (dataOff fatSectors) 5 ≤ totalSectors * sector := hgeo.data_le (Nat.le_trans hfiles.le hhi)
  have hroot : rootOff fatSectors ≤ clusterOff (dataOff fatSectors) 5 := by
    rw [clusterOff, dataOff, Nat.add_assoc]
    exact Nat.le_add_right _ _
  -- What is below the window of a stage stays in it.
  have hbelowContents (w : Write UInt8) (hw : Stands c w.pos w.src) (hstop : w.stop ≤ clusterOff (dataOff fatSectors) 5) :
      Stands img w.pos w.src := hpackedContents.keeps himg hw (Or.inl hstop)
  have hbelowDirs (w : Write UInt8) (hw : Stands b w.pos w.src) (hstop : w.stop ≤ rootOff fatSectors) : Stands img w.pos w.src :=
    hbelowContents w (hwritesDirs.keeps hc hw (Or.inl hstop)) (Nat.le_trans hstop hroot)
  have hhead : ∀ w ∈ bootSector totalSectors fatSectors ++ bootGaps totalSectors, Stands img w.pos w.src := fun w hw => by
    have hstop := (hpackedBoot.within w hw).2
    have hfirst : Stands a w.pos w.src := hpackedBoot.stands (List.sublist_append_left _ _) ha hw fun hnot =>
      (zero_gaps ((List.mem_append.mp hw).resolve_left hnot)).stands
        (Nat.le_trans hstop (Nat.le_trans hsector (Nat.le_trans hroot hfive)))
    exact hbelowDirs w (hpackedFats.keeps hb hfirst (Or.inl hstop)) (Nat.le_trans hstop hsector)
  have hfats : ∀ w ∈ fatWrites fatSectors bytes, Stands img w.pos w.src := fun w hw =>
    hbelowDirs w (stands_writeAll hb hpackedFats.apart hw) (hpackedFats.within w hw).2
  have hdirs : ∀ w ∈ dirWindows fatSectors boot zk, Stands img w.pos w.src := fun w hw => by
    obtain ⟨hpos, hstop⟩ := hpackedDirs.within w hw
    refine hbelowContents w (hpackedDirs.stands (dirWrites_sublist _ _ _) hc hw fun hnot => ?_) hstop
    have hzero := ((mem_dirWindows hw).resolve_left hnot).stands (Nat.le_trans hstop hfive)
    have hbeforeFats := hwritesBoot.keeps ha hzero (Or.inr (Nat.le_trans hsector hpos))
    exact hpackedFats.keeps hb hbeforeFats (Or.inr hpos)
  have hlength : img.length = totalSectors * sector := by
    rw [length_writeAll himg, length_writeAll hc, length_writeAll hb, length_writeAll ha, List.length_replicate]
  -- A directory stands in its window.
  have hdir {off size : Nat} {entries : List Bytes} (hentries : ∀ e ∈ entries, e.length = 32)
      (hin : off ≤ clusterOff (dataOff fatSectors) 5) (hwindow : dirRegions off size entries ⊆ dirWindows fatSectors boot zk) :
      Stands img off (dirBytes size entries) :=
    stands_dirBytes hentries (hlength ▸ Nat.le_trans hin hfive) fun w hw => hdirs w (hwindow hw)
  have hbelow (c : Nat) (hc : c ≤ 5) : clusterOff (dataOff fatSectors) c ≤ clusterOff (dataOff fatSectors) 5 := clusterOff_le hc
  obtain ⟨hbootRecords, hzkRecords⟩ := hfits.records
  refine ⟨bytes, hfat, hlength, hhead, hfats, hdir length_rootEntriesOf hroot ?_,
    hdir length_efiEntries (hbelow 2 (by decide)) ?_, hdir hbootRecords (hbelow 3 (by decide)) ?_,
    hdir hzkRecords (hbelow 4 (by decide)) ?_, fun f hf => ?_⟩
  iterate 4
    intro w hw
    simp [dirWindows, hw]
  exact stands_writeAll himg hpackedContents.apart (w := ⟨_, f.data⟩) (List.mem_map.mpr ⟨f, hf, rfl⟩)

end Tools.Mkesp
