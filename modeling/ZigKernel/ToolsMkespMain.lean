import ZigKernel.ToolsMkespSound

/-! When the builder writes an image, and what the verifier says about it. -/

namespace Tools.Mkesp

open Zig LittleEndian
open Qualify.Fat16 (Decided)

/-! ### The size of a FAT -/

/-- The FAT is the one that the clusters need. -/
theorem fitFat_needed {totalSectors turns fatSectors clusters : Nat} {r : Nat × Nat} (hturns : turns ≠ 0)
    (h : fitFat totalSectors turns fatSectors clusters = .ok r) : r.1 = fatNeeded r.2 := by
  induction turns generalizing fatSectors clusters with
  | zero => exact absurd rfl hturns
  | succ turns ih =>
      rcases fitFat_turn h with ⟨hneed, rfl⟩ | h
      · exact hneed.symm
      · rcases Nat.eq_zero_or_pos turns with rfl | hpos
        · cases h
          rfl
        · exact ih (Nat.ne_of_gt hpos) h

theorem fatNeeded_lt {clusters : Nat} (h : clusters < maxClusters) : fatNeeded clusters < u16Bound := by
  have hmax : maxClusters = 65525 := rfl
  have hbound : u16Bound = 65536 := rfl
  have hsector : sector = 512 := rfl
  rw [fatNeeded, hsector]
  omega

/-! ### An image is written -/

section Returns

variable {totalSectors fatSectors clusters hi : Nat} {boot zk files : List File}

theorem following_ok {f : File} {i : Nat} (h : f.firstCluster + i + 1 < u16Bound) :
    ∃ next, following f i (f.firstCluster + i) = .ok next := by
  rw [following]
  split_ifs
  · exact ⟨_, rfl⟩
  · exact ⟨_, addU16_eq_ok.mpr ⟨h, rfl⟩⟩

theorem links_ok {f : File} (h : ∀ i < clustersOf f.data, (f.firstCluster + i) * 2 < u16Bound) : ∃ ws, links f = .ok ws := by
  refine collect_ok fun i hi => ?_
  have hlow := h i (List.mem_range.mp hi)
  have hbound : u16Bound = 65536 := rfl
  obtain ⟨next, hnext⟩ := following_ok (f := f) (i := i) (by omega)
  refine ⟨⟨(f.firstCluster + i) * 2, toBytes 2 next⟩, ?_⟩
  rw [link, castU16_eq_ok.mpr ⟨by omega, rfl⟩, Outcome.ok_bind, addU16_eq_ok.mpr ⟨by omega, rfl⟩, Outcome.ok_bind, hnext,
    Outcome.ok_bind, mulU16_eq_ok.mpr ⟨hlow, rfl⟩]
  rfl

theorem fat_ok {n : Nat} (hfiles : Consecutive 5 files hi) (hlow : ∀ f ∈ files, ∀ i < clustersOf f.data, (f.firstCluster + i) * 2 < u16Bound)
    (hroom : 2 * hi ≤ n * sector) : ∃ bytes, fat n files = .ok bytes := by
  obtain ⟨chains, hchains⟩ := collect_ok (f := links) (l := files) fun f hf => links_ok (hlow f hf)
  have hpacked := packed_fatHead.append (packed_chains hfiles) (by decide) (Nat.mul_le_mul_left 2 hfiles.le)
  obtain ⟨bytes, hbytes⟩ := hpacked.returns (ε := Error) (a := List.replicate (n * sector) 0)
    (List.length_replicate.symm ▸ hroom)
  refine ⟨bytes, ?_⟩
  rw [fat, hchains, Outcome.ok_bind, collect_eq_map hchains fun _ _ => links_eq, ← List.flatMap_def]
  exact hbytes

theorem fileEntry_ok {f : File} (h : f.data.length < u32Bound) : fileEntry f = .ok (fileRecord f) := by
  rw [fileEntry, entryOf, castU32, dif_pos h]
  rfl

theorem directories_ok (rootOff dataOff : Nat) (h : ∀ f ∈ boot ++ zk, f.data.length < u32Bound) :
    ∃ ws, directories rootOff dataOff boot zk = .ok ws := by
  have hefi : short "EFI" = .ok (lit "EFI        ") := by decide
  have hzk : short "ZK" = .ok (lit "ZK         ") := by decide
  have hhere : short "." = .ok (lit ".          ") := by decide
  have hup : short ".." = .ok (lit "..         ") := by decide
  have hboot : short "BOOT" = .ok (lit "BOOT       ") := by decide
  obtain ⟨bootFiles, hbootFiles⟩ := collect_ok (f := fileEntry) (l := boot) fun f hf =>
    ⟨_, fileEntry_ok (h f (List.mem_append_left _ hf))⟩
  obtain ⟨zkFiles, hzkFiles⟩ := collect_ok (f := fileEntry) (l := zk) fun f hf =>
    ⟨_, fileEntry_ok (h f (List.mem_append_right _ hf))⟩
  rw [directories, hefi, hzk, hhere, hup, hboot]
  simp only [Outcome.ok_bind]
  rw [hbootFiles, Outcome.ok_bind, hzkFiles]
  exact ⟨_, rfl⟩

theorem castTotal_ok (h : totalSectors ≤ 262144) : castTotal totalSectors = .ok totalSectors := by
  rw [castTotal]
  split_ifs with hsmall
  · exact castU16_eq_ok.mpr ⟨hsmall, rfl⟩
  · rw [castU32, dif_pos (Nat.lt_of_le_of_lt h (by decide))]
    rfl

theorem image_ok (hgeo : Geometry totalSectors fatSectors clusters) (hfield : fatSectors < u16Bound) (hfits : Fits boot zk)
    (hfiles : Consecutive 5 (boot ++ zk) hi) (htop : hi ≤ clusters + 2)
    (hlow : ∀ f ∈ boot ++ zk, ∀ i < clustersOf f.data, (f.firstCluster + i) * 2 < u16Bound)
    (hsizes : ∀ f ∈ boot ++ zk, f.data.length < u32Bound) : ∃ img, image totalSectors fatSectors boot zk = .ok img := by
  have hsector := sector_le_rootOff fatSectors
  have hend : clusterOff (dataOff fatSectors) hi ≤ totalSectors * sector := hgeo.data_le htop
  have hfive : clusterOff (dataOff fatSectors) 5 ≤ totalSectors * sector := hgeo.data_le (Nat.le_trans hfiles.le htop)
  have hroot : rootOff fatSectors ≤ clusterOff (dataOff fatSectors) 5 := by
    rw [clusterOff, dataOff, Nat.add_assoc]
    exact Nat.le_add_right _ _
  have hrootIn := Nat.le_trans hroot hfive
  obtain ⟨bytes, hbytes⟩ := fat_ok (n := fatSectors) hfiles hlow (by have := hgeo.fat; omega)
  obtain ⟨dirs, hdirs⟩ := directories_ok (rootOff fatSectors) (dataOff fatSectors) hsizes
  have hsize : bytes.length = fatSectors * sector := by
    rw [length_writeAll (fat_eq hbytes), List.length_replicate]
  have hpackedBoot := (packed_boot totalSectors fatSectors).sublist (List.sublist_append_left _ _)
  have hpackedDirs := (packed_dirs hfits fatSectors).sublist (dirWrites_sublist fatSectors boot zk)
  obtain ⟨a, ha⟩ := hpackedBoot.returns (ε := Error) (a := List.replicate (totalSectors * sector) 0)
    (List.length_replicate.symm ▸ Nat.le_trans hsector hrootIn)
  have hlengthA : a.length = totalSectors * sector := by rw [length_writeAll ha, List.length_replicate]
  obtain ⟨b, hb⟩ := (packed_fats hsize).returns (ε := Error) (hlengthA.symm ▸ hrootIn)
  have hlengthB : b.length = totalSectors * sector := by rw [length_writeAll hb, hlengthA]
  obtain ⟨c, hc⟩ := hpackedDirs.returns (ε := Error) (hlengthB.symm ▸ hfive)
  have hlengthC : c.length = totalSectors * sector := by rw [length_writeAll hc, hlengthB]
  obtain ⟨img, himg⟩ := (packed_contents (dataOff fatSectors) hfiles (by decide)).returns (ε := Error) (hlengthC.symm ▸ hend)
  have hwrites := (directories_eq hdirs).1
  refine ⟨img, Outcome.ok_then (castTotal_ok hgeo.total) (Outcome.ok_then (castU16_eq_ok.mpr ⟨hfield, rfl⟩) ?_)⟩
  refine Outcome.ok_then ha (Outcome.ok_then hbytes (Outcome.ok_then hb (Outcome.ok_then hdirs ?_)))
  rw [hwrites]
  exact Outcome.ok_then hc himg

end Returns

/-! ### From the arguments -/

/-- The clusters of all files. -/
def totalClusters (files : List File) : Nat := (files.map fun f => clustersOf f.data).sum

theorem place_ok {next : Nat} (files : List File) (h : next + totalClusters files < u16Bound) :
    ∃ placed, place next files = .ok (placed, next + totalClusters files) := by
  induction files generalizing next with
  | nil => exact ⟨[], rfl⟩
  | cons f rest ih =>
      have hsum : totalClusters (f :: rest) = clustersOf f.data + totalClusters rest := List.sum_cons
      rw [hsum, ← Nat.add_assoc] at h ⊢
      obtain ⟨placed, hplaced⟩ := ih h
      refine ⟨{ f with firstCluster := next } :: placed, ?_⟩
      refine Outcome.ok_then (castU16_eq_ok.mpr ⟨by omega, rfl⟩) (Outcome.ok_then (addU16_eq_ok.mpr ⟨by omega, rfl⟩) ?_)
      exact Outcome.ok_then hplaced rfl

theorem place_last {next last : Nat} {files placed : List File} (h : place next files = .ok (placed, last)) :
    last = next + totalClusters files := by
  obtain ⟨hplaced, hsame⟩ := place_consecutive h
  have htotal : totalClusters placed = totalClusters files := by
    have hdata := congrArg (List.map fun e : Bytes × Bytes => clustersOf e.2) hsame
    rw [List.map_map, List.map_map] at hdata
    exact congrArg List.sum hdata
  rw [← htotal]
  clear h hsame htotal
  induction placed generalizing next with
  | nil => exact hplaced.symm
  | cons f rest ih =>
      have hsum : totalClusters (f :: rest) = clustersOf f.data + totalClusters rest := List.sum_cons
      rw [hsum, ih hplaced.2, Nat.add_assoc]

/-- The files of the arguments. -/
def inputs (bootx64 kernel initramfs : Bytes) : List File :=
  [{ name := lit "BOOTX64 EFI", data := bootx64 }, { name := lit "KERNEL  ELF", data := kernel },
    { name := lit "INITRD  BIN", data := initramfs }]

theorem main_eq_ok {sizeMb : U64} {bootx64 kernel initramfs img : Bytes} :
    main sizeMb bootx64 kernel initramfs = .ok img ↔ ∃ fatSectors clusters placed last, sizeMb.val * 1024 * 1024 < u64Bound ∧
      fitFat (sizeMb.val * 2048) 8 1 0 = .ok (fatSectors, clusters) ∧ (4085 ≤ clusters ∧ clusters < maxClusters) ∧
      place 5 (inputs bootx64 kernel initramfs) = .ok (placed, last) ∧ last ≤ clusters + 2 ∧
      image (sizeMb.val * 2048) fatSectors (placed.take 1) (placed.drop 1) = .ok img := by
  have hboot : short "BOOTX64.EFI" = .ok (lit "BOOTX64 EFI") := by decide
  have hkernel : short "KERNEL.ELF" = .ok (lit "KERNEL  ELF") := by decide
  have hinit : short "INITRD.BIN" = .ok (lit "INITRD  BIN") := by decide
  have hsectors : sizeMb.val * 1024 * 1024 / sector = sizeMb.val * 2048 := by
    have hsector : sector = 512 := rfl
    rw [hsector]
    omega
  constructor
  · intro h
    obtain ⟨kib, hkib, h⟩ := Outcome.bind_eq_ok h
    obtain ⟨bytes, hbytes, h⟩ := Outcome.bind_eq_ok h
    obtain ⟨hkibRange, rfl⟩ := mulU64_eq_ok.mp hkib
    obtain ⟨hbytesRange, rfl⟩ := mulU64_eq_ok.mp hbytes
    rw [hsectors] at h
    obtain ⟨⟨fatSectors, clusters⟩, hfit, h⟩ := Outcome.bind_eq_ok h
    obtain ⟨hrange, h⟩ := Outcome.ite_error_eq_ok h
    rw [hboot, hkernel, hinit] at h
    simp only [Outcome.ok_bind] at h
    obtain ⟨⟨placed, last⟩, hplace, h⟩ := Outcome.bind_eq_ok h
    obtain ⟨htop, h⟩ := Outcome.ite_error_eq_ok h
    rw [not_or, Nat.not_lt, Nat.not_le] at hrange
    exact ⟨fatSectors, clusters, placed, last, hbytesRange, hfit, hrange, hplace, by omega, h⟩
  · rintro ⟨fatSectors, clusters, placed, last, hbytes, hfit, hrange, hplace, htop, himage⟩
    have hkibRange : sizeMb.val * 1024 < u64Bound :=
      Nat.lt_of_le_of_lt (Nat.le_mul_of_pos_right _ (by decide)) hbytes
    have hkib : (mulU64 sizeMb.val 1024 : Outcome Error Nat) = .ok (sizeMb.val * 1024) := mulU64_eq_ok.mpr ⟨hkibRange, rfl⟩
    have hsize : (mulU64 (sizeMb.val * 1024) 1024 : Outcome Error Nat) = .ok (sizeMb.val * 1024 * 1024) :=
      mulU64_eq_ok.mpr ⟨hbytes, rfl⟩
    refine Outcome.ok_then hkib (Outcome.ok_then hsize ?_)
    dsimp only
    rw [hsectors]
    refine Outcome.ok_then hfit ((if_neg ?_).trans ?_)
    · rw [not_or, Nat.not_lt, Nat.not_le]
      exact hrange
    · rw [hboot, hkernel, hinit]
      simp only [Outcome.ok_bind]
      refine Outcome.ok_then hplace ((if_neg ?_).trans himage)
      omega

/-- The clusters of a volume of this size. -/
def clustersFor (sizeMb : Nat) : Nat :=
  match fitFat (sizeMb * 2048) 8 1 0 with
  | .ok r => r.2
  | _ => 0

/-- The sizes that have a number of clusters for this kind of FAT. -/
theorem fitFat_range {mib : Nat} {r : Nat × Nat} (h : fitFat (mib * 2048) 8 1 0 = .ok r) :
    (4085 ≤ r.2 ∧ r.2 < maxClusters) ↔ 9 ≤ mib ∧ mib ≤ 128 := by
  rcases Nat.lt_or_ge mib 129 with hmib | hmib
  · have hall : ∀ mib < 129, (match fitFat (mib * 2048) 8 1 0 with
        | .ok r => decide ((4085 ≤ r.2 ∧ r.2 < maxClusters) ↔ 9 ≤ mib ∧ mib ≤ 128)
        | _ => true) = true := by
      decide +kernel
    have hone := hall mib hmib
    rw [h] at hone
    exact of_decide_eq_true hone
  · have hlarge := fitFat_large (by omega) (by omega) (by decide) h
    omega

theorem fitFat_returns {mib : Nat} (hlo : 9 ≤ mib) (hhi : mib ≤ 128) :
    ∃ fatSectors, fitFat (mib * 2048) 8 1 0 = .ok (fatSectors, clustersFor mib) := by
  have hall : ∀ mib < 129, 9 ≤ mib → (match fitFat (mib * 2048) 8 1 0 with
      | .ok _ => true
      | _ => false) = true := by
    decide +kernel
  have hone := hall mib (by omega) hlo
  rw [clustersFor]
  cases hfit : fitFat (mib * 2048) 8 1 0 with
  | ok r => exact ⟨r.1, rfl⟩
  | error e =>
      rw [hfit] at hone
      cases hone
  | trap =>
      rw [hfit] at hone
      cases hone

section Whole

variable {sizeMb : U64} {bootx64 kernel initramfs img : Bytes}

/-- The three files where they were placed. -/
theorem place_inputs {placed : List File} {last : Nat} (h : place 5 (inputs bootx64 kernel initramfs) = .ok (placed, last)) :
    ∃ a b c : Nat, placed = [{ name := lit "BOOTX64 EFI", data := bootx64, firstCluster := a },
      { name := lit "KERNEL  ELF", data := kernel, firstCluster := b },
      { name := lit "INITRD  BIN", data := initramfs, firstCluster := c }] := by
  obtain ⟨-, hsame⟩ := place_consecutive h
  match placed, hsame with
  | [⟨n₁, d₁, a⟩, ⟨n₂, d₂, b⟩, ⟨n₃, d₃, c⟩], hsame =>
      simp only [inputs, List.map_cons, List.map_nil, List.cons.injEq, Prod.mk.injEq, and_true] at hsame
      obtain ⟨⟨rfl, rfl⟩, ⟨rfl, rfl⟩, rfl, rfl⟩ := hsame
      exact ⟨a, b, c, rfl⟩

theorem fits_inputs {a b c : Nat} :
    Fits [{ name := lit "BOOTX64 EFI", data := bootx64, firstCluster := a }]
      [{ name := lit "KERNEL  ELF", data := kernel, firstCluster := b },
        { name := lit "INITRD  BIN", data := initramfs, firstCluster := c }] where
  named := by
    simp only [Named, List.singleton_append, List.forall_mem_cons, List.not_mem_nil, false_imp_iff, implies_true, and_true]
    decide
  boot := Nat.le_of_ble_eq_true rfl
  zk := Nat.le_of_ble_eq_true rfl

variable (sizeMb bootx64 kernel initramfs) in
theorem main_returns (hlo : 9 ≤ sizeMb.val) (hhi : sizeMb.val ≤ 128)
    (hroom : totalClusters (inputs bootx64 kernel initramfs) + 3 ≤ clustersFor sizeMb.val)
    (hlow : totalClusters (inputs bootx64 kernel initramfs) + 4 < 32768) : ∃ img, main sizeMb bootx64 kernel initramfs = .ok img := by
  obtain ⟨fatSectors, hfit⟩ := fitFat_returns hlo hhi
  have hrange := (fitFat_range hfit).mpr ⟨hlo, hhi⟩
  have hgeo := fitFat_geometry hfit hrange.1 hrange.2
  have hneeded : fatSectors = fatNeeded (clustersFor sizeMb.val) := fitFat_needed (by decide) hfit
  have hbound : u16Bound = 65536 := rfl
  obtain ⟨placed, hplaced⟩ := place_ok (inputs bootx64 kernel initramfs) (show 5 + _ < u16Bound by omega)
  obtain ⟨hfiles, -⟩ := place_consecutive hplaced
  obtain ⟨a, b, c, rfl⟩ := place_inputs hplaced
  have hwide (f : File) (hf : f.firstCluster + clustersOf f.data ≤ 5 + totalClusters (inputs bootx64 kernel initramfs)) :
      f.data.length < u32Bound := by
    have hdata := clustersOf_room f.data
    have hcluster : cluster = 2048 := rfl
    have hlarge : u32Bound = 4294967296 := rfl
    rw [hcluster] at hdata
    omega
  obtain ⟨img, himg⟩ := image_ok hgeo (hneeded ▸ fatNeeded_lt hrange.2) fits_inputs hfiles (by omega)
    (fun f hf i hi => by have := (hfiles.mem hf).2; omega) fun f hf => hwide f (hfiles.mem hf).2
  refine ⟨img, main_eq_ok.mpr ⟨fatSectors, _, _, _, ?_, hfit, hrange, hplaced, by omega, himg⟩⟩
  have hmib : sizeMb.val * 1024 * 1024 ≤ 128 * 1024 * 1024 := Nat.mul_le_mul_right _ (Nat.mul_le_mul_right _ hhi)
  exact Nat.lt_of_le_of_lt hmib (by decide)

/-- What is known of an image that was written. -/
theorem main_built (h : main sizeMb bootx64 kernel initramfs = .ok img) :
    ∃ bytes fatSectors clusters hi a b c,
      Built img bytes (sizeMb.val * 2048) fatSectors clusters hi [{ name := lit "BOOTX64 EFI", data := bootx64, firstCluster := a }]
        [{ name := lit "KERNEL  ELF", data := kernel, firstCluster := b },
          { name := lit "INITRD  BIN", data := initramfs, firstCluster := c }] ∧
      fitFat (sizeMb.val * 2048) 8 1 0 = .ok (fatSectors, clusters) ∧ hi = 5 + totalClusters (inputs bootx64 kernel initramfs) := by
  obtain ⟨fatSectors, clusters, placed, last, -, hfit, hrange, hplaced, htop, himage⟩ := main_eq_ok.mp h
  obtain ⟨hfiles, -⟩ := place_consecutive hplaced
  have hlast := place_last hplaced
  obtain ⟨a, b, c, rfl⟩ := place_inputs hplaced
  obtain ⟨bytes, hbuilt⟩ := image_built himage (fitFat_geometry hfit hrange.1 hrange.2) hrange fits_inputs hfiles htop
  exact ⟨bytes, fatSectors, clusters, last, a, b, c, hbuilt, hfit, hlast⟩

/-- An image is written for these sizes, where the files fit into the volume and into the positions of a FAT. -/
theorem image_written_iff : (∃ img, main sizeMb bootx64 kernel initramfs = .ok img) ↔
    (9 ≤ sizeMb.val ∧ sizeMb.val ≤ 128) ∧
      totalClusters (inputs bootx64 kernel initramfs) + 3 ≤ clustersFor sizeMb.val ∧
      totalClusters (inputs bootx64 kernel initramfs) + 4 < 32768 := by
  constructor
  · rintro ⟨img, h⟩
    obtain ⟨bytes, fatSectors, clusters, hi, a, b, c, hbuilt, hfit, rfl⟩ := main_built h
    have hcount : clustersFor sizeMb.val = clusters := by rw [clustersFor, hfit]
    have htop := hbuilt.top
    refine ⟨(fitFat_range hfit).mp hbuilt.range, by omega, ?_⟩
    -- The last cluster of the files has a position in the FAT.
    rcases Nat.eq_zero_or_pos (totalClusters (inputs bootx64 kernel initramfs)) with hnone | hsome
    · rw [hnone]
      decide
    · obtain ⟨f, hf, i, hi, hlast⟩ := hbuilt.files.covers
        (c := 4 + totalClusters (inputs bootx64 kernel initramfs)) (by omega) (by omega)
      have hlow := hbuilt.low f hf i hi
      have hbound : u16Bound = 65536 := rfl
      omega
  · rintro ⟨⟨hlo, hhi⟩, hroom, hlow⟩
    exact main_returns _ _ _ _ hlo hhi hroom hlow

theorem titled_bootx64 : Titled (lit "BOOTX64 EFI") "BOOTX64.EFI" :=
  ⟨by decide, name_name83 (s := lit "BOOTX64.EFI") rfl, ⟨_, rfl⟩, ⟨66, rfl, by decide, by decide⟩⟩

theorem titled_kernel : Titled (lit "KERNEL  ELF") "KERNEL.ELF" :=
  ⟨by decide, name_name83 (s := lit "KERNEL.ELF") rfl, ⟨_, rfl⟩, ⟨75, rfl, by decide, by decide⟩⟩

theorem titled_initrd : Titled (lit "INITRD  BIN") "INITRD.BIN" :=
  ⟨by decide, name_name83 (s := lit "INITRD.BIN") rfl, ⟨_, rfl⟩, ⟨73, rfl, by decide, by decide⟩⟩

theorem tree_inputs {a b c : Nat} :
    Tree [{ name := lit "BOOTX64 EFI", data := bootx64, firstCluster := a }]
      [{ name := lit "KERNEL  ELF", data := kernel, firstCluster := b },
        { name := lit "INITRD  BIN", data := initramfs, firstCluster := c }]
      [({ name := lit "BOOTX64 EFI", data := bootx64, firstCluster := a }, "BOOTX64.EFI")]
      [({ name := lit "KERNEL  ELF", data := kernel, firstCluster := b }, "KERNEL.ELF"),
        ({ name := lit "INITRD  BIN", data := initramfs, firstCluster := c }, "INITRD.BIN")] where
  boot := rfl
  zk := rfl
  bootListed := {
    titled := List.forall_mem_singleton.mpr titled_bootx64
    plain := by simp
    fresh := by simp
    nodup := List.nodup_singleton _
    paths := List.nodup_singleton _ }
  zkListed := {
    titled := List.forall_mem_cons.mpr ⟨titled_kernel, List.forall_mem_singleton.mpr titled_initrd⟩
    plain := by simp
    fresh := by simp
    nodup := (by decide : ["KERNEL.ELF", "INITRD.BIN"].Nodup)
    paths := (by decide : ["/ZK/" ++ "KERNEL.ELF", "/ZK/" ++ "INITRD.BIN"].Nodup) }
  bootRoom := Nat.le_of_ble_eq_true rfl
  zkRoom := Nat.le_of_ble_eq_true rfl
  paths := (by decide : [zkPath "INITRD.BIN", zkPath "KERNEL.ELF", "/ZK", bootPath "BOOTX64.EFI", "/EFI/BOOT", "/EFI"].Nodup)

/-- The verifier accepts an image if none of its files is empty, and the files are those of the arguments. -/
theorem written_image_verified (h : main sizeMb bootx64 kernel initramfs = .ok img) :
    (bootx64 ≠ [] ∧ kernel ≠ [] ∧ initramfs ≠ [] → ∃ v s, Qualify.Fat16.fat16 img = .ok (v, s) ∧
      s.files = [("/EFI/BOOT/BOOTX64.EFI", bootx64), ("/ZK/KERNEL.ELF", kernel), ("/ZK/INITRD.BIN", initramfs)]) ∧
    (bootx64 = [] ∨ kernel = [] ∨ initramfs = [] → ∃ message, Qualify.Fat16.fat16 img = .error (.invalidESP message)) := by
  obtain ⟨bytes, fatSectors, clusters, hi, a, b, c, hbuilt, -, -⟩ := main_built h
  have hverified := hbuilt.fat16 tree_inputs fits_inputs
  have hfiles : ((∀ e ∈ [(({ name := lit "BOOTX64 EFI", data := bootx64, firstCluster := a } : File), "BOOTX64.EFI")],
        e.1.data ≠ []) ∧
      ∀ e ∈ [(({ name := lit "KERNEL  ELF", data := kernel, firstCluster := b } : File), "KERNEL.ELF"),
        (({ name := lit "INITRD  BIN", data := initramfs, firstCluster := c } : File), "INITRD.BIN")], e.1.data ≠ []) ↔
      bootx64 ≠ [] ∧ kernel ≠ [] ∧ initramfs ≠ [] := by
    simp
  refine ⟨fun hnonempty => ?_, fun hempty => hverified.refused fun hall => ?_⟩
  · obtain ⟨⟨v, s⟩, hread, hs⟩ := hverified.accepted (hfiles.mpr hnonempty)
    exact ⟨v, s, hread, hs.trans rfl⟩
  · obtain ⟨hboot, hkernel, hinit⟩ := hfiles.mp hall
    rcases hempty with hempty | hempty | hempty
    · exact hboot hempty
    · exact hkernel hempty
    · exact hinit hempty

end Whole

theorem written_image_verified_small : ∃ img v s, main ⟨16, by decide⟩ [1] [2, 3] [4] = .ok img ∧
    Qualify.Fat16.fat16 img = .ok (v, s) ∧
    s.files = [("/EFI/BOOT/BOOTX64.EFI", [1]), ("/ZK/KERNEL.ELF", [2, 3]), ("/ZK/INITRD.BIN", [4])] := by
  obtain ⟨img, himg⟩ := main_returns ⟨16, by decide⟩ [1] [2, 3] [4]
    (by decide) (by decide) (by decide) (by decide)
  obtain ⟨v, s, hread, hfiles⟩ := (written_image_verified himg).1 ⟨by decide, by decide, by decide⟩
  exact ⟨img, v, s, himg, hread, hfiles⟩

end Tools.Mkesp
