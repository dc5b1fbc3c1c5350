import ZigKernel.QualifyFat16Reading
import ZigKernel.ToolsMkespImage
import ZigKernel.ToolsMkespNames

/-! The volume that the builder writes is one that the verifier accepts, and the files are those that were given. The one
exception is a file without a byte, which keeps the cluster behind it. -/

namespace Tools.Mkesp

open Zig LittleEndian
open Qualify (Fat16.Volume Fat16.Found Fat16.Dir Fat16.Fields)
open Qualify.Fat16 (Chain Free Record Used Grown Decided check_then ok_then slice_of_stands unpackFrom_of_stands index_of_stands)

/-! ### What stands -/

/-- Everything that is known of an image. -/
structure Built (img bytes : Bytes) (totalSectors fatSectors clusters hi : Nat) (boot zk : List File) : Prop where
  geometry : Geometry totalSectors fatSectors clusters
  range : 4085 ≤ clusters ∧ clusters < maxClusters
  field : fatSectors < u16Bound
  layout : Layout img totalSectors fatSectors bytes boot zk
  size : bytes.length = fatSectors * sector
  links : Links (boot ++ zk) hi bytes
  files : Consecutive 5 (boot ++ zk) hi
  top : hi ≤ clusters + 2
  low : ∀ f ∈ boot ++ zk, ∀ i < clustersOf f.data, (f.firstCluster + i) * 2 < u16Bound
  sizes : ∀ f ∈ boot ++ zk, f.data.length < u32Bound

theorem image_built {totalSectors fatSectors clusters hi : Nat} {boot zk : List File} {img : Bytes}
    (h : image totalSectors fatSectors boot zk = .ok img) (hgeo : Geometry totalSectors fatSectors clusters)
    (hrange : 4085 ≤ clusters ∧ clusters < maxClusters) (hfits : Fits boot zk) (hfiles : Consecutive 5 (boot ++ zk) hi)
    (htop : hi ≤ clusters + 2) : ∃ bytes, Built img bytes totalSectors fatSectors clusters hi boot zk := by
  obtain ⟨bytes, hfat, hlayout⟩ := image_layout h hgeo hfits hfiles htop
  obtain ⟨-, -, -, -, -, -, -, -, -, hfield, hsizes⟩ := image_stages h
  have hhi : hi < u16Bound := by
    have hmax : maxClusters + 2 < u16Bound := by decide
    omega
  obtain ⟨hsize, hlinks⟩ := fat_links hfat hfiles hhi
  exact ⟨bytes, hgeo, hrange, hfield, hlayout, hsize, hlinks, hfiles, htop, fun f hf i hi => fat_low hfat hf hi, hsizes⟩

/-- The volume of an image. -/
def volumeOf (img : Bytes) (fatSectors clusters : Nat) : Fat16.Volume where
  data := img
  spc := spc
  clusterBytes := 512 * spc
  rootEntries := rootEntries
  fatOffset := reserved * 512
  fatBytes := fatSectors * 512
  rootOffset := (reserved + nfats * fatSectors) * 512
  dataOffset := (reserved + nfats * fatSectors) * 512 + rootEntries * 32
  clusterCount := clusters

section Reading

variable {img bytes : Bytes} {totalSectors fatSectors clusters hi : Nat} {boot zk : List File}

theorem offsetOf_eq (c : Nat) : (volumeOf img fatSectors clusters).offsetOf c = clusterOff (dataOff fatSectors) c := rfl

theorem Built.data_le (hb : Built img bytes totalSectors fatSectors clusters hi boot zk) {c : Nat} (hc : c ≤ clusters + 2) :
    clusterOff (dataOff fatSectors) c ≤ img.length := by
  rw [hb.layout.length]
  exact hb.geometry.data_le hc

theorem fatWrites_eq (fatSectors : Nat) (bytes : Bytes) :
    fatWrites fatSectors bytes = [⟨reserved * sector, bytes⟩, ⟨(reserved + fatSectors) * sector, bytes⟩] := by
  simp [fatWrites, nfats, List.range_succ]

/-- The FAT is read entry by entry. -/
theorem Built.fat_eq (hb : Built img bytes totalSectors fatSectors clusters hi boot zk) {c : Nat} (hc : c < clusters + 2) :
    (volumeOf img fatSectors clusters).fat c = .ok (entryAt bytes c) := by
  have hfirst : Stands img (reserved * sector) bytes := hb.layout.fats ⟨reserved * sector, bytes⟩ (by simp [fatWrites_eq])
  have hroom := hb.geometry.fat
  have hsize := hb.size
  have hin : 2 * c + 2 ≤ bytes.length := by omega
  have hlength := hfirst.length_le
  have hsame : reserved * 512 + c * 2 = reserved * sector + 2 * c := by
    rw [Nat.mul_comm c]
    rfl
  change Qualify.Fat16.unpackFrom 2 img (reserved * 512 + c * 2) = _
  rw [hsame, Qualify.Fat16.unpackFrom, if_pos (by omega), Qualify.Fat16.slice_within hfirst hin]
  rfl

/-- A field of the boot sector that is written. -/
theorem Built.head (hb : Built img bytes totalSectors fatSectors clusters hi boot zk) {pos : Nat} {src : Bytes}
    (hw : (⟨pos, src⟩ : Write UInt8) ∈ bootSector totalSectors fatSectors) : Stands img pos src :=
  hb.layout.head _ (List.mem_append_left _ hw)

/-- A field that stays zero. -/
theorem Built.gap (hb : Built img bytes totalSectors fatSectors clusters hi boot zk) {pos n : Nat}
    (hw : (⟨pos, List.replicate n 0⟩ : Write UInt8) ∈ bootGaps totalSectors) : Stands img pos (List.replicate n 0) :=
  hb.layout.head _ (List.mem_append_right _ hw)

/-- One of the two fields has the number of sectors, and the other is zero. -/
theorem Built.total (hb : Built img bytes totalSectors fatSectors clusters hi boot zk) :
    ∃ small large, Qualify.Fat16.u16 img 19 = .ok small ∧ Qualify.Fat16.u32 img 32 = .ok large ∧
      ¬(small ≠ 0 ↔ large ≠ 0) ∧ (if small ≠ 0 then small else large) = totalSectors := by
  have hroom := hb.geometry.room
  have hpos : totalSectors ≠ 0 := by
    rw [reserved] at hroom
    omega
  have htotal : totalSectors < 256 ^ 4 := Nat.lt_of_le_of_lt hb.geometry.total (by decide)
  rcases Nat.lt_or_ge totalSectors 65536 with hsmall | hlarge
  · refine ⟨totalSectors, 0, unpackFrom_of_stands (hb.head (by simp [bootSector, hsmall])) hsmall,
      unpackFrom_of_stands (hb.gap (n := 4) (by simp [bootGaps, hsmall])) (by decide), ?_, if_pos hpos⟩
    simp [hpos]
  · have hnot : ¬totalSectors < 65536 := Nat.not_lt.mpr hlarge
    refine ⟨0, totalSectors, unpackFrom_of_stands (hb.gap (n := 2) (by simp [bootGaps, hnot])) (by decide),
      unpackFrom_of_stands (hb.head (by simp [bootSector, hnot])) htotal, ?_, if_neg (not_not.mpr rfl)⟩
    simp [hpos]

theorem Built.clusterCount (hb : Built img bytes totalSectors fatSectors clusters hi boot zk) :
    (img.length - ((reserved + nfats * fatSectors) * 512 + rootEntries * 32)) / (512 * spc) = clusters := by
  have hbehind := hb.geometry.behind
  rw [hb.layout.length]
  simp only [clustersBehind, reserved, nfats, rootSectors, rootEntries, sector, spc] at hbehind ⊢
  omega

theorem Built.checkVolume (hb : Built img bytes totalSectors fatSectors clusters hi boot zk) :
    Qualify.Fat16.checkVolume (volumeOf img fatSectors clusters) = .ok () := by
  have hcopies : fatWrites fatSectors bytes = [⟨reserved * sector, bytes⟩, ⟨(reserved + fatSectors) * sector, bytes⟩] :=
    fatWrites_eq fatSectors bytes
  have hfirst : Stands img (reserved * sector) bytes := hb.layout.fats ⟨_, bytes⟩ (by simp [hcopies])
  have hsecond : Stands img ((reserved + fatSectors) * sector) bytes := hb.layout.fats ⟨_, bytes⟩ (by simp [hcopies])
  have hdata := hb.data_le (Nat.le_refl (clusters + 2))
  have hrange := hb.range
  have hinside : (volumeOf img fatSectors clusters).dataOffset < img.length := by
    simp only [clusterOff, dataOff, rootOff, rootSectors, rootEntries, sector, cluster, spc] at hdata
    simp only [volumeOf, rootEntries]
    omega
  refine check_then hinside (check_then hb.range (check_then hb.geometry.fat ?_))
  dsimp only
  refine check_then ?_ (ok_then (hb.fat_eq (Nat.succ_pos _)) ?_)
  · have hone : Qualify.Fat16.slice img (reserved * 512) (reserved * 512 + fatSectors * 512) = bytes :=
      slice_of_stands hfirst (by rw [hb.size]; rfl)
    have htwo : Qualify.Fat16.slice img (reserved * 512 + fatSectors * 512) ((reserved + nfats * fatSectors) * 512) = bytes := by
      have hstart : reserved * 512 + fatSectors * 512 = (reserved + fatSectors) * sector := (Nat.add_mul _ _ _).symm
      rw [hstart]
      refine slice_of_stands hsecond ?_
      rw [hb.size, ← Nat.add_mul, Nat.add_assoc, ← Nat.two_mul]
      rfl
    exact hone.trans htwo.symm
  · refine ok_then (index_of_stands (b := 0xF8) (hb.head (by simp [bootSector]))) ?_
    rw [hb.links.media, if_pos (by decide)]
    have hreserved : (volumeOf img fatSectors clusters).fat 1 = .ok (entryAt bytes 1) := hb.fat_eq (by omega)
    rw [hreserved, hb.links.reserved]
    rfl

theorem Built.readVolume (hb : Built img bytes totalSectors fatSectors clusters hi boot zk) :
    Qualify.Fat16.readVolume img = .ok (volumeOf img fatSectors clusters) := by
  obtain ⟨small, large, hsmall, hlarge, hone, htotal⟩ := hb.total
  have hlength : 512 ≤ img.length ∧ img.length ≤ Qualify.Fat16.maxImage := by
    have hroom := hb.geometry.room
    have hmax := hb.geometry.total
    rw [hb.layout.length]
    simp only [reserved, rootSectors, sector, Qualify.Fat16.maxImage] at hroom ⊢
    omega
  have hsignature : Qualify.Fat16.slice img 510 512 = [0x55, 0xaa] :=
    slice_of_stands (stands_append (s := [0x55]) (t := [0xAA]) |>.mpr
      ⟨hb.head (by simp [bootSector]), hb.head (by simp [bootSector])⟩) rfl
  have hfatSectors : fatSectors > 0 := by
    have hroom := hb.geometry.fat
    refine Nat.pos_of_ne_zero fun hzero => ?_
    rw [hzero, Nat.zero_mul] at hroom
    omega
  rw [Qualify.Fat16.readVolume]
  refine check_then hlength (check_then hsignature ?_)
  refine ok_then (unpackFrom_of_stands (v := sector) (hb.head (by simp [bootSector])) (by decide)) (check_then rfl ?_)
  refine ok_then (index_of_stands (b := UInt8.ofNat spc) (hb.head (by simp [bootSector]))) (check_then (by decide) ?_)
  refine ok_then (unpackFrom_of_stands (v := reserved) (hb.head (by simp [bootSector])) (by decide)) ?_
  refine ok_then (index_of_stands (b := UInt8.ofNat nfats) (hb.head (by simp [bootSector]))) ?_
  refine ok_then (unpackFrom_of_stands (v := rootEntries) (hb.head (by simp [bootSector])) (by decide)) ?_
  refine check_then (by decide) (check_then (by decide) (ok_then hsmall (ok_then hlarge (check_then hone ?_))))
  dsimp only
  rw [htotal]
  refine check_then hb.layout.length.symm ?_
  refine ok_then (unpackFrom_of_stands (v := 0) (hb.gap (n := 4) (by simp [bootGaps])) (by decide)) (check_then rfl ?_)
  refine ok_then (unpackFrom_of_stands (v := fatSectors) (hb.head (by simp [bootSector])) hb.field) (check_then hfatSectors ?_)
  have hspc : (UInt8.ofNat spc).toNat = spc := rfl
  have hnfats : (UInt8.ofNat nfats).toNat = nfats := rfl
  rw [hspc, hnfats, hb.clusterCount]
  exact ok_then hb.checkVolume rfl

/-! ### Chains -/

theorem Built.wellFormed (hb : Built img bytes totalSectors fatSectors clusters hi boot zk) :
    (volumeOf img fatSectors clusters).WellFormed :=
  ((Qualify.Fat16.readVolume_ensures img).of_ok hb.readVolume).1

/-- A directory has one cluster. -/
theorem Built.dir_free (hb : Built img bytes totalSectors fatSectors clusters hi boot zk) {c : Nat} (hlo : 2 ≤ c) (hhi : c < 5)
    {claimed : List (Nat × String)} (hfree : claimed.lookup c = none) :
    Free (volumeOf img fatSectors clusters) c [c] claimed where
  links := by
    have hrange := hb.range
    have hin : c < clusters + 2 := by omega
    refine .last ⟨hlo, hin⟩ (hb.fat_eq hin) ?_
    rw [hb.links.directory c hlo hhi]
    decide
  low := List.forall_mem_singleton.mpr (Nat.lt_trans hhi (by decide))
  nodup := List.nodup_singleton c
  unclaimed := List.forall_mem_singleton.mpr hfree

/-- From a cluster of a file the links lead to its last one. -/
theorem Built.file_chain (hb : Built img bytes totalSectors fatSectors clusters hi boot zk) {f : File} (hf : f ∈ boot ++ zk)
    {i k : Nat} (hk : i + k + 1 = clustersOf f.data) :
    Chain (volumeOf img fatSectors clusters) (f.firstCluster + i) (List.range' (f.firstCluster + i) (k + 1)) := by
  obtain ⟨hfirst, hlast⟩ := hb.files.mem hf
  have htop := hb.top
  have hin : f.firstCluster + i < clusters + 2 := by omega
  have hdata : (volumeOf img fatSectors clusters).InData (f.firstCluster + i) := ⟨by omega, hin⟩
  have hlink := hb.links.chain f hf i (by omega)
  have hfat := hb.fat_eq hin
  rw [hlink] at hfat
  induction k generalizing i with
  | zero =>
      rw [linkValue, if_pos (by omega)] at hfat
      exact .last hdata hfat (by decide)
  | succ k ih =>
      have hlow := hb.low f hf (i + 1) (by omega)
      have hbound : u16Bound = 65536 := rfl
      rw [linkValue, if_neg (by omega)] at hfat
      rw [List.range'_succ]
      have hnext : f.firstCluster + (i + 1) < clusters + 2 := by omega
      have hnextFat := hb.fat_eq hnext
      have hnextLink := hb.links.chain f hf (i + 1) (by omega)
      rw [hnextLink] at hnextFat
      exact .next hdata hfat ⟨by omega, by omega⟩ (ih (i := i + 1) (by omega) hnext ⟨by omega, hnext⟩ hnextLink hnextFat)

theorem clustersOf_pos {data : Bytes} (h : data ≠ []) : 0 < clustersOf data := by
  have hlength := List.length_pos_iff.mpr h
  have hcluster : cluster = 2048 := rfl
  rw [clustersOf, hcluster]
  omega

/-- The clusters of a file. -/
def clustersIn (f : File) : List Nat := List.range' f.firstCluster (clustersOf f.data)

theorem Built.file_free (hb : Built img bytes totalSectors fatSectors clusters hi boot zk) {f : File} (hf : f ∈ boot ++ zk)
    (hdata : f.data ≠ []) {claimed : List (Nat × String)} (hfree : ∀ c ∈ clustersIn f, claimed.lookup c = none) :
    Free (volumeOf img fatSectors clusters) f.firstCluster (clustersIn f) claimed where
  links := by
    have hpos := clustersOf_pos hdata
    have hchain := hb.file_chain hf (i := 0) (k := clustersOf f.data - 1) (by omega)
    rw [Nat.sub_add_cancel hpos] at hchain
    exact hchain
  low := fun c hc => by
    obtain ⟨i, hi, rfl⟩ := List.mem_range'.mp hc
    have hlow := hb.low f hf i hi
    have hbound : u16Bound = 65536 := rfl
    omega
  nodup := List.nodup_range'
  unclaimed := hfree

theorem Built.file_contents (hb : Built img bytes totalSectors fatSectors clusters hi boot zk) {f : File} (hf : f ∈ boot ++ zk) :
    ((volumeOf img fatSectors clusters).contents (clustersIn f)).take f.data.length = f.data := by
  have hstands := hb.layout.contents f hf
  have hlo := (hb.files.mem hf).1
  have hroom : f.data.length ≤ clustersOf f.data * (volumeOf img fatSectors clusters).clusterBytes := clustersOf_room f.data
  have hslice : Qualify.Fat16.slice img (clusterOff (dataOff fatSectors) f.firstCluster)
      (clusterOff (dataOff fatSectors) f.firstCluster + f.data.length) = f.data := slice_of_stands hstands rfl
  rw [Qualify.Fat16.slice, Nat.add_sub_cancel_left] at hslice
  rw [clustersIn, Qualify.Fat16.contents_range' _ (by omega), Qualify.Fat16.slice, Nat.add_sub_cancel_left, offsetOf_eq,
    List.take_take, Nat.min_eq_left hroom]
  exact hslice

theorem dir_contents {entries : List Bytes} {c : Nat} (hsize : (dirBytes cluster entries).length = cluster)
    (h : Stands img (clusterOff (dataOff fatSectors) c) (dirBytes cluster entries)) :
    (volumeOf img fatSectors clusters).contents [c] = dirBytes cluster entries := by
  rw [Qualify.Fat16.Volume.contents, List.flatMap_singleton]
  exact slice_of_stands h (by rw [hsize]; rfl)

end Reading

/-! ### Directories -/

/-- A raw name and what is read for it. -/
structure Titled (raw : Bytes) (n : String) : Prop where
  length : raw.length = 11
  read : Qualify.Fat16.name raw = .ok n
  ascii : ∃ s, Qualify.Fat16.decodeAscii raw = .ok s
  lead : ∃ b, raw.head? = some b ∧ b ≠ 0 ∧ b ≠ 0xE5

theorem record_dirEntry {raw : Bytes} (h : raw.length = 11) (attr : UInt8) (first size : Nat) :
    Record raw attr first size (dirEntry raw attr first size) := by
  rw [dirEntry_eq h]
  have hfirst := length_toBytes 2 first
  refine ⟨⟨[], attr :: List.replicate 14 0 ++ toBytes 2 first ++ toBytes 4 size, by simp, rfl⟩,
    ⟨raw, List.replicate 14 0 ++ toBytes 2 first ++ toBytes 4 size, by simp, h⟩,
    ⟨raw ++ [attr], List.replicate 13 0 ++ toBytes 2 first ++ toBytes 4 size, ?_, by simp [h]⟩,
    ⟨raw ++ attr :: List.replicate 8 0, List.replicate 4 0 ++ toBytes 2 first ++ toBytes 4 size, ?_, by simp [h]⟩,
    ⟨raw ++ attr :: List.replicate 14 0, toBytes 4 size, by simp, by simp [h]⟩,
    ⟨raw ++ attr :: List.replicate 14 0 ++ toBytes 2 first, [], by simp, by simp [h]⟩⟩
  · simp only [List.append_assoc, List.cons_append, List.nil_append]
    rfl
  · simp only [List.append_assoc, List.cons_append, List.nil_append]
    rfl

theorem Titled.used {raw : Bytes} {n : String} (h : Titled raw n) (attr : UInt8) (first size : Nat) :
    Used (dirEntry raw attr first size) := by
  obtain ⟨b, hb, hzero, hdeleted⟩ := h.lead
  refine ⟨b, ?_, hzero, hdeleted⟩
  obtain ⟨rest, rfl⟩ := List.head?_eq_some_iff.mp hb
  rw [dirEntry_eq h.length]
  rfl

theorem length_dirBytes {size : Nat} {entries : List Bytes} (h : ∀ e ∈ entries, e.length = 32)
    (hroom : 32 * entries.length ≤ size) : (dirBytes size entries).length = size := by
  rw [dirBytes, List.length_append, length_flatten_entries h, List.length_replicate, Nat.add_sub_cancel' hroom]

theorem slice_entry {size : Nat} (pre : List Bytes) {post : List Bytes} {e : Bytes} (h : ∀ e' ∈ pre ++ e :: post, e'.length = 32) :
    Qualify.Fat16.slice (dirBytes size (pre ++ e :: post)) (32 * pre.length) (32 * pre.length + 32) = e := by
  obtain ⟨hpre, hrest⟩ := List.forall_mem_append.mp h
  have he := (List.forall_mem_cons.mp hrest).1
  refine slice_of_stands ⟨pre.flatten, post.flatten ++ List.replicate (size - 32 * (pre ++ e :: post).length) 0, ?_,
    length_flatten_entries hpre⟩ (by rw [he])
  rw [dirBytes, List.flatten_append, List.flatten_cons]
  simp only [List.append_assoc]

/-- Behind the entries is the end. -/
theorem lead_dirBytes {size : Nat} {entries : List Bytes} (h : ∀ e ∈ entries, e.length = 32)
    (hroom : 32 * (entries.length + 1) ≤ size) :
    Qualify.Fat16.index (Qualify.Fat16.slice (dirBytes size entries) (32 * entries.length) (32 * entries.length + 32)) 0 = .ok 0 := by
  obtain ⟨k, hk⟩ : ∃ k, size - 32 * entries.length = 32 + k := ⟨size - 32 * entries.length - 32, by omega⟩
  have hslice : Qualify.Fat16.slice (dirBytes size entries) (32 * entries.length) (32 * entries.length + 32) =
      List.replicate 32 0 := by
    refine slice_of_stands ⟨entries.flatten, List.replicate k 0, ?_, length_flatten_entries h⟩ (by rw [List.length_replicate])
    rw [dirBytes, hk, List.replicate_add, List.append_assoc]
  rw [hslice]
  rfl

/-- A directory that is read, and its entries. -/
structure Holds (v : Fat16.Volume) (d : Fat16.Dir) (size : Nat) (entries : List Bytes) : Prop where
  buf : d.buf = dirBytes size entries
  records : ∀ e ∈ entries, e.length = 32
  room : 32 * (entries.length + 1) ≤ size
  place : ∀ offset < size, ∃ p, Qualify.Fat16.absoluteOf v d offset = .ok p

section Steps

variable {img bytes : Bytes} {totalSectors fatSectors clusters hi size c : Nat} {boot zk : List File} {pre post : List Bytes}
  {d : Fat16.Dir} {s : Fat16.Found} {names met : List String} {rest : List Nat} {p q : Prop} {Q : Fat16.Found → Prop}
  {R : List String × Fat16.Found → Prop} {recurse : Fat16.Dir → Fat16.Found → Qualify.Fat16.Call Fat16.Found}

theorem Holds.lead_end {v : Fat16.Volume} {entries : List Bytes} {n : Nat} (h : Holds v d size entries) (hn : n = entries.length) :
    Qualify.Fat16.index (Qualify.Fat16.slice d.buf (32 * n) (32 * n + 32)) 0 = .ok 0 := by
  rw [h.buf, hn]
  exact lead_dirBytes h.records h.room

theorem Holds.entry_place {v : Fat16.Volume} {e : Bytes} (h : Holds v d size (pre ++ e :: post)) :
    ∃ p, Qualify.Fat16.absoluteOf v d (32 * pre.length) = .ok p := by
  have hroom := h.room
  rw [List.length_append, List.length_cons] at hroom
  exact h.place _ (by omega)

/-- A file in a directory. -/
theorem Built.read_file (hb : Built img bytes totalSectors fatSectors clusters hi boot zk) {f : File} {n : String}
    (hd : Holds (volumeOf img fatSectors clusters) d size (pre ++ fileRecord f :: post)) (hf : f ∈ boot ++ zk)
    (hname : Titled f.name n) (hplain : ¬(n = "." ∨ n = "..")) (hfresh : n ∉ names) (hpath : d.directory ++ n ∉ s.paths)
    (hroom : s.paths.length < 4096) (hfree : ∀ c ∈ clustersIn f, s.claimed.lookup c = none)
    (hrest : ∀ s', Grown s s' [d.directory ++ n] (clustersIn f) [(d.directory ++ n, f.data)] →
      Decided q R (Qualify.Fat16.walkLoop recurse (volumeOf img fatSectors clusters) d rest (n :: names) met s')) :
    Decided (f.data ≠ [] ∧ q) R
      (Qualify.Fat16.walkLoop recurse (volumeOf img fatSectors clusters) d (32 * pre.length :: rest) names met s) := by
  obtain ⟨hlo, hhi⟩ := hb.files.mem hf
  have htop := hb.top
  have hrange := hb.range
  have hmax : maxClusters = 65525 := rfl
  have hread := Qualify.Fat16.readFields_ok d.directory names (record_dirEntry hname.length 0x20 f.firstCluster f.data.length)
    hname.length (Or.inr rfl) (by omega) (hb.sizes f hf) hname.read hfresh
  have hslice : Qualify.Fat16.slice d.buf (32 * pre.length) (32 * pre.length + 32) = fileRecord f := by
    rw [hd.buf]
    exact slice_entry pre hd.records
  have hsame : ({ raw := f.name, name := n, attr := (0x20 : UInt8).toNat, first := f.firstCluster, size := f.data.length } :
      Fat16.Fields).size ≠ 0 ↔ f.data ≠ [] := List.length_eq_zero_iff.not
  have hlength : (clustersIn f).length = (f.data.length + (volumeOf img fatSectors clusters).clusterBytes - 1) /
      (volumeOf img fatSectors clusters).clusterBytes := List.length_range'
  refine Qualify.Fat16.walkLoop_entry hslice (hname.used _ _ _) hread hplain ((Qualify.Fat16.addEntry_file hb.wellFormed
    ⟨hpath, hroom, hd.entry_place, hname.ascii⟩ rfl (by dsimp only; omega)
    (fun hsize => hb.file_free hf (fun hnil => hsize (congrArg List.length hnil)) hfree) hlength).of_iff hsame)
    fun s' hs' => ?_
  dsimp only at hs'
  rw [hb.file_contents hf] at hs'
  exact hrest s' hs'

/-- The directory of one cluster in another directory. -/
def subDir (v : Fat16.Volume) (parent c : Nat) (directory : String) : Fat16.Dir where
  buf := v.contents [c]
  directory := directory
  cluster := c
  parent := parent
  baseOffset := v.offsetOf c
  offsets := some [v.offsetOf c]

theorem Built.read_dir (hb : Built img bytes totalSectors fatSectors clusters hi boot zk) (pre : List Bytes)
    (path directory : String) {raw : Bytes} {n : String} {left : Nat} (hd : Holds (volumeOf img fatSectors clusters) d size (pre ++ dirEntry raw 0x10 c 0 :: post)) (hlo : 2 ≤ c)
    (hhi : c < 5) (hname : Titled raw n) (hplain : ¬(n = "." ∨ n = "..")) (hfresh : n ∉ names) (hpath : d.directory ++ n = path)
    (hdirectory : path ++ "/" = directory) (hnew : path ∉ s.paths) (hroom : s.paths.length < 4096)
    (hfree : s.claimed.lookup c = none)
    (hrec : ∀ s', Grown s s' [path] [c] [] → Decided p Q (Qualify.Fat16.walk (volumeOf img fatSectors clusters) left
      (subDir (volumeOf img fatSectors clusters) d.cluster c directory) s'))
    (hrest : ∀ s', Q s' → Decided q R (Qualify.Fat16.walkLoop (Qualify.Fat16.walk (volumeOf img fatSectors clusters) left)
      (volumeOf img fatSectors clusters) d rest (n :: names) met s')) :
    Decided (p ∧ q) R (Qualify.Fat16.walkLoop (Qualify.Fat16.walk (volumeOf img fatSectors clusters) left)
      (volumeOf img fatSectors clusters) d (32 * pre.length :: rest) names met s) := by
  subst hpath hdirectory
  have hread := Qualify.Fat16.readFields_ok d.directory names (record_dirEntry hname.length 0x10 c 0) hname.length
    (Or.inl rfl) (by omega) (by decide) hname.read hfresh
  have hslice : Qualify.Fat16.slice d.buf (32 * pre.length) (32 * pre.length + 32) = dirEntry raw 0x10 c 0 := by
    rw [hd.buf]
    exact slice_entry pre hd.records
  refine Qualify.Fat16.walkLoop_entry hslice (hname.used _ _ _) hread hplain ?_ hrest
  exact Qualify.Fat16.addEntry_directory hb.wellFormed ⟨hnew, hroom, hd.entry_place, hname.ascii⟩ rfl rfl
    (hb.dir_free hlo hhi hfree) hrec

theorem titled_dot : Titled (lit ".          ") "." := ⟨by decide, rfl, ⟨_, rfl⟩, ⟨46, rfl, by decide, by decide⟩⟩

theorem titled_dotDot : Titled (lit "..         ") ".." := ⟨by decide, rfl, ⟨_, rfl⟩, ⟨46, rfl, by decide, by decide⟩⟩

/-- The two entries with dots. -/
theorem read_dots {v : Fat16.Volume} {here up : Nat} (hd : Holds v d size (dots here up ++ post)) (hcluster : d.cluster = here)
    (hparent : d.parent = up) (hdir : d.directory ≠ "/") (hhere : here < 256 ^ 2) (hup : up < 256 ^ 2) :
    Qualify.Fat16.walkLoop recurse v d (0 :: 32 :: rest) [] [] s =
      Qualify.Fat16.walkLoop recurse v d rest ["..", "."] ["..", "."] s := by
  have hrecords := hd.records
  have hone : Qualify.Fat16.slice d.buf 0 (0 + 32) = dirEntry (lit ".          ") 0x10 here 0 := by
    rw [hd.buf]
    exact slice_entry [] hrecords
  have htwo : Qualify.Fat16.slice d.buf 32 (32 + 32) = dirEntry (lit "..         ") 0x10 up 0 := by
    rw [hd.buf]
    exact slice_entry [dirEntry (lit ".          ") 0x10 here 0] hrecords
  have hfirst := Qualify.Fat16.readFields_ok d.directory []
    (record_dirEntry titled_dot.length 0x10 here 0) titled_dot.length (Or.inl rfl) hhere (by decide) titled_dot.read (by decide)
  have hsecond := Qualify.Fat16.readFields_ok d.directory ["."]
    (record_dirEntry titled_dotDot.length 0x10 up 0) titled_dotDot.length (Or.inl rfl) hup (by decide) titled_dotDot.read (by decide)
  have hne : ¬".." = "." := by decide
  refine (Qualify.Fat16.walkLoop_dot hone (titled_dot.used _ _ _) hfirst (Or.inl rfl) ⟨hdir, rfl, rfl⟩
    (hcluster.symm.trans (if_pos rfl).symm)).trans ?_
  exact (Qualify.Fat16.walkLoop_dot htwo (titled_dotDot.used _ _ _) hsecond (Or.inr rfl) ⟨hdir, rfl, rfl⟩
    (hparent.symm.trans (if_neg hne).symm)).trans rfl

/-- Files and what is read for their names. -/
structure Listed (files : List (File × String)) (directory : String) (names : List String) : Prop where
  titled : ∀ e ∈ files, Titled e.1.name e.2
  plain : ∀ e ∈ files, ¬(e.2 = "." ∨ e.2 = "..")
  fresh : ∀ e ∈ files, e.2 ∉ names
  nodup : (files.map Prod.snd).Nodup
  paths : (files.map fun e => directory ++ e.2).Nodup

theorem Consecutive.later {lo hi : Nat} {f : File} {files : List File} (h : Consecutive lo (f :: files) hi) {g : File}
    (hg : g ∈ files) : ∀ c ∈ clustersIn g, c ∉ clustersIn f := by
  obtain ⟨hfirst, hrest⟩ := h
  have hlo := (hrest.mem hg).1
  intro c hc hc'
  rw [clustersIn, List.mem_range'_1] at hc hc'
  omega

/-- The files at the end of a directory. -/
theorem Built.read_files (hb : Built img bytes totalSectors fatSectors clusters hi boot zk) {files : List (File × String)}
    {lo hi' n : Nat} (hd : Holds (volumeOf img fatSectors clusters) d size (pre ++ files.map fun e => fileRecord e.1))
    (hn : n = pre.length) (hfiles : ∀ e ∈ files, e.1 ∈ boot ++ zk) (hlisted : Listed files d.directory names)
    (hplaced : Consecutive lo (files.map Prod.fst) hi') (hpaths : ∀ e ∈ files, d.directory ++ e.2 ∉ s.paths)
    (hroom : s.paths.length + files.length < 4096) (hfree : ∀ e ∈ files, ∀ c ∈ clustersIn e.1, s.claimed.lookup c = none)
    {m : Nat} (hm : files.length < m) :
    Decided (∀ e ∈ files, e.1.data ≠ [])
      (fun r => r.1 = met ∧ Grown s r.2 (files.reverse.map fun e => d.directory ++ e.2) (files.flatMap fun e => clustersIn e.1)
        (files.map fun e => (d.directory ++ e.2, e.1.data)))
      (Qualify.Fat16.walkLoop recurse (volumeOf img fatSectors clusters) d ((List.range' n m).map (32 * ·)) names met s) := by
  obtain ⟨m, rfl⟩ := Nat.exists_eq_succ_of_ne_zero (Nat.ne_of_gt (Nat.lt_of_le_of_lt (Nat.zero_le _) hm))
  induction files generalizing pre n names s lo m with
  | nil =>
      rw [List.map_nil, List.append_nil] at hd
      have hend := hd.lead_end hn
      rw [List.range'_succ, List.map_cons]
      have hgrown : Grown s s [] [] [] :=
        ⟨rfl, fun c => by rw [List.mem_nil_iff, false_or], (List.append_nil _).symm⟩
      exact (Decided.ok (Qualify.Fat16.walkLoop_end hend) ⟨rfl, hgrown⟩).of_iff (by simp)
  | cons e files ih =>
      obtain ⟨f, name⟩ := e
      obtain ⟨hf, hfiles⟩ := List.forall_mem_cons.mp hfiles
      obtain ⟨htitled, htitleds⟩ := List.forall_mem_cons.mp hlisted.titled
      obtain ⟨hplain, hplains⟩ := List.forall_mem_cons.mp hlisted.plain
      obtain ⟨hfresh, hfreshs⟩ := List.forall_mem_cons.mp hlisted.fresh
      obtain ⟨hpath, hpaths⟩ := List.forall_mem_cons.mp hpaths
      obtain ⟨hfree, hfrees⟩ := List.forall_mem_cons.mp hfree
      obtain ⟨hnew, hnodup⟩ := List.nodup_cons.mp hlisted.nodup
      obtain ⟨hnewPath, hnodupPaths⟩ := List.nodup_cons.mp hlisted.paths
      rw [List.length_cons] at hroom hm
      obtain ⟨m, rfl⟩ := Nat.exists_eq_succ_of_ne_zero (Nat.ne_of_gt (Nat.lt_of_le_of_lt (Nat.zero_le _) (Nat.lt_of_succ_lt_succ hm)))
      rw [List.range'_succ, List.map_cons, hn]
      refine (hb.read_file (q := ∀ e ∈ files, e.1.data ≠ []) hd hf htitled hplain hfresh hpath (by omega) hfree
        fun s' hgrown => ?_).of_iff (List.forall_mem_cons (p := fun e : File × String => e.1.data ≠ [])).symm
      have hd' : Holds (volumeOf img fatSectors clusters) d size
          (pre ++ [fileRecord f] ++ files.map fun e => fileRecord e.1) := by
        rw [List.append_assoc]
        exact hd
      have hlisted' : Listed files d.directory (name :: names) := by
        refine ⟨htitleds, hplains, fun e he => ?_, hnodup, hnodupPaths⟩
        rw [List.mem_cons, not_or]
        exact ⟨fun heq => hnew (List.mem_map.mpr ⟨e, he, heq⟩), hfreshs e he⟩
      have hrest := ih hd' (List.length_append).symm hfiles hlisted' hplaced.2 (fun e he => ?_) ?_ (fun e he c hc => ?_) m
        (Nat.lt_of_succ_lt_succ hm) (s := s')
      · refine hrest.mono fun r hr => ⟨hr.1, ?_⟩
        have htrans := hgrown.trans hr.2
        rw [List.reverse_cons, List.map_append]
        exact htrans
      · rw [hgrown.paths, List.singleton_append, List.mem_cons, not_or]
        exact ⟨fun heq => hnewPath (List.mem_map.mpr ⟨e, he, heq⟩), hpaths e he⟩
      · rw [hgrown.paths, List.length_append, List.length_singleton]
        omega
      · exact hgrown.unclaimed (hplaced.later (List.mem_map_of_mem he) c hc) (hfrees e he c hc)

theorem holds_subDir {entries : List Bytes} {parent : Nat} {directory : String} (hrecords : ∀ e ∈ entries, e.length = 32)
    (hroom : 32 * (entries.length + 1) ≤ cluster)
    (h : Stands img (clusterOff (dataOff fatSectors) c) (dirBytes cluster entries)) :
    Holds (volumeOf img fatSectors clusters) (subDir (volumeOf img fatSectors clusters) parent c directory) cluster entries where
  buf := dir_contents (length_dirBytes hrecords (by omega)) h
  records := hrecords
  room := hroom
  place := fun offset hoffset => by
    have hfirst : offset / (volumeOf img fatSectors clusters).clusterBytes = 0 := Nat.div_eq_of_lt hoffset
    refine ⟨(volumeOf img fatSectors clusters).offsetOf c + offset % (volumeOf img fatSectors clusters).clusterBytes, ?_⟩
    rw [Qualify.Fat16.absoluteOf, subDir]
    dsimp only
    rw [hfirst]
    rfl

theorem entryOffsets_subDir {v : Fat16.Volume} {parent : Nat} {directory : String} {entries : List Bytes}
    (hd : Holds v (subDir v parent c directory) cluster entries) :
    Qualify.Fat16.entryOffsets (subDir v parent c directory).buf = 0 :: 32 :: (List.range' 2 62).map (32 * ·) := by
  have hroom := hd.room
  have hlength : (subDir v parent c directory).buf.length = 32 * 64 := by
    rw [hd.buf, length_dirBytes hd.records (by omega)]
    rfl
  rw [Qualify.Fat16.entryOffsets_eq hlength, List.range'_succ, List.range'_succ]
  rfl

/-- A directory of files. -/
theorem Built.walk_files (hb : Built img bytes totalSectors fatSectors clusters hi boot zk) {files : List (File × String)}
    {directory : String} {parent lo hi' left : Nat} (hc : c < 5) (hparent : parent < 5)
    (hd : Holds (volumeOf img fatSectors clusters) (subDir (volumeOf img fatSectors clusters) parent c directory) cluster
      (dots c parent ++ files.map fun e => fileRecord e.1))
    (hroot : directory ≠ "/") (hfiles : ∀ e ∈ files, e.1 ∈ boot ++ zk) (hlisted : Listed files directory ["..", "."])
    (hplaced : Consecutive lo (files.map Prod.fst) hi') (hpaths : ∀ e ∈ files, directory ++ e.2 ∉ s.paths)
    (hroom : s.paths.length + files.length < 4096) (hfree : ∀ e ∈ files, ∀ c ∈ clustersIn e.1, s.claimed.lookup c = none) :
    Decided (∀ e ∈ files, e.1.data ≠ [])
      (fun s' => Grown s s' (files.reverse.map fun e => directory ++ e.2) (files.flatMap fun e => clustersIn e.1)
        (files.map fun e => (directory ++ e.2, e.1.data)))
      (Qualify.Fat16.walk (volumeOf img fatSectors clusters) (left + 1)
        (subDir (volumeOf img fatSectors clusters) parent c directory) s) := by
  refine Qualify.Fat16.walk_decided ["..", "."] (fun _ => by decide) ?_
  rw [entryOffsets_subDir hd, read_dots hd rfl rfl hroot (by omega) (by omega)]
  have hcount := hd.room
  rw [List.length_append, List.length_map] at hcount
  have hcluster : cluster = 2048 := rfl
  have hdots : (dots c parent).length = 2 := rfl
  exact hb.read_files hd hdots.symm hfiles hlisted hplaced hpaths hroom hfree (by omega)

theorem titled_efi : Titled (lit "EFI        ") "EFI" :=
  ⟨by decide, name_name83 (s := lit "EFI") rfl, ⟨_, rfl⟩, ⟨69, rfl, by decide, by decide⟩⟩

theorem titled_boot : Titled (lit "BOOT       ") "BOOT" :=
  ⟨by decide, name_name83 (s := lit "BOOT") rfl, ⟨_, rfl⟩, ⟨66, rfl, by decide, by decide⟩⟩

theorem titled_zk : Titled (lit "ZK         ") "ZK" :=
  ⟨by decide, name_name83 (s := lit "ZK") rfl, ⟨_, rfl⟩, ⟨90, rfl, by decide, by decide⟩⟩

theorem Built.holds_root (hb : Built img bytes totalSectors fatSectors clusters hi boot zk) :
    Holds (volumeOf img fatSectors clusters) (Qualify.Fat16.rootDir (volumeOf img fatSectors clusters)) (rootSectors * sector)
      rootEntriesOf where
  buf := by
    refine slice_of_stands hb.layout.rootDir ?_
    rw [length_dirBytes length_rootEntriesOf (by decide)]
    rfl
  records := length_rootEntriesOf
  room := by decide
  place := fun offset _ => ⟨_, rfl⟩

/-- The files of the two directories, with their paths. -/
def bootPath (n : String) : String := "/EFI/BOOT/" ++ n
def zkPath (n : String) : String := "/ZK/" ++ n

/-- All paths of a volume, the last one first. -/
def allPaths (bootFiles zkFiles : List (File × String)) : List String :=
  zkFiles.reverse.map (fun e => zkPath e.2) ++ "/ZK" :: bootFiles.reverse.map (fun e => bootPath e.2) ++ ["/EFI/BOOT", "/EFI"]

/-- What the three directories say about their files. -/
structure Tree (boot zk : List File) (bootFiles zkFiles : List (File × String)) : Prop where
  boot : boot = bootFiles.map Prod.fst
  zk : zk = zkFiles.map Prod.fst
  bootListed : Listed bootFiles "/EFI/BOOT/" ["..", "."]
  zkListed : Listed zkFiles "/ZK/" ["..", "."]
  bootRoom : 32 * (3 + bootFiles.length) ≤ cluster
  zkRoom : 32 * (3 + zkFiles.length) ≤ cluster
  paths : (allPaths bootFiles zkFiles).Nodup

variable {bootFiles zkFiles : List (File × String)}

theorem Tree.bootFile (h : Tree boot zk bootFiles zkFiles) : ∀ e ∈ bootFiles, e.1 ∈ boot ++ zk := fun e he => by
  rw [h.boot]
  exact List.mem_append_left _ (List.mem_map_of_mem he)

theorem Tree.zkFile (h : Tree boot zk bootFiles zkFiles) : ∀ e ∈ zkFiles, e.1 ∈ boot ++ zk := fun e he => by
  rw [h.zk]
  exact List.mem_append_right _ (List.mem_map_of_mem he)

theorem Tree.bootPath_new (h : Tree boot zk bootFiles zkFiles) {e : File × String} (he : e ∈ bootFiles) :
    bootPath e.2 ∉ ["/EFI/BOOT", "/EFI"] := fun hmem => by
  have hpaths := h.paths
  rw [allPaths] at hpaths
  have hne := (List.nodup_append.mp hpaths).2.2
  refine hne _ (List.mem_append_right _ (List.mem_cons_of_mem _ ?_)) _ hmem rfl
  exact List.mem_map.mpr ⟨e, List.mem_reverse.mpr he, rfl⟩

theorem Tree.zkPath_new (h : Tree boot zk bootFiles zkFiles) {e : File × String} (he : e ∈ zkFiles) :
    zkPath e.2 ∉ "/ZK" :: bootFiles.reverse.map (fun e => bootPath e.2) ++ ["/EFI/BOOT", "/EFI"] := fun hmem => by
  have hpaths := h.paths
  rw [allPaths, List.append_assoc] at hpaths
  have hne := (List.nodup_append.mp hpaths).2.2
  exact hne _ (List.mem_map.mpr ⟨e, List.mem_reverse.mpr he, rfl⟩) _ hmem rfl

theorem Tree.zkDir_new (h : Tree boot zk bootFiles zkFiles) :
    "/ZK" ∉ bootFiles.reverse.map (fun e => bootPath e.2) ++ ["/EFI/BOOT", "/EFI"] := by
  have hpaths := h.paths
  rw [allPaths, List.append_assoc, List.cons_append] at hpaths
  exact (List.nodup_cons.mp (List.nodup_append.mp hpaths).2.1).1

theorem Consecutive.le_of_mem {files : List File} {lo hi' : Nat} (h : Consecutive lo files hi') {f : File} (hf : f ∈ files) {c : Nat}
    (hc : c ∈ clustersIn f) : lo ≤ c :=
  Nat.le_trans (h.mem hf).1 (List.mem_range'_1.mp hc).1

/-- The boot directory in the first directory of the root. -/
theorem Built.walk_efi (hb : Built img bytes totalSectors fatSectors clusters hi boot zk) (ht : Tree boot zk bootFiles zkFiles)
    (hfits : Fits boot zk) {mid left : Nat} (hplaced : Consecutive 5 (bootFiles.map Prod.fst) mid) (hpaths : s.paths = ["/EFI"])
    (hfree : ∀ c, 3 ≤ c → s.claimed.lookup c = none) :
    Decided (∀ e ∈ bootFiles, e.1.data ≠ [])
      (fun s' => Grown s s' (bootFiles.reverse.map (fun e => bootPath e.2) ++ ["/EFI/BOOT"])
        (3 :: bootFiles.flatMap fun e => clustersIn e.1) (bootFiles.map fun e => (bootPath e.2, e.1.data)))
      (Qualify.Fat16.walk (volumeOf img fatSectors clusters) (left + 2)
        (subDir (volumeOf img fatSectors clusters) 0 2 "/EFI/") s) := by
  have hefi : Holds (volumeOf img fatSectors clusters) (subDir (volumeOf img fatSectors clusters) 0 2 "/EFI/") cluster
      (dots 2 0 ++ [dirEntry (lit "BOOT       ") 0x10 3 0]) := holds_subDir length_efiEntries (by decide) hb.layout.efiDir
  have hboot : Holds (volumeOf img fatSectors clusters) (subDir (volumeOf img fatSectors clusters) 2 3 "/EFI/BOOT/") cluster
      (dots 3 2 ++ bootFiles.map fun e => fileRecord e.1) := by
    have hrecords := hfits.records.1
    have hstands := hb.layout.bootDir
    rw [bootEntries, ht.boot, List.map_map] at hstands hrecords
    refine holds_subDir hrecords ?_ hstands
    have hroom := ht.bootRoom
    have hdots : (dots 3 2).length = 2 := rfl
    rw [List.length_append, List.length_map, hdots]
    omega
  have hname : "/EFI/" ≠ "/" := by decide
  refine Qualify.Fat16.walk_decided ["..", "."] (fun _ => by decide) ?_
  rw [entryOffsets_subDir hefi, read_dots hefi rfl rfl hname (by decide) (by decide), List.range'_succ, List.map_cons]
  have hnew : "/EFI/BOOT" ∉ s.paths := by
    rw [hpaths]
    decide
  have hroom : s.paths.length < 4096 := by
    rw [hpaths]
    decide
  refine (hb.read_dir _ "/EFI/BOOT" "/EFI/BOOT/" (p := ∀ e ∈ bootFiles, e.1.data ≠ []) (q := True)
    (Q := fun s' => Grown s s' (bootFiles.reverse.map (fun e => bootPath e.2) ++ ["/EFI/BOOT"])
      (3 :: bootFiles.flatMap fun e => clustersIn e.1) (bootFiles.map fun e => (bootPath e.2, e.1.data)))
    hefi (by decide) (by decide) titled_boot (by decide) (by decide) rfl rfl hnew hroom (hfree 3 (Nat.le_refl 3)) (fun s' hgrown => ?_)
    fun s' hgrown => ?_).of_iff (and_iff_left trivial)
  · have hpaths' : s'.paths = ["/EFI/BOOT", "/EFI"] := by
      rw [hgrown.paths, hpaths]
      rfl
    have hnew' : ∀ e ∈ bootFiles, "/EFI/BOOT/" ++ e.2 ∉ s'.paths := fun e he => by
      rw [hpaths']
      exact ht.bootPath_new he
    have hroom' : s'.paths.length + bootFiles.length < 4096 := by
      have hcount := ht.bootRoom
      have hcluster : cluster = 2048 := rfl
      rw [hpaths', List.length_cons, List.length_singleton]
      omega
    have hfree' : ∀ e ∈ bootFiles, ∀ c ∈ clustersIn e.1, s'.claimed.lookup c = none := fun e he c hc => by
      have hlo := hplaced.le_of_mem (List.mem_map_of_mem he) hc
      exact hgrown.unclaimed (by rw [List.mem_singleton]; omega) (hfree c (by omega))
    exact (hb.walk_files (by decide) (by decide) hboot (by decide) ht.bootFile ht.bootListed hplaced hnew' hroom' hfree').mono
      fun s'' h => hgrown.trans h
  · rw [List.range'_succ, List.map_cons]
    exact Decided.ok (Qualify.Fat16.walkLoop_end (hefi.lead_end (n := 3) rfl)) ⟨rfl, hgrown⟩

theorem entryOffsets_root (hd : Holds (volumeOf img fatSectors clusters) (Qualify.Fat16.rootDir (volumeOf img fatSectors clusters))
    (rootSectors * sector) rootEntriesOf) :
    Qualify.Fat16.entryOffsets (Qualify.Fat16.rootDir (volumeOf img fatSectors clusters)).buf =
      32 * 0 :: 32 * 1 :: 32 * 2 :: (List.range' 3 509).map (32 * ·) := by
  have hlength : (Qualify.Fat16.rootDir (volumeOf img fatSectors clusters)).buf.length = 32 * 512 := by
    rw [hd.buf, length_dirBytes hd.records (by decide)]
    rfl
  rw [Qualify.Fat16.entryOffsets_eq hlength, List.range'_succ, List.range'_succ, List.range'_succ]
  rfl

/-- What the files of the boot directory and of the other one add. -/
def bootPaths (bootFiles : List (File × String)) : List String :=
  bootFiles.reverse.map (fun e => bootPath e.2) ++ ["/EFI/BOOT"] ++ ["/EFI"]

def claimedClusters (bootFiles zkFiles : List (File × String)) : List Nat :=
  ([2] ++ 3 :: bootFiles.flatMap fun e => clustersIn e.1) ++ ([4] ++ zkFiles.flatMap fun e => clustersIn e.1)

def filesOf (bootFiles zkFiles : List (File × String)) : List (String × Bytes) :=
  bootFiles.map (fun e => (bootPath e.2, e.1.data)) ++ zkFiles.map fun e => (zkPath e.2, e.1.data)

theorem Built.walk_root (hb : Built img bytes totalSectors fatSectors clusters hi boot zk) (ht : Tree boot zk bootFiles zkFiles)
    (hfits : Fits boot zk) :
    Decided ((∀ e ∈ bootFiles, e.1.data ≠ []) ∧ ∀ e ∈ zkFiles, e.1.data ≠ [])
      (fun s' => ∃ paths, Grown {} s' paths (claimedClusters bootFiles zkFiles) (filesOf bootFiles zkFiles))
      (Qualify.Fat16.walk (volumeOf img fatSectors clusters) 9 (Qualify.Fat16.rootDir (volumeOf img fatSectors clusters)) {}) := by
  have hfiles := hb.files
  rw [ht.boot, ht.zk] at hfiles
  obtain ⟨mid, hbootPlaced, hzkPlaced⟩ := hfiles.split
  have hroot := hb.holds_root
  have hzk : Holds (volumeOf img fatSectors clusters) (subDir (volumeOf img fatSectors clusters) 0 4 "/ZK/") cluster
      (dots 4 0 ++ zkFiles.map fun e => fileRecord e.1) := by
    have hrecords := hfits.records.2
    have hstands := hb.layout.zkDir
    rw [zkEntries, ht.zk, List.map_map] at hstands hrecords
    refine holds_subDir hrecords ?_ hstands
    have hroom := ht.zkRoom
    have hdots : (dots 4 0).length = 2 := rfl
    rw [List.length_append, List.length_map, hdots]
    omega
  have hname : ¬(Qualify.Fat16.rootDir (volumeOf img fatSectors clusters)).directory ≠ "/" := not_not.mpr rfl
  refine Qualify.Fat16.walk_decided [] (fun h => absurd h hname) ?_
  rw [entryOffsets_root hroot]
  refine hb.read_dir [] "/EFI" "/EFI/"
    (Q := fun s' => Grown {} s' (bootPaths bootFiles) ([2] ++ 3 :: bootFiles.flatMap fun e => clustersIn e.1)
      (bootFiles.map fun e => (bootPath e.2, e.1.data)))
    hroot (by decide) (by decide) titled_efi (by decide) (by decide) rfl rfl List.not_mem_nil (by decide) rfl
    (fun s' hgrown => ?_) fun s' hgrown => ?_
  · have hfree (c : Nat) (hc : 3 ≤ c) : s'.claimed.lookup c = none :=
      hgrown.unclaimed (by rw [List.mem_singleton]; omega) rfl
    exact (hb.walk_efi ht hfits hbootPlaced hgrown.paths hfree).mono fun s'' h => hgrown.trans h
  · have hpaths : s'.paths = bootFiles.reverse.map (fun e => bootPath e.2) ++ ["/EFI/BOOT", "/EFI"] := by
      rw [hgrown.paths, bootPaths, List.append_assoc, List.append_assoc]
      rfl
    have hbootRoom := ht.bootRoom
    have hzkRoom := ht.zkRoom
    have hcluster : cluster = 2048 := rfl
    have hcount : s'.paths.length = bootFiles.length + 2 := by
      rw [hpaths, List.length_append, List.length_map, List.length_reverse]
      rfl
    have hfree (c : Nat) (hc : c = 4 ∨ mid ≤ c) : s'.claimed.lookup c = none := by
      have hmid := hbootPlaced.le
      refine hgrown.unclaimed ?_ rfl
      rw [List.singleton_append, List.mem_cons, List.mem_cons, List.mem_flatMap]
      rintro (rfl | rfl | ⟨e, he, hmem⟩)
      · omega
      · omega
      · obtain ⟨hlo, hhi⟩ := hbootPlaced.mem (List.mem_map_of_mem he)
        rw [clustersIn, List.mem_range'_1] at hmem
        omega
    refine (hb.read_dir [dirEntry (lit "EFI        ") 0x10 2 0] "/ZK" "/ZK/" (p := ∀ e ∈ zkFiles, e.1.data ≠ []) (q := True)
      (Q := fun s'' => ∃ paths, Grown {} s'' paths (claimedClusters bootFiles zkFiles) (filesOf bootFiles zkFiles))
      hroot (by decide) (by decide) titled_zk (by decide) (by decide) rfl rfl (hpaths ▸ ht.zkDir_new) (by omega)
      (hfree 4 (Or.inl rfl)) (fun s'' hgrown' => ?_) fun s'' hgrown' => ?_).of_iff (and_iff_left trivial)
    · have hpaths' : s''.paths = "/ZK" :: bootFiles.reverse.map (fun e => bootPath e.2) ++ ["/EFI/BOOT", "/EFI"] := by
        rw [hgrown'.paths, hpaths]
        rfl
      have hcount' : s''.paths.length = bootFiles.length + 3 := by
        rw [hgrown'.paths, List.length_append, hcount]
        exact Nat.add_comm _ _
      have hfree' : ∀ e ∈ zkFiles, ∀ c ∈ clustersIn e.1, s''.claimed.lookup c = none := fun e he c hc => by
        have hlo := hzkPlaced.le_of_mem (List.mem_map_of_mem he) hc
        have hmid := hbootPlaced.le
        exact hgrown'.unclaimed (by rw [List.mem_singleton]; omega) (hfree c (Or.inr hlo))
      have hnew : ∀ e ∈ zkFiles, "/ZK/" ++ e.2 ∉ s''.paths := fun e he => by
        rw [hpaths']
        exact ht.zkPath_new he
      exact (hb.walk_files (by decide) (by decide) hzk (by decide) ht.zkFile ht.zkListed hzkPlaced hnew (by omega) hfree').mono
        fun t h => ⟨_, hgrown.trans (hgrown'.trans h)⟩
    · exact Decided.ok (Qualify.Fat16.walkLoop_end (hroot.lead_end (n := 2) rfl)) ⟨rfl, hgrown'⟩

/-- No cluster in use is left over. -/
theorem Built.checkClaimed (hb : Built img bytes totalSectors fatSectors clusters hi boot zk) (ht : Tree boot zk bootFiles zkFiles)
    {paths : List String} (h : Grown {} s paths (claimedClusters bootFiles zkFiles) (filesOf bootFiles zkFiles)) :
    Qualify.Fat16.checkClaimed (volumeOf img fatSectors clusters) s (List.range' 2 clusters) = .ok () := by
  refine Qualify.Fat16.checkClaimed_ok fun c hc => ?_
  rw [List.mem_range'_1] at hc
  refine ⟨_, hb.fat_eq (by omega), fun hused => (h.claimed c).mpr (Or.inl ?_)⟩
  rw [claimedClusters]
  rcases Nat.lt_or_ge c hi with hlow | hhigh
  · rcases Nat.lt_or_ge c 5 with hsmall | hlarge
    · obtain rfl | rfl | rfl : c = 2 ∨ c = 3 ∨ c = 4 := by omega
      all_goals simp
    · obtain ⟨f, hf, i, hi', rfl⟩ := hb.files.covers hlarge hlow
      have hmem : f.firstCluster + i ∈ clustersIn f := List.mem_range'_1.mpr ⟨Nat.le_add_right _ _, Nat.add_lt_add_left hi' _⟩
      rw [ht.boot, ht.zk, List.mem_append, List.mem_map, List.mem_map] at hf
      simp only [List.mem_append, List.mem_cons, List.mem_flatMap]
      rcases hf with ⟨e, he, rfl⟩ | ⟨e, he, rfl⟩
      · exact Or.inl (Or.inr (Or.inr ⟨e, he, hmem⟩))
      · exact Or.inr (Or.inr ⟨e, he, hmem⟩)
  · refine absurd (hb.links.free c hhigh ?_) hused
    have hroom := hb.geometry.fat
    rw [hb.size]
    omega

/-- The verifier accepts the volume if no file is empty, and finds the files. -/
theorem Built.fat16 (hb : Built img bytes totalSectors fatSectors clusters hi boot zk) (ht : Tree boot zk bootFiles zkFiles)
    (hfits : Fits boot zk) :
    Decided ((∀ e ∈ bootFiles, e.1.data ≠ []) ∧ ∀ e ∈ zkFiles, e.1.data ≠ []) (fun r => r.2.files = filesOf bootFiles zkFiles)
      (Qualify.Fat16.fat16 img) := by
  refine (((hb.walk_root ht hfits).bind (q := True) fun s hs => ?_).of_eq (ok_then hb.readVolume rfl)).of_iff
    (and_iff_left trivial)
  obtain ⟨paths, hgrown⟩ := hs
  exact Decided.ok (ok_then (hb.checkClaimed ht hgrown) rfl) hgrown.files

end Steps

end Tools.Mkesp
