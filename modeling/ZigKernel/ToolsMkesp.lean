import ZigKernel.LangWrites
import ZigKernel.LibLittleEndian
import ZigKernel.LibText

/-! `tools/mkesp.zig`: the image of the EFI system partition. The files are what was read for the three arguments, and the
image is what is written; the memory for it is there. -/

namespace Tools.Mkesp

open Zig LittleEndian

abbrev Bytes := List UInt8

def sector : Nat := 512
def spc : Nat := 4
def cluster : Nat := sector * spc
def reserved : Nat := 1
def nfats : Nat := 2
def rootEntries : Nat := 512
def rootSectors : Nat := rootEntries * 32 / sector
def maxClusters : Nat := 65525

structure File where
  name : Bytes
  data : Bytes
  firstCluster : Nat := 0

inductive NameError where
  | emptyName
  | baseTooLong
  | extMissing
  | extTooLong
  | tooManyDots
  | badCharacter
  deriving DecidableEq

inductive Error where
  | name (e : NameError)
  | badGeometry
  | imageTooSmall
  deriving DecidableEq

/-- A string literal. -/
def lit (s : String) : Bytes := Utf8.bytes s.toList

/-! ### Short names -/

/-- The characters besides letters and digits. -/
def specials : Bytes := [36, 37, 39, 45, 95, 64, 126, 96, 33, 40, 41, 123, 125, 94, 35, 38]

def isShortNameChar (c : UInt8) : Bool :=
  if 65 ≤ c ∧ c ≤ 90 then true else if 48 ≤ c ∧ c ≤ 57 then true else decide (c ∈ specials)

/-- `std.ascii.toUpper` -/
def toUpper (c : UInt8) : UInt8 := if 97 ≤ c ∧ c ≤ 122 then c - 32 else c

/-- The loops of `name83`: the characters go into `out` from `i` on. -/
def putChars (i : Nat) : Bytes → Bytes → Outcome NameError Bytes
  | [], out => .ok out
  | c :: rest, out =>
      if isShortNameChar (toUpper c) then do
        let out ← memcpy out i (i + 1) [toUpper c]
        putChars (i + 1) rest out
      else .error .badCharacter

def dot : UInt8 := 46

/-- What stands in front of the first dot, and behind it. -/
def split (s : Bytes) : Bytes × Bytes :=
  match s.findIdx? (· = dot) with
  | some d => (s.take d, s.drop (d + 1))
  | none => (s, [])

def name83 (s : Bytes) : Outcome NameError Bytes :=
  let out := List.replicate 11 32
  if s = [dot] ∨ s = [dot, dot] then memcpy out 0 s.length s
  else if s.count dot > 1 then .error .tooManyDots
  else
    let (base, ext) := split s
    if base.length = 0 then .error .emptyName
    else if base.length > 8 then .error .baseTooLong
    else if (s.findIdx? (· = dot)).isSome ∧ ext.length = 0 then .error .extMissing
    else if ext.length > 3 then .error .extTooLong
    else do
      let out ← putChars 0 base out
      putChars 8 ext out

def dirEntry (name : Bytes) (attr : UInt8) (cluster size : Nat) : Bytes :=
  let e := List.replicate 32 0
  let e := overwrite e 0 name
  let e := overwrite e 11 [attr]
  let e := overwrite e 26 (toBytes 2 cluster)
  overwrite e 28 (toBytes 4 size)

/-! ### Geometry -/

def clustersOf (data : Bytes) : Nat := (data.length + cluster - 1) / cluster

/-- The iteration for the size of a FAT: the sectors of a FAT and the number of clusters, with the turns left. The number of
sectors is far from the width, so only the differences can fail. -/
def fitFat (totalSectors : Nat) : (turns fatSectors clusters : Nat) → Outcome Error (Nat × Nat)
  | 0, fatSectors, clusters => .ok (fatSectors, clusters)
  | turns + 1, fatSectors, _ => do
      let rest ← subU64 totalSectors reserved
      let rest ← subU64 rest (nfats * fatSectors)
      let dataSectors ← subU64 rest rootSectors
      let clusters := dataSectors / spc
      let need := ((clusters + 2) * 2 + sector - 1) / sector
      if need = fatSectors then .ok (fatSectors, clusters) else fitFat totalSectors turns need clusters

/-- The files get their clusters one behind the other, from `next` on; the cluster behind them. -/
def place : (next : Nat) → List File → Outcome Error (List File × Nat)
  | next, [] => .ok ([], next)
  | next, f :: rest => do
      let n ← castU16 (clustersOf f.data)
      let following ← addU16 next n
      let (files, last) ← place following rest
      .ok ({ f with firstCluster := next } :: files, last)

/-! ### Contents -/

def bootSector (totalSectors fatSectors : Nat) : List (Write UInt8) :=
  [⟨0, [0xEB]⟩, ⟨1, [0x3C]⟩, ⟨2, [0x90]⟩, ⟨3, lit "ZKNATIVE"⟩, ⟨11, toBytes 2 sector⟩, ⟨13, [UInt8.ofNat spc]⟩,
    ⟨14, toBytes 2 reserved⟩, ⟨16, [UInt8.ofNat nfats]⟩, ⟨17, toBytes 2 rootEntries⟩,
    if totalSectors < 65536 then ⟨19, toBytes 2 totalSectors⟩ else ⟨32, toBytes 4 totalSectors⟩,
    ⟨21, [0xF8]⟩, ⟨22, toBytes 2 fatSectors⟩, ⟨24, toBytes 2 32⟩, ⟨26, toBytes 2 2⟩, ⟨36, [0x80]⟩, ⟨38, [0x29]⟩,
    ⟨39, toBytes 4 0x5A4B0001⟩, ⟨43, lit "ZKNATIVE   "⟩, ⟨54, lit "FAT16   "⟩, ⟨510, [0x55]⟩, ⟨511, [0xAA]⟩]

def eoc : Nat := 0xFFFF

/-- The link in turn `i` of the loop over the clusters of a file. -/
def following (f : File) (i c : Nat) : Outcome Error Nat := if i + 1 = clustersOf f.data then .ok eoc else addU16 c 1

/-- Turn `i`. The position of the link is computed in 16 bits. -/
def link (f : File) (i : Nat) : Outcome Error (Write UInt8) := do
  let k ← castU16 i
  let c ← addU16 f.firstCluster k
  let link ← following f i c
  let pos ← mulU16 c 2
  .ok ⟨pos, toBytes 2 link⟩

def links (f : File) : Outcome Error (List (Write UInt8)) := collect (link f) (List.range (clustersOf f.data))

/-- The reserved entries and those of the directories. -/
def fatHead : List (Write UInt8) :=
  [⟨0, toBytes 2 0xFFF8⟩, ⟨2, toBytes 2 0xFFFF⟩, ⟨4, toBytes 2 eoc⟩, ⟨6, toBytes 2 eoc⟩, ⟨8, toBytes 2 eoc⟩]

def fat (fatSectors : Nat) (files : List File) : Outcome Error Bytes := do
  let chains ← collect links files
  writeAll (fatHead ++ chains.flatten) (List.replicate (fatSectors * sector) 0)

/-- `clusterOff` -/
def clusterOff (dataOff c : Nat) : Nat := dataOff + (c - 2) * cluster

/-- A directory entry, with the size in 32 bits. -/
def entryOf (name : Bytes) (attr : UInt8) (cluster size : Nat) : Outcome Error Bytes := do
  let size ← castU32 size
  .ok (dirEntry name attr cluster size.val)

def short (s : String) : Outcome Error Bytes := (name83 (lit s)).mapError .name

/-- The entries of a directory, one behind the other. -/
def dirAt (off : Nat) : List Bytes → List (Write UInt8)
  | [] => []
  | e :: rest => ⟨off, e⟩ :: dirAt (off + 32) rest

def fileEntry (f : File) : Outcome Error Bytes := entryOf f.name 0x20 f.firstCluster f.data.length

/-- The directories, with the files of the boot directory and of the other one. -/
def directories (rootOff dataOff : Nat) (boot zk : List File) : Outcome Error (List (Write UInt8)) := do
  let efi ← short "EFI"
  let zkName ← short "ZK"
  let here ← short "."
  let up ← short ".."
  let bootName ← short "BOOT"
  let bootFiles ← collect fileEntry boot
  let zkFiles ← collect fileEntry zk
  .ok (dirAt rootOff [dirEntry efi 0x10 2 0, dirEntry zkName 0x10 4 0] ++
    dirAt (clusterOff dataOff 2) [dirEntry here 0x10 2 0, dirEntry up 0x10 0 0, dirEntry bootName 0x10 3 0] ++
    dirAt (clusterOff dataOff 3) ([dirEntry here 0x10 3 0, dirEntry up 0x10 2 0] ++ bootFiles) ++
    dirAt (clusterOff dataOff 4) ([dirEntry here 0x10 4 0, dirEntry up 0x10 0 0] ++ zkFiles))

def contents (dataOff : Nat) (files : List File) : List (Write UInt8) :=
  files.map fun f => ⟨clusterOff dataOff f.firstCluster, f.data⟩

/-! ### The image -/

/-- The cast of the number of sectors for the field that holds it. -/
def castTotal (totalSectors : Nat) : Outcome Error Nat :=
  if totalSectors < 65536 then castU16 totalSectors else do
    let n ← castU32 totalSectors
    .ok n.val

/-- The image of a volume with the files placed. -/
def image (totalSectors fatSectors : Nat) (boot zk : List File) : Outcome Error Bytes := do
  let img := List.replicate (totalSectors * sector) 0
  let _ ← castTotal totalSectors
  let _ ← castU16 fatSectors
  let img ← writeAll (bootSector totalSectors fatSectors) img
  let fat ← fat fatSectors (boot ++ zk)
  let img ← writeAll ((List.range nfats).map fun i => ⟨(reserved + i * fatSectors) * sector, fat⟩) img
  let rootOff := (reserved + nfats * fatSectors) * sector
  let dataOff := rootOff + rootSectors * sector
  let dirs ← directories rootOff dataOff boot zk
  let img ← writeAll dirs img
  writeAll (contents dataOff (boot ++ zk)) img

/-- `main` behind the arguments. -/
def main (sizeMb : U64) (bootx64 kernel initramfs : Bytes) : Outcome Error Bytes := do
  let kib ← mulU64 sizeMb.val 1024
  let bytes ← mulU64 kib 1024
  let totalSectors := bytes / sector
  let (fatSectors, clusters) ← fitFat totalSectors 8 1 0
  if clusters < 4085 ∨ clusters ≥ maxClusters then .error .badGeometry
  else do
    let bootName ← short "BOOTX64.EFI"
    let kernelName ← short "KERNEL.ELF"
    let initName ← short "INITRD.BIN"
    let (files, next) ← place 5 [{ name := bootName, data := bootx64 }, { name := kernelName, data := kernel },
      { name := initName, data := initramfs }]
    if next - 2 > clusters then .error .imageTooSmall
    else image totalSectors fatSectors (files.take 1) (files.drop 1)

end Tools.Mkesp
