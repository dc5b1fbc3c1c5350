import ZigKernel.LangExcept
import ZigKernel.LibLittleEndian
import ZigKernel.LibSha256

/-! `scripts/qualify-native/fat16.py`: the volume as `FAT16` reads it. The attributes that the constructor sets from the
boot sector are one structure, and those that `walk` fills are another. A dictionary is the list of its items, a set is
the list of its members. -/

namespace Qualify.Fat16

abbrev Bytes := List UInt8

/-- The exceptions, and a loop that does not end. -/
inductive Raised where
  | invalidESP (message : String)
  | structError
  | indexError
  | unicodeDecodeError
  | endless

abbrev Call (α : Type) := Except Raised α

def maxImage : Nat := 128 * 1024 * 1024

def check (condition : Prop) [Decidable condition] (message : String) : Call Unit :=
  if condition then pure () else throw (.invalidESP message)

/-- `xs[i]` -/
def index {α : Type} (xs : List α) (i : Nat) : Call α :=
  match xs[i]? with
  | some x => pure x
  | none => throw .indexError

/-- `xs[lo:hi]` -/
def slice (xs : Bytes) (lo hi : Nat) : Bytes := (xs.drop lo).take (hi - lo)

/-- `struct.unpack_from` of a number of `n` bytes. -/
def unpackFrom (n : Nat) (data : Bytes) (offset : Nat) : Call Nat :=
  if offset + n ≤ data.length then pure (LittleEndian.ofBytes (slice data offset (offset + n))) else throw .structError

def decodeAscii (raw : Bytes) : Call String :=
  if raw.all fun b => b < 128 then pure (String.ofList (raw.map fun b => Char.ofNat b.toNat)) else throw .unicodeDecodeError

/-- `#x` -/
def hex (n : Nat) : String := "0x" ++ String.ofList (Nat.toDigits 16 n)

/-- `hexdigest` -/
def sha (data : Bytes) : String :=
  String.ofList ((Sha256.hash data).flatMap fun b => [Nat.digitChar (b.toNat / 16), Nat.digitChar (b.toNat % 16)])

/-! ### The boot sector -/

structure Volume where
  data : Bytes
  spc : Nat
  clusterBytes : Nat
  rootEntries : Nat
  fatOffset : Nat
  fatBytes : Nat
  rootOffset : Nat
  dataOffset : Nat
  clusterCount : Nat

def u16 (data : Bytes) (offset : Nat) : Call Nat := unpackFrom 2 data offset
def u32 (data : Bytes) (offset : Nat) : Call Nat := unpackFrom 4 data offset

def Volume.fat (v : Volume) (cluster : Nat) : Call Nat := u16 v.data (v.fatOffset + cluster * 2)

/-- The last checks of `__init__` in front of `walk`. -/
def checkVolume (v : Volume) : Call Unit := do
  check (v.dataOffset < v.data.length) "metadata extends outside image"
  check (4085 ≤ v.clusterCount ∧ v.clusterCount < 65525) "cluster count is not FAT16"
  check ((v.clusterCount + 2) * 2 ≤ v.fatBytes) "FAT too short for data clusters"
  let first := slice v.data v.fatOffset (v.fatOffset + v.fatBytes)
  let second := slice v.data (v.fatOffset + v.fatBytes) v.rootOffset
  check (first = second) "FAT copies differ"
  let fat0 ← v.fat 0
  let media ← index v.data 21
  let valid ← if fat0 = 0xFF00 ||| media.toNat then do
      let fat1 ← v.fat 1
      pure (decide (fat1 ≥ 0xFFF8))
    else pure false
  check (valid = true) "invalid FAT reserved/media entries"

/-- `__init__` in front of `walk`. -/
def readVolume (data : Bytes) : Call Volume := do
  check (512 ≤ data.length ∧ data.length ≤ maxImage) "invalid image size"
  check (slice data 510 512 = [0x55, 0xaa]) "missing boot signature"
  let sector ← u16 data 11
  check (sector = 512) "only 512-byte sector volumes supported"
  let spc ← index data 13
  check (spc.toNat ∈ [1, 2, 4, 8, 16, 32, 64, 128]) "invalid sectors per cluster"
  let clusterBytes := 512 * spc.toNat
  let reserved ← u16 data 14
  let nfats ← index data 16
  let roots ← u16 data 17
  check (reserved ≥ 1 ∧ nfats.toNat = 2) "expected reserved sectors and two FATs"
  check (0 < roots ∧ roots ≤ 4096 ∧ roots % 16 = 0) "unsupported root entry count"
  let total16 ← u16 data 19
  let total32 ← u32 data 32
  check (¬(total16 ≠ 0 ↔ total32 ≠ 0)) "exactly one total-sector field must be set"
  let total := if total16 ≠ 0 then total16 else total32
  check (total * 512 = data.length) "declared volume size differs from input length"
  let hidden ← u32 data 28
  check (hidden = 0) "partitioned/hidden-sector volume unsupported"
  let fatSectors ← u16 data 22
  check (fatSectors > 0) "FAT16 sectors-per-FAT is zero"
  let rootOffset := (reserved + nfats.toNat * fatSectors) * 512
  let dataOffset := rootOffset + roots * 32
  let v : Volume := {
    data, spc := spc.toNat, clusterBytes, rootEntries := roots, fatOffset := reserved * 512, fatBytes := fatSectors * 512
    rootOffset, dataOffset, clusterCount := (data.length - dataOffset) / clusterBytes }
  checkVolume v
  pure v

/-! ### Chains -/

inductive Kind where
  | directory
  | file
  deriving DecidableEq

structure Entry where
  path : String
  rawName83 : String
  entryOffset : Nat
  cluster : Nat
  size : Nat
  kind : Kind
  clusters : List Nat
  sha256 : Option String

structure Found where
  claimed : List (Nat × String) := []
  files : List (String × Bytes) := []
  entries : List Entry := []
  paths : List String := []

def clusterOffset (v : Volume) (cluster : Nat) : Call Nat := do
  check (2 ≤ cluster ∧ cluster < v.clusterCount + 2) s!"cluster {cluster} outside data region"
  let offset := v.dataOffset + (cluster - 2) * v.clusterBytes
  check (offset + v.clusterBytes ≤ v.data.length) "cluster extends beyond image"
  pure offset

/-- The loop of `chain`: the clusters so far, which are those in `seen`, and the owners of all claimed clusters. -/
def chainLoop (v : Volume) (owner : String) :
    (fuel current : Nat) → (seen : List Nat) → (claimed : List (Nat × String)) → Call (List Nat × List (Nat × String))
  | 0, _, _, _ => throw .endless
  | fuel + 1, current, seen, claimed => do
      check (current < 0xFFF0) s!"reserved cluster identifier {hex current} for {owner}"
      let _ ← clusterOffset v current
      check (current ∉ seen) s!"cycle in cluster chain for {owner}: {current}"
      check (claimed.lookup current = none)
        s!"cross-linked cluster {current} for {owner} and {(claimed.lookup current).getD default}"
      let following ← v.fat current
      if following ≥ 0xFFF8 then pure (seen ++ [current], (current, owner) :: claimed)
      else do
        check (2 ≤ following ∧ following < 0xFFF0) s!"bad/free/reserved FAT link {hex following} for {owner}"
        chainLoop v owner fuel following (seen ++ [current]) ((current, owner) :: claimed)

/-- `chain`, with a turn of the loop for each cluster and one more. -/
def chain (v : Volume) (start : Nat) (owner : String) (s : Found) : Call (List Nat × Found) := do
  let (clusters, claimed) ← chainLoop v owner (v.clusterCount + 1) start [] s.claimed
  pure (clusters, { s with claimed })

/-! ### Names -/

def dotName : Bytes := [46, 32, 32, 32, 32, 32, 32, 32, 32, 32, 32]
def dotDotName : Bytes := [46, 46, 32, 32, 32, 32, 32, 32, 32, 32, 32]

/-- `raw.rstrip(b" ")` -/
def rstrip (raw : Bytes) : Bytes := (raw.reverse.dropWhile (· = 32)).reverse

/-- The bytes of `"*+,./:;<=>?[\]|` -/
def forbidden : Bytes := [34, 42, 43, 44, 46, 47, 58, 59, 60, 61, 62, 63, 91, 92, 93, 124]

/-- `name`. The two names with dots are stripped of their blanks. -/
def name (raw : Bytes) : Call String :=
  if raw = dotName then pure "."
  else if raw = dotDotName then pure ".."
  else do
    check (raw.all fun c => 32 ≤ c ∧ c < 127) "non-ASCII short filename unsupported"
    let base := rstrip (raw.take 8)
    let ext := rstrip (raw.drop 8)
    check (base ≠ [] ∧ 32 ∉ base ++ ext) "invalid short filename padding"
    check ((base ++ ext).all fun c => c ∉ forbidden) "invalid short filename character"
    let stem ← decodeAscii base
    let suffix ← decodeAscii ext
    let value := stem ++ if ext ≠ [] then "." ++ suffix else ""
    check (value = value.toUpper) "lowercase on-disk short name unsupported"
    pure value

/-! ### Directories -/

/-- The arguments of `walk` but the depth. -/
structure Dir where
  buf : Bytes
  directory : String
  cluster : Nat
  parent : Nat
  baseOffset : Nat
  offsets : Option (List Nat)

/-- The fields of an entry. -/
structure Fields where
  raw : Bytes
  name : String
  attr : Nat
  first : Nat
  size : Nat

/-- The body of the loop of `walk` down to the fields. -/
def readFields (directory : String) (names : List String) (entry : Bytes) : Call Fields := do
  let attr ← index entry 11
  check (attr.toNat ≠ 0x0F) "LFN directory entry unsupported; requires separate verifier profile"
  check (attr.toNat ∈ [0x10, 0x20]) s!"unsupported directory attributes {hex attr.toNat}"
  let nameCase ← index entry 12
  check (nameCase = 0 ∧ slice entry 20 22 = [0, 0]) "unsupported name-case/high-cluster fields"
  let raw := slice entry 0 11
  let name ← name raw
  check (name ∉ names) s!"duplicate path {directory}{name}"
  let first ← unpackFrom 2 entry 26
  let size ← unpackFrom 4 entry 28
  pure { raw, name, attr := attr.toNat, first, size }

/-- `[self.cluster_offset(c) for c in chains]` -/
def positionsOf (v : Volume) : List Nat → Call (List Nat)
  | [] => pure []
  | c :: rest => do
      let p ← clusterOffset v c
      let ps ← positionsOf v rest
      pure (p :: ps)

/-- The clusters of an entry. -/
def clustersOf (v : Volume) (path : String) (f : Fields) (s : Found) : Call (List Nat × Found) :=
  if f.attr = 0x20 ∧ f.size = 0 then do
    check (f.first = 0) s!"empty file {path} must have cluster zero"
    pure ([], s)
  else chain v f.first path s

/-- `absolute` -/
def absoluteOf (v : Volume) (d : Dir) (offset : Nat) : Call Nat :=
  match d.offsets with
  | none => pure (d.baseOffset + offset)
  | some offsets => do
      let p ← index offsets (offset / v.clusterBytes)
      pure (p + offset % v.clusterBytes)

/-- The body of the loop of `walk` from `path` on. The record is complete when it is appended: nothing reads it before. -/
def addEntry (recurse : Dir → Found → Call Found) (v : Volume) (d : Dir) (offset : Nat) (f : Fields) (s : Found) :
    Call Found := do
  let path := d.directory ++ f.name
  check (path ∉ s.paths) s!"duplicate path {path}"
  let s := { s with paths := path :: s.paths }
  check (s.paths.length ≤ 4096) "directory entry count exceeds verifier profile"
  let entryOffset ← absoluteOf v d offset
  let rawName83 ← decodeAscii f.raw
  let (clusters, s) ← clustersOf v path f s
  check (f.attr = 0x20 → clusters.length = (f.size + v.clusterBytes - 1) / v.clusterBytes)
    s!"chain length does not match file size for {path}"
  let positions ← positionsOf v clusters
  let payload := positions.flatMap fun p => slice v.data p (p + v.clusterBytes)
  if f.attr = 0x10 then do
    check (f.size = 0) s!"directory {path} has nonzero size"
    let start ← index positions 0
    let rec_ : Entry :=
      { path, rawName83, entryOffset, cluster := f.first, size := f.size, kind := .directory, clusters, sha256 := none }
    recurse { buf := payload, directory := path ++ "/", cluster := f.first, parent := d.cluster, baseOffset := start
              offsets := some positions } { s with entries := s.entries ++ [rec_] }
  else do
    let content := payload.take f.size
    let rec_ : Entry :=
      { path, rawName83, entryOffset, cluster := f.first, size := f.size, kind := .file, clusters
        sha256 := some (sha content) }
    pure { s with entries := s.entries ++ [rec_], files := s.files ++ [(path, content)] }

/-- The loop of `walk` over the offsets to go; the dot entries that it has met. -/
def walkLoop (recurse : Dir → Found → Call Found) (v : Volume) (d : Dir) :
    List Nat → (names dots : List String) → Found → Call (List String × Found)
  | [], _, dots, s => pure (dots, s)
  | offset :: rest, names, dots, s => do
      let entry := slice d.buf offset (offset + 32)
      let lead ← index entry 0
      if lead = 0 then pure (dots, s)
      else if lead = 0xE5 then walkLoop recurse v d rest names dots s
      else do
        let f ← readFields d.directory names entry
        if f.name = "." ∨ f.name = ".." then do
          check (d.directory ≠ "/" ∧ f.attr = 0x10 ∧ f.size = 0) "invalid dot entry"
          check (f.first = if f.name = "." then d.cluster else d.parent) "dot entry cluster mismatch"
          walkLoop recurse v d rest (f.name :: names) (f.name :: dots) s
        else do
          let s ← addEntry recurse v d offset f s
          walkLoop recurse v d rest (f.name :: names) dots s

/-- `range(0, len(buf), 32)` -/
def entryOffsets (buf : Bytes) : List Nat := (List.range ((buf.length + 31) / 32)).map (32 * ·)

/-- `walk`, with the levels left: `9 - depth`. -/
def walk (v : Volume) : (left : Nat) → Dir → Found → Call Found
  | 0, _, _ => throw (.invalidESP "directory nesting exceeds verifier profile")
  | left + 1, d, s => do
      let (dots, s) ← walkLoop (walk v left) v d (entryOffsets d.buf) [] [] s
      check (d.directory ≠ "/" → "." ∈ dots ∧ ".." ∈ dots) s!"missing dot entries in {d.directory}"
      pure s

/-- The loop at the end of `__init__`. -/
def checkClaimed (v : Volume) (s : Found) : List Nat → Call Unit
  | [] => pure ()
  | cluster :: rest => do
      let value ← v.fat cluster
      check (value ≠ 0 → (s.claimed.lookup cluster).isSome) s!"allocated cluster {cluster} is unreachable"
      checkClaimed v s rest

def rootDir (v : Volume) : Dir :=
  { buf := slice v.data v.rootOffset v.dataOffset, directory := "/", cluster := 0, parent := 0, baseOffset := v.rootOffset
    offsets := none }

/-- `FAT16(data)` -/
def fat16 (data : Bytes) : Call (Volume × Found) := do
  let v ← readVolume data
  let s ← walk v 9 (rootDir v) {}
  checkClaimed v s (List.range' 2 v.clusterCount)
  pure (v, s)

end Qualify.Fat16
