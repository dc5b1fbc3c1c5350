import ZigKernel.NativeMemmap

/-! `boot/uefi/main.zig`, the part between the firmware's final memory map and the kernel: the map is copied into
bounded descriptors, the header is written, and the normalized ranges go behind it. The pages of the handoff
structure are its address and what memory holds there, read as ranges. -/

namespace Boot

open Zig Native

def kernelBase : Nat := 0x200000
def stackPages : Nat := 16
/-- `BOOTINFO_BYTES` -/
def bootInfoBytes : Nat := headerSize + maxRanges * rangeSize
def maxFirmwareDescs : Nat := 256

/-- The members of `uefi.tables.MemoryType` that `mapKind` tells apart. -/
inductive MemoryType where
  | conventionalMemory | bootServicesCode | bootServicesData | loaderCode | loaderData | acpiReclaimMemory
  | acpiMemoryNvs | memoryMappedIo | memoryMappedIoPortSpace | palCode
  | other (n : Nat)
  deriving DecidableEq, Repr

structure MemoryDescriptor where
  type : MemoryType
  physicalStart : U64
  numberOfPages : U64

/-- The descriptors in the order of the iterator, and the fields of `info` that are copied. -/
structure MemoryMapSlice where
  descriptors : List MemoryDescriptor
  descriptorSize : U64
  descriptorVersion : U32

inductive Error where
  | mapTooLarge | mapAddressOverflow | badMap
  | memmap (e : Memmap.Error)
  | validate (e : ValidateError)
  deriving DecidableEq, Repr

def mapKind : MemoryType → RangeKind
  | .conventionalMemory | .bootServicesCode | .bootServicesData => .conventional
  | .loaderCode | .loaderData => .loader
  | .acpiReclaimMemory => .acpiReclaim
  | .acpiMemoryNvs => .nvs
  | .memoryMappedIo | .memoryMappedIoPortSpace | .palCode => .mmio
  | .other _ => .reserved

/-- The descriptor that is stored for one of the firmware's. -/
def toDesc (d : MemoryDescriptor) : Memmap.Desc :=
  { start := d.physicalStart, pages := d.numberOfPages, kind := mapKind d.type }

/-- The loop of `readFinalMap`; `out` is what it has stored. -/
def readDescriptors (out : List Memmap.Desc) : List MemoryDescriptor → Outcome Error (List Memmap.Desc)
  | [] => .ok out
  | d :: rest =>
      if out.length ≥ maxFirmwareDescs then .error .mapTooLarge
      else
        match mathMul d.numberOfPages Memmap.page with
        | none => .error .mapAddressOverflow
        | some bytes =>
            match mathAdd d.physicalStart bytes with
            | none => .error .mapAddressOverflow
            | some stop =>
                if stop < d.physicalStart.val then .error .mapAddressOverflow
                else readDescriptors (out ++ [toDesc d]) rest

def readFinalMap (map : MemoryMapSlice) : Outcome Error (List Memmap.Desc) := readDescriptors [] map.descriptors

/-- What the loader has allocated: the arguments of `publishBootInfo` and the size of the initramfs span. -/
structure Placement where
  /-- `@intFromPtr(info)` -/
  info : U64
  kpages : U64
  kentry : U64
  ibase : U64
  ipages : U64
  initrdLen : U64
  stackBase : U64

/-- The array `owned` of `main`, for a structure of so many pages. -/
def Placement.owned (p : Placement) (biPages : Nat) : List Memmap.Span :=
  [{ base := kernelBase, size := p.kpages.val * 4096, kind := .kernel },
    { base := p.ibase, size := p.ipages.val * 4096, kind := .initramfs },
    { base := p.stackBase, size := stackPages * 4096, kind := .kernelStack },
    { base := p.info, size := biPages * 4096, kind := .bootInfo }]

/-- `bi_pages` -/
def biPages : Nat := (bootInfoBytes + 4095) / 4096

/-- The assignment to `info.*`; `stale` is what lies behind the header. -/
def header (p : Placement) (biPages : Nat) (map : MemoryMapSlice) (stale : Nat → Range) : Outcome Error BootInfo := do
  let totalSize ← castU32 (← mulU64 biPages 4096)
  let efiDescSize ← castU32 map.descriptorSize
  let kernelSize ← mulU64 p.kpages 4096
  let stackSize ← mulU64 stackPages 4096
  return {
    totalSize, rangeCount := 0, efiDescSize, efiDescVersion := map.descriptorVersion
    kernelBase := Fin.ofNat _ kernelBase, kernelSize := Fin.ofNat _ kernelSize, kernelEntry := p.kentry
    initramfsBase := p.ibase, initramfsSize := p.initrdLen
    stackBase := p.stackBase, stackSize := Fin.ofNat _ stackSize
    selfAddr := p.info, rangeArray := stale }

/-- The length of `rangesStorage()`. -/
def storageLength (info : BootInfo) : Outcome Error Nat := do
  let bytes ← subU64 info.totalSize headerSize
  return bytes / rangeSize

/-- The ranges stand behind the header, and are counted and summed. -/
def withRanges (info : BootInfo) (ranges : List Range) : BootInfo :=
  let counted : BootInfo := { info with
    rangeCount := Fin.ofNat _ ranges.length, rangeArray := fun i => ranges.getD i (info.rangeArray i) }
  { counted with checksum := Fin.ofNat _ counted.computeChecksum }

/-- Rebuilds the structure from the current map; the result is `n` and the structure. -/
def publishBootInfo (p : Placement) (map : MemoryMapSlice) (owned : List Memmap.Span) (biPages : Nat)
    (stale : Nat → Range) : Outcome Error (Nat × BootInfo) := do
  let descs ← readFinalMap map
  let info ← header p biPages map stale
  let capacity ← storageLength info
  let ranges ← (Memmap.normalize descs owned capacity).mapError .memmap
  if ranges.length = 0 then .error .badMap
  else do
    let info := withRanges info ranges
    info.validate.mapError .validate
    return (ranges.length, info)

end Boot
