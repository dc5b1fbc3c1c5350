import ZigKernel.LangSigned
import ZigKernel.LibTable

/-! `src/mm/mm.zig`: the areas of virtual memory and the pages behind them. -/

namespace Kernel

open Zig

/-- A loop that never ends. -/
inductive Spins where
  | spins
  deriving DecidableEq

namespace Mm

def pageSize : Nat := 4096
def maxPages : Nat := 4096
def reservePages : Nat := 256
def maxVmAreas : Nat := 64

def protRead : Nat := 1
def protWrite : Nat := 2
def mapShared : Nat := 0x01
def mapPrivate : Nat := 0x02
def mapFixed : Nat := 0x10
def mapAnonymous : Nat := 0x20

structure VmArea where
  start : Nat
  /-- `end` -/
  stop : Nat
  flags : Nat
  prot : Nat
  isShared : Bool := false
  cow : Bool := false
  cowPages : Nat := 0

structure Page where
  inUse : Bool := false
  refCount : Nat := 0

end Mm

structure Mm where
  vmAreas : Fin Mm.maxVmAreas → Option Mm.VmArea := fun _ => none
  vmAreaCount : Nat := 0
  nextAnonAddr : Nat := 0x20000000
  pages : Fin Mm.maxPages → Mm.Page := fun _ => {}
  /-- The bytes of `page_bitmap`. -/
  pageBitmap : Fin (Mm.maxPages / 8) → BitVec 8 := fun _ => 0

namespace Mm

abbrev Run (α : Type) := Act Mm Spins α

/-- The byte of the bitmap with the bit of a page. -/
def byteOf (i : Fin maxPages) : Fin (maxPages / 8) := ⟨i.val / 8, Nat.div_lt_div_of_lt_of_dvd (by decide) i.isLt⟩

/-- `1 << (idx % 8)` -/
def bitOf (i : Fin maxPages) : BitVec 8 := 1#8 <<< (i.val % 8)

def setPage (i : Fin maxPages) (m : Mm) : Mm :=
  { m with pageBitmap := Function.update m.pageBitmap (byteOf i) (m.pageBitmap (byteOf i) ||| bitOf i) }

def clearPage (i : Fin maxPages) (m : Mm) : Mm :=
  { m with pageBitmap := Function.update m.pageBitmap (byteOf i) (m.pageBitmap (byteOf i) &&& ~~~bitOf i) }

def isPageSet (m : Mm) (i : Fin maxPages) : Bool := m.pageBitmap (byteOf i) &&& bitOf i != 0

def freeCount (m : Mm) : Nat := (List.finRange maxPages).countP fun i => !(m.pages i).inUse

def usedPages (m : Mm) : Nat := (List.finRange maxPages).countP fun i => (m.pages i).inUse

/-- The page that `allocPageInner` takes. -/
def nextPage (m : Mm) : Option (Fin maxPages) := Table.find? m.pages fun page => !page.inUse

def allocPageInner (m : Mm) : Mm :=
  match m.nextPage with
  | some i => setPage i { m with pages := Function.update m.pages i { inUse := true, refCount := 1 } }
  | none => m

def allocPage (m : Mm) : Mm := if m.freeCount ≤ reservePages then m else m.allocPageInner

/-- The page that `allocPage` hands out. -/
def grantedPage (m : Mm) : Option (Fin maxPages) := if m.freeCount ≤ reservePages then none else m.nextPage

def freePage (i : Fin maxPages) (m : Mm) : Mm :=
  if (m.pages i).refCount = 0 then m
  else if (m.pages i).refCount - 1 = 0 then
    clearPage i { m with pages := Function.update m.pages i { inUse := false, refCount := 0 } }
  else
    { m with pages := Function.update m.pages i { m.pages i with refCount := (m.pages i).refCount - 1 } }

/-- The page loop of `mmap`. -/
def allocPages : Nat → Mm → Mm
  | 0, m => m
  | n + 1, m => allocPages n m.allocPage

def findFreeVmaSlot (m : Mm) : Option (Fin maxVmAreas) := Table.find? m.vmAreas (·.isNone)

def VmArea.overlaps (start stop : Nat) (vma : VmArea) : Bool := start < vma.stop && stop > vma.start

def findVmaOverlap (m : Mm) (start stop : Nat) : Option (Fin maxVmAreas) :=
  Table.find? m.vmAreas fun slot => slot.any (VmArea.overlaps start stop)

def VmArea.holds (addr : Nat) (vma : VmArea) : Bool := addr ≥ vma.start && addr < vma.stop

/-- The area containing `addr`. -/
def findVma (m : Mm) (addr : Nat) : Option VmArea := do
  let i ← Table.find? m.vmAreas fun slot => slot.any (VmArea.holds addr)
  m.vmAreas i

def removeVma (i : Fin maxVmAreas) : Run Unit := do
  Act.modify fun m => { m with vmAreas := Function.update m.vmAreas i none }
  let m ← Act.get
  let count ← Act.lift (subU64 m.vmAreaCount 1)
  Act.modify fun m => { m with vmAreaCount := count }

/-- `mmap` from the search for a slot on. -/
def mapAt (mapAddr alignedLen prot flags : Nat) : Run (Option Nat) := do
  let m ← Act.get
  match m.findFreeVmaSlot with
  | none => pure none
  | some slot => do
      let stop ← Act.lift (addU64 mapAddr alignedLen)
      let vma : VmArea := { start := mapAddr, stop, flags, prot, isShared := decide (flags &&& mapShared ≠ 0) }
      Act.modify fun m => { m with vmAreas := Function.update m.vmAreas slot (some vma) }
      let count ← Act.lift (addU64 m.vmAreaCount 1)
      Act.modify fun m => { m with vmAreaCount := count }
      Act.modify (allocPages (if flags &&& mapAnonymous ≠ 0 then alignedLen / pageSize else 0))
      pure (some mapAddr)

/-- `(len + PAGE_SIZE - 1) & ~(PAGE_SIZE - 1)` -/
def alignLen (len : Nat) : Outcome Spins Nat := do
  let padded ← addU64 len pageSize
  let rounded ← subU64 padded 1
  pure (rounded &&& notU64 (pageSize - 1))

/-- The base for an anonymous mapping, which leaves a gap behind it. -/
def takeAnonAddr (alignedLen : Nat) : Run Nat := do
  let m ← Act.get
  let taken ← Act.lift (addU64 alignedLen (pageSize * 256))
  let next ← Act.lift (addU64 m.nextAnonAddr taken)
  Act.modify fun m => { m with nextAnonAddr := next }
  pure m.nextAnonAddr

/-- `mmap` at an address that must be free. -/
def mapFree (mapAddr alignedLen prot flags : Nat) : Run (Option Nat) := do
  let m ← Act.get
  let stop ← Act.lift (addU64 mapAddr alignedLen)
  if (m.findVmaOverlap mapAddr stop).isSome then pure none else mapAt mapAddr alignedLen prot flags

def mmap (addr len prot flags : Nat) : Run (Option Nat) := do
  let alignedLen ← Act.lift (alignLen len)
  if addr = 0 then do
    let mapAddr ← takeAnonAddr alignedLen
    mapFree mapAddr alignedLen prot flags
  else if flags &&& mapFixed ≠ 0 then mapFree addr alignedLen prot flags
  else mapAt addr alignedLen prot flags

/-- The loop of `munmap` over the slots; the number of areas removed. -/
def munmapLoop (addr stop : Nat) (removed : Nat) : List (Fin maxVmAreas) → Run Nat
  | [] => pure removed
  | i :: rest => do
      let m ← Act.get
      match m.vmAreas i with
      | none => munmapLoop addr stop removed rest
      | some vma =>
          if vma.start ≥ addr ∧ vma.stop ≤ stop then do
            removeVma i
            let _ ← Act.lift (subU64 vma.stop vma.start)
            let removed ← Act.lift (addU64 removed 1)
            munmapLoop addr stop removed rest
          else munmapLoop addr stop removed rest

def munmap (addr len : Nat) : Run Int := do
  let alignedLen ← Act.lift (alignLen len)
  let stop ← Act.lift (addU64 addr alignedLen)
  let removed ← munmapLoop addr stop 0 (List.finRange maxVmAreas)
  pure (if removed > 0 then 0 else -1)

def VmArea.covers (addr stop : Nat) (vma : VmArea) : Bool := vma.start ≤ addr && vma.stop ≥ stop

def mprotect (addr len prot : Nat) : Run Int := do
  let stop ← Act.lift (addU64 addr len)
  let m ← Act.get
  match Table.find? m.vmAreas fun slot => slot.any (VmArea.covers addr stop) with
  | none => pure (-1)
  | some i => do
      Act.modify fun m =>
        { m with vmAreas := Function.update m.vmAreas i ((m.vmAreas i).map fun vma => { vma with prot }) }
      pure 0

/-- The loop of `markCowRange` over the slots; the number of areas marked. -/
def markCowLoop (addr stop : Nat) (n : Nat) : List (Fin maxVmAreas) → Run Nat
  | [] => pure n
  | i :: rest => do
      let m ← Act.get
      match m.vmAreas i with
      | none => markCowLoop addr stop n rest
      | some vma =>
          if VmArea.overlaps addr stop vma ∧ vma.flags &&& mapPrivate ≠ 0 then do
            let len ← Act.lift (subU64 vma.stop vma.start)
            let cowPages ← Act.lift (castU32 (len / pageSize))
            Act.modify fun m =>
              { m with vmAreas := Function.update m.vmAreas i (some { vma with cow := true, cowPages }) }
            let n ← Act.lift (addU64 n 1)
            markCowLoop addr stop n rest
          else markCowLoop addr stop n rest

def markCowRange (addr len : Nat) : Run Nat := do
  let stop ← Act.lift (addU64 addr len)
  markCowLoop addr stop 0 (List.finRange maxVmAreas)

/-- An area after a copy of one of its pages. -/
def VmArea.copied (vma : VmArea) : VmArea :=
  { vma with cowPages := vma.cowPages - 1, cow := vma.cow && vma.cowPages - 1 != 0 }

/-- The slot of the area that holds `addr`, which is marked. -/
def findCow (m : Mm) (addr : Nat) : Option (Fin maxVmAreas × VmArea) := do
  let i ← Table.find? m.vmAreas fun slot => slot.any (VmArea.holds addr)
  let vma ← m.vmAreas i
  if vma.cow then pure (i, vma) else none

def cowFault (addr : Nat) : Run (Option (Fin maxPages)) := do
  let m ← Act.get
  match m.findCow addr, m.nextPage with
  | some found, some page => do
      Act.modify allocPageInner
      Act.modify fun m => { m with vmAreas := Function.update m.vmAreas found.1 (some found.2.copied) }
      pure (some page)
  | _, _ => pure none

end Mm

end Kernel
