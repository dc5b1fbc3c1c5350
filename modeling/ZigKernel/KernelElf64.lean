import ZigKernel.BootElf64
import ZigKernel.KernelMm
import ZigKernel.KernelSyscall

/-! `src/proc/elf64.zig`: the checks on a static executable before it is loaded, and its areas of memory. The headers have
the fields that the boot loader reads. -/

namespace Kernel.Elf64

open Zig
open Boot.Elf64 (Ehdr Phdr ehdrSize phdrSize ptLoad pfX pfW pfR etExec emX8664)

inductive Error where
  | invalidElf | notStatic | wrongArch | needsInterp | tooBig | kernelAddr | overlap | tooManySegs | noLoad | badEntry
  | noMem | mapMismatch
  deriving DecidableEq

def ptDynamic : Nat := 2
def ptInterp : Nat := 3

def maxImage : Nat := 16 <<< 20
def maxPhnum : Nat := 16
def maxSegMemsz : Nat := 64 <<< 20
def maxSegs : Nat := 16

structure Segment where
  vaddr : Nat
  memsz : Nat
  prot : Nat
  flags : Nat
  deriving DecidableEq

structure Validated where
  entry : Nat
  /-- `segs[0..nsegs]` -/
  segs : List Segment
  deriving DecidableEq

def protOf (flags : Nat) : Nat :=
  (if flags &&& pfR ≠ 0 then Mm.protRead else 0) ||| (if flags &&& pfW ≠ 0 then Mm.protWrite else 0) |||
    if flags &&& pfX ≠ 0 then 4 else 0

def readEhdr (image : List UInt8) : Option Ehdr :=
  if image.length < ehdrSize then none else some (Ehdr.ofBytes (image.take ehdrSize))

def readPhdr (image : List UInt8) (off : Nat) : Outcome Error (Option Phdr) :=
  if wrapAddU64 off phdrSize < off then pure none
  else do
    let stop ← addU64 off phdrSize
    if stop > image.length then pure none
    else do
      let bytes ← slice image off stop
      pure (some (Phdr.ofBytes bytes))

/-- `vaddr & ~(PAGE_SIZE - 1)` -/
def pageStart (vaddr : Nat) : Nat := vaddr &&& notU64 (Mm.pageSize - 1)

/-- `(vaddr +% memsz + PAGE_SIZE - 1) & ~(PAGE_SIZE - 1)`: the first addition wraps, the second is checked. -/
def pageEnd (vaddr memsz : Nat) : Outcome Error Nat := do
  let padded ← addU64 (wrapAddU64 vaddr memsz) Mm.pageSize
  let rounded ← subU64 padded 1
  pure (rounded &&& notU64 (Mm.pageSize - 1))

/-- The loop over the earlier segments. -/
def overlapsAny (start stop : Nat) : List Segment → Outcome Error Bool
  | [] => pure false
  | s :: rest => do
      let b ← pageEnd s.vaddr s.memsz
      if start < b ∧ stop > pageStart s.vaddr then pure true else overlapsAny start stop rest

def segmentOf (p : Phdr) : Segment := { vaddr := p.vaddr, memsz := p.memsz, prot := protOf p.flags, flags := p.flags }

/-- The checks on where a segment goes. -/
def placeSegment (p : Phdr) (segs : List Segment) : Outcome Error (List Segment) := do
  let segEnd ← pageEnd p.vaddr p.memsz
  if segEnd < pageStart p.vaddr then .error .invalidElf
  else do
    let len ← subU64 segEnd (pageStart p.vaddr)
    if ¬Gdt.isUserRange (pageStart p.vaddr) len then .error .kernelAddr
    else do
      let overlaps ← overlapsAny (pageStart p.vaddr) segEnd segs
      if overlaps then .error .overlap
      else if segs.length ≥ maxSegs then .error .tooManySegs
      else pure (segs ++ [segmentOf p])

/-- The body of the program header loop. -/
def checkPhdr (image : List UInt8) (p : Phdr) (segs : List Segment) : Outcome Error (List Segment) :=
  if p.type = ptDynamic ∨ p.type = ptInterp then .error .needsInterp
  else if p.type ≠ ptLoad then pure segs
  else if p.memsz = 0 then .error .invalidElf
  else if p.memsz > maxSegMemsz then .error .tooBig
  else if p.filesz > p.memsz then .error .invalidElf
  else if wrapAddU64 p.offset p.filesz < p.offset then .error .invalidElf
  else do
    let fileEnd ← addU64 p.offset p.filesz
    if fileEnd > image.length then .error .invalidElf else placeSegment p segs

/-- The program header loop, with `left` headers to go from index `i`. -/
def checkPhdrs (image : List UInt8) (phoff : Nat) : (left i : Nat) → List Segment → Outcome Error (List Segment)
  | 0, _, segs => pure segs
  | left + 1, i, segs => do
      let skip ← mulU64 i phdrSize
      let off ← addU64 phoff skip
      let p ← readPhdr image off
      match p with
      | none => .error .invalidElf
      | some p => do
          let segs ← checkPhdr image p segs
          checkPhdrs image phoff left (i + 1) segs

/-- The loop that sets `in_rx`. -/
def inRx (entry : Nat) (segs : List Segment) : Bool :=
  segs.any fun s => s.flags &&& pfX ≠ 0 ∧ entry ≥ s.vaddr ∧ entry < wrapAddU64 s.vaddr s.memsz

/-- The checks on the segments as a whole and on the entry. -/
def checkEntry (entry : Nat) (segs : List Segment) : Outcome Error Validated :=
  if segs.length = 0 then .error .noLoad
  else if ¬entry ≤ Gdt.userMax then .error .badEntry
  else if ¬inRx entry segs then .error .badEntry
  else pure { entry, segs }

/-- The checks on the header in front of those on the place of the program headers. -/
def checkEhdr (h : Ehdr) : Outcome Error Unit :=
  if h.ident.take 4 ≠ [0x7f, 0x45, 0x4c, 0x46] then .error .invalidElf
  else if h.ident.getD 4 0 ≠ 2 ∨ h.ident.getD 5 0 ≠ 1 then .error .invalidElf
  else if h.ident.getD 6 0 ≠ 1 then .error .invalidElf
  else if h.type ≠ etExec then .error .notStatic
  else if h.machine ≠ emX8664 then .error .wrongArch
  else if h.ehsize ≠ ehdrSize then .error .invalidElf
  else if h.phentsize ≠ phdrSize then .error .invalidElf
  else if h.phnum = 0 ∨ h.phnum > maxPhnum then .error .invalidElf
  else if h.phoff = 0 then .error .invalidElf
  else pure ()

def validate (image : List UInt8) : Outcome Error Validated :=
  if image.length = 0 ∨ image.length > maxImage then .error .invalidElf
  else
    match readEhdr image with
    | none => .error .invalidElf
    | some h => do
        checkEhdr h
        let table ← mulU64 h.phnum phdrSize
        let stop ← addU64 h.phoff table
        if stop > image.length then .error .invalidElf
        else do
          let segs ← checkPhdrs image h.phoff h.phnum 0 []
          checkEntry h.entry segs

/-- `load` from segment to segment. -/
def mapSegments : List Segment → Act Mm Error Unit
  | [] => pure ()
  | s :: rest => do
      let stop ← Act.lift (pageEnd s.vaddr s.memsz)
      let len ← Act.lift (subU64 stop (pageStart s.vaddr))
      let got ← (Mm.mmap (pageStart s.vaddr) len s.prot (Mm.mapPrivate ||| Mm.mapAnonymous ||| Mm.mapFixed)).catchError
        fun _ => Act.lift .trap
      match got with
      | none => Act.fail .noMem
      | some got => if got ≠ pageStart s.vaddr then Act.fail .mapMismatch else mapSegments rest

def load (v : Validated) : Act Mm Error Nat := do
  mapSegments v.segs
  pure v.entry

end Kernel.Elf64
