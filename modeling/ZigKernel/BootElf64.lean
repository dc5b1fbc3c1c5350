import ZigKernel.LangSlice
import ZigKernel.LibLittleEndian

/-! `boot/uefi/elf64.zig`: the plan of the kernel image and its execution. The segments of a plan are
`segments[0..segment_count]`. -/

namespace Boot

open Zig

namespace Elf64

def maxPhdrs : Nat := 64
def maxKernelSpan : Nat := 0x200000
/-- `@sizeOf(Ehdr)` -/
def ehdrSize : Nat := 64
/-- `@sizeOf(Phdr)` -/
def phdrSize : Nat := 56

def ptLoad : Nat := 1
def pfX : Nat := 1
def pfW : Nat := 2
def pfR : Nat := 4
def etExec : Nat := 2
def emX8664 : Nat := 62

inductive Error where
  | truncated | badMagic | badClass | badEndian | badVersion | badType | badMachine | badHeaderSize | badPhdrSize
  | tooManyPhdrs | phdrTableOutOfBounds | noLoadSegments | segmentFileOverflow | segmentMemUnderflow
  | segmentAddressOverflow | segmentAlignCongruence | segmentOverlap | identityMismatch | baseMismatch
  | entryOutOfRange | entryNotFileBacked | spanTooLarge
  deriving DecidableEq, Repr

/-- The `n`-byte field at `off` of an `extern struct`. -/
def field (bytes : List UInt8) (off n : Nat) : Nat := LittleEndian.decode (fun i => bytes.getD (off + i) 0) n

/-- The fields of the ELF header that `plan` reads. -/
structure Ehdr where
  ident : List UInt8
  type : Nat
  machine : Nat
  version : Nat
  entry : Nat
  phoff : Nat
  ehsize : Nat
  phentsize : Nat
  phnum : Nat
  deriving DecidableEq, Repr

def Ehdr.ofBytes (bytes : List UInt8) : Ehdr where
  ident := bytes.take 16
  type := field bytes 16 2
  machine := field bytes 18 2
  version := field bytes 20 4
  entry := field bytes 24 8
  phoff := field bytes 32 8
  ehsize := field bytes 52 2
  phentsize := field bytes 54 2
  phnum := field bytes 56 2

structure Phdr where
  type : Nat
  flags : Nat
  offset : Nat
  vaddr : Nat
  paddr : Nat
  filesz : Nat
  memsz : Nat
  align : Nat
  deriving DecidableEq, Repr

def Phdr.ofBytes (bytes : List UInt8) : Phdr where
  type := field bytes 0 4
  flags := field bytes 4 4
  offset := field bytes 8 8
  vaddr := field bytes 16 8
  paddr := field bytes 24 8
  filesz := field bytes 32 8
  memsz := field bytes 40 8
  align := field bytes 48 8

structure Segment where
  paddr : Nat
  fileOff : Nat
  filesz : Nat
  memsz : Nat
  stop : Nat
  flags : Nat
  deriving DecidableEq, Repr

structure Plan where
  entry : Nat
  base : Nat
  stop : Nat
  span : Nat
  segments : List Segment
  deriving DecidableEq, Repr

/-- The bytes of a structure of so many bytes at `off`. -/
def readInt (size : Nat) (bytes : List UInt8) (off : Nat) : Outcome Error (List UInt8) := do
  let stop ← addU64 off size
  if stop > bytes.length then .error .truncated else slice bytes off stop

/-- `std.math.isPowerOfTwo` -/
def isPowerOfTwo (n : Nat) : Bool := n &&& (n - 1) = 0

/-- The check of the alignment, which stands in the code once for empty segments and once for the others. -/
def checkAlign (ph : Phdr) : Outcome Error Unit :=
  if ph.align > 1 then
    if ¬isPowerOfTwo ph.align then .error .segmentAlignCongruence
    else if ph.paddr % ph.align ≠ ph.offset % ph.align then .error .segmentAlignCongruence
    else .ok ()
  else .ok ()

/-- The variables of the program header loop: `segments[0..count]`, `lowest` and `highest`. -/
structure Scan where
  segments : List Segment := []
  lowest : Nat := maxU64
  highest : Nat := 0
  deriving DecidableEq, Repr

/-- `segments[count] = ...; count += 1;` and the bounds of the image. -/
def Scan.push (scan : Scan) (s : Segment) : Outcome Error Scan :=
  if scan.segments.length < maxPhdrs then
    .ok { segments := scan.segments ++ [s], lowest := min scan.lowest s.paddr, highest := max scan.highest s.stop }
  else .trap

/-- The body of the program header loop. -/
def planPhdr (bytes : List UInt8) (ph : Phdr) (scan : Scan) : Outcome Error Scan :=
  if ph.type ≠ ptLoad then .ok scan
  else if ph.filesz > ph.memsz then .error .segmentMemUnderflow
  else if ph.vaddr ≠ ph.paddr then .error .identityMismatch
  else if ph.memsz = 0 then do
    checkAlign ph
    return scan
  else
    match mathAdd ph.offset ph.filesz with
    | none => .error .segmentFileOverflow
    | some fileEnd =>
        if fileEnd > bytes.length then .error .segmentFileOverflow
        else
          match mathAdd ph.paddr ph.memsz with
          | none => .error .segmentAddressOverflow
          | some segEnd => do
              checkAlign ph
              scan.push
                { paddr := ph.paddr, fileOff := ph.offset, filesz := ph.filesz, memsz := ph.memsz, stop := segEnd,
                  flags := ph.flags }

/-- The program header loop, with `left` headers to go from index `i`. -/
def planPhdrs (bytes : List UInt8) (phoff phentsize : Nat) : (left i : Nat) → Scan → Outcome Error Scan
  | 0, _, scan => .ok scan
  | left + 1, i, scan => do
      let off ← addU64 phoff (← mulU64 i phentsize)
      let ph ← (readInt phdrSize bytes off).mapError fun _ => .phdrTableOutOfBounds
      planPhdrs bytes phoff phentsize left (i + 1) (← planPhdr bytes (Phdr.ofBytes ph) scan)

/-- The inner loop of the overlap check. -/
def overlapsAny (a : Segment) : List Segment → Bool
  | [] => false
  | b :: rest => if a.paddr < b.stop ∧ b.paddr < a.stop then true else overlapsAny a rest

/-- The overlap check. -/
def overlaps : List Segment → Bool
  | [] => false
  | a :: rest => if overlapsAny a rest then true else overlaps rest

/-- The loop that sets `entry_ok`. -/
def entryOk (entry : Nat) (segments : List Segment) : Bool :=
  segments.any fun s =>
    s.flags &&& pfX ≠ 0 ∧ entry ≥ s.paddr ∧ entry < (mathAdd s.paddr s.filesz).getD 0

/-- The checks of `plan` behind the program header loop. -/
def acceptScan (entry requiredBase : Nat) (scan : Scan) : Outcome Error Plan :=
  if scan.segments.length = 0 then .error .noLoadSegments
  else if scan.lowest ≠ requiredBase then .error .baseMismatch
  else if requiredBase % 4096 ≠ 0 then .error .baseMismatch
  else if overlaps scan.segments then .error .segmentOverlap
  else if ¬entryOk entry scan.segments then .error .entryNotFileBacked
  else do
    let span ← subU64 scan.highest scan.lowest
    match mathAdd scan.lowest maxKernelSpan with
    | none => .error .spanTooLarge
    | some windowEnd =>
        if span > maxKernelSpan then .error .spanTooLarge
        else if entry < scan.lowest ∨ entry ≥ windowEnd then .error .entryOutOfRange
        else return { entry, base := scan.lowest, stop := scan.highest, span, segments := scan.segments }

/-- The checks of `plan` on the ELF header. -/
def planEhdr (bytes : List UInt8) (eh : Ehdr) (requiredBase : Nat) : Outcome Error Plan :=
  if eh.ident.take 4 ≠ [0x7f, 0x45, 0x4c, 0x46] then .error .badMagic
  else if eh.ident.getD 4 0 ≠ 2 then .error .badClass
  else if eh.ident.getD 5 0 ≠ 1 then .error .badEndian
  else if eh.ident.getD 6 0 ≠ 1 ∨ eh.version ≠ 1 then .error .badVersion
  else if eh.type ≠ etExec then .error .badType
  else if eh.machine ≠ emX8664 then .error .badMachine
  else if eh.ehsize < ehdrSize then .error .badHeaderSize
  else if eh.phentsize < phdrSize then .error .badPhdrSize
  else if eh.phnum = 0 then .error .noLoadSegments
  else if eh.phnum > maxPhdrs then .error .tooManyPhdrs
  else
    match mathMul eh.phentsize eh.phnum with
    | none => .error .phdrTableOutOfBounds
    | some tableBytes =>
        match mathAdd eh.phoff tableBytes with
        | none => .error .phdrTableOutOfBounds
        | some phEnd =>
            if phEnd > bytes.length then .error .phdrTableOutOfBounds
            else do acceptScan eh.entry requiredBase (← planPhdrs bytes eh.phoff eh.phentsize eh.phnum 0 {})

/-- Validates `bytes` as an image that must land at `requiredBase`. -/
def plan (bytes : List UInt8) (requiredBase : Nat) : Outcome Error Plan :=
  if bytes.length < ehdrSize then .error .truncated
  else do
    let eh ← (readInt ehdrSize bytes 0).mapError fun _ => .truncated
    planEhdr bytes (Ehdr.ofBytes eh) requiredBase

/-- The body of the loop of `execute`. -/
def executeSegment (p : Plan) (bytes : List UInt8) (s : Segment) (dest : List UInt8) : Outcome Error (List UInt8) := do
  let off ← subU64 s.paddr p.base
  let file ← slice bytes s.fileOff (← addU64 s.fileOff s.filesz)
  let dest ← memcpy dest off (← addU64 off s.filesz) file
  memset dest (← addU64 off s.filesz) (← addU64 off s.memsz) 0

/-- The loop of `execute`. -/
def executeSegments (p : Plan) (bytes : List UInt8) : List Segment → List UInt8 → Outcome Error (List UInt8)
  | [], dest => .ok dest
  | s :: rest, dest => do executeSegments p bytes rest (← executeSegment p bytes s dest)

/-- Copies the file bytes and zeroes the tails; `dest` starts at the base of the plan. -/
def execute (p : Plan) (bytes dest : List UInt8) : Outcome Error (List UInt8) := executeSegments p bytes p.segments dest

/-- An image with one executable segment of 140 bytes, of which the file backs the first 124. -/
def sampleImage : List UInt8 :=
  let le (n v : Nat) : List UInt8 := (List.range n).map (LittleEndian.encode v)
  [0x7f, 0x45, 0x4c, 0x46, 2, 1, 1, 0, 0, 0, 0, 0, 0, 0, 0, 0] ++ le 2 etExec ++ le 2 emX8664 ++ le 4 1 ++
    le 8 0x200078 ++ le 8 ehdrSize ++ le 8 0 ++ le 4 0 ++ le 2 ehdrSize ++ le 2 phdrSize ++ le 2 1 ++ le 6 0 ++
    le 4 ptLoad ++ le 4 (pfR ||| pfX) ++ le 8 0 ++ le 8 0x200000 ++ le 8 0x200000 ++ le 8 124 ++ le 8 140 ++ le 8 0x1000 ++
    [0x90, 0x90, 0x0f, 0x0b]

/-- The plan of that image. -/
def samplePlan : Plan :=
  { entry := 0x200078, base := 0x200000, stop := 0x20008c, span := 140
    segments := [{ paddr := 0x200000, fileOff := 0, filesz := 124, memsz := 140, stop := 0x20008c, flags := 5 }] }

example : plan sampleImage 0x200000 = .ok samplePlan := by decide +kernel

end Elf64

end Boot
