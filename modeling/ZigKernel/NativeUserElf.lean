import ZigKernel.LangInt
import ZigKernel.LibLittleEndian

/-! `src/arch/x86_64/native/user_elf.zig`: the load plan of a static user image. The segments of a
plan are `segments[0..segment_count]`. -/

namespace Native

open Zig

namespace UserElf

def page : Nat := 4096
def maxInput : Nat := 64 * 1024 * 1024
def maxPhdrs : Nat := 64
def maxLoads : Nat := 8
def maxImageSpan : Nat := 32 * 1024 * 1024
def maxMappedPages : Nat := 8192
def imageLo : Nat := 0x40000000
def imageHi : Nat := 0x60000000
def ehdrSize : Nat := 64
def phdrSize : Nat := 56

def elfclass64 : UInt8 := 2
def elfdata2lsb : UInt8 := 1
def evCurrent : UInt8 := 1
def elfosabiNone : UInt8 := 0
def etExec : Nat := 2
def emX8664 : Nat := 62

def ptNull : Nat := 0
def ptLoad : Nat := 1
def ptNote : Nat := 4
def ptGnuStack : Nat := 0x6474e551

def pfX : Nat := 1
def pfW : Nat := 2
def pfR : Nat := 4
def pfMask : Nat := pfR ||| pfW ||| pfX

inductive Error where
  | inputTooLarge | truncated | badMagic | badClass | badEndian | badVersion | badOsAbi | badAbiVersion | badType
  | badMachine | badFlags | badHeaderSize | badPhdrSize | tooManyPhdrs | phdrTableOutOfBounds | unsupportedPhdr
  | duplicateGnuStack | executableStack | noLoadSegments | tooManyLoads | zeroMemsz | fileszExceedsMemsz
  | segmentFileOverflow | segmentAddressOverflow | badAlign | badSegmentFlags | noRead | writeExecute
  | imageOutOfRange | pageOverlap | imageSpanTooLarge | tooManyPages | entryNotFileBacked
  deriving DecidableEq, Repr

structure Segment where
  fileOff : Nat
  filesz : Nat
  vaddr : Nat
  memsz : Nat
  flags : Nat
  byteEnd : Nat
  mapStart : Nat
  mapEnd : Nat
  deriving DecidableEq, Repr

structure Plan where
  entry : Nat
  segments : List Segment
  deriving DecidableEq, Repr

/-- The fields of a program header that `appendLoad` reads. -/
structure LoadFields where
  offset : Nat
  vaddr : Nat
  filesz : Nat
  memsz : Nat
  flags : Nat
  align : Nat
  deriving DecidableEq, Repr

/-- `bytes[i]`, behind a bounds check. -/
def byteAt (bytes : List UInt8) (i : Nat) : UInt8 := bytes.getD i 0

/-- An `n`-byte integer at `off`. -/
def readInt (n : Nat) (bytes : List UInt8) (off : Nat) : Outcome Error Nat :=
  match mathAdd off n with
  | none => .error .truncated
  | some stop =>
      if stop > bytes.length then .error .truncated
      else .ok (LittleEndian.decode (fun i => byteAt bytes (off + i)) n)

def checkFileRange (bytes : List UInt8) (offset filesz : Nat) : Outcome Error Unit :=
  match mathAdd offset filesz with
  | none => .error .segmentFileOverflow
  | some stop => if stop > bytes.length then .error .segmentFileOverflow else .ok ()

def alignUpPage (addr : Nat) : Outcome Error Nat :=
  match mathAdd addr (page - 1) with
  | none => .error .segmentAddressOverflow
  | some sum => .ok (sum &&& notU64 (page - 1))

/-- `std.math.isPowerOfTwo` -/
def isPowerOfTwo (n : Nat) : Bool := n &&& (n - 1) = 0

/-- The end of `appendLoad`, from the page rounding on. -/
def placeLoad (result : Plan) (ph : LoadFields) (byteEnd : Nat) : Outcome Error Plan := do
  let mapStart := ph.vaddr &&& notU64 (page - 1)
  let mapEnd ← alignUpPage byteEnd
  if ph.vaddr < imageLo ∨ byteEnd > imageHi ∨ mapStart < imageLo ∨ mapEnd > imageHi then .error .imageOutOfRange
  else if result.segments.length ≥ maxLoads then .error .tooManyLoads
  else
    return { result with
      segments := result.segments ++
        [{ fileOff := ph.offset, filesz := ph.filesz, vaddr := ph.vaddr, memsz := ph.memsz, flags := ph.flags,
           byteEnd, mapStart, mapEnd }] }

def appendLoad (result : Plan) (bytes : List UInt8) (ph : LoadFields) : Outcome Error Plan :=
  if ph.memsz = 0 then .error .zeroMemsz
  else if ph.filesz > ph.memsz then .error .fileszExceedsMemsz
  else do
    checkFileRange bytes ph.offset ph.filesz
    match mathAdd ph.vaddr ph.memsz with
    | none => .error .segmentAddressOverflow
    | some byteEnd =>
        if ph.flags &&& notU32 pfMask ≠ 0 then .error .badSegmentFlags
        else if ph.flags &&& pfR = 0 then .error .noRead
        else if ph.flags &&& pfW ≠ 0 ∧ ph.flags &&& pfX ≠ 0 then .error .writeExecute
        else if ph.align > 1 ∧ ¬isPowerOfTwo ph.align then .error .badAlign
        else if ph.align > 1 ∧ ph.vaddr % ph.align ≠ ph.offset % ph.align then .error .badAlign
        else placeLoad result ph byteEnd

/-- The program header at `phOff`; `p_paddr` is read and ignored. -/
structure Phdr where
  type : Nat
  flags : Nat
  offset : Nat
  vaddr : Nat
  filesz : Nat
  memsz : Nat
  align : Nat
  deriving DecidableEq, Repr

def readPhdr (bytes : List UInt8) (phOff : Nat) : Outcome Error Phdr := do
  let type ← readInt 4 bytes (← addU64 phOff 0)
  let flags ← readInt 4 bytes (← addU64 phOff 4)
  let offset ← readInt 8 bytes (← addU64 phOff 8)
  let vaddr ← readInt 8 bytes (← addU64 phOff 16)
  let _paddr ← readInt 8 bytes (← addU64 phOff 24)
  let filesz ← readInt 8 bytes (← addU64 phOff 32)
  let memsz ← readInt 8 bytes (← addU64 phOff 40)
  let align ← readInt 8 bytes (← addU64 phOff 48)
  return { type, flags, offset, vaddr, filesz, memsz, align }

/-- The switch over the type of a program header. -/
def takePhdr (bytes : List UInt8) (ph : Phdr) (result : Plan) (seenGnuStack : Bool) :
    Outcome Error (Plan × Bool) :=
  if ph.type = ptNull ∨ ph.type = ptNote then do
    checkFileRange bytes ph.offset ph.filesz
    return (result, seenGnuStack)
  else if ph.type = ptGnuStack then
    if seenGnuStack then .error .duplicateGnuStack
    else if ph.flags &&& pfX ≠ 0 then .error .executableStack
    else do
      checkFileRange bytes ph.offset ph.filesz
      return (result, true)
  else if ph.type = ptLoad then do
    let result ← appendLoad result bytes
      { offset := ph.offset, vaddr := ph.vaddr, filesz := ph.filesz, memsz := ph.memsz, flags := ph.flags,
        align := ph.align }
    return (result, seenGnuStack)
  else .error .unsupportedPhdr

/-- The program header loop, with `left` headers to go from index `i`. -/
def planPhdrs (bytes : List UInt8) (phoff : Nat) : (left i : Nat) → Plan → Bool → Outcome Error Plan
  | 0, _, result, _ => .ok result
  | left + 1, i, result, seenGnuStack => do
      let phOff ← addU64 phoff (← mulU64 i phdrSize)
      let ph ← readPhdr bytes phOff
      let (result, seenGnuStack) ← takePhdr bytes ph result seenGnuStack
      planPhdrs bytes phoff left (i + 1) result seenGnuStack

def overlapsAny (a : Segment) : List Segment → Bool
  | [] => false
  | b :: rest => if a.mapStart < b.mapEnd ∧ b.mapStart < a.mapEnd then true else overlapsAny a rest

def rejectPageOverlap : List Segment → Outcome Error Unit
  | [] => .ok ()
  | a :: rest => if overlapsAny a rest then .error .pageOverlap else rejectPageOverlap rest

/-- The loop of `rejectImageBudget`: the lowest start, the highest end and the sum of the pages. -/
def imageBudget : List Segment → (lowest highest pages : Nat) → Outcome Error (Nat × Nat × Nat)
  | [], lowest, highest, pages => .ok (lowest, highest, pages)
  | s :: rest, lowest, highest, pages => do
      let span ← subU64 s.mapEnd s.mapStart
      let pages ← addU64 pages (span / page)
      imageBudget rest (min lowest s.mapStart) (max highest s.mapEnd) pages

def rejectImageBudget (segs : List Segment) : Outcome Error Unit := do
  let (lowest, highest, pages) ← imageBudget segs maxU64 0 0
  let span ← subU64 highest lowest
  if span > maxImageSpan then .error .imageSpanTooLarge
  else if pages > maxMappedPages then .error .tooManyPages
  else .ok ()

def requireExecutableFileEntry (entry : Nat) : List Segment → Outcome Error Unit
  | [] => .error .entryNotFileBacked
  | s :: rest =>
      if s.flags &&& pfX = 0 then requireExecutableFileEntry entry rest
      else do
        let fileVaEnd ← addU64 s.vaddr s.filesz
        if entry ≥ s.vaddr ∧ entry < fileVaEnd then .ok () else requireExecutableFileEntry entry rest

/-- The checks of `plan` behind the program header loop. -/
def acceptPlan (result : Plan) : Outcome Error Plan :=
  if result.segments.length = 0 then .error .noLoadSegments
  else do
    rejectPageOverlap result.segments
    rejectImageBudget result.segments
    requireExecutableFileEntry result.entry result.segments
    return result

structure Ehdr where
  type : Nat
  machine : Nat
  version : Nat
  entry : Nat
  phoff : Nat
  flags : Nat
  ehsize : Nat
  phentsize : Nat
  phnum : Nat
  deriving DecidableEq, Repr

def readEhdr (bytes : List UInt8) : Outcome Error Ehdr := do
  let type ← readInt 2 bytes 16
  let machine ← readInt 2 bytes 18
  let version ← readInt 4 bytes 20
  let entry ← readInt 8 bytes 24
  let phoff ← readInt 8 bytes 32
  let flags ← readInt 4 bytes 48
  let ehsize ← readInt 2 bytes 52
  let phentsize ← readInt 2 bytes 54
  let phnum ← readInt 2 bytes 56
  return { type, machine, version, entry, phoff, flags, ehsize, phentsize, phnum }

/-- The checks of `plan` from the fields of the ELF header on. -/
def planEhdr (bytes : List UInt8) (e : Ehdr) : Outcome Error Plan :=
  if e.type ≠ etExec then .error .badType
  else if e.machine ≠ emX8664 then .error .badMachine
  else if e.version ≠ 1 then .error .badVersion
  else if e.flags ≠ 0 then .error .badFlags
  else if e.ehsize ≠ ehdrSize then .error .badHeaderSize
  else if e.phentsize ≠ phdrSize then .error .badPhdrSize
  else if e.phnum = 0 then .error .noLoadSegments
  else if e.phnum > maxPhdrs then .error .tooManyPhdrs
  else
    match mathMul e.phentsize e.phnum with
    | none => .error .phdrTableOutOfBounds
    | some tableBytes =>
        match mathAdd e.phoff tableBytes with
        | none => .error .phdrTableOutOfBounds
        | some tableEnd =>
            if tableEnd > bytes.length then .error .phdrTableOutOfBounds
            else do acceptPlan (← planPhdrs bytes e.phoff e.phnum 0 { entry := e.entry, segments := [] } false)

/-- Validates `bytes` as a strict static user image. -/
def plan (bytes : List UInt8) : Outcome Error Plan :=
  if bytes.length > maxInput then .error .inputTooLarge
  else if bytes.length < ehdrSize then .error .truncated
  else if bytes.take 4 ≠ [0x7f, 0x45, 0x4c, 0x46] then .error .badMagic
  else if byteAt bytes 4 ≠ elfclass64 then .error .badClass
  else if byteAt bytes 5 ≠ elfdata2lsb then .error .badEndian
  else if byteAt bytes 6 ≠ evCurrent then .error .badVersion
  else if byteAt bytes 7 ≠ elfosabiNone then .error .badOsAbi
  else if byteAt bytes 8 ≠ 0 then .error .badAbiVersion
  else do planEhdr bytes (← readEhdr bytes)

/-- An image with one executable segment of two pages, of which the file backs the first 124 bytes. -/
def sampleImage : List UInt8 :=
  let le (n v : Nat) : List UInt8 := (List.range n).map (LittleEndian.encode v)
  [0x7f, 0x45, 0x4c, 0x46, 2, 1, 1, 0, 0, 0, 0, 0, 0, 0, 0, 0] ++ le 2 etExec ++ le 2 emX8664 ++ le 4 1 ++
    le 8 0x40000078 ++ le 8 ehdrSize ++ le 8 0 ++ le 4 0 ++ le 2 ehdrSize ++ le 2 phdrSize ++ le 2 1 ++ le 6 0 ++
    le 4 ptLoad ++ le 4 (pfR ||| pfX) ++ le 8 0 ++ le 8 imageLo ++ le 8 0 ++ le 8 124 ++ le 8 8000 ++ le 8 page ++
    [0x90, 0x90, 0x0f, 0x0b]

example : plan sampleImage =
    .ok { entry := 0x40000078
          segments := [{ fileOff := 0, filesz := 124, vaddr := imageLo, memsz := 8000, flags := 5,
                         byteEnd := 0x40001f40, mapStart := imageLo, mapEnd := 0x40002000 }] } := by
  decide +kernel

end UserElf

end Native
