import ZigKernel.NativeUserElf

/-! `src/arch/x86_64/native/user_vm.zig`: construction and teardown of a private user address space
over a caller's provider. The provider's state and the bytes it gives out are a world of its own; the
core reaches the bytes of a frame only through a pointer that `pageBytes` returned just before. -/

namespace Native

open Zig

namespace UserVm

def page : Nat := 4096
def physTop : Nat := 256 * 1024 * 1024

def maxImagePages : Nat := 8192
def maxStackPages : Nat := 16
def maxImagePts : Nat := 17
def maxStackPts : Nat := 1
def maxRootTables : Nat := 3
def maxTableFrames : Nat := maxRootTables + maxImagePts + maxStackPts
def maxOwnedFrames : Nat := maxImagePages + maxStackPages + maxTableFrames

def stackTop : Nat := 0x7fffe000
def stackLo : Nat := 0x7ffee000

def pteP : Nat := 1 <<< 0
def pteW : Nat := 1 <<< 1
def pteU : Nat := 1 <<< 2
def pteA : Nat := 1 <<< 5
def pteD : Nat := 1 <<< 6
def ptePs : Nat := 1 <<< 7
def pteG : Nat := 1 <<< 8
def pteNx : Nat := 1 <<< 63
def pteAddr : Nat := 0x000ffffffffff000
def pteKnown : Nat := pteP ||| pteW ||| pteU ||| pteA ||| pteD ||| ptePs ||| pteG ||| pteNx ||| pteAddr
def cr3Addr : Nat := pteAddr

/-- What a provider's `allocPage` may answer; `other` is an error outside `AllocError`. -/
inductive AllocError where
  | outOfMemory | physicalZero | frameUnaligned | frameOutOfDomain | duplicateFrame | reservedFrame | other
  deriving DecidableEq, Repr

inductive AccessError where
  | pageAccess | physicalZero | frameUnaligned | frameOutOfDomain | notOwnedFrame
  deriving DecidableEq, Repr

inductive Error where
  | elf (e : UserElf.Error)
  | outOfMemory | physicalZero | frameUnaligned | frameOutOfDomain | duplicateFrame | reservedFrame
  | pageAccess | notOwnedFrame
  | invalidState | journalFull | budgetExceeded | mappingConflict | copyFailed | activeRoot | duplicateDestroy
  | releaseFailed | planMismatch | templateNotPresent | templateUser | templateHuge | templateUnaligned
  | templateZero | templateOutOfDomain | templateRoot | reservedBits
  deriving DecidableEq, Repr

inductive State where
  | empty | building | ready | destroyed
  deriving DecidableEq, Repr

inductive RootObservation where
  | inactive
  | cr3 (active : Nat)
  deriving DecidableEq, Repr

structure KernelTemplate where
  rootPhys : U64
  pdpt0Entry : U64
  deriving DecidableEq, Repr

/-- `template.pdpt0_entry & PTE_ADDR` -/
def KernelTemplate.borrowedPd (t : KernelTemplate) : Nat := t.pdpt0Entry.val &&& pteAddr

/-- The bytes of a page by offset; those below 4096 are the page. -/
abbrev Page := Nat → UInt8

def zeroPage : Page := fun _ => 0

/-- A provider with state `ω`. `pageBytes` returns a pointer, through which the world is read and written. -/
structure Provider (ω : Type) where
  allocPage : ω → Except AllocError Nat × ω
  pageBytes : Nat → ω → Except AccessError Nat × ω
  freePage : Nat → ω → Bool × ω
  load : Nat → ω → Page
  store : Nat → Page → ω → ω

structure Journal where
  frames : List Nat
  count : Nat := 0
  deriving DecidableEq, Repr

namespace Journal

def init (storage : List Nat) : Journal := { frames := storage, count := 0 }

/-- `frames[0..count]` -/
def live (j : Journal) : List Nat := j.frames.take j.count

def contains (j : Journal) (phys : Nat) : Bool := j.live.contains phys

def push (j : Journal) (phys : Nat) : Journal :=
  { j with frames := j.frames.set j.count phys, count := j.count + 1 }

end Journal

structure AddressSpace where
  state : State := .empty
  journal : Journal
  rootPhys : Nat := 0
  entry : Nat := 0
  stackTop : Nat := 0
  imagePages : Nat := 0
  stackPages : Nat := 0
  tablePages : Nat := 0
  imagePts : Nat := 0
  stackPts : Nat := 0
  failedReleaseFrame : Nat := 0
  ownsZero : Bool := false
  deriving DecidableEq, Repr

namespace AddressSpace

def init (journal : Journal) : AddressSpace := { journal }

/-- The frames the space owns: the journalled ones, and frame 0 by the flag. -/
def owned (s : AddressSpace) : List Nat := s.journal.live ++ if s.ownsZero then [0] else []

def clearCounts (s : AddressSpace) : AddressSpace :=
  { s with
    imagePages := 0, stackPages := 0, tablePages := 0, imagePts := 0, stackPts := 0, failedReleaseFrame := 0,
    ownsZero := false }

/-- `clearCounts(space)` and the three assignments behind it in every teardown. -/
def cleared (s : AddressSpace) : AddressSpace := { s.clearCounts with rootPhys := 0, entry := 0, stackTop := 0 }

end AddressSpace

/-- A provider's world and the space that is built over it. -/
structure Machine (ω : Type) where
  world : ω
  space : AddressSpace

abbrev Vm (ω α : Type) : Type := Act (Machine ω) Error α

section Provider

variable {ω : Type} (P : Provider ω)

def modifySpace (f : AddressSpace → AddressSpace) : Vm ω Unit := Act.modify fun m => { m with space := f m.space }

def allocPage : Vm ω (Except AllocError Nat) := fun m =>
  (.ok (P.allocPage m.world).1, { m with world := (P.allocPage m.world).2 })

def pageBytes (phys : Nat) : Vm ω (Except AccessError Nat) := fun m =>
  (.ok (P.pageBytes phys m.world).1, { m with world := (P.pageBytes phys m.world).2 })

def freePage (phys : Nat) : Vm ω Bool := fun m =>
  (.ok (P.freePage phys m.world).1, { m with world := (P.freePage phys m.world).2 })

/-- Reads through a pointer. -/
def readPage (ptr : Nat) : Vm ω Page := fun m => (.ok (P.load ptr m.world), m)

/-- Writes through a pointer. -/
def writePage (ptr : Nat) (bytes : Page) : Vm ω Unit := fun m =>
  (.ok (), { m with world := P.store ptr bytes m.world })

end Provider

def mapAllocErr : AllocError → Error
  | .outOfMemory => .outOfMemory
  | .physicalZero => .physicalZero
  | .frameUnaligned => .frameUnaligned
  | .frameOutOfDomain => .frameOutOfDomain
  | .duplicateFrame => .duplicateFrame
  | .reservedFrame => .reservedFrame
  | .other => .outOfMemory

def validateTemplate (t : KernelTemplate) : Outcome Error Unit :=
  if t.rootPhys.val = 0 then .error .templateZero
  else if t.rootPhys.val % page ≠ 0 then .error .templateUnaligned
  else if t.rootPhys.val ≥ physTop then .error .templateOutOfDomain
  else if t.pdpt0Entry.val &&& pteP = 0 then .error .templateNotPresent
  else if t.pdpt0Entry.val &&& pteU ≠ 0 then .error .templateUser
  else if t.pdpt0Entry.val &&& ptePs ≠ 0 then .error .templateHuge
  else if t.borrowedPd = 0 then .error .templateZero
  else if t.borrowedPd % page ≠ 0 then .error .templateUnaligned
  else if t.borrowedPd ≥ physTop then .error .templateOutOfDomain
  else if t.borrowedPd = t.rootPhys.val then .error .templateRoot
  else .ok ()

/-! ### Table entries -/

def pml4Index (va : Nat) : Nat := (va >>> 39) &&& 0x1FF
def pdptIndex (va : Nat) : Nat := (va >>> 30) &&& 0x1FF
def pdIndex (va : Nat) : Nat := (va >>> 21) &&& 0x1FF
def ptIndex (va : Nat) : Nat := (va >>> 12) &&& 0x1FF

def loadU64 (bytes : Page) (index : Nat) : Nat := LittleEndian.load 8 bytes index
def storeU64 (bytes : Page) (index value : Nat) : Page := LittleEndian.store 8 bytes index value

def leafFlags (elfFlags : Nat) : Nat :=
  if elfFlags &&& UserElf.pfW ≠ 0 then pteP ||| pteU ||| (pteW ||| pteNx)
  else if elfFlags &&& UserElf.pfX ≠ 0 then pteP ||| pteU
  else pteP ||| pteU ||| pteNx

section Build

variable {ω : Type} (P : Provider ω)

def writeRaw (table index value : Nat) : Vm ω Unit :=
  if index ≥ 512 then Act.fail .pageAccess
  else do
    match ← pageBytes P table with
    | .error _ => Act.fail .pageAccess
    | .ok ptr => do writePage P ptr (storeU64 (← readPage P ptr) index value)

def readEntry (table index : Nat) : Vm ω Nat :=
  if index ≥ 512 then Act.fail .pageAccess
  else do
    match ← pageBytes P table with
    | .error _ => Act.fail .pageAccess
    | .ok ptr => return loadU64 (← readPage P ptr) index

def writeNew (table index frame flags : Nat) : Vm ω Unit :=
  if frame = 0 then Act.fail .physicalZero
  else if frame % page ≠ 0 then Act.fail .frameUnaligned
  else if frame ≥ physTop then Act.fail .frameOutOfDomain
  else if flags &&& ptePs ≠ 0 then Act.fail .mappingConflict
  else if flags &&& pteG ≠ 0 then Act.fail .reservedBits
  else if (frame ||| flags) &&& notU64 pteKnown ≠ 0 then Act.fail .reservedBits
  else writeRaw P table index (frame ||| flags)

def writeBorrowedPdpt0 (pdpt : Nat) (template : KernelTemplate) : Vm ω Unit := do
  Act.lift (validateTemplate template)
  writeRaw P pdpt 0 template.pdpt0Entry.val

/-- The end of `takeFrame`: a journalled frame is handed out with zero bytes. -/
def zeroFrame (phys : Nat) : Vm ω Nat := do
  match ← pageBytes P phys with
  | .error _ => Act.fail .pageAccess
  | .ok ptr => do
      writePage P ptr zeroPage
      return phys

/-- The middle of `takeFrame`: what the provider returned is refused or journalled. -/
def acceptFrame (template : KernelTemplate) (phys : Nat) : Vm ω Unit := do
  let m ← Act.get
  if phys = 0 then do
    modifySpace fun s => { s with ownsZero := true }
    Act.fail .physicalZero
  else if phys % page ≠ 0 then Act.fail .frameUnaligned
  else if phys ≥ physTop then Act.fail .frameOutOfDomain
  else if m.space.journal.contains phys then Act.fail .duplicateFrame
  else if phys = template.rootPhys.val ∨ phys = template.borrowedPd then Act.fail .reservedFrame
  else modifySpace fun s => { s with journal := s.journal.push phys }

def takeFrame (template : KernelTemplate) : Vm ω Nat := do
  let m ← Act.get
  if m.space.journal.count ≥ m.space.journal.frames.length then Act.fail .journalFull
  else if m.space.journal.count ≥ maxOwnedFrames then Act.fail .budgetExceeded
  else do
    match ← allocPage P with
    | .error err => Act.fail (mapAllocErr err)
    | .ok phys => do
        acceptFrame template phys
        zeroFrame P phys

inductive PtKind where
  | image | stack
  deriving DecidableEq, Repr

/-- `ensurePt` at an absent entry: a new page table, within the budget of its kind. -/
def newPt (pd idx : Nat) (kind : PtKind) (template : KernelTemplate) : Vm ω Nat := do
  let m ← Act.get
  if kind = .image ∧ m.space.imagePts ≥ maxImagePts then Act.fail .budgetExceeded
  else if kind = .stack ∧ m.space.stackPts ≥ maxStackPts then Act.fail .budgetExceeded
  else do
    let pt ← takeFrame P template
    modifySpace fun s => { s with tablePages := s.tablePages + 1 }
    modifySpace fun s =>
      match kind with
      | .image => { s with imagePts := s.imagePts + 1 }
      | .stack => { s with stackPts := s.stackPts + 1 }
    writeNew P pd idx pt (pteP ||| pteW ||| pteU)
    return pt

def ensurePt (pd va : Nat) (kind : PtKind) (template : KernelTemplate) : Vm ω Nat := do
  let cur ← readEntry P pd (pdIndex va)
  if cur &&& pteP ≠ 0 then do
    let m ← Act.get
    if cur &&& ptePs ≠ 0 then Act.fail .mappingConflict
    else if cur &&& pteAddr = 0 then Act.fail .physicalZero
    else if (cur &&& pteAddr) % page ≠ 0 then Act.fail .frameUnaligned
    else if cur &&& pteAddr ≥ physTop then Act.fail .frameOutOfDomain
    else if ¬m.space.journal.contains (cur &&& pteAddr) then Act.fail .reservedFrame
    else return cur &&& pteAddr
  else newPt P pd (pdIndex va) kind template

/-- `@memcpy(page[page_off..][0..len], bytes[file_off..][0..len])` -/
def copyInto (dst : Page) (pageOff : Nat) (src : List UInt8) (fileOff len : Nat) : Page := fun i =>
  if pageOff ≤ i ∧ i < pageOff + len then UserElf.byteAt src (fileOff + (i - pageOff)) else dst i

/-- The checks of `copyFileBytes` behind the empty intersection, and the copy. -/
def copyRange (frame : Nat) (bytes : List UInt8) (fileOff vaOff pageOff len : Nat) : Vm ω Unit :=
  match mathAdd fileOff vaOff with
  | none => Act.fail .copyFailed
  | some off =>
      match mathAdd off len with
      | none => Act.fail .copyFailed
      | some copyEnd =>
          if copyEnd > bytes.length then Act.fail .copyFailed
          else if pageOff + len > page then Act.fail .copyFailed
          else do
            match ← pageBytes P frame with
            | .error _ => Act.fail .copyFailed
            | .ok ptr => do writePage P ptr (copyInto (← readPage P ptr) pageOff bytes off len)

def copyFileBytes (frame : Nat) (bytes : List UInt8) (seg : UserElf.Segment) (pageVa : Nat) : Vm ω Unit :=
  let copyLo := max seg.vaddr pageVa
  let copyHi := min (seg.vaddr + seg.filesz) (pageVa + page)
  if copyLo ≥ copyHi then pure ()
  else copyRange P frame bytes seg.fileOff (copyLo - seg.vaddr) (copyLo - pageVa) (copyHi - copyLo)

/-- The body of the page loop of `mapSegment`. -/
def mapImagePage (pd : Nat) (bytes : List UInt8) (seg : UserElf.Segment) (template : KernelTemplate) (va : Nat) :
    Vm ω Unit :=
  if pml4Index va ≠ 0 ∨ pdptIndex va ≠ 1 then Act.fail (.elf .imageOutOfRange)
  else do
    let pt ← ensurePt P pd va .image template
    let cur ← readEntry P pt (ptIndex va)
    let m ← Act.get
    if cur &&& pteP ≠ 0 then Act.fail .mappingConflict
    else if m.space.imagePages ≥ maxImagePages then Act.fail .budgetExceeded
    else do
      let frame ← takeFrame P template
      modifySpace fun s => { s with imagePages := s.imagePages + 1 }
      copyFileBytes P frame bytes seg va
      writeNew P pt (ptIndex va) frame (leafFlags seg.flags)

/-- The body of the page loop of `mapStack`. -/
def mapStackPage (pd : Nat) (template : KernelTemplate) (va : Nat) : Vm ω Unit :=
  if pml4Index va ≠ 0 ∨ pdptIndex va ≠ 1 then Act.fail (.elf .imageOutOfRange)
  else do
    let pt ← ensurePt P pd va .stack template
    let cur ← readEntry P pt (ptIndex va)
    let m ← Act.get
    if cur &&& pteP ≠ 0 then Act.fail .mappingConflict
    else if m.space.stackPages ≥ maxStackPages then Act.fail .budgetExceeded
    else do
      let frame ← takeFrame P template
      modifySpace fun s => { s with stackPages := s.stackPages + 1 }
      writeNew P pt (ptIndex va) frame (pteP ||| pteU ||| pteW ||| pteNx)

end Build

/-- `while (va < hi) : (va += PAGE)`, in `turns` turns at most; too few of them would be a trap. -/
def eachPage {ω : Type} (hi : Nat) (body : Nat → Vm ω Unit) : (turns va : Nat) → Vm ω Unit
  | 0, va => if va < hi then Act.lift .trap else pure ()
  | turns + 1, va =>
      if va < hi then do
        body va
        eachPage hi body turns (va + page)
      else pure ()

/-- The pages that begin in `[lo, hi)`, counted from `lo`. -/
def pagesIn (lo hi : Nat) : Nat := (hi - lo + (page - 1)) / page

section Construct

variable {ω : Type} (P : Provider ω)

def mapSegment (pd : Nat) (bytes : List UInt8) (template : KernelTemplate) (seg : UserElf.Segment) : Vm ω Unit :=
  if seg.flags &&& UserElf.pfW ≠ 0 ∧ seg.flags &&& UserElf.pfX ≠ 0 then Act.fail (.elf .writeExecute)
  else eachPage seg.mapEnd (mapImagePage P pd bytes seg template) (pagesIn seg.mapStart seg.mapEnd) seg.mapStart

/-- The segment loop of `inner`. -/
def mapSegments (pd : Nat) (bytes : List UInt8) (template : KernelTemplate) : List UserElf.Segment → Vm ω Unit
  | [] => pure ()
  | seg :: rest => do
      mapSegment P pd bytes template seg
      mapSegments pd bytes template rest

def mapStack (pd : Nat) (template : KernelTemplate) : Vm ω Unit :=
  eachPage stackTop (mapStackPage P pd template) (pagesIn stackLo stackTop) stackLo

/-- The part of `inner` in front of the segments: the three top tables. Returns the page directory. -/
def buildRoot (template : KernelTemplate) : Vm ω Nat := do
  let pml4 ← takeFrame P template
  modifySpace fun s => { s with tablePages := s.tablePages + 1, rootPhys := pml4 }
  let pdpt ← takeFrame P template
  modifySpace fun s => { s with tablePages := s.tablePages + 1 }
  writeNew P pml4 0 pdpt (pteP ||| pteW ||| pteU)
  writeBorrowedPdpt0 P pdpt template
  if template.borrowedPd = pdpt ∨ template.borrowedPd = pml4 then Act.fail .reservedFrame
  else do
    let pd ← takeFrame P template
    modifySpace fun s => { s with tablePages := s.tablePages + 1 }
    writeNew P pdpt 1 pd (pteP ||| pteW ||| pteU)
    return pd

def inner (bytes : List UInt8) (plan : UserElf.Plan) (template : KernelTemplate) : Vm ω Unit := do
  let pd ← buildRoot P template
  mapSegments P pd bytes template plan.segments
  mapStack P pd template

/-! ### Release -/

/-- Frame 0 is never looked at. -/
def scrub (phys : Nat) : Vm ω Unit :=
  if phys = 0 then pure ()
  else do
    match ← pageBytes P phys with
    | .error _ => pure ()
    | .ok ptr => writePage P ptr zeroPage

def releasedMark : Nat := 0

/-- `else if (fail == null) fail = phys` -/
def firstFailure (fail : Option Nat) (phys : Nat) : Option Nat :=
  match fail with
  | none => some phys
  | some f => some f

/-- The first loop of `releaseAll`, with the entries below index `i` to go: a freed entry is marked. -/
def releaseFrames : (i : Nat) → Option Nat → Vm ω (Option Nat)
  | 0, fail => pure fail
  | i + 1, fail => do
      let m ← Act.get
      let phys := m.space.journal.frames.getD i 0
      scrub P phys
      if ← freePage P phys then do
        modifySpace fun s => { s with journal := { s.journal with frames := s.journal.frames.set i releasedMark } }
        releaseFrames i fail
      else releaseFrames i (firstFailure fail phys)

/-- The second loop of `releaseAll`, with `left` entries to go from index `r`; the kept ones move down. -/
def compactFrames : (left r w : Nat) → List Nat → List Nat × Nat
  | 0, _, w, frames => (frames, w)
  | left + 1, r, w, frames =>
      if frames.getD r 0 ≠ releasedMark then compactFrames left (r + 1) (w + 1) (frames.set w (frames.getD r 0))
      else compactFrames left (r + 1) w frames

def Journal.compact (j : Journal) : Journal :=
  { frames := (compactFrames j.count 0 0 j.frames).1, count := (compactFrames j.count 0 0 j.frames).2 }

/-- The end of `releaseAll`. -/
def reportRelease (fail : Option Nat) : Vm ω Unit :=
  match fail with
  | some f => do
      modifySpace fun s => { s with failedReleaseFrame := f }
      Act.fail .releaseFailed
  | none => modifySpace fun s => { s with failedReleaseFrame := 0 }

def releaseAll : Vm ω Unit := do
  let m ← Act.get
  let fail ← releaseFrames P m.space.journal.count none
  modifySpace fun s => { s with journal := s.journal.compact }
  let m ← Act.get
  if m.space.ownsZero then do
    if ← freePage P 0 then do
      modifySpace fun s => { s with ownsZero := false }
      reportRelease fail
    else reportRelease (firstFailure fail 0)
  else reportRelease fail

/-- `releaseAll(provider, space) catch { space.state = .destroyed; return error.ReleaseFailed; }` -/
def releaseOrDestroy : Vm ω Unit :=
  (releaseAll P).catchError fun _ => do
    modifySpace fun s => { s with state := .destroyed }
    Act.fail .releaseFailed

/-! ### Calls -/

def constructPlan (bytes : List UInt8) (plan : UserElf.Plan) (template : KernelTemplate) : Vm ω Unit := do
  let m ← Act.get
  if m.space.state ≠ .empty then Act.fail .invalidState
  else if m.space.journal.count ≠ 0 ∨ m.space.ownsZero then Act.fail .invalidState
  else do
    Act.lift (validateTemplate template)
    modifySpace fun s => { s with state := .building }
    (inner P bytes plan template).catchError fun err => do
      releaseOrDestroy P
      modifySpace fun s => { s.cleared with state := .empty }
      Act.fail err
    modifySpace fun s => { s with entry := plan.entry, stackTop := UserVm.stackTop, state := .ready }

def construct (bytes : List UInt8) (template : KernelTemplate) : Vm ω Unit := do
  let plan ← Act.lift ((UserElf.plan bytes).mapError .elf)
  constructPlan P bytes plan template

end Construct

/-- The comparison of two segments in `plansEqual`. -/
def sameSegment (x y : UserElf.Segment) : Bool :=
  x.fileOff = y.fileOff ∧ x.filesz = y.filesz ∧ x.vaddr = y.vaddr ∧ x.memsz = y.memsz ∧ x.flags = y.flags ∧
    x.byteEnd = y.byteEnd ∧ x.mapStart = y.mapStart ∧ x.mapEnd = y.mapEnd

def sameSegments : List UserElf.Segment → List UserElf.Segment → Bool
  | x :: xs, y :: ys => sameSegment x y && sameSegments xs ys
  | _, _ => true

def plansEqual (a b : UserElf.Plan) : Bool :=
  if a.entry ≠ b.entry then false
  else if a.segments.length ≠ b.segments.length then false
  else sameSegments a.segments b.segments

section Calls

variable {ω : Type} (P : Provider ω)

def constructClaimedPlan (bytes : List UInt8) (claimed : UserElf.Plan) (template : KernelTemplate) : Vm ω Unit := do
  let plan ← Act.lift ((UserElf.plan bytes).mapError .elf)
  if ¬plansEqual plan claimed then Act.fail .planMismatch else constructPlan P bytes plan template

def cr3Root (cr3 : Nat) : Nat := cr3 &&& cr3Addr

/-- The observed root is the root of the space. -/
def isActive (s : AddressSpace) : RootObservation → Bool
  | .inactive => false
  | .cr3 active => s.rootPhys ≠ 0 ∧ cr3Root active = s.rootPhys

def destroy (obs : RootObservation) : Vm ω Unit := do
  let m ← Act.get
  match m.space.state with
  | .empty => Act.fail .invalidState
  | .destroyed => Act.fail .duplicateDestroy
  | .building | .ready =>
      if isActive m.space obs then Act.fail .activeRoot
      else do
        releaseOrDestroy P
        modifySpace fun s => { s.cleared with state := .destroyed }

def retryRelease : Vm ω Unit := do
  let m ← Act.get
  if m.space.state ≠ .destroyed then Act.fail .invalidState
  else if m.space.journal.count = 0 ∧ ¬m.space.ownsZero then pure ()
  else do
    (releaseAll P).orFail .releaseFailed
    modifySpace AddressSpace.cleared

def reset : Vm ω Unit := do
  let m ← Act.get
  if m.space.state ≠ .destroyed then Act.fail .invalidState
  else if m.space.journal.count ≠ 0 ∨ m.space.ownsZero then Act.fail .invalidState
  else modifySpace fun s => { s.cleared with state := .empty }

end Calls

/-! ### A provider -/

/-- Frames from `next` on, with their bytes. -/
structure Arena where
  next : Nat
  memory : Nat → Page

/-- Hands out one frame after the other, and takes every frame back. -/
def bump : Provider Arena where
  allocPage w := (.ok w.next, { w with next := w.next + page })
  pageBytes phys w := (.ok phys, w)
  freePage _ w := (true, w)
  load ptr w := w.memory ptr
  store ptr bytes w := { w with memory := fun p => if p = ptr then bytes else w.memory p }

def sampleTemplate : KernelTemplate := { rootPhys := 0x1000, pdpt0Entry := 0x2003 }

/-- An empty space, with room for 64 frames, over frames that hold other data. -/
def sampleMachine : Machine Arena where
  world := { next := 0x100000, memory := fun _ _ => 0xa5 }
  space := AddressSpace.init (Journal.init (List.replicate 64 0))

end UserVm

end Native
