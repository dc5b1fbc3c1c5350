import ZigKernel.LibRuns
import ZigKernel.NativeBootInfo

/-! `src/arch/x86_64/native/pmm.zig`: the page allocator. Its globals are one state. The free stack
`backing[0..free_count]` is a list with its top in front; the entries of `backing` above the top are
never read before they are written again. -/

namespace Native

open Zig

def page : Nat := 4096
def managedTop : Nat := 256 * 1024 * 1024
/-- `BACKING_LIMIT` -/
def managedPages : Nat := managedTop / page

structure Pmm where
  freeStack : List Nat := []
  totalPages : Nat := 0
  usedPages : Nat := 0
  unmanagedPages : Nat := 0
  excludedPages : Nat := 0
  initialized : Bool := false
  cached : Option BootInfo := none

namespace Pmm

structure Stats where
  total : Nat
  free : Nat
  used : Nat
  unmanaged : Nat
  excluded : Nat
  deriving DecidableEq, Repr

inductive InitError where
  | badBootInfo | misalignedRange | rangeOverflow | tooManyPages
  deriving DecidableEq, Repr

def rangeUsable (r : Range) : Bool := r.kind = .conventional ∧ r.pageCount > 0

/-- `reset` -/
def empty : Pmm := {}

/-- The locals of `init`: what has been pushed on `backing`, and the three counts. -/
structure Tally where
  pages : List Nat := []
  total : Nat := 0
  unmanaged : Nat := 0
  excluded : Nat := 0
  deriving DecidableEq, Repr

/-- `math.add(u64, a, b) catch return error.RangeOverflow` -/
def addOrOverflow (a b : Nat) : Outcome InitError Nat :=
  match mathAdd a b with
  | some n => .ok n
  | none => .error .rangeOverflow

/-- `math.mul(u64, a, b) catch return error.RangeOverflow` -/
def mulOrOverflow (a b : Nat) : Outcome InitError Nat :=
  match mathMul a b with
  | some n => .ok n
  | none => .error .rangeOverflow

/-- The page loop of `init`, with `left` pages to go from index `i`. -/
def pushPages (physStart : Nat) : (left i : Nat) → List Nat → Outcome InitError (List Nat)
  | 0, _, pages => .ok pages
  | left + 1, i, pages =>
      if pages.length ≥ managedPages then .error .tooManyPages
      else pushPages physStart left (i + 1) ((physStart + i * page) :: pages)

/-- The body of the range loop of `init`. -/
def tallyRange (t : Tally) (r : Range) : Outcome InitError Tally :=
  if r.pageCount = 0 then .error .badBootInfo
  else if ¬rangeUsable r then do
    let excluded ← addOrOverflow t.excluded r.pageCount
    return { t with excluded }
  else if r.physStart % page ≠ 0 then .error .misalignedRange
  else do
    let bytes ← mulOrOverflow r.pageCount page
    let stop ← addOrOverflow r.physStart bytes
    if r.physStart ≥ managedTop then do
      let unmanaged ← addOrOverflow t.unmanaged r.pageCount
      return { t with unmanaged }
    else do
      let firstEnd := min stop managedTop
      let managedN := (firstEnd - r.physStart) / page
      let unmanaged ← addOrOverflow t.unmanaged (r.pageCount - managedN)
      let pages ← pushPages r.physStart managedN 0 t.pages
      let total ← addOrOverflow t.total managedN
      return { t with pages, total, unmanaged }

def tallyRanges : Tally → List Range → Outcome InitError Tally
  | t, [] => .ok t
  | t, r :: rest => do tallyRanges (← tallyRange t r) rest

/-- Publishes accounting only on full success. -/
def init (info : BootInfo) : Act Pmm InitError Unit := do
  Act.modify fun _ => empty
  (Act.lift info.validate).orFail .badBootInfo
  let t ← Act.lift (tallyRanges {} info.ranges)
  Act.modify fun _ =>
    { freeStack := t.pages
      totalPages := t.total
      unmanagedPages := t.unmanaged
      excludedPages := t.excluded
      usedPages := 0
      cached := some info
      initialized := true }

/-- Page-aligned and inside the managed domain. -/
def inManagedDomain (paddr : Nat) : Bool := paddr % page = 0 ∧ paddr < managedTop

/-- The range loop of `isAllocatable`. -/
def usableAt (paddr : Nat) : List Range → Bool
  | [] => false
  | r :: rest =>
      match mathMul r.pageCount page with
      | none => false
      | some bytes =>
          match mathAdd r.physStart bytes with
          | none => false
          | some stop => if paddr ≥ r.physStart ∧ paddr < stop then rangeUsable r else usableAt paddr rest

/-- Boot eligibility of a page: conventional in the cached map. -/
def isAllocatable (s : Pmm) (paddr : Nat) : Bool :=
  if ¬inManagedDomain paddr then false
  else
    match s.cached with
    | none => false
    | some info => usableAt paddr info.ranges

def allocPage (s : Pmm) : Option Nat × Pmm :=
  if ¬s.initialized then (none, s)
  else
    match s.freeStack with
    | [] => (none, s)
    | top :: rest => (some top, { s with freeStack := rest, usedPages := s.usedPages + 1 })

/-- True on acceptance, and no change otherwise. -/
def freePage (s : Pmm) (paddr : Nat) : Bool × Pmm :=
  if ¬s.initialized then (false, s)
  else if ¬s.isAllocatable paddr then (false, s)
  else if s.freeStack.contains paddr then (false, s)
  else if s.freeStack.length ≥ managedPages then (false, s)
  else
    (true,
      { s with
        freeStack := paddr :: s.freeStack
        usedPages := if s.usedPages > 0 then s.usedPages - 1 else s.usedPages })

def stats (s : Pmm) : Stats where
  total := s.totalPages
  free := s.freeStack.length
  used := s.usedPages
  unmanaged := s.unmanagedPages
  excluded := s.excludedPages

/-! ### Calls -/

inductive Call where
  | alloc (reply : Option Nat)
  | free (paddr : Nat) (reply : Bool)
  deriving DecidableEq, Repr

/-- The allocator takes a call. -/
inductive Step (s : Pmm) : Call → Pmm → Prop where
  | alloc : Step s (.alloc s.allocPage.1) s.allocPage.2
  | free (paddr : Nat) : Step s (.free paddr (s.freePage paddr).1) (s.freePage paddr).2

abbrev Run := Runs.Run Step

/-- The pages handed out and not taken back, by the replies of the calls. -/
def heldAfter (held : List Nat) : Call → List Nat
  | .alloc (some p) => p :: held
  | .free p true => held.erase p
  | _ => held

def held (trace : List Call) : List Nat := trace.foldl heldAfter []

/-! ### The frames of a map -/

/-- A page frame of conventional memory below the ceiling. -/
def Frame (info : BootInfo) (p : Nat) : Prop :=
  p % page = 0 ∧ p < managedTop ∧ ∃ r ∈ info.ranges, r.kind = .conventional ∧ r.Contains p

/-- The pages of a range that `init` pushes, in the order of the pushes. -/
def rangeFrames (r : Range) : List Nat :=
  if r.kind = .conventional ∧ r.physStart < managedTop then
    (List.range ((min r.stop managedTop - r.physStart) / page)).map fun i => r.physStart + i * page
  else []

end Pmm

end Native
