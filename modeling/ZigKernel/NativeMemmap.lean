import ZigKernel.LibSpans
import ZigKernel.NativeBootInfo

/-! `src/native/memmap.zig`: the firmware's memory descriptors become the range map of the handoff, with the
owned spans carved out of them. A scratch array with its count (`pieces[0..pc]`, `new_pieces[0..next]`) and
the output (`storage[0..n]`) are lists; what a failing call has already stored is not looked at. -/

namespace Native

open Zig

namespace Memmap

def page : Nat := 4096

/-- Scratch fragment ceiling per descriptor. -/
def maxPieces : Nat := 32

structure Desc where
  start : Nat
  pages : Nat
  kind : RangeKind
  deriving DecidableEq, Repr

/-- `size` is a page multiple; zero-size spans are skipped. -/
abbrev Span : Type := Spans.Span RangeKind

inductive Error where
  | capacity | addressOverflow | misaligned | fragmentCapacity
  deriving DecidableEq, Repr

/-- Adds a range to `storage`, which has room for `capacity`. -/
def emit (capacity : Nat) (storage : List Range) (start stop : Nat) (kind : RangeKind) : Outcome Error (List Range) :=
  if stop ≤ start then .ok storage
  else if storage.length ≥ capacity then .error .capacity
  else do
    let bytes ← subU64 stop start
    return storage ++ [{ physStart := start, pageCount := bytes / page, kind }]

/-- `if (next >= new_pieces.len) return error.FragmentCapacity;` -/
def room (newPieces : List Span) : Outcome Error Unit :=
  if newPieces.length ≥ maxPieces then .error .fragmentCapacity else .ok ()

/-- The part of `p` in front of `o`. -/
def splitFront (o : Span) (newPieces : List Span) (p : Span) : Outcome Error (List Span) :=
  if o.base > p.base then do
    room newPieces
    let size ← subU64 o.base p.base
    return newPieces ++ [{ base := p.base, size, kind := p.kind }]
  else return newPieces

/-- The part of `p` behind `o`. -/
def splitBack (oEnd pEnd : Nat) (newPieces : List Span) (p : Span) : Outcome Error (List Span) :=
  if oEnd < pEnd then do
    room newPieces
    let size ← subU64 pEnd oEnd
    return newPieces ++ [{ base := oEnd, size, kind := p.kind }]
  else return newPieces

/-- The body of the piece loop. -/
def splitPiece (o : Span) (oEnd : Nat) (newPieces : List Span) (p : Span) : Outcome Error (List Span) := do
  let pEnd ← addU64 p.base p.size
  if oEnd ≤ p.base ∨ o.base ≥ pEnd then do
    room newPieces
    return newPieces ++ [p]
  else do
    let newPieces ← splitFront o newPieces p
    room newPieces
    let size ← subU64 (min oEnd pEnd) (max o.base p.base)
    splitBack oEnd pEnd (newPieces ++ [{ base := max o.base p.base, size, kind := o.kind }]) p

/-- The piece loop. -/
def splitPieces (o : Span) (oEnd : Nat) : List Span → List Span → Outcome Error (List Span)
  | [], newPieces => .ok newPieces
  | p :: rest, newPieces => do splitPieces o oEnd rest (← splitPiece o oEnd newPieces p)

/-- The loop over the owned spans. -/
def carve : List Span → List Span → Outcome Error (List Span)
  | [], pieces => .ok pieces
  | o :: rest, pieces =>
      if o.size = 0 then carve rest pieces
      else if o.base % page ≠ 0 ∨ o.size % page ≠ 0 then .error .misaligned
      else
        match mathAdd o.base o.size with
        | none => .error .addressOverflow
        | some oEnd => do carve rest (← splitPieces o oEnd pieces [])

/-- The loop that emits the pieces. -/
def emitPieces (capacity : Nat) : List Span → List Range → Outcome Error (List Range)
  | [], storage => .ok storage
  | p :: rest, storage => do
      let pEnd ← addU64 p.base p.size
      emitPieces capacity rest (← emit capacity storage p.base pEnd p.kind)

/-- The body of the descriptor loop. -/
def normalizeDesc (owned : List Span) (capacity : Nat) (d : Desc) (storage : List Range) : Outcome Error (List Range) :=
  if d.pages = 0 then .ok storage
  else if d.start % page ≠ 0 then .error .misaligned
  else
    match mathMul d.pages page with
    | none => .error .addressOverflow
    | some bytes =>
        match mathAdd d.start bytes with
        | none => .error .addressOverflow
        | some dEnd => do
            let size ← subU64 dEnd d.start
            let pieces ← carve owned [{ base := d.start, size, kind := d.kind }]
            emitPieces capacity pieces storage

/-- The descriptor loop. -/
def normalizeDescs (owned : List Span) (capacity : Nat) : List Desc → List Range → Outcome Error (List Range)
  | [], storage => .ok storage
  | d :: rest, storage => do normalizeDescs owned capacity rest (← normalizeDesc owned capacity d storage)

/-- Normalizes `descs`; the result is `storage[0..n]`. -/
def normalize (descs : List Desc) (owned : List Span) (capacity : Nat) : Outcome Error (List Range) :=
  normalizeDescs owned capacity descs []

/-- Two owned spans in one descriptor. -/
example : normalize [⟨0, 0x100, .conventional⟩] [⟨0x10000, 0x10000, .kernelStack⟩, ⟨0x40000, 0x20000, .initramfs⟩] 8 =
    .ok [⟨0, 0x10, .conventional⟩, ⟨0x10000, 0x10, .kernelStack⟩, ⟨0x20000, 0x20, .conventional⟩,
      ⟨0x40000, 0x20, .initramfs⟩, ⟨0x60000, 0xa0, .conventional⟩] := by
  decide +kernel

end Memmap

end Native
