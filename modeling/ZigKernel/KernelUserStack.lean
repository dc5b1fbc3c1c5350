import Mathlib.Data.List.Forall2
import ZigKernel.LangSlice
import ZigKernel.LibLittleEndian

/-! The first stack of a program, `src/proc/userstack.zig`: the strings of `argv` and `envp` at the high end of a buffer,
growing down, and below them the table of their addresses, whose start lies 8 behind a multiple of 16. -/

namespace Kernel.UserStack

open Zig

abbrev Bytes := List UInt8

inductive BuildError where
  | tooManyArgs
  | argTooLong
  | noSpace
  deriving DecidableEq

def maxArgs : Nat := 64
def maxArgLen : Nat := 4096

/-- `AT_PAGESZ`, `AT_UID`, `AT_EUID`, `AT_GID` and `AT_EGID` with their values. -/
def auxv : List (Nat × Nat) := [(6, 4096), (11, 1000), (12, 1000), (13, 1000), (14, 1000)]

/-- The eight stores of `writeU64`. -/
def writeU64 (buf : Bytes) (pos v : Nat) : Outcome BuildError Bytes := memcpy buf pos (pos + 8) (LittleEndian.toBytes 8 v)

/-- The loop of `readU64` from byte `i` on. -/
def readFrom (buf : Bytes) (pos : Nat) : Nat → Nat → Nat → Outcome BuildError Nat
  | 0, _, v => pure v
  | left + 1, i, v => do
      let b ← index buf (pos + i)
      readFrom buf pos left (i + 1) (v ||| b.toNat <<< (i * 8))

def readU64 (buf : Bytes) (pos : Nat) : Outcome BuildError Nat := readFrom buf pos 8 0 0

/-- The loop that adds up the lengths. -/
def totalLength : List Bytes → Nat → Outcome BuildError Nat
  | [], total => pure total
  | a :: rest, total =>
      if a.length > maxArgLen then .error .argTooLong
      else do
        let total ← addU64 total (a.length + 1)
        totalLength rest total

/-- The loop that copies strings to below `off`: their addresses, the place of the last one and the buffer. -/
def placeStrings (spBase : Nat) : List Bytes → Nat → Bytes → Outcome BuildError (List Nat × Nat × Bytes)
  | [], off, buf => pure ([], off, buf)
  | a :: rest, off, buf => do
      let off ← subU64 off (a.length + 1)
      let buf ← memcpy buf off (off + a.length) a
      let buf ← memset buf (off + a.length) (off + a.length + 1) 0
      let addr ← addU64 spBase off
      let (addrs, off, buf) ← placeStrings spBase rest off buf
      pure (addr :: addrs, off, buf)

/-- Words one behind the other: the place behind them and the buffer. -/
def writeWords : List Nat → Nat → Bytes → Outcome BuildError (Nat × Bytes)
  | [], pos, buf => pure (pos, buf)
  | v :: rest, pos, buf => do
      let buf ← writeU64 buf pos v
      let pos ← addU64 pos 8
      writeWords rest pos buf

/-- The number of words of the table. -/
def nptr (argv envp : List Bytes) : Nat := 1 + (argv.length + 1) + (envp.length + 1) + 2 * 5 + 2

/-- Where the table starts under strings that start at `off`. -/
def tableStart (off words : Nat) : Outcome BuildError Nat := do
  let tab ← subU64 (off &&& notU64 15) 8
  let tab := if tab > off then off else tab
  let tab ← subU64 tab (words * 8)
  addU64 (tab &&& notU64 15) 8

/-- `build`: the stack pointer and the buffer. An error leaves the buffer as it was. -/
def build (buf : Bytes) (spBase : Nat) (argv envp : List Bytes) : Outcome BuildError (Nat × Bytes) :=
  if argv.length > maxArgs ∨ envp.length > maxArgs then .error .tooManyArgs
  else do
    let total ← totalLength argv 0
    let total ← totalLength envp total
    let need ← addU64 (nptr argv envp * 8) total
    if need > buf.length then .error .noSpace
    else do
      let (argvAddrs, off, buf) ← placeStrings spBase argv buf.length (List.replicate buf.length 0)
      let (envpAddrs, off, buf) ← placeStrings spBase envp off buf
      let tab ← tableStart off (nptr argv envp)
      let (pos, buf) ← writeWords [argv.length] tab buf
      let (pos, buf) ← writeWords argvAddrs pos buf
      let (pos, buf) ← writeWords [0] pos buf
      let (pos, buf) ← writeWords envpAddrs pos buf
      let (pos, buf) ← writeWords [0] pos buf
      let (pos, buf) ← writeWords (auxv.flatMap fun pair => [pair.1, pair.2]) pos buf
      let (_, buf) ← writeWords [0, 0] pos buf
      let rsp ← addU64 spBase tab
      pure (rsp, buf)

/-! ### Writes and reads -/

variable {buf buf' s t : Bytes} {lo pos off v words spBase : Nat} {a : Bytes} {strs rest argv envp : List Bytes}

end Kernel.UserStack
