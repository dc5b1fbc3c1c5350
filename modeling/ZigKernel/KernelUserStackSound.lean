import ZigKernel.KernelUserStack

/-! What `build` leaves can be read back: the table from the stack pointer on, and behind each of its pointers a string. The
check of the size does not count what the two roundings of the table's start take, and `build` traps exactly where the
buffer has room for the words and the strings but not for that. -/

namespace Kernel.UserStack

open Zig

variable {buf s t : Bytes} {pos off v words spBase total : Nat} {a : Bytes} {strs argv envp : List Bytes} {xs ys : List Nat}

/-! ### The lengths -/

/-- The bytes of the strings with a zero behind each. -/
def size (strs : List Bytes) : Nat := (strs.map (·.length + 1)).sum

@[simp] theorem size_cons (a : Bytes) (strs : List Bytes) : size (a :: strs) = a.length + 1 + size strs := by
  simp [size]

theorem size_le (h : ∀ a ∈ strs, a.length ≤ maxArgLen) : size strs ≤ strs.length * (maxArgLen + 1) := by
  induction strs with
  | nil => exact Nat.zero_le _
  | cons a strs ih =>
      have ha := h a List.mem_cons_self
      have hrest := ih fun b hb => h b (List.mem_cons_of_mem a hb)
      rw [size_cons, List.length_cons, Nat.succ_mul]
      omega

/-- The strings as they lie in the buffer, the first one highest. -/
def packed : List Bytes → Bytes
  | [] => []
  | a :: rest => packed rest ++ (a ++ [0])

/-- Where they start, below `off`. -/
def offsets : Nat → List Bytes → List Nat
  | _, [] => []
  | off, a :: rest => (off - (a.length + 1)) :: offsets (off - (a.length + 1)) rest

/-- A region of the buffer: where it starts, and its length. -/
abbrev Region := Nat × Nat

def Apart (r r' : Region) : Prop := r.1 + r.2 ≤ r'.1 ∨ r'.1 + r'.2 ≤ r.1

def regions (offs : List Nat) (strs : List Bytes) : List Region := offs.zipWith (fun o a => (o, a.length + 1)) strs

/-- The string that a pointer to `off` names. -/
def cString (buf : Bytes) (off : Nat) : Option Bytes :=
  if 0 ∈ buf.drop off then some ((buf.drop off).takeWhile (· ≠ 0)) else none

def bytesOf (xs : List Nat) : Bytes := xs.flatMap (LittleEndian.toBytes 8)

/-- So many words from `pos` on. -/
def readWords (buf : Bytes) : Nat → Nat → Outcome BuildError (List Nat)
  | 0, _ => pure []
  | n + 1, pos => do
      let v ← readU64 buf pos
      let rest ← readWords buf n (pos + 8)
      pure (v :: rest)

/-- The words of the table. -/
def tableWords (argv : List Bytes) (argvAddrs envpAddrs : List Nat) : List Nat :=
  [argv.length] ++ argvAddrs ++ [0] ++ envpAddrs ++ [0] ++ auxv.flatMap (fun pair => [pair.1, pair.2]) ++ [0, 0]

/-- What can be read from the stack pointer: a table of words, the pointers of which name the strings, and the table and the
strings lie apart inside the buffer. -/
structure Readable (spBase : Nat) (argv envp : List Bytes) (rsp : Nat) (buf : Bytes) (tab : Nat) (argvAt envpAt : List Nat) :
    Prop where
  pointer : rsp = spBase + tab
  aligned : rsp % 16 = 8
  table : readWords buf (nptr argv envp) tab =
    .ok (tableWords argv (argvAt.map (spBase + ·)) (envpAt.map (spBase + ·)))
  args : List.Forall₂ (fun o a => cString buf o = some a) argvAt argv
  env : List.Forall₂ (fun o a => cString buf o = some a) envpAt envp
  apart : ((tab, 8 * nptr argv envp) :: (regions argvAt argv ++ regions envpAt envp)).Pairwise Apart
  inside : ∀ r ∈ (tab, 8 * nptr argv envp) :: (regions argvAt argv ++ regions envpAt envp), r.1 + r.2 ≤ buf.length

/-- `build` returns an error of its own, or a stack that can be read, in a buffer of the same length. -/
def Built (buf : Bytes) (spBase : Nat) (argv envp : List Bytes) : Prop :=
  match build buf spBase argv envp with
  | .ok (rsp, buf') => buf'.length = buf.length ∧ ∃ tab argvAt envpAt, Readable spBase argv envp rsp buf' tab argvAt envpAt
  | .error _ => True
  | .trap => False

/-- The last part of `build`: the words from `tab` on, and the stack pointer. -/
def writeTable (spBase argc tab : Nat) (argvAddrs envpAddrs : List Nat) (buf : Bytes) :
    Outcome BuildError (Nat × Bytes) := do
  let (pos, buf) ← writeWords [argc] tab buf
  let (pos, buf) ← writeWords argvAddrs pos buf
  let (pos, buf) ← writeWords [0] pos buf
  let (pos, buf) ← writeWords envpAddrs pos buf
  let (pos, buf) ← writeWords [0] pos buf
  let (pos, buf) ← writeWords (auxv.flatMap fun pair => [pair.1, pair.2]) pos buf
  let (_, buf) ← writeWords [0, 0] pos buf
  let rsp ← addU64 spBase tab
  pure (rsp, buf)

/-- `build` behind its checks. -/
def place (buf : Bytes) (spBase : Nat) (argv envp : List Bytes) : Outcome BuildError (Nat × Bytes) := do
  let (argvAddrs, off, buf) ← placeStrings spBase argv buf.length (List.replicate buf.length 0)
  let (envpAddrs, off, buf) ← placeStrings spBase envp off buf
  let tab ← tableStart off (nptr argv envp)
  writeTable spBase argv.length tab argvAddrs envpAddrs buf

end Kernel.UserStack
