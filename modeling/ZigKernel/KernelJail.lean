import ZigKernel.KernelFile
import ZigKernel.KernelPath

/-! The jail of `src/vfs/vfs.zig`: how a path is resolved under it, and how what is below it is destroyed. -/

namespace Kernel.Vfs

open Zig

def maxParts : Nat := 64
def normMax : Nat := 512

/-! ### `resolveJailed` -/

/-- The component loop: `.` is dropped, and `..` takes the last part away, if there is one. -/
def normalize (parts : List Bytes) : List Bytes → Option (List Bytes)
  | [] => some parts
  | c :: rest =>
      if c = Json.ascii "." then normalize parts rest
      else if c = Json.ascii ".." then normalize parts.dropLast rest
      else if parts.length ≥ maxParts then none
      else normalize (parts ++ [c]) rest

/-- The slash between two parts. -/
def separate (norm : Bytes) : Option Bytes :=
  if norm = [] then some []
  else if norm.length ≥ normMax then none
  else some (norm ++ [slash])

/-- The parts in the buffer. -/
def joinParts (norm : Bytes) : List Bytes → Option Bytes
  | [] => some norm
  | p :: rest =>
      match separate norm with
      | none => none
      | some norm => if norm.length + p.length > normMax then none else joinParts (norm ++ p) rest

/-- What the parts lead to from the jail. -/
def resolveParts (v : Vfs) (jail : Fin maxDentries) (parts : Option (List Bytes)) : Option (Fin maxDentries) :=
  match parts.bind (joinParts []) with
  | none => none
  | some norm => if norm = [] then some jail else v.lookupPath jail norm

def workspace : Bytes := Json.ascii "/workspace"

/-- The path without the prefix of the jail. -/
def jailRelative (path : Bytes) : Bytes :=
  if (workspace ++ [slash]).isPrefixOf path then path.drop workspace.length else path

/-- The parts of a path under the jail. -/
def jailParts (path : Bytes) : Option (List Bytes) := normalize [] (components (stripSlash (jailRelative path)))

def resolveJailed (v : Vfs) (path : Bytes) : Outcome Spins (Option (Fin maxDentries)) :=
  match v.jailRoot with
  | none => v.resolvePath atFdcwd path
  | some jail =>
      if path = [] then pure none
      else if path = workspace then pure (some jail)
      else pure (v.resolveParts jail (jailParts path))

/-! ### `clearJailContents` -/

/-- The data of an inode is given back. -/
def freeData (i : Fin maxInodes) : Run Unit := do
  let v ← Act.get
  match (v.inodes i).data with
  | none => pure ()
  | some data => do
      fsRelease data.length
      freeBuffer i
      updateInode i fun inode => { inode with data := none }

/-- The inode of a dentry that is destroyed. -/
def freeInode (d : Fin maxDentries) : Run Unit := do
  let v ← Act.get
  match (v.dentries d).inode with
  | none => pure ()
  | some i => do
      freeData i
      updateInode i fun inode => { inode with size := 0 }
      releaseInodeSlot i

/-- The loop over the children from the `i`-th on, of which there are `n` more at most. -/
def eachChild (free : Fin maxDentries → Run Unit) (d : Fin maxDentries) : Nat → Nat → Run Unit
  | 0, _ => pure ()
  | n + 1, i => do
      let v ← Act.get
      match (v.dentries d).children[i]? with
      | none => pure ()
      | some none => eachChild free d n (i + 1)
      | some (some c) => do
          free c
          eachChild free d n (i + 1)

/-- A recursion that is deeper than there are dentries goes in circles. -/
def freeDentryTree : Nat → Fin maxDentries → Run Unit
  | 0, _ => Act.fail .spins
  | depth + 1, d => do
      eachChild (freeDentryTree depth) d maxChildren 0
      updateDentry d fun dentry => { dentry with children := [] }
      freeInode d
      freeDentrySlot d

/-- The last entry in place of the `i`-th; without an entry the count underflows. -/
def swapRemove (jail : Fin maxDentries) (i : Nat) : Run Unit := do
  let v ← Act.get
  match (v.dentries jail).children.getLast? with
  | none => Act.lift .trap
  | some last => updateDentry jail fun dentry => { dentry with children := (dentry.children.set i last).dropLast }

/-- The loop from the `i`-th child on, with `n` more turns at most. -/
def clearLoop (jail : Fin maxDentries) : Nat → Nat → Nat → Run Nat
  | 0, _, removed => pure removed
  | n + 1, i, removed => do
      let v ← Act.get
      match (v.dentries jail).children[i]? with
      | none => pure removed
      | some none => clearLoop jail n (i + 1) removed
      | some (some child) => do
          freeDentryTree (maxDentries + 1) child
          swapRemove jail i
          clearLoop jail n i (removed + 1)

def clearJailContents : Run Nat := do
  let v ← Act.get
  match v.jailRoot with
  | none => pure 0
  | some jail => clearLoop jail maxChildren 0 0

end Kernel.Vfs
