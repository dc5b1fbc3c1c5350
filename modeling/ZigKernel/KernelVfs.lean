import ZigKernel.KernelMm
import ZigKernel.LibJson

/-! `src/vfs/vfs.zig`: inodes, dentries and open files in fixed tables, the walk along a path with the jail, and the
opening of files. The reads and writes of an open file are in `KernelFile`. -/

namespace Kernel

open Zig

abbrev Bytes := List UInt8

namespace Vfs

def maxInodes : Nat := 128
def maxDentries : Nat := 128
def maxOpenFiles : Nat := 256
def maxPipes : Nat := 16
def maxChildren : Nat := 32
def fnameMax : Nat := 64
def fsCapBytes : Nat := 32 * 2 ^ 20
def pipeBuf : Nat := 4096

def atFdcwd : Int := -100
def oCreat : Nat := 0o100
def slash : UInt8 := 0x2f

/-- The tables of `FileOps`, by their names. -/
inductive FileOps where
  | ramfs
  | nullDev
  | consoleDev
  | zeroDev
  | fullDev
  | pipe
  deriving DecidableEq

structure Inode where
  ino : Nat := 0
  mode : Nat := 0o644
  size : Nat := 0
  data : Option Bytes := none
  /-- The number of the buffer that `data` points to. -/
  buf : Nat := 0
  ops : Option FileOps := none

structure Dentry where
  /-- `name[0..name_len]` -/
  name : Bytes := []
  inode : Option (Fin maxInodes) := none
  parent : Option (Fin maxDentries) := none
  /-- `children[0..child_count]` -/
  children : List (Option (Fin maxDentries)) := []

structure File where
  dentry : Option (Fin maxDentries) := none
  inode : Option (Fin maxInodes) := none
  pos : Nat := 0
  flags : Nat := 0
  ops : Option FileOps := none
  /-- `data`, where it points to a pipe. -/
  data : Option (Fin maxPipes) := none
  pipeReadEnd : Bool := false

/-- `drivers/pipe.zig` -/
structure Pipe where
  data : Fin pipeBuf → UInt8 := fun _ => 0
  readPos : Nat := 0
  writePos : Nat := 0
  used : Nat := 0
  readClosed : Bool := false
  writeClosed : Bool := false
  waitReaders : Bool := false
  waitWriters : Bool := false

end Vfs

structure Vfs where
  inodes : Fin Vfs.maxInodes → Vfs.Inode := fun _ => {}
  inodeUsed : Fin Vfs.maxInodes → Bool := fun _ => false
  inodeNext : Nat := 1
  dentries : Fin Vfs.maxDentries → Vfs.Dentry := fun _ => {}
  dentryUsed : Fin Vfs.maxDentries → Bool := fun _ => false
  rootDentry : Option (Fin Vfs.maxDentries) := none
  jailRoot : Option (Fin Vfs.maxDentries) := none
  fsUsedBytes : Nat := 0
  openFiles : Fin Vfs.maxOpenFiles → Vfs.File := fun _ => {}
  openUsed : Fin Vfs.maxOpenFiles → Bool := fun _ => false
  pipes : Fin Vfs.maxPipes → Vfs.Pipe := fun _ => {}
  /-- `pipes[i] != null` of `drivers/pipe.zig` -/
  pipeUsed : Fin Vfs.maxPipes → Bool := fun _ => false
  /-- Whether the page allocator has so many bytes. -/
  available : Nat → Bool := fun _ => true
  /-- The buffers that it has handed out so far, by number, and those given back. -/
  buffers : Nat := 0
  freed : List Nat := []
  /-- Whether a buffer was used or given back after it had been given back. -/
  fault : Bool := false

namespace Vfs

abbrev Run (α : Type) := Act Vfs Spins α

/-! ### The quota -/

/-- Charges growth against the cap; false when over it. -/
def fsCharge (growth : Nat) : Run Bool := do
  let v ← Act.get
  let used ← Act.lift (addU64 v.fsUsedBytes growth)
  if used > fsCapBytes then pure false
  else do
    Act.modify fun v => { v with fsUsedBytes := used }
    pure true

def fsRelease (n : Nat) : Run Unit := Act.modify fun v => { v with fsUsedBytes := v.fsUsedBytes - n }

/-! ### Inodes and dentries -/

def allocInode : Run (Option (Fin maxInodes)) := do
  let v ← Act.get
  match Table.find? v.inodeUsed (fun used => !used) with
  | none => pure none
  | some i => do
      Act.modify fun v => { v with
        inodeUsed := Function.update v.inodeUsed i true, inodes := Function.update v.inodes i { ino := v.inodeNext } }
      let next ← Act.lift (castU32 (v.inodeNext + 1))
      Act.modify fun v => { v with inodeNext := next }
      pure (some i)

def allocDentry : Run (Option (Fin maxDentries)) := do
  let v ← Act.get
  match Table.find? v.dentryUsed (fun used => !used) with
  | none => pure none
  | some i => do
      Act.modify fun v => { v with
        dentryUsed := Function.update v.dentryUsed i true, dentries := Function.update v.dentries i {} }
      pure (some i)

def freeDentrySlot (d : Fin maxDentries) : Run Unit :=
  Act.modify fun v => { v with dentryUsed := Function.update v.dentryUsed d false }

def releaseInodeSlot (i : Fin maxInodes) : Run Unit :=
  Act.modify fun v => { v with inodeUsed := Function.update v.inodeUsed i false }

def updateDentry (d : Fin maxDentries) (f : Dentry → Dentry) : Run Unit :=
  Act.modify fun v => { v with dentries := Function.update v.dentries d (f (v.dentries d)) }

def updateInode (i : Fin maxInodes) (f : Inode → Inode) : Run Unit :=
  Act.modify fun v => { v with inodes := Function.update v.inodes i (f (v.inodes i)) }

/-- The buffer of an inode is read or written. -/
def touchBuffer (i : Fin maxInodes) : Run Unit :=
  Act.modify fun v => { v with fault := v.fault || v.freed.contains (v.inodes i).buf }

/-- `page_allocator.free` of the buffer of an inode. -/
def freeBuffer (i : Fin maxInodes) : Run Unit :=
  Act.modify fun v => { v with
    fault := v.fault || v.freed.contains (v.inodes i).buf, freed := (v.inodes i).buf :: v.freed }

/-- `page_allocator.alloc`: the number of the new buffer. -/
def takeBuffer : Run Nat := do
  let v ← Act.get
  Act.modify fun v => { v with buffers := v.buffers + 1 }
  pure v.buffers

/-- `setName` -/
def Dentry.named (n : Bytes) (d : Dentry) : Dentry := { d with name := n.take (fnameMax - 1) }

/-- Where a child is registered, if there is room. -/
def Dentry.adopt (child : Fin maxDentries) (d : Dentry) : Dentry :=
  if d.children.length < maxChildren then { d with children := d.children ++ [some child] } else d

/-! ### Paths -/

/-- Without one leading slash. -/
def stripSlash : Bytes → Bytes
  | [] => []
  | c :: rest => if c = slash then rest else c :: rest

/-- `std.mem.lastIndexOf(u8, path, "/")` -/
def lastSlash (path : Bytes) : Option Nat := (path.reverse.idxOf? slash).map fun i => path.length - 1 - i

def basename (path : Bytes) : Bytes :=
  match lastSlash path with
  | none => path
  | some i => path.drop (i + 1)

/-- `std.mem.tokenizeScalar(u8, name, '/')` -/
def components (name : Bytes) : List Bytes := (name.splitOn slash).filter (· ≠ [])

def lookupChild (v : Vfs) (parent : Fin maxDentries) (component : Bytes) : Option (Fin maxDentries) :=
  match ((v.dentries parent).children.filterMap id).find? fun c => (v.dentries c).name == component with
  | some child => some child
  | none =>
      (List.finRange maxDentries).find? fun i => v.dentryUsed i && (v.dentries i).inode.isSome &&
        (v.dentries i).parent == some parent && (v.dentries i).name == component

/-- The component loop of `lookupPath`. -/
def walk (v : Vfs) (current : Fin maxDentries) : List Bytes → Option (Fin maxDentries)
  | [] => some current
  | component :: rest =>
      match v.lookupChild current component with
      | none => none
      | some child => walk v child rest

def lookupPath (v : Vfs) (start : Fin maxDentries) (path : Bytes) : Option (Fin maxDentries) :=
  if stripSlash path = [] then some start else v.walk start (components (stripSlash path))

/-- `root_dentry.?` -/
def root (v : Vfs) : Outcome Spins (Fin maxDentries) :=
  match v.rootDentry with
  | some d => .ok d
  | none => .trap

def lookup (v : Vfs) (path : Bytes) : Outcome Spins (Option (Fin maxDentries)) := do
  let root ← v.root
  pure (v.lookupPath root path)

def fileAt (v : Vfs) (fd : Nat) : Option File :=
  if h : fd < maxOpenFiles then (if v.openUsed ⟨fd, h⟩ then some (v.openFiles ⟨fd, h⟩) else none) else none

/-- Where a path starts that is relative to a file. -/
def startAt (v : Vfs) (dirfd : Int) : Outcome Spins (Fin maxDentries) :=
  if dirfd = atFdcwd then v.root
  else do
    let fd ← castUsize dirfd
    match v.fileAt fd with
    | none => v.root
    | some f =>
        match f.dentry with
        | none => v.root
        | some d => .ok d

def resolveRaw (v : Vfs) (dirfd : Int) (path : Bytes) : Outcome Spins (Option (Fin maxDentries)) := do
  let start ← v.startAt dirfd
  pure (v.lookupPath start path)

/-- The walk from `c` up to the jail. After as many steps as there are dentries it goes in circles. -/
def climb (v : Vfs) (jail : Fin maxDentries) : Nat → Fin maxDentries → Outcome Spins Bool
  | 0, _ => .error .spins
  | n + 1, c =>
      if c = jail then .ok true
      else
        match (v.dentries c).parent with
        | none => .ok false
        | some parent => climb v jail n parent

/-- An absolute path under a jail. -/
def resolveAbsolute (v : Vfs) (jail : Fin maxDentries) (path : Bytes) : Outcome Spins (Option (Fin maxDentries)) := do
  let found ← v.lookup path
  match found with
  | none => pure none
  | some d => do
      let inside ← v.climb jail (maxDentries + 1) d
      pure (if inside then some d else none)

def resolvePath (v : Vfs) (dirfd : Int) (path : Bytes) : Outcome Spins (Option (Fin maxDentries)) :=
  match v.jailRoot with
  | none => v.resolveRaw dirfd path
  | some jail =>
      match path with
      | [] => pure none
      | c :: _ => if c = slash then v.resolveAbsolute jail path else pure (v.lookupPath jail path)

/-! ### Opening -/

/-- `createFile` once the file has its name, its inode and its parent. -/
def fillFile (d : Fin maxDentries) (ino : Fin maxInodes) (content : Bytes) : Run (Option (Fin maxDentries)) := do
  let charged ← fsCharge content.length
  if ¬charged then do
    freeDentrySlot d
    releaseInodeSlot ino
    pure none
  else do
    let v ← Act.get
    if ¬v.available content.length then do
      fsRelease content.length
      freeDentrySlot d
      releaseInodeSlot ino
      pure none
    else do
      let buf ← takeBuffer
      updateInode ino fun inode =>
        { inode with data := some content, buf, size := content.length, ops := some .ramfs }
      pure (some d)

/-- The directory that a new file goes into. -/
def parentOf (v : Vfs) (rel : Bytes) : Outcome Spins (Option (Fin maxDentries)) :=
  match lastSlash rel with
  | none => pure v.rootDentry
  | some i =>
      if (rel.take i).length = 0 then pure v.rootDentry
      else do
        let found ← v.lookup (rel.take i)
        pure (found.or v.rootDentry)

/-- A dentry under its parent. -/
def attach (d : Fin maxDentries) (parent : Option (Fin maxDentries)) : Run Unit := do
  updateDentry d fun dentry => { dentry with parent }
  match parent with
  | none => pure ()
  | some p => updateDentry p (Dentry.adopt d)

def createFile (path content : Bytes) : Run (Option (Fin maxDentries)) := do
  let d ← allocDentry
  match d with
  | none => pure none
  | some d => do
      let ino ← allocInode
      match ino with
      | none => do
          freeDentrySlot d
          pure none
      | some ino => do
          updateDentry d (Dentry.named (basename (stripSlash path)))
          updateDentry d fun dentry => { dentry with inode := some ino }
          let v ← Act.get
          let parent ← Act.lift (v.parentOf (stripSlash path))
          attach d parent
          fillFile d ino content

def mkdiratImpl (path : Bytes) (mode : Nat) : Run (Option (Fin maxDentries)) := do
  let d ← allocDentry
  match d with
  | none => pure none
  | some d => do
      let ino ← allocInode
      match ino with
      | none => pure none
      | some ino => do
          updateDentry d (Dentry.named (stripSlash path))
          updateDentry d fun dentry => { dentry with inode := some ino }
          let v ← Act.get
          attach d v.rootDentry
          updateInode ino fun inode => { inode with mode, ops := some .ramfs }
          pure (some d)

def openFile (d : Fin maxDentries) (flags : Nat) : Run (Option (Fin maxOpenFiles)) := do
  let v ← Act.get
  match Table.find? v.openUsed (fun used => !used) with
  | none => pure none
  | some f => do
      let file : File := { dentry := some d, inode := (v.dentries d).inode, pos := 0, flags }
      Act.modify fun v => { v with
        openUsed := Function.update v.openUsed f true, openFiles := Function.update v.openFiles f file }
      pure (some f)

/-- `openat` on a dentry without an inode. -/
def openMissing (path : Bytes) (flags mode : Nat) : Run (Option (Fin maxOpenFiles)) :=
  if flags &&& oCreat = 0 then pure none
  else do
    let d ← createFile path []
    match d with
    | none => pure none
    | some d => do
        let v ← Act.get
        match (v.dentries d).inode with
        | none => pure ()
        | some i => updateInode i fun inode => { inode with mode := mode &&& 0o7777 ||| 0o644 }
        openFile d flags

def openat (dirfd : Int) (path : Bytes) (flags mode : Nat) : Run (Option (Fin maxOpenFiles)) := do
  let v ← Act.get
  let found ← Act.lift (v.resolvePath dirfd path)
  match found with
  | none => pure none
  | some d =>
      if (v.dentries d).inode.isNone then openMissing path flags mode else openFile d flags

def close (f : Fin maxOpenFiles) : Run Unit :=
  Act.modify fun v => { v with openUsed := Function.update v.openUsed f false }

/-- `unlinkat`: the inode is given back, and the dentry stays. -/
def unlinkat (path : Bytes) : Run Bool := do
  let v ← Act.get
  let found ← Act.lift (v.lookup path)
  match found with
  | none => pure false
  | some d => do
      match (v.dentries d).inode with
      | none => pure ()
      | some i => releaseInodeSlot i
      pure true

def linkat (oldPath newPath : Bytes) : Run Bool := do
  let v ← Act.get
  let found ← Act.lift (v.lookup oldPath)
  match found with
  | none => pure false
  | some old => do
      let d ← allocDentry
      match d with
      | none => pure false
      | some d => do
          updateDentry d (Dentry.named (stripSlash newPath))
          let v ← Act.get
          updateDentry d fun dentry => { dentry with inode := (v.dentries old).inode, parent := v.rootDentry }
          pure true

/-- Confines absolute paths to a directory, which is made where it is missing. -/
def setJail (path : Bytes) : Run Bool := do
  let v ← Act.get
  let found ← Act.lift (v.lookup path)
  match found with
  | some d => do
      Act.modify fun v => { v with jailRoot := some d }
      pure true
  | none => do
      let created ← mkdiratImpl path 0o755
      match created with
      | none => pure false
      | some d => do
          Act.modify fun v => { v with jailRoot := some d }
          pure true

/-! ### The file system at boot -/

def devtmpfsRegister (name : Bytes) (ops : FileOps) : Run (Option (Fin maxDentries)) := do
  let v ← Act.get
  let root ← Act.lift v.root
  match v.lookupPath root (Json.ascii "dev") with
  | none => pure none
  | some devDir => do
      let d ← allocDentry
      match d with
      | none => pure none
      | some d => do
          let ino ← allocInode
          match ino with
          | none => pure none
          | some ino => do
              updateDentry d (Dentry.named name)
              updateDentry d fun dentry => { dentry with inode := some ino, parent := some devDir }
              updateInode ino fun inode => { inode with mode := 0o666, ops := some ops }
              updateDentry devDir (Dentry.adopt d)
              pure (some d)

def initRoot : Run Unit := do
  let d ← allocDentry
  Act.modify fun v => { v with rootDentry := d }
  let ino ← allocInode
  let v ← Act.get
  let d ← Act.lift v.root
  match ino with
  | none => Act.lift .trap
  | some ino => do
      updateInode ino fun inode => { inode with mode := 0o755 }
      updateDentry d (Dentry.named [slash])
      updateDentry d fun dentry => { dentry with inode := some ino }

def init : Run Unit := do
  Act.modify fun v => {
    pipes := v.pipes, pipeUsed := v.pipeUsed, available := v.available
    buffers := v.buffers, freed := v.freed, fault := v.fault }
  initRoot
  let _ ← createFile (Json.ascii "/hello.txt") (Json.ascii "Hello from Zig Linux VFS (ramfs)\n")
  let _ ← createFile (Json.ascii "/etc/hostname") (Json.ascii "zig-linux\n")
  let _ ← mkdiratImpl (Json.ascii "/dev") 0o755
  let _ ← mkdiratImpl (Json.ascii "/tmp") 0o777
  let _ ← createFile (Json.ascii "/sbin/init") (Json.ascii "#!/bin/sh\necho 'Hello from init'\n")
  pure ()

theorem init_returns : init {} = (.ok (), (init {}).2) := by
  have hok : (init {}).1 = .ok () := by decide +kernel
  exact Prod.ext hok rfl

def devtmpfsPopulate : Run Unit := do
  let _ ← devtmpfsRegister (Json.ascii "null") .nullDev
  let _ ← devtmpfsRegister (Json.ascii "console") .consoleDev
  let _ ← devtmpfsRegister (Json.ascii "zero") .zeroDev
  let _ ← devtmpfsRegister (Json.ascii "full") .fullDev
  let _ ← devtmpfsRegister (Json.ascii "random") .zeroDev
  let _ ← devtmpfsRegister (Json.ascii "urandom") .zeroDev
  pure ()

end Vfs

end Kernel
