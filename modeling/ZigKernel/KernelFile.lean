import ZigKernel.KernelState
import ZigKernel.LangSlice

/-! The reads, writes and seeks of an open file (`src/vfs/vfs.zig`, `src/drivers/pipe.zig`). The buffers are memory of
the user: an address and a length. -/

namespace Kernel

open Zig

namespace Vfs

/-- `-ENOENT`, `-ENOMEM`, `-EINVAL`, `-ENOSPC`, `-ENOSYS` -/
def enoent : Int := -2
def enomem : Int := -12
def einval : Int := -22
def enospc : Int := -28
def enosys : Int := -38

def updateFile (f : Fin maxOpenFiles) (g : File → File) : Run Unit :=
  Act.modify fun v => { v with openFiles := Function.update v.openFiles f (g (v.openFiles f)) }

/-! ### ramfs -/

def ramfsRead (f : Fin maxOpenFiles) (buf len : Nat) : Kernel.Run Int := do
  let s ← Act.get
  let file := s.vfs.openFiles f
  match file.inode with
  | none => pure enoent
  | some i =>
      match (s.vfs.inodes i).data with
      | none => pure 0
      | some data => do
          let n := min len (data.length - file.pos)
          let stop ← Act.lift (addU64 file.pos n)
          let bytes ← Act.lift (slice data file.pos stop)
          onVfs (touchBuffer i)
          writeUser buf bytes
          onVfs (updateFile f fun file => { file with pos := stop })
          Act.lift (castI64 n)

/-- The byte of fresh memory in a safe build. -/
def undefinedByte : UInt8 := 0xaa

/-- The bytes of a file that has grown to `newLen`. -/
def grown (old : Option Bytes) (newLen : Nat) : Bytes :=
  match old with
  | none => List.replicate newLen undefinedByte
  | some old => old.take newLen ++ List.replicate (newLen - old.length) undefinedByte

def dataLength (inode : Inode) : Nat := (inode.data.map List.length).getD 0

/-- Makes room for `newLen` bytes; the error if there is none. -/
def ramfsGrow (i : Fin maxInodes) (newLen : Nat) : Run (Option Int) := do
  let v ← Act.get
  let growth := newLen - dataLength (v.inodes i)
  let charged ← fsCharge growth
  if ¬charged then pure (some enospc)
  else if ¬v.available newLen then do
    fsRelease growth
    pure (some enomem)
  else do
    let buf ← takeBuffer
    if (v.inodes i).data.isSome then freeBuffer i else pure ()
    updateInode i fun inode => { inode with data := some (grown inode.data newLen), buf }
    pure none

/-- `ramfs_write` into a file that has the room. -/
def ramfsPut (f : Fin maxOpenFiles) (i : Fin maxInodes) (buf len : Nat) : Kernel.Run Int := do
  let s ← Act.get
  let file := s.vfs.openFiles f
  match (s.vfs.inodes i).data with
  | none => Act.lift .trap
  | some data => do
      let stop ← Act.lift (addU64 file.pos len)
      let bytes ← readUser buf len
      onVfs (touchBuffer i)
      let data ← Act.lift (memcpy data file.pos stop bytes)
      onVfs (updateInode i fun inode => { inode with data := some data })
      onVfs (updateFile f fun file => { file with pos := stop })
      onVfs (updateInode i fun inode => { inode with size := max inode.size stop })
      Act.lift (castI64 len)

def ramfsWrite (f : Fin maxOpenFiles) (buf len : Nat) : Kernel.Run Int := do
  let s ← Act.get
  let file := s.vfs.openFiles f
  match file.inode with
  | none => pure enoent
  | some i => do
      let newLen ← Act.lift (addU64 file.pos len)
      if (s.vfs.inodes i).data.isNone ∨ newLen > dataLength (s.vfs.inodes i) then do
        let failed ← onVfs (ramfsGrow i newLen)
        match failed with
        | some e => pure e
        | none => ramfsPut f i buf len
      else ramfsPut f i buf len

/-- A read at an offset, which leaves the position alone. -/
def ramfsPread (f : Fin maxOpenFiles) (offset buf len : Nat) : Kernel.Run Int := do
  let s ← Act.get
  match (s.vfs.openFiles f).inode with
  | none => pure enoent
  | some i =>
      match (s.vfs.inodes i).data with
      | none => pure 0
      | some data =>
          if offset ≥ data.length then pure 0
          else do
            let n := min len (data.length - offset)
            let stop ← Act.lift (addU64 offset n)
            let bytes ← Act.lift (slice data offset stop)
            onVfs (touchBuffer i)
            writeUser buf bytes
            Act.lift (castI64 n)

/-- The position that a seek asks for. -/
def seekTarget (file : File) (inode : Inode) (offset whence : Int) : Outcome Spins (Option Int) :=
  if whence = 0 then pure (some offset)
  else if whence = 1 then do
    let pos ← castI64 file.pos
    let target ← addI64 pos offset
    pure (some target)
  else if whence = 2 then do
    let size ← castI64 inode.size
    let target ← addI64 size offset
    pure (some target)
  else pure none

def ramfsSeek (f : Fin maxOpenFiles) (offset whence : Int) : Run Int := do
  let v ← Act.get
  match (v.openFiles f).inode with
  | none => pure enoent
  | some i => do
      let target ← Act.lift (seekTarget (v.openFiles f) (v.inodes i) offset whence)
      match target with
      | none => pure einval
      | some newPos =>
          if newPos < 0 ∨ newPos > (v.inodes i).size then pure einval
          else do
            let pos ← Act.lift (castUsize newPos)
            updateFile f fun file => { file with pos }
            pure newPos

/-! ### Pipes -/

/-- The pipe behind a file. -/
def pipeOf (file : File) : Outcome Spins (Fin maxPipes) :=
  match file.data with
  | some p => .ok p
  | none => .trap

def updatePipe (p : Fin maxPipes) (g : Pipe → Pipe) : Run Unit :=
  Act.modify fun v => { v with pipes := Function.update v.pipes p (g (v.pipes p)) }

/-- `data[i]` -/
def pipeAt (i : Nat) : Outcome Spins (Fin pipeBuf) := if h : i < pipeBuf then .ok ⟨i, h⟩ else .trap

/-- The loop of `read` over `n` more bytes. -/
def pipeReadLoop (p : Fin maxPipes) (buf : Nat) : Nat → Kernel.Run Unit
  | 0 => pure ()
  | n + 1 => do
      let s ← Act.get
      let cell ← Act.lift (pipeAt (s.vfs.pipes p).readPos)
      writeUser buf [(s.vfs.pipes p).data cell]
      let used ← Act.lift (subU64 (s.vfs.pipes p).used 1)
      onVfs (updatePipe p fun pipe => { pipe with readPos := (pipe.readPos + 1) % pipeBuf, used })
      pipeReadLoop p (buf + 1) n

def pipeRead (p : Fin maxPipes) (buf len : Nat) : Kernel.Run Int := do
  let s ← Act.get
  let pipe := s.vfs.pipes p
  if pipe.used = 0 then pure (if pipe.writeClosed then 0 else -11)
  else do
    let n := min len pipe.used
    pipeReadLoop p buf n
    onVfs (updatePipe p fun pipe => { pipe with waitWriters := false })
    Act.lift (castI64 n)

/-- The loop of `write` over `n` more bytes. -/
def pipeWriteLoop (p : Fin maxPipes) (buf : Nat) : Nat → Kernel.Run Unit
  | 0 => pure ()
  | n + 1 => do
      let s ← Act.get
      let cell ← Act.lift (pipeAt (s.vfs.pipes p).writePos)
      let bytes ← readUser buf 1
      let used ← Act.lift (addU64 (s.vfs.pipes p).used 1)
      onVfs (updatePipe p fun pipe => { pipe with
        data := Function.update pipe.data cell (bytes.getD 0 0), writePos := (pipe.writePos + 1) % pipeBuf, used })
      pipeWriteLoop p (buf + 1) n

def pipeWrite (p : Fin maxPipes) (buf len : Nat) : Kernel.Run Int := do
  let s ← Act.get
  let pipe := s.vfs.pipes p
  if pipe.readClosed then pure (-32)
  else do
    let avail ← Act.lift (subU64 pipeBuf pipe.used)
    let n := min len avail
    if n = 0 then pure (-11)
    else do
      pipeWriteLoop p buf n
      onVfs (updatePipe p fun pipe => { pipe with waitReaders := true })
      Act.lift (castI64 n)

/-! ### The tables of operations -/

/-- `ops.read` -/
def FileOps.read (ops : FileOps) (f : Fin maxOpenFiles) (buf len : Nat) : Kernel.Run Int :=
  match ops with
  | .ramfs => ramfsRead f buf len
  | .nullDev | .consoleDev => pure 0
  | .zeroDev => do
      writeUser buf (List.replicate len 0)
      Act.lift (castI64 len)
  | .fullDev => pure enospc
  | .pipe => do
      let s ← Act.get
      let p ← Act.lift (pipeOf (s.vfs.openFiles f))
      pipeRead p buf len

/-- `ops.write`; what is written to the console is printed. -/
def FileOps.write (ops : FileOps) (f : Fin maxOpenFiles) (buf len : Nat) : Kernel.Run Int :=
  match ops with
  | .ramfs => ramfsWrite f buf len
  | .nullDev | .zeroDev => Act.lift (castI64 len)
  | .consoleDev => do
      let _ ← readUser buf len
      Act.lift (castI64 len)
  | .fullDev => pure enospc
  | .pipe => do
      let s ← Act.get
      let p ← Act.lift (pipeOf (s.vfs.openFiles f))
      pipeWrite p buf len

/-- `ops.seek`, which only ramfs has. -/
def FileOps.seek (ops : FileOps) (f : Fin maxOpenFiles) (offset whence : Int) : Option (Run Int) :=
  match ops with
  | .ramfs => some (ramfsSeek f offset whence)
  | _ => none

/-- `ops.pread`, which only ramfs has. -/
def FileOps.pread (ops : FileOps) (f : Fin maxOpenFiles) (offset buf len : Nat) : Option (Kernel.Run Int) :=
  match ops with
  | .ramfs => some (ramfsPread f offset buf len)
  | _ => none

/-- `f.inode.?.ops` -/
def inodeOps (v : Vfs) (f : Fin maxOpenFiles) : Outcome Spins (Option FileOps) :=
  match (v.openFiles f).inode with
  | none => .trap
  | some i => .ok (v.inodes i).ops

def read (f : Fin maxOpenFiles) (buf len : Nat) : Kernel.Run Int := do
  let s ← Act.get
  match (s.vfs.openFiles f).ops with
  | some ops => ops.read f buf len
  | none => do
      let ops ← Act.lift (inodeOps s.vfs f)
      match ops with
      | none => pure enosys
      | some ops => ops.read f buf len

def write (f : Fin maxOpenFiles) (buf len : Nat) : Kernel.Run Int := do
  let s ← Act.get
  match (s.vfs.openFiles f).ops with
  | some ops => ops.write f buf len
  | none => do
      let ops ← Act.lift (inodeOps s.vfs f)
      match ops with
      | none => pure enosys
      | some ops => ops.write f buf len

/-- The count of a `pread`; `none` is `error.Io`. -/
def preadCount (n : Int) : Outcome Spins (Option Nat) :=
  if n < 0 then pure none
  else do
    let n ← castUsize n
    pure (some n)

def pread (f : Fin maxOpenFiles) (offset buf len : Nat) : Kernel.Run (Option Nat) := do
  let s ← Act.get
  let ops ← Act.lift (inodeOps s.vfs f)
  match ops.bind fun ops => ops.pread f offset buf len with
  | none => pure none
  | some run => do
      let n ← run
      Act.lift (preadCount n)

/-- `seek` through the inode. -/
def seekInode (f : Fin maxOpenFiles) (offset whence : Int) : Run Int := do
  let v ← Act.get
  let ops ← Act.lift (inodeOps v f)
  match ops.bind fun ops => ops.seek f offset whence with
  | none => pure enosys
  | some run => run

def seek (f : Fin maxOpenFiles) (offset whence : Int) : Run Int := do
  let v ← Act.get
  match (v.openFiles f).ops.bind fun ops => ops.seek f offset whence with
  | some run => run
  | none => seekInode f offset whence

end Vfs

end Kernel
