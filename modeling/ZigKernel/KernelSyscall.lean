import ZigKernel.KernelFile
import ZigKernel.LibLittleEndian

/-! The system calls of a user program: the ranges of `src/arch/x86_64/gdt.zig`, the gate of `src/uaccess.zig`, the
handlers of `src/syscall.zig` that the allowlist lets through, and the dispatch of `src/arch/x86_64/entry.zig`. -/

namespace Kernel

open Zig

namespace Gdt

def userMax : Nat := 0x00007FFFFFFFFFFF

def isUserRange (addr len : Nat) : Bool :=
  if len = 0 then addr ≤ userMax
  else if wrapAddU64 addr (len - 1) < addr then false
  else wrapAddU64 addr (len - 1) ≤ userMax

def userCopyAllowed (vmaStart vmaEnd vmaProt addr len : Nat) (write : Bool) : Bool :=
  if len = 0 then true
  else if write ∧ vmaProt &&& Mm.protWrite = 0 then false
  else if ¬write ∧ vmaProt &&& Mm.protRead = 0 then false
  else if wrapAddU64 addr len < addr then false
  else if addr < vmaStart ∨ wrapAddU64 addr len > vmaEnd then false
  else isUserRange addr len

/-- The system calls of `zk-abi-v1`. -/
def syscallAllowed (nr : Nat) : Bool := [1, 2, 3, 4, 5, 6, 15, 31, 34, 48, 50, 53].contains nr

end Gdt

namespace Uaccess

def maxCstr : Nat := 4096

/-- Whether the kernel may copy from or to user memory. -/
def validate (m : Mm) (addr len : Nat) (write : Bool) : Bool :=
  if len = 0 then true
  else if wrapAddU64 addr len < addr then false
  else if ¬Gdt.isUserRange addr len then false
  else
    match m.findVma addr with
    | none => false
    | some vma =>
        if wrapAddU64 addr len > vma.stop then false
        else Gdt.userCopyAllowed vma.start vma.stop vma.prot addr len write

/-- `copyFromUser` into a buffer of `len` bytes. -/
def copyFromUser (src len : Nat) : Run (Option Bytes) := do
  let s ← Act.get
  if ¬validate s.mm src len false then pure none
  else do
    let src ← Act.lift (ptrFromInt 1 src)
    let bytes ← readUser src len
    pure (some bytes)

/-- The checks of `copyCStrFromUser` before it reads byte `i`. -/
def mayRead (vma : Option Mm.VmArea) (src i : Nat) : Bool :=
  if wrapAddU64 src i < src then false
  else if ¬Gdt.isUserRange (wrapAddU64 src i) 1 then false
  else
    match vma with
    | none => false
    | some v => wrapAddU64 src i < v.stop && v.prot &&& Mm.protRead ≠ 0

/-- The loop of `copyCStrFromUser` from byte `i` on, over `n` more bytes. -/
def copyLoop (vma : Option Mm.VmArea) (src i : Nat) : Nat → Run (Option Nat)
  | 0 => pure none
  | n + 1 =>
      if ¬mayRead vma src i then pure none
      else do
        let addr ← Act.lift (ptrFromInt 1 (wrapAddU64 src i))
        let bytes ← readUser addr 1
        Act.modify fun s => { s with pathBuf := s.pathBuf.set i (bytes.getD 0 0) }
        if bytes.getD 0 0 = 0 then pure (some i) else copyLoop vma src (i + 1) n

/-- `copyCStrFromUser` into the path buffer. -/
def copyCStrFromUser (src : Nat) : Run (Option Nat) := do
  let s ← Act.get
  copyLoop (s.mm.findVma src) src 0 (min s.pathBuf.length maxCstr)

end Uaccess

def efault : Int := -14
def ebadf : Int := -9
def emfile : Int := -24

/-- The path that a pointer names. -/
def userPath (ptr : Nat) : Run (Option Bytes) := do
  let n ← Uaccess.copyCStrFromUser ptr
  match n with
  | none => pure none
  | some n => do
      let s ← Act.get
      let path ← Act.lift (slice s.pathBuf 0 n)
      pure (some path)

def sysOpenat (dirfd pathPtr flags mode : Nat) : Run Int := do
  let path ← userPath pathPtr
  match path with
  | none => pure efault
  | some path => do
      let dirfd ← Act.lift (castI32 dirfd)
      let flags ← Act.lift (castU32 flags)
      let mode ← Act.lift (castU32 mode)
      let file ← onVfs (Vfs.openat dirfd path flags mode)
      match file with
      | none => pure Vfs.enoent
      | some file => do
          let fd ← onProcs (Procs.allocFd file)
          match fd with
          | none => pure emfile
          | some fd => Act.lift (castI64 fd)

/-- `proc_mod.fdAt(fd)` -/
def fdAt (fd : Nat) : Run (Option (Fin Vfs.maxOpenFiles)) := do
  let s ← Act.get
  Act.lift (s.procs.fdAt fd)

def sysRead (fd bufPtr len : Nat) : Run Int := do
  let s ← Act.get
  if ¬Uaccess.validate s.mm bufPtr len true then pure efault
  else do
    let file ← fdAt fd
    match file with
    | none => pure ebadf
    | some file => do
        let buf ← Act.lift (ptrFromInt 1 bufPtr)
        Vfs.read file buf len

/-- `capture.writeStdout` and `capture.writeStderr`, of the bytes that fit. -/
def captureWrite (read : Capture → Fin Capture.maxProcs → Capture.Stream)
    (write : (Fin Capture.maxProcs → Capture.Stream) → Capture → Capture) (data len : Nat) : Run Int := do
  let s ← Act.get
  let pid ← Act.lift s.procs.getpid
  let stream := read s.capture (Capture.slot pid)
  let n := stream.fits len
  let bytes ← readUser data n
  let stream ← Act.lift (stream.write bytes (len - n))
  Act.modify fun s => { s with
    capture := write (Function.update (read s.capture) (Capture.slot pid) stream) s.capture }
  Act.lift (castI64 n)

def writeStdout : Nat → Nat → Run Int := captureWrite Capture.out fun out c => { c with out }
def writeStderr : Nat → Nat → Run Int := captureWrite Capture.err fun err c => { c with err }

def sysWrite (fd bufPtr len : Nat) : Run Int := do
  let s ← Act.get
  if ¬Uaccess.validate s.mm bufPtr len false then pure efault
  else do
    let data ← Act.lift (ptrFromInt 1 bufPtr)
    if fd = 1 then writeStdout data len
    else if fd = 2 then writeStderr data len
    else do
      let file ← fdAt fd
      match file with
      | none => pure ebadf
      | some file => Vfs.write file data len

def sysSeek (fd offset whence : Nat) : Run Int := do
  let file ← fdAt fd
  match file with
  | none => pure ebadf
  | some file => do
      let offset ← Act.lift (castI64 offset)
      let whence ← Act.lift (castI32 whence)
      onVfs (Vfs.seek file offset whence)

def sysClose (fd : Nat) : Run Int := do
  let file ← fdAt fd
  match file with
  | none => pure ebadf
  | some file => do
      onVfs (Vfs.close file)
      onProcs (Procs.closeFd fd)
      pure 0

def sysExit (code : Nat) : Run Int := do
  let code ← Act.lift (castI32 code)
  onProcs (Procs.exit code)

def sysGetpid : Run Int := do
  let s ← Act.get
  let pid ← Act.lift s.procs.getpid
  Act.lift (castI64 pid)

def sysMmap (addr len prot flags : Nat) : Run Int := do
  if addr ≠ 0 ∧ ¬Gdt.isUserRange addr len then pure Vfs.einval
  else do
    let prot ← Act.lift (castU32 prot)
    let flags ← Act.lift (castU32 flags)
    let result ← onMm (Mm.mmap addr len prot flags)
    match result with
    | none => pure Vfs.enomem
    | some result => Act.lift (castI64 result)

def sysMunmap (addr len : Nat) : Run Int := do
  if ¬Gdt.isUserRange addr len then pure Vfs.einval else onMm (Mm.munmap addr len)

def sysMprotect (addr len prot : Nat) : Run Int := do
  if ¬Gdt.isUserRange addr len then pure Vfs.einval
  else do
    let prot ← Act.lift (castU32 prot)
    onMm (Mm.mprotect addr len prot)

/-- `@sizeOf(TimeSpec)`, two `i64`s -/
def timeSpecSize : Nat := 16

/-- The bytes of an `i64`. -/
def i64Bytes (i : Int) : Bytes := (List.range 8).map (LittleEndian.encode (i % u64Bound).toNat)

/-- The `i64` in 8 bytes. -/
def i64Of (bytes : Bytes) : Int :=
  let n := LittleEndian.decode (fun i => bytes.getD i 0) 8
  if n < i64Bound then n else n - u64Bound

def sysClockGet (tpPtr : Nat) : Run Int := do
  let s ← Act.get
  let ns ← Act.lift s.clock.monotonicNs
  if tpPtr = 0 then pure 0
  else if ¬Uaccess.validate s.mm tpPtr timeSpecSize true then pure efault
  else do
    let tp ← Act.lift (ptrFromInt 8 tpPtr)
    let signed ← Act.lift (castI64 ns)
    writeUser tp (i64Bytes (signed.tdiv 1000000000))
    let rest ← Act.lift (castI64 (ns % 1000000000))
    writeUser (tp + 8) (i64Bytes rest)
    pure 0

def sysNanosleep (reqPtr : Nat) : Run Int := do
  if reqPtr = 0 then pure 0
  else do
    let req ← Uaccess.copyFromUser reqPtr timeSpecSize
    match req with
    | none => pure efault
    | some req => do
        let whole ← Act.lift (mulI64 (i64Of (req.take 8)) 1000000000)
        let ns ← Act.lift (addI64 whole (i64Of (req.drop 8)))
        if ns > 0 then do
          onClock (Clock.nsleep ns)
          pure 0
        else pure 0

abbrev SyscallFn := Nat → Nat → Nat → Nat → Run Int

def syscallMax : Nat := 450

/-- The part of the table that `init` fills and the allowlist lets through. -/
def syscallTable : Nat → Option SyscallFn
  | 1 => some sysMmap
  | 2 => some sysOpenat
  | 3 => some fun fd buf len _ => sysRead fd buf len
  | 4 => some fun fd buf len _ => sysWrite fd buf len
  | 5 => some fun fd offset whence _ => sysSeek fd offset whence
  | 6 => some fun fd _ _ _ => sysClose fd
  | 15 => some fun code _ _ _ => sysExit code
  | 31 => some fun _ _ _ _ => sysGetpid
  | 34 => some fun addr len _ _ => sysMunmap addr len
  | 48 => some fun addr len prot _ => sysMprotect addr len prot
  | 50 => some fun _ tp _ _ => sysClockGet tp
  | 53 => some fun req _ _ _ => sysNanosleep req
  | _ => none

def dispatch (nr a0 a1 a2 a3 : Nat) : Run Int :=
  if nr ≥ syscallMax then pure Vfs.enosys
  else
    match syscallTable nr with
    | none => pure Vfs.enosys
    | some func => func a0 a1 a2 a3

def dispatchUser (nr a0 a1 a2 a3 : Nat) : Run Int :=
  if ¬Gdt.syscallAllowed nr then pure Vfs.enosys else dispatch nr a0 a1 a2 a3

end Kernel
