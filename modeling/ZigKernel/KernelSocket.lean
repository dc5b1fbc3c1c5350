import ZigKernel.KernelNet

/-! `src/net/socket.zig`: the table of the sockets, the pairs, and the way of a call to the peer or to the devices. The
addresses that `bind` and `connect` keep and the backlog of `listen` are read by none of the calls here and are left
out. -/

namespace Kernel.Sockets

open Zig

def afUnix : Nat := 1
def sockNonblock : Nat := 0x4000
def sockCloexec : Nat := 0x8000
def maxSock : Nat := 16
def unixBufSize : Nat := 2048

inductive SocketState where
  | uninitialized
  | bound
  | listening
  | connected
  | closed
  deriving DecidableEq

/-- What a `rx_queue` is a slice of: `unix_buf_1` or `unix_buf_2`. -/
inductive Storage where
  | unixBuf1
  | unixBuf2
  deriving DecidableEq

/-- `*Socket`: a socket is its place in the table. -/
abbrev Slot := Fin maxSock

structure Socket where
  fd : Int := -1
  domain : Nat := 0
  sockType : Nat := 0
  proto : Nat := 0
  state : SocketState := .uninitialized
  peerSocket : Option Slot := none
  rxQueue : Option Storage := none
  rxLen : Nat := 0
  rxCap : Nat := 0
  deriving DecidableEq

structure State where
  socks : Slot → Option Socket := fun _ => none
  sockCount : Nat := 0
  nextFd : Int := 100
  unixBufs : Storage → List UInt8 := fun _ => List.replicate unixBufSize 0
  net : Net.Stack

abbrev Run (α : Type) := Act State Net.NetError α

namespace State

/-- `rx_queue` -/
def queue (s : State) (sk : Socket) : List UInt8 := (sk.rxQueue.map s.unixBufs).getD []

def setSlot (x : Slot) (slot : Option Socket) (s : State) : State := { s with socks := Function.update s.socks x slot }

def edit (x : Slot) (f : Socket → Socket) (s : State) : State := s.setSlot x ((s.socks x).map f)

/-- The bytes behind a `rx_queue` are written. -/
def fill (q : Option Storage) (bytes : List UInt8) (s : State) : State :=
  match q with
  | some b => { s with unixBufs := Function.update s.unixBufs b bytes }
  | none => s

end State

/-- The peer where `s.domain == AF_UNIX and s.peer_socket != null`. -/
def Socket.unixPeer (sk : Socket) : Option Slot := if sk.domain = afUnix then sk.peerSocket else none

def socketCreate (domain sockType proto : Nat) : Run Int := do
  let baseType := sockType &&& notU64 (sockNonblock ||| sockCloexec)
  let s ← Act.get
  if s.sockCount ≥ maxSock then Act.fail .noMem
  else
    match Table.find? s.socks (·.isNone) with
    | none => Act.fail .noMem
    | some x => do
        let nextFd ← Act.lift (addI32 s.nextFd 1)
        Act.modify fun s => { s with nextFd }
        Act.modify (State.setSlot x (some { fd := s.nextFd, domain, sockType := baseType, proto }))
        let sockCount ← Act.lift (addU64 s.sockCount 1)
        Act.modify fun s => { s with sockCount }
        return s.nextFd

def findSock (fd : Int) (s : State) : Option (Slot × Socket) := do
  let x ← Table.find? s.socks fun slot => slot.any (·.fd = fd)
  let sk ← s.socks x
  return (x, sk)

/-- `send`, to the receive buffer of the peer. The memory of a slot that was set to `null` is undefined. -/
def sendUnix (peer : Slot) (data : List UInt8) : Run Nat := do
  let s ← Act.get
  match s.socks peer with
  | none => Act.lift .trap
  | some p => do
      let room ← Act.lift (subU64 (s.queue p).length p.rxLen)
      let n := min data.length room
      if n = 0 then Act.fail .again
      else do
        let bytes ← Act.lift (memcpy (s.queue p) p.rxLen (p.rxLen + n) (data.take n))
        Act.modify (State.fill p.rxQueue bytes)
        Act.modify (State.edit peer fun p => { p with rxLen := p.rxLen + n })
        return n

/-- `recv`, from the receive buffer of the socket itself. -/
def recvUnix (x : Slot) (sk : Socket) (bufLen : Nat) : Run (List UInt8) := do
  let s ← Act.get
  if sk.rxLen = 0 then Act.fail .again
  else do
    let n := min bufLen sk.rxLen
    let bytes ← Act.lift (Zig.slice (s.queue sk) 0 n)
    let remaining := sk.rxLen - n
    let shifted ← Act.lift (if remaining > 0 then copyWithin (s.queue sk) 0 n remaining else .ok (s.queue sk))
    Act.modify (State.fill sk.rxQueue shifted)
    Act.modify (State.edit x fun sk => { sk with rxLen := remaining })
    return bytes

/-- A call of the layer below. -/
def netCall {α : Type} (m : Net.Run α) : Run α := Act.zoom State.net (fun net s => { s with net }) m

def send (fd : Int) (data : List UInt8) : Run Nat := do
  let s ← Act.get
  match findSock fd s with
  | none => Act.fail .notFound
  | some (_, sk) =>
      match sk.unixPeer with
      | some peer => sendUnix peer data
      | none => netCall (Net.sendInet data)

/-- `recv(fd, buf)` with a buffer of this length: the bytes that it puts there. -/
def recv (fd : Int) (bufLen : Nat) : Run (List UInt8) := do
  let s ← Act.get
  match findSock fd s with
  | none => Act.fail .notFound
  | some (x, sk) =>
      match sk.unixPeer with
      | some _ => recvUnix x sk bufLen
      | none => netCall (Net.recvInet bufLen)

/-- What `socketpair` does with its two sockets. -/
def State.pair (domain : Nat) (s1 s2 : Slot) (s : State) : State :=
  let s := s.edit s1 fun sk => { sk with peerSocket := some s2, state := .connected }
  let s := s.edit s2 fun sk => { sk with peerSocket := some s1, state := .connected }
  if domain = afUnix then
    let s := s.edit s1 fun sk => { sk with rxQueue := some .unixBuf1, rxCap := unixBufSize }
    s.edit s2 fun sk => { sk with rxQueue := some .unixBuf2, rxCap := unixBufSize }
  else s

def socketpair (domain sockType proto : Nat) : Run (Int × Int) := do
  let fd1 ← socketCreate domain sockType proto
  let fd2 ← socketCreate domain sockType proto
  let s ← Act.get
  match findSock fd1 s, findSock fd2 s with
  | some (s1, _), some (s2, _) => do
      Act.modify (State.pair domain s1 s2)
      return (fd1, fd2)
  | _, _ => Act.fail .noMem

def closeSocket (fd : Int) : Run Unit := do
  let s ← Act.get
  match findSock fd s with
  | none => pure ()
  | some (x, _) => do
      Act.modify (State.setSlot x none)
      let sockCount ← Act.lift (subU64 s.sockCount 1)
      Act.modify fun s => { s with sockCount }

end Kernel.Sockets
