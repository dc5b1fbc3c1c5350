import ZigKernel.LangReturns
import ZigKernel.LangSigned
import ZigKernel.LangSlice
import ZigKernel.LibTable

/-! `src/net/tcp.zig`: the table of the TCP sockets, the state machine of a socket, and the way of the bytes from a
transmit buffer through the loopback to a receive buffer. -/

namespace Kernel.Tcp

open Zig

inductive TcpState where
  | closed | listen | synSent | synReceived | established | finWait1 | finWait2 | closeWait | lastAck | closing | timeWait
  deriving DecidableEq

inductive TcpEvent where
  | passiveOpen | activeOpen | sendSyn | recvSyn | recvSynAck | sendAck | sendData | recvData | sendFin | recvFin
  | sendFinAck | recvFinAck | timeout
  deriving DecidableEq

/-- The members of `TcpError`, and that of `socket`. -/
inductive TcpError where
  | notFound | notConnected | invalidState | bufferFull | bufferEmpty | closed | noMem
  deriving DecidableEq

def maxTcpSocks : Nat := 8
def rxBufSize : Nat := 4096

abbrev Slot := Fin maxTcpSocks

/-- The buffers of a new socket are undefined. -/
structure TcpSocket where
  state : TcpState := .closed
  fd : Int := -1
  remotePort : Nat := 0
  localPort : Nat := 0
  rxBuf : List UInt8
  rxLen : Nat := 0
  txBuf : List UInt8
  txLen : Nat := 0

def TcpSocket.reset (s : TcpSocket) : TcpSocket :=
  { s with state := .closed, fd := -1, remotePort := 0, localPort := 0, rxLen := 0, txLen := 0 }

structure Stack where
  socks : Slot → Option TcpSocket := fun _ => none
  sockCount : Nat := 0

abbrev Run (α : Type) := Act Stack TcpError α

def Stack.setSlot (x : Slot) (slot : Option TcpSocket) (s : Stack) : Stack :=
  { s with socks := Function.update s.socks x slot }

/-- The pointer to a socket is its place in the table. -/
def findSock (fd : Int) (s : Stack) : Option (Slot × TcpSocket) := do
  let x ← Table.find? s.socks fun slot => slot.any (·.fd = fd)
  let sk ← s.socks x
  return (x, sk)

/-- `socket`, with what its buffers hold. -/
def socket (rxBuf txBuf : List UInt8) : Run Int := do
  let s ← Act.get
  match Table.find? s.socks (·.isNone) with
  | none => Act.fail .noMem
  | some x => do
      let fd ← Act.lift (castI32 (200 + x.val))
      Act.modify (Stack.setSlot x (some { fd, rxBuf, txBuf }))
      let sockCount ← Act.lift (addU64 s.sockCount 1)
      Act.modify fun s => { s with sockCount }
      return fd

def passiveOpen (fd : Int) (localPort : Nat) : Run Unit := do
  let s ← Act.get
  match findSock fd s with
  | none => Act.fail .notFound
  | some (x, sk) =>
      if sk.state ≠ .closed then Act.fail .invalidState
      else Act.modify (Stack.setSlot x (some { sk with state := .listen, localPort }))

def activeOpen (fd : Int) (remotePort : Nat) : Run Unit := do
  let s ← Act.get
  match findSock fd s with
  | none => Act.fail .notFound
  | some (x, sk) =>
      if sk.state ≠ .closed then Act.fail .invalidState
      else Act.modify (Stack.setSlot x (some { sk with state := .synSent, remotePort }))

/-- The socket behind an event, unless the event is invalid in its state. -/
def TcpSocket.on (s : TcpSocket) (event : TcpEvent) : Option TcpSocket :=
  let enter (state : TcpState) : Option TcpSocket := some { s with state }
  match s.state with
  | .closed =>
      match event with
      | .passiveOpen => enter .listen
      | .activeOpen => enter .synSent
      | _ => none
  | .listen =>
      match event with
      | .recvSyn => enter .synReceived
      | .sendFin => some s.reset
      | _ => none
  | .synSent =>
      match event with
      | .recvSynAck => enter .established
      | .sendFin => enter .finWait1
      | .timeout => some s.reset
      | _ => none
  | .synReceived =>
      match event with
      | .sendAck => enter .established
      | .sendFin => enter .finWait1
      | _ => none
  | .established =>
      match event with
      | .sendFin => enter .finWait1
      | .recvFin => enter .closeWait
      | .sendData | .recvData => some s
      | _ => none
  | .finWait1 =>
      match event with
      | .recvFinAck => enter .finWait2
      | .recvFin => enter .closing
      | .sendFinAck => enter .timeWait
      | _ => none
  | .finWait2 =>
      match event with
      | .sendFin | .recvFin => enter .timeWait
      | _ => none
  | .closeWait =>
      match event with
      | .sendFin => enter .lastAck
      | .sendData | .recvData => some s
      | _ => none
  | .lastAck =>
      match event with
      | .recvFinAck | .timeout => some s.reset
      | _ => none
  | .closing =>
      match event with
      | .recvFinAck => enter .timeWait
      | .timeout => some s.reset
      | _ => none
  | .timeWait =>
      match event with
      | .timeout => some s.reset
      | _ => none

def transition (fd : Int) (event : TcpEvent) : Run Unit := do
  let s ← Act.get
  match findSock fd s with
  | none => Act.fail .notFound
  | some (x, sk) =>
      match sk.on event with
      | none => Act.fail .invalidState
      | some sk => Act.modify (Stack.setSlot x (some sk))

def send (fd : Int) (data : List UInt8) : Run Nat := do
  let s ← Act.get
  match findSock fd s with
  | none => Act.fail .notFound
  | some (x, sk) =>
      if sk.state ≠ .established then Act.fail .notConnected
      else do
        let avail ← Act.lift (subU64 rxBufSize sk.txLen)
        let n := min data.length avail
        if n = 0 then Act.fail .bufferFull
        else do
          let txBuf ← Act.lift (memcpy sk.txBuf sk.txLen (sk.txLen + n) (data.take n))
          Act.modify (Stack.setSlot x (some { sk with txBuf, txLen := sk.txLen + n }))
          return n

/-- `a[i] = b` -/
def setAt (buf : List UInt8) (i : Nat) (b : UInt8) : Outcome TcpError (List UInt8) :=
  if i < buf.length then .ok (buf.set i b) else .trap

/-- The loop of `recv` from index `i` on, with `left` bytes to move to the front. -/
def shift (n : Nat) : (left i : Nat) → List UInt8 → Outcome TcpError (List UInt8)
  | 0, _, buf => .ok buf
  | left + 1, i, buf => do
      let b ← index buf i
      let buf ← setAt buf (i - n) b
      shift n left (i + 1) buf

/-- `recv(fd, out)` with a buffer of this length: the bytes that it puts there. -/
def recv (fd : Int) (outLen : Nat) : Run (List UInt8) := do
  let s ← Act.get
  match findSock fd s with
  | none => Act.fail .notFound
  | some (x, sk) =>
      if sk.state = .closed ∨ sk.state = .timeWait then Act.fail .closed
      else if sk.rxLen = 0 then Act.fail .bufferEmpty
      else do
        let n := min outLen sk.rxLen
        let bytes ← Act.lift (slice sk.rxBuf 0 n)
        let rxBuf ← Act.lift (shift n (sk.rxLen - n) n sk.rxBuf)
        Act.modify (Stack.setSlot x (some { sk with rxBuf, rxLen := sk.rxLen - n }))
        return bytes

def loopbackDeliver (srcFd dstFd : Int) : Run Nat := do
  let s ← Act.get
  match findSock srcFd s with
  | none => Act.fail .notFound
  | some (x, src) =>
      match findSock dstFd s with
      | none => Act.fail .notFound
      | some (y, dst) =>
          if src.txLen = 0 then return 0
          else do
            let avail ← Act.lift (subU64 rxBufSize dst.rxLen)
            let n := min src.txLen avail
            if n = 0 then Act.fail .bufferFull
            else do
              let bytes ← Act.lift (slice src.txBuf 0 n)
              let rxBuf ← Act.lift (memcpy dst.rxBuf dst.rxLen (dst.rxLen + n) bytes)
              Act.modify fun s => { s with
                socks := Function.update s.socks y ((s.socks y).map fun dst => { dst with rxBuf, rxLen := dst.rxLen + n }) }
              Act.modify fun s => { s with
                socks := Function.update s.socks x ((s.socks x).map fun src => { src with txLen := 0 }) }
              return n

def getState (fd : Int) (s : Stack) : TcpState := ((findSock fd s).map (·.2.state)).getD .closed

end Kernel.Tcp
