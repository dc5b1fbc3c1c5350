import ZigKernel.LangSigned
import ZigKernel.LangSlice
import ZigKernel.LibRing
import ZigKernel.LibTable

/-! `src/net/skbuff.zig`, `src/net/net_core.zig`, `src/drivers/net/net_device.zig` and the transmit path of
`src/drivers/net/e1000.zig`: the buffer pool, the receive queue, and a device that loops what it sends back into the
queue. Of the devices the first one transmits, and the others count by the buffers that they post when they are opened.
The registers and the descriptors of a device are written and not read, and the lengths in them fit, since a buffer has
2048 bytes; they are left out. -/

namespace Kernel.Net

open Zig

def maxSkb : Nat := 64
def skbBufSize : Nat := 2048
def rxQueueCap : Nat := 32
def rxRing : Nat := 16
def maxNetdev : Nat := 8

instance : NeZero rxQueueCap := ⟨by decide⟩

structure SkBuff where
  data : List UInt8 := List.replicate skbBufSize 0
  head : Nat := 0
  tail : Nat := 0
  len : Nat := 0

/-- `*SkBuff` -/
abbrev Handle := Fin maxSkb

/-- `E1000Private`, as far as it is read. -/
structure Adapter where
  txTail : Nat := 0
  rxHead : Nat := 0
  irqCount : Nat := 0

structure NetDevice where
  txPackets : Nat := 0
  txBytes : Nat := 0
  priv : Adapter := {}

structure Stack where
  pool : Handle → SkBuff := fun _ => {}
  used : Handle → Bool := fun _ => false
  rxQueue : Fin rxQueueCap → Option Handle := fun _ => none
  rxHead : Fin rxQueueCap := 0
  rxTail : Fin rxQueueCap := 0
  rxLen : Nat := 0
  devCount : Nat := 0
  /-- `devs[0]` -/
  first : NetDevice := {}

inductive NetError where
  | noMem
  | noDevice
  | again
  | notFound
  deriving DecidableEq

abbrev Run (α : Type) := Act Stack NetError α

namespace SkBuff

def reset (skb : SkBuff) : SkBuff := { skb with head := 0, tail := 0, len := 0 }

/-- `put(bytes.len)`, and `@memcpy` of the bytes into the window that it returns. -/
def put (skb : SkBuff) (bytes : List UInt8) : Outcome NetError SkBuff := do
  let tail ← addU64 skb.tail bytes.length
  let len ← addU64 skb.len bytes.length
  let data ← memcpy skb.data skb.tail (skb.tail + bytes.length) bytes
  return { skb with data, tail, len }

def slice (skb : SkBuff) : Outcome NetError (List UInt8) := Zig.slice skb.data skb.head (skb.head + skb.len)

end SkBuff

namespace Stack

def setSkb (i : Handle) (skb : SkBuff) (s : Stack) : Stack := { s with pool := Function.update s.pool i skb }

def setPriv (priv : Adapter) (s : Stack) : Stack := { s with first := { s.first with priv } }

/-- The buffer that `alloc` takes. -/
def taken (i : Handle) (s : Stack) : Stack :=
  { s with used := Function.update s.used i true, pool := Function.update s.pool i (s.pool i).reset }

def free (i : Handle) (s : Stack) : Stack := { s with used := Function.update s.used i false }

end Stack

def alloc : Run (Option Handle) := do
  let s ← Act.get
  match Table.find? s.used (!·) with
  | some i => do
      Act.modify (Stack.taken i)
      pure (some i)
  | none => pure none

/-- `(i + 1) % RX_QUEUE` -/
def next (i : Fin rxQueueCap) : Fin rxQueueCap := Fin.ofNat rxQueueCap (i.val + 1)

def netifRx (skb : Handle) (s : Stack) : Stack :=
  if s.rxLen ≥ rxQueueCap then s.free skb
  else
    { s with
      rxQueue := Function.update s.rxQueue s.rxTail (some skb)
      rxTail := next s.rxTail
      rxLen := s.rxLen + 1 }

/-- `recvFromQueue(buf)` with a buffer of this length: the bytes that it puts there. -/
def recvFromQueue (bufLen : Nat) : Run (Option (List UInt8)) := do
  let s ← Act.get
  if s.rxLen = 0 then pure none
  else
    match s.rxQueue s.rxHead with
    | none => Act.lift .trap
    | some i => do
        let skb := s.pool i
        let n := min bufLen skb.len
        let bytes ← Act.lift (do Zig.slice (← skb.slice) 0 n)
        let remaining := skb.len - n
        if remaining > 0 then do
          let data ← Act.lift (copyWithin skb.data 0 (skb.head + n) remaining)
          Act.modify (Stack.setSkb i { skb with data, head := 0, tail := remaining, len := remaining })
          pure (some bytes)
        else do
          Act.modify (Stack.free i)
          Act.modify fun s => { s with
            rxQueue := Function.update s.rxQueue s.rxHead none, rxHead := next s.rxHead, rxLen := s.rxLen - 1 }
          pure (some bytes)

/-- The loop of `e1000_open` that posts receive buffers. -/
def postRx : Nat → Run Unit
  | 0 => pure ()
  | n + 1 => do
      let _ ← alloc
      postRx n

/-- `register`, of a device that is then opened. -/
def register : Run Unit := do
  let s ← Act.get
  if s.devCount ≥ maxNetdev then Act.fail .noMem
  else do
    Act.modify fun s => { s with devCount := s.devCount + 1 }
    postRx rxRing

def e1000Xmit (skb : Handle) : Run Unit := do
  let s ← Act.get
  let txTail ← Act.lift (addU64 s.first.priv.txTail 1)
  let irqCount ← Act.lift (addU64 s.first.priv.irqCount 1)
  Act.modify (Stack.setPriv { s.first.priv with txTail, irqCount })
  match ← alloc with
  | none => Act.fail .noMem
  | some rxSkb => do
      let s ← Act.get
      let payload ← Act.lift (s.pool skb).slice
      let filled ← Act.lift ((s.pool rxSkb).put payload)
      Act.modify (Stack.setSkb rxSkb filled)
      let rxHead ← Act.lift (addU64 s.first.priv.rxHead 1)
      Act.modify (Stack.setPriv { s.first.priv with rxHead })
      Act.modify (netifRx rxSkb)
      Act.modify (Stack.free skb)

/-- The length is read when the buffer is free again. -/
def transmit (skb : Handle) : Run Unit := do
  e1000Xmit skb
  let s ← Act.get
  let txPackets ← Act.lift (addU64 s.first.txPackets 1)
  Act.modify fun s => { s with first := { s.first with txPackets } }
  let txBytes ← Act.lift (addU64 s.first.txBytes (s.pool skb).len)
  Act.modify fun s => { s with first := { s.first with txBytes } }

/-- `send`, from "AF_INET: go through netdev" on. -/
def sendInet (data : List UInt8) : Run Nat := do
  let s ← Act.get
  if s.devCount = 0 then Act.fail .noDevice
  else
    match ← alloc with
    | none => Act.fail .noMem
    | some skb => do
        let s ← Act.get
        let filled ← Act.lift ((s.pool skb).put data)
        Act.modify (Stack.setSkb skb filled)
        transmit skb
        return data.length

/-- `recv`, from "AF_INET: read from loopback queue" on. -/
def recvInet (bufLen : Nat) : Run (List UInt8) := do
  match ← recvFromQueue bufLen with
  | some bytes => return bytes
  | none => Act.fail .again

/-- The net layer with so many devices opened. -/
def opened : Nat → Stack
  | 0 => {}
  | k + 1 => (register (opened k)).2

/-! ### One buffer -/

namespace SkBuff

variable {skb : SkBuff} {bytes : List UInt8}

/-- What holds of every buffer of the pool. -/
structure Wf (skb : SkBuff) : Prop where
  length : skb.data.length = skbBufSize
  head : skb.head = 0
  len : skb.len ≤ skbBufSize

def content (skb : SkBuff) : List UInt8 := skb.data.take skb.len

theorem wf_default : Wf {} := ⟨List.length_replicate, rfl, Nat.zero_le _⟩

theorem Wf.reset (h : skb.Wf) : skb.reset.Wf := ⟨h.length, rfl, Nat.zero_le _⟩

theorem Wf.length_content (h : skb.Wf) : skb.content.length = skb.len := by
  rw [content, List.length_take_of_le (h.length ▸ h.len)]

theorem Wf.slice (h : skb.Wf) : skb.slice = .ok skb.content := by
  rw [SkBuff.slice, h.head, Nat.zero_add, slice_of_le (Nat.zero_le _) (h.length ▸ h.len), content, List.drop_zero,
    Nat.sub_zero]

/-- A buffer that has been reset takes what it has room for. -/
theorem Wf.put_reset (h : skb.Wf) (hroom : bytes.length ≤ skbBufSize) :
    ∃ filled, skb.reset.put bytes = .ok filled ∧ filled.Wf ∧ filled.content = bytes ∧ filled.len = bytes.length := by
  have hlt : 0 + bytes.length < u64Bound := by
    have : skbBufSize < u64Bound := by decide
    omega
  have hlength : bytes.length ≤ skb.data.length := h.length ▸ hroom
  refine ⟨{ skb.reset with data := bytes ++ skb.data.drop bytes.length, tail := bytes.length, len := bytes.length }, ?_,
    ⟨?_, rfl, hroom⟩, ?_, rfl⟩
  · have hcopy : (memcpy skb.data 0 bytes.length bytes : Outcome NetError _) = .ok (bytes ++ skb.data.drop bytes.length) :=
      memcpy_zero rfl hlength
    simp only [SkBuff.put, SkBuff.reset, addU64_of_lt hlt, Outcome.ok_bind, Nat.zero_add, hcopy]
    rfl
  · simp only [List.length_append, List.length_drop, h.length]
    omega
  · simp [content]

theorem Wf.put_reset_trap (h : skb.Wf) (hroom : skbBufSize < bytes.length) : skb.reset.put bytes = .trap := by
  have hcopy : (memcpy skb.data 0 (0 + bytes.length) bytes : Outcome NetError _) = .trap := by
    apply if_neg
    rw [h.length]
    omega
  by_cases hlt : 0 + bytes.length < u64Bound
  · simp only [SkBuff.put, SkBuff.reset, addU64_of_lt hlt, Outcome.ok_bind, hcopy, Outcome.trap_bind]
  · simp only [SkBuff.put, SkBuff.reset, addU64_of_le (Nat.le_of_not_lt hlt), Outcome.trap_bind]

end SkBuff

end Kernel.Net
