import ZigKernel.KernelNet
import ZigKernel.LangReturns

/-! What `sendInet` and `recvInet` do. A stack is seen as the list of the buffers in its queue and the bytes in them; a
send puts one buffer at its end or drops it, and a receive takes bytes from its front. -/

namespace Kernel.Net

open Zig

variable {s t : Stack} {hs : List Handle} {i j : Handle} {data : List UInt8} {n : Nat}

/-- The buffers of the queue, oldest first. -/
structure Queued (s : Stack) (hs : List Handle) : Prop where
  wf : ∀ i, (s.pool i).Wf
  le : s.rxLen ≤ rxQueueCap
  tail : s.rxTail = Fin.ofNat rxQueueCap (s.rxHead.val + s.rxLen)
  ring : Ring.toList s.rxQueue s.rxHead.val s.rxLen = hs.map some
  nodup : hs.Nodup
  used : ∀ h ∈ hs, s.used h = true

/-- The bytes that wait in buffers. -/
def bytesOf (pool : Handle → SkBuff) (hs : List Handle) : List UInt8 := hs.flatMap fun h => (pool h).content

theorem Queued.length (h : Queued s hs) : hs.length = s.rxLen := by
  rw [← List.length_map some, ← h.ring, Ring.toList_length]

theorem Queued.front (h : Queued s (i :: hs)) : s.rxQueue s.rxHead = some i := by
  have hring := h.ring
  rw [← h.length, List.length_cons, Ring.toList_succ, List.map_cons] at hring
  rw [← (List.cons.inj hring).1]
  exact congrArg s.rxQueue (Fin.ofNat_val_eq_self s.rxHead).symm

theorem bytesOf_update (hi : i ∉ hs) (pool : Handle → SkBuff) (skb : SkBuff) :
    bytesOf (Function.update pool i skb) hs = bytesOf pool hs := by
  apply List.flatMap_congr
  intro h hh
  have hne : h ≠ i := fun heq => hi (heq ▸ hh)
  rw [Function.update_of_ne hne]

theorem Queued.not_mem (h : Queued s hs) (hi : s.used i = false) : i ∉ hs := fun hmem => by
  rw [h.used i hmem] at hi
  cases hi

theorem Queued.ne_of_mem (h : Queued s hs) (hi : s.used i = false) (hj : j ∈ hs) : j ≠ i := fun heq =>
  h.not_mem hi (heq ▸ hj)

/-- Buffers that are not in the queue change. -/
theorem Queued.congr (h : Queued s hs) (hqueue : t.rxQueue = s.rxQueue) (hhead : t.rxHead = s.rxHead)
    (htail : t.rxTail = s.rxTail) (hlen : t.rxLen = s.rxLen) (hwf : ∀ i, (t.pool i).Wf)
    (hused : ∀ h ∈ hs, t.used h = true) : Queued t hs where
  wf := hwf
  le := hlen ▸ h.le
  tail := by rw [htail, hhead, hlen, h.tail]
  ring := by rw [hqueue, hhead, hlen, h.ring]
  nodup := h.nodup
  used := hused

/-- A buffer joins the queue. -/
theorem Queued.push (h : Queued s hs) (hroom : s.rxLen < rxQueueCap) (hi : i ∉ hs)
    (hqueue : t.rxQueue = Function.update s.rxQueue s.rxTail (some i)) (hhead : t.rxHead = s.rxHead)
    (htail : t.rxTail = next s.rxTail) (hlen : t.rxLen = s.rxLen + 1) (hwf : ∀ i, (t.pool i).Wf)
    (hused : ∀ h ∈ hs ++ [i], t.used h = true) : Queued t (hs ++ [i]) where
  wf := hwf
  le := hlen ▸ hroom
  tail := by
    rw [htail, hhead, hlen, next, h.tail]
    apply Fin.ext
    show ((s.rxHead.val + s.rxLen) % rxQueueCap + 1) % rxQueueCap = (s.rxHead.val + (s.rxLen + 1)) % rxQueueCap
    rw [Nat.mod_add_mod, Nat.add_assoc]
  ring := by
    rw [hqueue, hhead, hlen, h.tail, Ring.toList_append _ _ _ _ hroom, h.ring, List.map_append]
    rfl
  nodup := by
    rw [List.nodup_append]
    refine ⟨h.nodup, List.nodup_singleton i, fun a ha b hb => ?_⟩
    rw [List.mem_singleton.mp hb]
    exact fun heq => hi (heq ▸ ha)
  used := hused

/-- The oldest buffer leaves it. -/
theorem Queued.pop (h : Queued s (i :: hs)) (hqueue : t.rxQueue = Function.update s.rxQueue s.rxHead none)
    (hhead : t.rxHead = next s.rxHead) (htail : t.rxTail = s.rxTail) (hlen : t.rxLen = s.rxLen - 1)
    (hwf : ∀ i, (t.pool i).Wf) (hused : ∀ h ∈ hs, t.used h = true) : Queued t hs := by
  have hlength : s.rxLen = hs.length + 1 := h.length.symm
  have hself : Fin.ofNat rxQueueCap s.rxHead.val = s.rxHead := Fin.ofNat_val_eq_self s.rxHead
  have hlt : hs.length < rxQueueCap := by
    have hle := h.le
    omega
  have hring := h.ring
  rw [hlength, Ring.toList_succ, List.map_cons] at hring
  constructor
  · exact hwf
  · rw [hlen]
    exact (Nat.sub_le _ _).trans h.le
  · rw [htail, hhead, hlen, h.tail, hlength]
    apply Fin.ext
    show (s.rxHead.val + (hs.length + 1)) % rxQueueCap = ((s.rxHead.val + 1) % rxQueueCap + hs.length) % rxQueueCap
    rw [Nat.mod_add_mod, Nat.add_assoc, Nat.add_comm 1]
  · have hpop := Ring.toList_update_front s.rxQueue s.rxHead.val hs.length none hlt
    rw [hself] at hpop
    rw [hqueue, hhead, hlen, hlength]
    exact hpop.trans (List.cons.inj hring).2
  · exact (List.nodup_cons.mp h.nodup).2
  · exact hused

/-! ### `alloc` -/

theorem alloc_some (h : Table.find? s.used (!·) = some i) : alloc s = (.ok (some i), s.taken i) := by
  rw [alloc, Act.get_bind_run, h]
  rfl

theorem alloc_none (h : Table.find? s.used (!·) = none) : alloc s = (.ok none, s) := by
  rw [alloc, Act.get_bind_run, h]
  rfl

theorem find_free (h : Table.find? s.used (!·) = some i) : s.used i = false := by
  simpa using Table.find?_some h

theorem ne_of_free (h : Table.find? s.used (!·) = some i) (hj : s.used j = true) : j ≠ i := by
  rintro rfl
  rw [find_free h] at hj
  cases hj

/-- A second buffer is free beside the first. -/
theorem find_second (h : Table.find? (s.taken i).used (!·) = some j) : j ≠ i ∧ s.used j = false := by
  have hj : (s.taken i).used j = false := find_free h
  change Function.update s.used i true j = false at hj
  by_cases hji : j = i
  · rw [hji, Function.update_self] at hj
    cases hj
  · rw [Function.update_of_ne hji] at hj
    exact ⟨hji, hj⟩

theorem find_none (h : Table.find? s.used (!·) = none) (i : Handle) : s.used i = true := by
  simpa using Table.find?_none.mp h i

/-! ### `transmit` -/

/-- The counters of the device have room for one more send of `n` bytes. -/
def CountersFit (device : NetDevice) (n : Nat) : Prop :=
  device.priv.txTail + 1 < u64Bound ∧ device.priv.irqCount + 1 < u64Bound ∧ device.priv.rxHead + 1 < u64Bound ∧
    device.txPackets + 1 < u64Bound ∧ device.txBytes + n < u64Bound

/-- What a transmission does to the pool and the queue: the copy joins the queue or is dropped, and the original is free
again. -/
structure Looped (skb rx : Handle) (filled : SkBuff) (s t : Stack) : Prop where
  pool : t.pool = Function.update s.pool rx filled
  used : t.used = Function.update (Function.update s.used rx (decide (s.rxLen < rxQueueCap))) skb false
  rxQueue : t.rxQueue = if s.rxLen < rxQueueCap then Function.update s.rxQueue s.rxTail (some rx) else s.rxQueue
  rxHead : t.rxHead = s.rxHead
  rxTail : t.rxTail = if s.rxLen < rxQueueCap then next s.rxTail else s.rxTail
  rxLen : t.rxLen = if s.rxLen < rxQueueCap then s.rxLen + 1 else s.rxLen
  devCount : t.devCount = s.devCount

theorem looped_netifRx (skb rx : Handle) (filled : SkBuff) (s : Stack) (first : NetDevice) :
    Looped skb rx filled s (Stack.free skb (netifRx rx { s.taken rx with
      pool := Function.update s.pool rx filled, first })) := by
  by_cases hroom : s.rxLen < rxQueueCap
  · have hnot : ¬s.rxLen ≥ rxQueueCap := Nat.not_le.mpr hroom
    constructor <;> simp [netifRx, Stack.free, Stack.taken, hroom, hnot]
  · have hfull : s.rxLen ≥ rxQueueCap := Nat.le_of_not_lt hroom
    constructor <;> simp [netifRx, Stack.free, Stack.taken, hroom, hfull]

@[simp] theorem netifRx_first (skb : Handle) (s : Stack) : (netifRx skb s).first = s.first := by
  unfold netifRx
  split_ifs <;> rfl

/-- With a buffer for the copy `e1000Xmit` returns unless a counter of the adapter is at its end. -/
theorem e1000Xmit_returns {skb rx : Handle} (hwf : ∀ i, (s.pool i).Wf) (hfree : Table.find? s.used (!·) = some rx)
    (hused : s.used skb = true) :
    Act.Returns (s.first.priv.txTail + 1 < u64Bound ∧ s.first.priv.irqCount + 1 < u64Bound ∧
        s.first.priv.rxHead + 1 < u64Bound)
      (fun _ t => (∃ filled : SkBuff, filled.Wf ∧ filled.content = (s.pool skb).content ∧ Looped skb rx filled s t) ∧
        t.first.txPackets = s.first.txPackets ∧ t.first.txBytes = s.first.txBytes)
      (e1000Xmit skb) s := by
  have hne : skb ≠ rx := ne_of_free hfree hused
  have hroom : (s.pool skb).content.length ≤ skbBufSize := (hwf skb).length_content ▸ (hwf skb).len
  obtain ⟨filled, hput, hfilled, hcontent, -⟩ := (hwf rx).put_reset hroom
  refine Act.Returns.congr ?_ (and_congr_right' (and_congr_right' (and_iff_left True.intro)))
  refine Act.Returns.get_bind (.addU64_bind fun _ => .addU64_bind fun _ => .modify_bind ?_)
  set s₁ := Stack.setPriv { s.first.priv with
    txTail := s.first.priv.txTail + 1, irqCount := s.first.priv.irqCount + 1 } s with hs₁
  have hslice : ((s₁.taken rx).pool skb).slice = .ok (s.pool skb).content := by
    have hpool : (s₁.taken rx).pool skb = s.pool skb := Function.update_of_ne hne _ _
    rw [hpool, (hwf skb).slice]
  have hfill : ((s₁.taken rx).pool rx).put (s.pool skb).content = .ok filled := by
    have hpool : (s₁.taken rx).pool rx = (s.pool rx).reset := Function.update_self _ _ _
    rw [hpool, hput]
  apply Act.Returns.run_bind (alloc_some (s := s₁) hfree)
  apply Act.Returns.get_bind
  rw [hslice]
  apply Act.Returns.run_bind (Act.lift_run _ _)
  rw [hfill]
  apply Act.Returns.run_bind (Act.lift_run _ _)
  refine Act.Returns.modify_bind (.addU64_bind fun _ => .of_run rfl ?_)
  set priv : Adapter := ⟨s.first.priv.txTail + 1, s.first.priv.rxHead + 1, s.first.priv.irqCount + 1⟩ with hpriv
  have hsame : Stack.setPriv priv (Stack.setSkb rx filled (s₁.taken rx)) =
      { s.taken rx with pool := Function.update s.pool rx filled, first := { s.first with priv } } := by
    simp [Stack.setPriv, Stack.setSkb, Stack.taken, hs₁]
  have hlooped := looped_netifRx skb rx filled s { s.first with priv }
  rw [← hsame] at hlooped
  refine ⟨⟨filled, hfilled, hcontent, hlooped⟩, ?_, ?_⟩
  · show NetDevice.txPackets (netifRx _ _).first = _
    rw [netifRx_first]
    rfl
  · show NetDevice.txBytes (netifRx _ _).first = _
    rw [netifRx_first]
    rfl

theorem Looped.congr {skb rx : Handle} {filled : SkBuff} (h : Looped skb rx filled s t) (first : NetDevice) :
    Looped skb rx filled s { t with first } := ⟨h.pool, h.used, h.rxQueue, h.rxHead, h.rxTail, h.rxLen, h.devCount⟩

/-- With a buffer for the copy a transmission returns unless a counter of the device is at its end. -/
theorem transmit_returns {skb rx : Handle} (hwf : ∀ i, (s.pool i).Wf) (hfree : Table.find? s.used (!·) = some rx)
    (hused : s.used skb = true) : Act.Returns (CountersFit s.first (s.pool skb).len)
      (fun _ t => ∃ filled : SkBuff, filled.Wf ∧ filled.content = (s.pool skb).content ∧ Looped skb rx filled s t)
      (transmit skb) s := by
  have hne : skb ≠ rx := ne_of_free hfree hused
  rw [transmit]
  refine Act.Returns.congr (Act.Returns.bind (e1000Xmit_returns hwf hfree hused)
    (G := s.first.txPackets + 1 < u64Bound ∧ s.first.txBytes + (s.pool skb).len < u64Bound ∧ True) ?_) ?_
  · rintro - t ⟨⟨filled, hfilled, hcontent, hlooped⟩, hpackets, hbytes⟩
    have hlen : (t.pool skb).len = (s.pool skb).len := by rw [hlooped.pool, Function.update_of_ne hne]
    rw [← hpackets, ← hbytes, ← hlen]
    refine Act.Returns.get_bind (.addU64_bind fun _ => .modify_bind (.addU64_bind fun _ => .of_run rfl ?_))
    exact ⟨filled, hfilled, hcontent, hlooped.congr _⟩
  · simp [CountersFit, and_assoc]

/-! ### The pool -/

def usedCount (s : Stack) : Nat := (List.finRange maxSkb).countP fun i => s.used i

theorem usedCount_take (hi : s.used i = false) (h : t.used = Function.update s.used i true) :
    usedCount t = usedCount s + 1 := by
  have hcount := Table.countP_update s.used id i true
  rw [← h, hi] at hcount
  exact hcount

theorem usedCount_free (hi : s.used i = true) (h : t.used = Function.update s.used i false) :
    usedCount t + 1 = usedCount s := by
  have hcount := Table.countP_update s.used id i false
  rw [← h, hi] at hcount
  exact hcount

theorem wf_update {pool : Handle → SkBuff} {skb : SkBuff} (h : ∀ i, (pool i).Wf) (hskb : skb.Wf) (i j : Handle) :
    (Function.update pool i skb j).Wf := by
  by_cases hji : j = i
  · rwa [hji, Function.update_self]
  · rw [Function.update_of_ne hji]
    exact h j

/-! ### `sendInet` -/

/-- The part of a payload that `netifRx` does not drop. -/
def kept (s : Stack) (data : List UInt8) : List UInt8 := if s.rxLen < rxQueueCap then data else []

/-- The queue has so many buffers and bytes more, and the pool so many used ones. -/
structure Moved (s : Stack) (hs : List Handle) (before after : List UInt8) (t : Stack) (hs' : List Handle) : Prop where
  queued : Queued t hs'
  bytes : before ++ bytesOf t.pool hs' = bytesOf s.pool hs ++ after
  count : usedCount t + hs.length = usedCount s + hs'.length
  devCount : t.devCount = s.devCount

/-- A buffer of its own for the payload and one for the copy: the copy joins the queue or is dropped. -/
theorem Queued.looped (h : Queued s hs) (hi : s.used i = false) (hji : j ≠ i) (hj : s.used j = false) {skb filled : SkBuff}
    (hskb : skb.Wf) (hfilled : filled.Wf) (hlooped : Looped i j filled (Stack.setSkb i skb (s.taken i)) t) :
    ∃ hs', Moved s hs [] (kept s filled.content) t hs' := by
  have hpool : t.pool = Function.update (Function.update s.pool i skb) j filled := by
    rw [hlooped.pool]
    simp [Stack.setSkb, Stack.taken]
  have hused : t.used = Function.update s.used j (decide (s.rxLen < rxQueueCap)) := by
    have hback : Function.update (Function.update s.used j (decide (s.rxLen < rxQueueCap))) i false =
        Function.update s.used j (decide (s.rxLen < rxQueueCap)) := by
      apply Function.update_eq_self_iff.mpr
      rw [Function.update_of_ne hji.symm, hi]
    rw [hlooped.used, ← hback]
    show Function.update (Function.update (Function.update s.used i true) j _) i false = _
    rw [Function.update_comm hji.symm, Function.update_idem]
    rfl
  have hwf : ∀ k, (t.pool k).Wf := by
    rw [hpool]
    exact fun k => wf_update (fun k => wf_update h.wf hskb i k) hfilled j k
  have hsame : bytesOf t.pool hs = bytesOf s.pool hs := by
    rw [hpool, bytesOf_update (h.not_mem hj), bytesOf_update (h.not_mem hi)]
  have hstill : ∀ k ∈ hs, t.used k = true := fun k hk => by
    rw [hused, Function.update_of_ne (h.ne_of_mem hj hk)]
    exact h.used k hk
  by_cases hroom : s.rxLen < rxQueueCap
  · refine ⟨hs ++ [j], ?_, ?_, ?_, hlooped.devCount⟩
    · apply h.push hroom (h.not_mem hj) (hlooped.rxQueue.trans (if_pos hroom)) hlooped.rxHead
        (hlooped.rxTail.trans (if_pos hroom)) (hlooped.rxLen.trans (if_pos hroom)) hwf
      intro k hk
      rcases List.mem_append.mp hk with hk | hk
      · exact hstill k hk
      · rw [List.mem_singleton.mp hk, hused, Function.update_self, decide_eq_true hroom]
    · have hlast : bytesOf t.pool (hs ++ [j]) = bytesOf t.pool hs ++ filled.content := by
        simp [bytesOf, hpool]
      rw [List.nil_append, hlast, hsame, kept, if_pos hroom]
    · rw [decide_eq_true hroom] at hused
      rw [usedCount_take hj hused, List.length_append, List.length_singleton]
      omega
  · refine ⟨hs, ?_, ?_, ?_, hlooped.devCount⟩
    · exact h.congr (hlooped.rxQueue.trans (if_neg hroom)) hlooped.rxHead (hlooped.rxTail.trans (if_neg hroom))
        (hlooped.rxLen.trans (if_neg hroom)) hwf hstill
    · rw [List.nil_append, hsame, kept, if_neg hroom, List.append_nil]
    · rw [decide_eq_false hroom, ← hj, Function.update_eq_self] at hused
      rw [usedCount, hused]
      rfl

theorem sendInet_noDevice (hdev : s.devCount = 0) : sendInet data s = (.error .noDevice, s) := by
  rw [sendInet, Act.get_bind_run, if_pos hdev, Act.fail_run]

theorem sendInet_full (hdev : s.devCount ≠ 0) (hfull : Table.find? s.used (!·) = none) :
    sendInet data s = (.error .noMem, s) := by
  rw [sendInet, Act.get_bind_run, if_neg hdev, Act.bind_ok_run (alloc_none hfull)]
  rfl

/-- With two free buffers a send returns unless the payload or a counter is too large. -/
theorem sendInet_returns (h : Queued s hs) (hdev : s.devCount ≠ 0) (hi : Table.find? s.used (!·) = some i)
    (hj : Table.find? (s.taken i).used (!·) = some j) :
    Act.Returns (data.length ≤ skbBufSize ∧ CountersFit s.first data.length)
      (fun n t => n = data.length ∧ ∃ hs', Moved s hs [] (kept s data) t hs') (sendInet data) s := by
  obtain ⟨hji, hfree⟩ := find_second hj
  have hself : (s.taken i).pool i = (s.pool i).reset := Function.update_self _ _ _
  rw [sendInet]
  apply Act.Returns.get_bind
  rw [if_neg hdev]
  apply Act.Returns.run_bind (alloc_some hi)
  apply Act.Returns.get_bind
  rw [hself]
  refine Act.Returns.lift_bind (fun hroom => ?_) fun hroom => (h.wf i).put_reset_trap (Nat.lt_of_not_le hroom)
  obtain ⟨skb, hput, hskb, hcontent, hlen⟩ := (h.wf i).put_reset hroom
  refine ⟨skb, hput, .modify_bind ?_⟩
  set s₁ := Stack.setSkb i skb (s.taken i) with hs₁
  have hpool : s₁.pool = Function.update s.pool i skb := by simp [hs₁, Stack.setSkb, Stack.taken]
  have hwf : ∀ k, (s₁.pool k).Wf := fun k => hpool ▸ wf_update h.wf hskb i k
  have hcopy : s₁.pool i = skb := by rw [hpool, Function.update_self]
  refine Act.Returns.congr (Act.Returns.bind (transmit_returns hwf hj ?_) (G := True) ?_) ?_
  · exact Function.update_self _ _ _
  · rintro - t ⟨filled, hfilled, hsame, hlooped⟩
    refine .pure ⟨rfl, ?_⟩
    rw [hcopy, hcontent] at hsame
    rw [← hsame]
    exact h.looped (find_free hi) hji hfree hskb hfilled hlooped
  · rw [hcopy, hlen, and_true]
    rfl

/-- With one free buffer a send fails in the middle of the transmission, and the buffer stays used. -/
theorem sendInet_leaks (h : Queued s hs) (hdev : s.devCount ≠ 0) (hi : Table.find? s.used (!·) = some i)
    (hj : Table.find? (s.taken i).used (!·) = none) :
    (sendInet data s).1 = .trap ∨ ∃ t, sendInet data s = (.error .noMem, t) ∧ Queued t hs ∧
      bytesOf t.pool hs = bytesOf s.pool hs ∧ usedCount t = usedCount s + 1 ∧ t.devCount = s.devCount := by
  have hself : (s.taken i).pool i = (s.pool i).reset := Function.update_self _ _ _
  by_cases hroom : data.length ≤ skbBufSize
  swap
  · left
    rw [sendInet, Act.get_bind_run, if_neg hdev, Act.bind_ok_run (alloc_some hi)]
    simp only [Act.get_bind_run, hself, (h.wf i).put_reset_trap (Nat.lt_of_not_le hroom), Act.lift_trap_bind_run]
  obtain ⟨skb, hput, hskb, -, -⟩ := (h.wf i).put_reset hroom
  set s₁ := Stack.setSkb i skb (s.taken i) with hs₁
  have hsend : sendInet data s = (transmit i >>= fun _ => (pure data.length : Run Nat)) s₁ := by
    rw [sendInet, Act.get_bind_run, if_neg hdev, Act.bind_ok_run (alloc_some hi)]
    simp only [Act.get_bind_run, hself, hput, Act.lift_ok_bind_run, Act.modify_bind_run]
    rfl
  by_cases hcounters : s.first.priv.txTail + 1 < u64Bound ∧ s.first.priv.irqCount + 1 < u64Bound
  swap
  · left
    rw [hsend]
    apply Act.bind_traps
    apply Act.bind_traps
    rw [e1000Xmit, Act.get_bind_run]
    by_cases htail : s₁.first.priv.txTail + 1 < u64Bound
    · have hirq : ¬s₁.first.priv.irqCount + 1 < u64Bound := fun hirq => hcounters ⟨htail, hirq⟩
      rw [addU64_of_lt htail, Act.lift_ok_bind_run, addU64_of_le (Nat.le_of_not_lt hirq), Act.lift_trap_bind_run]
    · rw [addU64_of_le (Nat.le_of_not_lt htail), Act.lift_trap_bind_run]
  · right
    set t := Stack.setPriv { s₁.first.priv with
      txTail := s₁.first.priv.txTail + 1, irqCount := s₁.first.priv.irqCount + 1 } s₁ with ht
    have hpool : t.pool = Function.update s.pool i skb := by simp [ht, hs₁, Stack.setPriv, Stack.setSkb, Stack.taken]
    refine ⟨t, ?_, ?_, ?_, ?_, rfl⟩
    · rw [hsend]
      apply Act.bind_error_run
      apply Act.bind_error_run
      rw [e1000Xmit, Act.get_bind_run, addU64_of_lt (show s₁.first.priv.txTail + 1 < u64Bound from hcounters.1),
        Act.lift_ok_bind_run, addU64_of_lt (show s₁.first.priv.irqCount + 1 < u64Bound from hcounters.2),
        Act.lift_ok_bind_run, Act.modify_bind_run, Act.bind_ok_run (alloc_none (s := t) hj)]
      rfl
    · refine h.congr rfl rfl rfl rfl (fun k => ?_) fun k hk => ?_
      · rw [hpool]
        exact wf_update h.wf hskb i k
      · show Function.update s.used i true k = true
        rw [Function.update_of_ne (h.ne_of_mem (find_free hi) hk)]
        exact h.used k hk
    · rw [hpool, bytesOf_update (h.not_mem (find_free hi))]
    · exact usedCount_take (find_free hi) rfl

/-- Whatever a send does, the queue stays in order. -/
theorem sendInet_queued (h : Queued s hs) : Act.Ensures (sendInet data) s (fun _ t => ∃ hs', Queued t hs')
    (fun _ t => ∃ hs', Queued t hs') True := by
  by_cases hdev : s.devCount = 0
  · rw [Act.Ensures, sendInet_noDevice hdev]
    exact ⟨hs, h⟩
  cases hi : Table.find? s.used (!·) with
  | none =>
      rw [Act.Ensures, sendInet_full hdev hi]
      exact ⟨hs, h⟩
  | some i =>
      cases hj : Table.find? (s.taken i).used (!·) with
      | none =>
          rcases sendInet_leaks h hdev hi hj with htrap | ⟨t, hrun, ht, -⟩
          · exact Act.Ensures.of_traps htrap
          · rw [Act.Ensures, hrun]
            exact ⟨hs, ht⟩
      | some j =>
          refine (sendInet_returns h hdev hi hj).ensures_iff.mono ?_ (fun _ _ => False.elim) fun _ => trivial
          rintro _ _ ⟨-, -, hs', hmoved⟩
          exact ⟨hs', hmoved.queued⟩

/-! ### `recvInet` -/

theorem recvInet_empty (h : Queued s []) : recvInet n s = (.error .again, s) := by
  have hlen : s.rxLen = 0 := h.length.symm
  have hrun : recvFromQueue n s = (.ok none, s) := by
    rw [recvFromQueue, Act.get_bind_run, if_pos hlen, Act.pure_run]
  rw [recvInet, Act.bind_ok_run hrun]
  rfl

/-- The first buffer of the queue is given out as a whole and is free again. -/
theorem Queued.consumed (h : Queued s (i :: hs)) : Moved s (i :: hs) (s.pool i).content [] { s.free i with
    rxQueue := Function.update s.rxQueue s.rxHead none, rxHead := next s.rxHead, rxLen := s.rxLen - 1 } hs where
  queued := by
    refine h.pop rfl rfl rfl rfl h.wf fun k hk => ?_
    have hne : k ≠ i := fun heq => (List.nodup_cons.mp h.nodup).1 (heq ▸ hk)
    show Function.update s.used i false k = true
    rw [Function.update_of_ne hne]
    exact h.used k (List.mem_cons_of_mem _ hk)
  bytes := by
    rw [List.append_nil]
    rfl
  count := by
    rw [List.length_cons, Nat.add_comm _ 1, ← Nat.add_assoc, usedCount_free (h.used i List.mem_cons_self) rfl]
  devCount := rfl

/-- The first `n` bytes of it are given out, and the others are at its front then. -/
theorem Queued.shifted (h : Queued s (i :: hs)) {skb : SkBuff} (hskb : skb.Wf)
    (hcontent : skb.content = (s.pool i).content.drop n) :
    Moved s (i :: hs) ((s.pool i).content.take n) [] (Stack.setSkb i skb s) (i :: hs) where
  queued := h.congr rfl rfl rfl rfl (wf_update h.wf hskb i) h.used
  bytes := by
    show (s.pool i).content.take n ++ ((Function.update s.pool i skb i).content ++
      bytesOf (Function.update s.pool i skb) hs) = (s.pool i).content ++ bytesOf s.pool hs ++ []
    rw [Function.update_self, bytesOf_update (List.nodup_cons.mp h.nodup).1, hcontent, ← List.append_assoc,
      List.take_append_drop, List.append_nil]
  count := rfl
  devCount := rfl

/-- A receive takes bytes from the front of the queue. It returns if its buffer has room for half of those that the first
buffer of the queue still has: what is left is moved to the front, and must not reach over where it comes from. -/
theorem recvFromQueue_returns (h : Queued s (i :: hs)) : Act.Returns ((s.pool i).len ≤ 2 * n)
    (fun r t => ∃ bytes hs', r = some bytes ∧ Moved s (i :: hs) bytes [] t hs') (recvFromQueue n) s := by
  have hlen : s.rxLen ≠ 0 := by
    rw [← h.length]
    exact Nat.succ_ne_zero _
  set skb := s.pool i with hskb
  have hwf : skb.Wf := h.wf i
  have hbytes : (do Zig.slice (← skb.slice) 0 (min n skb.len) : Outcome NetError (List UInt8)) = .ok (skb.content.take n) := by
    have hle : min n skb.len ≤ skb.content.length := by
      rw [hwf.length_content]
      exact min_le_right _ _
    rw [hwf.slice, Outcome.ok_bind, slice_of_le (Nat.zero_le _) hle, List.drop_zero, Nat.sub_zero,
      ← hwf.length_content, ← List.take_eq_take_min]
  rw [recvFromQueue]
  apply Act.Returns.get_bind
  rw [if_neg hlen]
  simp only [h.front, ← hskb, hbytes, hwf.head, Nat.zero_add]
  apply Act.Returns.run_bind (Act.lift_run _ _)
  by_cases hall : skb.len ≤ n
  · have hnone : ¬skb.len - min n skb.len > 0 := by omega
    have htake : skb.content.take n = skb.content := List.take_of_length_le (hwf.length_content.symm ▸ hall)
    rw [if_neg hnone, htake]
    refine Act.Returns.congr (.modify_bind (.modify_bind (.pure ⟨_, hs, rfl, h.consumed⟩))) ?_
    exact iff_of_true True.intro (by omega)
  · have hsome : skb.len - min n skb.len > 0 := by omega
    have hmin : min n skb.len = n := by omega
    rw [if_pos hsome]
    simp only [hmin]
    refine Act.Returns.congr (.lift_bind (F := skb.len ≤ 2 * n) (G := True) (fun hhalf => ?_) fun hhalf => ?_)
      (and_iff_left True.intro)
    · have hroom : n + (skb.len - n) ≤ skb.data.length := by
        have hlength := hwf.length
        have hle := hwf.len
        omega
      obtain ⟨data, hcopy, hlength, htake⟩ := take_copyWithin (ε := NetError) hroom (by omega)
      refine ⟨data, hcopy, .modify_bind (.pure ⟨_, i :: hs, rfl, h.shifted ?_ ?_⟩)⟩
      · exact ⟨hlength.trans hwf.length, rfl, (Nat.sub_le _ _).trans hwf.len⟩
      · show data.take (skb.len - n) = skb.content.drop n
        rw [htake, Nat.add_sub_cancel' (by omega)]
        rfl
    · exact copyWithin_trap (by omega) (by omega)

theorem recvInet_returns (h : Queued s (i :: hs)) : Act.Returns ((s.pool i).len ≤ 2 * n)
    (fun bytes t => ∃ hs', Moved s (i :: hs) bytes [] t hs') (recvInet n) s := by
  rw [recvInet]
  refine Act.Returns.congr (Act.Returns.bind (recvFromQueue_returns h) (G := True) ?_) (and_iff_left True.intro)
  rintro r t ⟨bytes, hs', rfl, hmoved⟩
  exact .pure ⟨hs', hmoved⟩

end Kernel.Net
