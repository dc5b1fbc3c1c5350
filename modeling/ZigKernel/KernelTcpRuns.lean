import ZigKernel.KernelTcp
import ZigKernel.LibRuns

/-! Bytes on their way from one TCP socket to another. What was received, what waits at the receiver and what waits at the
sender is what was sent, exactly in the runs in which no delivery finds room for a part of the transmit buffer only: a
delivery empties that buffer whatever it has moved. -/

namespace Kernel.Tcp

open Zig

variable {a b fd : Int} {s t : Stack} {x y : Slot} {sk sk' src dst : TcpSocket} {data : List UInt8}

def TcpSocket.unread (sk : TcpSocket) : List UInt8 := sk.rxBuf.take sk.rxLen
def TcpSocket.unsent (sk : TcpSocket) : List UInt8 := sk.txBuf.take sk.txLen

/-! ### The table -/

theorem findSock_some (h : findSock fd s = some (x, sk)) : s.socks x = some sk := by
  simp only [findSock, Option.bind_eq_bind, Option.bind_eq_some_iff, Option.pure_def, Option.some.injEq, Prod.mk.injEq] at h
  obtain ⟨x', -, sk', hslot, rfl, rfl⟩ := h
  exact hslot

/-- A socket that keeps its descriptor is found where it was. -/
theorem findSock_update (hx : s.socks x = some sk) (hfd : sk'.fd = sk.fd) (hsocks : t.socks = Function.update s.socks x (some sk'))
    (h : findSock fd s = some (y, dst)) : findSock fd t = some (y, if y = x then sk' else dst) := by
  have hslot := findSock_some h
  have hsame : Table.find? t.socks (fun slot => slot.any (·.fd = fd)) = Table.find? s.socks fun slot => slot.any (·.fd = fd) := by
    refine Table.find?_congr fun i => ?_
    rw [hsocks]
    by_cases hi : i = x
    · rw [hi, Function.update_self, hx, Option.any_some, Option.any_some, hfd]
    · rw [Function.update_of_ne hi]
  rw [findSock, hsame]
  simp only [findSock, Option.bind_eq_bind, Option.bind_eq_some_iff, Option.pure_def, Option.some.injEq, Prod.mk.injEq] at h
  obtain ⟨y', hfind, -, -, rfl, -⟩ := h
  rw [hfind, hsocks]
  by_cases hy : y' = x
  · rw [if_pos hy, hy]
    simp only [Option.bind_eq_bind, Option.bind_some, Function.update_self, Option.pure_def]
  · rw [if_neg hy]
    simp only [Option.bind_eq_bind, Option.bind_some, Function.update_of_ne hy, hslot, Option.pure_def]

/-! ### The loop of `recv` -/

theorem shift_run (n left : Nat) {i : Nat} {buf : List UInt8} (hn : n ≤ i) (h : i + left ≤ buf.length) :
    ∃ buf', shift n left i buf = .ok buf' ∧ buf'.length = buf.length ∧
      ∀ j, buf'[j]? = if i - n ≤ j ∧ j < i - n + left then buf[j + n]? else buf[j]? := by
  induction left generalizing i buf with
  | zero =>
      refine ⟨buf, rfl, rfl, fun j => (if_neg ?_).symm⟩
      rintro ⟨hle, hlt⟩
      exact absurd hlt (Nat.not_lt.mpr hle)
  | succ left ih =>
      have hi : i < buf.length := by omega
      obtain ⟨buf', hrun, hlength, hget⟩ := @ih (i + 1) (buf.set (i - n) buf[i]) (Nat.le_succ_of_le hn)
        (by rw [List.length_set]; omega)
      refine ⟨buf', ?_, hlength.trans List.length_set, fun j => ?_⟩
      · rw [shift, index_eq_ok.mpr (List.getElem?_eq_getElem hi), Outcome.ok_bind, setAt, if_pos (by omega),
          Outcome.ok_bind, hrun]
      · rw [hget j]
        have hstart : i + 1 - n = i - n + 1 := by omega
        rw [hstart]
        -- entry `i - n` is written now, and the later reads are all behind it
        by_cases hj : j = i - n
        · have hsum : j + n = i := by omega
          rw [if_neg (by omega), if_pos (by omega), hj, List.getElem?_set_self (by omega), ← hj, hsum,
            List.getElem?_eq_getElem hi]
        · by_cases hlater : i - n + 1 ≤ j ∧ j < i - n + 1 + left
          · rw [if_pos hlater, if_pos (by omega), List.getElem?_set_ne (by omega)]
          · rw [if_neg hlater, if_neg (by omega), List.getElem?_set_ne (Ne.symm hj)]

/-- Behind the loop the bytes that were not taken stand at the front. -/
theorem shift_front {n len : Nat} {buf : List UInt8} (hn : n ≤ len) (hlen : len ≤ buf.length) :
    ∃ buf', shift n (len - n) n buf = .ok buf' ∧ buf'.length = buf.length ∧
      buf.take n ++ buf'.take (len - n) = buf.take len := by
  obtain ⟨buf', hrun, hlength, hget⟩ := shift_run n (len - n) (Nat.le_refl n) (by omega : n + (len - n) ≤ buf.length)
  refine ⟨buf', hrun, hlength, ?_⟩
  have hfront : buf'.take (len - n) = (buf.take len).drop n := by
    apply List.ext_getElem?
    intro j
    rw [List.getElem?_drop, Nat.add_comm n j]
    by_cases hj : j < len - n
    · rw [List.getElem?_take_of_lt hj, List.getElem?_take_of_lt (by omega), hget j, if_pos (by omega)]
    · rw [List.getElem?_eq_none (by rw [List.length_take]; omega),
        List.getElem?_eq_none (by rw [List.length_take]; omega)]
  have htake : (buf.take len).take n = buf.take n := by rw [List.take_take, Nat.min_eq_left hn]
  rw [hfront, ← htake, List.take_append_drop]

/-! ### The two ends of the way -/

/-- An established socket with its transmit buffer, and another one with its receive buffer. -/
structure Ends (a b : Int) (s : Stack) (x y : Slot) (src dst : TcpSocket) : Prop where
  first : findSock a s = some (x, src)
  second : findSock b s = some (y, dst)
  apart : x ≠ y
  established : src.state = .established
  txSize : src.txBuf.length = rxBufSize
  txFits : src.txLen ≤ rxBufSize
  rxSize : dst.rxBuf.length = rxBufSize
  rxFits : dst.rxLen ≤ rxBufSize

section Ends

variable (h : Ends a b s x y src dst)

include h

theorem Ends.length_unsent : src.unsent.length = src.txLen := by
  rw [TcpSocket.unsent, List.length_take, h.txSize, Nat.min_eq_left h.txFits]

theorem Ends.length_unread : dst.unread.length = dst.rxLen := by
  rw [TcpSocket.unread, List.length_take, h.rxSize, Nat.min_eq_left h.rxFits]

theorem Ends.edit_first (hfd : sk'.fd = src.fd) (hsocks : t.socks = Function.update s.socks x (some sk'))
    (hstate : sk'.state = .established) (hsize : sk'.txBuf.length = rxBufSize) (hfits : sk'.txLen ≤ rxBufSize) :
    Ends a b t x y sk' dst where
  first := by rw [findSock_update (findSock_some h.first) hfd hsocks h.first, if_pos rfl]
  second := by rw [findSock_update (findSock_some h.first) hfd hsocks h.second, if_neg h.apart.symm]
  apart := h.apart
  established := hstate
  txSize := hsize
  txFits := hfits
  rxSize := h.rxSize
  rxFits := h.rxFits

theorem Ends.edit_second (hfd : sk'.fd = dst.fd) (hsocks : t.socks = Function.update s.socks y (some sk'))
    (hsize : sk'.rxBuf.length = rxBufSize) (hfits : sk'.rxLen ≤ rxBufSize) : Ends a b t x y src sk' where
  first := by rw [findSock_update (findSock_some h.second) hfd hsocks h.first, if_neg h.apart]
  second := by rw [findSock_update (findSock_some h.second) hfd hsocks h.second, if_pos rfl]
  apart := h.apart
  established := h.established
  txSize := h.txSize
  txFits := h.txFits
  rxSize := hsize
  rxFits := hfits

/-- A send takes as much of the data as there is room for. -/
theorem Ends.send (data : List UInt8) : (min data.length (rxBufSize - src.txLen) = 0 ∧ send a data s = (.error .bufferFull, s)) ∨
    ∃ t src', Tcp.send a data s = (.ok (min data.length (rxBufSize - src.txLen)), t) ∧ Ends a b t x y src' dst ∧
      src'.unsent = src.unsent ++ data.take (rxBufSize - src.txLen) := by
  set n := min data.length (rxBufSize - src.txLen) with hn
  have hrun : Tcp.send a data s = if n = 0 then (.error .bufferFull, s) else
      (Act.lift (memcpy src.txBuf src.txLen (src.txLen + n) (data.take n)) >>= fun txBuf =>
        Act.modify (Stack.setSlot x (some { src with txBuf, txLen := src.txLen + n })) >>= fun _ => pure n) s := by
    rw [Tcp.send, Act.get_bind_run]
    simp only [h.first]
    rw [if_neg (not_not.mpr h.established), subU64_of_le h.txFits, Act.lift_ok_bind_run]
    split_ifs <;> rfl
  by_cases hzero : n = 0
  · rw [if_pos hzero] at hrun
    exact Or.inl ⟨hzero, hrun⟩
  rw [if_neg hzero] at hrun
  have htaken : (data.take n).length = n := by rw [List.length_take]; omega
  have hfits := h.txFits
  have hroom : src.txLen + (data.take n).length ≤ src.txBuf.length := by rw [htaken, h.txSize]; omega
  rw [memcpy_of_le (Nat.le_add_right _ _) (by rw [h.txSize]; omega) (by rw [htaken]; omega), Act.lift_ok_bind_run,
    Act.modify_bind_run] at hrun
  refine Or.inr ⟨_, { src with txBuf := overwrite src.txBuf src.txLen (data.take n), txLen := src.txLen + n }, hrun,
    h.edit_first rfl rfl h.established ((length_overwrite hroom).trans h.txSize) (by dsimp only; omega), ?_⟩
  have htake := @take_overwrite _ _ (data.take n) _ (Nat.le_trans (Nat.le_add_right _ _) hroom)
  rw [htaken] at htake
  have hall : data.take n = data.take (rxBufSize - src.txLen) := by
    rw [hn, Nat.min_comm, ← List.take_take, List.take_length]
  exact htake.trans (congrArg (src.unsent ++ ·) hall)

/-- A receive takes bytes from the front. -/
theorem Ends.recv (outLen : Nat) : (∃ e, recv b outLen s = (.error e, s)) ∨ ∃ bytes t dst',
    Tcp.recv b outLen s = (.ok bytes, t) ∧ Ends a b t x y src dst' ∧ bytes ++ dst'.unread = dst.unread := by
  rw [Tcp.recv, Act.get_bind_run]
  simp only [h.second]
  split_ifs with hclosed hempty
  · exact Or.inl ⟨.closed, rfl⟩
  · exact Or.inl ⟨.bufferEmpty, rfl⟩
  have hmin : min outLen dst.rxLen ≤ dst.rxLen := Nat.min_le_right _ _
  have hlen : dst.rxLen ≤ dst.rxBuf.length := h.rxSize.symm ▸ h.rxFits
  obtain ⟨rxBuf, hshift, hlength, hbytes⟩ := shift_front hmin hlen
  rw [slice_of_le (Nat.zero_le _) (Nat.le_trans hmin hlen), Act.lift_ok_bind_run, hshift, Act.lift_ok_bind_run,
    Act.modify_bind_run]
  refine Or.inr ⟨_, _, { dst with rxBuf, rxLen := dst.rxLen - min outLen dst.rxLen }, rfl,
    h.edit_second rfl rfl (hlength.trans h.rxSize) (Nat.le_trans (Nat.sub_le _ _) h.rxFits), ?_⟩
  rwa [List.drop_zero, Nat.sub_zero]

/-- A delivery moves what there is room for and empties the transmit buffer. -/
theorem Ends.deliver :
    (src.txLen = 0 ∧ loopbackDeliver a b s = (.ok 0, s)) ∨
      (dst.rxLen = rxBufSize ∧ loopbackDeliver a b s = (.error .bufferFull, s)) ∨
      (src.txLen ≠ 0 ∧ dst.rxLen ≠ rxBufSize ∧ ∃ t src' dst',
        loopbackDeliver a b s = (.ok (min src.txLen (rxBufSize - dst.rxLen)), t) ∧ Ends a b t x y src' dst' ∧
        dst'.unread = dst.unread ++ src.unsent.take (rxBufSize - dst.rxLen) ∧ src'.unsent = []) := by
  have hrx := h.rxFits
  have htx := h.txFits
  rw [loopbackDeliver, Act.get_bind_run]
  simp only [h.first, h.second]
  by_cases hempty : src.txLen = 0
  · rw [if_pos hempty]
    exact Or.inl ⟨hempty, rfl⟩
  rw [if_neg hempty, subU64_of_le hrx, Act.lift_ok_bind_run]
  by_cases hzero : min src.txLen (rxBufSize - dst.rxLen) = 0
  · rw [if_pos hzero]
    exact Or.inr (Or.inl ⟨by omega, rfl⟩)
  rw [if_neg hzero]
  set n := min src.txLen (rxBufSize - dst.rxLen) with hn
  have hslice : n ≤ src.txBuf.length := by rw [h.txSize]; omega
  have hlength : (src.txBuf.take n).length = n := List.length_take_of_le hslice
  have hroom : dst.rxLen + (src.txBuf.take n).length ≤ dst.rxBuf.length := by rw [hlength, h.rxSize]; omega
  rw [slice_of_le (Nat.zero_le _) hslice, Act.lift_ok_bind_run, List.drop_zero, Nat.sub_zero,
    memcpy_of_le (Nat.le_add_right _ _) (by rw [h.rxSize]; omega) (by rw [hlength]; omega), Act.lift_ok_bind_run,
    Act.modify_bind_run, Act.modify_bind_run]
  set dst' : TcpSocket := { dst with rxBuf := overwrite dst.rxBuf dst.rxLen (src.txBuf.take n), rxLen := dst.rxLen + n }
  have hfirst : Ends a b { s with socks := Function.update s.socks y (some dst') } x y src dst' :=
    h.edit_second rfl rfl ((length_overwrite hroom).trans h.rxSize) (by show dst.rxLen + n ≤ _; omega)
  have hsecond : Ends a b { s with
      socks := Function.update (Function.update s.socks y (some dst')) x (some { src with txLen := 0 }) } x y
      { src with txLen := 0 } dst' :=
    hfirst.edit_first rfl rfl h.established h.txSize (Nat.zero_le _)
  refine Or.inr (Or.inr ⟨hempty, by omega, _, _, _, ?_, hsecond, ?_, List.take_zero⟩)
  · have hy : s.socks y = some dst := findSock_some h.second
    have hx : Function.update s.socks y (some dst') x = some src := by
      rw [Function.update_of_ne h.apart, findSock_some h.first]
    simp only [hy, Option.map_some]
    change (Outcome.ok n, _) = _
    rw [hx, Option.map_some]
  · have htake := @take_overwrite _ _ (src.txBuf.take n) _ (Nat.le_trans (Nat.le_add_right _ _) hroom)
    rw [hlength] at htake
    refine htake.trans (congrArg (dst.unread ++ ·) ?_)
    rw [TcpSocket.unsent, List.take_take, Nat.min_comm]

end Ends

/-! ### Runs -/

inductive Call where
  | send (data : List UInt8)
  | deliver
  | recv (outLen : Nat)

inductive Reply where
  | count (n : Nat)
  | bytes (bytes : List UInt8)

def Call.run (a b : Int) : Call → Run Reply
  | .send data => do
      let n ← Tcp.send a data
      return .count n
  | .deliver => do
      let n ← loopbackDeliver a b
      return .count n
  | .recv outLen => do
      let bytes ← Tcp.recv b outLen
      return .bytes bytes

/-- The sockets, what `send` has accepted and `recv` has returned, and the sum of what `loopback_deliver` has returned. -/
structure Flow where
  stack : Stack
  accepted : List UInt8 := []
  received : List UInt8 := []
  delivered : Nat := 0

/-- A call and how it ends. -/
abbrev Event := Call × Outcome TcpError Reply

def Flow.log (s : Flow) (event : Event) (stack : Stack) : Flow :=
  match event with
  | (.send data, .ok (.count n)) => { s with stack, accepted := s.accepted ++ data.take n }
  | (.deliver, .ok (.count n)) => { s with stack, delivered := s.delivered + n }
  | (.recv _, .ok (.bytes bytes)) => { s with stack, received := s.received ++ bytes }
  | _ => { s with stack }

def Step (a b : Int) (s : Flow) (event : Event) (t : Flow) : Prop :=
  ∃ stack, event.1.run a b s.stack = (event.2, stack) ∧ t = s.log event stack

/-- The transmit buffer of a socket. -/
def sending (fd : Int) (s : Stack) : List UInt8 := ((findSock fd s).map (·.2.unsent)).getD []

/-- The receive buffer of a socket. -/
def waiting (fd : Int) (s : Stack) : List UInt8 := ((findSock fd s).map (·.2.unread)).getD []

/-- No byte is lost, repeated or moved, and what the deliveries have returned is what came through. -/
def Conserved (a b : Int) (s : Flow) : Prop :=
  s.received ++ waiting b s.stack ++ sending a s.stack = s.accepted ∧
    s.received.length + (waiting b s.stack).length = s.delivered

/-- The books are in order behind the call, which does not trap, changes nothing if it fails, and moves as many bytes as
it returns if it is a delivery. -/
def Clean (a b : Int) (s : Flow) (event : Event) (t : Flow) : Prop :=
  Conserved a b t ∧
    match event with
    | (.deliver, .ok (.count n)) => ∃ moved : List UInt8, moved.length = n ∧
        waiting b t.stack = waiting b s.stack ++ moved ∧ sending a s.stack = moved ++ sending a t.stack
    | (_, .ok _) => True
    | (_, .error _) => t.stack = s.stack
    | (_, .trap) => False

/-- A delivery finds nothing to move, or room for all of it, or no room at all. -/
def Covered (a b : Int) (s : Flow) : Call → Prop
  | .deliver => (waiting b s.stack).length = rxBufSize ∨
      (waiting b s.stack).length + (sending a s.stack).length ≤ rxBufSize
  | _ => True

/-- Both sockets are there, with empty buffers of the size of the arrays. -/
def Connected (a b : Int) (s : Stack) : Prop :=
  ∃ x y src dst, Ends a b s x y src dst ∧ src.txLen = 0 ∧ dst.rxLen = 0

section Steps

variable {f g : Flow} {event : Event}

theorem Ends.sending (h : Ends a b s x y src dst) : sending a s = src.unsent := by
  rw [Tcp.sending, h.first]
  rfl

theorem Ends.waiting (h : Ends a b s x y src dst) : waiting b s = dst.unread := by
  rw [Tcp.waiting, h.second]
  rfl

/-- Between clean calls both sockets are there and the books are in order. -/
def Good (a b : Int) (s : Flow) : Prop := (∃ x y src dst, Ends a b s.stack x y src dst) ∧ Conserved a b s

/-- A call that fails leaves everything as it was. -/
theorem clean_failed {c : Call} {e : TcpError} (hgood : Good a b f) (hrun : c.run a b f.stack = (.error e, f.stack))
    (hevent : event.1 = c) (hstep : Step a b f event g) : Clean a b f event g ∧ Good a b g := by
  obtain ⟨c', o⟩ := event
  obtain ⟨stack, hcall, hg⟩ := hstep
  cases hevent
  rw [hrun] at hcall
  cases hcall
  have hlog : g = f := by
    rw [hg]
    cases c' <;> rfl
  rw [hlog]
  exact ⟨⟨hgood.2, by cases c' <;> rfl⟩, hgood⟩

theorem send_clean {o : Outcome TcpError Reply} (hgood : Good a b f) (h : Step a b f (.send data, o) g) :
    Clean a b f (.send data, o) g ∧ Good a b g := by
  obtain ⟨⟨x, y, src, dst, hends⟩, hconserved⟩ := id hgood
  rcases hends.send data with ⟨-, hfail⟩ | ⟨t, src', hrun, hends', hunsent⟩
  · exact clean_failed hgood (Act.bind_error_run hfail) rfl h
  · obtain ⟨stack, hcall, rfl⟩ := h
    rw [Call.run, Act.bind_ok_run hrun] at hcall
    cases hcall
    have hbooks : Conserved a b (f.log (.send data, .ok (.count (min data.length (rxBufSize - src.txLen)))) t) := by
      rw [Conserved, hends.sending, hends.waiting] at hconserved
      change f.received ++ waiting b t ++ sending a t = f.accepted ++ data.take (min data.length (rxBufSize - src.txLen)) ∧
        f.received.length + (waiting b t).length = f.delivered
      have htaken : data.take (min data.length (rxBufSize - src.txLen)) = data.take (rxBufSize - src.txLen) := by
        rw [Nat.min_comm, ← List.take_take, List.take_length]
      rw [hends'.sending, hends'.waiting, hunsent, ← List.append_assoc, hconserved.1, htaken]
      exact ⟨rfl, hconserved.2⟩
    exact ⟨⟨hbooks, True.intro⟩, ⟨x, y, src', dst, hends'⟩, hbooks⟩

theorem recv_clean {outLen : Nat} {o : Outcome TcpError Reply} (hgood : Good a b f) (h : Step a b f (.recv outLen, o) g) :
    Clean a b f (.recv outLen, o) g ∧ Good a b g := by
  obtain ⟨⟨x, y, src, dst, hends⟩, hconserved⟩ := id hgood
  rcases hends.recv outLen with ⟨e, hfail⟩ | ⟨bytes, t, dst', hrun, hends', hunread⟩
  · exact clean_failed hgood (Act.bind_error_run hfail) rfl h
  · obtain ⟨stack, hcall, rfl⟩ := h
    rw [Call.run, Act.bind_ok_run hrun] at hcall
    cases hcall
    have hbooks : Conserved a b (f.log (.recv outLen, .ok (.bytes bytes)) t) := by
      rw [Conserved, hends.sending, hends.waiting, ← hunread] at hconserved
      obtain ⟨hbytes, hcount⟩ := hconserved
      change f.received ++ bytes ++ waiting b t ++ sending a t = f.accepted ∧
        (f.received ++ bytes).length + (waiting b t).length = f.delivered
      rw [hends'.sending, hends'.waiting]
      refine ⟨?_, ?_⟩
      · rw [← hbytes]
        simp only [List.append_assoc]
      · rw [← hcount, List.length_append, List.length_append, Nat.add_assoc]
    exact ⟨⟨hbooks, True.intro⟩, ⟨x, y, src, dst', hends'⟩, hbooks⟩

/-- A delivery is clean exactly if it leaves nothing behind in the transmit buffer that it empties. -/
theorem deliver_clean {o : Outcome TcpError Reply} (hgood : Good a b f) (h : Step a b f (.deliver, o) g) :
    (Clean a b f (.deliver, o) g ↔ Covered a b f .deliver) ∧ (Covered a b f .deliver → Good a b g) := by
  obtain ⟨⟨x, y, src, dst, hends⟩, hconserved⟩ := id hgood
  have htx := hends.length_unsent
  have hrx := hends.length_unread
  have hfits := hends.rxFits
  rw [Covered, hends.waiting, hends.sending, hrx, htx]
  rcases hends.deliver with ⟨hempty, hrun⟩ | ⟨hfull, hrun⟩ | ⟨hsome, hroom, t, src', dst', hrun, hends', hunread, hunsent⟩
  · obtain ⟨stack, hcall, rfl⟩ := h
    rw [Call.run, Act.bind_ok_run hrun] at hcall
    cases hcall
    have hsame : f.log (.deliver, .ok (.count 0)) f.stack = f := rfl
    rw [hsame]
    exact ⟨iff_of_true ⟨hconserved, [], rfl, (List.append_nil _).symm, rfl⟩ (Or.inr (by omega)), fun _ => hgood⟩
  · have hclean := clean_failed hgood (c := .deliver) (Act.bind_error_run hrun) rfl h
    exact ⟨iff_of_true hclean.1 (Or.inl hfull), fun _ => hclean.2⟩
  · obtain ⟨stack, hcall, rfl⟩ := h
    rw [Call.run, Act.bind_ok_run hrun] at hcall
    cases hcall
    rw [Conserved, hends.sending, hends.waiting] at hconserved
    obtain ⟨hbytes, hcount⟩ := hconserved
    by_cases hall : dst.rxLen + src.txLen ≤ rxBufSize
    · have hmoved : src.unsent.take (rxBufSize - dst.rxLen) = src.unsent := List.take_of_length_le (by rw [htx]; omega)
      have hmin : min src.txLen (rxBufSize - dst.rxLen) = src.txLen := by omega
      rw [hmoved] at hunread
      have hbooks : Conserved a b (f.log (.deliver, .ok (.count (min src.txLen (rxBufSize - dst.rxLen)))) t) := by
        change f.received ++ waiting b t ++ sending a t = f.accepted ∧
          f.received.length + (waiting b t).length = f.delivered + min src.txLen (rxBufSize - dst.rxLen)
        rw [hends'.sending, hends'.waiting, hunread, hunsent, hmin, List.append_nil, ← List.append_assoc, hbytes,
          List.length_append, htx, ← hcount, Nat.add_assoc]
        exact ⟨rfl, rfl⟩
      refine ⟨iff_of_true ⟨hbooks, src.unsent, htx.trans hmin.symm, ?_, ?_⟩ (Or.inr hall), fun _ =>
        ⟨⟨x, y, src', dst', hends'⟩, hbooks⟩⟩
      · exact hends'.waiting.trans (hunread.trans (congrArg (· ++ _) hends.waiting.symm))
      · change sending a f.stack = src.unsent ++ sending a t
        rw [hends.sending, hends'.sending, hunsent, List.append_nil]
    · have hno : ¬(dst.rxLen = rxBufSize ∨ dst.rxLen + src.txLen ≤ rxBufSize) := not_or.mpr ⟨hroom, hall⟩
      refine ⟨iff_of_false (fun hclean => ?_) hno, fun hcovered => absurd hcovered hno⟩
      -- the rest of the transmit buffer is gone
      have hlost : f.received ++ waiting b t ++ sending a t = f.accepted := hclean.1.1
      rw [hends'.sending, hends'.waiting, hunread, hunsent, ← hbytes] at hlost
      have hlengths := congrArg List.length hlost
      simp only [List.length_append, List.length_take, List.length_nil, htx] at hlengths
      omega

theorem step_iff (hgood : Good a b f) (h : Step a b f event g) :
    (Clean a b f event g ↔ Covered a b f event.1) ∧ (Covered a b f event.1 → Good a b g) := by
  obtain ⟨c, o⟩ := event
  cases c with
  | send data =>
      obtain ⟨hclean, hgood'⟩ := send_clean hgood h
      exact ⟨iff_of_true hclean True.intro, fun _ => hgood'⟩
  | deliver => exact deliver_clean hgood h
  | recv outLen =>
      obtain ⟨hclean, hgood'⟩ := recv_clean hgood h
      exact ⟨iff_of_true hclean True.intro, fun _ => hgood'⟩

end Steps

theorem Connected.good (h : Connected a b s) : Good a b { stack := s } := by
  obtain ⟨x, y, src, dst, hends, htx, hrx⟩ := h
  refine ⟨⟨x, y, src, dst, hends⟩, ?_⟩
  rw [Conserved, hends.sending, hends.waiting, TcpSocket.unsent, TcpSocket.unread, htx, hrx]
  exact ⟨rfl, rfl⟩

/-- The runs that lose and reorder nothing are those in which no delivery finds room for a part only of what it has to
move. -/
theorem stream_conserved_iff (h : Connected a b s) (events : List Event) (t : Flow) :
    Runs.Run (fun s e t => Step a b s e t ∧ Clean a b s e t) { stack := s } events t ↔
      Runs.Run (fun s e t => Step a b s e t ∧ Covered a b s e.1) { stack := s } events t :=
  Runs.Run.along_iff (I := Good a b) (B := fun s (e : Event) _ => Covered a b s e.1) h.good
    (fun _ _ _ hs hstep => (step_iff hs hstep).1) fun _ _ _ hs hstep => (step_iff hs hstep).2

/-! ### A handshake -/

def zeros : List UInt8 := List.replicate rxBufSize 0

def handshake : Run Unit := do
  let srv ← socket zeros zeros
  let cli ← socket zeros zeros
  passiveOpen srv 80
  activeOpen cli 80
  transition srv .recvSyn
  transition srv .sendAck
  transition cli .recvSynAck

/-- The client has descriptor 201, the server 200. -/
def shaken : Stack := (handshake {}).2

def client : TcpSocket := { state := .established, fd := 201, remotePort := 80, rxBuf := zeros, txBuf := zeros }
def server : TcpSocket := { state := .established, fd := 200, localPort := 80, rxBuf := zeros, txBuf := zeros }

theorem shaken_ends : Ends 201 200 shaken ⟨1, by decide⟩ ⟨0, by decide⟩ client server where
  first := rfl
  second := rfl
  apart := by decide
  established := rfl
  txSize := List.length_replicate
  txFits := Nat.zero_le _
  rxSize := List.length_replicate
  rxFits := Nat.zero_le _

theorem shaken_connected : Connected 201 200 shaken := ⟨_, _, client, server, shaken_ends, rfl, rfl⟩

section Samples

variable {f : Flow}

/-- So many bytes were sent and received, and so many wait at each end. -/
structure Lengths (s : Flow) (accepted received sending waiting : Nat) : Prop where
  ends : ∃ src dst, Ends 201 200 s.stack ⟨1, by decide⟩ ⟨0, by decide⟩ src dst ∧ src.txLen = sending ∧ dst.rxLen = waiting
  accepted : s.accepted.length = accepted
  received : s.received.length = received

variable {accepted received atSender atReceiver : Nat}

/-- Data that fit are accepted. -/
theorem Lengths.send (h : Lengths f accepted received atSender atReceiver) (hdata : data ≠ [])
    (hfits : atSender + data.length ≤ rxBufSize) : ∃ g, Step 201 200 f (.send data, .ok (.count data.length)) g ∧
      Lengths g (accepted + data.length) received (atSender + data.length) atReceiver := by
  obtain ⟨⟨src, dst, hends, rfl, hrx⟩, haccepted, hreceived⟩ := h
  have hpos := List.length_pos_iff.mpr hdata
  have hmin : min data.length (rxBufSize - src.txLen) = data.length := by omega
  rcases hends.send data with ⟨hzero, -⟩ | ⟨t, src', hrun, hends', hunsent⟩
  · omega
  · rw [hmin] at hrun
    refine ⟨_, ⟨t, Act.bind_ok_run hrun, rfl⟩, ⟨src', dst, hends', ?_, hrx⟩, ?_, hreceived⟩
    · rw [← hends'.length_unsent, hunsent, List.take_of_length_le (by omega), List.length_append, hends.length_unsent]
    · change (f.accepted ++ data.take data.length).length = _
      rw [List.take_length, List.length_append, haccepted]

/-- A delivery to a buffer with room. -/
theorem Lengths.deliver (h : Lengths f accepted received atSender atReceiver) (hsome : atSender ≠ 0)
    (hroom : atReceiver ≠ rxBufSize) :
    ∃ g, Step 201 200 f (.deliver, .ok (.count (min atSender (rxBufSize - atReceiver)))) g ∧
      Lengths g accepted received 0 (atReceiver + min atSender (rxBufSize - atReceiver)) := by
  obtain ⟨⟨src, dst, hends, rfl, rfl⟩, haccepted, hreceived⟩ := h
  rcases hends.deliver with ⟨hempty, -⟩ | ⟨hfull, -⟩ | ⟨-, -, t, src', dst', hrun, hends', hunread, hunsent⟩
  · exact absurd hempty hsome
  · exact absurd hfull hroom
  · refine ⟨_, ⟨t, Act.bind_ok_run hrun, rfl⟩, ⟨src', dst', hends', ?_, ?_⟩, haccepted, hreceived⟩
    · rw [← hends'.length_unsent, hunsent, List.length_nil]
    · rw [← hends'.length_unread, hunread, List.length_append, hends.length_unread, List.length_take, hends.length_unsent,
        Nat.min_comm]

/-- What was sent is on its way or has arrived. -/
theorem Lengths.balanced (h : Lengths f accepted received atSender atReceiver) (hconserved : Conserved 201 200 f) :
    received + atReceiver + atSender = accepted := by
  obtain ⟨⟨src, dst, hends, rfl, rfl⟩, haccepted, hreceived⟩ := h
  have hlengths := congrArg List.length hconserved.1
  rw [hends.sending, hends.waiting, List.length_append, List.length_append, hends.length_unsent, hends.length_unread,
    haccepted, hreceived] at hlengths
  exact hlengths

theorem shaken_lengths : Lengths { stack := shaken } 0 0 0 0 := ⟨⟨client, server, shaken_ends, rfl, rfl⟩, rfl, rfl⟩

end Samples

theorem stream_conserved_shaken : Connected 201 200 shaken ∧ ∃ g,
    Runs.Run (fun s e t => Step 201 200 s e t ∧ Clean 201 200 s e t) { stack := shaken }
      [(.send [72, 105], .ok (.count 2)), (.deliver, .ok (.count 2))] g := by
  obtain ⟨f, hsend, hf⟩ := shaken_lengths.send (List.cons_ne_nil 72 [105]) (by decide)
  obtain ⟨g, hdeliver, -⟩ := hf.deliver (by decide) (by decide)
  have hcovered : Covered 201 200 f .deliver := by
    obtain ⟨⟨src, dst, hends, htx, hrx⟩, -, -⟩ := hf
    right
    rw [hends.waiting, hends.sending, hends.length_unread, hends.length_unsent, htx, hrx]
    decide
  refine ⟨shaken_connected, g, (stream_conserved_iff shaken_connected _ g).mpr ?_⟩
  exact (Runs.Run.single ⟨hsend, True.intro⟩).snoc ⟨hdeliver, hcovered⟩

/-- Two bytes wait at the server when a full transmit buffer is delivered: the last two of it are lost. -/
theorem full_buffer_loses : ¬∀ events g, Runs.Run (Step 201 200) { stack := shaken } events g →
    Runs.Run (fun s e t => Step 201 200 s e t ∧ Clean 201 200 s e t) { stack := shaken } events g := by
  intro hall
  have hlength : zeros.length = rxBufSize := List.length_replicate
  have hzeros : zeros ≠ [] := List.ne_nil_of_length_pos (hlength ▸ by decide)
  obtain ⟨g₁, hfirst, h₁⟩ := shaken_lengths.send (List.cons_ne_nil 72 [105]) (by decide)
  obtain ⟨g₂, hsecond, h₂⟩ := h₁.deliver (by decide) (by decide)
  obtain ⟨g₃, hthird, h₃⟩ := h₂.send hzeros (by rw [hlength]; decide)
  rw [hlength] at h₃
  obtain ⟨g₄, hfourth, h₄⟩ := h₃.deliver (by decide) (by decide)
  have hrun := hall _ g₄ ((((Runs.Run.single hfirst).snoc hsecond).snoc hthird).snoc hfourth)
  obtain ⟨g, -, -, hclean⟩ := hrun.snoc_inv
  exact absurd (h₄.balanced hclean.1) (by decide)

end Kernel.Tcp
