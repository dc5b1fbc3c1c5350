import ZigKernel.KernelNetCalls
import ZigKernel.KernelSocket

/-! What the calls on sockets do to the table and to the storage. -/

namespace Kernel.Sockets

open Zig

variable {s t : State} {x y : Slot} {sk p : Socket} {fd : Int} {domain sockType proto n : Nat} {data : List UInt8}

def usedSlots (s : State) : Nat := (List.finRange maxSock).countP fun x => (s.socks x).isSome

/-- What a socket has received and not yet given out. -/
def unread (s : State) (sk : Socket) : List UInt8 := (s.queue sk).take sk.rxLen

/-- The descriptors that are in use were given out, each of them once. -/
structure Numbered (s : State) : Prop where
  below : ∀ x sk, s.socks x = some sk → sk.fd < s.nextFd
  inj : ∀ x y sk sk', s.socks x = some sk → s.socks y = some sk' → sk.fd = sk'.fd → x = y

/-! ### `findSock` -/

theorem findSock_some (h : findSock fd s = some (x, sk)) : s.socks x = some sk ∧ sk.fd = fd := by
  simp only [findSock, Option.bind_eq_bind, Option.bind_eq_some_iff, Option.pure_def, Option.some.injEq, Prod.mk.injEq] at h
  obtain ⟨x', hfind, sk', hslot, rfl, rfl⟩ := h
  refine ⟨hslot, ?_⟩
  simpa [hslot] using Table.find?_some hfind

theorem findSock_none (h : findSock fd s = none) (hx : s.socks x = some sk) : sk.fd ≠ fd := by
  intro hfd
  obtain ⟨y, hfind⟩ : ∃ y, Table.find? s.socks (fun slot => slot.any (·.fd = fd)) = some y :=
    Table.find?_isSome (i := x) (by simp [hx, hfd])
  obtain ⟨sk', hslot, -⟩ : ∃ sk', s.socks y = some sk' ∧ sk'.fd = fd := by
    simpa [Option.any_eq_true] using Table.find?_some hfind
  simp [findSock, hfind, hslot] at h

/-- Sockets are closed or keep their descriptor. -/
theorem Numbered.kept (h : Numbered s) (hnext : t.nextFd = s.nextFd)
    (hback : ∀ x sk, t.socks x = some sk → ∃ old, s.socks x = some old ∧ sk.fd = old.fd) : Numbered t := by
  constructor
  · intro x sk hx
    obtain ⟨old, hold, hfd⟩ := hback x sk hx
    rw [hnext, hfd]
    exact h.below x old hold
  · intro x y sk sk' hx hy heq
    obtain ⟨old, hold, hfd⟩ := hback x sk hx
    obtain ⟨old', hold', hfd'⟩ := hback y sk' hy
    exact h.inj x y old old' hold hold' (hfd ▸ hfd' ▸ heq)

theorem findSock_eq (h : Numbered s) (hx : s.socks x = some sk) : findSock sk.fd s = some (x, sk) := by
  cases hfind : findSock sk.fd s with
  | none => exact absurd rfl (findSock_none hfind hx)
  | some found =>
      obtain ⟨hslot, hfd⟩ := findSock_some hfind
      have hxy : found.1 = x := h.inj _ _ _ _ hslot hx hfd
      have hsk : found.2 = sk := by
        rw [hxy, hx] at hslot
        exact (Option.some.inj hslot).symm
      exact congrArg some (Prod.ext hxy hsk)

/-! ### `socketCreate` -/

/-- A new socket without a peer is in a slot that was empty. -/
structure Created (domain : Nat) (x : Slot) (sk : Socket) (s t : State) : Prop where
  empty : s.socks x = none
  fd : sk.fd = s.nextFd
  domain : sk.domain = domain
  peer : sk.peerSocket = none
  rxLen : sk.rxLen = 0
  state : t = { s.setSlot x (some sk) with nextFd := s.nextFd + 1, sockCount := s.sockCount + 1 }

theorem ne_none_of_full (h : maxSock ≤ usedSlots s) (x : Slot) : s.socks x ≠ none := by
  have hall : usedSlots s = (List.finRange maxSock).length := by
    have hle : usedSlots s ≤ (List.finRange maxSock).length := List.countP_le_length
    rw [List.length_finRange] at hle ⊢
    omega
  exact Option.isSome_iff_ne_none.mp (List.countP_eq_length.mp hall x (List.mem_finRange x))

theorem usedSlots_setSlot (s : State) (x : Slot) (slot : Option Socket) :
    usedSlots (s.setSlot x slot) + (if (s.socks x).isSome then 1 else 0) = usedSlots s + if slot.isSome then 1 else 0 :=
  Table.countP_update s.socks Option.isSome x slot

/-- A call fails when no slot is empty. -/
theorem socketCreate_ensures (hcount : s.sockCount = usedSlots s) : Act.Ensures (socketCreate domain sockType proto) s
    (fun fd t => fd = s.nextFd ∧ ∃ x sk, Created domain x sk s t) (fun _ t => t = s ∧ ∀ x, s.socks x ≠ none) True := by
  refine Act.Ensures.get_bind (.guard (fun hfull => ⟨rfl, ne_none_of_full (hcount ▸ hfull)⟩) fun _ => ?_)
  cases hfind : Table.find? s.socks (·.isNone) with
  | none =>
      refine .fail ⟨rfl, fun x => ?_⟩
      simpa [Option.isSome_iff_ne_none] using Table.find?_none.mp hfind x
  | some x =>
      have hempty : s.socks x = none := by simpa using Table.find?_some hfind
      refine .lift_bind (fun a ha => ?_) (fun e he => absurd he addI32_ne_error) fun _ => trivial
      refine .modify_bind (.modify_bind (.lift_bind (fun b hb => ?_) (fun e he => absurd he addU64_ne_error) fun _ => trivial))
      obtain rfl := (addI32_eq_ok.mp ha).2
      obtain rfl := (addU64_eq_ok.mp hb).2
      exact .modify_bind (.pure ⟨rfl, x, _, hempty, rfl, rfl, rfl, rfl, rfl⟩)

theorem Created.usedSlots (h : Created domain x sk s t) : usedSlots t = usedSlots s + 1 := by
  have hcount := usedSlots_setSlot s x (some sk)
  rw [h.empty] at hcount
  rw [h.state]
  exact hcount

theorem Created.slot (h : Created domain x sk s t) : t.socks x = some sk := by
  rw [h.state]
  exact Function.update_self _ _ _

theorem Created.other (h : Created domain x sk s t) (hy : y ≠ x) : t.socks y = s.socks y := by
  rw [h.state]
  exact Function.update_of_ne hy _ _

/-- The sockets that are open behind the call. -/
theorem Created.cases (h : Created domain x sk s t) {sk' : Socket} (hy : t.socks y = some sk') :
    (y = x ∧ sk' = sk) ∨ (y ≠ x ∧ s.socks y = some sk') := by
  by_cases hyx : y = x
  · subst hyx
    rw [h.slot] at hy
    exact Or.inl ⟨rfl, (Option.some.inj hy).symm⟩
  · exact Or.inr ⟨hyx, (h.other hyx).symm.trans hy⟩

theorem Created.nextFd (h : Created domain x sk s t) : t.nextFd = s.nextFd + 1 := by rw [h.state]

theorem Created.count (h : Created domain x sk s t) (hcount : s.sockCount = Sockets.usedSlots s) :
    t.sockCount = Sockets.usedSlots t := by
  rw [h.usedSlots, ← hcount, h.state]

theorem Created.numbered (h : Created domain x sk s t) (hs : Numbered s) : Numbered t := by
  constructor
  · intro y sk' hy
    rw [h.nextFd]
    rcases h.cases hy with ⟨-, rfl⟩ | ⟨-, hy⟩
    · rw [h.fd]
      exact Int.lt_succ _
    · exact (hs.below y sk' hy).trans (Int.lt_succ _)
  · intro y z sk' sk'' hy hz heq
    rcases h.cases hy with ⟨rfl, rfl⟩ | ⟨-, hy⟩ <;> rcases h.cases hz with ⟨rfl, rfl⟩ | ⟨-, hz⟩
    · rfl
    · exact absurd (heq ▸ h.fd) (hs.below z sk'' hz).ne
    · exact absurd (heq ▸ h.fd) (hs.below y sk' hy).ne
    · exact hs.inj y z sk' sk'' hy hz heq

/-! ### `socketpair` -/

/-- A pair takes two empty slots, or there was no empty one or one only. -/
theorem socketpair_ensures (hcount : s.sockCount = usedSlots s) (hs : Numbered s) :
    Act.Ensures (socketpair domain sockType proto) s
      (fun fds t => fds = (s.nextFd, s.nextFd + 1) ∧ ∃ x y sk1 sk2 s1 s2, Created domain x sk1 s s1 ∧
        Created domain y sk2 s1 s2 ∧ t = s2.pair domain x y)
      (fun _ t => (t = s ∧ ∀ x, s.socks x ≠ none) ∨ ∃ x, s.socks x = none ∧ ∀ y, y ≠ x → s.socks y ≠ none) True := by
  refine .bind (.mono (socketCreate_ensures hcount) (fun _ _ h => h) (fun _ _ h => Or.inl h) id) ?_
  rintro _ s1 ⟨rfl, x, sk1, hfirst⟩
  refine .bind (.mono (socketCreate_ensures (hfirst.count hcount)) (fun _ _ h => h) (fun _ _ h => Or.inr ?_) id) ?_
  · exact ⟨x, hfirst.empty, fun y hy => hfirst.other hy ▸ h.2 y⟩
  rintro _ s2 ⟨rfl, y, sk2, hsecond⟩
  have hnumbered := hsecond.numbered (hfirst.numbered hs)
  have hyx : x ≠ y := by
    rintro rfl
    have hempty := hsecond.empty
    rw [hfirst.slot] at hempty
    cases hempty
  have hx : findSock s.nextFd s2 = some (x, sk1) := by
    rw [← hfirst.fd]
    exact findSock_eq hnumbered ((hsecond.other hyx).trans hfirst.slot)
  have hy : findSock s1.nextFd s2 = some (y, sk2) := by
    rw [← hsecond.fd]
    exact findSock_eq hnumbered hsecond.slot
  apply Act.Ensures.get_bind
  simp only [hx, hy]
  exact .modify_bind (.pure ⟨by rw [hfirst.nextFd], x, y, sk1, sk2, s1, s2, hfirst, hsecond, rfl⟩)

section Pairs

variable {a b : Option Socket} {f : Socket → Socket}

theorem edit_first (hxy : x ≠ y) :
    ((s.setSlot x a).setSlot y b).edit x f = (s.setSlot x (a.map f)).setSlot y b := by
  have hslot : ((s.setSlot x a).setSlot y b).socks x = a := by
    show Function.update (Function.update s.socks x a) y b x = a
    rw [Function.update_of_ne hxy, Function.update_self]
  rw [State.edit, hslot]
  show { s with socks := Function.update (Function.update (Function.update s.socks x a) y b) x (a.map f) } = _
  rw [Function.update_comm hxy.symm, Function.update_idem]
  rfl

theorem edit_second : ((s.setSlot x a).setSlot y b).edit y f = (s.setSlot x a).setSlot y (b.map f) := by
  have hslot : ((s.setSlot x a).setSlot y b).socks y = b := Function.update_self _ _ _
  rw [State.edit, hslot]
  show { s with socks := Function.update (Function.update (Function.update s.socks x a) y b) y (b.map f) } = _
  rw [Function.update_idem]
  rfl

/-- A socket gets a peer. -/
structure Joined (sk : Socket) (peer : Slot) (sk' : Socket) : Prop where
  fd : sk'.fd = sk.fd
  domain : sk'.domain = sk.domain
  peer : sk'.peerSocket = some peer
  rxLen : sk'.rxLen = sk.rxLen

/-- The two sockets of a pair get each other as peer, and nothing else changes. -/
theorem pair_joins {sk1 sk2 : Socket} (domain : Nat) (hxy : x ≠ y) (hx : s.socks x = some sk1) (hy : s.socks y = some sk2) :
    ∃ sk1' sk2', s.pair domain x y = (s.setSlot x (some sk1')).setSlot y (some sk2') ∧ Joined sk1 y sk1' ∧
      Joined sk2 x sk2' := by
  have hself : s = (s.setSlot x (some sk1)).setSlot y (some sk2) := by
    rw [← hx, ← hy]
    simp [State.setSlot]
  generalize hjoined : s.pair domain x y = t
  rw [hself, State.pair] at hjoined
  by_cases hunix : domain = afUnix
  · rw [if_pos hunix, edit_first hxy, edit_second, edit_first hxy, edit_second] at hjoined
    exact ⟨_, _, hjoined.symm, ⟨rfl, rfl, rfl, rfl⟩, ⟨rfl, rfl, rfl, rfl⟩⟩
  · rw [if_neg hunix, edit_first hxy, edit_second] at hjoined
    exact ⟨_, _, hjoined.symm, ⟨rfl, rfl, rfl, rfl⟩, ⟨rfl, rfl, rfl, rfl⟩⟩

end Pairs

/-! ### `closeSocket` -/

theorem closeSocket_ensures (hcount : s.sockCount = usedSlots s) : Act.Ensures (closeSocket fd) s
    (fun _ t => t = s ∨ ∃ x sk, s.socks x = some sk ∧ t = { s.setSlot x none with sockCount := s.sockCount - 1 } ∧
      t.sockCount = usedSlots t) (fun _ _ => False) False := by
  apply Act.Ensures.get_bind
  cases hfind : findSock fd s with
  | none => exact Or.inl rfl
  | some found =>
      have hx := (findSock_some hfind).1
      have hused : usedSlots (s.setSlot found.1 none) + 1 = usedSlots s := by
        have hcount := usedSlots_setSlot s found.1 none
        rw [hx] at hcount
        exact hcount
      have hpos : 1 ≤ s.sockCount := by omega
      refine .modify_bind (.lift_bind (fun n hn => ?_) (fun e he => ?_) fun htrap => ?_)
      · obtain ⟨-, rfl⟩ := subU64_eq_ok.mp hn
        refine Or.inr ⟨found.1, found.2, hx, rfl, ?_⟩
        show s.sockCount - 1 = usedSlots (s.setSlot found.1 none)
        omega
      · rw [subU64_of_le hpos] at he
        cases he
      · rw [subU64_of_le hpos] at htrap
        cases htrap

/-! ### `send` and `recv` of a pair -/

/-- The storage of a socket is written, and its length with it. -/
def rewritten (x : Slot) (sk : Socket) (b : Storage) (bytes : List UInt8) (m : Nat) (s : State) : State :=
  { s.setSlot x (some { sk with rxLen := m }) with unixBufs := Function.update s.unixBufs b bytes }

theorem queue_of_some {b : Storage} (h : sk.rxQueue = some b) : s.queue sk = s.unixBufs b := by
  rw [State.queue, h]
  rfl

theorem fill_edit {b : Storage} {bytes : List UInt8} {m : Nat} {f : Socket → Socket} (hx : s.socks x = some sk)
    (hf : f sk = { sk with rxLen := m }) : (s.fill (some b) bytes).edit x f = rewritten x sk b bytes m s := by
  have hslot : (s.fill (some b) bytes).socks x = some sk := hx
  rw [State.edit, hslot, Option.map_some, hf]
  rfl

/-- There are bytes in a queue only if there is storage. -/
theorem exists_storage (h : (s.queue sk).length ≠ 0) : ∃ b, sk.rxQueue = some b := by
  cases hq : sk.rxQueue with
  | some b => exact ⟨b, rfl⟩
  | none =>
      rw [State.queue, hq] at h
      exact absurd rfl h

/-- The first `n` bytes of `data` stand behind those that `p` has not read. -/
structure Accepted (data : List UInt8) (x : Slot) (p : Socket) (b : Storage) (bytes : List UInt8) (n : Nat) (s t : State) :
    Prop where
  storage : p.rxQueue = some b
  state : t = rewritten x p b bytes (p.rxLen + n) s
  pos : 0 < n
  le : n ≤ data.length
  room : p.rxLen + n ≤ (s.unixBufs b).length
  length : bytes.length = (s.unixBufs b).length
  before : ∀ m ≤ p.rxLen, bytes.take m = (s.unixBufs b).take m
  take : bytes.take (p.rxLen + n) = unread s p ++ data.take n

theorem sendUnix_ensures (hp : s.socks x = some p) (hfits : p.rxLen ≤ (s.queue p).length) :
    Act.Ensures (sendUnix x data) s (fun n t => ∃ b bytes, Accepted data x p b bytes n s t) (fun _ t => t = s) False := by
  rw [sendUnix]
  apply Act.Ensures.get_bind
  simp only [hp, subU64_of_le hfits]
  apply Act.Ensures.run_bind (Act.lift_run _ _)
  set n := min data.length ((s.queue p).length - p.rxLen) with hn
  refine .guard (fun _ => rfl) fun hpos => ?_
  obtain ⟨b, hb⟩ : ∃ b, p.rxQueue = some b := exists_storage (s := s) (by omega)
  have hqueue : s.queue p = s.unixBufs b := queue_of_some hb
  have hlength : (data.take n).length = n := List.length_take_of_le (by omega)
  have hcopy : (memcpy (s.queue p) p.rxLen (p.rxLen + n) (data.take n) : Outcome Net.NetError _) =
      .ok (overwrite (s.queue p) p.rxLen (data.take n)) :=
    memcpy_of_le (Nat.le_add_right _ _) (by omega) (hlength.trans (Nat.add_sub_cancel_left _ _).symm)
  rw [hcopy]
  apply Act.Ensures.run_bind (Act.lift_run _ _)
  rw [hqueue] at hfits hn ⊢
  refine .modify_bind (.modify_bind (.pure ⟨b, overwrite (s.unixBufs b) p.rxLen (data.take n), ?_⟩))
  constructor
  · exact hb
  · rw [hb]
    exact fill_edit hp rfl
  · omega
  · omega
  · omega
  · exact length_overwrite (by omega)
  · exact fun m hm => take_overwrite_of_le hm hfits
  · rw [unread, hqueue, ← take_overwrite hfits, hlength]

/-- The first bytes are given out, and what is left stands at the front. -/
structure Taken (x : Slot) (sk : Socket) (b : Storage) (bytes left : List UInt8) (m n : Nat) (s t : State) : Prop where
  storage : sk.rxQueue = some b
  state : t = rewritten x sk b left m s
  le : m ≤ sk.rxLen
  length : left.length = (s.unixBufs b).length
  take : bytes ++ left.take m = unread s sk
  same : left = s.unixBufs b ∨ n < sk.rxLen

/-- What is left is moved to the front, and must not reach over where it comes from. -/
theorem recvUnix_ensures (hx : s.socks x = some sk) (hfits : sk.rxLen ≤ (s.queue sk).length) :
    Act.Ensures (recvUnix x sk n) s (fun bytes t => ∃ b left m, Taken x sk b bytes left m n s t) (fun _ t => t = s)
      ¬sk.rxLen ≤ 2 * n := by
  rw [recvUnix]
  refine .get_bind (.guard (fun _ => rfl) fun hpos => ?_)
  obtain ⟨b, hb⟩ : ∃ b, sk.rxQueue = some b := exists_storage (s := s) (by omega)
  have hqueue : s.queue sk = s.unixBufs b := queue_of_some hb
  set k := min n sk.rxLen with hk
  rw [hqueue] at hfits
  have hslice : (Zig.slice (s.unixBufs b) 0 k : Outcome Net.NetError _) = .ok ((s.unixBufs b).take k) :=
    slice_of_le (Nat.zero_le k) (by omega)
  have hunread : unread s sk = (s.unixBufs b).take sk.rxLen := by rw [unread, hqueue]
  have hfirst : (s.unixBufs b).take k = (unread s sk).take k := by
    rw [hunread, List.take_take, Nat.min_eq_left (min_le_right _ _)]
  simp only [hqueue, hslice]
  apply Act.Ensures.run_bind (Act.lift_run _ _)
  by_cases hall : sk.rxLen ≤ n
  · have hnone : ¬sk.rxLen - k > 0 := by omega
    rw [if_neg hnone]
    apply Act.Ensures.run_bind (Act.lift_run _ _)
    refine .modify_bind (.modify_bind (.pure ⟨b, s.unixBufs b, sk.rxLen - k, hb, ?_, Nat.sub_le _ _, rfl, ?_, Or.inl rfl⟩))
    · rw [hb]
      exact fill_edit hx rfl
    · have hzero : sk.rxLen - k = 0 := by omega
      have hlength : (unread s sk).length ≤ k := by
        rw [hunread, List.length_take]
        omega
      rw [hzero, List.take_zero, List.append_nil, hfirst, List.take_of_length_le hlength]
  · have hsome : sk.rxLen - k > 0 := by omega
    have hkn : k = n := by omega
    rw [if_pos hsome]
    by_cases hhalf : sk.rxLen ≤ 2 * n
    · obtain ⟨left, hcopy, hlength, htake⟩ := take_copyWithin (ε := Net.NetError) (a := s.unixBufs b) (n := k)
        (m := sk.rxLen - k) (by omega) (by omega)
      rw [hcopy]
      apply Act.Ensures.run_bind (Act.lift_run _ _)
      refine .modify_bind (.modify_bind (.pure ⟨b, left, sk.rxLen - k, hb, ?_, Nat.sub_le _ _, hlength, ?_,
        Or.inr (by omega)⟩))
      · rw [hb]
        exact fill_edit hx rfl
      · rw [htake, Nat.add_sub_cancel' (by omega), hfirst, ← hunread, List.take_append_drop]
    · rw [copyWithin_trap (by omega) (by omega), Act.Ensures, Act.lift_trap_bind_run]
      exact hhalf

/-! ### Which way a call goes -/

theorem send_missing (h : findSock fd s = none) : send fd data s = (.error .notFound, s) := by
  rw [send, Act.get_bind_run, h]
  rfl

theorem send_unix {peer : Slot} (h : findSock fd s = some (x, sk)) (hpeer : sk.unixPeer = some peer) :
    send fd data s = sendUnix peer data s := by
  rw [send, Act.get_bind_run, h]
  simp only [hpeer]

theorem send_net (h : findSock fd s = some (x, sk)) (hpeer : sk.unixPeer = none) :
    send fd data s = netCall (Net.sendInet data) s := by
  rw [send, Act.get_bind_run, h]
  simp only [hpeer]

theorem recv_missing (h : findSock fd s = none) : recv fd n s = (.error .notFound, s) := by
  rw [recv, Act.get_bind_run, h]
  rfl

theorem recv_unix {peer : Slot} (h : findSock fd s = some (x, sk)) (hpeer : sk.unixPeer = some peer) :
    recv fd n s = recvUnix x sk n s := by
  rw [recv, Act.get_bind_run, h]
  simp only [hpeer]

theorem recv_net (h : findSock fd s = some (x, sk)) (hpeer : sk.unixPeer = none) :
    recv fd n s = netCall (Net.recvInet n) s := by
  rw [recv, Act.get_bind_run, h]
  simp only [hpeer]

theorem netCall_ensures {α : Type} {m : Net.Run α} {Q : α → Net.Stack → Prop} {E : Net.NetError → Net.Stack → Prop}
    {T : Prop} (h : Act.Ensures m s.net Q E T) : Act.Ensures (netCall m) s (fun a t => ∃ net, Q a net ∧ t = { s with net })
      (fun e t => ∃ net, E e net ∧ t = { s with net }) T := by
  rw [Act.Ensures] at h
  rw [Act.Ensures, netCall, Act.zoom]
  split at h
  next a net hrun =>
    rw [hrun]
    exact ⟨net, h, rfl⟩
  next e net hrun =>
    rw [hrun]
    exact ⟨net, h, rfl⟩
  next net hrun =>
    rw [hrun]
    exact h

end Kernel.Sockets
