import ZigKernel.KernelNetRuns
import ZigKernel.KernelSocketCalls

/-! The sockets over sequences of calls. Beside the table stand the books: which descriptors were made as a pair, and
for each descriptor the bytes that were accepted from it and those that were given out on it. What is given out at one
end of a pair is a prefix of what was accepted at the other end in the runs in which no call touches the storage or the
slot of another socket. -/

namespace Kernel.Sockets

open Zig

structure Books where
  state : State
  /-- The other end of a pair of `AF_UNIX`. -/
  mate : Int → Option Int := fun _ => none
  sent : Int → List UInt8 := fun _ => []
  got : Int → List UInt8 := fun _ => []

/-- A fresh table over so many opened devices. -/
def start (k : Nat) : Books := { state := { net := Net.opened k } }

def link (domain : Nat) (fd1 fd2 : Int) (mate : Int → Option Int) : Int → Option Int :=
  if domain = afUnix then Function.update (Function.update mate fd1 (some fd2)) fd2 (some fd1) else mate

inductive Event where
  | created (fd : Int)
  | notCreated (e : Net.NetError)
  | paired (fd1 fd2 : Int)
  | notPaired (e : Net.NetError)
  | sent (fd : Int) (data : List UInt8) (n : Nat)
  | refused (fd : Int) (data : List UInt8) (e : Net.NetError)
  | sendTrapped (fd : Int) (data : List UInt8)
  | received (fd : Int) (bufLen : Nat) (bytes : List UInt8)
  | nothing (fd : Int) (bufLen : Nat) (e : Net.NetError)
  | recvTrapped (fd : Int) (bufLen : Nat)
  | closed (fd : Int)

/-- One call. A trap ends the program, and the books stay as they were. -/
inductive Step (s : Books) : Event → Books → Prop where
  | created {domain sockType proto : Nat} {fd : Int} {state : State}
      (h : socketCreate domain sockType proto s.state = (.ok fd, state)) : Step s (.created fd) { s with state }
  | notCreated {domain sockType proto : Nat} {e : Net.NetError} {state : State}
      (h : socketCreate domain sockType proto s.state = (.error e, state)) : Step s (.notCreated e) { s with state }
  | paired {domain sockType proto : Nat} {fd1 fd2 : Int} {state : State}
      (h : socketpair domain sockType proto s.state = (.ok (fd1, fd2), state)) :
      Step s (.paired fd1 fd2) { s with state, mate := link domain fd1 fd2 s.mate }
  | notPaired {domain sockType proto : Nat} {e : Net.NetError} {state : State}
      (h : socketpair domain sockType proto s.state = (.error e, state)) : Step s (.notPaired e) { s with state }
  | sent {fd : Int} {data : List UInt8} {n : Nat} {state : State} (h : send fd data s.state = (.ok n, state)) :
      Step s (.sent fd data n) { s with state, sent := Function.update s.sent fd (s.sent fd ++ data.take n) }
  | refused {fd : Int} {data : List UInt8} {e : Net.NetError} {state : State}
      (h : send fd data s.state = (.error e, state)) : Step s (.refused fd data e) { s with state }
  | sendTrapped {fd : Int} {data : List UInt8} {state : State} (h : send fd data s.state = (.trap, state)) :
      Step s (.sendTrapped fd data) s
  | received {fd : Int} {n : Nat} {bytes : List UInt8} {state : State} (h : recv fd n s.state = (.ok bytes, state)) :
      Step s (.received fd n bytes) { s with state, got := Function.update s.got fd (s.got fd ++ bytes) }
  | nothing {fd : Int} {n : Nat} {e : Net.NetError} {state : State} (h : recv fd n s.state = (.error e, state)) :
      Step s (.nothing fd n e) { s with state }
  | recvTrapped {fd : Int} {n : Nat} {state : State} (h : recv fd n s.state = (.trap, state)) :
      Step s (.recvTrapped fd n) s
  | closed {fd : Int} {state : State} (h : closeSocket fd s.state = (.ok (), state)) :
      Step s (.closed fd) { s with state }

/-- The other end of the pair was closed. -/
def PeerClosed (s : Books) (fd : Int) : Prop := ∃ fd', s.mate fd = some fd' ∧ ∀ x sk, s.state.socks x = some sk → sk.fd ≠ fd'

/-- No socket has received anything, and none was opened or closed. -/
def Untouched (s t : State) : Prop := t.socks = s.socks ∧ t.unixBufs = s.unixBufs

/-- The bytes of each pair are in order and the count is right; a receive does not trap, a pair that fails and a send to
a closed peer leave the table and the storage as they were. -/
def Event.Sound (s : Books) (event : Event) (t : Books) : Prop :=
  (∀ fd fd', t.mate fd = some fd' → t.got fd' <+: t.sent fd) ∧ t.state.sockCount = usedSlots t.state ∧
    match event with
    | .notPaired _ => t.state.socks = s.state.socks
    | .sent fd .. | .refused fd .. => PeerClosed s fd → Untouched s.state t.state
    | .sendTrapped fd _ => ¬PeerClosed s fd
    | .recvTrapped .. => False
    | _ => True

/-- No slot is empty, or two are. -/
def Pairable (s : State) : Prop :=
  (∀ x, s.socks x ≠ none) ∨ ∃ x y, x ≠ y ∧ s.socks x = none ∧ s.socks y = none

/-- The slot of the peer holds a socket that takes no byte, or the other end of the pair, and then no other socket has
bytes behind those of the peer in the same storage. -/
def Deliverable (s : Books) (fd : Int) (data : List UInt8) : Prop :=
  ∀ x sk p, s.state.socks x = some sk → sk.fd = fd → sk.unixPeer = some p →
    ∃ q, s.state.socks p = some q ∧ (data = [] ∨ (s.state.queue q).length ≤ q.rxLen ∨ s.mate fd = some q.fd ∧
      ∀ z other, z ≠ p → s.state.socks z = some other → other.rxQueue = q.rxQueue → other.rxLen ≤ q.rxLen)

/-- The buffer takes half of what the socket has not read, and where it does not take all, no other socket has bytes in
the same storage. -/
def Takeable (s : Books) (fd : Int) (n : Nat) : Prop :=
  ∀ x sk, s.state.socks x = some sk → sk.fd = fd →
    if sk.unixPeer.isSome then sk.rxLen ≤ 2 * n ∧ (n < sk.rxLen →
      ∀ z other, z ≠ x → s.state.socks z = some other → other.rxQueue = sk.rxQueue → other.rxLen = 0)
    else Net.Receivable s.state.net n

def Event.Covered (s : Books) : Event → Prop
  | .paired .. | .notPaired _ => Pairable s.state
  | .sent fd data _ | .refused fd data _ | .sendTrapped fd data => Deliverable s fd data
  | .received fd n _ | .nothing fd n _ | .recvTrapped fd n => Takeable s fd n
  | _ => True

/-! ### Who is whose peer -/

/-- The ends of the pairs lead to each other's slots. -/
structure Shape (s : State) (mate : Int → Option Int) : Prop where
  numbered : Numbered s
  ends : ∀ x sk p, s.socks x = some sk → sk.unixPeer = some p → ∃ fd', mate sk.fd = some fd'
  back : ∀ fd fd', mate fd = some fd' → mate fd' = some fd
  known : ∀ fd fd', mate fd = some fd' → fd < s.nextFd
  peer : ∀ x sk fd', s.socks x = some sk → mate sk.fd = some fd' →
    ∃ p, sk.unixPeer = some p ∧ ∀ y sk', s.socks y = some sk' → sk'.fd = fd' → y = p

section Shapes

variable {s t : State} {mate : Int → Option Int} {x y z : Slot} {sk sk1 sk2 : Socket} {domain : Nat}

/-- Sockets are closed, or change without the descriptor and the peer. -/
theorem Shape.kept (h : Shape s mate) (hnext : t.nextFd = s.nextFd)
    (hback : ∀ x sk, t.socks x = some sk → ∃ old, s.socks x = some old ∧ sk.fd = old.fd ∧ sk.unixPeer = old.unixPeer) :
    Shape t mate where
  numbered := h.numbered.kept hnext fun x sk hx => by
    obtain ⟨old, hold, hfd, -⟩ := hback x sk hx
    exact ⟨old, hold, hfd⟩
  ends := by
    intro x sk p hx hp
    obtain ⟨old, hold, hfd, hpeer⟩ := hback x sk hx
    rw [hfd]
    exact h.ends x old p hold (hpeer ▸ hp)
  back := h.back
  known := fun fd fd' hmate => hnext ▸ h.known fd fd' hmate
  peer := by
    intro x sk fd' hx hmate
    obtain ⟨old, hold, hfd, hpeer⟩ := hback x sk hx
    obtain ⟨p, hp, hall⟩ := h.peer x old fd' hold (hfd ▸ hmate)
    refine ⟨p, hpeer.trans hp, fun y sk' hy hfd' => ?_⟩
    obtain ⟨old', hold', heq, -⟩ := hback y sk' hy
    exact hall y old' hold' (heq ▸ hfd')

theorem unixPeer_none (h : sk.peerSocket = none) : sk.unixPeer = none := by
  rw [Socket.unixPeer, h, ite_self]

theorem Shape.fresh (h : Shape s mate) : mate s.nextFd = none := by
  cases hmate : mate s.nextFd with
  | none => rfl
  | some fd' => exact absurd (h.known _ _ hmate) (lt_irrefl _)

theorem Shape.created (h : Shape s mate) (hc : Created domain x sk s t) : Shape t mate where
  numbered := hc.numbered h.numbered
  ends := by
    intro y sk' p hy hp
    rcases hc.cases hy with ⟨-, rfl⟩ | ⟨-, hy⟩
    · rw [unixPeer_none hc.peer] at hp
      cases hp
    · exact h.ends y sk' p hy hp
  back := h.back
  known := fun fd fd' hmate => (h.known fd fd' hmate).trans (hc.nextFd ▸ Int.lt_succ _)
  peer := by
    intro y sk' fd' hy hmate
    rcases hc.cases hy with ⟨-, rfl⟩ | ⟨-, hy⟩
    · rw [hc.fd, h.fresh] at hmate
      cases hmate
    · obtain ⟨p, hp, hall⟩ := h.peer y sk' fd' hy hmate
      refine ⟨p, hp, fun z sk'' hz hfd' => ?_⟩
      rcases hc.cases hz with ⟨-, rfl⟩ | ⟨-, hz⟩
      · have hback := h.back _ _ hmate
        rw [← hfd', hc.fd, h.fresh] at hback
        cases hback
      · exact hall z sk'' hz hfd'

/-- The sockets that are open behind a pair. -/
theorem slots_cases {a b : Socket} (hy : ((s.setSlot x (some a)).setSlot y (some b)).socks z = some sk) :
    (z = y ∧ sk = b) ∨ (z = x ∧ sk = a) ∨ (z ≠ x ∧ z ≠ y ∧ s.socks z = some sk) := by
  change Function.update (Function.update s.socks x (some a)) y (some b) z = some sk at hy
  by_cases hzy : z = y
  · rw [hzy, Function.update_self] at hy
    exact Or.inl ⟨hzy, (Option.some.inj hy).symm⟩
  rw [Function.update_of_ne hzy] at hy
  by_cases hzx : z = x
  · rw [hzx, Function.update_self] at hy
    exact Or.inr (Or.inl ⟨hzx, (Option.some.inj hy).symm⟩)
  · rw [Function.update_of_ne hzx] at hy
    exact Or.inr (Or.inr ⟨hzx, hzy, hy⟩)

theorem link_cases {fd1 fd2 fd fd' : Int} (h : link domain fd1 fd2 mate fd = some fd') :
    (domain = afUnix ∧ ((fd = fd2 ∧ fd' = fd1) ∨ (fd = fd1 ∧ fd' = fd2))) ∨ mate fd = some fd' := by
  rw [link] at h
  split at h
  next hunix =>
    by_cases h2 : fd = fd2
    · rw [h2, Function.update_self] at h
      exact Or.inl ⟨hunix, Or.inl ⟨h2, (Option.some.inj h).symm⟩⟩
    rw [Function.update_of_ne h2] at h
    by_cases h1 : fd = fd1
    · rw [h1, Function.update_self] at h
      exact Or.inl ⟨hunix, Or.inr ⟨h1, (Option.some.inj h).symm⟩⟩
    · rw [Function.update_of_ne h1] at h
      exact Or.inr h
  next => exact Or.inr h

theorem link_second {fd1 fd2 : Int} (hunix : domain = afUnix) : link domain fd1 fd2 mate fd2 = some fd1 := by
  rw [link, if_pos hunix, Function.update_self]

theorem link_first {fd1 fd2 : Int} (hunix : domain = afUnix) (hne : fd1 ≠ fd2) :
    link domain fd1 fd2 mate fd1 = some fd2 := by
  rw [link, if_pos hunix, Function.update_of_ne hne, Function.update_self]

/-- The pairs that were there stay. -/
theorem link_of_mate {fd1 fd2 fd fd' : Int} (h1 : mate fd1 = none) (h2 : mate fd2 = none) (hmate : mate fd = some fd') :
    link domain fd1 fd2 mate fd = some fd' := by
  have hfd1 : fd ≠ fd1 := fun heq => by
    rw [heq, h1] at hmate
    cases hmate
  have hfd2 : fd ≠ fd2 := fun heq => by
    rw [heq, h2] at hmate
    cases hmate
  by_cases hunix : domain = afUnix
  · rw [link, if_pos hunix, Function.update_of_ne hfd2, Function.update_of_ne hfd1, hmate]
  · rw [link, if_neg hunix, hmate]

section Joining

variable {sk1' sk2' : Socket}

theorem Numbered.joined (h : Numbered s) (hx : s.socks x = some sk1) (hy : s.socks y = some sk2)
    (hjoin1 : Joined sk1 y sk1') (hjoin2 : Joined sk2 x sk2') :
    Numbered ((s.setSlot x (some sk1')).setSlot y (some sk2')) := by
  refine h.kept rfl fun z sk hz => ?_
  rcases slots_cases hz with ⟨rfl, rfl⟩ | ⟨rfl, rfl⟩ | ⟨-, -, hz⟩
  · exact ⟨sk2, hy, hjoin2.fd⟩
  · exact ⟨sk1, hx, hjoin1.fd⟩
  · exact ⟨sk, hz, rfl⟩

/-- A pair of two sockets that had no peer. -/
theorem Shape.joined_unix (h : Shape s mate) (hxy : x ≠ y) (hx : s.socks x = some sk1) (hy : s.socks y = some sk2)
    (h1 : mate sk1.fd = none) (h2 : mate sk2.fd = none) (hjoin1 : Joined sk1 y sk1') (hjoin2 : Joined sk2 x sk2')
    (hdomain1 : sk1.domain = afUnix) (hdomain2 : sk2.domain = afUnix) :
    Shape ((s.setSlot x (some sk1')).setSlot y (some sk2')) (link afUnix sk1.fd sk2.fd mate) := by
  have hne : sk1.fd ≠ sk2.fd := fun heq => hxy (h.numbered.inj x y sk1 sk2 hx hy heq)
  have hnumbered := h.numbered.joined hx hy hjoin1 hjoin2
  have hlink1 : link afUnix sk1.fd sk2.fd mate sk1.fd = some sk2.fd := link_first rfl hne
  have hlink2 : link afUnix sk1.fd sk2.fd mate sk2.fd = some sk1.fd := link_second rfl
  have hmates {fd fd' : Int} (hlink : link afUnix sk1.fd sk2.fd mate fd = some fd') :
      (fd = sk2.fd ∧ fd' = sk1.fd) ∨ (fd = sk1.fd ∧ fd' = sk2.fd) ∨ mate fd = some fd' := by
    rcases link_cases hlink with ⟨-, hnew | hnew⟩ | hmate
    exacts [Or.inl hnew, Or.inr (Or.inl hnew), Or.inr (Or.inr hmate)]
  constructor
  · exact hnumbered
  · intro z sk p hz hp
    rcases slots_cases hz with ⟨-, rfl⟩ | ⟨-, rfl⟩ | ⟨-, -, hz⟩
    · exact ⟨sk1.fd, hjoin2.fd ▸ hlink2⟩
    · exact ⟨sk2.fd, hjoin1.fd ▸ hlink1⟩
    · obtain ⟨fd', hmate⟩ := h.ends z sk p hz hp
      exact ⟨fd', link_of_mate h1 h2 hmate⟩
  · intro fd fd' hlink
    rcases hmates hlink with ⟨rfl, rfl⟩ | ⟨rfl, rfl⟩ | hmate
    · exact hlink1
    · exact hlink2
    · exact link_of_mate h1 h2 (h.back fd fd' hmate)
  · intro fd fd' hlink
    rcases hmates hlink with ⟨rfl, -⟩ | ⟨rfl, -⟩ | hmate
    · exact h.numbered.below y sk2 hy
    · exact h.numbered.below x sk1 hx
    · exact h.known fd fd' hmate
  · intro z sk fd' hz hlink
    rcases slots_cases hz with ⟨rfl, rfl⟩ | ⟨rfl, rfl⟩ | ⟨hzx, hzy, hz⟩
    · refine ⟨x, by rw [Socket.unixPeer, hjoin2.domain, if_pos hdomain2, hjoin2.peer], fun z' sk' hz' hfd' => ?_⟩
      rw [hjoin2.fd, hlink2] at hlink
      have hslot : ((s.setSlot x (some sk1')).setSlot z (some sk)).socks x = some sk1' :=
        (Function.update_of_ne hxy _ _).trans (Function.update_self _ _ _)
      exact hnumbered.inj z' x sk' sk1' hz' hslot (hfd'.trans ((Option.some.inj hlink).symm.trans hjoin1.fd.symm))
    · refine ⟨y, by rw [Socket.unixPeer, hjoin1.domain, if_pos hdomain1, hjoin1.peer], fun z' sk' hz' hfd' => ?_⟩
      rw [hjoin1.fd, hlink1] at hlink
      exact hnumbered.inj z' y sk' sk2' hz' (Function.update_self _ _ _)
        (hfd'.trans ((Option.some.inj hlink).symm.trans hjoin2.fd.symm))
    · -- the sockets of the pair are alone with their descriptors
      have hfd1 : sk.fd ≠ sk1.fd := fun heq => hzx (h.numbered.inj z x sk sk1 hz hx heq)
      have hfd2 : sk.fd ≠ sk2.fd := fun heq => hzy (h.numbered.inj z y sk sk2 hz hy heq)
      have hmate : mate sk.fd = some fd' := by
        rcases hmates hlink with ⟨hfd, -⟩ | ⟨hfd, -⟩ | hmate
        exacts [absurd hfd hfd2, absurd hfd hfd1, hmate]
      obtain ⟨p, hp, hall⟩ := h.peer z sk fd' hz hmate
      have hback := h.back _ _ hmate
      refine ⟨p, hp, fun z' sk' hz' hfd' => ?_⟩
      rcases slots_cases hz' with ⟨-, rfl⟩ | ⟨-, rfl⟩ | ⟨-, -, hz'⟩
      · rw [← hfd', hjoin2.fd, h2] at hback
        cases hback
      · rw [← hfd', hjoin1.fd, h1] at hback
        cases hback
      · exact hall z' sk' hz' hfd'

end Joining

/-- Two sockets that had no peer are joined; outside `AF_UNIX` the calls do not look at it. -/
theorem Shape.joined (h : Shape s mate) (hxy : x ≠ y) (hx : s.socks x = some sk1) (hy : s.socks y = some sk2)
    (h1 : mate sk1.fd = none) (h2 : mate sk2.fd = none) (hdomain1 : sk1.domain = domain) (hdomain2 : sk2.domain = domain) :
    Shape (s.pair domain x y) (link domain sk1.fd sk2.fd mate) := by
  obtain ⟨sk1', sk2', hpair, hjoin1, hjoin2⟩ := pair_joins domain hxy hx hy
  rw [hpair]
  by_cases hunix : domain = afUnix
  · rw [hunix] at hdomain1 hdomain2 ⊢
    exact h.joined_unix hxy hx hy h1 h2 hjoin1 hjoin2 hdomain1 hdomain2
  · have hmate : link domain sk1.fd sk2.fd mate = mate := if_neg hunix
    have hnone {sk : Socket} (hdomain : sk.domain = domain) : sk.unixPeer = none := by
      rw [Socket.unixPeer, hdomain, if_neg hunix]
    rw [hmate]
    refine h.kept rfl fun z sk hz => ?_
    rcases slots_cases hz with ⟨rfl, rfl⟩ | ⟨rfl, rfl⟩ | ⟨-, -, hz⟩
    · exact ⟨sk2, hy, hjoin2.fd, (hnone (hjoin2.domain.trans hdomain2)).trans (hnone hdomain2).symm⟩
    · exact ⟨sk1, hx, hjoin1.fd, (hnone (hjoin1.domain.trans hdomain1)).trans (hnone hdomain1).symm⟩
    · exact ⟨sk, hz, rfl, rfl⟩

end Shapes

/-! ### What holds between calls -/

/-- What was given out at one end of a pair and what waits there is what was accepted at the other. -/
structure Good (s : Books) : Prop where
  shape : Shape s.state s.mate
  count : s.state.sockCount = usedSlots s.state
  storage : ∀ b, (s.state.unixBufs b).length = unixBufSize
  fits : ∀ x sk, s.state.socks x = some sk → sk.rxLen ≤ (s.state.queue sk).length
  net : ∃ hs, Net.Queued s.state.net hs
  inOrder : ∀ fd fd', s.mate fd = some fd' → s.got fd' <+: s.sent fd
  pending : ∀ fd x sk, s.mate fd = some sk.fd → s.state.socks x = some sk → s.got sk.fd ++ unread s.state sk = s.sent fd
  fresh : ∀ fd, s.state.nextFd ≤ fd → s.sent fd = [] ∧ s.got fd = []

section Invariant

variable {s : Books} {t : State} {x y : Slot} {sk sk1 sk2 : Socket} {domain : Nat} {b : Storage}

theorem length_queue {s : State} (h : ∀ b, (s.unixBufs b).length = unixBufSize) (sk : Socket) :
    (s.queue sk).length = if sk.rxQueue.isSome then unixBufSize else 0 := by
  cases hq : sk.rxQueue with
  | none => rw [State.queue, hq]; rfl
  | some b => rw [queue_of_some hq, h b]; rfl

theorem usedSlots_replace {s : State} (hx : s.socks x = some sk) (sk' : Socket) :
    usedSlots (s.setSlot x (some sk')) = usedSlots s := by
  have hcount := usedSlots_setSlot s x (some sk')
  rw [hx] at hcount
  exact Nat.add_right_cancel hcount

theorem rewritten_cases {s : State} {bytes : List UInt8} {m : Nat} {sk' : Socket}
    (hy : (rewritten x sk b bytes m s).socks y = some sk') :
    (y = x ∧ sk' = { sk with rxLen := m }) ∨ (y ≠ x ∧ s.socks y = some sk') := by
  change Function.update s.socks x (some { sk with rxLen := m }) y = some sk' at hy
  by_cases hyx : y = x
  · rw [hyx, Function.update_self] at hy
    exact Or.inl ⟨hyx, (Option.some.inj hy).symm⟩
  · rw [Function.update_of_ne hyx] at hy
    exact Or.inr ⟨hyx, hy⟩

theorem Good.created (h : Good s) (hc : Created domain x sk s.state t) : Good { s with state := t } where
  shape := h.shape.created hc
  count := hc.count h.count
  storage := by
    rw [hc.state]
    exact h.storage
  fits := by
    intro y sk' hy
    rcases hc.cases hy with ⟨-, rfl⟩ | ⟨-, hy⟩
    · rw [hc.rxLen]
      exact Nat.zero_le _
    · rw [hc.state]
      exact h.fits y sk' hy
  net := by
    rw [hc.state]
    exact h.net
  inOrder := h.inOrder
  pending := by
    intro fd y sk' hmate hy
    rcases hc.cases hy with ⟨-, rfl⟩ | ⟨-, hy⟩
    · have hback := h.shape.back _ _ hmate
      rw [hc.fd, h.shape.fresh] at hback
      cases hback
    · rw [hc.state]
      exact h.pending fd y sk' hmate hy
  fresh := fun fd hfd => h.fresh fd ((Int.le_of_lt (hc.nextFd ▸ Int.lt_succ _)).trans hfd)

theorem Good.closed (h : Good s)
    (hcount : s.state.sockCount - 1 = usedSlots (s.state.setSlot x none)) :
    Good { s with state := { s.state.setSlot x none with sockCount := s.state.sockCount - 1 } } := by
  have hback (y : Slot) (sk' : Socket) (hy : (s.state.setSlot x none).socks y = some sk') : s.state.socks y = some sk' := by
    change Function.update s.state.socks x none y = some sk' at hy
    by_cases hyx : y = x
    · rw [hyx, Function.update_self] at hy
      cases hy
    · rwa [Function.update_of_ne hyx] at hy
  exact
    { shape := h.shape.kept rfl fun y sk' hy => ⟨sk', hback y sk' hy, rfl, rfl⟩
      count := hcount
      storage := h.storage
      fits := fun y sk' hy => h.fits y sk' (hback y sk' hy)
      net := h.net
      inOrder := h.inOrder
      pending := fun fd y sk' hmate hy => h.pending fd y sk' hmate (hback y sk' hy)
      fresh := h.fresh }

/-- A call of the layer below, on a socket that is no end of a pair. -/
theorem Good.looped (h : Good s) {net : Net.Stack} {sent got : Int → List UInt8} (hnet : ∃ hs, Net.Queued net hs)
    (hsent : ∀ fd fd', s.mate fd = some fd' → sent fd = s.sent fd)
    (hgot : ∀ fd fd', s.mate fd = some fd' → got fd = s.got fd)
    (hfresh : ∀ fd, s.state.nextFd ≤ fd → sent fd = [] ∧ got fd = []) :
    Good { s with state := { s.state with net }, sent, got } where
  shape := h.shape.kept rfl fun y sk' hy => ⟨sk', hy, rfl, rfl⟩
  count := h.count
  storage := h.storage
  fits := h.fits
  net := hnet
  inOrder := by
    intro fd fd' hmate
    show got fd' <+: sent fd
    rw [hsent fd fd' hmate, hgot fd' fd (h.shape.back fd fd' hmate)]
    exact h.inOrder fd fd' hmate
  pending := by
    intro fd y sk' hmate hy
    show got sk'.fd ++ unread s.state sk' = sent fd
    rw [hsent fd _ hmate, hgot sk'.fd fd (h.shape.back fd _ hmate)]
    exact h.pending fd y sk' hmate hy
  fresh := hfresh

theorem length_rewritten {s : State} {bytes : List UInt8} {m : Nat} (h : ∀ b, (s.unixBufs b).length = unixBufSize)
    (hlength : bytes.length = unixBufSize) (b' : Storage) :
    ((rewritten x sk b bytes m s).unixBufs b').length = unixBufSize := by
  show (Function.update s.unixBufs b bytes b').length = unixBufSize
  by_cases hb' : b' = b
  · rw [hb', Function.update_self, hlength]
  · rw [Function.update_of_ne hb', h]

/-- A socket whose bytes stand where the storage does not change. -/
theorem unread_rewritten {s : State} {bytes : List UInt8} {m : Nat} {other : Socket}
    (h : other.rxQueue = some b → bytes.take other.rxLen = (s.unixBufs b).take other.rxLen) :
    unread (rewritten x sk b bytes m s) other = unread s other := by
  cases hq : other.rxQueue with
  | none =>
      rw [unread, unread, State.queue, State.queue, hq]
      rfl
  | some b' =>
      rw [unread, unread, queue_of_some hq, queue_of_some hq]
      show (Function.update s.unixBufs b bytes b').take other.rxLen = (s.unixBufs b').take other.rxLen
      by_cases hb' : b' = b
      · subst hb'
        rw [Function.update_self]
        exact h hq
      · rw [Function.update_of_ne hb']

/-- The storage of an end of a pair is written, and no other socket has unread bytes where it changes. -/
theorem Good.rewritten (h : Good s) (hx : s.state.socks x = some sk) (hb : sk.rxQueue = some b) {bytes : List UInt8}
    {m : Nat} {fd : Int} (hmate : s.mate fd = some sk.fd) (hlength : bytes.length = unixBufSize) (hm : m ≤ unixBufSize)
    (hothers : ∀ y other, y ≠ x → s.state.socks y = some other → other.rxQueue = some b →
      bytes.take other.rxLen = (s.state.unixBufs b).take other.rxLen)
    {sent got : Int → List UInt8} (hsent : ∀ fd', fd' ≠ fd → sent fd' = s.sent fd')
    (hgot : ∀ fd', fd' ≠ sk.fd → got fd' = s.got fd') (hnew : got sk.fd ++ bytes.take m = sent fd) :
    Good { s with state := Sockets.rewritten x sk b bytes m s.state, sent, got } := by
  have hstorage (b' : Storage) : ((Sockets.rewritten x sk b bytes m s.state).unixBufs b').length = unixBufSize :=
    length_rewritten h.storage hlength b'
  have hback : s.mate sk.fd = some fd := h.shape.back fd sk.fd hmate
  have hself : (Sockets.rewritten x sk b bytes m s.state).queue { sk with rxLen := m } = bytes :=
    (queue_of_some hb).trans (Function.update_self _ _ _)
  have hmates {fd₀ fd' : Int} (hmate' : s.mate fd₀ = some fd') (hne : fd₀ ≠ fd) : fd' ≠ sk.fd := fun heq => by
    have hback' := h.shape.back fd₀ fd' hmate'
    rw [heq, hback] at hback'
    exact hne (Option.some.inj hback').symm
  refine ⟨?_, ?_, hstorage, ?_, h.net, ?_, ?_, ?_⟩
  · refine h.shape.kept rfl fun y sk' hy => ?_
    rcases rewritten_cases hy with ⟨rfl, rfl⟩ | ⟨-, hy⟩
    · exact ⟨sk, hx, rfl, rfl⟩
    · exact ⟨sk', hy, rfl, rfl⟩
  · exact h.count.trans (usedSlots_replace hx _).symm
  · intro y sk' hy
    rcases rewritten_cases hy with ⟨rfl, rfl⟩ | ⟨-, hy⟩
    · rw [hself, hlength]
      exact hm
    · rw [length_queue hstorage, ← length_queue h.storage]
      exact h.fits y sk' hy
  · intro fd₀ fd' hmate'
    show got fd' <+: sent fd₀
    by_cases hfd : fd₀ = fd
    · have hfd' : fd' = sk.fd := by
        rw [hfd, hmate] at hmate'
        exact (Option.some.inj hmate').symm
      rw [hfd, hfd', ← hnew]
      exact List.prefix_append _ _
    · rw [hsent fd₀ hfd, hgot fd' (hmates hmate' hfd)]
      exact h.inOrder fd₀ fd' hmate'
  · intro fd₀ y sk' hmate' hy
    show got sk'.fd ++ unread _ sk' = sent fd₀
    rcases rewritten_cases hy with ⟨rfl, rfl⟩ | ⟨hyx, hy⟩
    · have hfd : fd₀ = fd := by
        have hback' := h.shape.back fd₀ _ hmate'
        rw [hback] at hback'
        exact (Option.some.inj hback').symm
      rw [hfd, unread, hself]
      exact hnew
    · have hne : sk'.fd ≠ sk.fd := fun heq => hyx (h.shape.numbered.inj y x sk' sk hy hx heq)
      have hfd : fd₀ ≠ fd := fun heq => by
        rw [heq, hmate] at hmate'
        exact hne (Option.some.inj hmate').symm
      rw [hsent fd₀ hfd, hgot sk'.fd hne, unread_rewritten (hothers y sk' hyx hy)]
      exact h.pending fd₀ y sk' hmate' hy
  · intro fd' hfd'
    have hknown : fd' ≠ fd := (lt_of_lt_of_le (h.shape.known fd _ hmate) hfd').ne'
    have hbelow : fd' ≠ sk.fd := (lt_of_lt_of_le (h.shape.numbered.below x sk hx) hfd').ne'
    show sent fd' = [] ∧ got fd' = []
    rw [hsent fd' hknown, hgot fd' hbelow]
    exact h.fresh fd' hfd'

/-- Two sockets become a pair. -/
theorem Good.joined (h : Good s) (hxy : x ≠ y) (hx : s.state.socks x = some sk1) (hy : s.state.socks y = some sk2)
    (h1 : s.mate sk1.fd = none) (h2 : s.mate sk2.fd = none) (hdomain1 : sk1.domain = domain) (hdomain2 : sk2.domain = domain)
    (hlen1 : sk1.rxLen = 0) (hlen2 : sk2.rxLen = 0) (hsent1 : s.sent sk1.fd = [] ∧ s.got sk1.fd = [])
    (hsent2 : s.sent sk2.fd = [] ∧ s.got sk2.fd = []) :
    Good { s with state := s.state.pair domain x y, mate := link domain sk1.fd sk2.fd s.mate } := by
  have hshape := h.shape.joined hxy hx hy h1 h2 hdomain1 hdomain2
  obtain ⟨sk1', sk2', hpair, hjoin1, hjoin2⟩ := pair_joins domain hxy hx hy
  rw [hpair] at hshape ⊢
  refine ⟨hshape, ?_, h.storage, ?_, h.net, ?_, ?_, h.fresh⟩
  · have hy' : (s.state.setSlot x (some sk1')).socks y = some sk2 := (Function.update_of_ne hxy.symm _ _).trans hy
    exact h.count.trans ((usedSlots_replace hy' _).trans (usedSlots_replace hx _)).symm
  · intro z sk hz
    rcases slots_cases hz with ⟨-, rfl⟩ | ⟨-, rfl⟩ | ⟨-, -, hz⟩
    · rw [hjoin2.rxLen, hlen2]
      exact Nat.zero_le _
    · rw [hjoin1.rxLen, hlen1]
      exact Nat.zero_le _
    · exact h.fits z sk hz
  · intro fd fd' hmate
    show s.got fd' <+: s.sent fd
    rcases link_cases hmate with ⟨-, ⟨rfl, rfl⟩ | ⟨rfl, rfl⟩⟩ | hmate
    · rw [hsent1.2]
      exact List.nil_prefix
    · rw [hsent2.2]
      exact List.nil_prefix
    · exact h.inOrder fd fd' hmate
  · intro fd z sk hmate hz
    show s.got sk.fd ++ unread s.state sk = s.sent fd
    -- a new end has received nothing
    have hnew (hfd : sk.fd = sk1.fd ∨ sk.fd = sk2.fd) : unread s.state sk = [] := by
      have hzero : sk.rxLen = 0 := by
        rcases slots_cases hz with ⟨-, rfl⟩ | ⟨-, rfl⟩ | ⟨hzx, hzy, hz⟩
        · exact hjoin2.rxLen.trans hlen2
        · exact hjoin1.rxLen.trans hlen1
        · rcases hfd with hfd | hfd
          · exact absurd (h.shape.numbered.inj z x sk sk1 hz hx hfd) hzx
          · exact absurd (h.shape.numbered.inj z y sk sk2 hz hy hfd) hzy
      rw [unread, hzero, List.take_zero]
    rcases link_cases hmate with ⟨-, ⟨hfd, hfd'⟩ | ⟨hfd, hfd'⟩⟩ | hold
    · rw [hnew (Or.inl hfd'), hfd, hfd', hsent1.2, hsent2.1]
      rfl
    · rw [hnew (Or.inr hfd'), hfd, hfd', hsent2.2, hsent1.1]
      rfl
    · have hback := h.shape.back _ _ hold
      rcases slots_cases hz with ⟨-, rfl⟩ | ⟨-, rfl⟩ | ⟨-, -, hz⟩
      · rw [hjoin2.fd, h2] at hback
        cases hback
      · rw [hjoin1.fd, h1] at hback
        cases hback
      · exact h.pending fd z sk hold hz


/-! ### The calls keep it -/

theorem Good.no_mate (h : Good s) (hx : s.state.socks x = some sk) (hpeer : sk.unixPeer = none) : s.mate sk.fd = none := by
  cases hmate : s.mate sk.fd with
  | none => rfl
  | some fd' =>
      obtain ⟨p, hp, -⟩ := h.shape.peer x sk fd' hx hmate
      rw [hpeer] at hp
      cases hp

theorem not_peerClosed (h : s.mate sk.fd = none) : ¬PeerClosed s sk.fd := by
  rintro ⟨fd', hmate, -⟩
  rw [h] at hmate
  cases hmate

/-- The books of a socket that is no end of a pair do not matter for the pairs. -/
theorem update_of_mate {fd fd' g : Int} (hnone : s.mate fd = none) (hmate : s.mate fd' = some g) (f : Int → List UInt8)
    (bytes : List UInt8) : Function.update f fd bytes fd' = f fd' := by
  have hne : fd' ≠ fd := fun heq => by
    rw [heq, hnone] at hmate
    cases hmate
  exact Function.update_of_ne hne _ _

theorem Good.fresh_update (h : Good s) (hx : s.state.socks x = some sk) (f : Int → List UInt8) (bytes : List UInt8) {fd : Int}
    (hfd : s.state.nextFd ≤ fd) : Function.update f sk.fd bytes fd = f fd :=
  Function.update_of_ne (lt_of_lt_of_le (h.shape.numbered.below x sk hx) hfd).ne' _ _

theorem Good.sendNet (h : Good s) {data : List UInt8} (hx : s.state.socks x = some sk) (hpeer : sk.unixPeer = none) :
    Act.Ensures (netCall (Net.sendInet data)) s.state
      (fun n t => Good { s with state := t, sent := Function.update s.sent sk.fd (s.sent sk.fd ++ data.take n) })
      (fun _ t => Good { s with state := t }) True := by
  have hnone := h.no_mate hx hpeer
  obtain ⟨hs, hqueued⟩ := h.net
  refine (netCall_ensures (Net.sendInet_queued hqueued)).mono ?_ ?_ id
  · rintro n _ ⟨net, hnet, rfl⟩
    refine h.looped hnet (fun _ _ hmate => update_of_mate hnone hmate _ _) (fun _ _ _ => rfl) fun fd hfd => ?_
    rw [h.fresh_update hx _ _ hfd]
    exact h.fresh fd hfd
  · rintro e _ ⟨net, hnet, rfl⟩
    exact h.looped hnet (fun _ _ _ => rfl) (fun _ _ _ => rfl) h.fresh

/-- The bytes go to the other end of the pair, or nowhere. -/
theorem Good.sendUnix (h : Good s) {data : List UInt8} {p : Slot} (hcov : Deliverable s sk.fd data)
    (hx : s.state.socks x = some sk) (hpeer : sk.unixPeer = some p) : Act.Ensures (sendUnix p data) s.state
      (fun n t => Good { s with state := t, sent := Function.update s.sent sk.fd (s.sent sk.fd ++ data.take n) } ∧
        ¬PeerClosed s sk.fd) (fun _ t => t = s.state) False := by
  obtain ⟨q, hq, hway⟩ := hcov _ _ p hx rfl hpeer
  refine (sendUnix_ensures hq (h.fits p q hq)).mono ?_ (fun _ _ ht => ht) id
  rintro n t ⟨b, bytes, hacc⟩
  have hlen : (s.state.queue q).length = (s.state.unixBufs b).length := by rw [queue_of_some hacc.storage]
  obtain ⟨hmate, hothers⟩ : s.mate sk.fd = some q.fd ∧ ∀ z other, z ≠ p → s.state.socks z = some other →
      other.rxQueue = q.rxQueue → other.rxLen ≤ q.rxLen := by
    have hpos := hacc.pos
    have hle := hacc.le
    have hroom := hacc.room
    rcases hway with rfl | hfull | hopen
    · rw [List.length_nil] at hle
      omega
    · omega
    · exact hopen
  constructor
  · rw [hacc.state]
    apply h.rewritten hq hacc.storage hmate (hacc.length.trans (h.storage b)) (h.storage b ▸ hacc.room)
    · exact fun y other hy hother hb => hacc.before _ (hothers y other hy hother (hb.trans hacc.storage.symm))
    · exact fun fd' hne => Function.update_of_ne hne _ _
    · exact fun _ _ => rfl
    · rw [hacc.take, Function.update_self, ← List.append_assoc, h.pending _ p q hmate hq]
  · rintro ⟨fd', hmate', hall⟩
    rw [hmate] at hmate'
    exact hall p q hq (Option.some.inj hmate')

theorem send_ensures (h : Good s) {fd : Int} {data : List UInt8} (hcov : Deliverable s fd data) :
    Act.Ensures (send fd data) s.state
      (fun n t => Good { s with state := t, sent := Function.update s.sent fd (s.sent fd ++ data.take n) } ∧
        (PeerClosed s fd → Untouched s.state t))
      (fun _ t => Good { s with state := t } ∧ (PeerClosed s fd → Untouched s.state t)) ¬PeerClosed s fd := by
  cases hfind : findSock fd s.state with
  | none =>
      rw [Act.Ensures, send_missing hfind]
      exact ⟨h, fun _ => ⟨rfl, rfl⟩⟩
  | some found =>
      obtain ⟨hx, rfl⟩ := findSock_some hfind
      cases hpeer : found.2.unixPeer with
      | none =>
          have hopen := not_peerClosed (h.no_mate hx hpeer)
          rw [Act.Ensures, send_net hfind hpeer]
          refine (h.sendNet hx hpeer).mono ?_ ?_ fun _ => hopen
          · exact fun n t ht => ⟨ht, fun hclosed => absurd hclosed hopen⟩
          · exact fun e t ht => ⟨ht, fun hclosed => absurd hclosed hopen⟩
      | some p =>
          rw [Act.Ensures, send_unix hfind hpeer]
          refine (h.sendUnix hcov hx hpeer).mono ?_ ?_ False.elim
          · exact fun n t ht => ⟨ht.1, fun hclosed => absurd hclosed ht.2⟩
          · rintro e _ rfl
            exact ⟨h, fun _ => ⟨rfl, rfl⟩⟩

theorem Good.recvNet (h : Good s) {n : Nat} (hcov : Net.Receivable s.state.net n) (hx : s.state.socks x = some sk)
    (hpeer : sk.unixPeer = none) : Act.Ensures (netCall (Net.recvInet n)) s.state
      (fun bytes t => Good { s with state := t, got := Function.update s.got sk.fd (s.got sk.fd ++ bytes) })
      (fun _ t => Good { s with state := t }) False := by
  have hnone := h.no_mate hx hpeer
  obtain ⟨hs, hqueued⟩ := h.net
  refine (netCall_ensures (Net.recvInet_ensures hqueued n)).mono ?_ ?_ fun hno => hno hcov
  · rintro bytes _ ⟨net, ⟨-, hs', hmoved⟩, rfl⟩
    refine h.looped ⟨hs', hmoved.queued⟩ (fun _ _ _ => rfl) (fun _ _ hmate => update_of_mate hnone hmate _ _) fun fd hfd => ?_
    rw [h.fresh_update hx _ _ hfd]
    exact h.fresh fd hfd
  · rintro e _ ⟨net, ⟨-, rfl⟩, rfl⟩
    exact h

/-- The bytes come from the front of what the other end sent. -/
theorem Good.recvUnix (h : Good s) {n : Nat} {p : Slot} (hx : s.state.socks x = some sk) (hpeer : sk.unixPeer = some p)
    (hhalf : sk.rxLen ≤ 2 * n) (hothers : n < sk.rxLen → ∀ z other, z ≠ x → s.state.socks z = some other →
      other.rxQueue = sk.rxQueue → other.rxLen = 0) : Act.Ensures (recvUnix x sk n) s.state
      (fun bytes t => Good { s with state := t, got := Function.update s.got sk.fd (s.got sk.fd ++ bytes) })
      (fun _ t => t = s.state) False := by
  refine (recvUnix_ensures hx (h.fits x sk hx)).mono ?_ (fun _ _ ht => ht) fun hno => hno hhalf
  rintro bytes t ⟨b, left, m, htaken⟩
  obtain ⟨fd', hmate⟩ := h.shape.ends x sk p hx hpeer
  have hback := h.shape.back _ _ hmate
  rw [htaken.state]
  apply h.rewritten hx htaken.storage hback (htaken.length.trans (h.storage b))
  · have hfits := h.fits x sk hx
    rw [queue_of_some htaken.storage, h.storage b] at hfits
    exact htaken.le.trans hfits
  · intro y other hy hother hb
    rcases htaken.same with rfl | hless
    · rfl
    · rw [hothers hless y other hy hother (hb.trans htaken.storage.symm), List.take_zero, List.take_zero]
  · exact fun _ _ => rfl
  · exact fun fd' hne => Function.update_of_ne hne _ _
  · rw [Function.update_self, List.append_assoc, htaken.take]
    exact h.pending fd' x sk hback hx

theorem recv_ensures (h : Good s) {fd : Int} {n : Nat} (hcov : Takeable s fd n) : Act.Ensures (recv fd n) s.state
    (fun bytes t => Good { s with state := t, got := Function.update s.got fd (s.got fd ++ bytes) })
    (fun _ t => Good { s with state := t }) False := by
  cases hfind : findSock fd s.state with
  | none =>
      rw [Act.Ensures, recv_missing hfind]
      exact h
  | some found =>
      obtain ⟨hx, rfl⟩ := findSock_some hfind
      have htake := hcov _ _ hx rfl
      cases hpeer : found.2.unixPeer with
      | none =>
          rw [hpeer] at htake
          rw [Act.Ensures, recv_net hfind hpeer]
          exact h.recvNet htake hx hpeer
      | some p =>
          rw [hpeer] at htake
          obtain ⟨hhalf, hothers⟩ : found.2.rxLen ≤ 2 * n ∧ _ := htake
          rw [Act.Ensures, recv_unix hfind hpeer]
          refine (h.recvUnix hx hpeer hhalf hothers).mono (fun _ _ ht => ht) ?_ id
          rintro e _ rfl
          exact h

theorem Good.paired (h : Good s) {s1 s2 : State} (hfirst : Created domain x sk1 s.state s1)
    (hsecond : Created domain y sk2 s1 s2) :
    Good { s with state := s2.pair domain x y, mate := link domain s.state.nextFd (s.state.nextFd + 1) s.mate } := by
  have hxy : x ≠ y := by
    rintro rfl
    have hempty := hsecond.empty
    rw [hfirst.slot] at hempty
    cases hempty
  have hfd2 : sk2.fd = s.state.nextFd + 1 := hsecond.fd.trans hfirst.nextFd
  have hgood : Good { s with state := s1 } := h.created hfirst
  have hnone2 : s.mate sk2.fd = none := by
    rw [hsecond.fd]
    exact hgood.shape.fresh
  have hnone1 : s.mate sk1.fd = none := by
    rw [hfirst.fd]
    exact h.shape.fresh
  have hlate : s.state.nextFd ≤ sk2.fd := hfd2 ▸ (Int.lt_succ _).le
  have hjoined := (hgood.created hsecond).joined hxy ((hsecond.other hxy).trans hfirst.slot) hsecond.slot hnone1 hnone2
    hfirst.domain hsecond.domain hfirst.rxLen hsecond.rxLen (h.fresh _ hfirst.fd.ge) (h.fresh _ hlate)
  rwa [hfirst.fd, hfd2] at hjoined

theorem socketpair_covered (h : Good s) {sockType proto : Nat} (hcov : Pairable s.state) :
    Act.Ensures (socketpair domain sockType proto) s.state
      (fun fds t => Good { s with state := t, mate := link domain fds.1 fds.2 s.mate }) (fun _ t => t = s.state) True := by
  refine (socketpair_ensures h.count h.shape.numbered).mono ?_ ?_ id
  · rintro _ _ ⟨rfl, x, y, sk1, sk2, s1, s2, hfirst, hsecond, rfl⟩
    exact h.paired hfirst hsecond
  · rintro e t (⟨ht, -⟩ | ⟨x, hempty, hfull⟩)
    · exact ht
    · rcases hcov with hall | ⟨y, z, hyz, hy, hz⟩
      · exact absurd hempty (hall x)
      · have hone (y : Slot) (hy : s.state.socks y = none) : y = x := by
          by_contra hyx
          exact hfull y hyx hy
        exact absurd ((hone y hy).trans (hone z hz).symm) hyz

theorem step_sound {t : Books} {event : Event} (h : Good s) (hstep : Step s event t) (hcov : event.Covered s) :
    event.Sound s t ∧ Good t := by
  cases hstep with
  | created hrun =>
      obtain ⟨-, x, sk, hc⟩ := (socketCreate_ensures h.count).of_ok hrun
      have ht := h.created hc
      exact ⟨⟨ht.inOrder, ht.count, trivial⟩, ht⟩
  | notCreated hrun =>
      obtain ⟨rfl, -⟩ := (socketCreate_ensures h.count).of_error hrun
      exact ⟨⟨h.inOrder, h.count, trivial⟩, h⟩
  | paired hrun =>
      have ht := (socketpair_covered h hcov).of_ok hrun
      exact ⟨⟨ht.inOrder, ht.count, trivial⟩, ht⟩
  | notPaired hrun =>
      obtain rfl := (socketpair_covered h hcov).of_error hrun
      exact ⟨⟨h.inOrder, h.count, rfl⟩, h⟩
  | sent hrun =>
      obtain ⟨ht, hclosed⟩ := (send_ensures h hcov).of_ok hrun
      exact ⟨⟨ht.inOrder, ht.count, hclosed⟩, ht⟩
  | refused hrun =>
      obtain ⟨ht, hclosed⟩ := (send_ensures h hcov).of_error hrun
      exact ⟨⟨ht.inOrder, ht.count, hclosed⟩, ht⟩
  | sendTrapped hrun =>
      have hopen := (send_ensures h hcov).of_trap hrun
      exact ⟨⟨h.inOrder, h.count, hopen⟩, h⟩
  | received hrun =>
      have ht := (recv_ensures h hcov).of_ok hrun
      exact ⟨⟨ht.inOrder, ht.count, trivial⟩, ht⟩
  | nothing hrun =>
      have ht := (recv_ensures h hcov).of_error hrun
      exact ⟨⟨ht.inOrder, ht.count, trivial⟩, ht⟩
  | recvTrapped hrun => exact ((recv_ensures h hcov).of_trap hrun).elim
  | closed hrun =>
      rcases (closeSocket_ensures h.count).of_ok hrun with rfl | ⟨x, sk, hx, rfl, hcount⟩
      · exact ⟨⟨h.inOrder, h.count, trivial⟩, h⟩
      · have ht := h.closed hcount
        exact ⟨⟨ht.inOrder, ht.count, trivial⟩, ht⟩

end Invariant

theorem start_slot {k : Nat} {x : Slot} {sk : Socket} (h : (start k).state.socks x = some sk) : False :=
  Option.some_ne_none sk h.symm

theorem start_mate {k : Nat} {fd fd' : Int} (h : (start k).mate fd = some fd') : False := Option.some_ne_none fd' h.symm

theorem good_start (k : Nat) : Good (start k) where
  shape :=
    { numbered := ⟨fun _ _ hx => (start_slot hx).elim, fun _ _ _ _ hx => (start_slot hx).elim⟩
      ends := fun _ _ _ hx => (start_slot hx).elim
      back := fun _ _ hmate => (start_mate hmate).elim
      known := fun _ _ hmate => (start_mate hmate).elim
      peer := fun _ _ _ hx => (start_slot hx).elim }
  count := rfl
  storage := fun _ => List.length_replicate
  fits := fun _ _ hx => (start_slot hx).elim
  net := ⟨[], (Net.opened_queued k).1⟩
  inOrder := fun _ _ hmate => (start_mate hmate).elim
  pending := fun _ _ _ hmate => (start_mate hmate).elim
  fresh := fun _ _ => ⟨rfl, rfl⟩

/-- With any number of devices opened, in every run in which pairs are made with two slots free or none, sends go to the
other end of the pair with no bytes of another socket behind it, and receives leave nothing that overlaps or that another
socket has bytes over, the pairs are isolated. -/
theorem pairs_isolated (k : Nat) (events : List Event) (t : Books)
    (h : Runs.Run (fun s e t => Step s e t ∧ e.Covered s) (start k) events t) :
    Runs.Run (fun s e t => Step s e t ∧ e.Sound s t) (start k) events t :=
  (Runs.Run.along (I := Good) (B := fun s (e : Event) _ => e.Covered s) (good_start k)
    (fun _ _ _ hs hstep hcov => step_sound hs hstep hcov) h).2

/-- A datagram of three bytes through a pair. -/
theorem pairs_isolated_datagram : ∃ t, t.got 101 = [7, 8, 9] ∧ Runs.Run (fun s e t => Step s e t ∧ e.Sound s t) (start 0)
    [.paired 100 101, .sent 100 [7, 8, 9] 3, .received 101 3 [7, 8, 9]] t := by
  have h1 := Act.run_of_fst (show (socketpair afUnix 1 0 (start 0).state).1 = .ok (100, 101) by decide +kernel)
  set s1 := (socketpair afUnix 1 0 (start 0).state).2
  have h2 := Act.run_of_fst (show (send 100 [7, 8, 9] s1).1 = .ok 3 by decide +kernel)
  set s2 := (send 100 [7, 8, 9] s1).2
  have h3 := Act.run_of_fst (show (recv 101 3 s2).1 = .ok [7, 8, 9] by decide +kernel)
  have hpeer : ∀ x, (s1.socks x).all (fun sk => sk.fd ≠ 100 ∨ sk.unixPeer = some ⟨1, by decide⟩) := by decide +kernel
  have hfd : (s1.socks ⟨1, by decide⟩).map Socket.fd = some 101 := by decide +kernel
  have hempty : ∀ x, (s1.socks x).all (·.rxLen = 0) := by decide +kernel
  have hlen : ∀ x, (s2.socks x).all (fun sk => sk.fd ≠ 101 ∨ (sk.unixPeer.isSome ∧ sk.rxLen ≤ 3)) := by decide +kernel
  set s3 := (recv 101 3 s2).2
  clear_value s3 s2 s1
  simp only [Option.all_eq_true, decide_eq_true_eq] at hpeer hempty hlen
  refine ⟨_, ?_, pairs_isolated 0 _ _ (.cons ⟨.paired h1, ?_⟩ (.cons ⟨.sent h2, ?_⟩ (.single ⟨.received h3, ?_⟩)))⟩
  · rfl
  · exact Or.inr ⟨⟨0, by decide⟩, ⟨1, by decide⟩, by decide, rfl, rfl⟩
  · intro x sk p hx hsk hp
    obtain ⟨q, hq, hqfd⟩ := Option.map_eq_some_iff.mp hfd
    have hone : some p = some ⟨1, by decide⟩ := hp ▸ (hpeer x sk hx).resolve_left fun hne => hne hsk
    rw [Option.some.inj hone]
    refine ⟨q, hq, Or.inr (Or.inr ⟨?_, fun z other _ hother _ => ?_⟩)⟩
    · rw [hqfd]
      rfl
    · rw [hempty z other hother]
      exact Nat.zero_le _
  · intro x sk hx hsk
    obtain ⟨hend, hle⟩ := (hlen x sk hx).resolve_left fun hne => hne hsk
    rw [if_pos hend]
    exact ⟨hle.trans (by decide), fun hlt => absurd hlt (Nat.not_lt.mpr hle)⟩

/-- With two pairs open, the byte sent on the second one comes out of the first. -/
theorem pairs_share_storage : ¬∀ k events t, Runs.Run Step (start k) events t →
    Runs.Run (fun s e t => Step s e t ∧ e.Sound s t) (start k) events t := by
  intro hall
  have h1 := Act.run_of_fst (show (socketpair afUnix 1 0 (start 0).state).1 = .ok (100, 101) by decide +kernel)
  set s1 := (socketpair afUnix 1 0 (start 0).state).2
  have h2 := Act.run_of_fst (show (socketpair afUnix 1 0 s1).1 = .ok (102, 103) by decide +kernel)
  set s2 := (socketpair afUnix 1 0 s1).2
  have h3 := Act.run_of_fst (show (send 100 [1] s2).1 = .ok 1 by decide +kernel)
  set s3 := (send 100 [1] s2).2
  have h4 := Act.run_of_fst (show (send 102 [2] s3).1 = .ok 1 by decide +kernel)
  set s4 := (send 102 [2] s3).2
  have h5 := Act.run_of_fst (show (recv 101 1 s4).1 = .ok [2] by decide +kernel)
  set s5 := (recv 101 1 s4).2
  clear_value s5 s4 s3 s2 s1
  have hrun : Runs.Run Step (start 0) _ _ := .snoc (.snoc (.snoc (.snoc (.single (.paired h1)) (.paired h2)) (.sent h3))
    (.sent h4)) (.received h5)
  obtain ⟨t, -, -, hsound⟩ := (hall 0 _ _ hrun).snoc_inv
  have hfirst : [2] <+: ([1] : List UInt8) := hsound.1 100 101 rfl
  exact absurd hfirst (by decide)

end Kernel.Sockets
