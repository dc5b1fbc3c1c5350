import ZigKernel.KernelTcpRuns

/-! The TCP socket table over sequences of opens and transitions. The table keeps its promises exactly in the runs in
which no transition closes a socket: a socket that is reset leaves its place taken, and is found under descriptor -1. -/

namespace Kernel.Tcp.Registry

open Zig

/-! ### Runs -/

/-- A call; the buffers of a new socket are undefined. -/
inductive Call where
  | socket (rxBuf txBuf : List UInt8)
  | passiveOpen (fd : Int) (localPort : Nat)
  | activeOpen (fd : Int) (remotePort : Nat)
  | transition (fd : Int) (event : TcpEvent)

/-- The descriptor that a call is about. -/
def Call.fd : Call → Option Int
  | .socket .. => none
  | .passiveOpen fd _ | .activeOpen fd _ | .transition fd _ => some fd

/-- What a call returns: a descriptor, or nothing. -/
def Call.run : Call → Run (Option Int)
  | .socket rxBuf txBuf => do
      let fd ← Tcp.socket rxBuf txBuf
      pure (some fd)
  | .passiveOpen fd localPort => do
      Tcp.passiveOpen fd localPort
      pure none
  | .activeOpen fd remotePort => do
      Tcp.activeOpen fd remotePort
      pure none
  | .transition fd event => do
      Tcp.transition fd event
      pure none

/-- The table, the descriptors that were returned, those of the sockets that no transition has closed since, and the
places of the sockets that one has closed. -/
structure World where
  stack : Stack := {}
  returned : List Int := []
  live : List Int := []
  ended : List Slot := []

/-- A call and how it ends. -/
abbrev Event := Call × Outcome TcpError (Option Int)

/-- The place of the socket that a transition closes. -/
def endedBy (s : Stack) (fd : Int) (event : TcpEvent) : Option Slot := do
  let (x, sk) ← findSock fd s
  let sk' ← sk.on event
  if sk'.state = .closed then some x else none

/-- A new socket takes over its place. -/
def World.log (w : World) (event : Event) (stack : Stack) : World :=
  match event with
  | (.socket .., .ok (some fd)) =>
      { stack, returned := w.returned ++ [fd], live := w.live ++ [fd]
        ended := w.ended.filter fun x => (findSock fd stack).map Prod.fst ≠ some x }
  | (.transition fd event, .ok _) =>
      match endedBy w.stack fd event with
      | some x => { w with stack, live := w.live.erase fd, ended := w.ended ++ [x] }
      | none => { w with stack }
  | _ => { w with stack }

def Step (w : World) (event : Event) (w' : World) : Prop :=
  ∃ stack, event.1.run w.stack = (event.2, stack) ∧ w' = w.log event stack

/-- There is no room only where eight sockets are live, the live descriptors are distinct, a closed socket is not found,
and a descriptor that was never returned is not known. -/
structure Lawful (w : World) (event : Event) (w' : World) : Prop where
  full : event.2 = .error .noMem → maxTcpSocks ≤ w.live.length
  distinct : w'.live.Nodup
  gone : ∀ x ∈ w'.ended, ∀ fd sk, findSock fd w'.stack ≠ some (x, sk)
  unknown : ∀ fd, event.1.fd = some fd → fd ∉ w.returned → event.2 = .error .notFound ∧ w'.stack = w.stack

/-- The events that close a socket. -/
def ends (state : TcpState) (event : TcpEvent) : Bool :=
  match state, event with
  | .listen, .sendFin | .synSent, .timeout | .lastAck, .recvFinAck | .lastAck, .timeout | .closing, .timeout
  | .timeWait, .timeout => true
  | _, _ => false

/-- The call closes no socket. -/
def Covered (w : World) : Call → Prop
  | .transition fd event => ∀ x sk, findSock fd w.stack = some (x, sk) → ends sk.state event = false
  | _ => True

/-! ### The table -/

variable {s : Stack} {fd : Int} {x : Slot} {sk sk' : TcpSocket} {event : TcpEvent}

theorem findSock_fd (h : findSock fd s = some (x, sk)) : sk.fd = fd := by
  simp only [findSock, Option.bind_eq_bind, Option.bind_eq_some_iff, Option.pure_def, Option.some.injEq, Prod.mk.injEq] at h
  obtain ⟨x', hfind, sk', hslot, rfl, rfl⟩ := h
  have hmatch := Table.find?_some hfind
  rw [hslot, Option.any_some] at hmatch
  exact of_decide_eq_true hmatch

theorem findSock_none (h : ∀ x sk, s.socks x = some sk → sk.fd ≠ fd) : findSock fd s = none := by
  cases hfind : findSock fd s with
  | none => rfl
  | some r =>
      obtain ⟨x, sk⟩ := r
      exact absurd (findSock_fd hfind) (h x sk (findSock_some hfind))

theorem findSock_isSome (h : s.socks x = some sk) : ∃ y sk', findSock sk.fd s = some (y, sk') := by
  have hmatch : (s.socks x).any (·.fd = sk.fd) = true := by
    rw [h, Option.any_some]
    exact decide_eq_true rfl
  obtain ⟨y, hy⟩ := Table.find?_isSome (p := fun slot : Option TcpSocket => slot.any (·.fd = sk.fd)) hmatch
  have hslot := Table.find?_some hy
  cases hsk' : s.socks y with
  | none =>
      rw [hsk'] at hslot
      cases hslot
  | some sk' =>
      refine ⟨y, sk', ?_⟩
      rw [findSock, hy, Option.bind_eq_bind, Option.bind_some, hsk']
      rfl

/-- A socket behind an event is reset, or keeps its descriptor and is not closed. -/
theorem on_cases (sk : TcpSocket) (event : TcpEvent) :
    match sk.on event with
    | some sk' => ends sk.state event = true ∧ sk' = sk.reset ∨ ends sk.state event = false ∧ sk'.state ≠ .closed ∧ sk'.fd = sk.fd
    | none => ends sk.state event = false := by
  obtain ⟨state, _, _, _, _, _, _, _⟩ := sk
  cases state <;> cases event <;> first | exact Or.inl ⟨rfl, rfl⟩ | exact Or.inr ⟨rfl, nofun, rfl⟩ | rfl

/-! ### The invariant -/

/-- No socket has been closed, and those of the table have the descriptors of their places. -/
structure Good (w : World) : Prop where
  ended : w.ended = []
  returned : w.returned = w.live
  distinct : w.live.Nodup
  held : ∀ fd, fd ∈ w.live ↔ ∃ x sk, w.stack.socks x = some sk ∧ sk.fd = fd
  place : ∀ x sk, w.stack.socks x = some sk → sk.fd = 200 + (x.val : Int)
  count : w.stack.sockCount = w.live.length

theorem good_init : Good {} := ⟨rfl, rfl, List.nodup_nil, by simp, nofun, rfl⟩

variable {w w' : World} {c : Call} {o : Outcome TcpError (Option Int)}

/-- The descriptors of all places. -/
def descriptors : List Int := (List.finRange maxTcpSocks).map fun x => 200 + (x.val : Int)

theorem descriptors_nodup : descriptors.Nodup := by decide

theorem Good.live_length (h : Good w) : w.live.length ≤ maxTcpSocks := by
  have hsubset : w.live ⊆ descriptors := fun fd hfd => by
    obtain ⟨x, sk, hx, rfl⟩ := (h.held fd).mp hfd
    exact List.mem_map.mpr ⟨x, List.mem_finRange x, (h.place x sk hx).symm⟩
  exact (h.distinct.subperm hsubset).length_le

theorem Good.find_none (h : Good w) (hfd : fd ∉ w.returned) : findSock fd w.stack = none := by
  refine findSock_none fun x sk hx heq => hfd ?_
  rw [h.returned]
  exact (h.held fd).mpr ⟨x, sk, hx, heq⟩

theorem setSlot_self (s : Stack) (x : Slot) (slot : Option TcpSocket) : (s.setSlot x slot).socks x = slot := by
  show Function.update s.socks x slot x = slot
  exact Function.update_self x slot s.socks

theorem setSlot_other (s : Stack) {x y : Slot} (hy : y ≠ x) (slot : Option TcpSocket) :
    (s.setSlot x slot).socks y = s.socks y := by
  show Function.update s.socks x slot y = s.socks y
  exact Function.update_of_ne hy slot s.socks

theorem Good.edit (h : Good w) (hx : w.stack.socks x = some sk) (hfd : sk'.fd = sk.fd) :
    Good { w with stack := w.stack.setSlot x (some sk') } where
  ended := h.ended
  returned := h.returned
  distinct := h.distinct
  held fd := by
    rw [h.held]
    constructor
    · rintro ⟨y, sk₁, hy, heq⟩
      by_cases hyx : y = x
      · rw [hyx, hx] at hy
        cases hy
        exact ⟨x, sk', setSlot_self _ _ _, hfd.trans heq⟩
      · exact ⟨y, sk₁, (setSlot_other _ hyx _).trans hy, heq⟩
    · rintro ⟨y, sk₁, hy, heq⟩
      by_cases hyx : y = x
      · rw [hyx, setSlot_self] at hy
        cases hy
        exact ⟨x, sk, hx, hfd.symm.trans heq⟩
      · rw [setSlot_other _ hyx] at hy
        exact ⟨y, sk₁, hy, heq⟩
  place y sk₁ hy := by
    by_cases hyx : y = x
    · rw [hyx, setSlot_self] at hy
      cases hy
      rw [hyx, hfd]
      exact h.place x sk hx
    · rw [setSlot_other _ hyx] at hy
      exact h.place y sk₁ hy
  count := h.count

/-! ### The calls -/

/-- The call fails and changes nothing, or edits the socket that it finds. -/
def Edits (fd : Int) (s : Stack) (r : Outcome TcpError (Option Int) × Stack) : Prop :=
  (∃ e, r = (.error e, s) ∧ e ≠ .noMem ∧ (findSock fd s = none → e = .notFound)) ∨
    ∃ x sk sk', findSock fd s = some (x, sk) ∧ sk'.fd = sk.fd ∧ r = (.ok none, s.setSlot x (some sk'))

/-- The two opens differ in what they write. -/
theorem open_edits {m : Run Unit} (write : TcpSocket → TcpSocket) (hwrite : ∀ sk, (write sk).fd = sk.fd)
    (hrun : m s = match findSock fd s with
      | none => (.error .notFound, s)
      | some (x, sk) =>
          if sk.state ≠ .closed then (.error .invalidState, s) else (.ok (), s.setSlot x (some (write sk)))) :
    Edits fd s ((m >>= fun _ => (pure none : Run (Option Int))) s) := by
  cases hfind : findSock fd s with
  | none =>
      rw [hfind] at hrun
      exact Or.inl ⟨.notFound, Act.bind_error_run hrun, nofun, fun _ => rfl⟩
  | some r =>
      obtain ⟨x, sk⟩ := r
      simp only [hfind] at hrun
      by_cases hstate : sk.state ≠ .closed
      · rw [if_pos hstate] at hrun
        exact Or.inl ⟨.invalidState, Act.bind_error_run hrun, nofun, fun hnone => by rw [hfind] at hnone; cases hnone⟩
      · rw [if_neg hstate] at hrun
        exact Or.inr ⟨x, sk, write sk, hfind, hwrite sk, Act.bind_ok_run hrun⟩

theorem passiveOpen_edits (fd : Int) (localPort : Nat) (s : Stack) : Edits fd s ((Call.passiveOpen fd localPort).run s) := by
  refine open_edits (fun sk => { sk with state := .listen, localPort }) (fun _ => rfl) ?_
  rw [Tcp.passiveOpen, Act.get_bind_run]
  rcases findSock fd s with _ | ⟨x, sk⟩
  · rfl
  · dsimp only
    split_ifs <;> rfl

theorem activeOpen_edits (fd : Int) (remotePort : Nat) (s : Stack) : Edits fd s ((Call.activeOpen fd remotePort).run s) := by
  refine open_edits (fun sk => { sk with state := .synSent, remotePort }) (fun _ => rfl) ?_
  rw [Tcp.activeOpen, Act.get_bind_run]
  rcases findSock fd s with _ | ⟨x, sk⟩
  · rfl
  · dsimp only
    split_ifs <;> rfl

/-- What a transition does by the socket that it finds. -/
theorem transition_run (fd : Int) (event : TcpEvent) (s : Stack) :
    (Call.transition fd event).run s = match findSock fd s with
      | none => (.error .notFound, s)
      | some (x, sk) =>
          match sk.on event with
          | none => (.error .invalidState, s)
          | some sk' => (.ok none, s.setSlot x (some sk')) := by
  rw [Call.run]
  have hrun : Tcp.transition fd event s = match findSock fd s with
      | none => (.error .notFound, s)
      | some (x, sk) =>
          match sk.on event with
          | none => (.error .invalidState, s)
          | some sk' => (.ok (), s.setSlot x (some sk')) := by
    rw [Tcp.transition, Act.get_bind_run]
    rcases findSock fd s with _ | ⟨x, sk⟩
    · rfl
    · dsimp only
      cases sk.on event <;> rfl
  rw [Act.bind_run, hrun]
  rcases findSock fd s with _ | ⟨x, sk⟩
  · rfl
  · dsimp only
    cases sk.on event <;> rfl

/-- A transition that closes no socket. -/
theorem transition_edits (hcovered : ∀ x sk, findSock fd s = some (x, sk) → ends sk.state event = false) :
    Edits fd s ((Call.transition fd event).run s) ∧ endedBy s fd event = none := by
  rw [transition_run, endedBy]
  cases hfind : findSock fd s with
  | none => exact ⟨Or.inl ⟨.notFound, rfl, nofun, fun _ => rfl⟩, rfl⟩
  | some r =>
      obtain ⟨x, sk⟩ := r
      have hcases := on_cases sk event
      have hends := hcovered x sk hfind
      simp only [Option.bind_eq_bind, Option.bind_some]
      cases hon : sk.on event with
      | none =>
          refine ⟨Or.inl ⟨.invalidState, rfl, nofun, fun hnone => ?_⟩, rfl⟩
          rw [hfind] at hnone
          cases hnone
      | some sk' =>
          rw [hon] at hcases
          obtain ⟨hyes, -⟩ | ⟨-, hopen, hfd⟩ := hcases
          · rw [hyes] at hends
            cases hends
          · exact ⟨Or.inr ⟨x, sk, sk', hfind, hfd, rfl⟩, if_neg hopen⟩

theorem socket_full (h : Table.find? s.socks (·.isNone) = none) (rxBuf txBuf : List UInt8) :
    (Call.socket rxBuf txBuf).run s = (.error .noMem, s) := by
  have hrun : Tcp.socket rxBuf txBuf s = (.error .noMem, s) := by
    rw [Tcp.socket, Act.get_bind_run, h]
    rfl
  exact Act.bind_error_run hrun

theorem socket_run (h : Table.find? s.socks (·.isNone) = some x) (hcount : s.sockCount + 1 < u64Bound) (rxBuf txBuf : List UInt8) :
    (Call.socket rxBuf txBuf).run s =
      (.ok (some (200 + (x.val : Int))),
        { s.setSlot x (some { fd := 200 + (x.val : Int), rxBuf, txBuf }) with sockCount := s.sockCount + 1 }) := by
  have hfd : (castI32 (200 + x.val) : Outcome TcpError Int) = .ok (200 + (x.val : Int)) := by
    have hx := x.isLt
    rw [castI32_of_lt (Nat.lt_trans (Nat.add_lt_add_left hx 200) (by decide)), Nat.cast_add]
    rfl
  have hrun : Tcp.socket rxBuf txBuf s =
      (.ok (200 + (x.val : Int)),
        { s.setSlot x (some { fd := 200 + (x.val : Int), rxBuf, txBuf }) with sockCount := s.sockCount + 1 }) := by
    rw [Tcp.socket, Act.get_bind_run, h]
    dsimp only
    rw [hfd, Act.lift_ok_bind_run, Act.modify_bind_run, addU64_of_lt hcount]
    rfl
  exact Act.bind_ok_run hrun

/-! ### One step -/

/-- A step between good worlds is lawful, if it refuses nothing but for want of room and unknown descriptors. -/
theorem Good.lawful {e : Event} (h' : Good w') (hfull : e.2 = .error .noMem → maxTcpSocks ≤ w.live.length)
    (hunknown : ∀ fd, e.1.fd = some fd → fd ∉ w.returned → e.2 = .error .notFound ∧ w'.stack = w.stack) : Lawful w e w' where
  full := hfull
  distinct := h'.distinct
  gone x hx := by
    rw [h'.ended] at hx
    exact absurd hx List.not_mem_nil
  unknown := hunknown

theorem edits_step (h : Good w) (hc : c.fd = some fd) (hedits : Edits fd w.stack (c.run w.stack))
    (hlog : ∀ o stack, w.log (c, o) stack = { w with stack }) (hstep : Step w (c, o) w') : Lawful w (c, o) w' ∧ Good w' := by
  obtain ⟨stack, hrun, hw'⟩ := hstep
  rw [hlog] at hw'
  rw [hrun] at hedits
  rcases hedits with ⟨e, heq, hroom, hnone⟩ | ⟨x, sk, sk', hfind, hfd, heq⟩
  · cases heq
    have hsame : w' = w := hw'
    rw [hsame]
    refine ⟨h.lawful (fun hmem => absurd (Outcome.error.inj hmem) hroom) fun fd' hfd' hnew => ?_, h⟩
    cases hc.symm.trans hfd'
    exact ⟨congrArg _ (hnone (h.find_none hnew)), rfl⟩
  · cases heq
    have hgood : Good w' := hw' ▸ h.edit (findSock_some hfind) hfd
    refine ⟨hgood.lawful nofun fun fd' hfd' hnew => ?_, hgood⟩
    cases hc.symm.trans hfd'
    rw [h.find_none hnew] at hfind
    cases hfind

theorem socket_step (h : Good w) {rxBuf txBuf : List UInt8} (hstep : Step w (.socket rxBuf txBuf, o) w') :
    Lawful w (.socket rxBuf txBuf, o) w' ∧ Good w' := by
  obtain ⟨stack, hrun, hw'⟩ := hstep
  cases hfree : Table.find? w.stack.socks (·.isNone) with
  | none =>
      rw [socket_full hfree] at hrun
      cases hrun
      have hsame : w' = w := hw'
      rw [hsame]
      -- every place has its descriptor among the live ones
      have hsubset : descriptors ⊆ w.live := fun fd hfd => by
        obtain ⟨x, -, rfl⟩ := List.mem_map.mp hfd
        obtain ⟨sk, hx⟩ := Option.isSome_iff_exists.mp (Option.not_isNone _ ▸ Bool.not_eq_true' _ ▸ Table.find?_none.mp hfree x)
        exact (h.held _).mpr ⟨x, sk, hx, h.place x sk hx⟩
      exact ⟨h.lawful (fun _ => (descriptors_nodup.subperm hsubset).length_le) nofun, h⟩
  | some x =>
      have hcount : w.stack.sockCount + 1 < u64Bound := by
        rw [h.count]
        exact Nat.lt_of_le_of_lt (Nat.succ_le_succ h.live_length) (by decide)
      rw [socket_run hfree hcount] at hrun
      cases hrun
      have hempty : w.stack.socks x = none := Option.isNone_iff_eq_none.mp (Table.find?_some hfree)
      have hnew : 200 + (x.val : Int) ∉ w.live := by
        intro hmem
        obtain ⟨y, sk, hy, hfd⟩ := (h.held _).mp hmem
        rw [h.place y sk hy] at hfd
        have hyx : y = x := Fin.ext (by omega)
        rw [hyx, hempty] at hy
        cases hy
      have hgood : Good w' := by
        rw [hw']
        refine ⟨by rw [World.log, h.ended]; rfl, congrArg (· ++ _) h.returned, ?_, fun fd => ?_, fun y sk hy => ?_, ?_⟩
        · show (w.live ++ [_]).Nodup
          rw [← List.concat_eq_append]
          exact h.distinct.concat hnew
        · show fd ∈ w.live ++ [_] ↔ ∃ y sk, (w.stack.setSlot x _).socks y = some sk ∧ sk.fd = fd
          rw [List.mem_append, List.mem_singleton, h.held]
          constructor
          · rintro (⟨y, sk, hy, hfd⟩ | rfl)
            · have hyx : y ≠ x := by
                rintro rfl
                rw [hempty] at hy
                cases hy
              exact ⟨y, sk, (setSlot_other _ hyx _).trans hy, hfd⟩
            · exact ⟨x, _, setSlot_self _ _ _, rfl⟩
          · rintro ⟨y, sk, hy, hfd⟩
            by_cases hyx : y = x
            · rw [hyx, setSlot_self] at hy
              cases hy
              exact Or.inr hfd.symm
            · rw [setSlot_other _ hyx] at hy
              exact Or.inl ⟨y, sk, hy, hfd⟩
        · have hy : (w.stack.setSlot x _).socks y = some sk := hy
          by_cases hyx : y = x
          · rw [hyx, setSlot_self] at hy
            cases hy
            rw [hyx]
          · rw [setSlot_other _ hyx] at hy
            exact h.place y sk hy
        · show w.stack.sockCount + 1 = (w.live ++ [_]).length
          rw [List.length_append, List.length_singleton, h.count]
      exact ⟨hgood.lawful nofun nofun, hgood⟩

/-- The socket that a transition has closed is found under descriptor -1. -/
theorem closing_step (h : Good w) (hfind : findSock fd w.stack = some (x, sk)) (hends : ends sk.state event = true)
    (hstep : Step w (.transition fd event, o) w') : ¬Lawful w (.transition fd event, o) w' := by
  obtain ⟨stack, hrun, hw'⟩ := hstep
  have hcases := on_cases sk event
  cases hon : sk.on event with
  | none =>
      rw [hon] at hcases
      rw [hcases] at hends
      cases hends
  | some sk' =>
      rw [hon] at hcases
      obtain ⟨-, rfl⟩ | ⟨hno, -⟩ := hcases
      swap
      · rw [hno] at hends
        cases hends
      rw [transition_run, hfind] at hrun
      simp only [hon] at hrun
      cases hrun
      have hended : endedBy w.stack fd event = some x := by
        rw [endedBy, hfind]
        simp only [Option.bind_eq_bind, Option.bind_some, hon]
        rfl
      rw [World.log, hended] at hw'
      have hslot : w'.stack.socks x = some sk.reset := by
        rw [hw']
        exact setSlot_self _ _ _
      obtain ⟨y, sk', hfound⟩ := findSock_isSome hslot
      have hyx : y = x := by
        by_contra hyx
        have hother : w.stack.socks y = some sk' := by
          rw [← findSock_some hfound, hw']
          exact (setSlot_other _ hyx _).symm
        have hfd := findSock_fd hfound
        rw [h.place y sk' hother] at hfd
        have hreset : sk.reset.fd = -1 := rfl
        omega
      rw [hyx] at hfound
      refine fun hlawful => hlawful.gone x ?_ _ _ hfound
      rw [hw']
      exact List.mem_append_right _ List.mem_cons_self

/-- A step of a good world is lawful exactly if it closes no socket, and then it leads to a good world. -/
theorem step_iff {e : Event} (h : Good w) (hstep : Step w e w') :
    (Lawful w e w' ↔ Covered w e.1) ∧ (Covered w e.1 → Good w') := by
  obtain ⟨c, o⟩ := e
  cases c with
  | socket rxBuf txBuf =>
      obtain ⟨hlawful, hgood⟩ := socket_step h hstep
      exact ⟨iff_of_true hlawful True.intro, fun _ => hgood⟩
  | passiveOpen fd localPort =>
      obtain ⟨hlawful, hgood⟩ := edits_step h rfl (passiveOpen_edits fd localPort w.stack) (fun _ _ => rfl) hstep
      exact ⟨iff_of_true hlawful True.intro, fun _ => hgood⟩
  | activeOpen fd remotePort =>
      obtain ⟨hlawful, hgood⟩ := edits_step h rfl (activeOpen_edits fd remotePort w.stack) (fun _ _ => rfl) hstep
      exact ⟨iff_of_true hlawful True.intro, fun _ => hgood⟩
  | transition fd event =>
      have hsame (hcovered : Covered w (.transition fd event)) : Lawful w (.transition fd event, o) w' ∧ Good w' := by
        obtain ⟨hedits, hended⟩ := transition_edits hcovered
        refine edits_step h rfl hedits (fun o stack => ?_) hstep
        cases o with
        | ok r => rw [World.log, hended]
        | error e => rfl
        | trap => rfl
      refine ⟨⟨fun hlawful x sk hfind => ?_, fun hcovered => (hsame hcovered).1⟩, fun hcovered => (hsame hcovered).2⟩
      by_contra hends
      exact closing_step h hfind (Bool.not_eq_false _ ▸ hends) hstep hlawful

/-- The runs in which the table keeps its promises are those in which no transition closes a socket. -/
theorem table_lawful_iff (trace : List Event) (w : World) :
    Runs.Run (fun w e w' => Step w e w' ∧ Lawful w e w') {} trace w ↔
      Runs.Run (fun w e w' => Step w e w' ∧ Covered w e.1) {} trace w :=
  Runs.Run.along_iff (I := Good) (B := fun w (e : Event) _ => Covered w e.1) good_init
    (fun _ _ _ h hstep => (step_iff h hstep).1) fun _ _ _ h hstep => (step_iff h hstep).2

/-! ### Eight sockets that are closed again -/

/-- The events of the calls, and the world they lead to. -/
def play : List Call → World → List Event × World
  | [], w => ([], w)
  | c :: rest, w =>
      let r := c.run w.stack
      let later := play rest (w.log (c, r.1) r.2)
      ((c, r.1) :: later.1, later.2)

theorem play_run (calls : List Call) (w : World) : Runs.Run Step w (play calls w).1 (play calls w).2 := by
  induction calls generalizing w with
  | nil => exact .refl
  | cons c rest ih => exact Runs.Run.cons ⟨_, rfl, rfl⟩ (ih _)

/-- Opens a socket, lets it listen and closes it, for each place. -/
def openAndClose : List Call :=
  (List.range maxTcpSocks).flatMap fun i =>
    [.socket zeros zeros, .passiveOpen (200 + (i : Int)) 80, .transition (200 + (i : Int)) .sendFin]

/-- None of the sockets is live, yet there is no room, and a closed one is opened again under a descriptor that was never
returned. -/
theorem closed_sockets_stay :
    Runs.Run Step {} (play openAndClose {}).1 (play openAndClose {}).2 ∧ (play openAndClose {}).2.live = [] ∧
      ((Call.socket zeros zeros).run (play openAndClose {}).2.stack).1 = .error .noMem ∧
      -1 ∉ (play openAndClose {}).2.returned ∧
      ((Call.passiveOpen (-1) 80).run (play openAndClose {}).2.stack).1 = .ok none :=
  ⟨play_run openAndClose {}, by decide +kernel, by decide +kernel, by decide +kernel, by decide +kernel⟩

end Kernel.Tcp.Registry
