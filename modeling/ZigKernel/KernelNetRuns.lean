import ZigKernel.KernelNetCalls
import ZigKernel.LibRuns

/-! The loopback path over sequences of sends and receives. Every used buffer is posted or waits in the queue, and what
is received and what waits is what was sent, exactly in the runs in which no send finds one free buffer only or is too
large, and no receive leaves more of a datagram than it takes. -/

namespace Kernel.Net

open Zig

/-! ### The devices are opened -/

section Opening

variable {s : Stack}

theorem usedCount_le (s : Stack) : usedCount s ≤ maxSkb := by
  have h := List.countP_le_length (p := fun i => s.used i) (l := List.finRange maxSkb)
  rwa [List.length_finRange] at h

theorem usedCount_full (h : ∀ i, s.used i = true) : usedCount s = maxSkb := by
  rw [usedCount, List.countP_eq_length.mpr fun i _ => h i, List.length_finRange]

/-- Posting takes a buffer for each descriptor as long as there is one. -/
theorem postRx_run (n : Nat) (h : Queued s []) : ∃ t, postRx n s = (.ok (), t) ∧ Queued t [] ∧
    usedCount t = min (usedCount s + n) maxSkb ∧ t.devCount = s.devCount := by
  induction n generalizing s with
  | zero => exact ⟨s, rfl, h, (Nat.min_eq_left (usedCount_le s)).symm, rfl⟩
  | succ n ih =>
      rw [postRx]
      cases hfree : Table.find? s.used (!·) with
      | none =>
          obtain ⟨t, hrun, ht, hcount, hdev⟩ := ih h
          refine ⟨t, (Act.bind_ok_run (alloc_none hfree)).trans hrun, ht, ?_, hdev⟩
          rw [hcount, usedCount_full (find_none hfree)]
          omega
      | some i =>
          have htaken : Queued (s.taken i) [] :=
            h.congr rfl rfl rfl rfl (wf_update h.wf (h.wf i).reset i) fun _ hmem => absurd hmem List.not_mem_nil
          obtain ⟨t, hrun, ht, hcount, hdev⟩ := ih htaken
          refine ⟨t, (Act.bind_ok_run (alloc_some hfree)).trans hrun, ht, ?_, hdev⟩
          rw [hcount, usedCount_take (find_free hfree) rfl]
          omega

/-- Opening a device posts buffers for its descriptors, and nothing waits yet. -/
theorem opened_queued (k : Nat) : Queued (opened k) [] ∧ usedCount (opened k) = min (rxRing * k) maxSkb ∧
    (opened k).devCount = min k maxNetdev := by
  induction k with
  | zero =>
      refine ⟨⟨fun _ => SkBuff.wf_default, Nat.zero_le _, rfl, rfl, List.nodup_nil, ?_⟩, by decide, rfl⟩
      exact fun _ hmem => absurd hmem List.not_mem_nil
  | succ k ih =>
      obtain ⟨hqueued, hcount, hdev⟩ := ih
      rw [opened, register, Act.get_bind_run]
      by_cases hroom : (opened k).devCount ≥ maxNetdev
      · rw [if_pos hroom, Act.fail_run, hcount, hdev]
        refine ⟨hqueued, ?_, ?_⟩ <;> simp only [rxRing, maxSkb, maxNetdev] at * <;> omega
      · rw [if_neg hroom, Act.modify_bind_run]
        obtain ⟨t, hrun, ht, hcount', hdev'⟩ := postRx_run (s := { opened k with devCount := (opened k).devCount + 1 })
          rxRing (hqueued.congr rfl rfl rfl rfl hqueued.wf hqueued.used)
        have hsame : usedCount { opened k with devCount := (opened k).devCount + 1 } = usedCount (opened k) := rfl
        rw [hrun, hcount', hdev', hsame, hcount]
        refine ⟨ht, ?_, ?_⟩ <;> simp only [hdev, rxRing, maxSkb, maxNetdev] at * <;> omega

end Opening

/-! ### Runs -/

/-- The stack, the payloads that were sent and not dropped, and the bytes that were received. -/
structure Books where
  net : Stack
  accepted : List UInt8 := []
  received : List UInt8 := []

inductive Event where
  | sent (data : List UInt8)
  | refused (data : List UInt8) (e : NetError)
  | sendTrapped (data : List UInt8)
  | received (bufLen : Nat) (bytes : List UInt8)
  | nothing (bufLen : Nat) (e : NetError)
  | recvTrapped (bufLen : Nat)

inductive Step (s : Books) : Event → Books → Prop where
  | sent {data : List UInt8} {n : Nat} {net : Stack} (h : sendInet data s.net = (.ok n, net)) :
      Step s (.sent data) { s with net, accepted := s.accepted ++ kept s.net data }
  | refused {data : List UInt8} {e : NetError} {net : Stack} (h : sendInet data s.net = (.error e, net)) :
      Step s (.refused data e) { s with net }
  | sendTrapped {data : List UInt8} {net : Stack} (h : sendInet data s.net = (.trap, net)) :
      Step s (.sendTrapped data) { s with net }
  | received {n : Nat} {bytes : List UInt8} {net : Stack} (h : recvInet n s.net = (.ok bytes, net)) :
      Step s (.received n bytes) { s with net, received := s.received ++ bytes }
  | nothing {n : Nat} {e : NetError} {net : Stack} (h : recvInet n s.net = (.error e, net)) :
      Step s (.nothing n e) { s with net }
  | recvTrapped {n : Nat} {net : Stack} (h : recvInet n s.net = (.trap, net)) :
      Step s (.recvTrapped n) { s with net }

/-- The bytes in the queue. -/
def waiting (s : Stack) : List UInt8 :=
  (Ring.toList s.rxQueue s.rxHead.val s.rxLen).flatMap fun o => (o.map fun i => (s.pool i).content).getD []

/-- Beside the posted buffers the used ones are those in the queue, and no byte is lost, repeated or moved. -/
def Conserved (posted : Nat) (s : Books) : Prop :=
  usedCount s.net = posted + s.net.rxLen ∧ s.received ++ waiting s.net = s.accepted

/-- The call does not trap, changes nothing if it is a send that fails, and leaves the buffers and the bytes
accounted for. -/
def Event.Clean (posted : Nat) (s : Books) (event : Event) (t : Books) : Prop :=
  Conserved posted t ∧
    match event with
    | .refused .. => t.net = s.net
    | .sendTrapped _ | .recvTrapped _ => False
    | _ => True

/-- No buffer is free, or two are, for a payload that fits one and counters that have room. -/
def Sendable (s : Stack) (data : List UInt8) : Prop :=
  s.devCount = 0 ∨ (∀ i, s.used i = true) ∨
    (∃ i j, i ≠ j ∧ s.used i = false ∧ s.used j = false) ∧ data.length ≤ skbBufSize ∧ CountersFit s.first data.length

/-- The first datagram of the queue has no more bytes than twice the length of the buffer. -/
def Receivable (s : Stack) (bufLen : Nat) : Prop :=
  ∀ i, s.rxLen ≠ 0 → s.rxQueue s.rxHead = some i → (s.pool i).len ≤ 2 * bufLen

def Event.Covered (s : Books) : Event → Prop
  | .sent data | .refused data _ | .sendTrapped data => Sendable s.net data
  | .received n _ | .nothing n _ | .recvTrapped n => Receivable s.net n

section Steps

variable {s t : Books} {event : Event} {hs : List Handle} {posted : Nat} {data : List UInt8}

/-- What holds between clean calls, with the buffers of the queue. -/
def Good (posted : Nat) (s : Books) : Prop :=
  ∃ hs, Queued s.net hs ∧ usedCount s.net = posted + hs.length ∧ s.received ++ bytesOf s.net.pool hs = s.accepted

theorem waiting_eq {s : Stack} (h : Queued s hs) : waiting s = bytesOf s.pool hs := by
  rw [waiting, h.ring, List.flatMap_map]
  rfl

theorem Good.conserved (h : Good posted s) : Conserved posted s := by
  obtain ⟨hs, hqueued, hcount, hbytes⟩ := h
  rw [Conserved, waiting_eq hqueued, ← hqueued.length]
  exact ⟨hcount, hbytes⟩

theorem Good.moved {net : Stack} {before after : List UInt8} {hs' : List Handle} (hcount : usedCount s.net = posted + hs.length)
    (hbytes : s.received ++ bytesOf s.net.pool hs = s.accepted) (hmoved : Moved s.net hs before after net hs') :
    Good posted { net, accepted := s.accepted ++ after, received := s.received ++ before } := by
  refine ⟨hs', hmoved.queued, ?_, ?_⟩
  · have := hmoved.count
    show usedCount net = posted + hs'.length
    omega
  · calc s.received ++ before ++ bytesOf net.pool hs' = s.received ++ (before ++ bytesOf net.pool hs') := List.append_assoc ..
      _ = s.received ++ (bytesOf s.net.pool hs ++ after) := by rw [hmoved.bytes]
      _ = s.accepted ++ after := by rw [← List.append_assoc, hbytes]

/-- A send that is covered goes through or is refused and changes nothing, and one that is not traps or loses a
buffer. -/
theorem sendInet_ensures {s : Stack} (h : Queued s hs) (data : List UInt8) : Act.Ensures (sendInet data) s
    (fun _ net => Sendable s data ∧ ∃ hs', Moved s hs [] (kept s data) net hs')
    (fun _ net => (Sendable s data ∧ net = s) ∨ (¬Sendable s data ∧ usedCount net = usedCount s + 1))
    ¬Sendable s data := by
  by_cases hdev : s.devCount = 0
  · rw [Act.Ensures, sendInet_noDevice hdev]
    exact Or.inl ⟨Or.inl hdev, rfl⟩
  cases hi : Table.find? s.used (!·) with
  | none =>
      rw [Act.Ensures, sendInet_full hdev hi]
      exact Or.inl ⟨Or.inr (Or.inl (find_none hi)), rfl⟩
  | some i =>
      have hfree := find_free hi
      have hiff : Sendable s data ↔ (∃ i j, i ≠ j ∧ s.used i = false ∧ s.used j = false) ∧ data.length ≤ skbBufSize ∧
          CountersFit s.first data.length := by
        rw [Sendable, or_iff_right hdev, or_iff_right]
        intro hall
        rw [hall i] at hfree
        cases hfree
      rw [hiff]
      cases hj : Table.find? (s.taken i).used (!·) with
      | none =>
          -- the one free buffer is the one that the payload takes
          have hone : ∀ j, s.used j = false → j = i := fun j hj' => by
            by_contra hji
            have hused := find_none hj j
            change Function.update s.used i true j = true at hused
            rw [Function.update_of_ne hji, hj'] at hused
            cases hused
          have hno : ¬((∃ i j, i ≠ j ∧ s.used i = false ∧ s.used j = false) ∧ data.length ≤ skbBufSize ∧
              CountersFit s.first data.length) := by
            rintro ⟨⟨j, k, hjk, hj', hk'⟩, -⟩
            exact hjk ((hone j hj').trans (hone k hk').symm)
          rcases sendInet_leaks h hdev hi hj with htrap | ⟨net, hrun, -, -, hcount, -⟩
          · rw [Act.Ensures, (Prod.ext htrap rfl : sendInet data s = (.trap, (sendInet data s).2))]
            exact hno
          · rw [Act.Ensures, hrun]
            exact Or.inr ⟨hno, hcount⟩
      | some j =>
          obtain ⟨hji, hfree'⟩ := find_second hj
          apply (@sendInet_returns s hs i j data h hdev hi hj).ensures_iff.mono
          · exact fun n net hsent => ⟨⟨⟨j, i, hji, hfree', hfree⟩, hsent.1⟩, hsent.2.2⟩
          · exact fun _ _ => False.elim
          · exact fun hno hsendable => hno hsendable.2

/-- A receive that is covered gets bytes or finds none, and one that is not traps. -/
theorem recvInet_ensures {s : Stack} (h : Queued s hs) (n : Nat) : Act.Ensures (recvInet n) s
    (fun bytes net => Receivable s n ∧ ∃ hs', Moved s hs bytes [] net hs')
    (fun _ net => Receivable s n ∧ net = s) ¬Receivable s n := by
  cases hs with
  | nil =>
      rw [Act.Ensures, recvInet_empty h]
      exact ⟨fun i hlen => absurd h.length.symm hlen, rfl⟩
  | cons i hs =>
      have hiff : Receivable s n ↔ (s.pool i).len ≤ 2 * n := by
        constructor
        · exact fun hall => hall i (h.length ▸ Nat.succ_ne_zero _) h.front
        · intro hhalf j _ hj
          rw [h.front] at hj
          rwa [← Option.some.inj hj]
      rw [hiff]
      exact (recvInet_returns h).ensures_iff.mono (fun _ _ => id) (fun _ _ => False.elim) id

/-- A call is clean exactly if it is covered, and then the books are in order again. -/
theorem step_iff (h : Good posted s) (hstep : Step s event t) :
    (event.Clean posted s t ↔ event.Covered s) ∧ (event.Covered s → Good posted t) := by
  have hgood := h
  obtain ⟨hs, hqueued, hcount, hbytes⟩ := h
  cases hstep with
  | @sent data n net hrun =>
      obtain ⟨hcovered, hs', hmoved⟩ := (sendInet_ensures hqueued data).of_ok hrun
      have ht := Good.moved hcount hbytes hmoved
      rw [List.append_nil] at ht
      exact ⟨iff_of_true ⟨ht.conserved, trivial⟩ hcovered, fun _ => ht⟩
  | @refused data e net hrun =>
      rcases (sendInet_ensures hqueued data).of_error hrun with ⟨hcovered, rfl⟩ | ⟨hno, hleak⟩
      · exact ⟨iff_of_true ⟨hgood.conserved, rfl⟩ hcovered, fun _ => hgood⟩
      · refine ⟨iff_of_false (fun hclean => ?_) hno, fun hcovered => absurd hcovered hno⟩
        have hsame : net = s.net := hclean.2
        rw [hsame] at hleak
        omega
  | @sendTrapped data net hrun =>
      have hno := (sendInet_ensures hqueued data).of_trap hrun
      exact ⟨iff_of_false (fun hclean => hclean.2) hno, fun hcovered => absurd hcovered hno⟩
  | @received n bytes net hrun =>
      obtain ⟨hcovered, hs', hmoved⟩ := (recvInet_ensures hqueued n).of_ok hrun
      have ht := Good.moved hcount hbytes hmoved
      rw [List.append_nil] at ht
      exact ⟨iff_of_true ⟨ht.conserved, trivial⟩ hcovered, fun _ => ht⟩
  | @nothing n e net hrun =>
      obtain ⟨hcovered, rfl⟩ := (recvInet_ensures hqueued n).of_error hrun
      exact ⟨iff_of_true ⟨hgood.conserved, trivial⟩ hcovered, fun _ => hgood⟩
  | @recvTrapped n net hrun =>
      have hno := (recvInet_ensures hqueued n).of_trap hrun
      exact ⟨iff_of_false (fun hclean => hclean.2) hno, fun hcovered => absurd hcovered hno⟩

end Steps

theorem good_opened (k : Nat) : Good (min (rxRing * k) maxSkb) { net := opened k } := by
  obtain ⟨hqueued, hcount, -⟩ := opened_queued k
  exact ⟨[], hqueued, hcount, rfl⟩

/-- With any number of devices opened, the runs whose calls are clean are those in which no send finds one free buffer
only or is too large for a buffer or a counter, and no receive leaves more of a datagram than it takes. -/
theorem loopback_conserves_iff (k : Nat) (events : List Event) (t : Books) :
    Runs.Run (fun s e t => Step s e t ∧ e.Clean (min (rxRing * k) maxSkb) s t) { net := opened k } events t ↔
      Runs.Run (fun s e t => Step s e t ∧ e.Covered s) { net := opened k } events t :=
  Runs.Run.along_iff (I := Good (min (rxRing * k) maxSkb)) (B := fun s (e : Event) _ => e.Covered s) (good_opened k)
    (fun _ _ _ hs hstep => (step_iff hs hstep).1) fun _ _ _ hs hstep => (step_iff hs hstep).2

/-- With one device opened, a send of one byte more than a buffer has traps. -/
theorem long_send_traps : ¬∀ k events t, 0 < k → Runs.Run Step { net := opened k } events t →
    Runs.Run (fun s e t => Step s e t ∧ e.Clean (min (rxRing * k) maxSkb) s t) { net := opened k } events t := by
  intro hall
  have hi : Table.find? (opened 1).used (!·) = some ⟨16, by decide⟩ := by decide +kernel
  have hj : Table.find? ((opened 1).taken ⟨16, by decide⟩).used (!·) = some ⟨17, by decide⟩ := by decide +kernel
  set data : List UInt8 := List.replicate (skbBufSize + 1) 0 with hdata
  have hlong : ¬(data.length ≤ skbBufSize ∧ CountersFit (opened 1).first data.length) := by
    rw [hdata, List.length_replicate]
    exact fun h => Nat.not_succ_le_self _ h.1
  have hdev : (opened 1).devCount ≠ 0 := by
    rw [(opened_queued 1).2.2]
    decide
  have htrap := (sendInet_returns (opened_queued 1).1 hdev hi hj).2 hlong
  rcases hsend : sendInet data (opened 1) with ⟨o, net⟩
  rw [hsend] at htrap
  cases htrap
  have hrun := hall 1 [.sendTrapped data] _ Nat.one_pos (.single (.sendTrapped hsend))
  exact (Runs.Run.cons_inv hrun).elim fun _ h => h.1.2.2

end Kernel.Net
