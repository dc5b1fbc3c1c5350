import ZigKernel.LibCursor
import ZigKernel.SupervisorLifetime

/-! The event log of a session. Every effect emits the event that the code pushes for it; the ring shows
the latest of the events since the last reset; sequence numbers count the events of the whole life of
the session; and a client that pages through the log with its last sequence number misses nothing that
is retained and gets nothing twice, whatever other calls come in between. -/

open Cursor

namespace Supervisor

open Zig

/-! ### The ring of a slot -/

namespace SessionSlot

variable {s : SessionSlot}

instance (s : SessionSlot) (nowMs : Nat) (k : Fin maxExecs) : Decidable (s.Due nowMs k) :=
  inferInstanceAs (Decidable (_ ∧ _ ∧ _))

/-- The events in the ring, oldest first. -/
def retained (s : SessionSlot) : List Event := Ring.toList s.events s.eventStart s.eventCount

/-- The event that `pushEvent` builds. -/
def nextEvent (s : SessionSlot) (execId : Nat) (ty : EventType) : Event :=
  { seq := s.nextSeq, generation := s.sess.generation, execId, ty }

/-- The ring against the events of the session: all of them, and those since the last reset. -/
structure Logged (s : SessionSlot) (all recent : List Event) : Prop where
  retained : s.retained = Ring.latest maxEvents recent
  count : s.eventCount = min maxEvents recent.length
  suffix : recent <:+ all
  seqs : all.map Event.seq = List.range' 1 all.length
  nextSeq : s.nextSeq = all.length + 1

theorem Logged.congr {s' : SessionSlot} {all recent : List Event} (h : s.Logged all recent)
    (hevents : s'.events = s.events) (hstart : s'.eventStart = s.eventStart) (hcount : s'.eventCount = s.eventCount)
    (hnext : s'.nextSeq = s.nextSeq) : s'.Logged all recent where
  retained := by
    rw [SessionSlot.retained, hevents, hstart, hcount]
    exact h.retained
  count := hcount.trans h.count
  suffix := h.suffix
  seqs := h.seqs
  nextSeq := hnext.trans h.nextSeq

theorem Logged.pushed {all recent : List Event} (h : s.Logged all recent) (execId : Nat) (ty : EventType) :
    (s.pushed execId ty 0).Logged (all ++ [s.nextEvent execId ty]) (recent ++ [s.nextEvent execId ty]) := by
  have hpush := Ring.toList_push s.events s.eventStart s.eventCount (s.nextEvent execId ty) h.retained h.count
  have hcount := h.count
  constructor
  · rw [← hpush, SessionSlot.retained, SessionSlot.pushed]
    split_ifs <;> rfl
  · rw [List.length_append, List.length_singleton, SessionSlot.pushed]
    split_ifs with hroom
    · show s.eventCount + 1 = _
      omega
    · show s.eventCount = _
      omega
  · obtain ⟨before, hbefore⟩ := h.suffix
    exact ⟨before, by rw [← hbefore, List.append_assoc]⟩
  · rw [List.map_append, h.seqs, List.length_append, List.length_singleton, List.range'_concat]
    show _ ++ [s.nextSeq] = _
    rw [h.nextSeq, Nat.one_mul, Nat.add_comm]
  · rw [pushed_nextSeq, h.nextSeq, List.length_append, List.length_singleton]

/-- Sequence numbers are consecutive up to the counter, and so increase. -/
theorem Logged.retained_seqs {all recent : List Event} (h : s.Logged all recent) :
    s.retained.length < s.nextSeq ∧
      s.retained.map Event.seq = List.range' (s.nextSeq - s.retained.length) s.retained.length := by
  have hsuffix : s.retained <:+ all := by
    rw [h.retained]
    exact (Ring.latest_suffix recent).trans h.suffix
  obtain ⟨before, hbefore⟩ := hsuffix
  have hlength : all.length = before.length + s.retained.length := by
    rw [← hbefore, List.length_append]
  have hseqs := h.seqs
  have hnext := h.nextSeq
  refine ⟨by omega, ?_⟩
  have hdrop := congrArg (List.drop before.length) hseqs
  rw [← List.map_drop, ← hbefore, List.drop_left] at hdrop
  rw [hdrop, List.drop_range']
  congr 1
  · omega
  · rw [List.length_append]
    omega

theorem Logged.retained_sorted {all recent : List Event} (h : s.Logged all recent) :
    s.retained.Pairwise fun a b => a.seq < b.seq := by
  have hsorted : (s.retained.map Event.seq).Pairwise (· < ·) := by
    rw [h.retained_seqs.2]
    exact List.pairwise_lt_range'
  rwa [List.pairwise_map] at hsorted

theorem Logged.retained_lt {all recent : List Event} (h : s.Logged all recent) {e : Event} (he : e ∈ s.retained) :
    e.seq < s.nextSeq := by
  obtain ⟨hlt, hseqs⟩ := h.retained_seqs
  have hmem := List.mem_map_of_mem (f := Event.seq) he
  rw [hseqs, List.mem_range'_1] at hmem
  omega

/-- The copying loop of `events` fills its buffer with the front of what comes after the cursor. -/
theorem copyEvents_eq (s : SessionSlot) (after outLen : Nat) (is : List Nat) (out : List Event)
    (hout : out.length ≤ outLen) :
    s.copyEvents after outLen is out =
      out ++ page Event.seq (is.map fun i => s.events (Fin.ofNat maxEvents (s.eventStart + i))) after
        (outLen - out.length) := by
  induction is generalizing out with
  | nil => simp [copyEvents, page, pending]
  | cons i rest ih =>
      set ev := s.events (Fin.ofNat maxEvents (s.eventStart + i)) with hev
      rw [copyEvents, List.map_cons, ← hev, page, pending]
      by_cases hroom : out.length < outLen
      · obtain ⟨left, hleft⟩ : ∃ left, outLen - out.length = left + 1 := ⟨outLen - out.length - 1, by omega⟩
        rw [if_pos hroom, hleft]
        by_cases hafter : ev.seq > after
        · rw [if_pos hafter, ih (out ++ [ev]) (by simpa using Nat.succ_le_of_lt hroom), List.filter_cons_of_pos (by simpa using hafter),
            List.take_succ_cons, List.append_assoc, List.singleton_append, page, pending]
          congr 3
          rw [List.length_append, List.length_singleton]
          omega
        · rw [if_neg hafter, ih out hout, List.filter_cons_of_neg (by simpa using hafter), page, pending, hleft]
      · have hfull : outLen - out.length = 0 := by omega
        rw [if_neg hroom, hfull, List.take_zero, List.append_nil]

theorem copyEvents_retained (s : SessionSlot) (after outLen : Nat) :
    s.copyEvents after outLen (List.range s.eventCount) [] = page Event.seq s.retained after outLen := by
  rw [copyEvents_eq s after outLen _ [] (Nat.zero_le _)]
  rfl

end SessionSlot

/-! ### The events a session emits -/

namespace Service

variable {svc svc' : Service} {c : Call} {trace : List Call}

/-- The events that a call adds to the log of a session in this slot. -/
def emitted (s : SessionSlot) : Call → List Event
  | ⟨.guestReady _ id, .ok _⟩ => if id = s.sess.id then [s.nextEvent 0 .lifecycle] else []
  | ⟨.startExec _ id .., .ok (.number execId)⟩ => if id = s.sess.id then [s.nextEvent execId .lifecycle] else []
  | ⟨.finishExec _ id execId .., .ok _⟩ => if id = s.sess.id then [s.nextEvent execId .exit] else []
  | ⟨.putFile _ id .., .ok _⟩ => if id = s.sess.id then [s.nextEvent 0 .lifecycle] else []
  | ⟨.reset _ id, .ok (.number generation)⟩ =>
      if id = s.sess.id then [{ s.nextEvent 0 .lifecycle with generation }] else []
  | ⟨.tick nowMs, .ok (.number _)⟩ =>
      (((List.finRange maxExecs).find? fun k => s.Due nowMs k).map fun k => s.nextEvent (s.execs k).id .exit).toList
  | _ => []

/-- The call has reset session `id`. -/
def Call.resets (id : Nat) : Call → Bool
  | ⟨.reset _ id', .ok _⟩ => id' = id
  | _ => false

theorem emitted_seq {s : SessionSlot} {e : Event} (he : e ∈ emitted s c) : e.seq = s.nextSeq := by
  revert he
  unfold emitted
  split <;> try split_ifs
  all_goals intro he
  all_goals simp only [List.mem_singleton, List.not_mem_nil, Option.mem_toList, Option.map_eq_some_iff] at he
  all_goals first | (rw [he]; rfl) | (obtain ⟨k, -, rfl⟩ := he; rfl)

theorem Call.Spares.emitted {s : SessionSlot} (h : c.Spares s.sess.id)
    (hidle : ∀ nowMs n, c ≠ ⟨.tick nowMs, .ok (.number n)⟩) : Service.emitted s c = [] ∧ c.resets s.sess.id = false := by
  obtain ⟨op, reply⟩ := c
  cases reply with
  | error e => cases op <;> exact ⟨rfl, rfl⟩
  | trap => cases op <;> exact ⟨rfl, rfl⟩
  | ok r =>
      have hne : op.Quiet ∨ ∀ owner, op.target ≠ some (owner, s.sess.id) := h.resolve_left (by rintro ⟨e, ⟨⟩⟩)
      cases op with
      | guestReady owner id =>
          have hid : id ≠ s.sess.id := fun heq => hne.elim False.elim fun h => h owner (by rw [← heq]; rfl)
          exact ⟨if_neg hid, rfl⟩
      | startExec owner id generation argv0 nowMs =>
          have hid : id ≠ s.sess.id := fun heq => hne.elim False.elim fun h => h owner (by rw [← heq]; rfl)
          cases r <;> first | exact ⟨rfl, rfl⟩ | exact ⟨if_neg hid, rfl⟩
      | finishExec owner id execId term code =>
          have hid : id ≠ s.sess.id := fun heq => hne.elim False.elim fun h => h owner (by rw [← heq]; rfl)
          exact ⟨if_neg hid, rfl⟩
      | putFile owner id generation path size sha =>
          have hid : id ≠ s.sess.id := fun heq => hne.elim False.elim fun h => h owner (by rw [← heq]; rfl)
          exact ⟨if_neg hid, rfl⟩
      | reset owner id =>
          have hid : id ≠ s.sess.id := fun heq => hne.elim False.elim fun h => h owner (by rw [← heq]; rfl)
          refine ⟨?_, decide_eq_false hid⟩
          cases r <;> first | rfl | exact if_neg hid
      | tick nowMs =>
          refine ⟨?_, rfl⟩
          cases r <;> first | rfl | exact absurd rfl (hidle _ _)
      | _ => exact ⟨rfl, rfl⟩

end Service

namespace SessionSlot

open Service

variable {s s' : SessionSlot} {c : Call} {all recent : List Event}

/-- The events since the last reset, after a call. -/
def recentAfter (s : SessionSlot) (c : Call) (recent : List Event) : List Event :=
  if c.resets s.sess.id then emitted s c else recent ++ emitted s c

/-- A call that puts one event into the ring of the session. -/
theorem Logged.emitted_one {execId : Nat} {ty : EventType} (h : s'.Logged all recent)
    (hcall : emitted s c = [s'.nextEvent execId ty]) (hresets : c.resets s.sess.id = false) :
    (s'.pushed execId ty 0).Logged (all ++ emitted s c) (s.recentAfter c recent) := by
  have hkeeps : ¬c.resets s.sess.id = true := by
    rw [hresets]
    nofun
  rw [recentAfter, if_neg hkeeps, hcall]
  exact h.pushed execId ty

theorem Logged.effect (h : s.Logged all recent) {op : Op} {r : Reply} {owner : Bytes}
    (htarget : op.target = some (owner, s.sess.id)) (heffect : Effect s op r s') :
    s'.Logged (all ++ emitted s ⟨op, .ok r⟩) (s.recentAfter ⟨op, .ok r⟩ recent) := by
  cases heffect with
  | guestReady owner' id hstate =>
      have hid : id = s.sess.id := (Prod.mk.inj (Option.some.inj htarget)).2
      exact .emitted_one (h.congr rfl rfl rfl rfl) (if_pos hid) rfl
  | startExec owner' id argv0 nowMs k hready hfree =>
      have hid : id = s.sess.id := (Prod.mk.inj (Option.some.inj htarget)).2
      exact .emitted_one (h.congr rfl rfl rfl rfl) (if_pos hid) rfl
  | cancelExec owner' id k hlive hgen =>
      rw [recentAfter, if_neg (by nofun), show emitted s _ = [] from rfl, List.append_nil, List.append_nil]
      exact h.congr rfl rfl rfl rfl
  | finishExec owner' id term code k hlive hgen hbusy =>
      have hid : id = s.sess.id := (Prod.mk.inj (Option.some.inj htarget)).2
      exact .emitted_one (h.congr rfl rfl rfl rfl) (if_pos hid) rfl
  | overwrite owner' id path size sha k hpath hused hfits =>
      have hid : id = s.sess.id := (Prod.mk.inj (Option.some.inj htarget)).2
      exact .emitted_one (h.congr rfl rfl rfl rfl) (if_pos hid) rfl
  | store owner' id path size sha r k hpath hshort hnew hfree hfits =>
      have hid : id = s.sess.id := (Prod.mk.inj (Option.some.inj htarget)).2
      exact .emitted_one (h.congr rfl rfl rfl rfl) (if_pos hid) rfl
  | reset owner' id hstate =>
      have hid : id = s.sess.id := (Prod.mk.inj (Option.some.inj htarget)).2
      -- the ring is emptied and the counter goes on
      set cleared : SessionSlot :=
        { s with
          execs := fun _ => {}
          files := fun k => { s.files k with used := false }
          ws := s.ws.reset
          eventStart := 0
          eventCount := 0
          sess :=
            { s.sess with
              generation := s.sess.generation + 1
              execDeadlineMs := 0
              state := .ready } } with hcleared
      have hlogged : cleared.Logged all [] := by
        constructor
        · rfl
        · rfl
        · exact List.nil_suffix
        · exact h.seqs
        · exact h.nextSeq
      have hresets : Call.resets s.sess.id ⟨.reset owner' id, .ok (.number (s.sess.generation + 1))⟩ = true :=
        decide_eq_true hid
      rw [recentAfter, if_pos hresets, emitted, if_pos hid]
      exact hlogged.pushed 0 .lifecycle

/-- The exec that a tick finishes is the only one due. -/
theorem find_due (hcoherent : s.Coherent) {nowMs : Nat} {k : Fin maxExecs} (hdue : s.Due nowMs k) :
    ((List.finRange maxExecs).find? fun k => s.Due nowMs k) = some k :=
  Table.find?_eq_of_unique (t := fun k => k) (p := fun k => decide (s.Due nowMs k)) (decide_eq_true hdue) fun j hj =>
    hcoherent.live_unique j k (of_decide_eq_true hj).1 hdue.1

theorem Logged.slotChange (h : s.Logged all recent) (hcoherent : s.Coherent) (hused : s.used = true)
    (hchange : SlotChange s c s') : s'.Logged (all ++ emitted s c) (s.recentAfter c recent) := by
  cases hchange with
  | spared hspares hidle =>
      obtain ⟨hnone, hkeeps⟩ := hspares.emitted hidle
      rw [recentAfter, hnone, hkeeps, if_neg Bool.false_ne_true, List.append_nil, List.append_nil]
      exact h
  | effect owner r _ htarget hreply heffect =>
      have hc : c = ⟨c.op, .ok r⟩ := by rw [← hreply]
      rw [hc]
      exact h.effect htarget heffect
  | ticked nowMs n _ hcall hticked =>
      subst hcall
      rw [recentAfter, if_neg (by nofun), emitted]
      cases hticked with
      | idle hidle =>
          have hnone : ((List.finRange maxExecs).find? fun k => s.Due nowMs k) = none := by
            rw [List.find?_eq_none]
            exact fun k _ hk => hidle hused k (of_decide_eq_true hk)
          rw [hnone, Option.map_none, Option.toList_none, List.append_nil, List.append_nil]
          exact h
      | kill k _ hdue =>
          rw [find_due hcoherent hdue, Option.map_some, Option.toList_some]
          have hmarked : (setExec k
              { s.execs k with
                state := .done
                term := if (s.execs k).cancelRequested then some .cancelled else some .timeout
                exitCode := none } s).Logged all recent := h.congr rfl rfl rfl rfl
          exact (hmarked.pushed (s.execs k).id .exit).congr rfl rfl rfl rfl

end SessionSlot

namespace Service

variable {svc svc' : Service} {c : Call} {trace : List Call}

/-! ### The log along a run -/

/-- Follows the calls from `Service{}` and writes down the events of session `id`. -/
structure Monitor where
  svc : Service := initial
  all : List Event := []
  recent : List Event := []

def Monitor.step (id : Nat) (m : Monitor) (c : Call) : Monitor where
  svc := (exec c.op m.svc).2
  all := match m.svc.slotOf id with
    | some i => m.all ++ emitted (m.svc.slots i) c
    | none => m.all
  recent := match m.svc.slotOf id with
    | some i => (m.svc.slots i).recentAfter c m.recent
    | none => m.recent

def monitor (id : Nat) (trace : List Call) : Monitor := trace.foldl (Monitor.step id) {}

theorem monitor_append (id : Nat) (trace : List Call) (c : Call) :
    monitor id (trace ++ [c]) = (monitor id trace).step id c := by
  rw [monitor, List.foldl_append]
  rfl

theorem monitor_svc (hrun : Run initial trace svc) (id : Nat) : (monitor id trace).svc = svc := by
  refine hrun.history (P := fun trace svc => (monitor id trace).svc = svc) rfl ?_
  intro trace svc c svc' hrun ih hstep
  rw [monitor_append, Monitor.step, ih, hstep.1]

/-- Nothing is written down before the session is created. -/
theorem monitor_unborn (hrun : Run initial trace svc) {id : Nat} (hid : svc.nextSessionId ≤ id) :
    (monitor id trace).all = [] ∧ (monitor id trace).recent = [] := by
  refine hrun.history (P := fun trace svc => svc.nextSessionId ≤ id →
    (monitor id trace).all = [] ∧ (monitor id trace).recent = []) ?_ ?_ hid
  · exact fun _ => ⟨rfl, rfl⟩
  · intro trace svc c svc' hrun ih hstep hid
    have hinv := inv_of_run hrun
    have hle := (hinv.step hstep).nextSessionId_le.trans hid
    have hnone : svc.slotOf id = none := by
      cases hslot : svc.slotOf id with
      | none => rfl
      | some i =>
          obtain ⟨hused, hsid⟩ := slotOf_some hslot
          exact absurd hle (hsid ▸ hinv.id_lt i hused).not_ge
    rw [monitor_append, Monitor.step, monitor_svc hrun, hnone]
    exact ih hle

theorem logged_of_run (hrun : Run initial trace svc) (i : Fin maxSessions) (hused : (svc.slots i).used = true) :
    (svc.slots i).Logged (monitor (svc.slots i).sess.id trace).all (monitor (svc.slots i).sess.id trace).recent := by
  refine slot_history
    (P := fun trace s => s.Logged (monitor s.sess.id trace).all (monitor s.sess.id trace).recent) hrun ?_ ?_ i hused
  · intro trace svc owner limits nowMs hrun hvalid hspares
    obtain ⟨hall, hrecent⟩ := monitor_unborn hrun le_rfl
    have hinv := inv_of_run hrun
    have hnone : svc.slotOf svc.nextSessionId = none := by
      cases hslot : svc.slotOf svc.nextSessionId with
      | none => rfl
      | some i =>
          obtain ⟨hused, hsid⟩ := slotOf_some hslot
          exact absurd hsid (hinv.id_lt i hused).ne
    show (freshSlot svc.nextSessionId owner limits nowMs).Logged (monitor svc.nextSessionId _).all
      (monitor svc.nextSessionId _).recent
    rw [monitor_append, Monitor.step, monitor_svc hrun, hnone, hall, hrecent]
    constructor
    · rfl
    · rfl
    · exact List.suffix_rfl
    · rfl
    · rfl
  · intro trace svc c svc' i hrun hstep hused ih hchange
    have hinv := inv_of_run hrun
    rw [hchange.sess_id, monitor_append, Monitor.step, monitor_svc hrun, hinv.slotOf hused]
    exact ih.slotChange (hinv.coherent i hused) hused hchange

/-! ### A client of the log -/

/-- The service with a client that pages through the events of a session: any call of any other caller,
or the client asking with a nonempty buffer for what comes after its cursor. -/
inductive Polled (owner : Bytes) (id : Nat) :
    Service × Reader Event → Call → Service × Reader Event → Prop where
  | other (svc : Service) (c : Call) (svc' : Service) (client : Reader Event) (hstep : Step svc c svc') :
      Polled owner id (svc, client) c (svc', client)
  | poll (svc : Service) (svc' : Service) (client : Reader Event) (n : Nat) (evs : List Event) (hn : 0 < n)
      (hstep : Step svc ⟨.events owner id client.last n, .ok (.events evs)⟩ svc') :
      Polled owner id (svc, client) ⟨.events owner id client.last n, .ok (.events evs)⟩
        (svc', client.receive Event.seq evs)

/-- The client asks once for each buffer size, and nobody else calls. -/
def pollEvents (owner : Bytes) (id : Nat) (svc : Service) : Reader Event → List Nat → Reader Event
  | client, [] => client
  | client, n :: sizes =>
      match exec (.events owner id client.last n) svc with
      | (.ok (.events evs), svc') => pollEvents owner id svc' (client.receive Event.seq evs) sizes
      | (_, svc') => pollEvents owner id svc' client sizes

theorem polled_of_run (owner : Bytes) (id : Nat) (hrun : Run initial trace svc) :
    Runs.Run (Polled owner id) (initial, {}) trace (svc, {}) := by
  refine hrun.history (P := fun trace svc => Runs.Run (Polled owner id) (initial, {}) trace (svc, {})) .refl ?_
  exact fun trace svc c svc' _ ih hstep => ih.snoc (.other svc c svc' {} hstep)

theorem run_of_polled {owner : Bytes} {id : Nat} {start final : Service × Reader Event}
    (hrun : Runs.Run (Polled owner id) start trace final) : Run start.1 trace final.1 := by
  induction hrun with
  | refl => exact .refl
  | snoc _ hstep ih =>
      cases hstep with
      | other svc c svc' client hstep => exact ih.snoc hstep
      | poll svc svc' client n evs hn hstep => exact ih.snoc hstep

theorem events_page {owner : Bytes} {id : Nat} {i : Fin maxSessions}
    (h : svc.Holds owner id i) (after outLen : Nat) :
    exec (.events owner id after outLen) svc =
      (.ok (.events (page Event.seq (svc.slots i).retained after outLen)), svc) := by
  rw [events_run h, SessionSlot.copyEvents_retained]

theorem pollEvents_eq {owner : Bytes} {id : Nat} {i : Fin maxSessions} (h : svc.Holds owner id i) (client : Reader Event)
    (sizes : List Nat) :
    pollEvents owner id svc client sizes = client.readPages Event.seq (svc.slots i).retained sizes := by
  induction sizes generalizing client with
  | nil => rfl
  | cons n sizes ih =>
      rw [pollEvents, events_page h, Reader.readPages]
      exact ih _

/-- What a change of the slot does to the retained events. -/
theorem retained_slotChange {s s' : SessionSlot} {all recent : List Event} (h : s.Logged all recent)
    (hcoherent : s.Coherent) (hused : s.used = true) (hchange : SlotChange s c s') :
    s.nextSeq ≤ s'.nextSeq ∧ ∀ e ∈ s'.retained, e ∈ s.retained ∨ s.nextSeq ≤ e.seq := by
  have h' := h.slotChange hcoherent hused hchange
  constructor
  · rw [h.nextSeq, h'.nextSeq, List.length_append]
    omega
  · intro e he
    have hnew : e ∈ emitted s c → s.nextSeq ≤ e.seq := fun he => (emitted_seq he).ge
    rw [h'.retained, SessionSlot.recentAfter] at he
    split_ifs at he
    · exact Or.inr (hnew ((Ring.latest_suffix _).mem he))
    · rw [h.retained]
      exact (Ring.mem_latest_append he).imp_right hnew

/-- The client never falls behind its cursor: whatever is retained up to there it has received. -/
theorem client_upToDate {owner : Bytes} {id : Nat} {client : Reader Event}
    (hrun : Runs.Run (Polled owner id) (initial, {}) trace (svc, client)) :
    (svc.nextSessionId ≤ id → client = {}) ∧
      ∀ i, (svc.slots i).used = true → (svc.slots i).sess.id = id →
        client.UpToDate Event.seq (svc.slots i).retained ∧ client.last < (svc.slots i).nextSeq := by
  refine hrun.history (P := fun _ t => (t.1.nextSessionId ≤ id → t.2 = {}) ∧
    ∀ i, (t.1.slots i).used = true → (t.1.slots i).sess.id = id →
      t.2.UpToDate Event.seq (t.1.slots i).retained ∧ t.2.last < (t.1.slots i).nextSeq) ?_ ?_
  · exact ⟨fun _ => rfl, fun i hused => by cases hused⟩
  · rintro trace t c u hpolled ⟨hunborn, hclient⟩ hstep
    have hrun := run_of_polled hpolled
    have hinv := inv_of_run hrun
    cases hstep with
    | other svc c svc' client hs =>
        have hchange := hinv.step hs
        refine ⟨fun hid => hunborn (hchange.nextSessionId_le.trans hid), fun i hused' hid => ?_⟩
        by_cases hused : (svc.slots i).used = true
        · have hslot := hchange.slotChange hinv hused hused'
          obtain ⟨hupTo, hlast⟩ := hclient i hused (hslot.sess_id.symm.trans hid)
          obtain ⟨hnext, hnew⟩ := retained_slotChange (logged_of_run hrun i hused) (hinv.coherent i hused) hused hslot
          exact ⟨hupTo.advance fun e he => (hnew e he).imp_right hlast.trans_le, hlast.trans_le hnext⟩
        · obtain ⟨owner', limits, nowMs, -, -, hslot⟩ := hchange.fresh (by simpa using hused) hused'
          dsimp only at hid ⊢
          rw [hslot] at hid ⊢
          have hempty : client = {} := hunborn (le_of_eq hid)
          rw [hempty]
          exact ⟨⟨List.Pairwise.nil, fun _ h => absurd h List.not_mem_nil, fun _ h => absurd h List.not_mem_nil⟩,
            Nat.one_pos⟩
    | poll svc svc' client n evs hn hs =>
        -- the page that is returned is the client's next one
        have hpage : ∃ i, svc.Holds owner id i ∧ svc' = svc ∧
            evs = page Event.seq (svc.slots i).retained client.last n := by
          by_cases hholds : ∃ i, svc.Holds owner id i
          · obtain ⟨i, hi⟩ := hholds
            have hcall := hs.1
            rw [show exec _ svc = _ from events_page hi client.last n] at hcall
            cases hcall
            exact ⟨i, hi, rfl, rfl⟩
          · have hcall := hs.1
            have hrefused := owned_refused (fun i hi => hholds ⟨i, hi⟩) (SessionSlot.eventsAfter client.last n)
            rw [show exec _ svc = _ from Act.bind_error_run hrefused] at hcall
            cases hcall
        obtain ⟨j, hj, rfl, rfl⟩ := hpage
        obtain ⟨hjused, hjid⟩ := slotOf_some hj.1
        refine ⟨fun hid => ?_, fun i hused hid => ?_⟩
        · exact absurd (hinv.id_lt j hjused) (hjid.symm ▸ hid.not_gt)
        · obtain rfl : i = j := hinv.id_unique i j hused hjused (hid.trans hjid.symm)
          obtain ⟨hupTo, hlast⟩ := hclient i hused hid
          have hlogged := logged_of_run hrun i hused
          exact ⟨hupTo.receive hlogged.retained_sorted n,
            Reader.receive_last_lt hlast (fun e he => hlogged.retained_lt he) n⟩

/-- The log of a live session along any run, with a client that polls it among all the other calls. -/
theorem event_log {owner : Bytes} {id : Nat} {client : Reader Event}
    (hrun : Runs.Run (Polled owner id) (initial, {}) trace (svc, client)) {i : Fin maxSessions}
    (hholds : svc.Holds owner id i) :
    (svc.slots i).retained = Ring.latest maxEvents (monitor id trace).recent ∧
      (svc.slots i).retained.length = min maxEvents (monitor id trace).recent.length ∧
      ((svc.slots i).retained.length < (svc.slots i).nextSeq ∧
        (svc.slots i).retained.map Event.seq =
          List.range' ((svc.slots i).nextSeq - (svc.slots i).retained.length) (svc.slots i).retained.length) ∧
      ((monitor id trace).recent <:+ (monitor id trace).all ∧
        ((monitor id trace).all.map Event.seq).Pairwise (· < ·)) ∧
      (∀ after outLen, exec (.events owner id after outLen) svc =
        (.ok (.events (((svc.slots i).retained.filter fun e => after < e.seq).take outLen)), svc)) ∧
      client.received.Pairwise (fun a b => a.seq < b.seq) ∧
      ∀ sizes : List Nat, (∀ n ∈ sizes, 0 < n) → (svc.slots i).retained.length ≤ sizes.length →
        ∀ e ∈ (svc.slots i).retained, (pollEvents owner id svc client sizes).received.count e = 1 := by
  have hservice := run_of_polled hrun
  obtain ⟨hused, hid⟩ := slotOf_some hholds.1
  have hlogged := logged_of_run hservice i hused
  rw [hid] at hlogged
  obtain ⟨hupTo, -⟩ := (client_upToDate hrun).2 i hused hid
  refine ⟨hlogged.retained, ?_, hlogged.retained_seqs, ⟨hlogged.suffix, ?_⟩, ?_, hupTo.increasing, ?_⟩
  · rw [hlogged.retained, Ring.latest_length]
  · rw [hlogged.seqs]
    exact List.pairwise_lt_range'
  · exact fun after outLen => events_page hholds after outLen
  · intro sizes hsizes henough e he
    have hpending : (pending Event.seq (svc.slots i).retained client.last).length ≤ sizes.length :=
      (List.length_filter_le _ _).trans henough
    have hnone := (Reader.readPages_received hlogged.retained_sorted client sizes hsizes hpending).2
    rw [pollEvents_eq hholds]
    exact (hupTo.readPages hlogged.retained_sorted sizes).count_eq_one hnone he

/-- A client that has polled after the session became ready. -/
theorem event_log_ready :
    let svc := (initial.play [.create [7] {} 0, .guestReady [7] 1]).2
    ∀ e ∈ (svc.slots ⟨0, by decide⟩).retained, (pollEvents [7] 1 svc {} [1]).received.count e = 1 :=
  (event_log (polled_of_run [7] 1 (play_run _ initial (by decide +kernel)))
    ⟨by decide +kernel, by decide +kernel⟩).2.2.2.2.2.2 [1] (by decide) (by decide +kernel)

end Service

end Supervisor
