import ZigKernel.SupervisorEvents
import ZigKernel.SupervisorFiles

/-! Generation fencing. A reset raises the generation of its session, empties the exec and the file table
and keeps the exec counter, so that nothing issued before it is answered after it: calls that carry an
older generation, or the id of an older exec, are refused, and a file read back was put there since. -/

namespace Supervisor

open Zig

namespace Service

variable {svc svc' : Service} {c : Call} {trace : List Call} {id : Nat}

/-! ### The generation counts the resets -/

theorem Call.Spares.not_resets (h : c.Spares id) : c.resets id = false := by
  obtain ⟨op, reply⟩ := c
  cases op with
  | reset owner id' =>
      rcases h with ⟨e, he⟩ | hquiet | htarget
      · change reply = _ at he
        rw [he]
        rfl
      · exact hquiet.elim
      · have hne : id' ≠ id := fun heq => htarget owner (by rw [← heq]; rfl)
        cases reply <;> simp [Call.resets, hne]
  | _ => rfl

theorem generation_effect {s s' : SessionSlot} {op : Op} {r : Reply} {owner : Bytes}
    (htarget : op.target = some (owner, s.sess.id)) (h : SessionSlot.Effect s op r s') :
    s'.sess.generation = s.sess.generation + (Call.resets s.sess.id ⟨op, .ok r⟩).toNat := by
  cases h with
  | reset owner' id hstate =>
      have hid : id = s.sess.id := (Prod.mk.inj (Option.some.inj htarget)).2
      simp [Call.resets, hid, SessionSlot.wiped]
  | _ =>
      simp [Call.resets, SessionSlot.readied, SessionSlot.setState, SessionSlot.started, SessionSlot.placed,
        SessionSlot.begun, SessionSlot.cancelled, SessionSlot.finished, SessionSlot.stored, SessionSlot.setExec,
        SessionSlot.setFile]

theorem generation_slotChange {s s' : SessionSlot} (h : SlotChange s c s') :
    s'.sess.generation = s.sess.generation + (c.resets s.sess.id).toNat := by
  cases h with
  | spared hspares hidle => rw [hspares.not_resets]; rfl
  | effect owner r _ htarget hreply heffect =>
      have hc : c = ⟨c.op, .ok r⟩ := by rw [← hreply]
      rw [hc]
      exact generation_effect htarget heffect
  | ticked nowMs n _ hcall hticked =>
      subst hcall
      cases hticked with
      | idle _ => rfl
      | kill k _ _ => simp [SessionSlot.killed, SessionSlot.setExec, Call.resets]

theorem countP_resets_append (id : Nat) (trace : List Call) (c : Call) :
    (trace ++ [c]).countP (Call.resets id) = trace.countP (Call.resets id) + (c.resets id).toNat := by
  rw [List.countP_append, List.countP_singleton]
  cases c.resets id <;> rfl

theorem generation_of_run (hrun : Run initial trace svc) (i : Fin maxSessions) (hused : (svc.slots i).used = true) :
    (svc.slots i).sess.generation = 1 + trace.countP (Call.resets (svc.slots i).sess.id) := by
  refine slot_history (P := fun trace s => s.sess.generation = 1 + trace.countP (Call.resets s.sess.id))
    hrun ?_ ?_ i hused
  · intro trace svc owner limits nowMs hrun hvalid hspares
    have hnone : trace.countP (Call.resets svc.nextSessionId) = 0 :=
      List.countP_eq_zero.mpr fun c hc => by rw [(hspares c hc).not_resets]; nofun
    rw [countP_resets_append]
    show 1 = 1 + (trace.countP (Call.resets svc.nextSessionId) + 0)
    rw [hnone]
  · intro trace svc c svc' i hrun hstep hused ih hchange
    rw [hchange.sess_id, countP_resets_append, generation_slotChange hchange, ih, Nat.add_assoc]

/-! ### Exec ids are not issued twice -/

/-- A successful `startExec` of session `id` has returned `n`. -/
def Issued (trace : List Call) (id n : Nat) : Prop :=
  ∃ owner generation argv0 nowMs, (⟨.startExec owner id generation argv0 nowMs, .ok (.number n)⟩ : Call) ∈ trace

/-- The exec id was issued, and the session has been reset since. -/
def Outdated (trace : List Call) (id n : Nat) : Prop :=
  ∃ before c after, trace = before ++ c :: after ∧ Issued before id n ∧ c.resets id = true

theorem issued_append {n : Nat} (h : Issued (trace ++ [c]) id n) :
    Issued trace id n ∨ ∃ owner generation argv0 nowMs, c = ⟨.startExec owner id generation argv0 nowMs, .ok (.number n)⟩ := by
  obtain ⟨owner, generation, argv0, nowMs, hmem⟩ := h
  rcases List.mem_append.mp hmem with hmem | hmem
  · exact Or.inl ⟨owner, generation, argv0, nowMs, hmem⟩
  · exact Or.inr ⟨owner, generation, argv0, nowMs, (List.mem_singleton.mp hmem).symm⟩

theorem outdated_append {n : Nat} (h : Outdated (trace ++ [c]) id n) :
    Outdated trace id n ∨ Issued trace id n ∧ c.resets id = true := by
  obtain ⟨before, r, after, htrace, hissued, hresets⟩ := h
  rcases List.eq_nil_or_concat after with rfl | ⟨after, c', rfl⟩
  · obtain ⟨rfl, hc⟩ := List.append_inj' htrace rfl
    cases hc
    exact Or.inr ⟨hissued, hresets⟩
  · rw [List.concat_eq_append, ← List.cons_append, ← List.append_assoc] at htrace
    obtain ⟨rfl, -⟩ := List.append_inj' htrace rfl
    exact Or.inl ⟨before, r, after, rfl, hissued, hresets⟩

/-- What a change of the slot does to its exec ids: a new one is the counter, which only grows, and a
reset takes all of them out of the table. -/
structure ExecIds (s : SessionSlot) (c : Call) (s' : SessionSlot) : Prop where
  counter : s.nextExecId ≤ s'.nextExecId
  issued : ∀ {owner generation argv0 nowMs n},
    c = ⟨.startExec owner s.sess.id generation argv0 nowMs, .ok (.number n)⟩ → n = s.nextExecId ∧ n < s'.nextExecId
  table : ∀ k, (s'.execs k).id = (s.execs k).id ∨ (s'.execs k).id = s.nextExecId ∨ (s'.execs k).id = 0
  cleared : c.resets s.sess.id = true → ∀ k, (s'.execs k).id = 0

/-- Marking an exec keeps its id. -/
theorem update_id {t : Fin maxExecs → Exec} {k : Fin maxExecs} {e : Exec} (h : e.id = (t k).id) (j : Fin maxExecs) :
    (Function.update t k e j).id = (t j).id := by
  by_cases hjk : j = k
  · rw [hjk, Function.update_self, h]
  · rw [Function.update_of_ne hjk]

theorem ExecIds.same {s s' : SessionSlot} (hcounter : s'.nextExecId = s.nextExecId)
    (htable : ∀ k, (s'.execs k).id = (s.execs k).id)
    (hissued : ∀ owner generation argv0 nowMs n,
      c ≠ ⟨.startExec owner s.sess.id generation argv0 nowMs, .ok (.number n)⟩)
    (hresets : c.resets s.sess.id = false) : ExecIds s c s' where
  counter := hcounter.ge
  issued hc := absurd hc (hissued _ _ _ _ _)
  table k := Or.inl (htable k)
  cleared h := by
    rw [hresets] at h
    cases h

theorem execIds_effect {s s' : SessionSlot} {op : Op} {r : Reply} (h : SessionSlot.Effect s op r s') :
    ExecIds s ⟨op, .ok r⟩ s' := by
  cases h with
  | guestReady owner id hstate =>
      exact .same (by simp [SessionSlot.readied, SessionSlot.setState])
        (fun k => by simp [SessionSlot.readied, SessionSlot.setState]) (by simp) rfl
  | startExec owner id argv0 nowMs k hready hfree =>
      have hnext : (s.started k id s.sess.generation argv0 nowMs).nextExecId = s.nextExecId + 1 := by
        simp [SessionSlot.started, SessionSlot.placed, SessionSlot.begun]
      constructor
      · rw [hnext]
        exact Nat.le_succ _
      · intro owner' generation argv0' nowMs' n hc
        cases hc
        exact ⟨rfl, hnext ▸ Nat.lt_succ_self _⟩
      · intro j
        have hexecs : (s.started k id s.sess.generation argv0 nowMs).execs = Function.update s.execs k
            { id := s.nextExecId, sessionId := id, generation := s.sess.generation, argv0 := argv0.take argv0Cap,
              state := .running } := by
          simp [SessionSlot.started, SessionSlot.placed, SessionSlot.begun, SessionSlot.setExec]
        rw [hexecs]
        by_cases hjk : j = k
        · rw [hjk, Function.update_self]
          exact Or.inr (Or.inl rfl)
        · rw [Function.update_of_ne hjk]
          exact Or.inl rfl
      · rintro ⟨⟩
  | cancelExec owner id k hlive hgen =>
      refine .same rfl (fun j => ?_) (by simp) rfl
      show (Function.update s.execs k _ j).id = _
      exact update_id (by rfl) j
  | finishExec owner id term code k hlive hgen hbusy =>
      refine .same (by simp [SessionSlot.finished, SessionSlot.setExec]) (fun j => ?_) (by simp) rfl
      rw [SessionSlot.finished, SessionSlot.pushed_execs]
      show (Function.update s.execs k _ j).id = _
      exact update_id (by rfl) j
  | overwrite owner id path size sha k hpath hused hfits =>
      exact .same (by simp [SessionSlot.stored, SessionSlot.setFile])
        (fun j => by simp [SessionSlot.stored, SessionSlot.setFile]) (by simp) rfl
  | store owner id path size sha r k hpath hshort hnew hfree hfits =>
      exact .same (by simp [SessionSlot.stored, SessionSlot.setFile])
        (fun j => by simp [SessionSlot.stored, SessionSlot.setFile]) (by simp) rfl
  | reset owner id hstate =>
      have hempty (k : Fin maxExecs) : (s.wiped.execs k).id = 0 := by simp [SessionSlot.wiped]
      refine ⟨?_, by simp, fun k => Or.inr (Or.inr (hempty k)), fun _ => hempty⟩
      simp [SessionSlot.wiped]

theorem execIds_slotChange {s s' : SessionSlot} (h : SlotChange s c s') : ExecIds s c s' := by
  cases h with
  | spared hspares hidle =>
      refine .same rfl (fun _ => rfl) ?_ hspares.not_resets
      rintro owner generation argv0 nowMs n rfl
      rcases hspares with ⟨e, he⟩ | hquiet | htarget
      · cases he
      · exact hquiet
      · exact htarget owner rfl
  | effect owner r _ htarget hreply heffect =>
      have hc : c = ⟨c.op, .ok r⟩ := by rw [← hreply]
      rw [hc]
      exact execIds_effect heffect
  | ticked nowMs n _ hcall hticked =>
      subst hcall
      cases hticked with
      | idle _ => exact .same rfl (fun _ => rfl) (by nofun) rfl
      | kill k _ _ =>
          refine .same (by simp [SessionSlot.killed, SessionSlot.setExec]) (fun j => ?_) (by nofun) rfl
          rw [(SessionSlot.killed_eq s k).1]
          show (Function.update s.execs k _ j).id = _
          exact update_id (by rfl) j

/-- The issued ids lie below the counter, and the outdated ones are out of the table. -/
theorem execIds_of_run (hrun : Run initial trace svc) (i : Fin maxSessions) (hused : (svc.slots i).used = true) :
    0 < (svc.slots i).nextExecId ∧
      (∀ n, Issued trace (svc.slots i).sess.id n → 0 < n ∧ n < (svc.slots i).nextExecId) ∧
      ∀ n, Outdated trace (svc.slots i).sess.id n → ∀ k, ((svc.slots i).execs k).id ≠ n := by
  refine slot_history (P := fun trace s => 0 < s.nextExecId ∧
    (∀ n, Issued trace s.sess.id n → 0 < n ∧ n < s.nextExecId) ∧
    ∀ n, Outdated trace s.sess.id n → ∀ k, (s.execs k).id ≠ n) hrun ?_ ?_ i hused
  · intro trace svc owner limits nowMs hrun hvalid hspares
    -- nothing has been issued to a session that did not exist
    have hnone : ∀ n, ¬Issued trace svc.nextSessionId n := by
      rintro n ⟨owner', generation, argv0, nowMs', hmem⟩
      rcases hspares _ hmem with ⟨e, he⟩ | hquiet | htarget
      · cases he
      · exact hquiet
      · exact htarget owner' rfl
    refine ⟨Nat.one_pos, fun n hissued => ?_, fun n houtdated => ?_⟩
    · rcases issued_append hissued with hissued | ⟨_, _, _, _, hc⟩
      · exact absurd hissued (hnone n)
      · cases hc
    · rcases outdated_append houtdated with ⟨before, c, after, rfl, ⟨o, g, a, t, hmem⟩, -⟩ | ⟨hissued, -⟩
      · exact absurd ⟨o, g, a, t, List.mem_append_left _ hmem⟩ (hnone n)
      · exact absurd hissued (hnone n)
  · rintro trace svc c svc' i hrun hstep hused ⟨hpos, hissued, houtdated⟩ hchange
    have hids := execIds_slotChange hchange
    rw [hchange.sess_id]
    refine ⟨hpos.trans_le hids.counter, fun n hn => ?_, fun n hn k => ?_⟩
    · rcases issued_append hn with hn | ⟨owner, generation, argv0, nowMs, hc⟩
      · exact ⟨(hissued n hn).1, (hissued n hn).2.trans_le hids.counter⟩
      · obtain ⟨hnext, hlt⟩ := hids.issued hc
        exact ⟨hnext ▸ hpos, hlt⟩
    · rcases outdated_append hn with hn | ⟨hn, hresets⟩
      · have hbelow : 0 < n ∧ n < (svc.slots i).nextExecId := by
          obtain ⟨before, r, after, rfl, ⟨o, g, a, t, hmem⟩, -⟩ := hn
          exact hissued n ⟨o, g, a, t, List.mem_append_left _ hmem⟩
        rcases hids.table k with hkept | hnew | hfree
        · rw [hkept]
          exact houtdated n hn k
        · rw [hnew]
          exact hbelow.2.ne'
        · rw [hfree]
          exact hbelow.1.ne
      · rw [hids.cleared hresets k]
        exact (hissued n hn).1.ne

/-! ### What is refused -/

/-- The call fails and writes nothing. -/
def Refuses (svc : Service) (op : Op) : Prop := ∃ e, exec op svc = (.error e, svc)

/-- An owner-taking call is refused if every slot it could reach refuses it. -/
theorem refuses_owned {α : Type} {op : Op} {owner : Bytes} (m : Act SessionSlot Error α) (reply : α → Reply)
    (hexec : exec op = do return reply (← owned owner id m))
    (h : ∀ i, svc.Holds owner id i → ∃ e, m (svc.slots i) = (.error e, svc.slots i)) : svc.Refuses op := by
  rw [Refuses, hexec]
  by_cases hholds : ∃ i, svc.Holds owner id i
  · obtain ⟨i, hi⟩ := hholds
    obtain ⟨e, he⟩ := h i hi
    have hrun := owned_run hi m
    rw [he, setSlot_self] at hrun
    exact ⟨e, Act.bind_error_run hrun⟩
  · exact ⟨.notFound, Act.bind_error_run (owned_refused (fun i hi => hholds ⟨i, hi⟩) m)⟩

theorem startExec_stale {s : SessionSlot} {generation : Nat} (h : generation ≠ s.sess.generation) (id : Nat)
    (argv0 : Bytes) (nowMs : Nat) : ∃ e, SessionSlot.startExec id generation argv0 nowMs s = (.error e, s) := by
  rcases SessionSlot.session_startExec_run s.sess generation nowMs with ⟨e, herror⟩ | ⟨-, hgen, -⟩
  · have hsess : SessionSlot.onSess (Session.startExec generation nowMs) s = (.error e, s) := by
      rw [SessionSlot.onSess_run, herror]
    exact ⟨e, by rw [SessionSlot.startExec, Act.bind_error_run hsess]⟩
  · exact absurd hgen h

theorem putFile_stale {s : SessionSlot} {generation : Nat} (h : generation ≠ s.sess.generation) (path : Bytes)
    (size : U64) (sha : Bytes) : SessionSlot.putFile generation path size sha s = (.error .gone, s) := by
  rw [SessionSlot.putFile, Act.get_bind_run, if_pos h, Act.fail_run]

theorem getFile_stale {s : SessionSlot} {generation : Nat} (h : generation ≠ s.sess.generation) (path : Bytes) :
    SessionSlot.getFile generation path s = (.error .gone, s) := by
  rw [SessionSlot.getFile, Act.get_bind_run, if_pos h, Act.fail_run]

theorem findExec_eq_none {s : SessionSlot} {n : Nat} (h : ∀ k, (s.execs k).id ≠ n) : s.findExec n = none :=
  Table.find?_none.mpr fun k => by rw [beq_eq_false_iff_ne.mpr (h k), Bool.false_and]

theorem cancelExec_unknown {s : SessionSlot} {n : Nat} (h : ∀ k, (s.execs k).id ≠ n) :
    SessionSlot.cancelExec n s = (.error .notFound, s) := by
  rw [SessionSlot.cancelExec, Act.get_bind_run, findExec_eq_none h]
  rfl

theorem finishExec_unknown {s : SessionSlot} {n : Nat} (h : ∀ k, (s.execs k).id ≠ n) (term : Term) (code : Option Int) :
    SessionSlot.finishExec n term code s = (.error .notFound, s) := by
  rw [SessionSlot.finishExec, Act.get_bind_run, findExec_eq_none h]
  rfl

/-! ### What is read back -/

/-- A successful `putFile` of session `id` has stored this file. -/
def Stored (trace : List Call) (id : Nat) (f : FileEntry) : Prop :=
  ∃ owner generation path size reply, (⟨.putFile owner id generation path size f.sha, .ok reply⟩ : Call) ∈ trace ∧
    Workspace.resolve path Workspace.maxPath = .ok f.path ∧ f.size = size.val

/-- A binding is an old one, or the put has just made it. -/
theorem fileStep_some {files : Bytes → Option (Nat × Bytes)} {r : Bytes} {x : Nat × Bytes}
    (h : fileStep id files c r = some x) :
    files r = some x ∨ ∃ owner generation path size reply, c = ⟨.putFile owner id generation path size x.2, .ok reply⟩ ∧
      Workspace.resolve path Workspace.maxPath = .ok r ∧ x.1 = size.val := by
  unfold fileStep at h
  split at h
  next owner id' generation path size sha reply =>
    by_cases hid : id' = id
    · subst hid
      rw [if_pos rfl] at h
      cases hpath : Workspace.resolve path Workspace.maxPath with
      | ok r' =>
          rw [hpath] at h
          change Function.update files r' _ r = _ at h
          by_cases hr : r = r'
          · subst hr
            rw [Function.update_self] at h
            obtain rfl := Option.some.inj h
            exact Or.inr ⟨owner, generation, path, size, reply, rfl, hpath, rfl⟩
          · rw [Function.update_of_ne hr] at h
            exact Or.inl h
      | error e =>
          rw [hpath] at h
          exact Or.inl h
      | trap =>
          rw [hpath] at h
          exact Or.inl h
    · rw [if_neg hid] at h
      exact Or.inl h
  next owner id' reply =>
    by_cases hid : id' = id
    · rw [if_pos hid] at h
      cases h
    · rw [if_neg hid] at h
      exact Or.inl h
  next => exact Or.inl h

theorem stored_of_fileSpec {f : FileEntry} (h : fileSpec id trace f.path = some (f.size, f.sha)) : Stored trace id f := by
  induction trace using List.reverseRecOn with
  | nil => cases h
  | append_singleton trace c ih =>
      rw [fileSpec_append] at h
      rcases fileStep_some h with hold | ⟨owner, generation, path, size, reply, rfl, hpath, hsize⟩
      · obtain ⟨owner, generation, path, size, reply, hmem, hrest⟩ := ih hold
        exact ⟨owner, generation, path, size, reply, List.mem_append_left _ hmem, hrest⟩
      · exact ⟨owner, generation, path, size, reply, List.mem_append_right _ (List.mem_singleton_self _), hpath, hsize⟩

/-- A reset starts the files anew. -/
theorem fileSpec_reset (id : Nat) (trace trace' : List Call) (owner : Bytes) (reply : Reply) :
    fileSpec id (trace ++ [⟨.reset owner id, .ok reply⟩] ++ trace') = fileSpec id trace' := by
  have hreset : fileSpec id (trace ++ [⟨.reset owner id, .ok reply⟩]) = fun _ => none := by
    rw [fileSpec_append, fileStep, if_pos rfl]
  rw [fileSpec, List.foldl_append]
  exact congrArg (fun files => trace'.foldl (fileStep id) files) hreset

theorem getFile_found {s : SessionSlot} {generation : Nat} {path : Bytes} {f : FileEntry}
    (h : (SessionSlot.getFile generation path s).1 = .ok f) : s.fileMap f.path = some (f.size, f.sha) := by
  by_cases hgen : generation = s.sess.generation
  swap
  · rw [getFile_stale hgen] at h
    cases h
  cases hpath : Workspace.resolve path Workspace.maxPath with
  | error e =>
      rw [SessionSlot.getFile, Act.get_bind_run, if_neg (not_not.mpr hgen), hpath] at h
      cases h
  | trap =>
      rw [SessionSlot.getFile, Act.get_bind_run, if_neg (not_not.mpr hgen), hpath] at h
      cases h
  | ok r =>
      rw [SessionSlot.getFile_run hgen hpath] at h
      cases hfind : s.findFile r with
      | none =>
          rw [hfind] at h
          cases h
      | some k =>
          rw [hfind] at h
          cases h
          rw [(SessionSlot.findFile_some hfind).2, SessionSlot.fileMap, hfind, Option.map_some]

theorem stored_of_getFile (hrun : Run initial trace svc) {caller : Bytes} {generation : Nat} {path : Bytes}
    {f : FileEntry} (hstep : Step svc ⟨.getFile caller id generation path, .ok (.file f)⟩ svc') :
    fileSpec id trace f.path = some (f.size, f.sha) := by
  have hcall : exec (.getFile caller id generation path) svc = (.ok (.file f), svc') := hstep.1
  by_cases hholds : ∃ i, svc.Holds caller id i
  · obtain ⟨i, hi⟩ := hholds
    obtain ⟨hused, hid⟩ := slotOf_some hi.1
    rw [exec, Act.bind_run, owned_run hi] at hcall
    cases hget : (SessionSlot.getFile generation path (svc.slots i)).1 with
    | ok f' =>
        rw [hget] at hcall
        cases hcall
        rw [← hid, ← fileMap_of_run hrun i hused]
        exact getFile_found hget
    | error e =>
        rw [hget] at hcall
        cases hcall
    | trap =>
        rw [hget] at hcall
        cases hcall
  · rw [exec, Act.bind_error_run (owned_refused (fun i hi => hholds ⟨i, hi⟩) _)] at hcall
    cases hcall

/-! ### The fence -/

/-- What a reset leaves behind: a new generation, and nothing charged. -/
theorem reset_step (hrun : Run initial trace svc) {owner : Bytes} {n : Nat}
    (hstep : Step svc ⟨.reset owner id, .ok (.number n)⟩ svc') :
    ∃ i, svc'.slotOf id = some i ∧ (svc'.slots i).sess.generation = n ∧ (svc'.slots i).ws.usedBytes = 0 := by
  have hinv := inv_of_run hrun
  have hchange := hinv.step hstep
  have hinv' := hinv.change hchange
  cases hchange with
  | quiet op r hquiet => exact hquiet.elim
  | effect owner' id' op r i s htarget hslot howner heffect =>
      obtain ⟨hused, hid⟩ := slotOf_some hslot
      cases heffect with
      | reset owner'' id'' hstate =>
          cases htarget
          have hslots : ((setSlot i (svc.slots i).wiped svc).slots i) = (svc.slots i).wiped := setSlot_slots_self i _ svc
          have hused' : ((setSlot i (svc.slots i).wiped svc).slots i).used = true := by
            rw [hslots]
            simpa [SessionSlot.wiped] using hused
          refine ⟨i, ?_, ?_, ?_⟩
          · rw [← hinv'.slotOf hused', hslots]
            simp [SessionSlot.wiped, hid]
          · rw [hslots]
            simp [SessionSlot.wiped]
          · rw [hslots]
            simp [SessionSlot.wiped, Workspace.reset]

/-- The generation of a session counts its resets, and after a reset nothing from before it is served: an
older generation is refused, and so is an exec id issued before; the quota starts at zero, and every file
returned has been put there since. -/
theorem generation_fencing (hrun : Run initial trace svc) :
    (∀ i, (svc.slots i).used = true →
      (svc.slots i).sess.generation = 1 + trace.countP (Call.resets (svc.slots i).sess.id)) ∧
    ∀ owner id n svc₀ trace' svc₁, Step svc ⟨.reset owner id, .ok (.number n)⟩ svc₀ → Run svc₀ trace' svc₁ →
      (∃ i, svc₀.slotOf id = some i ∧ (svc₀.slots i).sess.generation = n ∧ (svc₀.slots i).ws.usedBytes = 0) ∧
      (∀ caller generation argv0 nowMs path size sha, generation < n →
        svc₁.Refuses (.startExec caller id generation argv0 nowMs) ∧
          svc₁.Refuses (.putFile caller id generation path size sha) ∧
          svc₁.Refuses (.getFile caller id generation path)) ∧
      (∀ e, Issued trace id e → ∀ caller term code,
        svc₁.Refuses (.cancelExec caller id e) ∧ svc₁.Refuses (.finishExec caller id e term code)) ∧
      ∀ caller generation path f svc₂, Step svc₁ ⟨.getFile caller id generation path, .ok (.file f)⟩ svc₂ →
        Stored trace' id f := by
  refine ⟨fun i hused => generation_of_run hrun i hused, fun owner id n svc₀ trace' svc₁ hstep hrun' => ?_⟩
  have hreset := reset_step hrun hstep
  have hrun₀ := hrun.snoc hstep
  have hrun₁ := hrun₀.append hrun'
  refine ⟨hreset, fun caller generation argv0 nowMs path size sha hold => ?_, fun e hissued caller term code => ?_,
    fun caller generation path f svc₂ hget => ?_⟩
  · -- the session is gone, or its generation is at least the one the reset gave out
    have hstale : ∀ i, svc₁.Holds caller id i → generation ≠ (svc₁.slots i).sess.generation := by
      intro i hi
      obtain ⟨hused, hid⟩ := slotOf_some hi.1
      obtain ⟨j, hslot, hgen, -⟩ := hreset
      obtain ⟨hused', hid'⟩ := slotOf_some hslot
      have hbefore := generation_of_run hrun₀ j hused'
      have hafter := generation_of_run hrun₁ i hused
      rw [hid'] at hbefore
      rw [hid, List.countP_append] at hafter
      omega
    refine ⟨?_, ?_, ?_⟩
    · exact refuses_owned _ .number rfl fun i hi => startExec_stale (hstale i hi) id argv0 nowMs
    · exact refuses_owned (SessionSlot.putFile generation path size sha) (fun _ => .unit) rfl fun i hi =>
        ⟨.gone, putFile_stale (hstale i hi) path size sha⟩
    · exact refuses_owned _ .file rfl fun i hi => ⟨.gone, getFile_stale (hstale i hi) path⟩
  · have hunknown : ∀ i, svc₁.Holds caller id i → ∀ k, ((svc₁.slots i).execs k).id ≠ e := by
      intro i hi
      obtain ⟨hused, hid⟩ := slotOf_some hi.1
      refine (execIds_of_run hrun₁ i hused).2.2 e ?_
      rw [hid]
      refine ⟨trace, ⟨.reset owner id, .ok (.number n)⟩, trace', by rw [List.append_assoc]; rfl, hissued, ?_⟩
      simp [Call.resets]
    refine ⟨?_, ?_⟩
    · exact refuses_owned (SessionSlot.cancelExec e) (fun _ => .unit) rfl fun i hi =>
        ⟨.notFound, cancelExec_unknown (hunknown i hi)⟩
    · exact refuses_owned (SessionSlot.finishExec e term code) (fun _ => .unit) rfl fun i hi =>
        ⟨.notFound, finishExec_unknown (hunknown i hi) term code⟩
  · have hspec := stored_of_getFile hrun₁ hget
    rw [fileSpec_reset] at hspec
    exact stored_of_fileSpec hspec

/-- A session with one exec, which is then reset. -/
def oneExec : List Op := [.create [7] {} 0, .guestReady [7] 1, .startExec [7] 1 1 [97] 0]

/-- Right after the reset the first generation and the first exec are refused. -/
theorem generation_fencing_reset :
    (exec (.reset [7] 1) (initial.play oneExec).2).2.Refuses (.startExec [7] 1 1 [97] 5) ∧
      (exec (.reset [7] 1) (initial.play oneExec).2).2.Refuses (.cancelExec [7] 1 1) := by
  have hrun : Run initial (initial.play oneExec).1 (initial.play oneExec).2 :=
    play_run oneExec initial (by decide +kernel)
  have hreset : (exec (.reset [7] 1) (initial.play oneExec).2).1 = .ok (.number 2) := by decide +kernel
  have hissued : Issued (initial.play oneExec).1 1 1 := ⟨[7], 1, [97], 0, by decide +kernel⟩
  have hfence := (generation_fencing hrun).2 [7] 1 2 _ [] _ ⟨Prod.ext hreset rfl, by nofun⟩ .refl
  exact ⟨(hfence.2.1 [7] 1 [97] 5 [] ⟨0, by decide⟩ [] (by decide)).1, (hfence.2.2.1 1 hissued [7] .exited none).1⟩

end Service

end Supervisor
