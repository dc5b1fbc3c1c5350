import ZigKernel.SupervisorLifetime

/-! The file store of a session is a map from canonical paths, bounded by the byte quota and by the
number of entries: it holds, for every path, the last file put there since the last reset. -/

namespace Supervisor

open Zig

/-! ### The map a slot stores -/

namespace SessionSlot

variable {s : SessionSlot}

/-- Size and hash of the file at a canonical path. -/
def fileMap (s : SessionSlot) (r : Bytes) : Option (Nat × Bytes) :=
  (s.findFile r).map fun k => ((s.files k).size, (s.files k).sha)

theorem FilesOk.findFile (h : s.FilesOk) {k : Fin maxFiles} (hused : (s.files k).used = true) :
    s.findFile (s.files k).path = some k := by
  refine Table.find?_eq_of_unique (by simp [hused]) fun j hj => ?_
  have hj' : (s.files j).used = true ∧ (s.files j).path = (s.files k).path := by simpa using hj
  exact h.unique j k hj'.1 hused hj'.2

theorem fileMap_congr {s' : SessionSlot} (h : s'.files = s.files) : s'.fileMap = s.fileMap := by
  funext r
  rw [fileMap, fileMap, findFile, findFile, h]

/-- Replacing an entry by a file of its own path, or a free entry by a file of a new path, updates the
map at that path only. -/
theorem fileMap_setFile {k : Fin maxFiles} {f : FileEntry} (hused : f.used = true)
    (hold : (s.files k).used = true → (s.files k).path = f.path)
    (hnew : ∀ j, j ≠ k → (s.files j).used = true → (s.files j).path ≠ f.path) :
    (setFile k f s).fileMap = Function.update s.fileMap f.path (some (f.size, f.sha)) := by
  have hfiles : (setFile k f s).files = Function.update s.files k f := rfl
  have hself : (setFile k f s).files k = f := by rw [hfiles, Function.update_self]
  have hother : ∀ j, j ≠ k → (setFile k f s).files j = s.files j := fun j hj => by
    rw [hfiles, Function.update_of_ne hj]
  funext r
  by_cases hr : r = f.path
  · subst hr
    have hfind : (setFile k f s).findFile f.path = some k := by
      refine Table.find?_eq_of_unique (by rw [hself]; simp [hused]) fun j hj => ?_
      by_contra hjk
      have hj' : (s.files j).used = true ∧ (s.files j).path = f.path := by
        rw [hother j hjk] at hj
        simpa using hj
      exact hnew j hjk hj'.1 hj'.2
    rw [Function.update_self, fileMap, hfind, Option.map_some, hself]
  · rw [Function.update_of_ne hr]
    -- neither the old nor the new entry at `k` answers to `r`
    have hsame : (setFile k f s).findFile r = s.findFile r := by
      refine Table.find?_congr fun j => ?_
      by_cases hjk : j = k
      · subst hjk
        have hf : (f.path == r) = false := beq_eq_false_iff_ne.mpr (Ne.symm hr)
        rw [hself, hf, Bool.and_false]
        symm
        rw [Bool.and_eq_false_imp]
        exact fun hj => beq_eq_false_iff_ne.mpr fun hpath => hr (hpath.symm.trans (hold hj))
      · rw [hother j hjk]
    rw [fileMap, fileMap, hsame]
    cases hfind : s.findFile r with
    | none => rfl
    | some j =>
        have hjk : j ≠ k := by
          rintro rfl
          obtain ⟨hj, hpath⟩ := findFile_some hfind
          exact hr (hpath.symm.trans (hold hj))
        rw [Option.map_some, Option.map_some, hother j hjk]

theorem fileMap_wiped : s.wiped.fileMap = fun _ => none := by
  funext r
  have hfind : s.wiped.findFile r = none := by
    refine Table.find?_none.mpr fun k => ?_
    simp [wiped]
  rw [fileMap, hfind, Option.map_none]

/-- The outcome of `putFile` is `Limit` exactly where the quota or the table says so. -/
theorem putFile_limit_iff (hcoherent : s.Coherent) (hfiles : s.FilesOk) (generation : Nat) (path : Bytes)
    (size : U64) (sha : Bytes) :
    (putFile generation path size sha s).1 = .error .limit ↔
      generation = s.sess.generation ∧ ∃ r, Workspace.resolve path Workspace.maxPath = .ok r ∧
        (s.ws.capBytes < s.ws.usedBytes - ((s.fileMap r).elim 0 (·.1)) + size.val ∨
          s.fileMap r = none ∧ ∀ k, (s.files k).used = true) := by
  by_cases hgen : generation = s.sess.generation
  swap
  · rw [putFile, Act.get_bind_run, if_pos hgen]
    exact iff_of_false (by simp) fun h => hgen h.1
  have halive : ¬(s.sess.state = .destroyed ∨ s.sess.state = .destroying) := by
    rcases hcoherent.state with h | h | h <;> rw [h] <;> simp
  cases hpath : Workspace.resolve path Workspace.maxPath with
  | error e =>
      rw [putFile, Act.get_bind_run, if_neg (not_not.mpr hgen), if_neg halive, hpath]
      exact iff_of_false (by rintro ⟨⟩) (by rintro ⟨-, r, hr, -⟩; cases hr)
  | trap =>
      rw [putFile, Act.get_bind_run, if_neg (not_not.mpr hgen), if_neg halive, hpath]
      exact iff_of_false (by rintro ⟨⟩) (by rintro ⟨-, r, hr, -⟩; cases hr)
  | ok r =>
      rw [putFile_run size sha hgen halive hpath]
      have hright : (generation = s.sess.generation ∧ ∃ r', Outcome.ok (ε := Error) r = .ok r' ∧
          (s.ws.capBytes < s.ws.usedBytes - ((s.fileMap r').elim 0 (·.1)) + size.val ∨
            s.fileMap r' = none ∧ ∀ k, (s.files k).used = true)) ↔
          (s.ws.capBytes < s.ws.usedBytes - ((s.fileMap r).elim 0 (·.1)) + size.val ∨
            s.fileMap r = none ∧ ∀ k, (s.files k).used = true) := by
        constructor
        · rintro ⟨-, r', hr, h⟩
          cases hr
          exact h
        · exact fun h => ⟨hgen, r, rfl, h⟩
      rw [hright]
      cases hfind : s.findFile r with
      | some k =>
          have hmap : s.fileMap r = some ((s.files k).size, (s.files k).sha) := by
            rw [fileMap, hfind, Option.map_some]
          rw [hmap]
          rcases overwriteFile_run s hfiles (findFile_some hfind).1 size sha with
            ⟨hfits, hrun | hrun⟩ | ⟨hover, hrun⟩
          · simp only [hrun]
            exact iff_of_false (by simp) fun h => (h.resolve_right (by simp)).not_ge hfits
          · simp only [hrun]
            exact iff_of_false (by simp) fun h => (h.resolve_right (by simp)).not_ge hfits
          · simp only [hrun, true_iff]
            exact Or.inl (Nat.lt_of_not_le hover)
      | none =>
          have hmap : s.fileMap r = none := by rw [fileMap, hfind, Option.map_none]
          rw [hmap]
          have hnew := putFile_new_cases s hfiles r size sha
          simp only [Option.elim_none, Nat.sub_zero, true_and]
          -- a free entry and room in the quota
          have hneither : ∀ {k}, (s.files k).used = false → s.ws.usedBytes + size.val ≤ s.ws.capBytes →
              ¬(s.ws.capBytes < s.ws.usedBytes + size.val ∨ ∀ k, (s.files k).used = true) := by
            rintro k hfree hfits (hover | hfull)
            · exact hover.not_ge hfits
            · rw [hfull k] at hfree
              cases hfree
          rcases hnew with ⟨k, hfree, -, hfits, hrun⟩ | ⟨⟨k, hfree⟩, hfits, hrun⟩ | ⟨hfull, hrun⟩ |
            ⟨⟨k, hfree⟩, hfits, hrun⟩
          · simp only [hrun]
            exact iff_of_false (by simp) (hneither hfree hfits)
          · simp only [hrun]
            exact iff_of_false (by simp) (hneither hfree hfits)
          · simp only [hrun, true_iff]
            exact hfull
          · simp only [hrun]
            exact iff_of_false (by simp) (hneither hfree hfits)

end SessionSlot

namespace Service

variable {svc svc' : Service} {c : Call} {trace : List Call}

/-! ### The map the calls describe -/

/-- What a call does to the files of session `id`: a successful put binds its canonical path, a
successful reset forgets everything. -/
def fileStep (id : Nat) (files : Bytes → Option (Nat × Bytes)) : Call → Bytes → Option (Nat × Bytes)
  | ⟨.putFile _ id' _ path size sha, .ok _⟩ =>
      if id' = id then
        match Workspace.resolve path Workspace.maxPath with
        | .ok r => Function.update files r (some (size.val, sha))
        | _ => files
      else files
  | ⟨.reset _ id', .ok _⟩ => if id' = id then fun _ => none else files
  | _ => files

/-- The files of session `id` after the calls of a trace. -/
def fileSpec (id : Nat) (trace : List Call) : Bytes → Option (Nat × Bytes) :=
  trace.foldl (fileStep id) fun _ => none

theorem fileSpec_append (id : Nat) (trace : List Call) (c : Call) :
    fileSpec id (trace ++ [c]) = fileStep id (fileSpec id trace) c := by
  rw [fileSpec, List.foldl_append]
  rfl

theorem Call.Spares.fileStep {id : Nat} (h : c.Spares id) (files : Bytes → Option (Nat × Bytes)) :
    Service.fileStep id files c = files := by
  obtain ⟨op, reply⟩ := c
  rcases h with ⟨e, he⟩ | hquiet | htarget
  · change reply = _ at he
    rw [he]
    cases op <;> rfl
  · cases op <;> first | rfl | exact hquiet.elim
  · cases op <;> try rfl
    case putFile owner id' generation path size sha =>
      have hne : id' ≠ id := fun heq => htarget owner (by rw [← heq]; rfl)
      cases reply <;> simp [Service.fileStep, hne]
    case reset owner id' =>
      have hne : id' ≠ id := fun heq => htarget owner (by rw [← heq]; rfl)
      cases reply <;> simp [Service.fileStep, hne]

theorem fileSpec_of_spares {id : Nat} (h : ∀ c ∈ trace, c.Spares id) : fileSpec id trace = fun _ => none := by
  induction trace using List.reverseRecOn with
  | nil => rfl
  | append_singleton trace c ih =>
      rw [fileSpec_append, (h c (by simp)).fileStep]
      exact ih fun c hc => h c (List.mem_append_left _ hc)

theorem fileMap_effect {s s' : SessionSlot} {op : Op} {r : Reply} (hfiles : s.FilesOk) {owner : Bytes}
    (htarget : op.target = some (owner, s.sess.id)) (heffect : SessionSlot.Effect s op r s') :
    s'.fileMap = fileStep s.sess.id s.fileMap ⟨op, .ok r⟩ := by
  cases heffect with
  | guestReady owner' id hstate =>
      exact SessionSlot.fileMap_congr (by simp [SessionSlot.readied, SessionSlot.setState])
  | startExec owner' id argv0 nowMs k hready hfree =>
      exact SessionSlot.fileMap_congr
        (by simp [SessionSlot.started, SessionSlot.placed, SessionSlot.begun, SessionSlot.setExec])
  | cancelExec owner' id k hlive hgen => exact SessionSlot.fileMap_congr rfl
  | finishExec owner' id term code k hlive hgen hbusy =>
      exact SessionSlot.fileMap_congr (by simp [SessionSlot.finished, SessionSlot.setExec])
  | overwrite owner' id path size sha k hpath hused hfits =>
      have hid : id = s.sess.id := (Prod.mk.inj (Option.some.inj htarget)).2
      have hstep := SessionSlot.fileMap_setFile (s := s) (k := k)
        (f := { s.files k with size := size.val, sha }) hused (fun _ => rfl)
        fun j hjk hj heq => hjk (hfiles.unique j k hj hused heq)
      simp only [fileStep, if_pos hid, hpath]
      exact (SessionSlot.fileMap_congr (by simp [SessionSlot.stored, SessionSlot.setFile])).trans hstep
  | store owner' id path size sha r k hpath hshort hnew hfree hfits =>
      have hid : id = s.sess.id := (Prod.mk.inj (Option.some.inj htarget)).2
      have hstep := SessionSlot.fileMap_setFile (s := s) (k := k)
        (f := { path := r, size := size.val, sha, used := true }) rfl (fun hused => by simp [hfree] at hused)
        fun j _ hj => hnew j hj
      simp only [fileStep, if_pos hid, hpath]
      exact (SessionSlot.fileMap_congr (by simp [SessionSlot.stored, SessionSlot.setFile])).trans hstep
  | reset owner' id hstate =>
      have hid : id = s.sess.id := (Prod.mk.inj (Option.some.inj htarget)).2
      simp only [fileStep, if_pos hid]
      exact SessionSlot.fileMap_wiped

theorem fileMap_slotChange {s s' : SessionSlot} (hfiles : s.FilesOk) (hchange : SlotChange s c s') :
    s'.fileMap = fileStep s.sess.id s.fileMap c := by
  cases hchange with
  | spared hspares hidle => rw [hspares.fileStep]
  | effect owner r _ htarget hreply heffect =>
      have hc : c = ⟨c.op, .ok r⟩ := by rw [← hreply]
      rw [hc]
      exact fileMap_effect hfiles htarget heffect
  | ticked nowMs n _ hcall hticked =>
      subst hcall
      show _ = s.fileMap
      cases hticked with
      | idle _ => rfl
      | kill k _ _ => exact SessionSlot.fileMap_congr (by simp [SessionSlot.killed, SessionSlot.setExec])

/-- The slot stores what the calls describe. -/
theorem fileMap_of_run (hrun : Run initial trace svc) (i : Fin maxSessions) (hused : (svc.slots i).used = true) :
    (svc.slots i).fileMap = fileSpec (svc.slots i).sess.id trace := by
  refine slot_history (P := fun trace s => s.fileMap = fileSpec s.sess.id trace) hrun ?_ ?_ i hused
  · intro trace svc owner limits nowMs hrun hvalid hspares
    have hspec : fileSpec (freshSlot svc.nextSessionId owner limits nowMs).sess.id
        (trace ++ [⟨.create owner limits nowMs, .ok (.number svc.nextSessionId)⟩]) = fun _ => none := by
      show fileSpec svc.nextSessionId _ = _
      rw [fileSpec_append, fileSpec_of_spares hspares]
      rfl
    rw [hspec]
    funext r
    have hfind : (freshSlot svc.nextSessionId owner limits nowMs).findFile r = none :=
      Table.find?_none.mpr fun k => by simp [freshSlot]
    rw [SessionSlot.fileMap, hfind, Option.map_none]
  · intro trace svc c svc' i hrun hstep hused ih hchange
    rw [hchange.sess_id, fileSpec_append, ← ih]
    exact fileMap_slotChange ((inv_of_run hrun).filesOk i hused) hchange

/-- The file store of a live session is the bounded map that its calls describe. -/
theorem file_store_refines_map (hrun : Run initial trace svc) (i : Fin maxSessions)
    (hused : (svc.slots i).used = true) :
    (∀ path r, Workspace.resolve path Workspace.maxPath = .ok r →
      (exec (.getFile (svc.slots i).owner (svc.slots i).sess.id (svc.slots i).sess.generation path) svc).1 =
        match fileSpec (svc.slots i).sess.id trace r with
        | some (size, sha) => .ok (.file { path := r, size, sha, used := true })
        | none => .error .notFound) ∧
      (∀ j k, ((svc.slots i).files j).used = true → ((svc.slots i).files k).used = true →
        ((svc.slots i).files j).path = ((svc.slots i).files k).path → j = k) ∧
      (svc.slots i).ws.usedBytes = (∑ k, if ((svc.slots i).files k).used then ((svc.slots i).files k).size else 0) ∧
      (svc.slots i).ws.usedBytes ≤ (svc.slots i).ws.capBytes ∧
      ∀ owner generation path size sha,
        (exec (.putFile owner (svc.slots i).sess.id generation path size sha) svc).1 = .error .limit ↔
          (svc.slots i).owner = owner ∧ generation = (svc.slots i).sess.generation ∧
            ∃ r, Workspace.resolve path Workspace.maxPath = .ok r ∧
              ((svc.slots i).ws.capBytes < (svc.slots i).ws.usedBytes -
                  ((fileSpec (svc.slots i).sess.id trace r).elim 0 (·.1)) + size.val ∨
                fileSpec (svc.slots i).sess.id trace r = none ∧ ∀ k, ((svc.slots i).files k).used = true) := by
  have hinv := inv_of_run hrun
  have hfiles := hinv.filesOk i hused
  have hholds : svc.Holds (svc.slots i).owner (svc.slots i).sess.id i := ⟨hinv.slotOf hused, rfl⟩
  refine ⟨fun path r hpath => ?_, hfiles.unique, hfiles.usedBytes, hfiles.within,
    fun owner generation path size sha => ?_⟩
  · have howned := owned_run hholds (SessionSlot.getFile (svc.slots i).sess.generation path)
    rw [SessionSlot.getFile_run rfl hpath] at howned
    rw [← fileMap_of_run hrun i hused, SessionSlot.fileMap, exec, Act.bind_run, howned]
    cases hfind : (svc.slots i).findFile r with
    | none => rfl
    | some k =>
        obtain ⟨hk, hr⟩ := SessionSlot.findFile_some hfind
        rw [← hr, ← hk]
        rfl
  · rw [← fileMap_of_run hrun i hused]
    by_cases howner : (svc.slots i).owner = owner
    · have howned := owned_run ⟨hinv.slotOf hused, howner⟩ (SessionSlot.putFile generation path size sha)
      have hlimit := SessionSlot.putFile_limit_iff (hinv.coherent i hused) hfiles generation path size sha
      rw [exec, Act.bind_pure_eq_error, howned, hlimit]
      exact ⟨fun h => ⟨howner, h⟩, fun h => h.2⟩
    · have hnone : ∀ j, ¬svc.Holds owner (svc.slots i).sess.id j := by
        rintro j ⟨hslot, howner'⟩
        rw [hinv.slotOf hused] at hslot
        exact howner ((Option.some.inj hslot) ▸ howner')
      rw [exec, Act.bind_error_run (owned_refused hnone _)]
      exact iff_of_false (by simp) fun h => howner h.1

/-- A session of eight mebibytes with one file. -/
theorem file_store_refines_map_put :
    let ops : List Op := [.create [7] { workspaceMib := 8 } 0, .guestReady [7] 1,
      .putFile [7] 1 1 (Workspace.pathPrefix ++ [47, 97]) ⟨5, by decide⟩ [1]]
    let svc := (initial.play ops).2
    (svc.slots ⟨0, by decide⟩).ws.usedBytes ≤ (svc.slots ⟨0, by decide⟩).ws.capBytes :=
  (file_store_refines_map (play_run _ initial (by decide +kernel)) ⟨0, by decide⟩ (by decide +kernel)).2.2.2.1

end Service

end Supervisor
