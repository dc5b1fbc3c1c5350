import ZigKernel.KernelNamingRuns

/-! The namespace after boot, and how it is kept. -/

namespace Kernel.Naming

open Zig Vfs

/-! ### Boot -/

/-- The file system on its way through boot: below the root there are dentries of these names at most. -/
structure Starting (u : Vfs) (taken : List Bytes) (n : Nat) (v : Vfs) : Prop where
  good : Good v
  names : ∀ r name, v.rootDentry = some r → name ∉ taken → v.lookupChild r name = none
  available : v.available = u.available
  used : v.fsUsedBytes ≤ n
  jail : v.jailRoot = none

section Boot

variable {u v w : Vfs} {taken : List Bytes} {n : Nat} {path : Bytes}

theorem Starting.hidden {d : Fin maxDentries} {name : Bytes} (h : Starting u taken n v) (hidden : Hidden v w d)
    (hcharged : Charged v w 0) {k : Nat} : Starting u (name :: taken) (n + k) w where
  good := h.good.hidden hidden
  names := fun r m hr hm => by
    rw [hidden.lookupChild h.good.toLinked]
    exact h.names r m (hidden.root.symm.trans hr) fun hmem => hm (List.mem_cons_of_mem _ hmem)
  available := hcharged.available.trans h.available
  used := by
    rw [hcharged.used]
    exact Nat.le_trans h.used (Nat.le_add_right _ _)
  jail := hidden.jail.trans h.jail

theorem Starting.same {name : Bytes} (h : Starting u taken n v) {k : Nat} : Starting u (name :: taken) (n + k) v where
  good := h.good
  names := fun r m hr hm => h.names r m hr fun hmem => hm (List.mem_cons_of_mem _ hmem)
  available := h.available
  used := Nat.le_trans h.used (Nat.le_add_right _ _)
  jail := h.jail

theorem Starting.made {d r : Fin maxDentries} {ino : Fin maxInodes} {name : Bytes} {k : Nat} (h : Starting u taken n v)
    (hr : v.rootDentry = some r) (hmade : Made v w d r ino name) (hcharged : Charged v w k) (hname : name ∉ taken) :
    Starting u (name :: taken) (n + k) w := by
  have hused := h.good.root_used hr
  have hplaced := hmade.placed hused
  have hself : (w.dentries d).name = name := congrArg Dentry.name (hmade.self hused)
  have hfree := h.names r name hr hname
  refine ⟨hmade.good h.good hused ?_ fun hne => absurd hr hne, fun r' m hr' hm => ?_, hcharged.available.trans h.available, ?_,
    hmade.jail.trans h.jail⟩
  · rw [hself]
    exact (Option.or_eq_none_iff.mp ((lookupChild_eq _ _ _).symm.trans hfree)).1
  · rw [hmade.root, hr] at hr'
    cases hr'
    rw [List.mem_cons, not_or] at hm
    rw [hplaced.other h.good (hplaced.ne hused) fun hall => hm.1 (hall.2.trans hself)]
    exact h.names r m hr hm.2
  · rw [hcharged.used]
    exact Nat.add_le_add_right h.used k

/-- A file of boot, in the root or in a directory that is not there, which makes it a file in the root. -/
theorem starting_createFile (h : Starting u taken n v) {path content : Bytes}
    (hdir : ∀ dir rest, components (parentPath (stripSlash path)) = dir :: rest → dir ∉ taken)
    (hname : fileName path ∉ taken) (havailable : u.available content.length = true)
    (hcap : n + content.length ≤ fsCapBytes) :
    Act.Ensures (createFile path content) v (fun _ => Starting u (fileName path :: taken) (n + content.length))
      (fun _ _ => False) True := by
  refine (createFile_ensures h.good.toLinked path content).mono (fun reply w hresult => ?_) (fun _ _ h => h) fun h => h
  have hfits : Fits v content.length :=
    ⟨Nat.le_trans (Nat.add_le_add_right h.used _) hcap, by rw [h.available]; exact havailable⟩
  cases hresult with
  | noDentry => exact h.same
  | noInode _ hidden hcharged => exact h.hidden hidden hcharged
  | noSpace _ _ hspace => exact absurd hfits hspace
  | @made d p ino _ hmade hparent _ _ hcharged =>
      obtain ⟨r, hr, -⟩ := h.good.root
      have hroot : p = r := by
        rw [parentOf_eq hr] at hparent
        cases hparent
        cases hpath : components (parentPath (stripSlash path)) with
        | nil => rfl
        | cons dir rest =>
            rw [Walks.walk_cons, h.names r dir hr (hdir dir rest hpath)]
            rfl
      rw [hroot] at hmade
      exact h.made hr hmade hcharged hname

theorem starting_mkdirat (h : Starting u taken n v) (mode : Nat) (hname : (stripSlash path).take (fnameMax - 1) ∉ taken) :
    Act.Ensures (mkdiratImpl path mode) v
      (fun _ => Starting u ((stripSlash path).take (fnameMax - 1) :: taken) (n + 0)) (fun _ _ => False) True := by
  refine (mkdirat_ensures h.good.toLinked path mode).mono (fun reply w hresult => ?_) (fun _ _ h => h) fun h => h
  cases hresult with
  | noDentry => exact h.same
  | noInode _ hidden hcharged => exact h.hidden hidden hcharged
  | made hr hmade hcharged => exact h.made hr hmade hcharged hname

/-- The root alone. -/
theorem starting_rooted {d : Fin maxDentries} {ino : Fin maxInodes} (hd : d.val = 0) :
    Starting u [] 0 (u.rooted d ino) := by
  have hself : (u.rooted d ino).dentries d = { name := [slash], inode := some ino } := Function.update_self _ _ _
  have hother : ∀ e, e ≠ d → (u.rooted d ino).dentries e = {} := fun e he => Function.update_of_ne he _ _
  have hused : ∀ e, (u.rooted d ino).dentryUsed e = true ↔ e = d := by
    intro e
    have htable : (u.rooted d ino).dentryUsed = Function.update (fun _ => false) d true := rfl
    by_cases he : e = d
    · rw [htable, he, Function.update_self]
      exact iff_of_true rfl rfl
    · rw [htable, Function.update_of_ne he]
      exact iff_of_false Bool.false_ne_true he
  have hfields : ∀ e, ((u.rooted d ino).dentries e).parent = none ∧ ((u.rooted d ino).dentries e).children = [] := by
    intro e
    by_cases he : e = d
    · rw [he, hself]
      exact ⟨rfl, rfl⟩
    · rw [hother e he]
      exact ⟨rfl, rfl⟩
  have hgood : Good (u.rooted d ino) := by
    refine ⟨⟨⟨d, rfl, (hused d).mpr rfl, (hfields d).1⟩, fun x _ => (hfields x).2, fun p c hc => ?_⟩,
      fun x e hx he => ?_, fun x p _ hp => ?_, fun x i hx hi => ?_, fun p => ?_, fun x p _ hp => ?_⟩
    · rw [(hfields p).2] at hc
      cases hc
    · rw [(hused x).mp hx]
      have hne : e ≠ d := by
        rintro rfl
        rw [(hused e).mpr rfl] at he
        cases he
      refine lt_of_le_of_ne ?_ hne.symm
      rw [Fin.le_def, hd]
      exact Nat.zero_le _
    · rw [(hfields x).1] at hp
      cases hp
    · rw [(hused x).mp hx, hself] at hi
      cases hi
      exact Function.update_self _ _ _
    · rw [names, (hfields p).2]
      exact List.nodup_nil
    · rw [(hfields x).1] at hp
      cases hp
  refine ⟨hgood, fun r name _ _ => ?_, rfl, Nat.le_refl _, rfl⟩
  cases hchild : (u.rooted d ino).lookupChild r name with
  | none => rfl
  | some c =>
      have hparent := (hgood.child hchild).2.2.1
      rw [(hfields c).1] at hparent
      cases hparent

/-- Boot leaves the dentries in order if there is memory for its three files. -/
theorem good_init (hinit : init u = (.ok (), v)) (hhello : u.available 33 = true) (hhost : u.available 10 = true) :
    Good v ∧ v.jailRoot = none := by
  have hhello' : u.available (Json.ascii "Hello from Zig Linux VFS (ramfs)\n").length = true := hhello
  have hhost' : u.available (Json.ascii "zig-linux\n").length = true := hhost
  have hinit' : u.available (Json.ascii "#!/bin/sh\necho 'Hello from init'\n").length = true := hhello
  have hstart : Act.Ensures init u (fun _ w => Good w ∧ w.jailRoot = none) (fun _ _ => False) True := by
    refine Act.Ensures.modify_bind (Act.Ensures.run_bind (initRoot_run u) ?_)
    refine (starting_createFile (starting_rooted rfl) (fun _ _ h => ?_) ?_ hhello' (by decide)).bind fun _ v h => ?_
    · exact List.not_mem_nil
    · exact List.not_mem_nil
    refine (starting_createFile h (fun dir rest hdir => ?_) (by decide) hhost' (by decide)).bind fun _ v h => ?_
    · have hcomponents : components (parentPath (stripSlash (Json.ascii "/etc/hostname"))) = [Json.ascii "etc"] := by decide
      rw [hcomponents] at hdir
      cases hdir
      decide
    refine (starting_mkdirat h 0o755 (by decide)).bind fun _ v h => ?_
    refine (starting_mkdirat h 0o777 (by decide)).bind fun _ v h => ?_
    refine (starting_createFile h (fun dir rest hdir => ?_) (by decide) hinit' (by decide)).bind fun _ v h => ⟨h.good, h.jail⟩
    have hcomponents : components (parentPath (stripSlash (Json.ascii "/sbin/init"))) = [Json.ascii "sbin"] := by decide
    rw [hcomponents] at hdir
    cases hdir
    decide
  exact hstart.of_ok hinit

end Boot

/-! ### The tree -/

/-- After boot, a run keeps the tree of names in every step, and keeps what it has created, exactly if every call meets the
condition. -/
theorem namespace_refines_tree {u v : Vfs} (hinit : init u = (.ok (), v)) (hhello : u.available 33 = true)
    (hhost : u.available 10 = true) {trace : List (Call × Reply)} {w : Vfs} :
    Orderly v ∧ (Runs.Run (fun v step w => Step v step w ∧ Refines v step w) v trace w ∧ Kept trace w ↔
      Runs.Run (fun v step w => Step v step w ∧ Meets v step.1) v trace w) := by
  have hgood := (good_init hinit hhello hhost).1
  have hexact : ∀ v step w, Good v → Step v step w → (Refines v step w ↔ Meets v step.1) :=
    fun _ _ _ hg hs => (step_exact hg hs).1
  have hiff := @Runs.Run.along_iff _ _ _ v w trace Good _ _ hgood hexact
    fun _ _ _ hg hs hmeets => ((step_exact hg hs).2 hmeets).good
  refine ⟨hgood.orderly, fun h => hiff.mp h.1, fun h => ⟨hiff.mpr h, ?_⟩⟩
  obtain ⟨-, hstands⟩ := run_stands hgood h
  refine fun before path d after => ⟨fun content htrace _ => ?_, fun mode htrace _ => ?_⟩
  · have hmem : (Call.createFile path content, Reply.dentry (some d)) ∈ trace := by
      rw [htrace]
      exact List.mem_append_right _ List.mem_cons_self
    exact (hstands _ hmem).1
  · have hmem : (Call.mkdiratImpl path mode, Reply.dentry (some d)) ∈ trace := by
      rw [htrace]
      exact List.mem_append_right _ List.mem_cons_self
    exact (hstands _ hmem).found

theorem namespace_refines_tree_boot : Orderly (init {}).2 ∧
    (Runs.Run (fun v step w => Step v step w ∧ Refines v step w) (init {}).2 [] (init {}).2 ∧ Kept [] (init {}).2 ↔
      Runs.Run (fun v step w => Step v step w ∧ Meets v step.1) (init {}).2 [] (init {}).2) :=
  namespace_refines_tree init_returns rfl rfl

/-- The file that boot has made is found after it has been unlinked. -/
theorem unlinked_file_is_found : ¬∀ (u v : Vfs) (trace : List (Call × Reply)) (w : Vfs), init u = (.ok (), v) →
    (∀ n, u.available n = true) → Runs.Run Step v trace w →
      Runs.Run (fun v step w => Step v step w ∧ Refines v step w) v trace w := by
  intro hall
  have hreply : ((Call.unlinkat (Json.ascii "/hello.txt")).run (init {}).2).1 = .ok (.done true) := by decide +kernel
  have hstep : Step (init {}).2 (.unlinkat (Json.ascii "/hello.txt"), .done true)
      ((Call.unlinkat (Json.ascii "/hello.txt")).run (init {}).2).2 := by
    refine ⟨fun path hpath => ?_, Prod.ext hreply rfl⟩
    rw [List.mem_singleton.mp hpath]
    exact ⟨by decide, by decide, ⟨0, by decide⟩, ⟨0, by decide⟩, by decide +kernel, by decide +kernel⟩
  obtain ⟨w, ⟨hunlink, hrefines⟩, -⟩ := (hall {} _ _ _ init_returns (fun _ => rfl) (Runs.Run.single hstep)).cons_inv
  have hnone : (init {}).2.lookup (Json.ascii "/hello.txt") = .ok none :=
    (step_exact (good_init init_returns rfl rfl).1 hunlink).1.mp hrefines
  have hsome : (init {}).2.lookup (Json.ascii "/hello.txt") ≠ .ok none := by decide +kernel
  exact hsome hnone

end Kernel.Naming
