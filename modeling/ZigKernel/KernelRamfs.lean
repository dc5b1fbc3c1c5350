import ZigKernel.KernelJailTree
import ZigKernel.LibRuns

/-! Runs of the file system: the calls of `src/vfs/vfs.zig` in any order, each with what it returns. What is written
comes from some user memory, and what is read goes there. -/

namespace Kernel.Ramfs

open Zig Vfs Jail

inductive Call where
  | createFile (path content : Bytes)
  | mkdiratImpl (path : Bytes) (mode : Nat)
  | devtmpfsRegister (name : Bytes) (ops : FileOps)
  | openat (dirfd : Int) (path : Bytes) (flags mode : Nat)
  | write (f : Fin maxOpenFiles) (data : Bytes)
  | read (f : Fin maxOpenFiles) (len : Nat)
  | pread (f : Fin maxOpenFiles) (offset len : Nat)
  | seek (f : Fin maxOpenFiles) (offset whence : Int)
  | close (f : Fin maxOpenFiles)
  | linkat (oldPath newPath : Bytes)
  | unlinkat (path : Bytes)
  | setJail (path : Bytes)
  | clearJailContents
  /-- The page allocator comes to have other amounts of memory. -/
  | allocator (available : Nat → Bool)

/-- A file that was created: the slot of its inode, and the number that the inode got. -/
abbrev FileId := Fin maxInodes × Nat

inductive Reply where
  /-- The file that was made. -/
  | made (id : Option FileId)
  /-- The open file, the file behind it and its operations. -/
  | opened (file : Option (Fin maxOpenFiles × Option FileId × Option FileOps))
  | count (n : Int)
  | bytes (n : Int) (data : Bytes)
  /-- What `pread` returns; `none` is `error.Io`. -/
  | bytesAt (n : Option Nat) (data : Bytes)
  | done

/-- The file that is in a slot. -/
def fileIn (v : Vfs) (i : Fin maxInodes) : FileId := (i, (v.inodes i).ino)

/-- The file of a dentry. -/
def fileAt (v : Vfs) (d : Fin maxDentries) : Option FileId := (inodeOf v d).map (fileIn v)

/-- The file behind an open file. -/
def fileBehind (v : Vfs) (f : Fin maxOpenFiles) : Option FileId := (v.openFiles f).inode.map (fileIn v)

/-- A call that returns. Reads, writes and seeks are on open files. -/
inductive Step (v : Vfs) : Call × Reply → Vfs → Prop where
  | createFile {w : Vfs} {path content : Bytes} {d : Option (Fin maxDentries)}
      (h : Vfs.createFile path content v = (.ok d, w)) : Step v (.createFile path content, .made (d.bind (fileAt w))) w
  | mkdiratImpl {w : Vfs} {path : Bytes} {mode : Nat} {d : Option (Fin maxDentries)}
      (h : Vfs.mkdiratImpl path mode v = (.ok d, w)) : Step v (.mkdiratImpl path mode, .made (d.bind (fileAt w))) w
  | devtmpfsRegister {w : Vfs} {name : Bytes} {ops : FileOps} {d : Option (Fin maxDentries)}
      (h : Vfs.devtmpfsRegister name ops v = (.ok d, w)) : Step v (.devtmpfsRegister name ops, .made (d.bind (fileAt w))) w
  | openat {w : Vfs} {dirfd : Int} {path : Bytes} {flags mode : Nat} {f : Option (Fin maxOpenFiles)}
      (h : Vfs.openat dirfd path flags mode v = (.ok f, w)) :
      Step v (.openat dirfd path flags mode, .opened (f.map fun f => (f, fileBehind w f, w.store.ops f))) w
  | write {s t : State} {f : Fin maxOpenFiles} {data : Bytes} {buf : Nat} {n : Int} (hvfs : s.vfs = v)
      (hopen : v.openUsed f = true) (hdata : Vfs.bytesAt s buf data.length = data)
      (h : Vfs.write f buf data.length s = (.ok n, t)) : Step v (.write f data, .count n) t.vfs
  | read {s t : State} {f : Fin maxOpenFiles} {buf len : Nat} {n : Int} (hvfs : s.vfs = v) (hopen : v.openUsed f = true)
      (h : Vfs.read f buf len s = (.ok n, t)) : Step v (.read f len, .bytes n (Vfs.bytesAt t buf n.toNat)) t.vfs
  | pread {s t : State} {f : Fin maxOpenFiles} {offset buf len : Nat} {n : Option Nat} (hvfs : s.vfs = v)
      (hopen : v.openUsed f = true) (h : Vfs.pread f offset buf len s = (.ok n, t)) :
      Step v (.pread f offset len, .bytesAt n (Vfs.bytesAt t buf (n.getD 0))) t.vfs
  | seek {w : Vfs} {f : Fin maxOpenFiles} {offset whence n : Int} (hopen : v.openUsed f = true)
      (h : Vfs.seek f offset whence v = (.ok n, w)) : Step v (.seek f offset whence, .count n) w
  | close {w : Vfs} {f : Fin maxOpenFiles} (hopen : v.openUsed f = true) (h : Vfs.close f v = (.ok (), w)) :
      Step v (.close f, .done) w
  | linkat {w : Vfs} {oldPath newPath : Bytes} {ok : Bool} (h : Vfs.linkat oldPath newPath v = (.ok ok, w)) :
      Step v (.linkat oldPath newPath, .done) w
  | unlinkat {w : Vfs} {path : Bytes} {ok : Bool} (h : Vfs.unlinkat path v = (.ok ok, w)) : Step v (.unlinkat path, .done) w
  | setJail {w : Vfs} {path : Bytes} {ok : Bool} (h : Vfs.setJail path v = (.ok ok, w)) : Step v (.setJail path, .done) w
  | clearJailContents {w : Vfs} {removed : Nat} (h : Vfs.clearJailContents v = (.ok removed, w)) :
      Step v (.clearJailContents, .done) w
  | allocator (available : Nat → Bool) : Step v (.allocator available, .done) { v with available }

/-! ### Children arrays -/

section Short

variable {v w : Vfs}

theorem short_dentries {v w : Vfs} (h : w.dentries = v.dentries) (hshort : Short v) : Short w := by
  rw [Short, h]
  exact hshort

theorem stable_dentries {α : Type} {m : Vfs.Run α} (h : Act.Fixes Vfs.dentries m) : Act.Stable Short m :=
  .of_fixes h fun _ _ => short_dentries

theorem stable_frame {α : Type} {m : Vfs.Run α} (h : Act.Fixes frame m) : Act.Stable Short m :=
  .of_fixes h fun _ _ hframe => short_dentries (congrArg Prod.fst hframe)

theorem frame_dentries {α : Type} {m : Vfs.Run α} (h : Act.Fixes frame m) : Act.Fixes Vfs.dentries m :=
  fun v => congrArg Prod.fst (h v)

theorem stable_updateDentry {g : Dentry → Dentry}
    (hg : ∀ dentry, dentry.children.length ≤ Vfs.maxChildren → (g dentry).children.length ≤ Vfs.maxChildren)
    (d : Fin maxDentries) : Act.Stable Short (updateDentry d g) := by
  refine .modify fun v hshort p => ?_
  dsimp only
  by_cases hp : p = d
  · rw [hp, Function.update_self]
    exact hg _ (hshort d)
  · rw [Function.update_of_ne hp]
    exact hshort p

theorem stable_adopt (c p : Fin maxDentries) : Act.Stable Short (updateDentry p (Dentry.adopt c)) := by
  refine stable_updateDentry (fun dentry hlen => ?_) p
  rw [Dentry.adopt]
  split
  · next hlt =>
    rw [List.length_append, List.length_singleton]
    exact hlt
  · exact hlen

theorem stable_allocDentry : Act.Stable Short allocDentry := by
  refine Act.Stable.get.bind fun v => ?_
  cases Table.find? v.dentryUsed fun used => !used with
  | none => exact .pure _
  | some d =>
      refine .modify_bind (fun v hshort p => ?_) fun _ => .pure _
      dsimp only
      by_cases hp : p = d
      · rw [hp, Function.update_self]
        exact Nat.zero_le _
      · rw [Function.update_of_ne hp]
        exact hshort p

theorem stable_allocInode : Act.Stable Short allocInode := by
  refine stable_dentries (Act.Fixes.get.bind fun v => ?_)
  cases Table.find? v.inodeUsed fun used => !used with
  | none => exact .pure _
  | some i => exact .modify_bind (fun _ => rfl) fun _ => (Act.Fixes.lift _).bind fun _ => .modify_bind (fun _ => rfl) fun _ => .pure _

theorem stable_attach (d : Fin maxDentries) (parent : Option (Fin maxDentries)) : Act.Stable Short (attach d parent) := by
  refine (stable_updateDentry (g := fun dentry => { dentry with parent }) (fun _ h => h) d).bind fun _ => ?_
  cases parent with
  | none => exact .pure _
  | some p => exact stable_adopt d p

theorem stable_fillFile (d : Fin maxDentries) (ino : Fin maxInodes) (content : Bytes) :
    Act.Stable Short (fillFile d ino content) := by
  refine stable_dentries ((frame_dentries (frame_fsCharge _)).bind fun ok => .ite ?_ (Act.Fixes.get.bind fun v => .ite ?_ ?_))
  · exact .modify_bind (fun _ => rfl) fun _ => .modify_bind (fun _ => rfl) fun _ => .pure _
  · exact .modify_bind (fun _ => rfl) fun _ => .modify_bind (fun _ => rfl) fun _ => .modify_bind (fun _ => rfl) fun _ => .pure _
  · refine Act.Fixes.bind (Act.Fixes.get.bind fun _ => .modify_bind (fun _ => rfl) fun _ => .pure _) fun buf => ?_
    exact .modify_bind (fun _ => rfl) fun _ => .pure _

theorem stable_named (n : Bytes) (d : Fin maxDentries) : Act.Stable Short (updateDentry d (Dentry.named n)) :=
  stable_updateDentry (g := Dentry.named n) (fun _ h => h) d

theorem stable_updateInode (i : Fin maxInodes) (g : Inode → Inode) : Act.Stable Short (updateInode i g) :=
  stable_frame (frame_updateInode i g)

theorem stable_setJailRoot (d : Option (Fin maxDentries)) :
    Act.Stable Short (Act.modify fun v => { v with jailRoot := d } : Vfs.Run Unit) := .modify fun _ h => h

theorem stable_createFile (path content : Bytes) : Act.Stable Short (Vfs.createFile path content) := by
  refine stable_allocDentry.bind fun d => ?_
  cases d with
  | none => exact .pure _
  | some d =>
      refine stable_allocInode.bind fun ino => ?_
      cases ino with
      | none => exact .modify_bind (fun _ h => h) fun _ => .pure _
      | some ino =>
          refine (stable_named _ d).bind fun _ => Act.Stable.bind ?_ fun _ => Act.Stable.get.bind fun v => ?_
          · exact stable_updateDentry (g := fun dentry => { dentry with inode := some ino }) (fun _ h => h) d
          · exact (Act.Stable.lift _).bind fun parent => (stable_attach d parent).bind fun _ => stable_fillFile d ino content

theorem stable_mkdiratImpl (path : Bytes) (mode : Nat) : Act.Stable Short (Vfs.mkdiratImpl path mode) := by
  refine stable_allocDentry.bind fun d => ?_
  cases d with
  | none => exact .pure _
  | some d =>
      refine stable_allocInode.bind fun ino => ?_
      cases ino with
      | none => exact .pure _
      | some ino =>
          refine (stable_named _ d).bind fun _ => Act.Stable.bind ?_ fun _ => Act.Stable.get.bind fun v => ?_
          · exact stable_updateDentry (g := fun dentry => { dentry with inode := some ino }) (fun _ h => h) d
          · exact (stable_attach d _).bind fun _ => (stable_updateInode ino _).bind fun _ => .pure _

theorem stable_devtmpfsRegister (name : Bytes) (ops : FileOps) : Act.Stable Short (Vfs.devtmpfsRegister name ops) := by
  refine Act.Stable.get.bind fun v => (Act.Stable.lift _).bind fun root => ?_
  cases v.lookupPath root (Json.ascii "dev") with
  | none => exact .pure _
  | some devDir =>
      refine stable_allocDentry.bind fun d => ?_
      cases d with
      | none => exact .pure _
      | some d =>
          refine stable_allocInode.bind fun ino => ?_
          cases ino with
          | none => exact .pure _
          | some ino =>
              refine (stable_named _ d).bind fun _ => Act.Stable.bind ?_ fun _ => (stable_updateInode ino _).bind fun _ => ?_
              · exact stable_updateDentry (g := fun dentry => { dentry with inode := some ino, parent := some devDir })
                  (fun _ h => h) d
              · exact (stable_adopt d devDir).bind fun _ => .pure _

theorem stable_openFile (d : Fin maxDentries) (flags : Nat) : Act.Stable Short (openFile d flags) := by
  refine Act.Stable.get.bind fun v => ?_
  cases Table.find? v.openUsed fun used => !used with
  | none => exact .pure _
  | some f => exact .modify_bind (fun _ h => h) fun _ => .pure _

theorem stable_openat (dirfd : Int) (path : Bytes) (flags mode : Nat) : Act.Stable Short (Vfs.openat dirfd path flags mode) := by
  refine Act.Stable.get.bind fun v => (Act.Stable.lift _).bind fun found => ?_
  cases found with
  | none => exact .pure _
  | some d =>
      refine .ite (.ite (.pure _) ((stable_createFile path []).bind fun d' => ?_)) (stable_openFile d flags)
      cases d' with
      | none => exact .pure _
      | some e =>
          refine Act.Stable.get.bind fun v => ?_
          dsimp only
          cases (v.dentries e).inode with
          | none => exact stable_openFile e flags
          | some i => exact (stable_updateInode i _).bind fun _ => stable_openFile e flags

theorem stable_linkat (oldPath newPath : Bytes) : Act.Stable Short (Vfs.linkat oldPath newPath) := by
  refine Act.Stable.get.bind fun v => (Act.Stable.lift _).bind fun found => ?_
  cases found with
  | none => exact .pure _
  | some old =>
      refine stable_allocDentry.bind fun d => ?_
      cases d with
      | none => exact .pure _
      | some d =>
          refine (stable_named _ d).bind fun _ => Act.Stable.get.bind fun u => Act.Stable.bind ?_ fun _ => .pure _
          exact stable_updateDentry
            (g := fun dentry => { dentry with inode := (u.dentries old).inode, parent := u.rootDentry }) (fun _ h => h) d

theorem stable_setJail (path : Bytes) : Act.Stable Short (Vfs.setJail path) := by
  refine Act.Stable.get.bind fun v => (Act.Stable.lift _).bind fun found => ?_
  cases found with
  | some d => exact (stable_setJailRoot d).bind fun _ => .pure _
  | none =>
      refine (stable_mkdiratImpl path 0o755).bind fun created => ?_
      cases created with
      | none => exact .pure _
      | some d => exact (stable_setJailRoot d).bind fun _ => .pure _

theorem stable_eachChild {free : Fin maxDentries → Vfs.Run Unit} (hfree : ∀ c, Act.Stable Short (free c)) (d : Fin maxDentries)
    (n i : Nat) : Act.Stable Short (eachChild free d n i) := by
  induction n generalizing i with
  | zero => exact .pure _
  | succ n ih =>
      refine Act.Stable.get.bind fun v => ?_
      rcases (v.dentries d).children[i]? with _ | _ | c
      · exact .pure _
      · exact ih (i + 1)
      · exact (hfree c).bind fun _ => ih (i + 1)

theorem stable_freeDentryTree (depth : Nat) (d : Fin maxDentries) : Act.Stable Short (freeDentryTree depth d) := by
  induction depth generalizing d with
  | zero => exact .fail _
  | succ depth ih =>
      refine (stable_eachChild ih d _ 0).bind fun _ => Act.Stable.bind ?_ fun _ => ?_
      · exact stable_updateDentry (g := fun dentry => { dentry with children := [] }) (fun _ _ => Nat.zero_le _) d
      · exact (stable_frame (fixes_freeInode d)).bind fun _ => .modify fun _ h => h

theorem stable_swapRemove (j : Fin maxDentries) (i : Nat) : Act.Stable Short (swapRemove j i) := by
  refine Act.Stable.get.bind fun v => ?_
  cases (v.dentries j).children.getLast? with
  | none => exact .lift _
  | some last =>
      refine stable_updateDentry (g := fun dentry => { dentry with children := (dentry.children.set i last).dropLast })
        (fun dentry hlen => ?_) j
      dsimp only
      rw [List.length_dropLast, List.length_set]
      exact Nat.le_trans (Nat.sub_le _ _) hlen

theorem stable_clearLoop (j : Fin maxDentries) (n i removed : Nat) : Act.Stable Short (clearLoop j n i removed) := by
  induction n generalizing i removed with
  | zero => exact .pure _
  | succ n ih =>
      refine Act.Stable.get.bind fun v => ?_
      rcases (v.dentries j).children[i]? with _ | _ | c
      · exact .pure _
      · exact ih (i + 1) removed
      · exact (stable_freeDentryTree _ c).bind fun _ => (stable_swapRemove j i).bind fun _ => ih i (removed + 1)

theorem stable_clearJailContents : Act.Stable Short Vfs.clearJailContents := by
  refine Act.Stable.get.bind fun v => ?_
  cases v.jailRoot with
  | none => exact .pure _
  | some j => exact stable_clearLoop j _ 0 0

/-- No step makes a children array too long. -/
theorem Step.short {step : Call × Reply} (h : Step v step w) (hshort : Short v) : Short w := by
  cases h with
  | createFile h => exact (stable_createFile _ _).run h hshort
  | mkdiratImpl h => exact (stable_mkdiratImpl _ _).run h hshort
  | devtmpfsRegister h => exact (stable_devtmpfsRegister _ _).run h hshort
  | openat h => exact (stable_openat _ _ _ _).run h hshort
  | write hvfs _ _ h =>
      rw [← hvfs] at hshort
      exact short_dentries (congrArg Prod.fst ((frame_write _ _ _).run h)) hshort
  | read hvfs _ h =>
      rw [← hvfs] at hshort
      exact short_dentries (congrArg Prod.fst ((frame_read _ _ _).run h)) hshort
  | pread hvfs _ h =>
      rw [← hvfs] at hshort
      exact short_dentries (congrArg Prod.fst ((frame_pread _ _ _ _).run h)) hshort
  | seek _ h => exact (stable_frame (frame_seek _ _ _)).run h hshort
  | close _ h =>
      cases h
      exact hshort
  | linkat h => exact (stable_linkat _ _).run h hshort
  | unlinkat h => exact (stable_frame (frame_unlinkat _)).run h hshort
  | setJail h => exact (stable_setJail _).run h hshort
  | clearJailContents h => exact stable_clearJailContents.run h hshort
  | allocator _ => exact hshort

theorem short_init {u : Vfs} (h : init u = (.ok (), v)) : Short v := by
  have hroot : Act.Stable Short initRoot := by
    refine stable_allocDentry.bind fun d => .modify_bind (fun _ h => h) fun _ => stable_allocInode.bind fun ino => ?_
    refine Act.Stable.get.bind fun v => (Act.Stable.lift _).bind fun d => ?_
    cases ino with
    | none => exact .lift _
    | some ino =>
        refine (stable_updateInode ino _).bind fun _ => (stable_named _ d).bind fun _ => ?_
        exact stable_updateDentry (g := fun dentry => { dentry with inode := some ino }) (fun _ h => h) d
  rw [init, Act.modify_bind_run] at h
  refine Act.Stable.run (hroot.bind fun _ => (stable_createFile _ _).bind fun _ => ?_) h fun p => Nat.zero_le _
  refine (stable_createFile _ _).bind fun _ => (stable_mkdiratImpl _ _).bind fun _ => ?_
  exact (stable_mkdiratImpl _ _).bind fun _ => (stable_createFile _ _).bind fun _ => .pure ()

end Short

/-! ### Slots -/

section Slots

variable {s : Store} {i : Fin maxInodes} {inode : Inode}

theorem dataLength_none (h : inode.data = none) : dataLength inode = 0 := by
  rw [dataLength, h]
  rfl

theorem dataLength_some {data : Bytes} (h : inode.data = some data) : dataLength inode = data.length := by
  rw [dataLength, h]
  rfl

theorem length_grown (old : Option Bytes) {newLen : Nat} (h : (old.map List.length).getD 0 ≤ newLen) :
    (grown old newLen).length = newLen := by
  cases old with
  | none => exact List.length_replicate
  | some old =>
      rw [grown, List.length_append, List.length_take, List.length_replicate]
      change old.length ≤ newLen at h
      omega

theorem firstFree_idle (h : s.firstFree = some i) : s.inodeUsed i = false := by
  have hfree := Table.find?_some h
  rwa [Bool.not_eq_true'] at hfree

end Slots

end Kernel.Ramfs
