import ZigKernel.KernelFile
import ZigKernel.KernelJail

/-! What the calls of `src/vfs/vfs.zig` do to the inodes and their bytes. The names and the tree are left out here: a
call that makes an inode takes the first free slot, a write replaces the bytes of one inode, and the others leave the
inodes as they are or only give slots back. -/

namespace Kernel.Vfs

open Zig

/-- The inodes with their bytes, the quota and the open files. -/
structure Store where
  inodes : Fin maxInodes → Inode
  inodeUsed : Fin maxInodes → Bool
  inodeNext : Nat
  fsUsedBytes : Nat
  buffers : Nat
  freed : List Nat
  fault : Bool
  openFiles : Fin maxOpenFiles → File
  openUsed : Fin maxOpenFiles → Bool
  available : Nat → Bool

def store (v : Vfs) : Store :=
  { inodes := v.inodes, inodeUsed := v.inodeUsed, inodeNext := v.inodeNext, fsUsedBytes := v.fsUsedBytes
    buffers := v.buffers, freed := v.freed, fault := v.fault, openFiles := v.openFiles, openUsed := v.openUsed
    available := v.available }

namespace Store

/-- The operations of an open file. -/
def ops (s : Store) (f : Fin maxOpenFiles) : Option FileOps :=
  (s.openFiles f).ops.or ((s.openFiles f).inode.bind fun i => (s.inodes i).ops)

/-- The slot that `allocInode` takes. -/
def firstFree (s : Store) : Option (Fin maxInodes) := Table.find? s.inodeUsed fun used => !used

def put (s : Store) (i : Fin maxInodes) (inode : Inode) : Store := { s with inodes := Function.update s.inodes i inode }

def take (s : Store) (i : Fin maxInodes) : Store :=
  { s.put i { ino := s.inodeNext } with inodeUsed := Function.update s.inodeUsed i true, inodeNext := s.inodeNext + 1 }

def release (s : Store) (i : Fin maxInodes) : Store := { s with inodeUsed := Function.update s.inodeUsed i false }

/-- The buffer of an inode is read or written. -/
def touch (s : Store) (i : Fin maxInodes) : Store := { s with fault := s.fault || s.freed.contains (s.inodes i).buf }

/-- A new file gets its bytes. -/
def fill (s : Store) (i : Fin maxInodes) (mode : Nat) (content : Bytes) : Store :=
  { s.put i { s.inodes i with data := some content, buf := s.buffers, size := content.length, ops := some .ramfs, mode } with
    fsUsedBytes := s.fsUsedBytes + content.length, buffers := s.buffers + 1 }

/-- The old bytes of an inode, if there are any, are given back. -/
def discard (s : Store) (i : Fin maxInodes) : Store :=
  if (s.inodes i).data.isSome then { s.touch i with freed := (s.inodes i).buf :: s.freed } else s

/-- A file grows to `newLen` bytes. -/
def grow (s : Store) (i : Fin maxInodes) (newLen : Nat) : Store :=
  { (s.discard i).put i { s.inodes i with data := some (grown (s.inodes i).data newLen), buf := s.buffers } with
    fsUsedBytes := s.fsUsedBytes + (newLen - dataLength (s.inodes i)), buffers := s.buffers + 1 }

/-- The bytes of a file are written in place, up to `stop`. -/
def write (s : Store) (i : Fin maxInodes) (data : Bytes) (stop : Nat) : Store :=
  (s.touch i).put i { s.inodes i with data := some data, size := max (s.inodes i).size stop }

/-- A file is destroyed. -/
def drop (s : Store) (i : Fin maxInodes) : Store :=
  { ((s.discard i).put i { s.inodes i with data := none, size := 0 }).release i with
    fsUsedBytes := s.fsUsedBytes - dataLength (s.inodes i) }

def seek (s : Store) (f : Fin maxOpenFiles) (pos : Nat) : Store :=
  { s with openFiles := Function.update s.openFiles f { s.openFiles f with pos } }

def opened (s : Store) (f : Fin maxOpenFiles) (file : File) : Store :=
  { s with openUsed := Function.update s.openUsed f true, openFiles := Function.update s.openFiles f file }

def close (s : Store) (f : Fin maxOpenFiles) : Store := { s with openUsed := Function.update s.openUsed f false }

section Inodes

variable (s : Store) (i : Fin maxInodes)

theorem discard_inodes : (s.discard i).inodes = s.inodes := by
  rw [discard]
  split <;> rfl

theorem discard_kept : (s.discard i).inodeUsed = s.inodeUsed ∧ (s.discard i).inodeNext = s.inodeNext ∧
    (s.discard i).openFiles = s.openFiles ∧ (s.discard i).openUsed = s.openUsed := by
  rw [discard]
  split <;> exact ⟨rfl, rfl, rfl, rfl⟩

theorem grow_inodes (newLen : Nat) : (s.grow i newLen).inodes =
    Function.update s.inodes i { s.inodes i with data := some (grown (s.inodes i).data newLen), buf := s.buffers } := by
  rw [grow, put]
  dsimp only
  rw [discard_inodes]

theorem grow_write_inodes (newLen : Nat) (data : Bytes) (stop : Nat) : ((s.grow i newLen).write i data stop).inodes =
    Function.update s.inodes i
      { s.inodes i with data := some data, buf := s.buffers, size := max (s.inodes i).size stop } := by
  rw [write, put, touch]
  dsimp only
  rw [grow_inodes, Function.update_self, Function.update_idem]

theorem drop_inodes : (s.drop i).inodes = Function.update s.inodes i { s.inodes i with data := none, size := 0 } := by
  rw [drop, release, put]
  dsimp only
  rw [discard_inodes]

/-- What is left when some inodes have been destroyed. -/
theorem foldl_drop_inodes (l : List (Fin maxInodes)) : (l.foldl drop s).inodes i =
    if i ∈ l then { s.inodes i with data := none, size := 0 } else s.inodes i := by
  induction l generalizing s with
  | nil => rfl
  | cons k l ih =>
      rw [List.foldl_cons, ih, drop_inodes]
      by_cases hk : i = k
      · rw [hk, Function.update_self, if_pos List.mem_cons_self]
        exact ite_id _
      · rw [Function.update_of_ne hk]
        simp only [List.mem_cons, hk, false_or]

end Inodes

end Store

/-! ### New inodes -/

/-- What a call that makes an inode does: the slot and the bytes of the inode that it has made. -/
inductive Created (s : Store) : Option (Fin maxInodes × Bytes) → Store → Prop where
  | none : Created s none s
  | failed {i : Fin maxInodes} (h : s.firstFree = some i) : Created s none ((s.take i).release i)
  | empty {i : Fin maxInodes} (h : s.firstFree = some i) (mode : Nat) (ops : Option FileOps) :
      Created s (some (i, [])) ((s.take i).put i { ino := s.inodeNext, mode, ops })
  | file {i : Fin maxInodes} {content : Bytes} (h : s.firstFree = some i)
      (hcap : s.fsUsedBytes + content.length ≤ fsCapBytes) (mode : Nat) :
      Created s (some (i, content)) ((s.take i).fill i mode content)

section Created

variable {v w : Vfs} {path : Bytes}

theorem fixes_allocDentry : Act.Fixes store allocDentry := by
  refine Act.Fixes.get.bind fun v => ?_
  cases Table.find? v.dentryUsed fun used => !used with
  | none => exact .pure _
  | some d => exact .modify_bind (fun _ => rfl) fun _ => .pure _

theorem fixes_updateDentry (d : Fin maxDentries) (g : Dentry → Dentry) : Act.Fixes store (updateDentry d g) :=
  .modify fun _ => rfl

theorem fixes_attach (d : Fin maxDentries) (parent : Option (Fin maxDentries)) : Act.Fixes store (attach d parent) := by
  refine (fixes_updateDentry d _).bind fun _ => ?_
  cases parent with
  | none => exact .pure _
  | some p => exact fixes_updateDentry p _

theorem allocInode_store {r : Option (Fin maxInodes)} (h : allocInode v = (.ok r, w)) :
    r = none ∧ w.store = v.store ∨ ∃ i, r = some i ∧ v.store.firstFree = some i ∧ w.store = v.store.take i ∧
      w.dentries = v.dentries := by
  rw [allocInode, Act.get_bind_run] at h
  cases hfind : Table.find? v.inodeUsed fun used => !used with
  | none =>
      rw [hfind] at h
      cases h
      exact Or.inl ⟨rfl, rfl⟩
  | some i =>
      rw [hfind] at h
      dsimp only at h
      rw [Act.modify_bind_run] at h
      obtain ⟨next, hnext, hrest⟩ := Act.lift_bind_run_eq_ok h
      rw [Act.modify_bind_run] at hrest
      cases hrest
      refine Or.inr ⟨i, rfl, hfind, ?_, rfl⟩
      simp only [store, Store.take, Store.put, castU32_val hnext]

/-- Whether a charge is taken. -/
theorem fsCharge_store {n : Nat} {ok : Bool} (h : fsCharge n v = (.ok ok, w)) :
    ok = false ∧ w = v ∧ ¬v.fsUsedBytes + n ≤ fsCapBytes ∨
      ok = true ∧ v.fsUsedBytes + n ≤ fsCapBytes ∧ w = { v with fsUsedBytes := v.fsUsedBytes + n } := by
  rw [fsCharge, Act.get_bind_run] at h
  obtain ⟨used, hused, hrest⟩ := Act.lift_bind_run_eq_ok h
  rw [← (addU64_eq_ok.mp hused).2] at hrest
  split at hrest
  · next hcap =>
    cases hrest
    exact Or.inl ⟨rfl, rfl, Nat.not_le_of_lt hcap⟩
  · next hcap =>
    rw [Act.modify_bind_run] at hrest
    cases hrest
    exact Or.inr ⟨rfl, Nat.le_of_not_lt hcap, rfl⟩

/-- The bytes of a new file, or its slots back. -/
theorem fillFile_store {d : Fin maxDentries} {ino : Fin maxInodes} {content : Bytes} {r : Option (Fin maxDentries)}
    (h : fillFile d ino content v = (.ok r, w)) :
    r = none ∧ w.store = v.store.release ino ∨
      r = some d ∧ w.dentries = v.dentries ∧ v.fsUsedBytes + content.length ≤ fsCapBytes ∧
        w.store = v.store.fill ino (v.inodes ino).mode content := by
  rw [fillFile] at h
  obtain ⟨ok, u, hcharge, hrest⟩ := Act.bind_run_eq_ok h
  rcases fsCharge_store hcharge with ⟨rfl, rfl, -⟩ | ⟨rfl, hcap, rfl⟩
  · rw [if_pos Bool.false_ne_true] at hrest
    cases hrest
    exact Or.inl ⟨rfl, rfl⟩
  · rw [if_neg (not_not.mpr rfl), Act.get_bind_run] at hrest
    split at hrest
    · cases hrest
      refine Or.inl ⟨rfl, ?_⟩
      simp only [store, Store.release, Nat.add_sub_cancel]
    · cases hrest
      exact Or.inr ⟨rfl, rfl, hcap, rfl⟩

/-- The inodes of the dentries. -/
def inodeOf (v : Vfs) (d : Fin maxDentries) : Option (Fin maxInodes) := (v.dentries d).inode

theorem inodeOf_updateDentry {g : Dentry → Dentry} (hg : ∀ dentry, (g dentry).inode = dentry.inode) (d : Fin maxDentries) :
    Act.Fixes inodeOf (updateDentry d g) := by
  refine .modify fun v => funext fun e => ?_
  dsimp only [inodeOf]
  by_cases he : e = d
  · rw [he, Function.update_self, hg]
  · rw [Function.update_of_ne he]

theorem inodeOf_attach (d : Fin maxDentries) (parent : Option (Fin maxDentries)) : Act.Fixes inodeOf (attach d parent) := by
  refine (inodeOf_updateDentry (g := fun dentry => { dentry with parent }) (fun _ => rfl) d).bind fun _ => ?_
  cases parent with
  | none => exact .pure _
  | some p =>
      refine inodeOf_updateDentry (fun dentry => ?_) p
      rw [Dentry.adopt]
      split <;> rfl

/-- What is done to a new dentry before the inode gets its bytes. -/
theorem graft_store {d : Fin maxDentries} {i : Fin maxInodes} {g : Dentry → Dentry} {α : Type} {k : Run α} {r : α}
    {q : Vfs → Outcome Spins (Option (Fin maxDentries))} (h : (do
      updateDentry d g
      updateDentry d fun dentry => { dentry with inode := some i }
      let v ← Act.get
      let parent ← Act.lift (q v)
      attach d parent
      k) v = (.ok r, w)) :
    ∃ u, u.store = v.store ∧ inodeOf u d = some i ∧ k u = (.ok r, w) := by
  rw [updateDentry, updateDentry, Act.modify_bind_run, Act.modify_bind_run, Act.get_bind_run] at h
  obtain ⟨p, -, h⟩ := Act.lift_bind_run_eq_ok h
  obtain ⟨⟨⟩, u, hattach, h⟩ := Act.bind_run_eq_ok h
  have hstore := (fixes_attach d p).run hattach
  have hinode := (inodeOf_attach d p).run hattach
  refine ⟨u, hstore, (congrFun hinode d).trans ?_, h⟩
  dsimp only [inodeOf]
  rw [Function.update_self]

theorem createFile_store {content : Bytes} {r : Option (Fin maxDentries)} (h : createFile path content v = (.ok r, w)) :
    r = none ∧ Created v.store none w.store ∨ ∃ d i, r = some d ∧ inodeOf w d = some i ∧
      Created v.store (some (i, content)) w.store := by
  rw [createFile] at h
  obtain ⟨d, v₁, hd, h⟩ := Act.bind_run_eq_ok h
  have hstore := fixes_allocDentry.run hd
  cases d with
  | none =>
      cases h
      exact Or.inl ⟨rfl, hstore ▸ .none⟩
  | some d =>
      obtain ⟨ino, v₂, hino, h⟩ := Act.bind_run_eq_ok h
      rcases allocInode_store hino with ⟨rfl, hnone⟩ | ⟨i, rfl, hfree, htake, -⟩
      · cases h
        exact Or.inl ⟨rfl, (hnone.trans hstore) ▸ .none⟩
      · obtain ⟨u, hu, hinode, h⟩ := graft_store h
        rw [hstore] at hfree htake
        rcases fillFile_store h with ⟨rfl, hw⟩ | ⟨rfl, hdentries, hcap, hw⟩
        · rw [hw, hu, htake]
          exact Or.inl ⟨rfl, .failed hfree⟩
        · refine Or.inr ⟨d, i, rfl, ?_, ?_⟩
          · rw [inodeOf, hdentries]
            exact hinode
          · rw [hw, hu, htake]
            refine .file hfree ?_ _
            have hused : u.fsUsedBytes = v.store.fsUsedBytes := congrArg Store.fsUsedBytes (hu.trans htake)
            rwa [hused] at hcap

theorem mkdiratImpl_store {mode : Nat} {r : Option (Fin maxDentries)} (h : mkdiratImpl path mode v = (.ok r, w)) :
    r = none ∧ Created v.store none w.store ∨ ∃ d i, r = some d ∧ inodeOf w d = some i ∧
      Created v.store (some (i, [])) w.store := by
  rw [mkdiratImpl] at h
  obtain ⟨d, v₁, hd, h⟩ := Act.bind_run_eq_ok h
  have hstore := fixes_allocDentry.run hd
  cases d with
  | none =>
      cases h
      exact Or.inl ⟨rfl, hstore ▸ .none⟩
  | some d =>
      obtain ⟨ino, v₂, hino, h⟩ := Act.bind_run_eq_ok h
      rcases allocInode_store hino with ⟨rfl, hnone⟩ | ⟨i, rfl, hfree, htake, -⟩
      · cases h
        exact Or.inl ⟨rfl, (hnone.trans hstore) ▸ .none⟩
      · obtain ⟨u, hu, hinode, h⟩ := graft_store (q := fun v => pure v.rootDentry) h
        rw [hstore] at hfree htake
        rw [updateInode, Act.modify_bind_run] at h
        cases h
        refine Or.inr ⟨d, i, rfl, hinode, ?_⟩
        have hinodes : u.inodes = (v.store.take i).inodes := congrArg Store.inodes (hu.trans htake)
        have hself : u.inodes i = { ino := v.store.inodeNext } := by
          rw [hinodes]
          exact Function.update_self _ _ _
        have hw : ({ u with inodes := Function.update u.inodes i { u.inodes i with mode, ops := some FileOps.ramfs } } : Vfs).store =
            u.store.put i { ino := v.store.inodeNext, mode, ops := some .ramfs } := by
          rw [hself]
          rfl
        rw [hw, hu, htake]
        exact .empty hfree mode (some .ramfs)

theorem devtmpfsRegister_store {name : Bytes} {ops : FileOps} {r : Option (Fin maxDentries)}
    (h : devtmpfsRegister name ops v = (.ok r, w)) : ∃ made, Created v.store made w.store ∧ ∀ m ∈ made, m.2 = [] := by
  rw [devtmpfsRegister, Act.get_bind_run] at h
  obtain ⟨root, -, h⟩ := Act.lift_bind_run_eq_ok h
  cases hdev : v.lookupPath root (Json.ascii "dev") with
  | none =>
      rw [hdev] at h
      cases h
      exact ⟨none, .none, nofun⟩
  | some devDir =>
      rw [hdev] at h
      obtain ⟨d, v₁, hd, h⟩ := Act.bind_run_eq_ok h
      have hstore := fixes_allocDentry.run hd
      cases d with
      | none =>
          cases h
          exact ⟨none, hstore ▸ .none, nofun⟩
      | some d =>
          obtain ⟨ino, v₂, hino, h⟩ := Act.bind_run_eq_ok h
          rcases allocInode_store hino with ⟨rfl, hnone⟩ | ⟨i, rfl, hfree, htake, -⟩
          · cases h
            exact ⟨none, (hnone.trans hstore) ▸ .none, nofun⟩
          · rw [hstore] at hfree htake
            dsimp only at h
            rw [updateDentry, updateDentry, Act.modify_bind_run, Act.modify_bind_run, updateInode, Act.modify_bind_run,
              updateDentry, Act.modify_bind_run] at h
            have hw := (Prod.mk.inj h).2
            have hself : v₂.inodes i = { ino := v.store.inodeNext } := by
              rw [show v₂.inodes = (v.store.take i).inodes from congrArg Store.inodes htake]
              exact Function.update_self _ _ _
            refine ⟨some (i, []), ?_, fun m hm => Option.some.inj hm ▸ rfl⟩
            have hstore' : w.store = v₂.store.put i { ino := v.store.inodeNext, mode := 0o666, ops := some ops } := by
              rw [← hw]
              dsimp only [store, Store.put]
              rw [hself]
              rfl
            rw [hstore', htake]
            exact .empty hfree 0o666 (some ops)

theorem setJail_store {ok : Bool} (h : setJail path v = (.ok ok, w)) :
    ∃ made, Created v.store made w.store ∧ ∀ m ∈ made, m.2 = [] := by
  rw [setJail, Act.get_bind_run] at h
  obtain ⟨found, -, h⟩ := Act.lift_bind_run_eq_ok h
  cases found with
  | some d =>
      cases h
      exact ⟨none, .none, nofun⟩
  | none =>
      obtain ⟨created, u, hmkdir, h⟩ := Act.bind_run_eq_ok h
      have hu : ∃ made, Created v.store made u.store ∧ ∀ m ∈ made, m.2 = [] := by
        rcases mkdiratImpl_store hmkdir with ⟨-, hnone⟩ | ⟨_, i, -, -, hmade⟩
        · exact ⟨none, hnone, nofun⟩
        · exact ⟨_, hmade, fun m hm => Option.some.inj hm ▸ rfl⟩
      cases created with
      | none =>
          cases h
          exact hu
      | some d =>
          cases h
          exact hu

theorem initRoot_store (h : initRoot v = (.ok (), w)) : ∃ made, Created v.store made w.store := by
  rw [initRoot] at h
  obtain ⟨d, v₁, hd, h⟩ := Act.bind_run_eq_ok h
  have hstore := fixes_allocDentry.run hd
  rw [Act.modify_bind_run] at h
  obtain ⟨ino, v₂, hino, h⟩ := Act.bind_run_eq_ok h
  have hinode := allocInode_store hino
  rw [Act.get_bind_run] at h
  obtain ⟨root, -, h⟩ := Act.lift_bind_run_eq_ok h
  rcases hinode with ⟨rfl, -⟩ | ⟨i, rfl, hfree, htake, -⟩
  · cases h
  · dsimp only at h
    rw [updateInode, Act.modify_bind_run, updateDentry, Act.modify_bind_run, updateDentry, Act.modify_run] at h
    have hw := (Prod.mk.inj h).2
    have hfree' : v.store.firstFree = some i := hstore ▸ hfree
    have htake' : v₂.store = v.store.take i := hstore ▸ htake
    have hself : v₂.inodes i = { ino := v.store.inodeNext } := by
      rw [show v₂.inodes = (v.store.take i).inodes from congrArg Store.inodes htake']
      exact Function.update_self _ _ _
    have hstore' : w.store = v₂.store.put i { ino := v.store.inodeNext, mode := 0o755, ops := none } := by
      rw [← hw]
      dsimp only [store, Store.put]
      rw [hself]
      rfl
    exact ⟨some (i, []), by rw [hstore', htake']; exact .empty hfree' 0o755 none⟩

/-- The empty tables that `init` begins with. -/
def emptied (u : Vfs) : Vfs where
  pipes := u.pipes
  pipeUsed := u.pipeUsed
  available := u.available
  buffers := u.buffers
  freed := u.freed
  fault := u.fault

/-- What holds of the empty store and is kept where inodes are made holds after boot. -/
theorem init_keeps {u : Vfs} {P : Store → Prop} (hinit : init u = (.ok (), v))
    (hempty : P (emptied u).store)
    (hmade : ∀ {s t : Store} {made : Option (Fin maxInodes × Bytes)}, Created s made t → P s → P t) : P v.store := by
  have hcreate : ∀ {x y : Vfs} {path content : Bytes} {d : Option (Fin maxDentries)},
      createFile path content x = (.ok d, y) → P x.store → P y.store := by
    intro x y path content d h hx
    rcases createFile_store h with ⟨-, hcreated⟩ | ⟨_, _, -, -, hcreated⟩
    all_goals exact hmade hcreated hx
  have hmkdir : ∀ {x y : Vfs} {path : Bytes} {mode : Nat} {d : Option (Fin maxDentries)},
      mkdiratImpl path mode x = (.ok d, y) → P x.store → P y.store := by
    intro x y path mode d h hx
    rcases mkdiratImpl_store h with ⟨-, hcreated⟩ | ⟨_, _, -, -, hcreated⟩
    all_goals exact hmade hcreated hx
  rw [init, Act.modify_bind_run] at hinit
  obtain ⟨⟨⟩, v₁, h₁, hinit⟩ := Act.bind_run_eq_ok hinit
  obtain ⟨d₂, v₂, h₂, hinit⟩ := Act.bind_run_eq_ok hinit
  obtain ⟨d₃, v₃, h₃, hinit⟩ := Act.bind_run_eq_ok hinit
  obtain ⟨d₄, v₄, h₄, hinit⟩ := Act.bind_run_eq_ok hinit
  obtain ⟨d₅, v₅, h₅, hinit⟩ := Act.bind_run_eq_ok hinit
  obtain ⟨d₆, v₆, h₆, hinit⟩ := Act.bind_run_eq_ok hinit
  cases hinit
  obtain ⟨_, hroot⟩ := initRoot_store h₁
  exact hcreate h₆ (hmkdir h₅ (hmkdir h₄ (hcreate h₃ (hcreate h₂ (hmade hroot hempty)))))

/-- Another mode for a file that has been made makes no difference. -/
theorem Created.mode {s t : Store} {i : Fin maxInodes} {content : Bytes} (h : Created s (some (i, content)) t) (mode : Nat) :
    Created s (some (i, content)) (t.put i { t.inodes i with mode }) := by
  cases h with
  | empty hfree _ ops =>
      have hput : ∀ inode inode', (((s.take i).put i inode).put i inode') = (s.take i).put i inode' := fun inode inode' => by
        simp only [Store.put, Function.update_idem]
      rw [hput]
      simp only [Store.put, Function.update_self]
      exact .empty hfree mode ops
  | file hfree hcap m =>
      have hfill : ((s.take i).fill i m content).put i { ((s.take i).fill i m content).inodes i with mode } =
          (s.take i).fill i mode content := by
        simp only [Store.put, Store.fill, Function.update_idem, Function.update_self]
      rw [hfill]
      exact .file hfree hcap mode

end Created

/-! ### Opening -/

section Opening

variable {v w : Vfs} {path : Bytes}

theorem openFile_store {d : Fin maxDentries} {flags : Nat} {r : Option (Fin maxOpenFiles)}
    (h : openFile d flags v = (.ok r, w)) :
    r = none ∧ w.store = v.store ∨ ∃ f, r = some f ∧ v.openUsed f = false ∧
      w.store = v.store.opened f { dentry := some d, inode := inodeOf v d, flags } := by
  rw [openFile, Act.get_bind_run] at h
  cases hfind : Table.find? v.openUsed fun used => !used with
  | none =>
      rw [hfind] at h
      cases h
      exact Or.inl ⟨rfl, rfl⟩
  | some f =>
      rw [hfind] at h
      dsimp only at h
      rw [Act.modify_bind_run] at h
      cases h
      refine Or.inr ⟨f, rfl, ?_, rfl⟩
      have hfree := Table.find?_some hfind
      rwa [Bool.not_eq_true'] at hfree

/-- What `openat` returns and does: it may make a file, and it takes a slot for a file with an inode. -/
inductive Opened (s : Store) : Option (Fin maxOpenFiles) → Store → Prop where
  | none {made : Option (Fin maxInodes × Bytes)} {t : Store} (h : Created s made t) : Opened s none t
  | some {made : Option (Fin maxInodes × Bytes)} {t : Store} (h : Created s made t) {f : Fin maxOpenFiles}
      (hfree : s.openUsed f = false) (d : Fin maxDentries) (i : Fin maxInodes) (flags : Nat) :
      Opened s (some f) (t.opened f { dentry := d, inode := i, flags })

theorem Created.openUsed {s t : Store} {made : Option (Fin maxInodes × Bytes)} (h : Created s made t) :
    t.openFiles = s.openFiles ∧ t.openUsed = s.openUsed := by
  cases h with
  | none | failed _ | empty _ _ _ | file _ _ _ => exact ⟨rfl, rfl⟩

theorem opened_of_created {s : Store} {made : Option (Fin maxInodes × Bytes)} {d : Fin maxDentries} {i : Fin maxInodes}
    {flags : Nat} {r : Option (Fin maxOpenFiles)} (h : openFile d flags v = (.ok r, w)) (hmade : Created s made v.store)
    (hinode : inodeOf v d = some i) : Opened s r w.store := by
  rcases openFile_store h with ⟨rfl, hw⟩ | ⟨f, rfl, hfree, hw⟩
  · rw [hw]
    exact .none hmade
  · rw [hw, hinode]
    refine .some hmade ?_ d i flags
    rw [← hmade.openUsed.2]
    exact hfree

theorem openat_store {dirfd : Int} {flags mode : Nat} {r : Option (Fin maxOpenFiles)}
    (h : openat dirfd path flags mode v = (.ok r, w)) : Opened v.store r w.store := by
  rw [openat, Act.get_bind_run] at h
  obtain ⟨found, -, h⟩ := Act.lift_bind_run_eq_ok h
  cases found with
  | none =>
      cases h
      exact .none .none
  | some d =>
      dsimp only at h
      cases hinode : (v.dentries d).inode with
      | some i =>
          rw [hinode, if_neg (by exact Bool.false_ne_true)] at h
          exact opened_of_created h .none hinode
      | none =>
          rw [hinode, if_pos (by rfl), openMissing] at h
          split at h
          · cases h
            exact .none .none
          · obtain ⟨d', u, hcreate, h⟩ := Act.bind_run_eq_ok h
            rcases createFile_store hcreate with ⟨rfl, hnone⟩ | ⟨e, i, rfl, hi, hmade⟩
            · cases h
              exact .none hnone
            · dsimp only at h
              rw [Act.get_bind_run] at h
              have hi' : (u.dentries e).inode = some i := hi
              rw [hi'] at h
              dsimp only at h
              rw [updateInode, Act.modify_bind_run] at h
              exact opened_of_created h (hmade.mode (mode &&& 0o7777 ||| 0o644)) hi

end Opening

/-! ### Links -/

section Links

variable {v w : Vfs}

theorem unlinkat_store {path : Bytes} {ok : Bool} (h : unlinkat path v = (.ok ok, w)) :
    (∀ d i, v.lookup path = .ok (some d) → inodeOf v d = some i → w.store = v.store.release i) ∧
      ((∀ d i, v.lookup path = .ok (some d) → inodeOf v d ≠ some i) → w.store = v.store) := by
  rw [unlinkat, Act.get_bind_run] at h
  obtain ⟨found, hfound, h⟩ := Act.lift_bind_run_eq_ok h
  cases found with
  | none =>
      cases h
      refine ⟨fun d i hd => ?_, fun _ => rfl⟩
      rw [hfound] at hd
      cases hd
  | some d =>
      dsimp only at h
      cases hinode : (v.dentries d).inode with
      | none =>
          rw [hinode] at h
          cases h
          refine ⟨fun d' i hd hi => ?_, fun _ => rfl⟩
          rw [hfound] at hd
          cases hd
          rw [inodeOf, hinode] at hi
          cases hi
      | some i =>
          rw [hinode] at h
          cases h
          refine ⟨fun d' i' hd hi => ?_, fun hnone => absurd hinode (hnone d i hfound)⟩
          rw [hfound] at hd
          cases hd
          rw [inodeOf, hinode] at hi
          cases hi
          rfl

theorem fixes_linkat (oldPath newPath : Bytes) : Act.Fixes store (linkat oldPath newPath) := by
  refine Act.Fixes.get.bind fun v => (Act.Fixes.lift _).bind fun found => ?_
  cases found with
  | none => exact .pure _
  | some old =>
      refine fixes_allocDentry.bind fun d => ?_
      cases d with
      | none => exact .pure _
      | some d =>
          refine (fixes_updateDentry d _).bind fun _ => Act.Fixes.get.bind fun v => ?_
          exact (fixes_updateDentry d _).bind fun _ => .pure _

end Links

/-! ### Dispatch -/

section Dispatch

variable {s t : State} {f : Fin maxOpenFiles}

theorem inodeOps_ok {v : Vfs} {ops : Option FileOps} (hnone : (v.openFiles f).ops = none) (h : inodeOps v f = .ok ops) :
    v.store.ops f = ops := by
  rw [inodeOps] at h
  rw [Store.ops, store, hnone, Option.none_or]
  cases hinode : (v.openFiles f).inode with
  | none =>
      rw [hinode] at h
      cases h
  | some i =>
      rw [hinode] at h
      exact Outcome.ok.inj h

/-- `read` and `write`: the operations of the open file, or else those of its inode. -/
def dispatch (f : Fin maxOpenFiles) (run : FileOps → Kernel.Run Int) : Kernel.Run Int := do
  let s ← Act.get
  match (s.vfs.openFiles f).ops with
  | some ops => run ops
  | none => do
      let ops ← Act.lift (inodeOps s.vfs f)
      match ops with
      | none => pure enosys
      | some ops => run ops

theorem read_eq (f : Fin maxOpenFiles) (buf len : Nat) : read f buf len = dispatch f fun ops => ops.read f buf len := rfl

theorem write_eq (f : Fin maxOpenFiles) (buf len : Nat) : write f buf len = dispatch f fun ops => ops.write f buf len := rfl

theorem dispatch_ok {run : FileOps → Kernel.Run Int} {n : Int} (h : dispatch f run s = (.ok n, t)) :
    s.vfs.store.ops f = none ∧ n < 0 ∧ t = s ∨ ∃ ops, s.vfs.store.ops f = some ops ∧ run ops s = (.ok n, t) := by
  rw [dispatch, Act.get_bind_run] at h
  cases hops : (s.vfs.openFiles f).ops with
  | some ops =>
      rw [hops] at h
      exact Or.inr ⟨ops, by rw [Store.ops, store, hops, Option.some_or], h⟩
  | none =>
      rw [hops] at h
      obtain ⟨ops, hinode, h⟩ := Act.lift_bind_run_eq_ok h
      cases ops with
      | none =>
          cases h
          exact Or.inl ⟨inodeOps_ok hops hinode, by decide, rfl⟩
      | some ops => exact Or.inr ⟨ops, inodeOps_ok hops hinode, h⟩

theorem read_dispatch {buf len : Nat} {n : Int} (h : read f buf len s = (.ok n, t)) :
    n < 0 ∧ t = s ∨ ∃ ops, s.vfs.store.ops f = some ops ∧ ops.read f buf len s = (.ok n, t) := by
  rw [read_eq] at h
  exact (dispatch_ok h).imp_left And.right

theorem write_dispatch {buf len : Nat} {n : Int} (h : write f buf len s = (.ok n, t)) :
    s.vfs.store.ops f = none ∧ n < 0 ∧ t = s ∨ ∃ ops, s.vfs.store.ops f = some ops ∧ ops.write f buf len s = (.ok n, t) := by
  rw [write_eq] at h
  exact dispatch_ok h

end Dispatch

/-! ### The position -/

section Seek

variable {v w : Vfs} {f : Fin maxOpenFiles}

/-- What a seek does: it goes to a position in the file, or changes nothing. -/
inductive Sought (s : Store) (f : Fin maxOpenFiles) : Int → Store → Prop where
  | refused {r : Int} (h : r < 0) : Sought s f r s
  | moved {i : Fin maxInodes} {pos : Nat} (hinode : (s.openFiles f).inode = some i) (hpos : pos ≤ (s.inodes i).size) :
      Sought s f pos (s.seek f pos)

theorem ramfsSeek_store {offset whence r : Int} (h : ramfsSeek f offset whence v = (.ok r, w)) :
    Sought v.store f r w.store := by
  rw [ramfsSeek, Act.get_bind_run] at h
  cases hinode : (v.openFiles f).inode with
  | none =>
      rw [hinode] at h
      cases h
      exact .refused (by decide)
  | some i =>
      rw [hinode] at h
      obtain ⟨target, -, h⟩ := Act.lift_bind_run_eq_ok h
      cases target with
      | none =>
          cases h
          exact .refused (by decide)
      | some newPos =>
          dsimp only at h
          split at h
          · cases h
            exact .refused (by decide)
          · next hrange =>
            obtain ⟨pos, hpos, h⟩ := Act.lift_bind_run_eq_ok h
            rw [updateFile, Act.modify_bind_run] at h
            cases h
            have hval := castUsize_ok hpos
            rw [← hval]
            refine .moved (i := i) hinode ?_
            change pos ≤ (v.inodes i).size
            omega

theorem seekInode_store {offset whence r : Int} (h : seekInode f offset whence v = (.ok r, w)) :
    Sought v.store f r w.store := by
  rw [seekInode, Act.get_bind_run] at h
  obtain ⟨ops, -, h⟩ := Act.lift_bind_run_eq_ok h
  cases ops with
  | none =>
      cases h
      exact .refused (by decide)
  | some ops =>
      cases ops with
      | ramfs => exact ramfsSeek_store h
      | nullDev | consoleDev | zeroDev | fullDev | pipe =>
          cases h
          exact .refused (by decide)

theorem seek_store {offset whence r : Int} (h : seek f offset whence v = (.ok r, w)) : Sought v.store f r w.store := by
  rw [seek, Act.get_bind_run] at h
  cases hops : (v.openFiles f).ops with
  | none =>
      rw [hops] at h
      exact seekInode_store h
  | some ops =>
      rw [hops] at h
      cases ops with
      | ramfs => exact ramfsSeek_store h
      | nullDev | consoleDev | zeroDev | fullDev | pipe => exact seekInode_store h

end Seek

/-! ### Reading -/

/-- `n` bytes of user memory. -/
def bytesAt (s : State) (addr n : Nat) : Bytes := (List.range n).map fun i => s.user (addr + i)

/-- What a read returns, where it goes and what it does. -/
inductive Read (s : Store) (f : Fin maxOpenFiles) (len : Nat) : Int → Bytes → Store → Prop where
  | refused {n : Int} {bytes : Bytes} (h : n < 0) : Read s f len n bytes s
  | device {n : Int} {bytes : Bytes} (h : s.ops f ≠ some .ramfs) : Read s f len n bytes s
  | empty {i : Fin maxInodes} (hinode : (s.openFiles f).inode = some i) (hdata : (s.inodes i).data = none) :
      Read s f len 0 [] s
  | some {i : Fin maxInodes} {data : Bytes} (hinode : (s.openFiles f).inode = some i) (hdata : (s.inodes i).data = some data)
      (hpos : (s.openFiles f).pos ≤ data.length) : Read s f len (min len (data.length - (s.openFiles f).pos) : Nat)
        ((data.drop (s.openFiles f).pos).take len)
        ((s.touch i).seek f ((s.openFiles f).pos + min len (data.length - (s.openFiles f).pos)))

section Reading

variable {s t : State} {f : Fin maxOpenFiles} {n : Int}

theorem bytesAt_writeUser {addr : Nat} {bytes : Bytes} (h : writeUser addr bytes s = (.ok (), t)) :
    bytesAt t addr bytes.length = bytes ∧ t.vfs = s.vfs := by
  rw [writeUser, Act.modify_run] at h
  cases h
  refine ⟨List.ext_getElem ?_ fun k hk hk' => ?_, rfl⟩
  · rw [bytesAt, List.length_map, List.length_range]
  · simp only [bytesAt, List.getElem_map, List.getElem_range]
    rw [if_pos (by omega), Nat.add_sub_cancel_left, List.getD_eq_getElem?_getD, List.getElem?_eq_getElem hk',
      Option.getD_some]

theorem onVfs_ok {α : Type} {m : Run α} {a : α} (h : onVfs m s = (.ok a, t)) :
    m s.vfs = (.ok a, t.vfs) ∧ t.user = s.user := by
  obtain ⟨hval, hstate⟩ := Prod.mk.inj h
  have hvfs : t.vfs = (m s.vfs).2 := by
    rw [← hstate]
  refine ⟨by rw [hvfs, ← hval], by rw [← hstate]⟩

/-- What is copied out of a file. -/
theorem slice_min {data bytes : Bytes} {pos len stop : Nat}
    (hstop : (addU64 pos (min len (data.length - pos)) : Outcome Spins Nat) = .ok stop)
    (hslice : (slice data pos stop : Outcome Spins Bytes) = .ok bytes) :
    pos ≤ data.length ∧ stop = pos + min len (data.length - pos) ∧ bytes = (data.drop pos).take len ∧
      bytes.length = min len (data.length - pos) := by
  obtain ⟨-, rfl⟩ := addU64_eq_ok.mp hstop
  rw [slice] at hslice
  split at hslice
  · next hbounds =>
    cases hslice
    rw [Nat.add_sub_cancel_left]
    refine ⟨by omega, rfl, ?_, ?_⟩
    · rw [List.take_eq_take_min (i := len), List.length_drop]
    · rw [List.length_take, List.length_drop]
      omega
  · cases hslice

theorem ramfsRead_store {buf len : Nat} (h : ramfsRead f buf len s = (.ok n, t)) :
    Read s.vfs.store f len n (bytesAt t buf n.toNat) t.vfs.store := by
  rw [ramfsRead, Act.get_bind_run] at h
  dsimp only at h
  cases hinode : (s.vfs.openFiles f).inode with
  | none =>
      rw [hinode] at h
      cases h
      exact .refused (by decide)
  | some i =>
      rw [hinode] at h
      dsimp only at h
      cases hdata : (s.vfs.inodes i).data with
      | none =>
          rw [hdata] at h
          cases h
          exact .empty hinode hdata
      | some data =>
          rw [hdata] at h
          obtain ⟨stop, hstop, h⟩ := Act.lift_bind_run_eq_ok h
          obtain ⟨bytes, hslice, h⟩ := Act.lift_bind_run_eq_ok h
          obtain ⟨⟨⟩, u, htouch, h⟩ := Act.bind_run_eq_ok h
          obtain ⟨⟨⟩, x, hwrite, h⟩ := Act.bind_run_eq_ok h
          obtain ⟨⟨⟩, y, hseek, h⟩ := Act.bind_run_eq_ok h
          obtain ⟨hn, rfl⟩ := Prod.mk.inj h
          obtain ⟨hpos, rfl, rfl, hlen⟩ := slice_min hstop hslice
          obtain ⟨hbytes, hxu⟩ := bytesAt_writeUser hwrite
          obtain ⟨hu, -⟩ := onVfs_ok htouch
          obtain ⟨hy, huser⟩ := onVfs_ok hseek
          have hvfs : y.vfs.store = (s.vfs.store.touch i).seek f
              ((s.vfs.openFiles f).pos + min len (data.length - (s.vfs.openFiles f).pos)) := by
            rw [hxu, ← (Prod.mk.inj hu).2] at hy
            rw [← (Prod.mk.inj hy).2]
            rfl
          rw [hvfs, ← castI64_ok hn, Int.toNat_natCast, ← hlen, bytesAt, huser]
          rw [bytesAt] at hbytes
          rw [hbytes, hlen]
          exact .some hinode hdata hpos

/-- What goes on in the pipes does not touch the files. -/
theorem fixes_pipeRead (p : Fin maxPipes) (buf len : Nat) : Act.Fixes (fun s : State => s.vfs.store) (pipeRead p buf len) := by
  have hpipe : ∀ g : Pipe → Pipe, Act.Fixes (fun s : State => s.vfs.store) (onVfs (updatePipe p g)) := fun g =>
    .zoom fun _ => rfl
  have hloop : ∀ (n buf : Nat), Act.Fixes (fun s : State => s.vfs.store) (pipeReadLoop p buf n) := by
    intro n
    induction n with
    | zero => exact fun _ => .pure _
    | succ n ih =>
        intro buf
        refine Act.Fixes.get.bind fun s => (Act.Fixes.lift _).bind fun cell => .modify_bind (fun _ => rfl) fun _ => ?_
        exact (Act.Fixes.lift _).bind fun used => (hpipe _).bind fun _ => ih _
  refine Act.Fixes.get.bind fun s => .ite (.pure _) ?_
  exact (hloop _ _).bind fun _ => (hpipe _).bind fun _ => .lift _

theorem fixes_pipeWrite (p : Fin maxPipes) (buf len : Nat) : Act.Fixes (fun s : State => s.vfs.store) (pipeWrite p buf len) := by
  have hpipe : ∀ g : Pipe → Pipe, Act.Fixes (fun s : State => s.vfs.store) (onVfs (updatePipe p g)) := fun g =>
    .zoom fun _ => rfl
  have hread : ∀ addr n, Act.Fixes (fun s : State => s.vfs.store) (readUser addr n) := fun addr n =>
    .modify_bind (fun _ => rfl) fun _ => Act.Fixes.get.bind fun _ => .pure _
  have hloop : ∀ (n buf : Nat), Act.Fixes (fun s : State => s.vfs.store) (pipeWriteLoop p buf n) := by
    intro n
    induction n with
    | zero => exact fun _ => .pure _
    | succ n ih =>
        intro buf
        refine Act.Fixes.get.bind fun s => (Act.Fixes.lift _).bind fun cell => (hread _ _).bind fun bytes => ?_
        exact (Act.Fixes.lift _).bind fun used => (hpipe _).bind fun _ => ih _
  refine Act.Fixes.get.bind fun s => .ite (.pure _) ((Act.Fixes.lift _).bind fun avail => .ite (.pure _) ?_)
  exact (hloop _ _).bind fun _ => (hpipe _).bind fun _ => .lift _

theorem read_store {buf len : Nat} (h : read f buf len s = (.ok n, t)) :
    Read s.vfs.store f len n (bytesAt t buf n.toNat) t.vfs.store := by
  rcases read_dispatch h with ⟨hn, rfl⟩ | ⟨ops, hops, hrun⟩
  · exact .refused hn
  · have hdevice : ops ≠ .ramfs → t.vfs.store = s.vfs.store → Read s.vfs.store f len n (bytesAt t buf n.toNat) t.vfs.store := by
      intro hne hsame
      rw [hsame]
      exact .device (by rw [hops]; exact fun heq => hne (Option.some.inj heq))
    cases ops with
    | ramfs => exact ramfsRead_store hrun
    | nullDev | consoleDev | fullDev =>
        cases hrun
        exact hdevice (by decide) rfl
    | zeroDev =>
        have hfixes : Act.Fixes (fun s : State => s.vfs.store) (FileOps.zeroDev.read f buf len) :=
          .modify_bind (fun _ => rfl) fun _ => .lift _
        exact hdevice (by decide) (hfixes.run hrun)
    | pipe =>
        have hfixes : Act.Fixes (fun s : State => s.vfs.store) (FileOps.pipe.read f buf len) :=
          Act.Fixes.get.bind fun s => (Act.Fixes.lift _).bind fun p => fixes_pipeRead p buf len
        exact hdevice (by decide) (hfixes.run hrun)

end Reading

/-! ### Reading at an offset -/

/-- What a read at an offset returns and does. -/
inductive ReadAt (s : Store) (f : Fin maxOpenFiles) (offset len : Nat) : Option Nat → Bytes → Store → Prop where
  | refused {bytes : Bytes} : ReadAt s f offset len none bytes s
  | empty {i : Fin maxInodes} (hinode : (s.openFiles f).inode = some i) (hdata : (s.inodes i).data = none) :
      ReadAt s f offset len (some 0) [] s
  | behind {i : Fin maxInodes} {data : Bytes} (hinode : (s.openFiles f).inode = some i)
      (hdata : (s.inodes i).data = some data) (h : data.length ≤ offset) : ReadAt s f offset len (some 0) [] s
  | some {i : Fin maxInodes} {data : Bytes} (hinode : (s.openFiles f).inode = some i)
      (hdata : (s.inodes i).data = some data) (h : offset < data.length) :
      ReadAt s f offset len (some (min len (data.length - offset))) ((data.drop offset).take len) (s.touch i)

section ReadingAt

variable {s t : State} {f : Fin maxOpenFiles}

theorem ramfsPread_store {offset buf len : Nat} {n : Int} (h : ramfsPread f offset buf len s = (.ok n, t)) :
    n < 0 ∧ t = s ∨ ∃ k : Nat, n = k ∧ ReadAt s.vfs.store f offset len (some k) (bytesAt t buf k) t.vfs.store := by
  rw [ramfsPread, Act.get_bind_run] at h
  cases hinode : (s.vfs.openFiles f).inode with
  | none =>
      rw [hinode] at h
      cases h
      exact Or.inl ⟨by decide, rfl⟩
  | some i =>
      rw [hinode] at h
      dsimp only at h
      cases hdata : (s.vfs.inodes i).data with
      | none =>
          rw [hdata] at h
          cases h
          exact Or.inr ⟨0, rfl, .empty hinode hdata⟩
      | some data =>
          rw [hdata] at h
          dsimp only at h
          split at h
          · next hbehind =>
            cases h
            exact Or.inr ⟨0, rfl, .behind hinode hdata hbehind⟩
          · next hinside =>
            obtain ⟨stop, hstop, h⟩ := Act.lift_bind_run_eq_ok h
            obtain ⟨bytes, hslice, h⟩ := Act.lift_bind_run_eq_ok h
            obtain ⟨⟨⟩, u, htouch, h⟩ := Act.bind_run_eq_ok h
            obtain ⟨⟨⟩, x, hwrite, h⟩ := Act.bind_run_eq_ok h
            obtain ⟨hn, rfl⟩ := Prod.mk.inj h
            obtain ⟨-, rfl, rfl, hlen⟩ := slice_min hstop hslice
            obtain ⟨hbytes, hxu⟩ := bytesAt_writeUser hwrite
            obtain ⟨hu, -⟩ := onVfs_ok htouch
            have hvfs : x.vfs.store = s.vfs.store.touch i := by
              rw [hxu, ← (Prod.mk.inj hu).2]
              rfl
            refine Or.inr ⟨_, (castI64_ok hn).symm, ?_⟩
            rw [hvfs, ← hlen, hbytes, hlen]
            exact .some hinode hdata (Nat.lt_of_not_le hinside)

theorem pread_store {offset buf len : Nat} {r : Option Nat} (h : pread f offset buf len s = (.ok r, t)) :
    ReadAt s.vfs.store f offset len r (bytesAt t buf (r.getD 0)) t.vfs.store := by
  rw [pread, Act.get_bind_run] at h
  obtain ⟨ops, -, h⟩ := Act.lift_bind_run_eq_ok h
  cases hpread : ops.bind fun ops => ops.pread f offset buf len with
  | none =>
      rw [hpread] at h
      cases h
      exact .refused
  | some run =>
      rw [hpread] at h
      obtain ⟨n, u, hrun, h⟩ := Act.bind_run_eq_ok h
      obtain ⟨hr, rfl⟩ := Prod.mk.inj h
      obtain rfl : ramfsPread f offset buf len = run := by
        cases ops with
        | none => cases hpread
        | some ops =>
            cases ops with
            | ramfs => exact Option.some.inj hpread
            | nullDev | consoleDev | zeroDev | fullDev | pipe => cases hpread
      rcases ramfsPread_store hrun with ⟨hn, rfl⟩ | ⟨k, rfl, hread⟩
      · rw [preadCount, if_pos hn] at hr
        cases hr
        exact .refused
      · rw [preadCount, if_neg (by omega)] at hr
        cases hr
        exact hread

end ReadingAt

/-! ### Writing -/

/-- What a write returns and does: in place, into a file that has grown, or nothing. -/
inductive Written (s : Store) (f : Fin maxOpenFiles) (data : Bytes) : Int → Store → Prop where
  | refused {n : Int} (h : n < 0)
      (hfull : ∀ i, (s.openFiles f).inode = some i → s.ops f = some .ramfs →
        ¬(s.fsUsedBytes + ((s.openFiles f).pos + data.length - dataLength (s.inodes i)) ≤ fsCapBytes ∧
          s.available ((s.openFiles f).pos + data.length) = true)) : Written s f data n s
  | device {n : Int} (h : s.ops f ≠ some .ramfs) : Written s f data n s
  | inPlace {i : Fin maxInodes} {old : Bytes} (hops : s.ops f = some .ramfs) (hinode : (s.openFiles f).inode = some i)
      (hdata : (s.inodes i).data = some old) (hfits : (s.openFiles f).pos + data.length ≤ old.length) :
      Written s f data data.length ((s.write i (overwrite old (s.openFiles f).pos data)
        ((s.openFiles f).pos + data.length)).seek f ((s.openFiles f).pos + data.length))
  | grown {i : Fin maxInodes} (hops : s.ops f = some .ramfs) (hinode : (s.openFiles f).inode = some i)
      (hgrows : (s.inodes i).data = none ∨ dataLength (s.inodes i) < (s.openFiles f).pos + data.length)
      (hcap : s.fsUsedBytes + ((s.openFiles f).pos + data.length - dataLength (s.inodes i)) ≤ fsCapBytes)
      (hroom : s.available ((s.openFiles f).pos + data.length) = true) :
      Written s f data data.length (((s.grow i ((s.openFiles f).pos + data.length)).write i
        (overwrite (Vfs.grown (s.inodes i).data ((s.openFiles f).pos + data.length)) (s.openFiles f).pos data)
        ((s.openFiles f).pos + data.length)).seek f ((s.openFiles f).pos + data.length))

section Writing

variable {s t : State} {f : Fin maxOpenFiles} {i : Fin maxInodes} {n : Int}

theorem ramfsGrow_store {v w : Vfs} {newLen : Nat} {r : Option Int} (h : ramfsGrow i newLen v = (.ok r, w)) :
    (∃ e, r = some e ∧ e < 0 ∧ w = v ∧
      ¬(v.fsUsedBytes + (newLen - dataLength (v.inodes i)) ≤ fsCapBytes ∧ v.available newLen = true)) ∨ r = none ∧ w.store = v.store.grow i newLen ∧
      v.fsUsedBytes + (newLen - dataLength (v.inodes i)) ≤ fsCapBytes ∧ v.available newLen = true := by
  rw [ramfsGrow, Act.get_bind_run] at h
  obtain ⟨ok, u, hcharge, h⟩ := Act.bind_run_eq_ok h
  rcases fsCharge_store hcharge with ⟨rfl, rfl, hcap⟩ | ⟨rfl, hcap, rfl⟩
  · rw [if_pos Bool.false_ne_true] at h
    cases h
    exact Or.inl ⟨_, rfl, by decide, rfl, fun hfits => hcap hfits.1⟩
  · rw [if_neg (not_not.mpr rfl)] at h
    split at h
    · next hroom =>
      cases h
      refine Or.inl ⟨_, rfl, by decide, ?_, fun hfits => hroom hfits.2⟩
      dsimp only
      rw [Nat.add_sub_cancel]
    · next hroom =>
      rw [not_not] at hroom
      refine Or.inr ?_
      obtain ⟨buf, u, htake, h⟩ := Act.bind_run_eq_ok h
      cases htake
      cases hsome : (v.inodes i).data.isSome with
      | false =>
          rw [hsome, if_neg Bool.false_ne_true] at h
          cases h
          refine ⟨rfl, ?_, hcap, hroom⟩
          simp only [store, Store.grow, Store.discard, Store.put, hsome, Bool.false_eq_true, if_false]
      | true =>
          rw [hsome, if_pos rfl] at h
          cases h
          refine ⟨rfl, ?_, hcap, hroom⟩
          simp only [store, Store.grow, Store.discard, Store.touch, Store.put, hsome, if_true]

/-- The bytes are written over what the file has; without room in the file the slice is out of its bounds. -/
theorem ramfsPut_store {buf len : Nat} {bytes : Bytes} (hbytes : bytesAt s buf len = bytes)
    (h : ramfsPut f i buf len s = (.ok n, t)) :
    ∃ old, (s.vfs.inodes i).data = some old ∧ (s.vfs.openFiles f).pos + bytes.length ≤ old.length ∧ n = bytes.length ∧
      t.vfs.store = (s.vfs.store.write i (overwrite old (s.vfs.openFiles f).pos bytes)
        ((s.vfs.openFiles f).pos + bytes.length)).seek f ((s.vfs.openFiles f).pos + bytes.length) := by
  have hlen : bytes.length = len := by
    rw [← hbytes, bytesAt, List.length_map, List.length_range]
  rw [ramfsPut, Act.get_bind_run] at h
  cases hdata : (s.vfs.inodes i).data with
  | none =>
      rw [hdata] at h
      cases h
  | some old =>
      rw [hdata] at h
      obtain ⟨stop, hstop, h⟩ := Act.lift_bind_run_eq_ok h
      obtain ⟨-, rfl⟩ := addU64_eq_ok.mp hstop
      obtain ⟨data, u, hread, h⟩ := Act.bind_run_eq_ok h
      obtain ⟨⟨⟩, x, htouch, h⟩ := Act.bind_run_eq_ok h
      obtain ⟨new, hcopy, h⟩ := Act.lift_bind_run_eq_ok h
      obtain ⟨⟨⟩, y₁, h₁, h⟩ := Act.bind_run_eq_ok h
      obtain ⟨⟨⟩, y₂, h₂, h⟩ := Act.bind_run_eq_ok h
      obtain ⟨⟨⟩, y₃, h₃, h⟩ := Act.bind_run_eq_ok h
      obtain ⟨hn, rfl⟩ := Prod.mk.inj h
      rw [readUser, Act.modify_bind_run, Act.get_bind_run] at hread
      obtain ⟨hdata', hu⟩ := Prod.mk.inj hread
      have hdata'' : data = bytes := by
        rw [← hbytes, ← Outcome.ok.inj hdata']
        rfl
      rw [memcpy] at hcopy
      split at hcopy
      · next hbounds =>
        have hnew := Outcome.ok.inj hcopy
        have h₁ := (Prod.mk.inj (onVfs_ok h₁).1).2
        have h₂ := (Prod.mk.inj (onVfs_ok h₂).1).2
        have h₃ := (Prod.mk.inj (onVfs_ok h₃).1).2
        have hx := (Prod.mk.inj (onVfs_ok htouch).1).2
        have hu' : u.vfs = s.vfs := by rw [← hu]
        refine ⟨old, rfl, by omega, by rw [hlen, castI64_ok hn], ?_⟩
        rw [← h₃, ← h₂, ← h₁, ← hx, hu', ← hnew, hdata'', hlen]
        simp only [store, Store.write, Store.touch, Store.put, Store.seek, Function.update_idem, Function.update_self]
      · cases hcopy

theorem ramfsWrite_store {buf : Nat} {data : Bytes} (hdata : bytesAt s buf data.length = data)
    (hops : s.vfs.store.ops f = some .ramfs) (h : ramfsWrite f buf data.length s = (.ok n, t)) :
    Written s.vfs.store f data n t.vfs.store := by
  rw [ramfsWrite, Act.get_bind_run] at h
  cases hinode : (s.vfs.openFiles f).inode with
  | none =>
      rw [hinode] at h
      cases h
      refine .refused (by decide) fun i hi => ?_
      rw [show (s.vfs.store.openFiles f).inode = none from hinode] at hi
      cases hi
  | some i =>
      rw [hinode] at h
      obtain ⟨newLen, hnew, h⟩ := Act.lift_bind_run_eq_ok h
      obtain ⟨-, rfl⟩ := addU64_eq_ok.mp hnew
      split at h
      · next hgrows =>
        obtain ⟨failed, u, hgrow, h⟩ := Act.bind_run_eq_ok h
        obtain ⟨hgrow, huser⟩ := onVfs_ok hgrow
        rcases ramfsGrow_store hgrow with ⟨e, rfl, he, hsame, hfull⟩ | ⟨rfl, hstore, hcap, hroom⟩
        · cases h
          rw [hsame]
          refine .refused he fun i' hi' _ => ?_
          rw [show (s.vfs.store.openFiles f).inode = some i from hinode] at hi'
          cases hi'
          exact hfull
        · have hfile : u.vfs.openFiles = s.vfs.openFiles := by
            have hfiles := congrArg Store.openFiles hstore
            rw [Store.grow, Store.discard] at hfiles
            split at hfiles <;> exact hfiles
          have hbytes : bytesAt u buf data.length = data := by
            rw [← hdata, bytesAt, huser, bytesAt]
            rw [List.length_map, List.length_range]
          obtain ⟨old, hold, -, rfl, hw⟩ := ramfsPut_store hbytes h
          have hself : (u.vfs.inodes i).data = some (grown (s.vfs.inodes i).data ((s.vfs.openFiles f).pos + data.length)) := by
            have hinodes := congrFun (congrArg Store.inodes hstore) i
            rw [Store.grow, Store.put] at hinodes
            dsimp only at hinodes
            rw [Function.update_self] at hinodes
            exact congrArg Inode.data hinodes
          rw [hself] at hold
          cases hold
          rw [hw, hstore, hfile]
          refine .grown hops hinode ?_ hcap hroom
          rcases hgrows with hnone | hlt
          · exact Or.inl (Option.isNone_iff_eq_none.mp hnone)
          · exact Or.inr hlt
      · obtain ⟨old, hold, hfits, rfl, hw⟩ := ramfsPut_store hdata h
        rw [hw]
        exact .inPlace hops hinode hold hfits

theorem write_store {buf : Nat} {data : Bytes} (hdata : bytesAt s buf data.length = data)
    (h : Vfs.write f buf data.length s = (.ok n, t)) : Written s.vfs.store f data n t.vfs.store := by
  rcases write_dispatch h with ⟨hops, hn, rfl⟩ | ⟨ops, hops, hrun⟩
  · refine .refused hn fun i _ hramfs => ?_
    rw [hops] at hramfs
    cases hramfs
  · have hdevice : ops ≠ .ramfs → t.vfs.store = s.vfs.store → Written s.vfs.store f data n t.vfs.store := by
      intro hne hsame
      rw [hsame]
      exact .device (by rw [hops]; exact fun heq => hne (Option.some.inj heq))
    cases ops with
    | ramfs => exact ramfsWrite_store hdata hops hrun
    | fullDev =>
        cases hrun
        exact hdevice (by decide) rfl
    | nullDev | zeroDev =>
        obtain ⟨-, rfl⟩ := Prod.mk.inj hrun
        exact hdevice (by decide) rfl
    | consoleDev =>
        have hfixes : Act.Fixes (fun s : State => s.vfs.store) (FileOps.consoleDev.write f buf data.length) :=
          Act.Fixes.bind (.modify_bind (fun _ => rfl) fun _ => Act.Fixes.get.bind fun _ => .pure _) fun _ => .lift _
        exact hdevice (by decide) (hfixes.run hrun)
    | pipe =>
        have hfixes : Act.Fixes (fun s : State => s.vfs.store) (FileOps.pipe.write f buf data.length) :=
          Act.Fixes.get.bind fun s => (Act.Fixes.lift _).bind fun p => fixes_pipeWrite p buf data.length
        exact hdevice (by decide) (hfixes.run hrun)

end Writing

/-! ### Destroying -/

theorem freeInode_store {v w : Vfs} {d : Fin maxDentries} (h : freeInode d v = (.ok (), w)) :
    (∀ i, inodeOf v d = some i → w.store = v.store.drop i) ∧ (inodeOf v d = none → w.store = v.store) := by
  rw [freeInode, Act.get_bind_run] at h
  cases hinode : (v.dentries d).inode with
  | none =>
      rw [hinode] at h
      cases h
      refine ⟨fun i hi => ?_, fun _ => rfl⟩
      rw [inodeOf, hinode] at hi
      cases hi
  | some i =>
      rw [hinode] at h
      refine ⟨fun i' hi => ?_, fun hi => ?_⟩
      · rw [inodeOf, hinode] at hi
        cases hi
        obtain ⟨⟨⟩, u, hfree, h⟩ := Act.bind_run_eq_ok h
        have hw := (Prod.mk.inj h).2
        rw [freeData, Act.get_bind_run] at hfree
        rw [← hw]
        cases hdata : (v.inodes i).data with
        | none =>
            rw [hdata] at hfree
            cases hfree
            simp only [store, Store.drop, Store.discard, Store.release, Store.put, hdata, Option.isSome_none,
              Bool.false_eq_true, if_false, dataLength, Option.map_none, Option.getD_none, Nat.sub_zero]
        | some data =>
            rw [hdata] at hfree
            have hu := (Prod.mk.inj hfree).2
            rw [← hu]
            simp only [store, Store.drop, Store.discard, Store.touch, Store.release, Store.put, hdata, Option.isSome_some,
              if_true, dataLength, Option.map_some, Option.getD_some, Function.update_idem, Function.update_self]
      · rw [inodeOf, hinode] at hi
        cases hi

/-! ### What is apart from the files -/

/-- The parts of the file system that tell which dentries there are. -/
def frame (v : Vfs) : (Fin maxDentries → Dentry) × (Fin maxDentries → Bool) × Option (Fin maxDentries) × Option (Fin maxDentries) :=
  (v.dentries, v.dentryUsed, v.rootDentry, v.jailRoot)

theorem frame_unlinkat (path : Bytes) : Act.Fixes frame (unlinkat path) := by
  refine Act.Fixes.get.bind fun v => (Act.Fixes.lift _).bind fun found => ?_
  cases found with
  | none => exact .pure _
  | some d =>
      dsimp only
      cases (v.dentries d).inode with
      | none => exact .pure _
      | some i => exact .modify_bind (fun _ => rfl) fun _ => .pure _

/-- Parts of the file system that neither the inodes nor the open files belong to. -/
structure Apart {ρ : Type} (g : Vfs → ρ) : Prop where
  inodes : ∀ v inodes, g { v with inodes } = g v
  openFiles : ∀ v openFiles, g { v with openFiles } = g v
  fsUsedBytes : ∀ v fsUsedBytes, g { v with fsUsedBytes } = g v
  buffers : ∀ v buffers, g { v with buffers } = g v
  freed : ∀ v freed fault, g { v with freed, fault } = g v

theorem apart_frame : Apart frame := ⟨fun _ _ => rfl, fun _ _ => rfl, fun _ _ => rfl, fun _ _ => rfl, fun _ _ _ => rfl⟩

section Apart

variable {ρ : Type} {g : Vfs → ρ}

/-- They are looked at together with the processes, which no call on files changes. -/
def beside (g : Vfs → ρ) (s : State) : ρ × Procs := (g s.vfs, s.procs)

theorem beside_onVfs {α : Type} {m : Vfs.Run α} (h : Act.Fixes g m) : Act.Fixes (beside g) (onVfs m) :=
  Act.Fixes.zoom fun s => Prod.ext (h s.vfs) rfl

theorem beside_readUser (addr n : Nat) : Act.Fixes (beside g) (readUser addr n) :=
  .modify_bind (fun _ => rfl) fun _ => Act.Fixes.get.bind fun _ => .pure _

theorem beside_writeUser (addr : Nat) (bytes : Bytes) : Act.Fixes (beside g) (writeUser addr bytes) := .modify fun _ => rfl

theorem Apart.touchBuffer (hg : Apart g) (i : Fin maxInodes) : Act.Fixes g (touchBuffer i) :=
  .modify fun v => hg.freed v v.freed _

theorem Apart.updateInode (hg : Apart g) (i : Fin maxInodes) (h : Inode → Inode) : Act.Fixes g (updateInode i h) :=
  .modify fun v => hg.inodes v _

theorem Apart.updateFile (hg : Apart g) (f : Fin maxOpenFiles) (h : File → File) : Act.Fixes g (updateFile f h) :=
  .modify fun v => hg.openFiles v _

theorem fixes_updatePipe (hpipe : ∀ v pipes, g { v with pipes } = g v) (p : Fin maxPipes) (h : Pipe → Pipe) :
    Act.Fixes g (updatePipe p h) := .modify fun v => hpipe v _

theorem Apart.fsCharge (hg : Apart g) (n : Nat) : Act.Fixes g (fsCharge n) := by
  refine Act.Fixes.get.bind fun v => (Act.Fixes.lift _).bind fun used => .ite (.pure _) ?_
  exact .modify_bind (fun v => hg.fsUsedBytes v used) fun _ => .pure _

theorem Apart.ramfsGrow (hg : Apart g) (i : Fin maxInodes) (newLen : Nat) : Act.Fixes g (ramfsGrow i newLen) := by
  refine Act.Fixes.get.bind fun v => (hg.fsCharge _).bind fun charged => .ite (.pure _) (.ite ?_ ?_)
  · exact .modify_bind (fun v => hg.fsUsedBytes v _) fun _ => .pure _
  · have htake : Act.Fixes g takeBuffer := Act.Fixes.get.bind fun _ => .modify_bind (fun v => hg.buffers v _) fun _ => .pure _
    refine htake.bind fun buf => .ite ?_ ((hg.updateInode i _).bind fun _ => .pure _)
    exact .modify_bind (fun v => hg.freed v _ _) fun _ => (hg.updateInode i _).bind fun _ => .pure _

theorem Apart.ramfsPut (hg : Apart g) (f : Fin maxOpenFiles) (i : Fin maxInodes) (buf len : Nat) :
    Act.Fixes (beside g) (ramfsPut f i buf len) := by
  refine Act.Fixes.get.bind fun s => ?_
  dsimp only
  cases (s.vfs.inodes i).data with
  | none => exact .lift _
  | some data =>
      refine (Act.Fixes.lift _).bind fun stop => (beside_readUser _ _).bind fun bytes => ?_
      refine (beside_onVfs (hg.touchBuffer i)).bind fun _ => (Act.Fixes.lift _).bind fun data => ?_
      refine (beside_onVfs (hg.updateInode i _)).bind fun _ => (beside_onVfs (hg.updateFile f _)).bind fun _ => ?_
      exact (beside_onVfs (hg.updateInode i _)).bind fun _ => .lift _

theorem Apart.ramfsWrite (hg : Apart g) (f : Fin maxOpenFiles) (buf len : Nat) :
    Act.Fixes (beside g) (ramfsWrite f buf len) := by
  refine Act.Fixes.get.bind fun s => ?_
  dsimp only
  cases (s.vfs.openFiles f).inode with
  | none => exact .pure _
  | some i =>
      refine (Act.Fixes.lift _).bind fun newLen => .ite ((beside_onVfs (hg.ramfsGrow i newLen)).bind fun failed => ?_)
        (hg.ramfsPut f i buf len)
      cases failed with
      | none => exact hg.ramfsPut f i buf len
      | some e => exact .pure _

theorem Apart.ramfsRead (hg : Apart g) (f : Fin maxOpenFiles) (buf len : Nat) :
    Act.Fixes (beside g) (ramfsRead f buf len) := by
  refine Act.Fixes.get.bind fun s => ?_
  dsimp only
  cases (s.vfs.openFiles f).inode with
  | none => exact .pure _
  | some i =>
      dsimp only
      cases (s.vfs.inodes i).data with
      | none => exact .pure _
      | some data =>
          refine (Act.Fixes.lift _).bind fun stop => (Act.Fixes.lift _).bind fun bytes => ?_
          refine (beside_onVfs (hg.touchBuffer i)).bind fun _ => (beside_writeUser _ _).bind fun _ => ?_
          exact (beside_onVfs (hg.updateFile f _)).bind fun _ => .lift _

theorem Apart.ramfsPread (hg : Apart g) (f : Fin maxOpenFiles) (offset buf len : Nat) :
    Act.Fixes (beside g) (ramfsPread f offset buf len) := by
  refine Act.Fixes.get.bind fun s => ?_
  dsimp only
  cases (s.vfs.openFiles f).inode with
  | none => exact .pure _
  | some i =>
      dsimp only
      cases (s.vfs.inodes i).data with
      | none => exact .pure _
      | some data =>
          refine .ite (.pure _) ((Act.Fixes.lift _).bind fun stop => (Act.Fixes.lift _).bind fun bytes => ?_)
          exact (beside_onVfs (hg.touchBuffer i)).bind fun _ => (beside_writeUser _ _).bind fun _ => .lift _

theorem beside_pipeWrite (hpipe : ∀ v pipes, g { v with pipes } = g v) (p : Fin maxPipes) (buf len : Nat) :
    Act.Fixes (beside g) (pipeWrite p buf len) := by
  have hloop : ∀ (n buf : Nat), Act.Fixes (beside g) (pipeWriteLoop p buf n) := by
    intro n
    induction n with
    | zero => exact fun _ => .pure _
    | succ n ih =>
        intro buf
        refine Act.Fixes.get.bind fun s => (Act.Fixes.lift _).bind fun cell => (beside_readUser _ _).bind fun bytes => ?_
        exact (Act.Fixes.lift _).bind fun used => (beside_onVfs (fixes_updatePipe hpipe p _)).bind fun _ => ih _
  refine Act.Fixes.get.bind fun s => .ite (.pure _) ((Act.Fixes.lift _).bind fun avail => .ite (.pure _) ?_)
  exact (hloop _ _).bind fun _ => (beside_onVfs (fixes_updatePipe hpipe p _)).bind fun _ => .lift _

theorem beside_pipeRead (hpipe : ∀ v pipes, g { v with pipes } = g v) (p : Fin maxPipes) (buf len : Nat) :
    Act.Fixes (beside g) (pipeRead p buf len) := by
  have hloop : ∀ (n buf : Nat), Act.Fixes (beside g) (pipeReadLoop p buf n) := by
    intro n
    induction n with
    | zero => exact fun _ => .pure _
    | succ n ih =>
        intro buf
        refine Act.Fixes.get.bind fun s => (Act.Fixes.lift _).bind fun cell => (beside_writeUser _ _).bind fun _ => ?_
        exact (Act.Fixes.lift _).bind fun used => (beside_onVfs (fixes_updatePipe hpipe p _)).bind fun _ => ih _
  refine Act.Fixes.get.bind fun s => .ite (.pure _) ?_
  exact (hloop _ _).bind fun _ => (beside_onVfs (fixes_updatePipe hpipe p _)).bind fun _ => .lift _

/-- A write through the files that are no pipes. -/
theorem Apart.opsWrite (hg : Apart g) {ops : FileOps} (hops : ops ≠ .pipe) (f : Fin maxOpenFiles) (buf len : Nat) :
    Act.Fixes (beside g) (ops.write f buf len) := by
  cases ops with
  | ramfs => exact hg.ramfsWrite f buf len
  | nullDev | zeroDev => exact .lift _
  | consoleDev => exact (beside_readUser _ _).bind fun _ => .lift _
  | fullDev => exact .pure _
  | pipe => exact absurd rfl hops

theorem Apart.opsRead (hg : Apart g) {ops : FileOps} (hops : ops ≠ .pipe) (f : Fin maxOpenFiles) (buf len : Nat) :
    Act.Fixes (beside g) (ops.read f buf len) := by
  cases ops with
  | ramfs => exact hg.ramfsRead f buf len
  | nullDev | consoleDev | fullDev => exact .pure _
  | zeroDev => exact (beside_writeUser _ _).bind fun _ => .lift _
  | pipe => exact absurd rfl hops

theorem fixes_dispatch {ρ : Type} {g : State → ρ} (f : Fin maxOpenFiles) {run : FileOps → Kernel.Run Int}
    (hops : ∀ ops, Act.Fixes g (run ops)) : Act.Fixes g (dispatch f run) := by
  refine Act.Fixes.get.bind fun s => ?_
  cases (s.vfs.openFiles f).ops with
  | some ops => exact hops ops
  | none =>
      refine (Act.Fixes.lift _).bind fun ops => ?_
      cases ops with
      | none => exact .pure _
      | some ops => exact hops ops

theorem Apart.write (hg : Apart g) (hpipe : ∀ v pipes, g { v with pipes } = g v) (f : Fin maxOpenFiles) (buf len : Nat) :
    Act.Fixes (beside g) (Vfs.write f buf len) := by
  rw [write_eq]
  refine fixes_dispatch f fun ops => ?_
  by_cases hops : ops = .pipe
  · rw [hops]
    exact Act.Fixes.get.bind fun s => (Act.Fixes.lift _).bind fun p => beside_pipeWrite hpipe p buf len
  · exact hg.opsWrite hops f buf len

theorem Apart.read (hg : Apart g) (hpipe : ∀ v pipes, g { v with pipes } = g v) (f : Fin maxOpenFiles) (buf len : Nat) :
    Act.Fixes (beside g) (Vfs.read f buf len) := by
  rw [read_eq]
  refine fixes_dispatch f fun ops => ?_
  by_cases hops : ops = .pipe
  · rw [hops]
    exact Act.Fixes.get.bind fun s => (Act.Fixes.lift _).bind fun p => beside_pipeRead hpipe p buf len
  · exact hg.opsRead hops f buf len

theorem Apart.pread (hg : Apart g) (f : Fin maxOpenFiles) (offset buf len : Nat) :
    Act.Fixes (beside g) (Vfs.pread f offset buf len) := by
  refine Act.Fixes.get.bind fun s => (Act.Fixes.lift _).bind fun ops => ?_
  rcases ops with _ | ⟨_ | _ | _ | _ | _ | _⟩
  case some.ramfs => exact (hg.ramfsPread f offset buf len).bind fun _ => .lift _
  all_goals exact .pure _

theorem Apart.ramfsSeek (hg : Apart g) (f : Fin maxOpenFiles) (offset whence : Int) :
    Act.Fixes g (ramfsSeek f offset whence) := by
  refine Act.Fixes.get.bind fun v => ?_
  cases (v.openFiles f).inode with
  | none => exact .pure _
  | some i =>
      refine (Act.Fixes.lift _).bind fun target => ?_
      cases target with
      | none => exact .pure _
      | some newPos => exact .ite (.pure _) ((Act.Fixes.lift _).bind fun pos => (hg.updateFile f _).bind fun _ => .pure _)

theorem Apart.seek (hg : Apart g) (f : Fin maxOpenFiles) (offset whence : Int) : Act.Fixes g (Vfs.seek f offset whence) := by
  have hinode : Act.Fixes g (seekInode f offset whence) := by
    refine Act.Fixes.get.bind fun v => (Act.Fixes.lift _).bind fun ops => ?_
    rcases ops with _ | ⟨_ | _ | _ | _ | _ | _⟩
    case some.ramfs => exact hg.ramfsSeek f offset whence
    all_goals exact .pure _
  refine Act.Fixes.get.bind fun v => ?_
  rcases (v.openFiles f).ops with _ | ⟨_ | _ | _ | _ | _ | _⟩
  case some.ramfs => exact hg.ramfsSeek f offset whence
  all_goals exact hinode

end Apart

/-! Reads, writes and seeks leave the dentries and the jail alone. -/

section Frame

variable (f : Fin maxOpenFiles)

theorem frame_of_beside {α : Type} {m : Kernel.Run α} (h : Act.Fixes (beside frame) m) :
    Act.Fixes (fun s : State => frame s.vfs) m := fun s => congrArg Prod.fst (h s)

theorem frame_write (buf len : Nat) : Act.Fixes (fun s : State => frame s.vfs) (Vfs.write f buf len) :=
  frame_of_beside (apart_frame.write (fun _ _ => rfl) f buf len)

theorem frame_read (buf len : Nat) : Act.Fixes (fun s : State => frame s.vfs) (Vfs.read f buf len) :=
  frame_of_beside (apart_frame.read (fun _ _ => rfl) f buf len)

theorem frame_pread (offset buf len : Nat) : Act.Fixes (fun s : State => frame s.vfs) (Vfs.pread f offset buf len) :=
  frame_of_beside (apart_frame.pread f offset buf len)

theorem frame_seek (offset whence : Int) : Act.Fixes frame (Vfs.seek f offset whence) := apart_frame.seek f offset whence

theorem frame_updateInode (i : Fin maxInodes) (g : Inode → Inode) : Act.Fixes frame (updateInode i g) :=
  apart_frame.updateInode i g

theorem frame_fsCharge (n : Nat) : Act.Fixes frame (fsCharge n) := apart_frame.fsCharge n

end Frame

end Kernel.Vfs
