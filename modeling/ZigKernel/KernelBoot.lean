import ZigKernel.KernelTree
import ZigKernel.KernelSyscall
import ZigKernel.LangReturns

/-! The kernel's own files. What boot and the kernel put into the file system keeps its tables in order, and the open
files with them. -/

namespace Kernel

open Zig

namespace Vfs

/-- The tables of the file system, of which the first `k` slots are taken. -/
structure Sound (v : Vfs) (k : Nat) : Prop where
  taken : Taken v k
  tree : Tree v k
  contents : Contents v

/-- The file system has only got more. -/
structure Grows (v v' : Vfs) : Prop where
  openFiles : v'.openFiles = v.openFiles
  inode : ∀ d, (v.dentries d).inode.isSome = true → (v'.dentries d).inode.isSome = true
  length : ∀ i, dataLength (v.inodes i) ≤ dataLength (v'.inodes i)

theorem Grows.refl (v : Vfs) : Grows v v := ⟨rfl, fun _ h => h, fun _ => Nat.le_refl _⟩

theorem Grows.trans {u v w : Vfs} (h : Grows u v) (h' : Grows v w) : Grows u w where
  openFiles := h'.openFiles.trans h.openFiles
  inode := fun d hd => h'.inode d (h.inode d hd)
  length := fun i => Nat.le_trans (h.length i) (h'.length i)

theorem Files.grows {v v' : Vfs} (h : Files v) (hgrows : Grows v v') : Files v' where
  dentry := fun f d hd => hgrows.inode d (h.dentry f d (by rwa [← hgrows.openFiles]))
  pos := fun f i hi => by
    rw [hgrows.openFiles] at hi ⊢
    exact Nat.le_trans (h.pos f i hi) (hgrows.length i)
  ops := fun f => by
    rw [hgrows.openFiles]
    exact h.ops f

/-- The name of a new file is not among the directories on its own path. -/
def NewName (path : Bytes) : Prop :=
  ∀ i, lastSlash (stripSlash path) = some i →
    (basename (stripSlash path)).take (fnameMax - 1) ∉ components (stripSlash ((stripSlash path).take i))

/-- No free slot of a dentry has the name. -/
def Unlisted (v : Vfs) (name : Bytes) : Prop := ∀ d, v.dentryUsed d = false → (v.dentries d).name ≠ name

/-! ### A new dentry -/

/-- The slots `d` and `ino` taken for a dentry of this name. -/
def plant (v : Vfs) (d : Fin maxDentries) (ino : Fin maxInodes) (name : Bytes) : Vfs :=
  { v with
    dentryUsed := Function.update v.dentryUsed d true
    dentries := Function.update v.dentries d { name, inode := some ino }
    inodeUsed := Function.update v.inodeUsed ino true
    inodes := Function.update v.inodes ino { ino := v.inodeNext }
    inodeNext := v.inodeNext + 1 }

/-- The new dentry under its parent. -/
def link (v : Vfs) (d : Fin maxDentries) (ino : Fin maxInodes) (name : Bytes) (p : Fin maxDentries) : Vfs :=
  { v.plant d ino name with
    dentries := Function.update (Function.update v.dentries d { name, inode := some ino, parent := some p }) p
      (Dentry.adopt d (v.dentries p)) }

section Plant

variable {v : Vfs} {k : Nat} {d p : Fin maxDentries} {ino : Fin maxInodes} {name : Bytes}

theorem find_dentry (h : Taken v k) (hk : k < maxDentries) :
    Table.find? v.dentryUsed (fun used => !used) = some ⟨k, hk⟩ := by
  refine Table.find?_first (fun i => ?_) hk
  rw [Bool.not_eq_true', ← Bool.not_eq_true, h.dentries, Nat.not_lt]

theorem find_inode (h : Taken v k) (hk : k < maxInodes) :
    Table.find? v.inodeUsed (fun used => !used) = some ⟨k, hk⟩ := by
  refine Table.find?_first (fun i => ?_) hk
  rw [Bool.not_eq_true', ← Bool.not_eq_true, h.inodes, Nat.not_lt]

theorem plant_self : (v.plant d ino name).dentries d = { name, inode := some ino } := Function.update_self _ _ _

theorem plant_of_ne {e : Fin maxDentries} (h : e ≠ d) : (v.plant d ino name).dentries e = v.dentries e :=
  Function.update_of_ne h _ _

/-- Nothing else hangs below a new dentry. -/
theorem tree_plant (h : Tree v k) (hd : d.val = k) : Tree (v.plant d ino name) k where
  root := by
    obtain ⟨r, hr, hlt, hinode⟩ := h.root
    refine ⟨r, hr, hlt, ?_⟩
    have hne : r ≠ d := fun heq => by omega
    rw [plant_of_ne hne]
    exact hinode
  named := fun e he => by
    by_cases hne : e = d
    · rw [hne, plant_self] at he
      cases he
    · rw [plant_of_ne hne] at he ⊢
      exact h.named e he
  parents := fun e p hp => by
    by_cases hne : e = d
    · rw [hne, plant_self] at hp
      cases hp
    · rw [plant_of_ne hne] at hp
      exact h.parents e p hp
  children := fun e c hc => by
    by_cases hne : e = d
    · rw [hne, plant_self] at hc
      cases hc
    · rw [plant_of_ne hne] at hc
      exact h.children e c hc
  jail := fun e he => by
    by_cases hne : e = d
    · rw [hne, plant_self]
      rfl
    · rw [plant_of_ne hne]
      exact h.jail e he

theorem mem_adopt {c : Fin maxDentries} {e : Dentry} (h : some c ∈ (Dentry.adopt d e).children) :
    some c ∈ e.children ∨ c = d := by
  rw [Dentry.adopt] at h
  split at h
  · rcases List.mem_append.mp h with h | h
    · exact Or.inl h
    · exact Or.inr (Option.some.inj (List.mem_singleton.mp h))
  · exact Or.inl h

theorem adopt_inode (e : Dentry) : (Dentry.adopt d e).inode = e.inode := by
  rw [Dentry.adopt]
  split <;> rfl

theorem adopt_name (e : Dentry) : (Dentry.adopt d e).name = e.name := by
  rw [Dentry.adopt]
  split <;> rfl

theorem adopt_parent (e : Dentry) : (Dentry.adopt d e).parent = e.parent := by
  rw [Dentry.adopt]
  split <;> rfl

/-- The dentries after `link`: the new one, its parent, and the others. -/
theorem link_self (hne : p ≠ d) : (v.link d ino name p).dentries d = { name, inode := some ino, parent := some p } :=
  (Function.update_of_ne hne.symm _ _).trans (Function.update_self _ _ _)

theorem link_parent : (v.link d ino name p).dentries p = Dentry.adopt d (v.dentries p) :=
  Function.update_self _ _ _

theorem link_of_ne {e : Fin maxDentries} (hd : e ≠ d) (hp : e ≠ p) :
    (v.link d ino name p).dentries e = v.dentries e :=
  (Function.update_of_ne hp _ _).trans (Function.update_of_ne hd _ _)

/-- Apart from the new one, the dentries keep all but their children. -/
theorem link_old {e : Fin maxDentries} (hd : e ≠ d) :
    ((v.link d ino name p).dentries e).inode = (v.dentries e).inode ∧
      ((v.link d ino name p).dentries e).name = (v.dentries e).name ∧
        ((v.link d ino name p).dentries e).parent = (v.dentries e).parent := by
  by_cases hp : e = p
  · rw [hp, link_parent]
    exact ⟨adopt_inode _, adopt_name _, adopt_parent _⟩
  · rw [link_of_ne hd hp]
    exact ⟨rfl, rfl, rfl⟩

theorem tree_link (h : Tree v k) (hd : d.val = k) (hp : p.val < k) : Tree (v.link d ino name p) k := by
  have hne : p ≠ d := fun heq => by omega
  constructor
  case root =>
    obtain ⟨r, hr, hlt, hinode⟩ := h.root
    have hrd : r ≠ d := fun heq => by omega
    exact ⟨r, hr, hlt, by rw [(link_old hrd).1]; exact hinode⟩
  case named =>
    intro e he
    by_cases hed : e = d
    · rw [hed, link_self hne] at he
      cases he
    · rw [(link_old hed).1] at he
      rw [(link_old hed).2.1]
      exact h.named e he
  case parents =>
    intro e q hq
    by_cases hed : e = d
    · rw [hed, link_self hne] at hq
      cases hq
      omega
    · rw [(link_old hed).2.2] at hq
      exact h.parents e q hq
  case children =>
    intro e c hc
    by_cases hed : e = d
    · rw [hed, link_self hne] at hc
      cases hc
    · by_cases hep : e = p
      · rw [hep, link_parent] at hc
        rcases mem_adopt hc with hc | rfl
        · exact h.children p c hc
        · exact Nat.le_of_eq hd
      · rw [link_of_ne hed hep] at hc
        exact h.children e c hc
  case jail =>
    intro e he
    by_cases hed : e = d
    · rw [hed, link_self hne]
      rfl
    · rw [(link_old hed).1]
      exact h.jail e he

theorem taken_update {n : Nat} {used : Fin n → Bool} {i : Fin n} (h : ∀ j, used j = true ↔ j.val < k)
    (hi : i.val = k) (j : Fin n) : Function.update used i true j = true ↔ j.val < k + 1 := by
  by_cases hj : j = i
  · subst hj
    rw [Function.update_self]
    exact iff_of_true rfl (by omega)
  · rw [Function.update_of_ne hj, h j]
    have hne : j.val ≠ k := fun heq => hj (Fin.ext (heq.trans hi.symm))
    omega

/-- The inodes after `link`: a new one, and the others. -/
theorem link_inode : (v.link d ino name p).inodes ino = { ino := v.inodeNext } := Function.update_self _ _ _

theorem link_inode_of_ne {i : Fin maxInodes} (h : i ≠ ino) : (v.link d ino name p).inodes i = v.inodes i :=
  Function.update_of_ne h _ _

theorem unused_link (h : Taken v k) (i : Fin maxInodes) (hk : k ≤ i.val) :
    ∃ n, (v.link d ino name p).inodes i = { ino := n } := by
  by_cases hie : i = ino
  · rw [hie]
    exact ⟨_, link_inode⟩
  · rw [link_inode_of_ne hie]
    exact h.unused i hk

theorem taken_link (h : Taken v k) (hd : d.val = k) (hi : ino.val = k) : Taken (v.link d ino name p) (k + 1) where
  dentries := taken_update h.dentries hd
  inodes := taken_update h.inodes hi
  unused := fun i hk => unused_link h i (Nat.le_of_succ_le hk)

theorem contents_link (h : Contents v) : Contents (v.link d ino name p) := by
  refine ⟨fun i => ?_, fun i => ?_, fun i => ?_, h.cap⟩ <;> by_cases hie : i = ino
  · rw [hie, link_inode]
    exact fun heq => by cases heq
  · rw [link_inode_of_ne hie]
    exact h.ops i
  · rw [hie, link_inode]
    exact Nat.zero_le _
  · rw [link_inode_of_ne hie]
    exact h.size i
  · rw [hie, link_inode]
    exact Nat.zero_le _
  · rw [link_inode_of_ne hie]
    exact h.charged i

theorem grows_link (h : Taken v k) (hi : ino.val = k) (hne : p ≠ d) : Grows v (v.link d ino name p) where
  openFiles := rfl
  inode := fun e he => by
    by_cases hed : e = d
    · rw [hed, link_self hne]
      rfl
    · rw [(link_old hed).1]
      exact he
  length := fun i => by
    by_cases hie : i = ino
    · obtain ⟨n, hn⟩ := h.unused ino (Nat.le_of_eq hi.symm)
      rw [hie, hn]
      exact Nat.zero_le _
    · rw [link_inode_of_ne hie]

theorem sound_link (h : Sound v k) (hd : d.val = k) (hi : ino.val = k) (hp : p.val < k) :
    Sound (v.link d ino name p) (k + 1) where
  taken := taken_link h.taken hd hi
  tree := (tree_link h.tree hd hp).mono (Nat.le_succ k)
  contents := contents_link h.contents

/-- A new inode of the file system gets its mode and its operations. -/
theorem sound_setInode {inode : Inode} (h : Sound v k) (hk : ino.val < k) (hops : inode.ops ≠ some .pipe)
    (hsize : inode.size ≤ dataLength inode) (hcharged : dataLength inode ≤ v.fsUsedBytes) :
    Sound { v with inodes := Function.update v.inodes ino inode } k where
  taken := ⟨h.taken.dentries, h.taken.inodes, fun i hi => by
    have hne : i ≠ ino := fun heq => by omega
    dsimp only
    rw [Function.update_of_ne hne]
    exact h.taken.unused i hi⟩
  tree := ⟨h.tree.root, h.tree.named, h.tree.parents, h.tree.children, h.tree.jail⟩
  contents := by
    refine ⟨fun i => ?_, fun i => ?_, fun i => ?_, h.contents.cap⟩ <;> dsimp only <;> by_cases hi : i = ino
    · rw [hi, Function.update_self]
      exact hops
    · rw [Function.update_of_ne hi]
      exact h.contents.ops i
    · rw [hi, Function.update_self]
      exact hsize
    · rw [Function.update_of_ne hi]
      exact h.contents.size i
    · rw [hi, Function.update_self]
      exact hcharged
    · rw [Function.update_of_ne hi]
      exact h.contents.charged i

theorem grows_setInode {inode : Inode} (h : dataLength (v.inodes ino) ≤ dataLength inode) :
    Grows v { v with inodes := Function.update v.inodes ino inode } where
  openFiles := rfl
  inode := fun _ h => h
  length := fun i => by
    dsimp only
    by_cases hi : i = ino
    · rw [hi, Function.update_self]
      exact h
    · rw [Function.update_of_ne hi]

end Plant

/-! ### What boot and the kernel do -/

/-- The slot `d` taken, with an empty dentry. -/
def reserve (v : Vfs) (d : Fin maxDentries) : Vfs :=
  { v with dentryUsed := Function.update v.dentryUsed d true, dentries := Function.update v.dentries d {} }

/-- Both slots taken, with an empty dentry. -/
def alloc (v : Vfs) (d : Fin maxDentries) (ino : Fin maxInodes) : Vfs :=
  { v with
    dentryUsed := Function.update v.dentryUsed d true
    dentries := Function.update v.dentries d {}
    inodeUsed := Function.update v.inodeUsed ino true
    inodes := Function.update v.inodes ino { ino := v.inodeNext }
    inodeNext := v.inodeNext + 1 }

section Alloc

variable {v : Vfs} {k : Nat} {d p : Fin maxDentries} {ino : Fin maxInodes} {name : Bytes}

theorem allocDentry_run (h : Table.find? v.dentryUsed (fun used => !used) = some d) :
    allocDentry v = (.ok (some d), v.reserve d) := by
  rw [allocDentry, Act.get_bind_run, h]
  rfl

theorem allocDentry_full (h : Table.find? v.dentryUsed (fun used => !used) = none) : allocDentry v = (.ok none, v) := by
  rw [allocDentry, Act.get_bind_run, h]
  rfl

/-- The inode of the new dentry; the count of inodes may run out. -/
theorem allocInode_run (h : Table.find? v.inodeUsed (fun used => !used) = some ino) (hnext : v.inodeNext + 1 < u32Bound) :
    allocInode (v.reserve d) = (.ok (some ino), v.alloc d ino) := by
  have hfind : Table.find? (v.reserve d).inodeUsed (fun used => !used) = some ino := h
  rw [allocInode, Act.get_bind_run, hfind]
  dsimp only
  rw [Act.modify_bind_run, reserve, castU32_of_lt hnext, Act.lift_ok_bind_run]
  rfl

theorem allocInode_trap (h : Table.find? v.inodeUsed (fun used => !used) = some ino) (hnext : ¬v.inodeNext + 1 < u32Bound) :
    (allocInode (v.reserve d)).1 = .trap := by
  have hfind : Table.find? (v.reserve d).inodeUsed (fun used => !used) = some ino := h
  rw [allocInode, Act.get_bind_run, hfind]
  dsimp only
  rw [Act.modify_bind_run, reserve, castU32_of_le (Nat.le_of_not_lt hnext), Act.lift_trap_bind_run]

theorem allocInode_full (h : Table.find? v.inodeUsed (fun used => !used) = none) :
    allocInode (v.reserve d) = (.ok none, v.reserve d) := by
  have hfind : Table.find? (v.reserve d).inodeUsed (fun used => !used) = none := h
  rw [allocInode, Act.get_bind_run, hfind]
  rfl

/-- The first free slots for a dentry and an inode, as far as there are any, and what is done with them. -/
theorem ensures_slots {β : Type} {none' : Run β} {noInode : Fin maxDentries → Run β}
    {f : Fin maxDentries → Fin maxInodes → Run β} {Q : β → Vfs → Prop}
    (hfull : Table.find? v.dentryUsed (fun used => !used) = none → Act.Ensures none' v Q (fun _ _ => False) True)
    (hnoInode : ∀ d, Table.find? v.dentryUsed (fun used => !used) = some d →
      Table.find? v.inodeUsed (fun used => !used) = none → Act.Ensures (noInode d) (v.reserve d) Q (fun _ _ => False) True)
    (hnew : ∀ d ino, Table.find? v.dentryUsed (fun used => !used) = some d →
      Table.find? v.inodeUsed (fun used => !used) = some ino →
        Act.Ensures (f d ino) (v.alloc d ino) Q (fun _ _ => False) True) :
    Act.Ensures (do
      let d ← allocDentry
      match d with
      | none => none'
      | some d => do
          let ino ← allocInode
          match ino with
          | none => noInode d
          | some ino => f d ino) v Q (fun _ _ => False) True := by
  cases hd : Table.find? v.dentryUsed (fun used => !used) with
  | none => exact Act.Ensures.run_bind (allocDentry_full hd) (hfull hd)
  | some d =>
      cases hi : Table.find? v.inodeUsed (fun used => !used) with
      | none =>
          apply Act.Ensures.run_bind (allocDentry_run hd)
          exact Act.Ensures.run_bind (allocInode_full hi) (hnoInode d hd hi)
      | some ino =>
          by_cases hnext : v.inodeNext + 1 < u32Bound
          · apply Act.Ensures.run_bind (allocDentry_run hd)
            exact Act.Ensures.run_bind (allocInode_run hi hnext) (hnew d ino hd hi)
          · apply Act.Ensures.of_traps
            rw [Act.bind_ok_run (allocDentry_run hd)]
            exact Act.bind_traps (allocInode_trap hi hnext)

/-- Where the slots are taken from the front, a new dentry and inode get the same. -/
theorem ensures_alloc {β : Type} {none' : Run β} {noInode : Fin maxDentries → Run β}
    {f : Fin maxDentries → Fin maxInodes → Run β} {Q : β → Vfs → Prop} (h : Taken v k)
    (hfull : Act.Ensures none' v Q (fun _ _ => False) True)
    (hnew : ∀ d ino, d.val = k → ino.val = k → Act.Ensures (f d ino) (v.alloc d ino) Q (fun _ _ => False) True) :
    Act.Ensures (do
      let d ← allocDentry
      match d with
      | none => none'
      | some d => do
          let ino ← allocInode
          match ino with
          | none => noInode d
          | some ino => f d ino) v Q (fun _ _ => False) True := by
  have hslot {n : Nat} {used : Fin n → Bool} (hused : ∀ j, used j = true ↔ j.val < k) {i : Fin n}
      (hi : Table.find? used (fun used => !used) = some i) : i.val = k := by
    have hk : k < n := by
      have hnot : used i = false := by simpa using Table.find?_some hi
      rw [← Bool.not_eq_true, hused i] at hnot
      omega
    rw [Table.find?_first (fun j => by rw [Bool.not_eq_true', ← Bool.not_eq_true, hused j, Nat.not_lt]) hk] at hi
    cases hi
    rfl
  refine ensures_slots (fun _ => hfull) (fun d hd hi => ?_) fun d ino hd hi => ?_
  · have hk := hslot h.dentries hd
    rw [find_inode h (show k < maxInodes from hk ▸ d.isLt)] at hi
    cases hi
  · exact hnew d ino (hslot h.dentries hd) (hslot h.inodes hi)

/-- The name and the inode of the new dentry. -/
theorem ensures_plant {β : Type} {n : Bytes} {f : Run β} {Q : β → Vfs → Prop} {E : Spins → Vfs → Prop} {T : Prop}
    (h : Act.Ensures f (v.plant d ino (n.take (fnameMax - 1))) Q E T) :
    Act.Ensures (do
      updateDentry d (Dentry.named n)
      updateDentry d fun dentry => { dentry with inode := some ino }
      f) (v.alloc d ino) Q E T := by
  apply Act.Ensures.modify_bind
  apply Act.Ensures.modify_bind
  simp only [alloc, Dentry.named, Function.update_self, Function.update_idem]
  exact h

/-- The new dentry under its parent. -/
theorem attach_run (hne : p ≠ d) :
    attach d (some p) (v.plant d ino name) = (.ok (), v.link d ino name p) := by
  have hrun : attach d (some p) (v.plant d ino name) = (.ok (), { v.plant d ino name with
      dentries := Function.update (Function.update (v.plant d ino name).dentries d
        { (v.plant d ino name).dentries d with parent := some p }) p
          (Dentry.adopt d (Function.update (v.plant d ino name).dentries d
            { (v.plant d ino name).dentries d with parent := some p } p)) }) := rfl
  rw [hrun, plant_self, Function.update_of_ne hne, plant_of_ne hne]
  simp only [link, plant, Function.update_idem]

end Alloc

/-- What an addition leaves; `left` is the name that a free slot may be left with. -/
structure Added (v : Vfs) (left : Option Bytes) (v' : Vfs) : Prop where
  sound : ∃ k, Sound v' k
  grows : Grows v v'
  unlisted : ∀ n, left ≠ some n → Unlisted v n → Unlisted v' n

section Added

variable {v : Vfs} {k : Nat} {d p : Fin maxDentries} {ino : Fin maxInodes} {name : Bytes} {left : Option Bytes}

theorem Added.refl (h : Sound v k) : Added v left v := ⟨⟨k, h⟩, .refl v, fun _ _ h => h⟩

theorem unlisted_link {n : Bytes} (h : Unlisted v n) : Unlisted (v.link d ino name p) n := by
  intro e he
  have hused : (v.link d ino name p).dentryUsed = Function.update v.dentryUsed d true := rfl
  rw [hused] at he
  by_cases hed : e = d
  · rw [hed, Function.update_self] at he
    cases he
  · rw [Function.update_of_ne hed] at he
    rw [(link_old hed).2.1]
    exact h e he

theorem added_link (h : Sound v k) (hd : d.val = k) (hi : ino.val = k) (hp : p.val < k) :
    Added v left (v.link d ino name p) where
  sound := ⟨k + 1, sound_link h hd hi hp⟩
  grows := grows_link h.taken hi fun heq => by omega
  unlisted := fun _ _ hn => unlisted_link hn

theorem Added.setInode {v' : Vfs} {inode : Inode} {n : Nat} (h : Added v left v') (hsound : Sound v' n)
    (hn : ino.val < n) (hops : inode.ops ≠ some .pipe) (hsize : inode.size ≤ dataLength inode)
    (hcharged : dataLength inode ≤ v'.fsUsedBytes) (hlength : dataLength (v'.inodes ino) ≤ dataLength inode) :
    Added v left { v' with inodes := Function.update v'.inodes ino inode } where
  sound := ⟨n, sound_setInode hsound hn hops hsize hcharged⟩
  grows := h.grows.trans (grows_setInode hlength)
  unlisted := h.unlisted

/-- The count of buffers does not matter. -/
theorem Added.buffers {v' : Vfs} {buffers : Nat} (h : Added v left v') : Added v left { v' with buffers } where
  sound := by
    obtain ⟨k, hk⟩ := h.sound
    exact ⟨k, ⟨hk.taken.dentries, hk.taken.inodes, hk.taken.unused⟩,
      ⟨hk.tree.root, hk.tree.named, hk.tree.parents, hk.tree.children, hk.tree.jail⟩,
      ⟨hk.contents.ops, hk.contents.size, hk.contents.charged, hk.contents.cap⟩⟩
  grows := ⟨h.grows.openFiles, h.grows.inode, h.grows.length⟩
  unlisted := h.unlisted

/-- The slots given back: the dentry stays a child, of the first free slot. -/
def unlink (v : Vfs) (d : Fin maxDentries) (ino : Fin maxInodes) (name : Bytes) (p : Fin maxDentries) : Vfs :=
  { v.link d ino name p with
    dentryUsed := Function.update v.dentryUsed d false, inodeUsed := Function.update v.inodeUsed ino false }

theorem untaken {n : Nat} {used : Fin n → Bool} {i : Fin n} (h : ∀ j, used j = true ↔ j.val < k)
    (hi : i.val = k) (j : Fin n) : Function.update used i false j = true ↔ j.val < k := by
  by_cases hj : j = i
  · subst hj
    rw [Function.update_self]
    exact iff_of_false Bool.false_ne_true (by omega)
  · rw [Function.update_of_ne hj, h j]

theorem added_unlink (h : Sound v k) (hd : d.val = k) (hi : ino.val = k) (hp : p.val < k) :
    Added v (some name) (v.unlink d ino name p) where
  sound := by
    have htree : Tree (v.link d ino name p) k := tree_link h.tree hd hp
    have hcontents : Contents (v.link d ino name p) := contents_link h.contents
    have hunused : ∀ i : Fin maxInodes, k ≤ i.val → ∃ n, (v.link d ino name p).inodes i = { ino := n } :=
      unused_link h.taken
    exact ⟨k, ⟨untaken h.taken.dentries hd, untaken h.taken.inodes hi, hunused⟩,
      ⟨htree.root, htree.named, htree.parents, htree.children, htree.jail⟩,
      ⟨hcontents.ops, hcontents.size, hcontents.charged, hcontents.cap⟩⟩
  grows := by
    have hgrows : Grows v (v.link d ino name p) := grows_link h.taken hi fun heq => by omega
    exact ⟨hgrows.openFiles, hgrows.inode, hgrows.length⟩
  unlisted := fun n hn hv e he => by
    by_cases hed : e = d
    · have hself : ((v.unlink d ino name p).dentries d).name = name :=
        congrArg Dentry.name (link_self fun heq => by omega)
      rw [hed, hself]
      exact fun heq => hn (congrArg some heq)
    · have hsame : ((v.unlink d ino name p).dentries e).name = (v.dentries e).name := (link_old hed).2.1
      have hused : (v.unlink d ino name p).dentryUsed = Function.update v.dentryUsed d false := rfl
      rw [hused, Function.update_of_ne hed] at he
      rw [hsame]
      exact hv e he

theorem ensures_fsCharge (n : Nat) : Act.Ensures (fsCharge n) v
    (fun b v' => b = false ∧ fsCapBytes < v.fsUsedBytes + n ∧ v' = v ∨
      b = true ∧ v.fsUsedBytes + n ≤ fsCapBytes ∧ v' = { v with fsUsedBytes := v.fsUsedBytes + n })
    (fun _ _ => False) True := by
  by_cases hfits : v.fsUsedBytes + n < u64Bound
  · rw [Act.Ensures, fsCharge, Act.get_bind_run, addU64_of_lt hfits, Act.lift_ok_bind_run]
    by_cases hcap : v.fsUsedBytes + n > fsCapBytes
    · rw [if_pos hcap]
      exact Or.inl ⟨rfl, hcap, rfl⟩
    · rw [if_neg hcap]
      exact Or.inr ⟨rfl, Nat.le_of_not_lt hcap, rfl⟩
  · apply Act.Ensures.of_traps
    rw [fsCharge, Act.get_bind_run, addU64_of_le (Nat.le_of_not_lt hfits), Act.lift_trap_bind_run]

theorem sound_charge {n : Nat} (h : Sound v k) (hcap : v.fsUsedBytes + n ≤ fsCapBytes) :
    Sound { v with fsUsedBytes := v.fsUsedBytes + n } k where
  taken := ⟨h.taken.dentries, h.taken.inodes, h.taken.unused⟩
  tree := ⟨h.tree.root, h.tree.named, h.tree.parents, h.tree.children, h.tree.jail⟩
  contents := ⟨h.contents.ops, h.contents.size,
    fun i => Nat.le_trans (h.contents.charged i) (Nat.le_add_right _ _), hcap⟩

theorem ensures_fillFile (h : Sound v k) (hd : d.val = k) (hi : ino.val = k) (hp : p.val < k) (content : Bytes) :
    Act.Ensures (fillFile d ino content) (v.link d ino name p) (fun _ => Added v (some name))
      (fun _ _ => False) True := by
  have hback : Added v (some name) (v.unlink d ino name p) := added_unlink h hd hi hp
  have hunlink : { v.link d ino name p with
      dentryUsed := Function.update (v.link d ino name p).dentryUsed d false
      inodeUsed := Function.update (v.link d ino name p).inodeUsed ino false } = v.unlink d ino name p := by
    simp only [unlink, link, plant, Function.update_idem]
  refine Act.Ensures.bind (ensures_fsCharge content.length) fun charged x hcharge => ?_
  rcases hcharge with ⟨rfl, -, rfl⟩ | ⟨rfl, hcap, rfl⟩
  · have hrun : Added v (some name) { v.link d ino name p with
        dentryUsed := Function.update (v.link d ino name p).dentryUsed d false
        inodeUsed := Function.update (v.link d ino name p).inodeUsed ino false } := by rwa [hunlink]
    exact hrun
  · rw [if_neg (not_not.mpr rfl)]
    refine Act.Ensures.get_bind (Act.Ensures.ite (fun _ => ?_) fun _ => ?_)
    · have hrun : Added v (some name) { v.link d ino name p with
          dentryUsed := Function.update (v.link d ino name p).dentryUsed d false
          inodeUsed := Function.update (v.link d ino name p).inodeUsed ino false
          fsUsedBytes := (v.link d ino name p).fsUsedBytes + content.length - content.length } := by
        rw [Nat.add_sub_cancel, hunlink]
        exact hback
      exact hrun
    · have hne : p ≠ d := fun heq => by omega
      have hsound := sound_charge (@sound_link _ _ _ _ _ name h hd hi hp) hcap
      have hadded : Added v (some name) { v.link d ino name p with
          fsUsedBytes := (v.link d ino name p).fsUsedBytes + content.length } :=
        ⟨⟨k + 1, hsound⟩, (grows_link h.taken hi hne).trans ⟨rfl, fun _ h => h, fun _ => Nat.le_refl _⟩,
          fun n _ hn => unlisted_link hn⟩
      refine (hadded.setInode hsound (by omega) (fun hops => by cases hops) (Nat.le_refl _) ?_ ?_).buffers
      · exact Nat.le_add_left _ _
      · dsimp only
        rw [link_inode]
        exact Nat.zero_le _

/-- The parent of a new dentry stands in front of it. -/
theorem parentOf_ok (h : Sound v k) (hd : d.val = k) {path : Bytes} (hnew : NewName path) :
    ∃ p, (v.plant d ino ((basename (stripSlash path)).take (fnameMax - 1))).parentOf (stripSlash path) = .ok (some p) ∧
      p.val < k := by
  have htree : Tree (v.plant d ino ((basename (stripSlash path)).take (fnameMax - 1))) k := tree_plant h.tree hd
  obtain ⟨r, hr, hlt, -⟩ := htree.root
  rw [parentOf]
  split
  · exact ⟨r, congrArg Outcome.ok hr, hlt⟩
  · next i hi =>
    split
    · exact ⟨r, congrArg Outcome.ok hr, hlt⟩
    · rw [lookup, root_eq hr, Outcome.ok_bind, Outcome.pure_eq, Outcome.ok_bind, hr]
      cases hfind : (v.plant d ino ((basename (stripSlash path)).take (fnameMax - 1))).lookupPath r
          ((stripSlash path).take i) with
      | none => exact ⟨r, rfl, hlt⟩
      | some q =>
          refine ⟨q, rfl, ?_⟩
          have hused : ∀ e, (v.plant d ino ((basename (stripSlash path)).take (fnameMax - 1))).dentryUsed e = true →
              e.val ≤ k := fun e he => Nat.le_of_lt_succ ((taken_update h.taken.dentries hd e).mp he)
          have hle := lookupPath_le htree hused (Nat.le_of_lt hlt) hfind
          rcases lookupPath_name hfind with rfl | hname
          · exact hlt
          · refine Nat.lt_of_le_of_ne hle fun heq => hnew i hi ?_
            have hqd : q = d := Fin.ext (heq.trans hd.symm)
            rwa [hqd, plant_self] at hname

theorem ensures_createFile (h : Sound v k) {path : Bytes} (hnew : NewName path) (content : Bytes) :
    Act.Ensures (createFile path content) v
      (fun _ => Added v (some ((basename (stripSlash path)).take (fnameMax - 1)))) (fun _ _ => False) True := by
  refine ensures_alloc h.taken (.refl h) fun d ino hd hi => ?_
  obtain ⟨p, hparent, hp⟩ := @parentOf_ok _ _ _ ino h hd _ hnew
  have hne : p ≠ d := fun heq => by omega
  refine ensures_plant (Act.Ensures.get_bind ?_)
  rw [hparent]
  apply Act.Ensures.run_bind (Act.lift_run _ _)
  exact Act.Ensures.run_bind (attach_run hne) (ensures_fillFile h hd hi hp content)

/-- The new dentry has an inode. -/
theorem ensures_mkdirat (h : Sound v k) (path : Bytes) (mode : Nat) :
    Act.Ensures (mkdiratImpl path mode) v
      (fun r v' => Added v none v' ∧ ∀ d, r = some d → (v'.dentries d).inode.isSome = true) (fun _ _ => False) True := by
  refine ensures_alloc h.taken ⟨.refl h, fun d hd => by cases hd⟩ fun d ino hd hi => ?_
  obtain ⟨r, hr, hlt, -⟩ := h.tree.root
  have hroot : (v.plant d ino ((stripSlash path).take (fnameMax - 1))).rootDentry = some r := hr
  have hne : r ≠ d := fun heq => by omega
  refine ensures_plant (Act.Ensures.get_bind ?_)
  rw [hroot]
  refine Act.Ensures.run_bind (attach_run hne) ⟨?_, fun e he => ?_⟩
  · refine (added_link h hd hi hlt).setInode (sound_link h hd hi hlt) (by omega) (fun hops => by cases hops) ?_ ?_ ?_
    · dsimp only
      rw [link_inode]
      exact Nat.le_refl _
    · rw [dataLength, link_inode]
      exact Nat.zero_le _
    · exact Nat.le_refl _
  · cases he
    have hself : ((v.link d ino ((stripSlash path).take (fnameMax - 1)) r).dentries d).inode = some ino :=
      congrArg Dentry.inode (link_self hne)
    exact Option.isSome_of_eq_some hself

/-- A device stands under the directory of devices, which no free slot is left with. -/
theorem ensures_register (h : Sound v k) (hdev : Unlisted v (Json.ascii "dev")) (name : Bytes) {ops : FileOps}
    (hops : ops ≠ .pipe) :
    Act.Ensures (devtmpfsRegister name ops) v (fun _ => Added v none) (fun _ _ => False) True := by
  obtain ⟨r, hr, hlt, -⟩ := h.tree.root
  refine Act.Ensures.get_bind ?_
  rw [root_eq hr]
  apply Act.Ensures.run_bind (Act.lift_run _ _)
  split
  · exact .refl h
  · next p hp =>
    refine ensures_alloc h.taken (.refl h) fun d ino hd hi => ?_
    have hused : ∀ e, v.dentryUsed e = true → e.val ≤ k := fun e he => Nat.le_of_lt ((h.taken.dentries e).mp he)
    have hle := lookupPath_le h.tree hused (Nat.le_of_lt hlt) hp
    have hpk : p.val < k := by
      rcases lookupPath_name hp with rfl | hname
      · exact hlt
      · refine Nat.lt_of_le_of_ne hle fun heq => ?_
        have hfree : v.dentryUsed p = false := by
          rw [← Bool.not_eq_true, h.taken.dentries, heq]
          exact Nat.lt_irrefl k
        have hcomponents : components (stripSlash (Json.ascii "dev")) = [Json.ascii "dev"] := by decide
        rw [hcomponents, List.mem_singleton] at hname
        exact hdev p hfree hname
    have hne : p ≠ d := fun heq => by omega
    have hadded : Added v none { v.link d ino (name.take (fnameMax - 1)) p with
        inodes := Function.update (v.link d ino (name.take (fnameMax - 1)) p).inodes ino
          { ino := v.inodeNext, mode := 0o666, ops := some ops } } := by
      refine (added_link h hd hi hpk).setInode (sound_link h hd hi hpk) (by omega) ?_ (Nat.le_refl _) (Nat.zero_le _) ?_
      · exact fun heq => hops (Option.some.inj heq)
      · rw [link_inode]
        exact Nat.le_refl _
    simpa only [Act.Ensures, updateDentry, updateInode, Act.modify_bind_run, Act.pure_run, alloc, Dentry.named,
      Function.update_self, Function.update_idem, Function.update_of_ne hne, link, plant] using hadded

/-- A jail is a dentry with an inode. -/
theorem Sound.setJail (h : Sound v k) (hd : (v.dentries d).inode.isSome = true) :
    Sound { v with jailRoot := some d } k where
  taken := ⟨h.taken.dentries, h.taken.inodes, h.taken.unused⟩
  tree := ⟨h.tree.root, h.tree.named, h.tree.parents, h.tree.children, fun e he => by
    cases he
    exact hd⟩
  contents := ⟨h.contents.ops, h.contents.size, h.contents.charged, h.contents.cap⟩

/-- `setJail` of a directory that is there, or that is made. -/
theorem ensures_setJail (h : Sound v k) (path : Bytes) :
    Act.Ensures (setJail path) v (fun _ v' => (∃ k, Sound v' k) ∧ Grows v v') (fun _ _ => False) True := by
  obtain ⟨r, hr, -, hinode⟩ := h.tree.root
  refine Act.Ensures.get_bind ?_
  rw [lookup, root_eq hr, Outcome.ok_bind, Outcome.pure_eq]
  apply Act.Ensures.run_bind (Act.lift_run _ _)
  split
  · next d hd => exact ⟨⟨k, h.setJail (lookupPath_inode h.tree hinode hd)⟩, rfl, fun _ h => h, fun _ => Nat.le_refl _⟩
  · refine (ensures_mkdirat h path 0o755).bind fun created v' hmade => ?_
    obtain ⟨hadded, hd⟩ := hmade
    obtain ⟨n, hn⟩ := hadded.sound
    cases created with
    | none => exact ⟨⟨n, hn⟩, hadded.grows⟩
    | some d =>
        exact ⟨⟨n, hn.setJail (hd d rfl)⟩, hadded.grows.trans ⟨rfl, fun _ h => h, fun _ => Nat.le_refl _⟩⟩

end Added

/-! ### Boot -/

/-- What holds of the file system after each step of boot. -/
structure Booted (v : Vfs) : Prop where
  sound : ∃ k, Sound v k
  unlisted : Unlisted v (Json.ascii "dev")
  openFiles : v.openFiles = fun _ => {}

section Booted

variable {v : Vfs}

theorem Booted.added {v' : Vfs} {left : Option Bytes} (h : Booted v) (hadded : Added v left v')
    (hleft : left ≠ some (Json.ascii "dev")) : Booted v' where
  sound := hadded.sound
  unlisted := hadded.unlisted _ hleft h.unlisted
  openFiles := hadded.grows.openFiles.trans h.openFiles

theorem booted_createFile (h : Booted v) {path : Bytes} (hnew : NewName path) (content : Bytes)
    (hname : (basename (stripSlash path)).take (fnameMax - 1) ≠ Json.ascii "dev") :
    Act.Ensures (createFile path content) v (fun _ => Booted) (fun _ _ => False) True := by
  obtain ⟨k, hk⟩ := h.sound
  refine (ensures_createFile hk hnew content).mono (fun r v' hadded => ?_) (fun _ _ h => h) fun h => h
  exact h.added hadded fun heq => hname (Option.some.inj heq)

theorem booted_mkdirat (h : Booted v) (path : Bytes) (mode : Nat) :
    Act.Ensures (mkdiratImpl path mode) v (fun _ => Booted) (fun _ _ => False) True := by
  obtain ⟨k, hk⟩ := h.sound
  refine (ensures_mkdirat hk path mode).mono (fun r v' hadded => ?_) (fun _ _ h => h) fun h => h
  exact h.added hadded.1 fun heq => by cases heq

theorem booted_register (h : Booted v) (name : Bytes) {ops : FileOps} (hops : ops ≠ .pipe) :
    Act.Ensures (devtmpfsRegister name ops) v (fun _ => Booted) (fun _ _ => False) True := by
  obtain ⟨k, hk⟩ := h.sound
  refine (ensures_register hk h.unlisted name hops).mono (fun r v' hadded => ?_) (fun _ _ h => h) fun h => h
  exact h.added hadded fun heq => by cases heq

/-- The file system before it has a root. -/
def blank (v : Vfs) : Vfs :=
  { pipes := v.pipes, pipeUsed := v.pipeUsed, available := v.available, buffers := v.buffers, freed := v.freed, fault := v.fault }

/-- The root alone. -/
def rooted (v : Vfs) (d : Fin maxDentries) (ino : Fin maxInodes) : Vfs :=
  { (plant { v.blank with rootDentry := some d } d ino [slash]) with
    inodes := Function.update (fun _ => {}) ino { ino := 1, mode := 0o755 } }

theorem taken_blank (v : Vfs) : Taken v.blank 0 where
  dentries := fun _ => iff_of_false Bool.false_ne_true (Nat.not_lt_zero _)
  inodes := fun _ => iff_of_false Bool.false_ne_true (Nat.not_lt_zero _)
  unused := fun _ _ => ⟨0, rfl⟩

theorem booted_rooted {d : Fin maxDentries} {ino : Fin maxInodes} (hd : d.val = 0) (hi : ino.val = 0) :
    Booted (v.rooted d ino) where
  sound := by
    have hself : (v.rooted d ino).dentries d = { name := [slash], inode := some ino } := Function.update_self _ _ _
    have hother : ∀ e, e ≠ d → (v.rooted d ino).dentries e = {} := fun e he => Function.update_of_ne he _ _
    have hinodes : (v.rooted d ino).inodes = Function.update (fun _ => ({} : Inode)) ino { ino := 1, mode := 0o755 } := rfl
    have hinode : (v.rooted d ino).inodes ino = { ino := 1, mode := 0o755 } := by rw [hinodes, Function.update_self]
    have hempty : ∀ i, i ≠ ino → (v.rooted d ino).inodes i = {} := fun i hi => by
      rw [hinodes, Function.update_of_ne hi]
    refine ⟨1, ⟨taken_update (taken_blank v).dentries hd, taken_update (taken_blank v).inodes hi, fun i h => ?_⟩,
      ⟨⟨d, rfl, by omega, by rw [hself]; rfl⟩, fun e he => ?_, fun e p hp => ?_, fun e c hc => ?_, fun e he => by cases he⟩,
      ⟨fun i => ?_, fun i => ?_, fun i => ?_, Nat.zero_le _⟩⟩
    · exact ⟨0, hempty i fun heq => by omega⟩
    · by_cases hed : e = d
      · rw [hed, hself] at he
        cases he
      · rw [hother e hed]
    · by_cases hed : e = d
      · rw [hed, hself] at hp
        cases hp
      · rw [hother e hed] at hp
        cases hp
    · by_cases hed : e = d
      · rw [hed, hself] at hc
        cases hc
      · rw [hother e hed] at hc
        cases hc
    all_goals
      by_cases hie : i = ino
      · rw [hie, hinode]
        first | exact Nat.zero_le _ | exact fun heq => by cases heq
      · rw [hempty i hie]
        first | exact Nat.zero_le _ | exact fun heq => by cases heq
  unlisted := fun e he => by
    by_cases hed : e = d
    · have hused : (v.rooted d ino).dentryUsed e = true := by
        rw [hed]
        exact Function.update_self _ _ _
      exact absurd (he.symm.trans hused) Bool.false_ne_true
    · have hother : (v.rooted d ino).dentries e = {} := Function.update_of_ne hed _ _
      rw [hother]
      decide
  openFiles := rfl

theorem initRoot_run (v : Vfs) : initRoot v.blank = (.ok (), v.rooted ⟨0, by decide⟩ ⟨0, by decide⟩) := by
  have hblank : Taken { v.blank with rootDentry := some ⟨0, by decide⟩ } 0 :=
    ⟨(taken_blank v).dentries, (taken_blank v).inodes, fun _ _ => ⟨0, rfl⟩⟩
  have hinode : allocInode { v.blank.reserve ⟨0, by decide⟩ with rootDentry := some ⟨0, by decide⟩ } =
      (.ok (some ⟨0, by decide⟩), alloc { v.blank with rootDentry := some ⟨0, by decide⟩ } ⟨0, by decide⟩ ⟨0, by decide⟩) :=
    allocInode_run (find_inode hblank (by decide)) (show 1 + 1 < u32Bound by decide)
  rw [initRoot, Act.bind_ok_run (allocDentry_run (find_dentry (taken_blank v) (by decide))), Act.modify_bind_run,
    Act.bind_ok_run hinode, Act.get_bind_run,
    root_eq (r := ⟨0, by decide⟩) rfl, Act.lift_ok_bind_run]
  simp only [updateInode, updateDentry, Act.modify_bind_run, Act.modify_run, alloc, blank, rooted, plant, Dentry.named,
    Function.update_self, Function.update_idem]
  rfl

theorem newName_of_none {path : Bytes} (h : lastSlash (stripSlash path) = none) : NewName path :=
  fun i hi => by
    rw [h] at hi
    cases hi

theorem newName_of_some {path : Bytes} {n : Nat} (h : lastSlash (stripSlash path) = some n)
    (hnew : (basename (stripSlash path)).take (fnameMax - 1) ∉ components (stripSlash ((stripSlash path).take n))) :
    NewName path := fun i hi => by
  rw [h] at hi
  cases hi
  exact hnew

theorem newName_hello : NewName (Json.ascii "/hello.txt") := newName_of_none (by decide)
theorem newName_hostname : NewName (Json.ascii "/etc/hostname") := newName_of_some (n := 3) (by decide) (by decide)
theorem newName_init : NewName (Json.ascii "/sbin/init") := newName_of_some (n := 4) (by decide) (by decide)

/-- Boot, when it gets through, leaves the tables in order. -/
theorem booted_init (v : Vfs) : Act.Ensures (init >>= fun _ => devtmpfsPopulate) v (fun _ => Booted) (fun _ _ => False) True := by
  have hinit : Act.Ensures init v (fun _ => Booted) (fun _ _ => False) True := by
    refine Act.Ensures.modify_bind (Act.Ensures.run_bind (initRoot_run v) ?_)
    refine (booted_createFile (booted_rooted rfl rfl) newName_hello _ (by decide)).bind fun _ v h => ?_
    refine (booted_createFile h newName_hostname _ (by decide)).bind fun _ v h => ?_
    refine (booted_mkdirat h _ _).bind fun _ v h => (booted_mkdirat h _ _).bind fun _ v h => ?_
    exact (booted_createFile h newName_init _ (by decide)).bind fun _ v h => h
  refine hinit.bind fun _ v h => ?_
  refine (booted_register h _ (by decide)).bind fun _ v h => (booted_register h _ (by decide)).bind fun _ v h => ?_
  refine (booted_register h _ (by decide)).bind fun _ v h => (booted_register h _ (by decide)).bind fun _ v h => ?_
  refine (booted_register h _ (by decide)).bind fun _ v h => (booted_register h _ (by decide)).bind fun _ v h => h

end Booted

end Vfs

end Kernel
