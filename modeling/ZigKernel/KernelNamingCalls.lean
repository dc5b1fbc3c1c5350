import ZigKernel.KernelNaming

/-! What `createFile`, `mkdiratImpl` and `linkat` leave, where the dentries are in order. -/

namespace Kernel.Naming

open Zig Vfs

/-- There is memory for so many bytes. -/
def Fits (v : Vfs) (n : Nat) : Prop := v.fsUsedBytes + n ≤ fsCapBytes ∧ v.available n = true

def NoSlot (v : Vfs) : Prop := (∀ d, v.dentryUsed d = true) ∨ ∀ i, v.inodeUsed i = true

/-- The directory of the path lists no more. -/
def Full (v : Vfs) (path : Bytes) : Prop := ∀ p, v.parentOf (stripSlash path) = .ok (some p) →
  Vfs.maxChildren ≤ (v.dentries p).children.length

/-- The first free slots. -/
structure Slots (v : Vfs) (d : Fin maxDentries) (ino : Fin maxInodes) : Prop where
  dentry : Table.find? v.dentryUsed (fun used => !used) = some d
  inode : Table.find? v.inodeUsed (fun used => !used) = some ino

/-- The dentry `d` has the inode `ino` and stands below `p`, and nothing else has changed but the marks of the slots. -/
structure Attached (v w : Vfs) (d p : Fin maxDentries) (ino : Fin maxInodes) (name : Bytes) : Prop where
  slots : Slots v d ino
  dentries : w.dentries = (v.link d ino name p).dentries
  root : w.rootDentry = v.rootDentry
  jail : w.jailRoot = v.jailRoot
  inodes : ∀ i, i ≠ ino → w.inodes i = v.inodes i

/-- A dentry with its inode is there. -/
structure Made (v w : Vfs) (d p : Fin maxDentries) (ino : Fin maxInodes) (name : Bytes) : Prop
    extends Attached v w d p ino name where
  used : w.dentryUsed = Function.update v.dentryUsed d true
  inodeUsed : w.inodeUsed = Function.update v.inodeUsed ino true

/-- The slots have been given back. -/
structure Revoked (v w : Vfs) (d p : Fin maxDentries) (ino : Fin maxInodes) (name : Bytes) : Prop
    extends Attached v w d p ino name where
  used : w.dentryUsed = v.dentryUsed
  inodeUsed : w.inodeUsed = v.inodeUsed

/-- So many more bytes are charged. -/
structure Charged (v w : Vfs) (n : Nat) : Prop where
  available : w.available = v.available
  used : w.fsUsedBytes = v.fsUsedBytes + n

/-- The name that a file gets. -/
def fileName (path : Bytes) : Bytes := (basename (stripSlash path)).take (fnameMax - 1)

/-- What `createFile` returns and leaves. -/
inductive CreateResult (v : Vfs) (path content : Bytes) : Option (Fin maxDentries) → Vfs → Prop where
  | noDentry (h : ∀ d, v.dentryUsed d = true) : CreateResult v path content none v
  | noInode {d : Fin maxDentries} {w : Vfs} (h : ∀ i, v.inodeUsed i = true) (hidden : Hidden v w d)
      (charged : Charged v w 0) : CreateResult v path content none w
  | noSpace {d p : Fin maxDentries} {ino : Fin maxInodes} {w : Vfs} (h : Revoked v w d p ino (fileName path))
      (parent : v.parentOf (stripSlash path) = .ok (some p)) (space : ¬Fits v content.length) :
      CreateResult v path content none w
  | made {d p : Fin maxDentries} {ino : Fin maxInodes} {w : Vfs} (h : Made v w d p ino (fileName path))
      (parent : v.parentOf (stripSlash path) = .ok (some p)) (space : Fits v content.length)
      (data : (w.inodes ino).data = some content) (charged : Charged v w content.length) :
      CreateResult v path content (some d) w

/-- What `mkdiratImpl` returns and leaves. -/
inductive MkdirResult (v : Vfs) (path : Bytes) : Option (Fin maxDentries) → Vfs → Prop where
  | noDentry (h : ∀ d, v.dentryUsed d = true) : MkdirResult v path none v
  | noInode {d : Fin maxDentries} {w : Vfs} (h : ∀ i, v.inodeUsed i = true) (hidden : Hidden v w d)
      (charged : Charged v w 0) : MkdirResult v path none w
  | made {d p : Fin maxDentries} {ino : Fin maxInodes} {w : Vfs} (root : v.rootDentry = some p)
      (h : Made v w d p ino ((stripSlash path).take (fnameMax - 1))) (charged : Charged v w 0) :
      MkdirResult v path (some d) w

/-- What `linkat` returns and leaves. -/
inductive LinkResult (v : Vfs) (newPath : Bytes) : Bool → Vfs → Prop where
  | refused : LinkResult v newPath false v
  | linked {d p old : Fin maxDentries} {w : Vfs} (root : v.rootDentry = some p) (used : v.dentryUsed old = true)
      (h : Placed v w d p false) (name : (w.dentries d).name = (stripSlash newPath).take (fnameMax - 1))
      (inode : (w.dentries d).inode = (v.dentries old).inode) (inodes : w.inodes = v.inodes)
      (inodeUsed : w.inodeUsed = v.inodeUsed) (jail : w.jailRoot = v.jailRoot) : LinkResult v newPath true w

section Slots

variable {v w : Vfs} {d p r : Fin maxDentries} {ino : Fin maxInodes} {name : Bytes}

theorem slot_free {n : Nat} {used : Fin n → Bool} {i : Fin n} (h : Table.find? used (fun used => !used) = some i) :
    used i = false := by simpa using Table.find?_some h

theorem slot_before {n : Nat} {used : Fin n → Bool} {i : Fin n} (h : Table.find? used (fun used => !used) = some i)
    (j : Fin n) (hj : j < i) : used j = true := by simpa using (Table.find?_eq_some_iff.mp h).2 j hj

theorem slot_full {n : Nat} {used : Fin n → Bool} (h : Table.find? used (fun used => !used) = none) (i : Fin n) :
    used i = true := by simpa using Table.find?_none.mp h i

theorem used_back {n : Nat} {used : Fin n → Bool} {i : Fin n} (h : used i = false) :
    Function.update (Function.update used i true) i false = used := by
  rw [Function.update_idem, ← h, Function.update_eq_self]

theorem reserve_self : (v.reserve d).dentries d = {} := Function.update_self _ _ _

/-- A slot that is taken and given back. -/
theorem hidden_reserve (hd : Table.find? v.dentryUsed (fun used => !used) = some d) (used : Bool) :
    Hidden v { v.reserve d with dentryUsed := Function.update (v.reserve d).dentryUsed d used } d where
  free := slot_free hd
  parent := fun _ => congrArg Dentry.parent reserve_self
  others := fun _ he => ⟨(Function.update_of_ne he _ _).trans (Function.update_of_ne he _ _), Function.update_of_ne he _ _⟩
  leaf := congrArg Dentry.children reserve_self
  used := fun _ => ⟨slot_before hd, congrArg Dentry.inode reserve_self⟩
  root := rfl
  jail := rfl
  inodes := fun _ _ => rfl
  inodeUsed := rfl

theorem hidden_leak (hd : Table.find? v.dentryUsed (fun used => !used) = some d) : Hidden v (v.reserve d) d := by
  have h := hidden_reserve hd true
  have hsame : { v.reserve d with dentryUsed := Function.update (v.reserve d).dentryUsed d true } = v.reserve d := by
    simp only [reserve, Function.update_idem]
  rwa [hsame] at h

/-- A dentry that no array lists. -/
theorem placed_reserve {x : Dentry} (hd : Table.find? v.dentryUsed (fun used => !used) = some d)
    (hp : v.dentryUsed p = true) (hparent : x.parent = some p) (hchildren : x.children = []) :
    Placed v { v.reserve d with dentries := Function.update v.dentries d x } d p false where
  free := slot_free hd
  before := slot_before hd
  used := rfl
  root := rfl
  above := hp
  parent := by
    dsimp only
    rw [Function.update_self, hparent]
  leaf := by
    dsimp only
    rw [Function.update_self, hchildren]
  kept := fun e he => by
    dsimp only
    rw [Function.update_of_ne he]
    exact ⟨rfl, rfl, rfl⟩
  children := fun e he => by
    rw [if_neg fun hall => Bool.false_ne_true hall.2]
    dsimp only
    rw [Function.update_of_ne he]

/-- A dentry that is not below anything yet does not change where the parent is found. -/
theorem parentOf_plant (hgood : Linked v) (hd : v.dentryUsed d = false) (hr : v.rootDentry = some r) (rel : Bytes) :
    (v.plant d ino name).parentOf rel = v.parentOf rel := by
  have hunseen : Unseen v (v.plant d ino name) d :=
    ⟨hd, fun _ => congrArg Dentry.parent plant_self, fun e he => ⟨Function.update_of_ne he _ _, plant_of_ne he⟩,
      congrArg Dentry.children plant_self⟩
  have hr' : (v.plant d ino name).rootDentry = some r := hr
  rw [parentOf_eq hr, parentOf_eq hr', hunseen.walk hgood]

theorem Linked.parentOf (hgood : Linked v) (rel : Bytes) : ∃ p, v.parentOf rel = .ok (some p) ∧ v.dentryUsed p = true := by
  obtain ⟨r, hr, hused, -⟩ := hgood.root
  rw [parentOf_eq hr]
  refine ⟨_, rfl, ?_⟩
  cases hwalk : Walks.walk v.lookupChild r (components (parentPath rel)) with
  | none => exact hused
  | some p => exact hgood.walk_used hr hwalk

theorem Slots.free (h : Slots v d ino) : v.dentryUsed d = false := slot_free h.dentry

theorem Slots.ne (h : Slots v d ino) (hp : v.dentryUsed p = true) : p ≠ d := by
  rintro rfl
  rw [h.free] at hp
  cases hp

theorem Slots.not_noSlot (h : Slots v d ino) : ¬NoSlot v := by
  rintro (hall | hall)
  · have hused := hall d
    rw [h.free] at hused
    cases hused
  · have hused := hall ino
    rw [slot_free h.inode] at hused
    cases hused

theorem attached_link (h : Slots v d ino) : Attached v (v.link d ino name p) d p ino name :=
  ⟨h, rfl, rfl, rfl, fun _ hi => link_inode_of_ne hi⟩

/-- `fillFile` after the dentry has been linked. -/
theorem fillFile_ensures {v x : Vfs} (h : Attached v x d p ino name) (hcharged : Charged v x 0)
    (hused : x.dentryUsed = Function.update v.dentryUsed d true)
    (hinode : x.inodeUsed = Function.update v.inodeUsed ino true) (content : Bytes) :
    Act.Ensures (fillFile d ino content) x (fun reply w =>
      reply = some d ∧ Fits v content.length ∧ Made v w d p ino name ∧ (w.inodes ino).data = some content ∧
          Charged v w content.length ∨
        reply = none ∧ ¬Fits v content.length ∧ Revoked v w d p ino name) (fun _ _ => False) True := by
  have hback : ∀ w : Vfs, w.dentries = x.dentries → w.rootDentry = x.rootDentry → w.jailRoot = x.jailRoot →
      w.inodes = x.inodes → w.dentryUsed = Function.update x.dentryUsed d false →
        w.inodeUsed = Function.update x.inodeUsed ino false → Revoked v w d p ino name := fun w hd hr hj hi hu hu' =>
    ⟨⟨h.slots, hd.trans h.dentries, hr.trans h.root, hj.trans h.jail, fun i hne => by rw [hi, h.inodes i hne]⟩,
      by rw [hu, hused, used_back h.slots.free], by rw [hu', hinode, used_back (slot_free h.slots.inode)]⟩
  have hspace : Fits v = Fits x := by
    funext n
    rw [Fits, Fits, hcharged.used, hcharged.available, Nat.add_zero]
  rw [hspace]
  refine Act.Ensures.bind (ensures_fsCharge content.length) fun charged y hcharge => ?_
  rcases hcharge with ⟨rfl, hcap, rfl⟩ | ⟨rfl, hcap, rfl⟩
  · exact Or.inr ⟨rfl, fun hfits => absurd hfits.1 (Nat.not_le_of_lt hcap), hback _ rfl rfl rfl rfl rfl rfl⟩
  · rw [if_neg (not_not.mpr rfl)]
    refine Act.Ensures.get_bind (Act.Ensures.ite (fun hno => ?_) fun hyes => ?_)
    · exact Or.inr ⟨rfl, fun hfits => hno hfits.2, hback _ rfl rfl rfl rfl rfl rfl⟩
    · refine Or.inl ⟨rfl, ⟨hcap, not_not.mp hyes⟩, ⟨⟨h.slots, h.dentries, h.root, h.jail, fun i hne => ?_⟩, hused, hinode⟩, ?_,
        hcharged.available, ?_⟩
      · exact (Function.update_of_ne hne _ _).trans (h.inodes i hne)
      · dsimp only
        rw [Function.update_self]
      · exact congrArg (· + content.length) hcharged.used

theorem createFile_ensures (hgood : Linked v) (path content : Bytes) :
    Act.Ensures (createFile path content) v (CreateResult v path content) (fun _ _ => False) True := by
  obtain ⟨r, hr, -⟩ := hgood.root
  refine ensures_slots (fun hd => ?_) (fun d hd hi => ?_) fun d ino hd hi => ?_
  · exact CreateResult.noDentry (slot_full hd)
  · exact CreateResult.noInode (slot_full hi) (hidden_reserve hd false) ⟨rfl, rfl⟩
  · have hslots : Slots v d ino := ⟨hd, hi⟩
    obtain ⟨p, hp, hused⟩ := hgood.parentOf (stripSlash path)
    refine ensures_plant (Act.Ensures.get_bind ?_)
    rw [parentOf_plant hgood hslots.free hr, hp]
    apply Act.Ensures.run_bind (Act.lift_run _ _)
    refine Act.Ensures.run_bind (attach_run (hslots.ne hused)) ?_
    refine (fillFile_ensures (attached_link hslots) ⟨rfl, rfl⟩ rfl rfl content).mono ?_ (fun _ _ h => h) fun h => h
    rintro reply w (⟨rfl, hspace, hmade, hdata, hcharged⟩ | ⟨rfl, hspace, hrevoked⟩)
    · exact .made hmade hp hspace hdata hcharged
    · exact .noSpace hrevoked hp hspace

theorem mkdirat_ensures (hgood : Linked v) (path : Bytes) (mode : Nat) :
    Act.Ensures (mkdiratImpl path mode) v (MkdirResult v path) (fun _ _ => False) True := by
  obtain ⟨r, hr, hused, -⟩ := hgood.root
  refine ensures_slots (fun hd => ?_) (fun d hd hi => ?_) fun d ino hd hi => ?_
  · exact MkdirResult.noDentry (slot_full hd)
  · exact MkdirResult.noInode (slot_full hi) (hidden_leak hd) ⟨rfl, rfl⟩
  · have hslots : Slots v d ino := ⟨hd, hi⟩
    have hroot : (v.plant d ino ((stripSlash path).take (fnameMax - 1))).rootDentry = some r := hr
    refine ensures_plant (Act.Ensures.get_bind ?_)
    rw [hroot]
    refine Act.Ensures.run_bind (attach_run (hslots.ne hused)) (@MkdirResult.made _ _ _ _ ino _ hr ?_ ⟨rfl, rfl⟩)
    exact ⟨⟨hslots, rfl, rfl, rfl, fun i hi => (Function.update_of_ne hi _ _).trans (link_inode_of_ne hi)⟩, rfl, rfl⟩

theorem linkat_ensures (hgood : Linked v) (oldPath newPath : Bytes) :
    Act.Ensures (linkat oldPath newPath) v (LinkResult v newPath) (fun _ _ => False) True := by
  obtain ⟨r, hr, hused, -⟩ := hgood.root
  refine Act.Ensures.get_bind ?_
  rw [lookup_eq hr]
  apply Act.Ensures.run_bind (Act.lift_run _ _)
  cases hold : Walks.walk v.lookupChild r (components oldPath) with
  | none => exact LinkResult.refused
  | some old =>
      have hin := hgood.walk_used hr hold
      cases hd : Table.find? v.dentryUsed (fun used => !used) with
      | none => exact Act.Ensures.run_bind (allocDentry_full hd) LinkResult.refused
      | some d =>
          apply Act.Ensures.run_bind (allocDentry_run hd)
          have hne : old ≠ d := by
            rintro rfl
            rw [slot_free hd] at hin
            cases hin
          have hresult : LinkResult v newPath true { v.reserve d with
              dentries := Function.update v.dentries d
                ⟨(stripSlash newPath).take (fnameMax - 1), (v.dentries old).inode, some r, []⟩ } := by
            refine .linked hr hin (placed_reserve hd hused rfl rfl) ?_ ?_ rfl rfl rfl <;> dsimp only <;>
              rw [Function.update_self]
          simpa only [Act.Ensures, updateDentry, Act.modify_bind_run, Act.get_bind_run, Act.pure_run, reserve,
            Dentry.named, Function.update_self, Function.update_idem, Function.update_of_ne hne, hr] using hresult

end Slots

end Kernel.Naming
