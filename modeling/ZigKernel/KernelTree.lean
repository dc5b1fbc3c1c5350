import ZigKernel.KernelFile

/-! The tree of dentries. The slots of dentries and inodes are taken from the front and in step, so a dentry stands
behind its parent: the walk up to the jail ends, and a path that is found leads to an inode. -/

namespace Kernel.Vfs

open Zig

/-- The root and every child are among the first slots, up to slot `k`. -/
structure Tree (v : Vfs) (k : Nat) : Prop where
  root : ∃ r, v.rootDentry = some r ∧ r.val < k ∧ (v.dentries r).inode.isSome = true
  named : ∀ d, (v.dentries d).inode = none → (v.dentries d).name = []
  parents : ∀ d p, (v.dentries d).parent = some p → p.val < d.val
  children : ∀ d c, some c ∈ (v.dentries d).children → c.val ≤ k
  jail : ∀ d, v.jailRoot = some d → (v.dentries d).inode.isSome = true

/-- What is in the inodes, and its account. -/
structure Contents (v : Vfs) : Prop where
  ops : ∀ i, (v.inodes i).ops ≠ some .pipe
  size : ∀ i, (v.inodes i).size ≤ dataLength (v.inodes i)
  charged : ∀ i, dataLength (v.inodes i) ≤ v.fsUsedBytes
  cap : v.fsUsedBytes ≤ fsCapBytes

/-- What is known of the open files. -/
structure Files (v : Vfs) : Prop where
  dentry : ∀ f d, (v.openFiles f).dentry = some d → (v.dentries d).inode.isSome = true
  pos : ∀ f i, (v.openFiles f).inode = some i → (v.openFiles f).pos ≤ dataLength (v.inodes i)
  ops : ∀ f, (v.openFiles f).ops = none

/-- The first `k` slots are taken. -/
structure Taken (v : Vfs) (k : Nat) : Prop where
  dentries : ∀ d, v.dentryUsed d = true ↔ d.val < k
  inodes : ∀ i, v.inodeUsed i = true ↔ i.val < k
  unused : ∀ i : Fin maxInodes, k ≤ i.val → ∃ ino, v.inodes i = { ino }

section Lookup

variable {v : Vfs} {k : Nat}

theorem Tree.mono {n : Nat} (h : Tree v k) (hn : k ≤ n) : Tree v n where
  root := by
    obtain ⟨r, hr, hk, hinode⟩ := h.root
    exact ⟨r, hr, Nat.lt_of_lt_of_le hk hn, hinode⟩
  named := h.named
  parents := h.parents
  children := fun d c hc => Nat.le_trans (h.children d c hc) hn
  jail := h.jail

theorem lookupChild_name {p c : Fin maxDentries} {name : Bytes} (h : v.lookupChild p name = some c) :
    (v.dentries c).name = name := by
  rw [lookupChild] at h
  split at h
  · next child hfind =>
    cases h
    exact eq_of_beq (List.find?_some (p := fun c => (v.dentries c).name == name) hfind)
  · have hall := List.find?_some (p := fun i => v.dentryUsed i && (v.dentries i).inode.isSome &&
      (v.dentries i).parent == some p && (v.dentries i).name == name) h
    exact eq_of_beq (Bool.and_eq_true_iff.mp hall).2

/-- A child is one of the first slots too, if these are the used ones. -/
theorem lookupChild_le {p c : Fin maxDentries} {name : Bytes} (htree : Tree v k)
    (hused : ∀ d, v.dentryUsed d = true → d.val ≤ k) (h : v.lookupChild p name = some c) : c.val ≤ k := by
  rw [lookupChild] at h
  split at h
  · next child hfind =>
    cases h
    have hmem := List.mem_of_find?_eq_some hfind
    obtain ⟨c', hc', hid⟩ := List.mem_filterMap.mp hmem
    rw [id_eq] at hid
    rw [hid] at hc'
    exact htree.children p c hc'
  · have hall := List.find?_some (p := fun i => v.dentryUsed i && (v.dentries i).inode.isSome &&
      (v.dentries i).parent == some p && (v.dentries i).name == name) h
    simp only [Bool.and_eq_true] at hall
    exact hused c hall.1.1.1

/-- A walk stays where it is or ends at a dentry that has the name of a component. -/
theorem walk_name {components : List Bytes} {c d : Fin maxDentries} (h : v.walk c components = some d) :
    d = c ∨ (v.dentries d).name ∈ components := by
  induction components generalizing c with
  | nil => exact Or.inl (Option.some.inj h).symm
  | cons component rest ih =>
      rw [walk] at h
      split at h
      · cases h
      · next child hchild =>
        rcases ih h with rfl | hrest
        · exact Or.inr (List.mem_cons.mpr (Or.inl (lookupChild_name hchild)))
        · exact Or.inr (List.mem_cons_of_mem _ hrest)

theorem walk_le {components : List Bytes} {c d : Fin maxDentries} (htree : Tree v k)
    (hused : ∀ d, v.dentryUsed d = true → d.val ≤ k) (hc : c.val ≤ k) (h : v.walk c components = some d) :
    d.val ≤ k := by
  induction components generalizing c with
  | nil =>
      cases h
      exact hc
  | cons component rest ih =>
      rw [walk] at h
      split at h
      · cases h
      · next child hchild => exact ih (lookupChild_le htree hused hchild) h

theorem lookupPath_name {c d : Fin maxDentries} {path : Bytes} (h : v.lookupPath c path = some d) :
    d = c ∨ (v.dentries d).name ∈ components (stripSlash path) := by
  rw [lookupPath] at h
  split at h
  · exact Or.inl (Option.some.inj h).symm
  · exact walk_name h

theorem lookupPath_le {c d : Fin maxDentries} {path : Bytes} (htree : Tree v k)
    (hused : ∀ d, v.dentryUsed d = true → d.val ≤ k) (hc : c.val ≤ k) (h : v.lookupPath c path = some d) :
    d.val ≤ k := by
  rw [lookupPath] at h
  split at h
  · cases h
    exact hc
  · exact walk_le htree hused hc h

/-- A component is not empty, so what has its name has an inode. -/
theorem lookupPath_inode {c d : Fin maxDentries} {path : Bytes} (htree : Tree v k)
    (hc : (v.dentries c).inode.isSome = true) (h : v.lookupPath c path = some d) :
    (v.dentries d).inode.isSome = true := by
  rcases lookupPath_name h with rfl | hname
  · exact hc
  · by_contra hnone
    rw [Bool.not_eq_true, Option.isSome_eq_false_iff, Option.isNone_iff_eq_none] at hnone
    rw [htree.named d hnone, components, List.mem_filter] at hname
    exact absurd hname.2 (by decide)

theorem root_eq {r : Fin maxDentries} (h : v.rootDentry = some r) : v.root = .ok r := by
  rw [root, h]

/-- The walk up to the jail ends, as every step leads to an earlier slot. -/
theorem climb_ok {jail : Fin maxDentries} (htree : Tree v k) (n : Nat) (c : Fin maxDentries) (hc : c.val < n) :
    ∃ b, v.climb jail n c = .ok b := by
  induction n generalizing c with
  | zero => exact absurd hc (Nat.not_lt_zero _)
  | succ n ih =>
      rw [climb]
      split
      · exact ⟨true, rfl⟩
      · split
        · exact ⟨false, rfl⟩
        · next parent hparent =>
          have hlt := htree.parents c parent hparent
          exact ih parent (by omega)

/-- Where a path starts, there is an inode. -/
theorem startAt_ok (htree : Tree v k) (hfiles : Files v) {dirfd : Int} (h : 0 ≤ dirfd) :
    ∃ d, v.startAt dirfd = .ok d ∧ (v.dentries d).inode.isSome = true := by
  obtain ⟨r, hr, -, hinode⟩ := htree.root
  rw [startAt, root_eq hr, castUsize_of_nonneg h, Outcome.ok_bind]
  split
  · exact ⟨r, rfl, hinode⟩
  · split
    · exact ⟨r, rfl, hinode⟩
    · next f hf =>
      split
      · exact ⟨r, rfl, hinode⟩
      · next d hd =>
        refine ⟨d, rfl, ?_⟩
        rw [fileAt] at hf
        split at hf
        · split at hf
          · cases hf
            exact hfiles.dentry _ d hd
          · cases hf
        · cases hf

/-- A path is resolved, to a dentry with an inode if to any. -/
theorem resolvePath_ok (htree : Tree v k) (hfiles : Files v) {dirfd : Int} (h : 0 ≤ dirfd) (path : Bytes) :
    ∃ found, v.resolvePath dirfd path = .ok found ∧ ∀ d, found = some d → (v.dentries d).inode.isSome = true := by
  obtain ⟨r, hr, -, hinode⟩ := htree.root
  rw [resolvePath]
  split
  · obtain ⟨start, hstart, hin⟩ := startAt_ok htree hfiles h
    rw [resolveRaw, hstart, Outcome.ok_bind]
    exact ⟨_, rfl, fun d hd => lookupPath_inode htree hin hd⟩
  · next jail hjail =>
    split
    · exact ⟨none, rfl, fun d hd => by cases hd⟩
    · split
      · rw [resolveAbsolute, lookup, root_eq hr, Outcome.ok_bind, Outcome.pure_eq, Outcome.ok_bind]
        split
        · exact ⟨none, rfl, fun d hd => by cases hd⟩
        · next d hd =>
          obtain ⟨inside, hclimb⟩ := @climb_ok _ _ jail htree (maxDentries + 1) d (Nat.lt_succ_of_lt d.isLt)
          rw [hclimb, Outcome.ok_bind]
          refine ⟨_, rfl, fun d' hd' => ?_⟩
          cases inside with
          | true =>
              cases hd'
              exact lookupPath_inode htree hinode hd
          | false => cases hd'
      · exact ⟨_, rfl, fun d hd => lookupPath_inode htree (htree.jail jail hjail) hd⟩

end Lookup

end Kernel.Vfs
