import ZigKernel.KernelNamingCalls
import ZigKernel.LibRuns

/-! The namespace over runs. Calls that keep to paths that lead nowhere yet, that have memory where a dentry would be
listed and that unlink nothing refine a tree: a created path stays, and no other path is touched. Each way of leaving
these bounds breaks the tree at once, since `unlinkat` removes no dentry, a failing `createFile` leaves its dentry in the
children array, `mkdiratImpl` takes the whole path for a name, and nothing checks that a path is new. -/

namespace Kernel.Naming

open Zig Vfs

inductive Call where
  | createFile (path content : Bytes)
  | mkdiratImpl (path : Bytes) (mode : Nat)
  | linkat (oldPath newPath : Bytes)
  | unlinkat (path : Bytes)
  | lookup (path : Bytes)
  /-- The page allocator comes to have other amounts of memory. -/
  | allocator (available : Nat → Bool)

inductive Reply where
  | dentry (d : Option (Fin maxDentries))
  | done (ok : Bool)
  deriving DecidableEq

namespace Call

def run : Call → Vfs.Run Reply
  | createFile path content => do
      let d ← Vfs.createFile path content
      pure (.dentry d)
  | mkdiratImpl path mode => do
      let d ← Vfs.mkdiratImpl path mode
      pure (.dentry d)
  | linkat oldPath newPath => do
      let ok ← Vfs.linkat oldPath newPath
      pure (.done ok)
  | unlinkat path => do
      let ok ← Vfs.unlinkat path
      pure (.done ok)
  | lookup path => do
      let v ← Act.get
      let d ← Act.lift (v.lookup path)
      pure (.dentry d)
  | allocator available => do
      Act.modify fun v => { v with available }
      pure (.done true)

def paths : Call → List Bytes
  | createFile path _ => [path]
  | mkdiratImpl path _ => [path]
  | linkat oldPath newPath => [oldPath, newPath]
  | unlinkat path => [path]
  | lookup path => [path]
  | allocator _ => []

end Call

/-- An absolute path without long components, in a directory that exists. -/
structure Admissible (v : Vfs) (path : Bytes) : Prop where
  absolute : path.head? = some slash
  short : ∀ n ∈ components path, n.length ≤ fnameMax - 1
  parent : ∃ r p, v.rootDentry = some r ∧ v.walk r (components path).dropLast = some p

/-- A call that returns. -/
def Step (v : Vfs) (step : Call × Reply) (w : Vfs) : Prop :=
  (∀ path ∈ step.1.paths, Admissible v path) ∧ step.1.run v = (.ok step.2, w)

/-- The entries of the children arrays are used dentries below their holders, each with a name of its own. -/
structure Orderly (v : Vfs) : Prop where
  children : ∀ p c, c ∈ (v.dentries p).children → ∃ x i, c = some x ∧ v.dentryUsed x = true ∧
    (v.dentries x).parent = some p ∧ (v.dentries x).inode = some i ∧ v.inodeUsed i = true
  distinct : ∀ p, (names v p).Nodup

/-- What a call does to the tree. -/
def Moves (v w : Vfs) : Call × Reply → Prop
  | (.createFile path content, .dentry (some d)) => find w path = .ok (some ⟨d, some content⟩) ∧ SameBut v w path
  | (.mkdiratImpl path _, .dentry (some d)) => w.lookup path = .ok (some d) ∧ SameBut v w path
  | (.linkat _ newPath, .done true) => SameBut v w newPath ∧ (v.lookup newPath ≠ .ok none → find w newPath = find v newPath)
  | (.unlinkat path, .done true) => w.lookup path = .ok none ∧ SameBut v w path
  | _ => Same v w

/-- What is expected of a step. -/
def Refines (v : Vfs) (step : Call × Reply) (w : Vfs) : Prop := Orderly w ∧ Moves v w step

/-- What has been created is still there. -/
def Kept (trace : List (Call × Reply)) (w : Vfs) : Prop := ∀ before path d after,
  (∀ content, trace = before ++ (.createFile path content, .dentry (some d)) :: after →
    (∀ q, components q = components path → (.unlinkat q, .done true) ∉ after) →
      find w path = .ok (some ⟨d, some content⟩)) ∧
  ∀ mode, trace = before ++ (.mkdiratImpl path mode, .dentry (some d)) :: after →
    (∀ q, components q = components path → (.unlinkat q, .done true) ∉ after) → w.lookup path = .ok (some d)

/-! ### The condition -/

/-- What the path leads to, if anything, is in no children array although there is room, and nothing is below it. -/
def Vacant (v : Vfs) (path : Bytes) : Prop := ∀ y, v.lookup path = .ok (some y) →
  (∃ p, (v.dentries y).parent = some p ∧ (v.dentries p).children.length < Vfs.maxChildren ∧
    some y ∉ (v.dentries p).children) ∧ ∀ q n, components q = components path ++ [n] → v.lookup q = .ok none

/-- The calls that keep the tree. -/
def Meets (v : Vfs) : Call → Prop
  | .createFile path content => NoSlot v ∨ (Fits v content.length → basename (stripSlash path) ≠ [] ∧ Vacant v path) ∧
      (¬Fits v content.length → Full v path)
  | .mkdiratImpl path _ => NoSlot v ∨ components path = [(stripSlash path).take (fnameMax - 1)] ∧ Vacant v path
  | .unlinkat path => v.lookup path = .ok none
  | _ => True

/-- The path leads to `d`, which the array of its parent lists if it has room. -/
structure Fixed (v : Vfs) (path : Bytes) (d : Fin maxDentries) : Prop where
  found : v.lookup path = .ok (some d)
  listed : ∃ p, (v.dentries d).parent = some p ∧
    ((v.dentries p).children.length < Vfs.maxChildren → some d ∈ (v.dentries p).children)

/-- What a call has created is there. -/
def Stands (w : Vfs) : Call × Reply → Prop
  | (.createFile path content, .dentry (some d)) => find w path = .ok (some ⟨d, some content⟩) ∧ Fixed w path d
  | (.mkdiratImpl path _, .dentry (some d)) => Fixed w path d
  | _ => True

/-- The used dentries keep their parents, and their children arrays only grow. -/
def Grows (v w : Vfs) : Prop := ∀ e, v.dentryUsed e = true → (w.dentries e).parent = (v.dentries e).parent ∧
  ∃ more, (w.dentries e).children = (v.dentries e).children ++ more

/-- What a step that meets the condition leads to. -/
structure Next (v : Vfs) (step : Call × Reply) (w : Vfs) : Prop where
  good : Good w
  grows : Grows v w
  stands : Stands w step

/-! ### Steps -/

section Steps

variable {v w : Vfs} {d p r : Fin maxDentries} {ino : Fin maxInodes} {name path : Bytes} {l : Bool} {labels : List Bytes}

theorem Good.orderly (h : Good v) : Orderly v where
  children := fun p c hc => by
    obtain ⟨x, hx, hused, hparent, hinode⟩ := h.children p c hc
    obtain ⟨i, hi⟩ := Option.isSome_iff_exists.mp hinode
    exact ⟨x, i, hx, hused, hparent, hi, h.inode x i hused hi⟩
  distinct := h.distinct

section Attached

theorem Attached.self (h : Attached v w d p ino name) (hp : v.dentryUsed p = true) :
    w.dentries d = { name, inode := some ino, parent := some p } := by
  rw [h.dentries, link_self (h.slots.ne hp)]

theorem Attached.kept (h : Attached v w d p ino name) {e : Fin maxDentries} (he : e ≠ d) :
    (w.dentries e).name = (v.dentries e).name ∧ (w.dentries e).inode = (v.dentries e).inode ∧
      (w.dentries e).parent = (v.dentries e).parent := by
  rw [h.dentries]
  obtain ⟨hinode, hname, hparent⟩ := @link_old v d p ino name e he
  exact ⟨hname, hinode, hparent⟩

theorem Attached.children (h : Attached v w d p ino name) {e : Fin maxDentries} (he : e ≠ d) :
    (w.dentries e).children = if e = p ∧ (v.dentries p).children.length < Vfs.maxChildren then
      (v.dentries e).children ++ [some d] else (v.dentries e).children := by
  rw [h.dentries]
  by_cases hep : e = p
  · rw [hep, link_parent, Dentry.adopt]
    by_cases hroom : (v.dentries p).children.length < Vfs.maxChildren
    · rw [if_pos hroom, if_pos ⟨rfl, hroom⟩]
    · rw [if_neg hroom, if_neg fun hall => hroom hall.2]
  · rw [link_of_ne he hep, if_neg fun hall => hep hall.1]

theorem Attached.keeps (h : Attached v w d p ino name) (hgood : Good v) : Keeps v w := by
  intro e he
  rw [contentOf, contentOf, (h.kept (h.slots.ne he)).2.1]
  cases hi : (v.dentries e).inode with
  | none => rfl
  | some i =>
      have hne : i ≠ ino := by
        rintro rfl
        have hused := hgood.inode e i he hi
        rw [slot_free h.slots.inode] at hused
        cases hused
      rw [Option.bind_some, Option.bind_some, h.inodes i hne]

theorem Made.placed (h : Made v w d p ino name) (hp : v.dentryUsed p = true) :
    Placed v w d p (decide ((v.dentries p).children.length < Vfs.maxChildren)) where
  free := h.slots.free
  before := slot_before h.slots.dentry
  used := h.used
  root := h.root
  above := hp
  parent := congrArg Dentry.parent (h.self hp)
  leaf := congrArg Dentry.children (h.self hp)
  kept := fun _ he => h.kept he
  children := fun e he => by
    rw [h.children he]
    exact if_congr (and_congr_right fun _ => decide_eq_true_iff.symm) rfl rfl

/-- A dentry that was not listed has left nothing behind. -/
theorem Revoked.hidden (h : Revoked v w d p ino name) (hp : v.dentryUsed p = true)
    (hfull : Vfs.maxChildren ≤ (v.dentries p).children.length) : Hidden v w d where
  free := h.slots.free
  parent := fun hused => by
    rw [h.used, h.slots.free] at hused
    cases hused
  others := fun e he => by
    rw [h.used, h.dentries]
    refine ⟨rfl, ?_⟩
    by_cases hep : e = p
    · rw [hep, link_parent, Dentry.adopt, if_neg (Nat.not_lt_of_le hfull)]
    · exact link_of_ne he hep
  leaf := congrArg Dentry.children (h.self hp)
  used := fun hused => by
    rw [h.used, h.slots.free] at hused
    cases hused
  root := h.root
  jail := h.jail
  inodes := fun i hi => h.inodes i fun heq => by
    rw [heq, slot_free h.slots.inode] at hi
    cases hi
  inodeUsed := h.inodeUsed

/-- A dentry that was listed is still listed. -/
theorem Revoked.not_orderly (h : Revoked v w d p ino name) (hp : v.dentryUsed p = true)
    (hroom : (v.dentries p).children.length < Vfs.maxChildren) : ¬Orderly w := by
  intro horder
  have hmem : some d ∈ (w.dentries p).children := by
    rw [h.children (h.slots.ne hp), if_pos ⟨rfl, hroom⟩]
    exact List.mem_append_right _ List.mem_cons_self
  obtain ⟨x, i, hx, hused, -⟩ := horder.children p (some d) hmem
  cases hx
  rw [h.used, h.slots.free] at hused
  cases hused

end Attached

theorem lookup_of_walk (hr : v.rootDentry = some r) {found : Option (Fin maxDentries)} :
    v.lookup path = .ok found ↔ Walks.walk v.lookupChild r (components path) = found := by
  rw [lookup_eq hr, Outcome.ok.injEq]

/-- A dentry whose path is vacant is found at that path, and no other path is touched. -/
theorem Placed.moves (h : Placed v w d p l) (hgood : Good v) (hkeeps : Keeps v w) (hr : v.rootDentry = some r)
    (hinode : (w.dentries d).inode.isSome = true) (hwalk : Walks.walk v.lookupChild r labels = some p)
    (hpath : components path = labels ++ [(w.dentries d).name])
    (hl : l = decide ((v.dentries p).children.length < Vfs.maxChildren)) (hvacant : Vacant v path) :
    listed v p (w.dentries d).name = none ∧ find w path = .ok (some ⟨d, contentOf w d⟩) ∧ SameBut v w path := by
  have hlookup : v.lookup path = .ok (v.lookupChild p (w.dentries d).name) := by
    rw [lookup_of_walk hr, hpath, Walks.walk_concat, hwalk]
    rfl
  have hgrafted : listed v p (w.dentries d).name = none ∧
      Walks.Grafted v.lookupChild w.lookupChild p (w.dentries d).name d := by
    cases hold : v.lookupChild p (w.dentries d).name with
    | none =>
        obtain ⟨hlisted, hstray⟩ := Option.or_eq_none_iff.mp ((lookupChild_eq _ _ _).symm.trans hold)
        refine ⟨hlisted, h.grafted hgood hinode hlisted (Or.inr hstray) fun y n hy => ?_⟩
        rw [hold] at hy
        cases hy
    | some y =>
        obtain ⟨⟨p', hparent, hroom, hnot⟩, hbelow⟩ := hvacant y (hlookup.trans (congrArg Outcome.ok hold))
        obtain ⟨hused, -, hp, -⟩ := hgood.child hold
        rw [hp] at hparent
        cases hparent
        have hlisted : listed v p (w.dentries d).name = none := by
          cases hfind : listed v p (w.dentries d).name with
          | none => rfl
          | some z =>
              rw [lookupChild_eq, hfind, Option.some_or] at hold
              cases hold
              exact absurd (listed_some hfind).1 hnot
        refine ⟨hlisted, h.grafted hgood hinode hlisted (Or.inl (hl.trans (decide_eq_true hroom))) fun y' n hy' => ?_⟩
        rw [hold] at hy'
        cases hy'
        cases hchild : v.lookupChild y n with
        | none => rfl
        | some c =>
            -- what stands below something other than the root has a component for a name, so a path leads to it
            obtain ⟨hcused, -, hcparent, hcname⟩ := hgood.child hchild
            have hyroot : v.rootDentry ≠ some y := fun heq =>
              (hgood.rooted hr).ne_root hold (Option.some.inj (heq.symm.trans hr))
            have hname := hgood.named c y hcused hcparent hyroot
            rw [hcname] at hname
            have hnone := hbelow (path ++ slash :: n) n (by rw [components_append_slash, hname])
            rw [lookup_of_walk hr, components_append_slash, hname, Walks.walk_concat, hpath, Walks.walk_concat, hwalk,
              Option.bind_some, hold, Option.bind_some, hchild] at hnone
            cases hnone
  have hroot : r ≠ d := h.ne (hgood.root_used hr)
  exact ⟨hgrafted.1, sameBut_of_grafted hgood hr (h.root.trans hr) hkeeps hgrafted.2 hroot hwalk hpath⟩

/-- A walk to the new dentry ends with its name, below its parent. -/
theorem Placed.found (h : Placed v w d p l) (hgood : Good v) (hr : v.rootDentry = some r)
    (hfound : Walks.walk w.lookupChild r labels = some d) : ∃ init, labels = init ++ [(w.dentries d).name] ∧
      Walks.walk w.lookupChild r init = some p ∧ w.lookupChild p (w.dentries d).name = some d := by
  rcases List.eq_nil_or_concat labels with rfl | ⟨init, m, rfl⟩
  · cases hfound
    exact absurd rfl (h.ne (hgood.root_used hr))
  · rw [List.concat_eq_append] at hfound ⊢
    obtain ⟨c, hc, hlast⟩ := Walks.walk_concat_eq_some hfound
    have hcd : c ≠ d := by
      rintro rfl
      rw [h.below hgood] at hlast
      cases hlast
    by_cases hnew : c = p ∧ m = (w.dentries d).name
    · obtain ⟨rfl, rfl⟩ := hnew
      exact ⟨init, rfl, hc, hlast⟩
    · rw [h.other hgood hcd hnew] at hlast
      exact absurd hlast (h.fresh hgood)

/-- The dentry is found at its path only if that was vacant. -/
theorem Placed.vacant (h : Placed v w d p l) (hgood : Good v) (hr : v.rootDentry = some r)
    (hinode : (w.dentries d).inode.isSome = true) (hwalk : Walks.walk v.lookupChild r labels = some p)
    (hpath : components path = labels ++ [(w.dentries d).name])
    (hl : l = decide ((v.dentries p).children.length < Vfs.maxChildren))
    (hfound : Walks.walk w.lookupChild r (components path) = some d) (hbut : SameBut v w path) : Vacant v path := by
  obtain ⟨-, -, -, hchild⟩ := h.found hgood hr hfound
  rw [h.new hgood hinode] at hchild
  intro y hy
  rw [lookup_of_walk hr, hpath, Walks.walk_concat, hwalk, Option.bind_some] at hy
  have hlisted : listed v p (w.dentries d).name = none := by
    cases hfind : listed v p (w.dentries d).name with
    | none => rfl
    | some z =>
        rw [hfind, Option.some_or] at hchild
        cases hchild
        exact absurd (by rw [lookupChild_eq, hfind, Option.some_or]) (h.fresh hgood (q := p) (n := (w.dentries d).name))
  have hroom : l = true := by
    by_contra hno
    rw [hlisted, Option.none_or, if_neg hno] at hchild
    rw [lookupChild_eq, hlisted, Option.none_or] at hy
    rw [hy, Option.some_or] at hchild
    cases hchild
    exact h.fresh hgood (q := p) (n := (w.dentries d).name) (by rw [lookupChild_eq, hlisted, Option.none_or, hy])
  obtain ⟨-, -, hparent, hname⟩ := hgood.child hy
  refine ⟨⟨p, hparent, of_decide_eq_true (hl.symm.trans hroom), fun hmem => ?_⟩, fun q n hq => ?_⟩
  · have hsome := hgood.listed_name hmem
    rw [hname, hlisted] at hsome
    cases hsome
  · have hne : components q ≠ components path := fun heq => by simp [hq] at heq
    have hfind := hbut q hne
    rw [find_eq hr, find_eq (h.root.trans hr), hq, Walks.walk_concat, Walks.walk_concat, hfound, Option.bind_some,
      h.below hgood] at hfind
    rw [lookup_of_walk hr, hq, Walks.walk_concat]
    exact Option.map_eq_none_iff.mp (Outcome.ok.inj hfind).symm

/-- What is found below a dentry stands below it. -/
theorem Placed.child (h : Placed v w d p l) (hgood : Good v) {q x : Fin maxDentries} {n : Bytes}
    (hx : w.lookupChild q n = some x) : (w.dentries x).parent = some q := by
  have hq : q ≠ d := by
    rintro rfl
    rw [h.below hgood] at hx
    cases hx
  by_cases hxd : x = d
  · rw [hxd] at hx ⊢
    by_cases hnew : q = p ∧ n = (w.dentries d).name
    · rw [hnew.1, h.parent]
    · rw [h.other hgood hq hnew] at hx
      exact absurd hx (h.fresh hgood)
  · rw [lookupChild_eq] at hx
    rcases Option.or_eq_some_iff.mp hx with hlisted | ⟨-, hstray⟩
    · rcases h.mem_children (listed_some hlisted).1 with ⟨hmem, -⟩ | ⟨heq, -⟩
      · obtain ⟨y, hy, -, hparent, -⟩ := hgood.children q _ hmem
        cases hy
        rw [(h.kept x hxd).2.2, hparent]
      · exact absurd (Option.some.inj heq) hxd
    · exact (stray_some hstray).2.2.1

theorem Placed.rooted (h : Placed v w d p l) (hgood : Good v) (hr : v.rootDentry = some r) :
    Walks.Rooted w.lookupChild r (fun d => (w.dentries d).parent) (fun d => (w.dentries d).name) where
  up := fun _ _ _ hc => h.child hgood hc
  named := fun _ _ _ hc => lookupChild_name hc
  top := (h.kept r (h.ne (hgood.root_used hr))).2.2.trans (hgood.rooted hr).top

theorem Grows.refl (v : Vfs) : Grows v v := fun _ _ => ⟨rfl, [], (List.append_nil _).symm⟩

theorem Hidden.grows (h : Hidden v w d) : Grows v w := fun e he => by
  rw [(h.others e (h.ne he)).2]
  exact ⟨rfl, [], (List.append_nil _).symm⟩

theorem Placed.grows (h : Placed v w d p l) : Grows v w := fun e he => by
  refine ⟨(h.kept e (h.ne he)).2.2, ?_⟩
  rw [h.children e (h.ne he)]
  split
  · exact ⟨_, rfl⟩
  · exact ⟨[], (List.append_nil _).symm⟩

theorem Placed.fixed (h : Placed v w d p l) (hl : l = decide ((v.dentries p).children.length < Vfs.maxChildren))
    (hfound : w.lookup path = .ok (some d)) : Fixed w path d where
  found := hfound
  listed := by
    refine ⟨p, h.parent, fun hroom => ?_⟩
    rw [h.children p (h.ne h.above)] at hroom ⊢
    by_cases hlisted : p = p ∧ l = true
    · rw [if_pos hlisted]
      exact List.mem_append_right _ List.mem_cons_self
    · rw [if_neg hlisted] at hroom
      exact absurd ⟨rfl, hl.trans (decide_eq_true hroom)⟩ hlisted

/-! ### Each call -/

/-- The name of a file is the last component, and its parent is where the others lead to. -/
theorem Admissible.file (hadm : Admissible v path) (hr : v.rootDentry = some r) (hp : v.parentOf (stripSlash path) = .ok (some p))
    (hne : basename (stripSlash path) ≠ []) : components path = components (parentPath (stripSlash path)) ++ [fileName path] ∧
      Walks.walk v.lookupChild r (components (parentPath (stripSlash path))) = some p := by
  have hsplit := components_basename hne
  rw [components_stripSlash] at hsplit
  have hshort : fileName path = basename (stripSlash path) := by
    refine List.take_of_length_le (hadm.short _ ?_)
    rw [hsplit]
    exact List.mem_append_right _ List.mem_cons_self
  refine ⟨by rw [hshort]; exact hsplit, ?_⟩
  obtain ⟨r', q, hr', hq⟩ := hadm.parent
  rw [hr] at hr'
  cases hr'
  rw [walk_eq, hsplit, List.dropLast_concat] at hq
  rw [parentOf_eq hr, hq] at hp
  cases hp
  exact hq

theorem walk_of_find {c : Option Bytes} (hr : w.rootDentry = some r) (h : find w path = .ok (some ⟨d, c⟩)) :
    Walks.walk w.lookupChild r (components path) = some d := by
  rw [find_eq hr, Outcome.ok.injEq] at h
  obtain ⟨e, he, heq⟩ := Option.map_eq_some_iff.mp h
  cases heq
  exact he

theorem Made.good (h : Made v w d p ino name) (hgood : Good v) (hp : v.dentryUsed p = true)
    (hlisted : listed v p (w.dentries d).name = none)
    (hnamed : v.rootDentry ≠ some p → components (w.dentries d).name = [(w.dentries d).name]) : Good w := by
  have hself := h.self hp
  refine hgood.placed (h.placed hp) (fun i hi => ?_) (fun i hi => ?_) (fun _ => ⟨?_, hlisted⟩) hnamed
  · rw [hself] at hi
    cases hi
    rw [h.inodeUsed, Function.update_self]
  · rw [h.inodeUsed]
    by_cases hino : i = ino
    · rw [hino, Function.update_self]
    · rwa [Function.update_of_ne hino]
  · rw [hself]
    rfl

theorem Made.inode_isSome (h : Made v w d p ino name) (hused : v.dentryUsed p = true) :
    (w.dentries d).inode.isSome = true := by
  rw [h.self hused]
  rfl

/-- A new file is found at its path where the path has a last component and was vacant. -/
theorem Made.filed {content : Bytes} (h : Made v w d p ino (fileName path)) (hgood : Good v) (hadm : Admissible v path)
    (hparent : v.parentOf (stripSlash path) = .ok (some p)) (hused : v.dentryUsed p = true)
    (hdata : (w.inodes ino).data = some content) (hbase : basename (stripSlash path) ≠ []) (hvacant : Vacant v path) :
    Next v (.createFile path content, .dentry (some d)) w ∧
      Moves v w (.createFile path content, .dentry (some d)) := by
  obtain ⟨r, hr, -⟩ := hgood.root
  have hplaced := h.placed hused
  have hself := h.self hused
  have hname : (w.dentries d).name = fileName path := congrArg Dentry.name hself
  have hcontent : contentOf w d = some content := by
    rw [contentOf, hself]
    exact hdata
  obtain ⟨hpath, hwalk⟩ := hadm.file hr hparent hbase
  rw [← hname] at hpath
  obtain ⟨hlisted, hfind, hbut⟩ := hplaced.moves hgood (h.keeps hgood) hr (h.inode_isSome hused) hwalk hpath rfl hvacant
  rw [hcontent] at hfind
  have hlookup := (lookup_of_walk (h.root.trans hr)).mpr (walk_of_find (h.root.trans hr) hfind)
  refine ⟨⟨h.good hgood hused hlisted fun _ => ?_, hplaced.grows, hfind, hplaced.fixed rfl hlookup⟩, hfind, hbut⟩
  refine @components_of_mem path _ ?_
  rw [hpath]
  exact List.mem_append_right _ List.mem_cons_self

/-- Conversely, a new file that is found at its path has a last component there, and the path was vacant. -/
theorem Made.vacant_of_find {c : Option Bytes} (h : Made v w d p ino (fileName path)) (hgood : Good v)
    (hadm : Admissible v path) (hparent : v.parentOf (stripSlash path) = .ok (some p)) (hused : v.dentryUsed p = true)
    (hfind : find w path = .ok (some ⟨d, c⟩)) (hbut : SameBut v w path) :
    basename (stripSlash path) ≠ [] ∧ Vacant v path := by
  obtain ⟨r, hr, -⟩ := hgood.root
  have hplaced := h.placed hused
  have hname : (w.dentries d).name = fileName path := congrArg Dentry.name (h.self hused)
  have hfound := walk_of_find (h.root.trans hr) hfind
  obtain ⟨init, hinit, -⟩ := hplaced.found hgood hr hfound
  have hbase : basename (stripSlash path) ≠ [] := by
    intro hnil
    have hmem : (w.dentries d).name ∈ components path := by
      rw [hinit]
      exact List.mem_append_right _ List.mem_cons_self
    rw [hname, fileName, hnil, List.take_nil] at hmem
    exact ne_nil_of_mem_components hmem rfl
  obtain ⟨hpath, hwalk⟩ := hadm.file hr hparent hbase
  rw [← hname] at hpath
  exact ⟨hbase, hplaced.vacant hgood hr (h.inode_isSome hused) hwalk hpath rfl hfound hbut⟩

theorem createFile_step {content : Bytes} {reply : Option (Fin maxDentries)} (hgood : Good v) (hadm : Admissible v path)
    (h : CreateResult v path content reply w) :
    (Refines v (.createFile path content, .dentry reply) w ↔ Meets v (.createFile path content)) ∧
      (Meets v (.createFile path content) → Next v (.createFile path content, .dentry reply) w) := by
  cases h with
  | noDentry hfull =>
      exact ⟨iff_of_true ⟨hgood.orderly, fun _ => rfl⟩ (Or.inl (Or.inl hfull)), fun _ => ⟨hgood, .refl v, True.intro⟩⟩
  | noInode hfull hidden _ =>
      have hgood' := hgood.hidden hidden
      exact ⟨iff_of_true ⟨hgood'.orderly, hidden.same hgood⟩ (Or.inl (Or.inr hfull)),
        fun _ => ⟨hgood', hidden.grows, True.intro⟩⟩
  | @noSpace d p ino _ hrevoked hparent hspace =>
      obtain ⟨p', hp', hused⟩ := hgood.parentOf (stripSlash path)
      rw [hparent] at hp'
      cases hp'
      by_cases hfull : Vfs.maxChildren ≤ (v.dentries p).children.length
      · have hidden := hrevoked.hidden hused hfull
        have hgood' := hgood.hidden hidden
        refine ⟨iff_of_true ⟨hgood'.orderly, hidden.same hgood⟩ (Or.inr ⟨fun hfits => absurd hfits hspace, fun _ q hq => ?_⟩),
          fun _ => ⟨hgood', hidden.grows, True.intro⟩⟩
        rw [hparent] at hq
        cases hq
        exact hfull
      · have hnot : ¬Meets v (.createFile path content) := by
          rintro (hno | ⟨-, hall⟩)
          · exact hrevoked.slots.not_noSlot hno
          · exact hfull (hall hspace p hparent)
        exact ⟨iff_of_false (fun h => hrevoked.not_orderly hused (Nat.lt_of_not_le hfull) h.1) hnot, fun h => absurd h hnot⟩
  | @made d p ino _ hmade hparent hspace hdata _ =>
      obtain ⟨p', hp', hused⟩ := hgood.parentOf (stripSlash path)
      rw [hparent] at hp'
      cases hp'
      have hmeets : Meets v (.createFile path content) ↔ basename (stripSlash path) ≠ [] ∧ Vacant v path := by
        refine ⟨fun h => ?_, fun h => Or.inr ⟨fun _ => h, fun hno => absurd hspace hno⟩⟩
        rcases h with hno | ⟨hall, -⟩
        · exact absurd hno hmade.slots.not_noSlot
        · exact hall hspace
      rw [hmeets]
      refine ⟨⟨fun h => ?_, fun h => ?_⟩, fun h => (hmade.filed hgood hadm hparent hused hdata h.1 h.2).1⟩
      · obtain ⟨-, hfind, hbut⟩ := h
        exact hmade.vacant_of_find hgood hadm hparent hused hfind hbut
      · obtain ⟨hnext, hmoves⟩ := hmade.filed hgood hadm hparent hused hdata h.1 h.2
        exact ⟨hnext.good.orderly, hmoves⟩

theorem mkdirat_step {mode : Nat} {reply : Option (Fin maxDentries)} (hgood : Good v) (h : MkdirResult v path reply w) :
    (Refines v (.mkdiratImpl path mode, .dentry reply) w ↔ Meets v (.mkdiratImpl path mode)) ∧
      (Meets v (.mkdiratImpl path mode) → Next v (.mkdiratImpl path mode, .dentry reply) w) := by
  cases h with
  | noDentry hfull =>
      exact ⟨iff_of_true ⟨hgood.orderly, fun _ => rfl⟩ (Or.inl (Or.inl hfull)), fun _ => ⟨hgood, .refl v, True.intro⟩⟩
  | noInode hfull hidden _ =>
      have hgood' := hgood.hidden hidden
      exact ⟨iff_of_true ⟨hgood'.orderly, hidden.same hgood⟩ (Or.inl (Or.inr hfull)),
        fun _ => ⟨hgood', hidden.grows, True.intro⟩⟩
  | @made d r ino _ hr hmade _ =>
      have hused := hgood.root_used hr
      have hplaced := hmade.placed hused
      have hself := hmade.self hused
      have hinode := hmade.inode_isSome hused
      have hname : (w.dentries d).name = (stripSlash path).take (fnameMax - 1) := congrArg Dentry.name hself
      have hwalk : Walks.walk v.lookupChild r [] = some r := rfl
      have hmeets : Meets v (.mkdiratImpl path mode) ↔
          components path = [(stripSlash path).take (fnameMax - 1)] ∧ Vacant v path := by
        refine ⟨fun h => ?_, Or.inr⟩
        rcases h with hno | hall
        · exact absurd hno hmade.slots.not_noSlot
        · exact hall
      have hforward : components path = [(stripSlash path).take (fnameMax - 1)] ∧ Vacant v path →
          Next v (.mkdiratImpl path mode, .dentry (some d)) w ∧
            Moves v w (.mkdiratImpl path mode, .dentry (some d)) := by
        rintro ⟨hpath, hvacant⟩
        rw [← hname] at hpath
        obtain ⟨hlisted, hfind, hbut⟩ := hplaced.moves hgood (hmade.keeps hgood) hr hinode hwalk hpath rfl hvacant
        have hlookup := (lookup_of_walk (hmade.root.trans hr)).mpr (walk_of_find (hmade.root.trans hr) hfind)
        exact ⟨⟨hmade.good hgood hused hlisted fun hne => absurd hr hne, hplaced.grows, hplaced.fixed rfl hlookup⟩,
          hlookup, hbut⟩
      rw [hmeets]
      refine ⟨⟨fun h => ?_, fun h => ⟨(hforward h).1.good.orderly, (hforward h).2⟩⟩, fun h => (hforward h).1⟩
      obtain ⟨-, hlookup, hbut⟩ := h
      have hfound := (lookup_of_walk (hmade.root.trans hr)).mp hlookup
      obtain ⟨init, hinit, hparent, -⟩ := hplaced.found hgood hr hfound
      have hnil : init = [] := (hplaced.rooted hgood hr).walk_inj hparent rfl
      rw [hnil, List.nil_append] at hinit
      refine ⟨by rw [hinit, hname], hplaced.vacant hgood hr hinode hwalk hinit rfl hfound hbut⟩

/-- A hard link is found at its path at most, since a name that is cut off leads to a directory on the way. -/
theorem linkat_step {oldPath newPath : Bytes} {ok : Bool} (hgood : Good v) (hadm : Admissible v newPath)
    (h : LinkResult v newPath ok w) :
    Next v (.linkat oldPath newPath, .done ok) w ∧ Moves v w (.linkat oldPath newPath, .done ok) := by
  cases h with
  | refused => exact ⟨⟨hgood, .refl v, True.intro⟩, fun _ => rfl⟩
  | @linked d r old _ hr hold hplaced hname hinode hinodes hinodeUsed _ =>
      have hkeeps : Keeps v w := fun e he => by
        rw [contentOf, contentOf, (hplaced.kept e (hplaced.ne he)).2.1, hinodes]
      have hgood' : Good w := by
        refine hgood.placed hplaced (fun i hi => ?_) (fun i hi => by rwa [hinodeUsed]) (fun h => by cases h)
          fun hne => absurd hr hne
        rw [hinode] at hi
        rw [hinodeUsed]
        exact hgood.inode old i hold hi
      refine ⟨⟨hgood', hplaced.grows, True.intro⟩, ?_⟩
      have hsame : Same v w → Moves v w (.linkat oldPath newPath, .done true) := fun h => ⟨fun q _ => h q, fun _ => h _⟩
      have hlisted := hplaced.listed_eq hgood (q := r) (n := (w.dentries d).name) (hplaced.ne hplaced.above)
      rw [if_neg fun hall => Bool.false_ne_true hall.2.1, Option.or_none] at hlisted
      have hchild : w.lookupChild r (w.dentries d).name = (v.lookupChild r (w.dentries d).name).or
          (if (w.dentries d).inode.isSome = true then some d else none) := by
        rw [lookupChild_eq, lookupChild_eq, hlisted, hplaced.stray_eq hgood, Option.or_assoc]
        congr 2
        exact if_congr ⟨fun h => h.2.1, fun h => ⟨rfl, h, rfl⟩⟩ rfl rfl
      cases hfound : v.lookupChild r (w.dentries d).name with
      | some y => exact hsame (hplaced.same hgood hkeeps (by rw [hchild, hfound, Option.some_or]))
      | none =>
          by_cases hsome : (w.dentries d).inode.isSome = true
          · have hnone := Option.or_eq_none_iff.mp ((lookupChild_eq _ _ _).symm.trans hfound)
            have hgrafted := hplaced.grafted hgood hsome hnone.1 (Or.inr hnone.2) fun y n hy => by
              rw [hfound] at hy
              cases hy
            have hroot : r ≠ d := hplaced.ne hplaced.above
            have hothers : ∀ q, components q ≠ [(w.dentries d).name] → find w q = find v q := fun q hq =>
              find_eq_of_walk hgood hr (hplaced.root.trans hr) hkeeps
                (hgrafted.walk_other (hgood.rooted hr) hroot (show Walks.walk v.lookupChild r [] = some r from rfl) hq)
            by_cases hcomponent : (w.dentries d).name ≠ [] ∧ slash ∉ (w.dentries d).name
            · have hpath : components newPath = [(w.dentries d).name] := by
                rw [hname] at hcomponent hfound ⊢
                have hshort := hadm.short
                rw [← components_stripSlash] at hshort
                obtain ⟨rest, hrest⟩ := components_take hshort hcomponent.1 hcomponent.2
                rw [components_stripSlash] at hrest
                cases rest with
                | nil => exact hrest
                | cons next rest =>
                    obtain ⟨r', p, hr', hp⟩ := hadm.parent
                    rw [hr] at hr'
                    cases hr'
                    rw [walk_eq, hrest, List.dropLast_cons_cons, Walks.walk_cons, hfound] at hp
                    cases hp
              refine ⟨fun q hq => hothers q (hpath ▸ hq), fun hne => absurd ?_ hne⟩
              rw [lookup_of_walk hr, hpath, Walks.walk_cons, hfound]
              rfl
            · refine hsame fun q => hothers q fun hq => hcomponent ?_
              have hmem : (w.dentries d).name ∈ components q := by
                rw [hq]
                exact List.mem_cons_self
              exact ⟨ne_nil_of_mem_components hmem, slash_notMem_of_mem_components hmem⟩
          · refine hsame (hplaced.same hgood hkeeps ?_)
            rw [hchild, hfound, if_neg hsome, Option.or_none]

/-- What does not touch the dentries does not touch the paths. -/
theorem lookup_congr (hr : v.rootDentry = some r) (hr' : w.rootDentry = some r) (hd : w.dentries = v.dentries)
    (hu : w.dentryUsed = v.dentryUsed) (q : Bytes) : w.lookup q = v.lookup q := by
  have hchild : ∀ p n, w.lookupChild p n = v.lookupChild p n := fun p n => by
    rw [lookupChild_eq, lookupChild_eq, listed, listed, stray, stray, hd, hu]
  rw [lookup_eq hr, lookup_eq hr']
  refine congrArg Outcome.ok (Walks.walk_congr (P := fun _ => True) True.intro (fun _ _ _ _ _ => True.intro) ?_ _)
  exact fun p n _ => hchild p n

/-- `unlinkat` finds what it returns true for, and leaves it where it is. -/
theorem unlinkat_step {ok : Bool} (hgood : Good v) (h : unlinkat path v = (.ok ok, w)) :
    (Refines v (.unlinkat path, .done ok) w ↔ Meets v (.unlinkat path)) ∧
      (Meets v (.unlinkat path) → Next v (.unlinkat path, .done ok) w) := by
  obtain ⟨r, hr, -⟩ := hgood.root
  rw [unlinkat, Act.get_bind_run, lookup_eq hr, Act.lift_ok_bind_run] at h
  cases hfound : Walks.walk v.lookupChild r (components path) with
  | none =>
      rw [hfound] at h
      cases h
      exact ⟨iff_of_true ⟨hgood.orderly, fun _ => rfl⟩ ((lookup_of_walk hr).mpr hfound),
        fun _ => ⟨hgood, .refl v, True.intro⟩⟩
  | some d =>
      rw [hfound] at h
      have hsome := (lookup_of_walk hr).mpr hfound
      have hnot : ¬Meets v (.unlinkat path) := fun hnone => by
        have heq := hsome.symm.trans hnone
        cases heq
      have hkept : ok = true ∧ w.lookup path = v.lookup path := by
        cases hi : (v.dentries d).inode with
        | none =>
            simp only [hi] at h
            cases h
            exact ⟨rfl, rfl⟩
        | some i =>
            simp only [hi, releaseInodeSlot, Act.modify_bind_run] at h
            obtain ⟨hok, hw⟩ := Prod.mk.inj h
            exact ⟨(Outcome.ok.inj hok).symm, lookup_congr hr (by rw [← hw]; exact hr) (by rw [← hw]) (by rw [← hw]) path⟩
      rw [hkept.1]
      refine ⟨iff_of_false (fun h => ?_) hnot, fun h => absurd h hnot⟩
      have heq := (hkept.2.trans hsome).symm.trans h.2.1
      cases heq

theorem Good.allocator (h : Good v) (available : Nat → Bool) : Good { v with available } :=
  ⟨⟨h.root, h.leaf, h.children⟩, h.front, h.up, h.inode, h.distinct, h.named⟩

/-- A step does what is expected of it exactly if it meets the condition, which keeps the order. -/
theorem step_exact {step : Call × Reply} (hgood : Good v) (h : Step v step w) :
    (Refines v step w ↔ Meets v step.1) ∧ (Meets v step.1 → Next v step w) := by
  obtain ⟨call, reply⟩ := step
  obtain ⟨hadm, hrun⟩ := h
  cases call with
  | createFile path content =>
      obtain ⟨d, t, hcreate, hpure⟩ := Act.bind_run_eq_ok hrun
      cases hpure
      exact createFile_step hgood (hadm path List.mem_cons_self) ((createFile_ensures hgood.toLinked path content).of_ok hcreate)
  | mkdiratImpl path mode =>
      obtain ⟨d, t, hmkdir, hpure⟩ := Act.bind_run_eq_ok hrun
      cases hpure
      exact mkdirat_step hgood ((mkdirat_ensures hgood.toLinked path mode).of_ok hmkdir)
  | linkat oldPath newPath =>
      obtain ⟨ok, t, hlink, hpure⟩ := Act.bind_run_eq_ok hrun
      cases hpure
      have hadm' : Admissible v newPath := hadm newPath (List.mem_cons_of_mem _ List.mem_cons_self)
      have hall := @linkat_step _ _ oldPath _ _ hgood hadm' ((linkat_ensures hgood.toLinked oldPath newPath).of_ok hlink)
      exact ⟨iff_of_true ⟨hall.1.good.orderly, hall.2⟩ True.intro, fun _ => hall.1⟩
  | unlinkat path =>
      obtain ⟨ok, t, hunlink, hpure⟩ := Act.bind_run_eq_ok hrun
      cases hpure
      exact unlinkat_step hgood hunlink
  | lookup path =>
      obtain ⟨d, -, hpure⟩ := Act.lift_bind_run_eq_ok hrun
      cases hpure
      have hsame : Moves v v (.lookup path, .dentry d) := fun _ => rfl
      exact ⟨iff_of_true ⟨hgood.orderly, hsame⟩ True.intro, fun _ => ⟨hgood, .refl v, True.intro⟩⟩
  | allocator available =>
      cases hrun
      obtain ⟨r, hr, -⟩ := hgood.root
      have hgood' := hgood.allocator available
      have hsame : Moves v { v with available } (.allocator available, .done true) := fun q => by
        have hlookup := lookup_congr (w := { v with available }) hr hr rfl rfl q
        rw [find, find, hlookup]
        rfl
      exact ⟨iff_of_true ⟨hgood'.orderly, hsame⟩ True.intro, fun _ => ⟨hgood', .refl v, True.intro⟩⟩

/-! ### What has been created -/

theorem find_congr {q : Bytes} (hgood : Good v) (h : components q = components path) : find v q = find v path := by
  obtain ⟨r, hr, -⟩ := hgood.root
  rw [find_eq hr, find_eq hr, h]

theorem Fixed.not_vacant (h : Fixed v path d) {q : Bytes} (hgood : Good v) (hq : components q = components path) :
    ¬Vacant v q := by
  intro hvacant
  obtain ⟨r, hr, -⟩ := hgood.root
  have hfound : v.lookup q = .ok (some d) := by
    rw [lookup_eq hr, hq, ← lookup_eq hr]
    exact h.found
  obtain ⟨⟨p, hp, hroom, hnot⟩, -⟩ := hvacant d hfound
  obtain ⟨p', hp', hlisted⟩ := h.listed
  rw [hp] at hp'
  cases hp'
  exact hnot (hlisted hroom)

/-- A path that is fixed leads to the same after the step. -/
theorem Fixed.find {step : Call × Reply} (h : Fixed v path d) (hgood : Good v) (hstep : Step v step w)
    (hmeets : Meets v step.1) : find w path = find v path := by
  have hexact := step_exact hgood hstep
  have hgood' := (hexact.2 hmeets).good
  obtain ⟨-, hmoves⟩ := hexact.1.mpr hmeets
  obtain ⟨call, reply⟩ := step
  obtain ⟨-, hrun⟩ := hstep
  cases call with
  | createFile q content =>
      obtain ⟨reply, t, hcreate, hpure⟩ := Act.bind_run_eq_ok hrun
      cases hpure
      cases reply with
      | none => exact hmoves path
      | some e =>
          have hresult := (createFile_ensures hgood.toLinked q content).of_ok hcreate
          cases hresult with
          | made hmade _ hspace _ _ =>
              rcases hmeets with hno | ⟨hall, -⟩
              · exact absurd hno hmade.slots.not_noSlot
              · exact hmoves.2 path fun heq => h.not_vacant hgood heq.symm (hall hspace).2
  | mkdiratImpl q mode =>
      obtain ⟨reply, t, hmkdir, hpure⟩ := Act.bind_run_eq_ok hrun
      cases hpure
      cases reply with
      | none => exact hmoves path
      | some e =>
          have hresult := (mkdirat_ensures hgood.toLinked q mode).of_ok hmkdir
          cases hresult with
          | made _ hmade _ =>
              rcases hmeets with hno | ⟨-, hvacant⟩
              · exact absurd hno hmade.slots.not_noSlot
              · exact hmoves.2 path fun heq => h.not_vacant hgood heq.symm hvacant
  | linkat oldPath newPath =>
      obtain ⟨ok, t, -, hpure⟩ := Act.bind_run_eq_ok hrun
      cases hpure
      cases ok with
      | false => exact hmoves path
      | true =>
          by_cases heq : components path = components newPath
          · rw [find_congr hgood' heq, find_congr hgood heq]
            refine hmoves.2 fun hnone => ?_
            obtain ⟨r, hr, -⟩ := hgood.root
            rw [lookup_eq hr, ← heq, ← lookup_eq hr, h.found] at hnone
            cases hnone
          · exact hmoves.1 path heq
  | unlinkat q =>
      obtain ⟨ok, t, -, hpure⟩ := Act.bind_run_eq_ok hrun
      cases hpure
      cases ok with
      | false => exact hmoves path
      | true =>
          refine hmoves.2 path fun heq => ?_
          obtain ⟨r, hr, -⟩ := hgood.root
          have hnone : v.lookup q = .ok none := hmeets
          rw [lookup_eq hr, ← heq, ← lookup_eq hr, h.found] at hnone
          cases hnone
  | lookup q =>
      obtain ⟨e, -, hpure⟩ := Act.lift_bind_run_eq_ok hrun
      cases hpure
      rfl
  | allocator available =>
      cases hrun
      exact hmoves path

theorem Fixed.next {step : Call × Reply} (h : Fixed v path d) (hgood : Good v) (hstep : Step v step w)
    (hmeets : Meets v step.1) : Fixed w path d := by
  obtain ⟨hgood', hgrows, -⟩ := (step_exact hgood hstep).2 hmeets
  obtain ⟨r, hr, -⟩ := hgood.root
  obtain ⟨r', hr', -⟩ := hgood'.root
  have hfound := (lookup_of_walk hr).mp h.found
  have hused := hgood.walk_used hr hfound
  obtain ⟨p, hp, hlisted⟩ := h.listed
  obtain ⟨hparent, -⟩ := hgrows d hused
  obtain ⟨-, more, hmore⟩ := hgrows p (hgood.up d p hused hp)
  refine ⟨?_, p, hparent.trans hp, fun hroom => ?_⟩
  · have hfind := h.find hgood hstep hmeets
    rw [find_eq hr, hfound, Option.map_some] at hfind
    exact (lookup_of_walk hr').mpr (walk_of_find hr' hfind)
  · rw [hmore] at hroom ⊢
    rw [List.length_append] at hroom
    exact List.mem_append_left _ (hlisted (Nat.lt_of_le_of_lt (Nat.le_add_right _ _) hroom))

theorem Stands.next {step created : Call × Reply} (h : Stands v created) (hgood : Good v) (hstep : Step v step w)
    (hmeets : Meets v step.1) : Stands w created := by
  obtain ⟨call, reply⟩ := created
  cases call with
  | createFile path content =>
      rcases reply with (_ | d) | ok
      · exact True.intro
      · exact ⟨(h.2.find hgood hstep hmeets).trans h.1, h.2.next hgood hstep hmeets⟩
      · exact True.intro
  | mkdiratImpl path mode =>
      rcases reply with (_ | d) | ok
      · exact True.intro
      · exact Fixed.next h hgood hstep hmeets
      · exact True.intro
  | linkat | unlinkat | lookup | allocator => exact True.intro

theorem run_stands {trace : List (Call × Reply)} (hgood : Good v)
    (h : Runs.Run (fun v step w => Step v step w ∧ Meets v step.1) v trace w) :
    Good w ∧ ∀ created ∈ trace, Stands w created := by
  refine Runs.Run.history (P := fun trace w => Good w ∧ ∀ created ∈ trace, Stands w created) h
    ⟨hgood, fun _ hmem => by cases hmem⟩ ?_
  rintro trace v step w - ⟨hgood, hstands⟩ ⟨hstep, hmeets⟩
  have hnext := (step_exact hgood hstep).2 hmeets
  refine ⟨hnext.good, fun created hmem => ?_⟩
  rcases List.mem_append.mp hmem with hmem | hmem
  · exact (hstands created hmem).next hgood hstep hmeets
  · rw [List.mem_singleton.mp hmem]
    exact hnext.stands

end Steps

end Kernel.Naming
