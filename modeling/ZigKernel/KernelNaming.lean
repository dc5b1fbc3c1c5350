import ZigKernel.KernelBoot
import ZigKernel.KernelPath

/-! The dentries as a tree of names. As long as every entry of a children array is a used dentry below its holder, a name
leads to the dentries that stand under it, and a dentry that is added changes what one path leads to and nothing else. -/

namespace Kernel.Naming

open Zig Vfs

/-! ### The two places where a child is looked for -/

section Children

variable {v w : Vfs} {d e p q : Fin maxDentries} {n : Bytes}

/-- In the children array. -/
def listed (v : Vfs) (p : Fin maxDentries) (n : Bytes) : Option (Fin maxDentries) :=
  ((v.dentries p).children.filterMap id).find? fun c => (v.dentries c).name == n

/-- Whether a slot holds a dentry of this name and parent. -/
def standsBelow (p : Fin maxDentries) (n : Bytes) (slot : Bool × Dentry) : Bool :=
  slot.1 && slot.2.inode.isSome && slot.2.parent == some p && slot.2.name == n

/-- Among all slots. -/
def stray (v : Vfs) (p : Fin maxDentries) (n : Bytes) : Option (Fin maxDentries) :=
  Table.find? (fun i => (v.dentryUsed i, v.dentries i)) (standsBelow p n)

theorem lookupChild_eq (v : Vfs) (p : Fin maxDentries) (n : Bytes) : v.lookupChild p n = (listed v p n).or (stray v p n) := by
  rw [lookupChild, listed]
  cases ((v.dentries p).children.filterMap id).find? fun c => (v.dentries c).name == n <;> rfl

theorem standsBelow_iff {slot : Bool × Dentry} : standsBelow p n slot = true ↔
    slot.1 = true ∧ slot.2.inode.isSome = true ∧ slot.2.parent = some p ∧ slot.2.name = n := by
  simp only [standsBelow, Bool.and_eq_true, beq_iff_eq, and_assoc]

theorem listed_some (h : listed v p n = some d) : some d ∈ (v.dentries p).children ∧ (v.dentries d).name = n := by
  obtain ⟨c, hc, hid⟩ := List.mem_filterMap.mp (List.mem_of_find?_eq_some h)
  rw [id_eq] at hid
  rw [hid] at hc
  exact ⟨hc, eq_of_beq (List.find?_some (p := fun c => (v.dentries c).name == n) h)⟩

theorem listed_nil (h : (v.dentries p).children = []) : listed v p n = none := by
  rw [listed, h]
  rfl

theorem stray_some (h : stray v p n = some d) : v.dentryUsed d = true ∧ (v.dentries d).inode.isSome = true ∧
    (v.dentries d).parent = some p ∧ (v.dentries d).name = n := standsBelow_iff.mp (Table.find?_some h)

end Children

/-- The names in a children array. -/
def names (v : Vfs) (p : Fin maxDentries) : List Bytes :=
  ((v.dentries p).children.filterMap id).map fun c => (v.dentries c).name

/-- The entries of the children arrays are used dentries below their holders. -/
structure Linked (v : Vfs) : Prop where
  root : ∃ r, v.rootDentry = some r ∧ v.dentryUsed r = true ∧ (v.dentries r).parent = none
  leaf : ∀ d, v.dentryUsed d = false → (v.dentries d).children = []
  children : ∀ p c, c ∈ (v.dentries p).children → ∃ x, c = some x ∧ v.dentryUsed x = true ∧
    (v.dentries x).parent = some p ∧ (v.dentries x).inode.isSome = true

/-- A child is a used dentry. -/
theorem Linked.child_used {v : Vfs} (h : Linked v) {p c : Fin maxDentries}
    (hc : c ∈ (v.dentries p).children.filterMap id) : v.dentryUsed c = true := by
  obtain ⟨c', hc', hid⟩ := List.mem_filterMap.mp hc
  rw [id_eq] at hid
  rw [hid] at hc'
  obtain ⟨x, hx, hused, -⟩ := h.children p _ hc'
  cases hx
  exact hused

/-- The dentries are in order. -/
structure Good (v : Vfs) : Prop extends Linked v where
  front : ∀ d e, v.dentryUsed d = true → v.dentryUsed e = false → d < e
  up : ∀ d p, v.dentryUsed d = true → (v.dentries d).parent = some p → v.dentryUsed p = true
  inode : ∀ d i, v.dentryUsed d = true → (v.dentries d).inode = some i → v.inodeUsed i = true
  distinct : ∀ p, (names v p).Nodup
  named : ∀ d p, v.dentryUsed d = true → (v.dentries d).parent = some p → v.rootDentry ≠ some p →
    components (v.dentries d).name = [(v.dentries d).name]

section Good

variable {v w : Vfs} {d e p q r : Fin maxDentries} {n : Bytes}

theorem Linked.child (h : Linked v) (hc : v.lookupChild p n = some d) : v.dentryUsed d = true ∧
    (v.dentries d).inode.isSome = true ∧ (v.dentries d).parent = some p ∧ (v.dentries d).name = n := by
  rw [lookupChild_eq] at hc
  rcases Option.or_eq_some_iff.mp hc with hlisted | ⟨-, hstray⟩
  · obtain ⟨hmem, hname⟩ := listed_some hlisted
    obtain ⟨x, hx, hused, hparent, hinode⟩ := h.children p _ hmem
    cases hx
    exact ⟨hused, hinode, hparent, hname⟩
  · exact stray_some hstray

theorem Linked.rooted (h : Linked v) (hr : v.rootDentry = some r) :
    Walks.Rooted v.lookupChild r (fun d => (v.dentries d).parent) (fun d => (v.dentries d).name) where
  up := fun _ _ _ hc => (h.child hc).2.2.1
  named := fun _ _ _ hc => (h.child hc).2.2.2
  top := by
    obtain ⟨r', hr', -, htop⟩ := h.root
    rw [hr] at hr'
    cases hr'
    exact htop

theorem Linked.root_used (h : Linked v) (hr : v.rootDentry = some r) : v.dentryUsed r = true := by
  obtain ⟨r', hr', hused, -⟩ := h.root
  rw [hr] at hr'
  cases hr'
  exact hused

/-- A walk stays among the used dentries. -/
theorem Linked.walk_used (h : Linked v) (hr : v.rootDentry = some r) {labels : List Bytes}
    (hwalk : Walks.walk v.lookupChild r labels = some d) : v.dentryUsed d = true :=
  Walks.walk_induction (P := fun d => v.dentryUsed d = true) (h.root_used hr) (fun _ _ _ _ hc => (h.child hc).1) hwalk

/-- No dentry stands below one that is not used. -/
theorem Good.no_child (h : Good v) (hd : v.dentryUsed d = false) : v.lookupChild d n = none := by
  cases hc : v.lookupChild d n with
  | none => rfl
  | some c =>
      obtain ⟨hused, -, hparent, -⟩ := h.child hc
      rw [h.up c d hused hparent] at hd
      cases hd

/-- What a children array lists has the name that it is found by. -/
theorem Good.listed_name (h : Good v) (hd : some d ∈ (v.dentries p).children) :
    listed v p (v.dentries d).name = some d := by
  have hmem : d ∈ (v.dentries p).children.filterMap id := List.mem_filterMap.mpr ⟨some d, hd, rfl⟩
  cases hfind : listed v p (v.dentries d).name with
  | none =>
      have hnot := List.find?_eq_none.mp hfind d hmem
      exact absurd (beq_self_eq_true _) hnot
  | some e =>
      obtain ⟨he, hname⟩ := listed_some hfind
      have hmem' : e ∈ (v.dentries p).children.filterMap id := List.mem_filterMap.mpr ⟨some e, he, rfl⟩
      exact congrArg some (List.inj_on_of_nodup_map (h.distinct p) hmem' hmem hname)

end Good

/-! ### A dentry is added -/

/-- The first free slot `d` has got a dentry below `p`, which the children array of `p` lists if `l` says so. -/
structure Placed (v w : Vfs) (d p : Fin maxDentries) (l : Bool) : Prop where
  free : v.dentryUsed d = false
  before : ∀ e, e < d → v.dentryUsed e = true
  used : w.dentryUsed = Function.update v.dentryUsed d true
  root : w.rootDentry = v.rootDentry
  above : v.dentryUsed p = true
  parent : (w.dentries d).parent = some p
  leaf : (w.dentries d).children = []
  kept : ∀ e, e ≠ d → (w.dentries e).name = (v.dentries e).name ∧ (w.dentries e).inode = (v.dentries e).inode ∧
    (w.dentries e).parent = (v.dentries e).parent
  children : ∀ e, e ≠ d → (w.dentries e).children =
    if e = p ∧ l = true then (v.dentries e).children ++ [some d] else (v.dentries e).children

section Placed

variable {v w : Vfs} {d e p q r : Fin maxDentries} {n : Bytes} {l : Bool}

theorem Placed.ne (h : Placed v w d p l) (he : v.dentryUsed e = true) : e ≠ d := by
  rintro rfl
  rw [h.free] at he
  cases he

theorem Placed.used_old (h : Placed v w d p l) (he : e ≠ d) : w.dentryUsed e = v.dentryUsed e := by
  rw [h.used, Function.update_of_ne he]

theorem Placed.used_self (h : Placed v w d p l) : w.dentryUsed d = true := by rw [h.used, Function.update_self]

theorem find?_congr_mem {α : Type} {xs : List α} {f g : α → Bool} (h : ∀ x ∈ xs, f x = g x) : xs.find? f = xs.find? g := by
  induction xs with
  | nil => rfl
  | cons x xs ih =>
      rw [List.find?_cons, List.find?_cons, h x List.mem_cons_self, ih fun y hy => h y (List.mem_cons_of_mem x hy)]

theorem Placed.listed_eq (h : Placed v w d p l) (hgood : Good v) (hq : q ≠ d) : listed w q n =
    (listed v q n).or (if q = p ∧ l = true ∧ (w.dentries d).name = n then some d else none) := by
  have hold : ((v.dentries q).children.filterMap id).find? (fun c => (w.dentries c).name == n) = listed v q n := by
    refine find?_congr_mem fun c hc => ?_
    rw [(h.kept c (h.ne (hgood.child_used hc))).1]
  rw [listed, h.children q hq]
  by_cases hl : q = p ∧ l = true
  · rw [if_pos hl, List.filterMap_append, List.find?_append, hold]
    congr 1
    by_cases hname : (w.dentries d).name = n
    · rw [if_pos ⟨hl.1, hl.2, hname⟩]
      exact List.find?_cons_of_pos (beq_iff_eq.mpr hname)
    · rw [if_neg fun hall => hname hall.2.2]
      exact List.find?_cons_of_neg fun heq => hname (beq_iff_eq.mp heq)
  · rw [if_neg hl, hold, if_neg fun hall => hl ⟨hall.1, hall.2.1⟩, Option.or_none]

theorem Placed.stray_eq (h : Placed v w d p l) (hgood : Good v) : stray w q n =
    (stray v q n).or (if q = p ∧ (w.dentries d).inode.isSome = true ∧ (w.dentries d).name = n then some d else none) := by
  rw [stray, stray, Table.find?_or_last (t := fun i => (v.dentryUsed i, v.dentries i)) (d := d)]
  · congr 1
    refine if_congr ?_ rfl rfl
    rw [standsBelow_iff, h.used_self, h.parent]
    refine ⟨fun hall => ⟨(Option.some.inj hall.2.2.1).symm, hall.2.1, hall.2.2.2⟩, fun hall => ⟨rfl, hall.2.1, ?_, hall.2.2⟩⟩
    rw [hall.1]
  · intro i hi
    obtain ⟨hname, hinode, hparent⟩ := h.kept i hi
    rw [standsBelow, standsBelow, h.used_old hi, hname, hinode, hparent]
  · intro i hi
    exact hgood.front i d (standsBelow_iff.mp hi).1 h.free

/-- Elsewhere nothing has changed. -/
theorem Placed.other (h : Placed v w d p l) (hgood : Good v) (hq : q ≠ d) (hne : ¬(q = p ∧ n = (w.dentries d).name)) :
    w.lookupChild q n = v.lookupChild q n := by
  rw [lookupChild_eq, lookupChild_eq, h.listed_eq hgood hq, h.stray_eq hgood, if_neg fun hall => hne ⟨hall.1, hall.2.2.symm⟩,
    if_neg fun hall => hne ⟨hall.1, hall.2.2.symm⟩, Option.or_none, Option.or_none]

/-- Below the new dentry there is nothing. -/
theorem Placed.below (h : Placed v w d p l) (hgood : Good v) : w.lookupChild d n = none := by
  have hstray : stray v d n = none := by
    have hnone := hgood.no_child h.free (n := n)
    rw [lookupChild_eq] at hnone
    exact (Option.or_eq_none_iff.mp hnone).2
  rw [lookupChild_eq, listed_nil h.leaf, h.stray_eq hgood, hstray, if_neg]
  · rfl
  · rintro ⟨rfl, -⟩
    exact h.ne h.above rfl

/-- What its name leads to below its parent. -/
theorem Placed.new (h : Placed v w d p l) (hgood : Good v) (hinode : (w.dentries d).inode.isSome = true) :
    w.lookupChild p (w.dentries d).name = (listed v p (w.dentries d).name).or
      (if l = true then some d else (stray v p (w.dentries d).name).or (some d)) := by
  have hstray := h.stray_eq hgood (q := p) (n := (w.dentries d).name)
  rw [if_pos ⟨rfl, hinode, rfl⟩] at hstray
  rw [lookupChild_eq, h.listed_eq hgood (h.ne h.above), hstray]
  cases l with
  | true =>
      rw [if_pos ⟨rfl, rfl, rfl⟩, if_pos rfl, Option.or_assoc, Option.some_or]
  | false =>
      rw [if_neg fun hall => Bool.false_ne_true hall.2.1, if_neg Bool.false_ne_true, Option.or_none]

/-- Nothing was found in the slot before. -/
theorem Placed.fresh (h : Placed v w d p l) (hgood : Good v) : v.lookupChild q n ≠ some d := fun hc =>
  h.ne (hgood.child hc).1 rfl

theorem notMem_names (h : listed v p n = none) : n ∉ names v p := by
  intro hmem
  obtain ⟨c, hc, rfl⟩ := List.mem_map.mp hmem
  exact absurd (beq_self_eq_true _) (List.find?_eq_none.mp h c hc)

/-- The names of the dentries that were listed. -/
theorem Placed.map_names (h : Placed v w d p l) (hgood : Good v) (q : Fin maxDentries) :
    ((v.dentries q).children.filterMap id).map (fun c => (w.dentries c).name) = names v q := by
  refine List.map_congr_left fun c hc => ?_
  exact (h.kept c (h.ne (hgood.child_used hc))).1

theorem Placed.names_eq (h : Placed v w d p l) (hgood : Good v) (hq : q ≠ d) : names w q =
    if q = p ∧ l = true then names v q ++ [(w.dentries d).name] else names v q := by
  rw [names, h.children q hq]
  split
  · rw [List.filterMap_append, List.map_append, h.map_names hgood]
    rfl
  · rw [h.map_names hgood]

theorem Placed.mem_children (h : Placed v w d p l) {c : Option (Fin maxDentries)} (hc : c ∈ (w.dentries q).children) :
    c ∈ (v.dentries q).children ∧ q ≠ d ∨ c = some d ∧ q = p ∧ l = true := by
  by_cases hq : q = d
  · rw [hq, h.leaf] at hc
    cases hc
  · rw [h.children q hq] at hc
    split at hc
    · next hl =>
      rcases List.mem_append.mp hc with hc | hc
      · exact Or.inl ⟨hc, hq⟩
      · exact Or.inr ⟨List.mem_singleton.mp hc, hl⟩
    · exact Or.inl ⟨hc, hq⟩

theorem Linked.placed (hlinked : Linked v) (h : Placed v w d p l)
    (hlisted : l = true → (w.dentries d).inode.isSome = true) : Linked w := by
  have hkeep : ∀ e, v.dentryUsed e = true → w.dentryUsed e = true := fun e he => by
    rwa [h.used_old (h.ne he)]
  constructor
  case root =>
    obtain ⟨r, hr, hused, hparent⟩ := hlinked.root
    exact ⟨r, h.root.trans hr, hkeep r hused, (h.kept r (h.ne hused)).2.2.trans hparent⟩
  case leaf =>
    intro x hx
    have hxd : x ≠ d := by
      rintro rfl
      rw [h.used_self] at hx
      cases hx
    rw [h.used_old hxd] at hx
    rw [h.children x hxd, if_neg]
    · exact hlinked.leaf x hx
    · rintro ⟨rfl, -⟩
      rw [h.above] at hx
      cases hx
  case children =>
    intro q c hc
    rcases h.mem_children hc with ⟨hc, -⟩ | ⟨rfl, rfl, hl⟩
    · obtain ⟨x, rfl, hused, hparent, hin⟩ := hlinked.children q c hc
      obtain ⟨-, hi, hp⟩ := h.kept x (h.ne hused)
      exact ⟨x, rfl, hkeep x hused, hp.trans hparent, by rwa [hi]⟩
    · exact ⟨d, rfl, h.used_self, h.parent, hlisted hl⟩

/-- The order is kept if the new dentry has a name of its own where it is listed. -/
theorem Good.placed (hgood : Good v) (h : Placed v w d p l)
    (hinode : ∀ i, (w.dentries d).inode = some i → w.inodeUsed i = true)
    (hmono : ∀ i, v.inodeUsed i = true → w.inodeUsed i = true)
    (hlisted : l = true → (w.dentries d).inode.isSome = true ∧ listed v p (w.dentries d).name = none)
    (hnamed : v.rootDentry ≠ some p → components (w.dentries d).name = [(w.dentries d).name]) : Good w := by
  have hold : ∀ e, w.dentryUsed e = true → e ≠ d → v.dentryUsed e = true := fun e he hne => by
    rwa [h.used_old hne] at he
  have hkeep : ∀ e, v.dentryUsed e = true → w.dentryUsed e = true := fun e he => by
    rwa [h.used_old (h.ne he)]
  constructor
  case toLinked => exact hgood.toLinked.placed h fun hl => (hlisted hl).1
  case front =>
    intro x e hx he
    have hed : e ≠ d := by
      rintro rfl
      rw [h.used_self] at he
      cases he
    rw [h.used_old hed] at he
    by_cases hxd : x = d
    · rw [hxd]
      refine lt_of_le_of_ne (le_of_not_gt fun hlt => ?_) (Ne.symm hed)
      rw [h.before e hlt] at he
      cases he
    · exact hgood.front x e (hold x hx hxd) he
  case up =>
    intro x q hx hq
    by_cases hxd : x = d
    · rw [hxd, h.parent] at hq
      cases hq
      exact hkeep p h.above
    · rw [(h.kept x hxd).2.2] at hq
      exact hkeep q (hgood.up x q (hold x hx hxd) hq)
  case inode =>
    intro x i hx hi
    by_cases hxd : x = d
    · rw [hxd] at hi
      exact hinode i hi
    · rw [(h.kept x hxd).2.1] at hi
      exact hmono i (hgood.inode x i (hold x hx hxd) hi)
  case distinct =>
    intro q
    by_cases hq : q = d
    · rw [names, hq, h.leaf]
      exact List.nodup_nil
    · rw [h.names_eq hgood hq]
      split
      · next hl =>
        have hnot := notMem_names (hlisted hl.2).2
        rw [← hl.1] at hnot
        refine List.nodup_append.mpr ⟨hgood.distinct q, List.nodup_singleton _, fun a ha b hb => ?_⟩
        rw [List.mem_singleton] at hb
        rintro rfl
        rw [hb] at ha
        exact hnot ha
      · exact hgood.distinct q
  case named =>
    intro x q hx hq hroot
    rw [h.root] at hroot
    by_cases hxd : x = d
    · rw [hxd] at hq ⊢
      rw [h.parent] at hq
      cases hq
      exact hnamed hroot
    · obtain ⟨hname, -, hp⟩ := h.kept x hxd
      rw [hp] at hq
      rw [hname]
      exact hgood.named x q (hold x hx hxd) hq hroot

end Placed

/-! ### What a path leads to -/

/-- The bytes of the inode of a dentry. -/
def contentOf (v : Vfs) (d : Fin maxDentries) : Option Bytes := (v.dentries d).inode.bind fun i => (v.inodes i).data

/-- A dentry with its content. -/
structure Entry where
  dentry : Fin maxDentries
  content : Option Bytes

/-- The tree: what each path leads to. -/
def find (v : Vfs) (path : Bytes) : Outcome Spins (Option Entry) := do
  let found ← v.lookup path
  pure (found.map fun d => ⟨d, contentOf v d⟩)

/-- Every path leads to the same as before. -/
def Same (v w : Vfs) : Prop := ∀ q, find w q = find v q

/-- Every path but this one does, however it is written. -/
def SameBut (v w : Vfs) (path : Bytes) : Prop := ∀ q, components q ≠ components path → find w q = find v q

/-- The contents of the used dentries are kept. -/
def Keeps (v w : Vfs) : Prop := ∀ d, v.dentryUsed d = true → contentOf w d = contentOf v d

section Find

variable {v w : Vfs} {d p r : Fin maxDentries} {l : Bool} {path q : Bytes}

theorem find_eq (hr : v.rootDentry = some r) (path : Bytes) : find v path =
    .ok ((Walks.walk v.lookupChild r (components path)).map fun d => ⟨d, contentOf v d⟩) := by
  rw [find, lookup_eq hr]
  rfl

theorem find_eq_of_walk (hgood : Good v) (hr : v.rootDentry = some r) (hr' : w.rootDentry = some r) (hkeeps : Keeps v w)
    (hwalk : Walks.walk w.lookupChild r (components q) = Walks.walk v.lookupChild r (components q)) :
    find w q = find v q := by
  rw [find_eq hr, find_eq hr', hwalk]
  cases hd : Walks.walk v.lookupChild r (components q) with
  | none => rfl
  | some d => rw [Option.map_some, Option.map_some, hkeeps d (hgood.walk_used hr hd)]

/-- Where the dentry takes a name that leads nowhere, or to a dentry that no array lists and nothing stands below. -/
theorem Placed.grafted (h : Placed v w d p l) (hgood : Good v) (hinode : (w.dentries d).inode.isSome = true)
    (hlisted : listed v p (w.dentries d).name = none)
    (hl : l = true ∨ stray v p (w.dentries d).name = none)
    (hvacant : ∀ y n, v.lookupChild p (w.dentries d).name = some y → v.lookupChild y n = none) :
    Walks.Grafted v.lookupChild w.lookupChild p (w.dentries d).name d where
  vacant := hvacant
  new := by
    rw [h.new hgood hinode, hlisted, Option.none_or]
    rcases hl with hl | hl
    · rw [if_pos hl]
    · split
      · rfl
      · rw [hl, Option.none_or]
  leaf := fun _ => h.below hgood
  fresh := fun _ _ => h.fresh hgood
  other := fun _ _ hq hne => h.other hgood hq hne

/-- The path of a new leaf, and the others. -/
theorem sameBut_of_grafted {n : Bytes} {labels : List Bytes} (hgood : Good v) (hr : v.rootDentry = some r)
    (hr' : w.rootDentry = some r) (hkeeps : Keeps v w) (h : Walks.Grafted v.lookupChild w.lookupChild p n d)
    (hroot : r ≠ d) (hp : Walks.walk v.lookupChild r labels = some p) (hpath : components path = labels ++ [n]) :
    find w path = .ok (some ⟨d, contentOf w d⟩) ∧ SameBut v w path := by
  refine ⟨?_, fun q hq => find_eq_of_walk hgood hr hr' hkeeps ?_⟩
  · rw [find_eq hr', hpath, h.walk_new (hgood.rooted hr) hroot hp]
    rfl
  · rw [hpath] at hq
    exact h.walk_other (hgood.rooted hr) hroot hp hq

/-- A dentry that does not change what its name leads to changes nothing. -/
theorem Placed.same (h : Placed v w d p l) (hgood : Good v) (hkeeps : Keeps v w)
    (hsame : w.lookupChild p (w.dentries d).name = v.lookupChild p (w.dentries d).name) : Same v w := by
  obtain ⟨r, hr, hused, -⟩ := hgood.root
  intro q
  refine find_eq_of_walk hgood hr (h.root.trans hr) hkeeps ?_
  refine Walks.walk_congr (P := fun c => v.dentryUsed c = true) hused (fun _ _ _ _ hc => (hgood.child hc).1) ?_ _
  intro c n hc
  by_cases hnew : c = p ∧ n = (w.dentries d).name
  · rw [hnew.1, hnew.2]
    exact hsame
  · exact h.other hgood (h.ne hc) hnew

end Find

/-! ### A slot that is not seen -/

/-- The slot `d` was free, and has got nothing that stands below anything. -/
structure Unseen (v w : Vfs) (d : Fin maxDentries) : Prop where
  free : v.dentryUsed d = false
  parent : w.dentryUsed d = true → (w.dentries d).parent = none
  others : ∀ e, e ≠ d → w.dentryUsed e = v.dentryUsed e ∧ w.dentries e = v.dentries e
  leaf : (w.dentries d).children = []

/-- And it has no inode, so that the tables are in order. -/
structure Hidden (v w : Vfs) (d : Fin maxDentries) : Prop extends Unseen v w d where
  used : w.dentryUsed d = true → (∀ e, e < d → v.dentryUsed e = true) ∧ (w.dentries d).inode = none
  root : w.rootDentry = v.rootDentry
  jail : w.jailRoot = v.jailRoot
  inodes : ∀ i, v.inodeUsed i = true → w.inodes i = v.inodes i
  inodeUsed : w.inodeUsed = v.inodeUsed

section Hidden

variable {v w : Vfs} {d q r : Fin maxDentries} {n : Bytes}

theorem Unseen.ne (h : Unseen v w d) {e : Fin maxDentries} (he : v.dentryUsed e = true) : e ≠ d := by
  rintro rfl
  rw [h.free] at he
  cases he

theorem Unseen.children (h : Unseen v w d) (hgood : Linked v) (q : Fin maxDentries) :
    (w.dentries q).children = (v.dentries q).children := by
  by_cases hq : q = d
  · rw [hq, h.leaf, hgood.leaf d h.free]
  · rw [(h.others q hq).2]

theorem Unseen.child_name (h : Unseen v w d) (hgood : Linked v) {c : Fin maxDentries}
    (hc : c ∈ (v.dentries q).children.filterMap id) : (w.dentries c).name = (v.dentries c).name := by
  rw [(h.others c (h.ne (hgood.child_used hc))).2]

theorem Unseen.lookupChild (h : Unseen v w d) (hgood : Linked v) : w.lookupChild q n = v.lookupChild q n := by
  rw [lookupChild_eq, lookupChild_eq]
  congr 1
  · rw [listed, listed, h.children hgood]
    exact find?_congr_mem fun c hc => by rw [h.child_name hgood hc]
  · refine Table.find?_congr fun i => ?_
    by_cases hi : i = d
    · have hfalse : ∀ slot : Bool × Dentry, (slot.1 = true → slot.2.parent = none) → standsBelow q n slot = false := by
        intro slot hslot
        rw [Bool.eq_false_iff, ne_eq, standsBelow_iff]
        rintro ⟨hused, -, hparent, -⟩
        rw [hslot hused] at hparent
        cases hparent
      rw [hi, hfalse _ h.parent, hfalse _ fun hused => ?_]
      rw [h.free] at hused
      cases hused
    · rw [(h.others i hi).1, (h.others i hi).2]

theorem Unseen.walk (h : Unseen v w d) (hgood : Linked v) (labels : List Bytes) :
    Walks.walk w.lookupChild q labels = Walks.walk v.lookupChild q labels :=
  Walks.walk_congr (P := fun _ => True) True.intro (fun _ _ _ _ _ => True.intro) (fun _ _ _ => h.lookupChild hgood) _

theorem Hidden.names_eq (h : Hidden v w d) (hgood : Good v) (q : Fin maxDentries) : names w q = names v q := by
  rw [names, h.children hgood.toLinked]
  exact List.map_congr_left fun c hc => h.child_name hgood.toLinked hc

theorem Linked.hidden (hlinked : Linked v) (h : Hidden v w d) : Linked w := by
  have hkeep : ∀ e, v.dentryUsed e = true → w.dentryUsed e = true := fun e he => by
    rwa [(h.others e (h.ne he)).1]
  constructor
  case root =>
    obtain ⟨r, hr, hused, hparent⟩ := hlinked.root
    exact ⟨r, h.root.trans hr, hkeep r hused, by rwa [(h.others r (h.ne hused)).2]⟩
  case leaf =>
    intro x hx
    rw [h.children hlinked]
    by_cases hxd : x = d
    · rw [hxd]
      exact hlinked.leaf d h.free
    · rw [(h.others x hxd).1] at hx
      exact hlinked.leaf x hx
  case children =>
    intro q c hc
    rw [h.children hlinked] at hc
    obtain ⟨x, hx, hused, hrest⟩ := hlinked.children q c hc
    refine ⟨x, hx, hkeep x hused, ?_⟩
    rwa [(h.others x (h.ne hused)).2]

theorem Good.hidden (hgood : Good v) (h : Hidden v w d) : Good w := by
  have hself : ∀ e, w.dentryUsed e = true → e ≠ d → v.dentryUsed e = true ∧ w.dentries e = v.dentries e := by
    intro e he hne
    obtain ⟨hused, hsame⟩ := h.others e hne
    exact ⟨by rwa [← hused], hsame⟩
  have hkeep : ∀ e, v.dentryUsed e = true → w.dentryUsed e = true := fun e he => by
    rwa [(h.others e (h.ne he)).1]
  constructor
  case toLinked => exact hgood.toLinked.hidden h
  case front =>
    intro x e hx he
    have he' : v.dentryUsed e = false := by
      by_cases hed : e = d
      · rw [hed]
        exact h.free
      · rwa [(h.others e hed).1] at he
    by_cases hxd : x = d
    · rw [hxd] at hx ⊢
      refine lt_of_le_of_ne (le_of_not_gt fun hlt => ?_) fun heq => ?_
      · rw [(h.used hx).1 e hlt] at he'
        cases he'
      · rw [← heq, hx] at he
        cases he
    · exact hgood.front x e (hself x hx hxd).1 he'
  case up =>
    intro x q hx hq
    by_cases hxd : x = d
    · rw [hxd] at hx hq
      rw [h.parent hx] at hq
      cases hq
    · obtain ⟨hused, hsame⟩ := hself x hx hxd
      rw [hsame] at hq
      exact hkeep q (hgood.up x q hused hq)
  case inode =>
    intro x i hx hi
    rw [h.inodeUsed]
    by_cases hxd : x = d
    · rw [hxd] at hx hi
      rw [(h.used hx).2] at hi
      cases hi
    · obtain ⟨hused, hsame⟩ := hself x hx hxd
      rw [hsame] at hi
      exact hgood.inode x i hused hi
  case distinct =>
    intro q
    rw [h.names_eq hgood]
    exact hgood.distinct q
  case named =>
    intro x q hx hq hroot
    by_cases hxd : x = d
    · rw [hxd] at hx hq
      rw [h.parent hx] at hq
      cases hq
    · obtain ⟨hused, hsame⟩ := hself x hx hxd
      rw [hsame] at hq ⊢
      rw [h.root] at hroot
      exact hgood.named x q hused hq hroot

theorem Hidden.keeps (h : Hidden v w d) (hgood : Good v) : Keeps v w := by
  intro e he
  rw [contentOf, contentOf, (h.others e (h.ne he)).2]
  cases hi : (v.dentries e).inode with
  | none => rfl
  | some i =>
      have hsame := h.inodes i (hgood.inode e i he hi)
      rw [Option.bind_some, Option.bind_some, hsame]

theorem Hidden.same (h : Hidden v w d) (hgood : Good v) : Same v w := by
  obtain ⟨r, hr, hused, -⟩ := hgood.root
  intro q
  refine find_eq_of_walk hgood hr (h.root.trans hr) (h.keeps hgood) ?_
  exact h.walk hgood.toLinked _

end Hidden

end Kernel.Naming
