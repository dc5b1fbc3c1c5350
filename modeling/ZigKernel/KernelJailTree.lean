import ZigKernel.KernelStore

/-! What `freeDentryTree` and `clearJailContents` destroy: the dentries that children arrays lead to, and nothing else.
A dentry that is destroyed is not in use any more and lists nothing, and its inode has no bytes. -/

namespace Kernel.Jail

open Zig Vfs

/-! ### Destroying a subtree -/

/-- The dentries of `S` are not in use any more and list nothing; the others are as they were. -/
structure Freed (v w : Vfs) (S : Fin maxDentries → Prop) : Prop where
  off : ∀ x, S x → w.dentryUsed x = false ∧ (w.dentries x).children = []
  kept : ∀ x, (w.dentries x).inode = (v.dentries x).inode ∧ (w.dentries x).parent = (v.dentries x).parent
  others : ∀ x, ¬S x → w.dentryUsed x = v.dentryUsed x ∧ (w.dentries x).children = (v.dentries x).children
  root : w.rootDentry = v.rootDentry
  jail : w.jailRoot = v.jailRoot

/-- What can be reached from a dentry through children arrays. -/
inductive Reachable (v : Vfs) (d : Fin maxDentries) : Fin maxDentries → Prop where
  | self : Reachable v d d
  | child {p c : Fin maxDentries} (hp : Reachable v d p) (h : some c ∈ (v.dentries p).children) : Reachable v d c

/-- The chain of parents of a dentry reaches the jail. -/
inductive Under (v : Vfs) (jail : Fin maxDentries) : Fin maxDentries → Prop where
  | jail : Under v jail jail
  | up {d p : Fin maxDentries} (h : (v.dentries d).parent = some p) (hp : Under v jail p) : Under v jail d

/-- No children array is too long. -/
def Short (v : Vfs) : Prop := ∀ p, (v.dentries p).children.length ≤ Vfs.maxChildren

/-- The inodes of the dentries of `S`, and no others, have been destroyed, one after the other. -/
def Dropped (v w : Vfs) (S : Fin maxDentries → Prop) : Prop :=
  ∃ l : List (Fin maxInodes), w.store = l.foldl Store.drop v.store ∧ ∀ i, i ∈ l ↔ ∃ x, S x ∧ inodeOf v x = some i

/-- A subtree has been destroyed. -/
structure Cleared (v w : Vfs) (S : Fin maxDentries → Prop) : Prop extends Freed v w S where
  closed : Short v → ∀ p, S p → ∀ x, some x ∈ (v.dentries p).children → S x
  dropped : Dropped v w S

/-- What is in `S` is in `T` or is listed by something in `S`. -/
def From (v : Vfs) (T S : Fin maxDentries → Prop) : Prop :=
  ∀ x, S x → T x ∨ ∃ p, S p ∧ some x ∈ (v.dentries p).children

section Freed

variable {u v w : Vfs} {S T : Fin maxDentries → Prop} {d : Fin maxDentries}

theorem Freed.refl (v : Vfs) : Freed v v fun _ => False :=
  ⟨fun _ h => h.elim, fun _ => ⟨rfl, rfl⟩, fun _ _ => ⟨rfl, rfl⟩, rfl, rfl⟩

theorem Freed.trans (h : Freed v u S) (h' : Freed u w T) : Freed v w fun x => S x ∨ T x where
  off := fun x hx => by
    by_cases hT : T x
    · exact h'.off x hT
    · obtain ⟨hused, hchildren⟩ := h'.others x hT
      obtain ⟨hoff, hnil⟩ := h.off x (hx.resolve_right hT)
      exact ⟨hused.trans hoff, hchildren.trans hnil⟩
  kept := fun x => ⟨(h'.kept x).1.trans (h.kept x).1, (h'.kept x).2.trans (h.kept x).2⟩
  others := fun x hx => by
    obtain ⟨hused, hchildren⟩ := h.others x fun hS => hx (Or.inl hS)
    obtain ⟨hused', hchildren'⟩ := h'.others x fun hT => hx (Or.inr hT)
    exact ⟨hused'.trans hused, hchildren'.trans hchildren⟩
  root := h'.root.trans h.root
  jail := h'.jail.trans h.jail

/-- Nothing comes to be listed. -/
theorem Freed.mem (h : Freed v w S) {p : Fin maxDentries} {c : Option (Fin maxDentries)}
    (hc : c ∈ (w.dentries p).children) : c ∈ (v.dentries p).children ∧ ¬S p := by
  by_cases hp : S p
  · rw [(h.off p hp).2] at hc
    cases hc
  · rw [(h.others p hp).2] at hc
    exact ⟨hc, hp⟩

theorem fixes_freeInode (d : Fin maxDentries) : Act.Fixes frame (freeInode d) := by
  refine Act.Fixes.get.bind fun v => ?_
  cases (v.dentries d).inode with
  | none => exact .pure _
  | some i =>
      refine Act.Fixes.bind ?_ fun _ => .modify_bind (fun _ => rfl) fun _ => .modify fun _ => rfl
      refine Act.Fixes.get.bind fun v => ?_
      cases (v.inodes i).data with
      | none => exact .pure _
      | some data => exact .modify_bind (fun _ => rfl) fun _ => .modify_bind (fun _ => rfl) fun _ => .modify fun _ => rfl

theorem Freed.short (h : Freed v w S) (hshort : Short v) : Short w := fun p => by
  by_cases hp : S p
  · rw [(h.off p hp).2]
    exact Nat.zero_le _
  · rw [(h.others p hp).2]
    exact hshort p

/-- What can still be reached could be reached before. -/
theorem Freed.reachable (h : Freed v w S) {x : Fin maxDentries} (hx : Reachable w d x) : Reachable v d x := by
  induction hx with
  | self => exact .self
  | child _ hmem ih => exact .child ih (h.mem hmem).1

theorem Reachable.trans {x c : Fin maxDentries} (h : Reachable v d c) (hx : Reachable v c x) : Reachable v d x := by
  induction hx with
  | self => exact h
  | child _ hmem ih => exact .child ih hmem

theorem Dropped.refl (v : Vfs) : Dropped v v fun _ => False := by
  refine ⟨[], rfl, fun i => ⟨fun h => (List.not_mem_nil h).elim, ?_⟩⟩
  rintro ⟨_, h, -⟩
  exact h.elim

theorem Dropped.trans (h : Dropped v u S) (h' : Dropped u w T) (hkept : ∀ x, inodeOf u x = inodeOf v x) :
    Dropped v w fun x => S x ∨ T x := by
  obtain ⟨l, hl, hmem⟩ := h
  obtain ⟨l', hl', hmem'⟩ := h'
  refine ⟨l ++ l', by rw [hl', hl, List.foldl_append], fun i => ?_⟩
  rw [List.mem_append, hmem, hmem']
  constructor
  · rintro (⟨x, hx, hi⟩ | ⟨x, hx, hi⟩)
    · exact ⟨x, Or.inl hx, hi⟩
    · exact ⟨x, Or.inr hx, (hkept x).symm.trans hi⟩
  · rintro ⟨x, hx | hx, hi⟩
    · exact Or.inl ⟨x, hx, hi⟩
    · exact Or.inr ⟨x, hx, (hkept x).trans hi⟩

theorem Cleared.refl (v : Vfs) : Cleared v v fun _ => False := ⟨.refl v, fun _ _ h => h.elim, .refl v⟩

theorem Cleared.trans (h : Cleared v u S) (h' : Cleared u w T) : Cleared v w fun x => S x ∨ T x where
  toFreed := h.toFreed.trans h'.toFreed
  closed := fun hshort p hp x hx => by
    by_cases hS : S p
    · exact Or.inl (h.closed hshort p hS x hx)
    · rw [← (h.others p hS).2] at hx
      exact Or.inr (h'.closed (h.toFreed.short hshort) p (hp.resolve_left hS) x hx)
  dropped := h.dropped.trans h'.dropped fun x => (h.kept x).1

/-- A loop over the children destroys all those from the `i`-th on. -/
theorem cleared_eachChild {free : Fin maxDentries → Vfs.Run Unit}
    (hfree : ∀ (c : Fin maxDentries) (v w : Vfs), free c v = (.ok (), w) →
      ∃ S, S c ∧ Cleared v w S ∧ From v (· = c) S ∧ ∀ x, S x → Reachable v c x) (n i : Nat)
    (h : eachChild free d n i v = (.ok (), w)) :
    ∃ S, Cleared v w S ∧ From v (fun x => some x ∈ (v.dentries d).children) S ∧
      (∀ x, S x → ∃ c, some c ∈ (v.dentries d).children ∧ Reachable v c x) ∧
      (Short v → ∀ k x, i ≤ k → k < i + n → (v.dentries d).children[k]? = some (some x) → S x) := by
  induction n generalizing i v with
  | zero =>
      cases h
      refine ⟨_, .refl _, fun _ hx => hx.elim, fun _ hx => hx.elim, fun _ k x hk hk' => ?_⟩
      omega
  | succ n ih =>
      rw [eachChild, Act.get_bind_run] at h
      cases hc : (v.dentries d).children[i]? with
      | none =>
          rw [hc] at h
          cases h
          refine ⟨_, .refl _, fun _ hx => hx.elim, fun _ hx => hx.elim, fun _ k x hk _ hx => ?_⟩
          rw [List.getElem?_eq_none (Nat.le_trans (List.getElem?_eq_none_iff.mp hc) hk)] at hx
          cases hx
      | some entry =>
          rw [hc] at h
          cases entry with
          | none =>
              obtain ⟨T, hT, hfrom, hreach, hall⟩ := ih (i + 1) h
              refine ⟨T, hT, hfrom, hreach, fun hshort k x hk hk' hx => ?_⟩
              rcases Nat.eq_or_lt_of_le hk with rfl | hlt
              · rw [hc] at hx
                cases hx
              · exact hall hshort k x hlt (by omega) hx
          | some c =>
              obtain ⟨⟨⟩, u, hfirst, hrest⟩ := Act.bind_run_eq_ok h
              obtain ⟨S, hself, hS, hfrom, hreach⟩ := hfree c v u hfirst
              obtain ⟨T, hT, hfrom', hreach', hall⟩ := ih (i + 1) hrest
              have hmem : some c ∈ (v.dentries d).children := List.mem_of_getElem? hc
              refine ⟨_, hS.trans hT, fun x hx => ?_, fun x hx => ?_, fun hshort k x hk hk' hx => ?_⟩
              · rcases hx with hx | hx
                · rcases hfrom x hx with rfl | ⟨p, hp, hmem'⟩
                  · exact Or.inl hmem
                  · exact Or.inr ⟨p, Or.inl hp, hmem'⟩
                · rcases hfrom' x hx with hmem' | ⟨p, hp, hmem'⟩
                  · exact Or.inl (hS.toFreed.mem hmem').1
                  · exact Or.inr ⟨p, Or.inr hp, (hS.toFreed.mem hmem').1⟩
              · rcases hx with hx | hx
                · exact ⟨c, hmem, hreach x hx⟩
                · obtain ⟨c', hc', hx'⟩ := hreach' x hx
                  exact ⟨c', (hS.toFreed.mem hc').1, hS.toFreed.reachable hx'⟩
              · rcases Nat.eq_or_lt_of_le hk with rfl | hlt
                · rw [hc] at hx
                  cases hx
                  exact Or.inl hself
                · by_cases hd : S d
                  -- where the dentry itself has been destroyed below, so have all its children
                  · exact Or.inl (hS.closed hshort d hd x (List.mem_of_getElem? hx))
                  · rw [← (hS.others d hd).2] at hx
                    exact Or.inr (hall (hS.toFreed.short hshort) k x hlt (by omega) hx)

/-- Behind the children: the dentry lists nothing, its inode is destroyed and its slot is free. -/
theorem freed_self
    (hinode : freeInode d { v with dentries := Function.update v.dentries d { v.dentries d with children := [] } } =
      (.ok (), u))
    (hslot : { u with dentryUsed := Function.update u.dentryUsed d false } = w) : Freed v w (· = d) := by
  have hframe := (fixes_freeInode d).run hinode
  obtain ⟨hdentries, hused, hroot, hjail⟩ :
      u.dentries = Function.update v.dentries d { v.dentries d with children := [] } ∧ u.dentryUsed = v.dentryUsed ∧
        u.rootDentry = v.rootDentry ∧ u.jailRoot = v.jailRoot := by
    simpa only [frame, Prod.mk.injEq] using hframe
  rw [← hslot]
  refine ⟨fun y hy => ?_, fun y => ?_, fun y hy => ?_, hroot, hjail⟩ <;> dsimp only
  · rw [hy, Function.update_self, hdentries, Function.update_self]
    exact ⟨rfl, rfl⟩
  · rw [hdentries]
    by_cases hy : y = d
    · rw [hy, Function.update_self]
      exact ⟨rfl, rfl⟩
    · rw [Function.update_of_ne hy]
      exact ⟨rfl, rfl⟩
  · rw [Function.update_of_ne hy, hdentries, Function.update_of_ne hy, hused]
    exact ⟨rfl, rfl⟩

theorem dropped_self
    (hinode : freeInode d { v with dentries := Function.update v.dentries d { v.dentries d with children := [] } } =
      (.ok (), u))
    (hslot : { u with dentryUsed := Function.update u.dentryUsed d false } = w) : Dropped v w (· = d) := by
  have hself : inodeOf { v with dentries := Function.update v.dentries d { v.dentries d with children := [] } } d =
      inodeOf v d := by
    dsimp only [inodeOf]
    rw [Function.update_self]
  have hstore : w.store = u.store := by
    rw [← hslot]
    rfl
  obtain ⟨hsome, hnone⟩ := freeInode_store hinode
  rw [hself] at hnone
  cases hi : inodeOf v d with
  | none =>
      refine ⟨[], hstore.trans (hnone hi), fun i => ⟨fun h => (List.not_mem_nil h).elim, ?_⟩⟩
      rintro ⟨y, rfl, hy⟩
      rw [hi] at hy
      cases hy
  | some i =>
      refine ⟨[i], hstore.trans (hsome i (hself.trans hi)), fun i' => ?_⟩
      rw [List.mem_singleton]
      constructor
      · rintro rfl
        exact ⟨d, rfl, hi⟩
      · rintro ⟨y, rfl, hy⟩
        rw [hi] at hy
        exact (Option.some.inj hy).symm

/-- What is destroyed is the dentry and what is listed below it. -/
theorem cleared_tree (depth : Nat) (h : freeDentryTree depth d v = (.ok (), w)) :
    ∃ S, S d ∧ Cleared v w S ∧ From v (· = d) S ∧ ∀ x, S x → Reachable v d x := by
  induction depth generalizing d v w with
  | zero => cases h
  | succ depth ih =>
      rw [freeDentryTree] at h
      obtain ⟨⟨⟩, u, hloop, hrest⟩ := Act.bind_run_eq_ok h
      obtain ⟨S, hS, hfrom, hreach, hall⟩ := cleared_eachChild (fun c v w => ih) _ _ hloop
      rw [updateDentry, Act.modify_bind_run] at hrest
      obtain ⟨⟨⟩, x, hinode, hslot⟩ := Act.bind_run_eq_ok hrest
      have hslot : { x with dentryUsed := Function.update x.dentryUsed d false } = w := (Prod.mk.inj hslot).2
      have hlast : Freed u w (· = d) := freed_self hinode hslot
      have hdropped : Dropped u w (· = d) := dropped_self hinode hslot
      refine ⟨fun y => S y ∨ y = d, Or.inr rfl, ⟨hS.toFreed.trans hlast, fun hshort p hp y hy => ?_, ?_⟩, fun y hy => ?_,
        fun y hy => ?_⟩
      · rcases hp with hp | rfl
        · exact Or.inl (hS.closed hshort p hp y hy)
        · obtain ⟨k, hk, hget⟩ := List.getElem_of_mem hy
          refine Or.inl (hall hshort k y (Nat.zero_le k) ?_ (by rw [List.getElem?_eq_getElem hk, hget]))
          rw [Nat.zero_add]
          exact Nat.lt_of_lt_of_le hk (hshort p)
      · exact hS.dropped.trans hdropped fun y => (hS.kept y).1
      · rcases hy with hy | hy
        · rcases hfrom y hy with hmem | ⟨p, hp, hmem⟩
          · exact Or.inr ⟨d, Or.inr rfl, hmem⟩
          · exact Or.inr ⟨p, Or.inl hp, hmem⟩
        · exact Or.inl hy
      · rcases hy with hy | rfl
        · obtain ⟨c, hc, hreach'⟩ := hreach y hy
          exact (Reachable.child .self hc).trans hreach'
        · exact .self

end Freed

/-! ### Clearing the jail -/

/-- What the children array of a dentry leads to. -/
def Below (v : Vfs) (j x : Fin maxDentries) : Prop := ∃ c, some c ∈ (v.dentries j).children ∧ Reachable v c x

/-- The dentries of `S` have been destroyed: only ones below the jail, and if no children array is too long all that are
below the entries of the jail from the `i`-th on. -/
structure Swept (v w : Vfs) (j : Fin maxDentries) (i : Nat) (S : Fin maxDentries → Prop) : Prop where
  dropped : Dropped v w S
  below : ∀ x, S x → Below v j x
  closed : Short v → ∀ p, S p → p ≠ j → ∀ x, some x ∈ (v.dentries p).children → S x
  entries : Short v → ∀ k x, i ≤ k → (v.dentries j).children[k]? = some (some x) → S x

section Clearing

variable {u v w : Vfs} {j : Fin maxDentries} {i : Nat} {S T : Fin maxDentries → Prop}

/-- The dentries of `S` are destroyed, and then the `i`-th entry of the jail is taken out. -/
structure Turned (v w : Vfs) (j : Fin maxDentries) (i : Nat) (last : Option (Fin maxDentries)) (S : Fin maxDentries → Prop) :
    Prop where
  outside : ¬S j
  tail : (v.dentries j).children.getLast? = some last
  entries : (w.dentries j).children = ((v.dentries j).children.set i last).dropLast
  gone : ∀ q, S q → (w.dentries q).children = []
  others : ∀ q, ¬S q → q ≠ j → (w.dentries q).children = (v.dentries q).children
  used : ∀ x, ¬S x → w.dentryUsed x = v.dentryUsed x
  kept : ∀ x, (w.dentries x).inode = (v.dentries x).inode ∧ (w.dentries x).parent = (v.dentries x).parent
  root : w.rootDentry = v.rootDentry
  jailRoot : w.jailRoot = v.jailRoot

theorem Freed.turned (h : Freed v u S)
    (hswap : swapRemove j i u = (.ok (), w)) : ∃ last, Turned v w j i last S := by
  rw [swapRemove, Act.get_bind_run] at hswap
  cases hlast : (u.dentries j).children.getLast? with
  | none =>
      rw [hlast] at hswap
      cases hswap
  | some last =>
      rw [hlast] at hswap
      have hw := (Prod.mk.inj hswap).2
      -- the jail still lists its children, so it has not been destroyed itself
      have hjail : ¬S j := fun hS => by
        rw [(h.off j hS).2] at hlast
        cases hlast
      have hsame := (h.others j hjail).2
      have helse (q : Fin maxDentries) (hq : q ≠ j) : w.dentries q = u.dentries q := by
        rw [← hw]
        exact Function.update_of_ne hq _ _
      refine ⟨last, hjail, hsame ▸ hlast, ?_, fun q hS => ?_, fun q hS hq => ?_, fun x hS => ?_, fun x => ?_, ?_, ?_⟩
      · rw [← hw, ← hsame]
        dsimp only
        rw [Function.update_self]
      · have hq : q ≠ j := fun heq => hjail (heq ▸ hS)
        rw [helse q hq]
        exact (h.off q hS).2
      · rw [helse q hq]
        exact (h.others q hS).2
      · rw [← hw]
        exact (h.others x hS).1
      · by_cases hx : x = j
        · rw [← hw, hx]
          dsimp only
          rw [Function.update_self]
          exact h.kept j
        · rw [helse x hx]
          exact h.kept x
      · rw [← hw]
        exact h.root
      · rw [← hw]
        exact h.jail

theorem swapRemove_store (h : swapRemove j i v = (.ok (), w)) : w.store = v.store := by
  rw [swapRemove, Act.get_bind_run] at h
  cases hlast : (v.dentries j).children.getLast? with
  | none =>
      rw [hlast] at h
      cases h
  | some last =>
      rw [hlast] at h
      rw [← (Prod.mk.inj h).2]
      rfl

/-- The entries behind the one that is taken out are still there. -/
theorem getElem?_swapRemove {α : Type} {l : List α} {last a : α} {k : Nat} (hlast : l.getLast? = some last) (hk : l[k]? = some a)
    (hne : k ≠ i) (hi : i < l.length) : ∃ k', (k' = i ∨ k' = k) ∧ (l.set i last).dropLast[k']? = some a := by
  obtain ⟨hlt, hget⟩ := List.getElem?_eq_some_iff.mp hk
  by_cases hend : k + 1 = l.length
  · refine ⟨i, Or.inl rfl, ?_⟩
    have ha : last = a := by
      rw [List.getLast?_eq_getElem?, show l.length - 1 = k by omega, hk] at hlast
      exact (Option.some.inj hlast).symm
    rw [List.getElem?_dropLast, List.length_set, if_pos (by omega), List.getElem?_set_self hi, ha]
  · refine ⟨k, Or.inr rfl, ?_⟩
    rw [List.getElem?_dropLast, List.length_set, if_pos (by omega), List.getElem?_set_ne (Ne.symm hne), hk]

/-- Whatever is listed afterwards was listed before. -/
theorem Turned.listed {last : Option (Fin maxDentries)} (h : Turned v w j i last S) {p : Fin maxDentries}
    {e : Option (Fin maxDentries)} (he : e ∈ (w.dentries p).children) : e ∈ (v.dentries p).children := by
  by_cases hp : p = j
  · rw [hp, h.entries] at he
    rw [hp]
    rcases List.mem_or_eq_of_mem_set (List.mem_of_mem_dropLast he) with hold | rfl
    · exact hold
    · exact List.mem_of_getLast? h.tail
  · by_cases hS : S p
    · rw [h.gone p hS] at he
      cases he
    · rwa [h.others p hS hp] at he

theorem Turned.short {last : Option (Fin maxDentries)} (h : Turned v w j i last S) (hshort : Short v) : Short w := fun p => by
  by_cases hp : p = j
  · rw [hp, h.entries, List.length_dropLast, List.length_set]
    exact Nat.le_trans (Nat.sub_le _ _) (hshort j)
  · by_cases hS : S p
    · rw [h.gone p hS]
      exact Nat.zero_le _
    · rw [h.others p hS hp]
      exact hshort p

theorem swept_loop (n i removed : Nat) {r : Nat} (h : clearLoop j n i removed v = (.ok r, w))
    (hlong : (v.dentries j).children.length ≤ i + n) : ∃ S, Swept v w j i S := by
  induction n generalizing i removed v with
  | zero =>
      cases h
      refine ⟨_, .refl _, fun _ hx => hx.elim, fun _ _ hp => hp.elim, fun _ k x hk hx => ?_⟩
      rw [List.getElem?_eq_none (Nat.le_trans hlong hk)] at hx
      cases hx
  | succ n ih =>
      rw [clearLoop, Act.get_bind_run] at h
      cases hc : (v.dentries j).children[i]? with
      | none =>
          rw [hc] at h
          cases h
          refine ⟨_, .refl _, fun _ hx => hx.elim, fun _ _ hp => hp.elim, fun _ k x hk hx => ?_⟩
          rw [List.getElem?_eq_none (Nat.le_trans (List.getElem?_eq_none_iff.mp hc) hk)] at hx
          cases hx
      | some entry =>
          rw [hc] at h
          obtain ⟨hlt, -⟩ := List.getElem?_eq_some_iff.mp hc
          cases entry with
          | none =>
              obtain ⟨S, hS⟩ := ih (i + 1) removed h (by omega)
              refine ⟨S, hS.dropped, hS.below, hS.closed, fun hshort k x hk hx => ?_⟩
              rcases Nat.eq_or_lt_of_le hk with rfl | hk
              · rw [hc] at hx
                cases hx
              · exact hS.entries hshort k x hk hx
          | some c =>
              obtain ⟨⟨⟩, u, hfree, h⟩ := Act.bind_run_eq_ok h
              obtain ⟨⟨⟩, y, hswap, h⟩ := Act.bind_run_eq_ok h
              obtain ⟨S, hself, hS, -, hreach⟩ := cleared_tree _ hfree
              obtain ⟨last, ht⟩ := hS.toFreed.turned hswap
              have hmem : some c ∈ (v.dentries j).children := List.mem_of_getElem? hc
              have hshorter : (y.dentries j).children.length ≤ i + n := by
                rw [ht.entries, List.length_dropLast, List.length_set]
                omega
              obtain ⟨T, hT⟩ := ih i (removed + 1) h hshorter
              have hreachable : ∀ d x, Reachable y d x → Reachable v d x := fun d x hx => by
                induction hx with
                | self => exact .self
                | child _ hchild ih => exact .child ih (ht.listed hchild)
              have hdropped : Dropped v y S := by
                obtain ⟨l, hl, hinodes⟩ := hS.dropped
                exact ⟨l, (swapRemove_store hswap).trans hl, hinodes⟩
              refine ⟨fun x => S x ∨ T x, hdropped.trans hT.dropped fun x => (ht.kept x).1, fun x hx => ?_,
                fun hshort p hp hpj x hx => ?_, fun hshort k x hk hx => ?_⟩
              · rcases hx with hx | hx
                · exact ⟨c, hmem, hreach x hx⟩
                · obtain ⟨e, he, hx⟩ := hT.below x hx
                  exact ⟨e, ht.listed he, hreachable e x hx⟩
              · by_cases hSp : S p
                · exact Or.inl (hS.closed hshort p hSp x hx)
                · rw [← ht.others p hSp hpj] at hx
                  exact Or.inr (hT.closed (ht.short hshort) p (hp.resolve_left hSp) hpj x hx)
              · by_cases hki : k = i
                · rw [hki, hc] at hx
                  cases hx
                  exact Or.inl hself
                · obtain ⟨k', hk', hget⟩ := getElem?_swapRemove ht.tail hx hki hlt
                  rw [← ht.entries] at hget
                  refine Or.inr (hT.entries (ht.short hshort) k' x ?_ hget)
                  rcases hk' with rfl | rfl
                  · exact Nat.le_refl _
                  · exact hk

/-- What `clearJailContents` destroys. -/
theorem clear_spec {r : Nat} (h : clearJailContents v = (.ok r, w)) (hshort : Short v) :
    v.jailRoot = none ∧ w = v ∨ ∃ j, v.jailRoot = some j ∧ Dropped v w (Below v j) := by
  rw [clearJailContents, Act.get_bind_run] at h
  cases hj : v.jailRoot with
  | none =>
      rw [hj] at h
      cases h
      exact Or.inl ⟨rfl, rfl⟩
  | some j =>
      rw [hj] at h
      obtain ⟨S, hS⟩ := swept_loop _ _ _ h (by rw [Nat.zero_add]; exact hshort j)
      refine Or.inr ⟨j, rfl, ?_⟩
      have hentry : ∀ x, some x ∈ (v.dentries j).children → S x := fun x hx => by
        obtain ⟨k, hk, hget⟩ := List.getElem_of_mem hx
        exact hS.entries hshort k x (Nat.zero_le k) (by rw [List.getElem?_eq_getElem hk, hget])
      have hall : ∀ x, S x ↔ Below v j x := fun x => by
        refine ⟨hS.below x, ?_⟩
        rintro ⟨c, hc, hreach⟩
        induction hreach with
        | self => exact hentry c hc
        | @child p x _ hx ih =>
            by_cases hp : p = j
            · exact hentry x (hp ▸ hx)
            · exact hS.closed hshort p ih hp x hx
      obtain ⟨l, hl, hmem⟩ := hS.dropped
      refine ⟨l, hl, fun i => (hmem i).trans ?_⟩
      simp only [hall]

end Clearing

end Kernel.Jail
