import ZigKernel.KernelJailTree
import ZigKernel.KernelNamespace

/-! Confinement to the jail over runs. What a walk from the jail finds stands below it, since every entry of a children
array is a used dentry below its holder; `clearJailContents` keeps that, and `createFile` does unless it fails after it
has listed its dentry. The prefix that `resolveJailed` strips is that of one jail only. -/

namespace Kernel.Jail

open Zig Vfs Naming

/-! ### What is kept -/

/-- Every entry of a children array is a used dentry below its holder, once, and the jail is in use. -/
structure Sheltered (v : Vfs) : Prop extends Linked v where
  nodup : ∀ p, (v.dentries p).children.Nodup
  jail : ∀ j, v.jailRoot = some j → v.dentryUsed j = true

section Sheltered

variable {v w : Vfs} {d p j : Fin maxDentries} {l : Bool}

theorem Sheltered.congr (h : Sheltered v) (hframe : frame w = frame v) : Sheltered w := by
  obtain ⟨hdentries, hused, hroot, hjail⟩ : w.dentries = v.dentries ∧ w.dentryUsed = v.dentryUsed ∧
      w.rootDentry = v.rootDentry ∧ w.jailRoot = v.jailRoot := by
    simpa only [frame, Prod.mk.injEq] using hframe
  constructor
  case toLinked => exact ⟨by rw [hroot, hused, hdentries]; exact h.root, by rw [hused, hdentries]; exact h.leaf,
    by rw [hused, hdentries]; exact h.children⟩
  case nodup =>
    rw [hdentries]
    exact h.nodup
  case jail =>
    rw [hjail, hused]
    exact h.jail

theorem Sheltered.hidden (h : Sheltered v) (hidden : Hidden v w d) : Sheltered w where
  toLinked := h.toLinked.hidden hidden
  nodup := fun q => by
    rw [hidden.children h.toLinked]
    exact h.nodup q
  jail := fun j hj => by
    have hused := h.jail j (hidden.jail.symm.trans hj)
    rwa [(hidden.others j (hidden.ne hused)).1]

theorem Sheltered.placed (h : Sheltered v) (hplaced : Placed v w d p l) (hjail : w.jailRoot = v.jailRoot)
    (hinode : l = true → (w.dentries d).inode.isSome = true) : Sheltered w where
  toLinked := h.toLinked.placed hplaced hinode
  nodup := fun q => by
    by_cases hq : q = d
    · rw [hq, hplaced.leaf]
      exact List.nodup_nil
    · rw [hplaced.children q hq]
      split
      · refine List.nodup_append.mpr ⟨h.nodup q, List.nodup_singleton _, fun a ha b hb => ?_⟩
        rw [List.mem_singleton] at hb
        rintro rfl
        rw [hb] at ha
        obtain ⟨x, hx, hused, -⟩ := h.children q _ ha
        cases hx
        exact hplaced.ne hused rfl
      · exact h.nodup q
  jail := fun j hj => by
    have hused := h.jail j (hjail.symm.trans hj)
    rwa [hplaced.used_old (hplaced.ne hused)]

/-- An entry is taken out, and the last one comes in its place. -/
theorem swapRemove_list {α : Type} {l : List α} {i : Nat} {last : α} (hnodup : l.Nodup) (hi : i < l.length)
    (hlast : l.getLast? = some last) : (l.set i last).dropLast.Nodup ∧
      ∀ x ∈ (l.set i last).dropLast, x ∈ l ∧ x ≠ l[i] := by
  obtain ⟨init, rfl⟩ := List.getLast?_eq_some_iff.mp hlast
  obtain ⟨hinit, -, hdisjoint⟩ := List.nodup_append.mp hnodup
  have hnot : last ∉ init := fun hmem => hdisjoint last hmem last (List.mem_singleton_self last) rfl
  by_cases hend : i < init.length
  · rw [List.set_append_left _ _ hend, List.dropLast_concat]
    refine ⟨hinit.set hnot, fun x hx => ?_⟩
    rw [List.getElem_append_left hend]
    obtain ⟨k, hk, rfl⟩ := List.getElem_of_mem hx
    rw [List.length_set] at hk
    rw [List.getElem_set]
    split
    · refine ⟨List.mem_append_right _ (List.mem_singleton_self _), ?_⟩
      rintro rfl
      exact hnot (List.getElem_mem hend)
    · next hne =>
      exact ⟨List.mem_append_left _ (List.getElem_mem hk), fun heq => hne ((hinit.getElem_inj_iff).mp heq).symm⟩
  · rw [List.length_append, List.length_singleton] at hi
    have hlen : i = init.length := by omega
    subst hlen
    rw [List.set_append_right _ _ (Nat.le_refl _), Nat.sub_self, List.set_cons_zero, List.dropLast_concat]
    refine ⟨hinit, fun x hx => ⟨List.mem_append_left _ hx, ?_⟩⟩
    rw [List.getElem_append_right (Nat.le_refl _)]
    rintro rfl
    simp only [Nat.sub_self, List.getElem_cons_zero] at hx
    exact hnot hx

/-- A turn of the loop of `clearJailContents`. -/
theorem Sheltered.turn (h : Sheltered v) (hj : v.jailRoot = some j) {i depth : Nat} {child : Fin maxDentries} {u : Vfs}
    (hchild : (v.dentries j).children[i]? = some (some child)) (hfree : freeDentryTree depth child v = (.ok (), u))
    (hswap : swapRemove j i u = (.ok (), w)) : Sheltered w ∧ w.jailRoot = some j := by
  obtain ⟨S, hself, ⟨hfreed, -, -⟩, hfrom, -⟩ := cleared_tree depth hfree
  obtain ⟨last, ht⟩ := hfreed.turned hswap
  obtain ⟨hi, hget⟩ := List.getElem?_eq_some_iff.mp hchild
  obtain ⟨hnodup, hmem⟩ := swapRemove_list (h.nodup j) hi ht.tail
  have hjroot : w.jailRoot = some j := ht.jailRoot.trans hj
  have hcparent : (v.dentries child).parent = some j := by
    obtain ⟨x, hx, -, hparent, -⟩ := h.children j (some child) (hget ▸ List.getElem_mem hi)
    cases hx
    exact hparent
  -- whatever is destroyed stands below the child or is the child
  have hparent : ∀ x, S x → ∃ q, (v.dentries x).parent = some q ∧ (x = child ∧ q = j ∨ S q) := by
    intro x hx
    rcases hfrom x hx with rfl | ⟨p, hp, hmem⟩
    · exact ⟨j, hcparent, Or.inl ⟨rfl, rfl⟩⟩
    · obtain ⟨y, hy, -, hparent, -⟩ := h.children p _ hmem
      cases hy
      exact ⟨p, hparent, Or.inr hp⟩
  have hstay : ∀ x, v.dentryUsed x = true → ¬S x → w.dentryUsed x = true := fun x hx hS => (ht.used x hS).trans hx
  refine ⟨⟨⟨?_, fun x hx => ?_, fun q c hc => ?_⟩, fun q => ?_, fun j' hj' => ?_⟩, hjroot⟩
  · obtain ⟨r, hr, hrused, htop⟩ := h.root
    refine ⟨r, ht.root.trans hr, hstay r hrused fun hS => ?_, (ht.kept r).2.trans htop⟩
    obtain ⟨q, hq, -⟩ := hparent r hS
    rw [htop] at hq
    cases hq
  · have hxj : x ≠ j := by
      rintro rfl
      rw [hstay x (h.jail x hj) ht.outside] at hx
      cases hx
    by_cases hS : S x
    · exact ht.gone x hS
    · rw [ht.used x hS] at hx
      rw [ht.others x hS hxj]
      exact h.leaf x hx
  · by_cases hq : q = j
    · rw [hq, ht.entries] at hc
      obtain ⟨hold, hne⟩ := hmem c hc
      obtain ⟨x, rfl, hxused, hxparent, hxinode⟩ := h.children j c hold
      refine ⟨x, rfl, hstay x hxused fun hS => ?_, by rw [(ht.kept x).2, hxparent, hq], by rwa [(ht.kept x).1]⟩
      obtain ⟨q', hq', ⟨rfl, -⟩ | hSq⟩ := hparent x hS
      · exact hne hget.symm
      · rw [hxparent] at hq'
        exact ht.outside (Option.some.inj hq' ▸ hSq)
    · have hSq : ¬S q := fun hS => by
        rw [ht.gone q hS] at hc
        cases hc
      rw [ht.others q hSq hq] at hc
      obtain ⟨x, rfl, hxused, hxparent, hxinode⟩ := h.children q c hc
      refine ⟨x, rfl, hstay x hxused fun hS => ?_, (ht.kept x).2.trans hxparent, by rwa [(ht.kept x).1]⟩
      obtain ⟨q', hq', hway⟩ := hparent x hS
      rw [hxparent] at hq'
      rcases hway with ⟨-, hqj⟩ | hS'
      · exact hq ((Option.some.inj hq').trans hqj)
      · exact hSq (Option.some.inj hq' ▸ hS')
  · by_cases hq : q = j
    · rw [hq, ht.entries]
      exact hnodup
    · by_cases hS : S q
      · rw [ht.gone q hS]
        exact List.nodup_nil
      · rw [ht.others q hS hq]
        exact h.nodup q
  · rw [hjroot] at hj'
    cases hj'
    exact hstay j (h.jail j hj) ht.outside

theorem Sheltered.clearLoop (h : Sheltered v) (hj : v.jailRoot = some j) (n i removed : Nat) {r : Nat}
    (hrun : Vfs.clearLoop j n i removed v = (.ok r, w)) : Sheltered w ∧ w.jailRoot = some j := by
  induction n generalizing i removed v with
  | zero =>
      cases hrun
      exact ⟨h, hj⟩
  | succ n ih =>
      rw [Vfs.clearLoop, Act.get_bind_run] at hrun
      cases hc : (v.dentries j).children[i]? with
      | none =>
          rw [hc] at hrun
          cases hrun
          exact ⟨h, hj⟩
      | some entry =>
          rw [hc] at hrun
          cases entry with
          | none => exact ih h hj (i + 1) removed hrun
          | some child =>
              obtain ⟨⟨⟩, u, hfree, hrest⟩ := Act.bind_run_eq_ok hrun
              obtain ⟨⟨⟩, x, hswap, hrest⟩ := Act.bind_run_eq_ok hrest
              obtain ⟨h', hj'⟩ := h.turn hj hc hfree hswap
              exact ih h' hj' i (removed + 1) hrest

theorem Sheltered.clear (h : Sheltered v) {r : Nat} (hrun : clearJailContents v = (.ok r, w)) :
    Sheltered w ∧ w.jailRoot = v.jailRoot := by
  rw [clearJailContents, Act.get_bind_run] at hrun
  cases hj : v.jailRoot with
  | none =>
      rw [hj] at hrun
      cases hrun
      exact ⟨h, hj⟩
  | some j =>
      rw [hj] at hrun
      exact h.clearLoop hj _ _ _ hrun

end Sheltered

/-! ### Resolution -/

/-- A used dentry under the jail. -/
def Inside (v : Vfs) (jail d : Fin maxDentries) : Prop := v.dentryUsed d = true ∧ Under v jail d

/-- Paths lead to nothing outside of the jail. -/
structure Confined (v : Vfs) (jail : Fin maxDentries) : Prop where
  resolveJailed : ∀ path, ∃ found, v.resolveJailed path = .ok found ∧ ∀ d, found = some d → Inside v jail d
  resolvePath : ∀ dirfd path, ∃ found, v.resolvePath dirfd path = .ok found ∧ ∀ d, found = some d → Inside v jail d
  reachable : ∀ d, Reachable v jail d → Inside v jail d

section Resolution

variable {v : Vfs} {j d r : Fin maxDentries} {labels : List Bytes}

theorem Inside.walk (hlinked : Linked v) (hj : v.dentryUsed j = true) (h : Walks.walk v.lookupChild j labels = some d) :
    Inside v j d := by
  refine Walks.walk_induction (P := Inside v j) ⟨hj, .jail⟩ (fun c n e hc he => ?_) h
  obtain ⟨hused, -, hparent, -⟩ := hlinked.child he
  exact ⟨hused, .up hparent hc.2⟩

/-- The way up from a dentry that was found ends at the root, if not in the jail. -/
theorem climb_returns (hlinked : Linked v) (hr : v.rootDentry = some r) (jail : Fin maxDentries) (n : Nat)
    (hlen : labels.length < n) (h : Walks.walk v.lookupChild r labels = some d) :
    ∃ b, v.climb jail n d = .ok b ∧ (b = true → Under v jail d) := by
  induction labels using List.reverseRecOn generalizing n d with
  | nil =>
      cases h
      obtain ⟨m, rfl⟩ := Nat.exists_eq_succ_of_ne_zero (Nat.ne_of_gt hlen)
      rw [climb]
      by_cases hj : r = jail
      · rw [if_pos hj]
        exact ⟨true, rfl, fun _ => hj ▸ .jail⟩
      · rw [if_neg hj, (hlinked.rooted hr).top]
        exact ⟨false, rfl, fun h => by cases h⟩
  | append_singleton labels l ih =>
      obtain ⟨c, hc, hd⟩ := Walks.walk_concat_eq_some h
      obtain ⟨m, rfl⟩ := Nat.exists_eq_succ_of_ne_zero (Nat.ne_of_gt (Nat.lt_of_le_of_lt (Nat.zero_le _) hlen))
      rw [List.length_append, List.length_singleton] at hlen
      rw [climb]
      by_cases hj : d = jail
      · rw [if_pos hj]
        exact ⟨true, rfl, fun _ => hj ▸ .jail⟩
      · have hparent := (hlinked.child hd).2.2.1
        obtain ⟨b, hb, hunder⟩ := ih m (Nat.lt_of_succ_lt_succ hlen) hc
        rw [if_neg hj, hparent]
        exact ⟨b, hb, fun h => .up hparent (hunder h)⟩

theorem Sheltered.confined (h : Sheltered v) (hj : v.jailRoot = some j) : Confined v j where
  resolveJailed := fun path => by
    have hjused := h.jail j hj
    rw [Vfs.resolveJailed, hj]
    dsimp only
    by_cases hnil : path = []
    · rw [if_pos hnil]
      exact ⟨none, rfl, fun d hd => by cases hd⟩
    by_cases hworkspace : path = workspace
    · rw [if_neg hnil, if_pos hworkspace]
      refine ⟨some j, rfl, fun d hd => ?_⟩
      cases hd
      exact ⟨hjused, .jail⟩
    rw [if_neg hnil, if_neg hworkspace]
    refine ⟨_, rfl, fun d hd => ?_⟩
    rw [resolveParts] at hd
    split at hd
    · cases hd
    · split at hd
      · cases hd
        exact ⟨hjused, .jail⟩
      · rw [lookupPath_eq] at hd
        exact Inside.walk h.toLinked hjused hd
  resolvePath := fun dirfd path => by
    obtain ⟨r, hr, -⟩ := h.root
    have hjused := h.jail j hj
    rw [Vfs.resolvePath, hj]
    cases path with
    | nil => exact ⟨none, rfl, fun d hd => by cases hd⟩
    | cons c rest =>
        dsimp only
        split
        · rw [resolveAbsolute, lookup_eq hr, Outcome.ok_bind]
          cases hfound : Walks.walk v.lookupChild r (components (c :: rest)) with
          | none => exact ⟨none, rfl, fun d hd => by cases hd⟩
          | some d =>
              have hlen := (h.toLinked.rooted hr).length_lt_card hfound
              rw [Fintype.card_fin] at hlen
              obtain ⟨b, hb, hunder⟩ := climb_returns h.toLinked hr j (maxDentries + 1) (Nat.lt_succ_of_lt hlen) hfound
              dsimp only
              rw [hb]
              refine ⟨_, rfl, fun e he => ?_⟩
              cases b with
              | false => cases he
              | true =>
                  cases he
                  exact ⟨h.toLinked.walk_used hr hfound, hunder rfl⟩
        · refine ⟨_, rfl, fun d hd => ?_⟩
          rw [lookupPath_eq] at hd
          exact Inside.walk h.toLinked hjused hd
  reachable := fun d hd => by
    induction hd with
    | self => exact ⟨h.jail j hj, .jail⟩
    | child _ hmem ih =>
        obtain ⟨x, hx, hused, hparent, -⟩ := h.children _ _ hmem
        cases hx
        exact ⟨hused, .up hparent ih.2⟩

end Resolution

/-! ### The prefix -/

/-- A path for the jail whose own parts cancel out, so that it makes no difference in front of another path. -/
def Transparent (jailPath : Bytes) : Prop := jailPath ≠ [] ∧ jailParts (jailPath ++ [slash]) = some []

section Prefix

variable {jailPath p : Bytes}

theorem normalize_append (parts a b : List Bytes) :
    normalize parts (a ++ b) = (normalize parts a).bind fun parts => normalize parts b := by
  induction a generalizing parts with
  | nil => rfl
  | cons c a ih =>
      rw [List.cons_append, Vfs.normalize, Vfs.normalize]
      split
      · exact ih parts
      · split
        · exact ih parts.dropLast
        · split
          · rfl
          · exact ih (parts ++ [c])

/-- There is no second slash in the prefix. -/
theorem workspace_eq : ∃ rest, workspace = slash :: rest ∧ slash ∉ rest := ⟨Json.ascii "workspace", by decide, by decide⟩

theorem prefix_workspace (h : jailPath ++ [slash] <+: workspace) : jailPath = [] := by
  obtain ⟨rest, hrest, hnot⟩ := workspace_eq
  cases jailPath with
  | nil => rfl
  | cons c tail =>
      rw [hrest, List.cons_append, List.cons_prefix_cons] at h
      exact absurd (h.2.subset (List.mem_append_right _ (List.mem_singleton_self _))) hnot

/-- Whether the prefix is there can be seen from the path of the jail. -/
theorem jailRelative_append (hne : jailPath ≠ []) :
    jailRelative (jailPath ++ slash :: p) = jailRelative (jailPath ++ [slash]) ++ p := by
  have hsplit : jailPath ++ slash :: p = (jailPath ++ [slash]) ++ p := by
    rw [List.append_assoc, List.singleton_append]
  rw [jailRelative, jailRelative, hsplit]
  by_cases hunder : workspace ++ [slash] <+: jailPath ++ [slash]
  · have hlong : workspace.length ≤ (jailPath ++ [slash]).length := by
      have hle := hunder.length_le
      rw [List.length_append] at hle
      omega
    rw [if_pos (List.isPrefixOf_iff_prefix.mpr (hunder.trans (List.prefix_append _ _))),
      if_pos (List.isPrefixOf_iff_prefix.mpr hunder), List.drop_append_of_le_length hlong]
  · rw [if_neg (fun h => ?_), if_neg fun h => hunder (List.isPrefixOf_iff_prefix.mp h)]
    rcases List.prefix_or_prefix_of_prefix (List.isPrefixOf_iff_prefix.mp h) (List.prefix_append (jailPath ++ [slash]) p)
      with hshort | hlong
    · exact hunder hshort
    · rcases List.prefix_concat_iff.mp hlong with heq | hinner
      · exact hunder (heq ▸ List.prefix_refl _)
      · exact hne (prefix_workspace hinner)

theorem jailRelative_slash : ∃ front, jailRelative (jailPath ++ [slash]) = front ++ [slash] := by
  rw [jailRelative]
  split
  · next h =>
    have hle := (List.isPrefixOf_iff_prefix.mp h).length_le
    rw [List.length_append, List.length_append] at hle
    have hlong : workspace.length ≤ jailPath.length := Nat.le_of_add_le_add_right hle
    exact ⟨jailPath.drop workspace.length, List.drop_append_of_le_length hlong⟩
  · exact ⟨jailPath, rfl⟩

/-- A relative path has the same parts behind a transparent path. -/
theorem Transparent.jailParts (h : Transparent jailPath) : jailParts (jailPath ++ slash :: p) = normalize [] (components p) := by
  obtain ⟨hne, hparts⟩ := h
  obtain ⟨front, hfront⟩ := @jailRelative_slash jailPath
  rw [Vfs.jailParts, components_stripSlash, hfront, components_append_slash, components_nil, List.append_nil] at hparts
  rw [Vfs.jailParts, components_stripSlash, jailRelative_append hne, hfront, List.append_assoc, List.singleton_append,
    components_append_slash, normalize_append, hparts]
  rfl

theorem jailParts_relative (hhead : p.head? ≠ some slash) : jailParts p = normalize [] (components p) := by
  have hno : ¬(workspace ++ [slash]).isPrefixOf p = true := by
    intro h
    obtain ⟨rest, hrest, -⟩ := workspace_eq
    rw [hrest, List.cons_append] at h
    cases p with
    | nil => cases h
    | cons c tail =>
        have hc := (List.cons_prefix_cons.mp (List.isPrefixOf_iff_prefix.mp h)).1
        exact hhead (by rw [← hc]; rfl)
  rw [jailParts, jailRelative, if_neg hno, components_stripSlash]

theorem Transparent.resolveJailed {v : Vfs} {j : Fin maxDentries} (h : Transparent jailPath) (hj : v.jailRoot = some j)
    (hp : p ≠ []) (hhead : p.head? ≠ some slash) : v.resolveJailed (jailPath ++ slash :: p) = v.resolveJailed p := by
  obtain ⟨rest, hrest, hnot⟩ := workspace_eq
  have hpath : jailPath ++ slash :: p ≠ workspace := by
    intro heq
    cases hpath : jailPath with
    | nil => exact h.1 hpath
    | cons c tail =>
        rw [hpath, hrest, List.cons_append, List.cons.injEq] at heq
        exact hnot (heq.2 ▸ List.mem_append_right _ List.mem_cons_self)
  have hp' : p ≠ workspace := by
    rintro rfl
    rw [hrest] at hhead
    exact hhead rfl
  rw [Vfs.resolveJailed, Vfs.resolveJailed, hj]
  dsimp only
  rw [if_neg (List.append_ne_nil_of_right_ne_nil _ (List.cons_ne_nil _ _)), if_neg hpath, if_neg hp, if_neg hp',
    h.jailParts, jailParts_relative hhead]

end Prefix

/-! ### Runs -/

inductive Call where
  | createFile (path content : Bytes)
  | mkdiratImpl (path : Bytes) (mode : Nat)
  | linkat (oldPath newPath : Bytes)
  | unlinkat (path : Bytes)
  | write (f : Fin maxOpenFiles) (buf len : Nat)
  | setJail (path : Bytes)
  | clearJailContents
  /-- The page allocator comes to have other amounts of memory. -/
  | allocator (available : Nat → Bool)
  /-- Other files come to be open. -/
  | files (openFiles : Fin maxOpenFiles → File) (openUsed : Fin maxOpenFiles → Bool)

/-- The file system, and the paths that a jail was set with. -/
structure Jailed where
  vfs : Vfs
  paths : List Bytes := []

/-- A call that returns. What is written comes from the memory of the state around the file system. -/
inductive Step : Jailed → Call → Jailed → Prop where
  | createFile {s : Jailed} {v : Vfs} {path content : Bytes} {d : Option (Fin maxDentries)}
      (h : Vfs.createFile path content s.vfs = (.ok d, v)) : Step s (.createFile path content) { s with vfs := v }
  | mkdiratImpl {s : Jailed} {v : Vfs} {path : Bytes} {mode : Nat} {d : Option (Fin maxDentries)}
      (h : Vfs.mkdiratImpl path mode s.vfs = (.ok d, v)) : Step s (.mkdiratImpl path mode) { s with vfs := v }
  | linkat {s : Jailed} {v : Vfs} {oldPath newPath : Bytes} {ok : Bool}
      (h : Vfs.linkat oldPath newPath s.vfs = (.ok ok, v)) : Step s (.linkat oldPath newPath) { s with vfs := v }
  | unlinkat {s : Jailed} {v : Vfs} {path : Bytes} {ok : Bool} (h : Vfs.unlinkat path s.vfs = (.ok ok, v)) :
      Step s (.unlinkat path) { s with vfs := v }
  | write {s : Jailed} {outer outer' : State} {f : Fin maxOpenFiles} {buf len : Nat} {n : Int} (hvfs : outer.vfs = s.vfs)
      (h : Vfs.write f buf len outer = (.ok n, outer')) : Step s (.write f buf len) { s with vfs := outer'.vfs }
  | setJail {s : Jailed} {v : Vfs} {path : Bytes} {ok : Bool} (h : Vfs.setJail path s.vfs = (.ok ok, v)) :
      Step s (.setJail path) { vfs := v, paths := if ok then path :: s.paths else s.paths }
  | clearJailContents {s : Jailed} {v : Vfs} {removed : Nat} (h : Vfs.clearJailContents s.vfs = (.ok removed, v)) :
      Step s .clearJailContents { s with vfs := v }
  | allocator {s : Jailed} {available : Nat → Bool} :
      Step s (.allocator available) { s with vfs := { s.vfs with available } }
  | files {s : Jailed} {openFiles : Fin maxOpenFiles → File} {openUsed : Fin maxOpenFiles → Bool} :
      Step s (.files openFiles openUsed) { s with vfs := { s.vfs with openFiles, openUsed } }

/-- Nothing is found outside of the jail, and the path of the jail makes no difference in front of a relative path. -/
def Holds (s : Jailed) : Prop := ∀ jail, s.vfs.jailRoot = some jail → Confined s.vfs jail ∧
  ∀ jailPath ∈ s.paths, ∀ p, p ≠ [] → p.head? ≠ some slash →
    s.vfs.resolveJailed (jailPath ++ slash :: p) = s.vfs.resolveJailed p

/-- A file that there is no memory for would not be listed, and the jail has a path that cancels out. -/
def Meets (v : Vfs) : Call → Prop
  | .createFile path content => NoSlot v ∨ (¬Fits v content.length → Full v path)
  | .setJail path => Transparent path
  | _ => True

section Runs

variable {v w : Vfs} {path : Bytes}

theorem nodup_of_filterMap {α : Type} {l : List (Option α)} (hsome : ∀ c ∈ l, ∃ x, c = some x)
    (h : (l.filterMap id).Nodup) : l.Nodup := by
  induction l with
  | nil => exact List.nodup_nil
  | cons c l ih =>
      obtain ⟨x, rfl⟩ := hsome c List.mem_cons_self
      have hcons : (some x :: l).filterMap id = x :: l.filterMap id := rfl
      rw [hcons, List.nodup_cons] at h
      refine List.nodup_cons.mpr ⟨fun hmem => h.1 ?_, ih (fun c hc => hsome c (List.mem_cons_of_mem _ hc)) h.2⟩
      exact List.mem_filterMap.mpr ⟨some x, hmem, rfl⟩

theorem sheltered_of_good (h : Good v) (hjail : v.jailRoot = none) : Sheltered v where
  toLinked := h.toLinked
  nodup := fun p => by
    refine nodup_of_filterMap (fun c hc => ?_) (List.Nodup.of_map _ (h.distinct p))
    obtain ⟨x, hx, -⟩ := h.children p c hc
    exact ⟨x, hx⟩
  jail := fun j hj => by
    rw [hjail] at hj
    cases hj

theorem Sheltered.createFile {content : Bytes} {d : Option (Fin maxDentries)} (h : Sheltered v)
    (hmeets : Meets v (.createFile path content)) (hresult : CreateResult v path content d w) : Sheltered w := by
  cases hresult with
  | noDentry => exact h
  | noInode _ hidden _ => exact h.hidden hidden
  | @noSpace d p ino _ hrevoked hparent hspace =>
      obtain ⟨p', hp', hused⟩ := h.toLinked.parentOf (stripSlash path)
      rw [hparent] at hp'
      cases hp'
      rcases hmeets with hno | hfull
      · exact absurd hno hrevoked.slots.not_noSlot
      · exact h.hidden (hrevoked.hidden hused (hfull hspace p hparent))
  | @made d p ino _ hmade hparent _ _ _ =>
      obtain ⟨p', hp', hused⟩ := h.toLinked.parentOf (stripSlash path)
      rw [hparent] at hp'
      cases hp'
      refine h.placed (hmade.placed hused) hmade.jail fun _ => ?_
      rw [hmade.self hused]
      rfl

theorem Sheltered.mkdirat {d : Option (Fin maxDentries)} (h : Sheltered v) (hresult : MkdirResult v path d w) :
    Sheltered w ∧ w.jailRoot = v.jailRoot ∧ ∀ e, d = some e → w.dentryUsed e = true := by
  cases hresult with
  | noDentry => exact ⟨h, rfl, fun e he => by cases he⟩
  | noInode _ hidden _ => exact ⟨h.hidden hidden, hidden.jail, fun e he => by cases he⟩
  | @made d r ino _ hr hmade _ =>
      have hused := h.toLinked.root_used hr
      refine ⟨h.placed (hmade.placed hused) hmade.jail fun _ => ?_, hmade.jail, fun e he => ?_⟩
      · rw [hmade.self hused]
        rfl
      · cases he
        exact (hmade.placed hused).used_self

theorem Sheltered.setJail {ok : Bool} (h : Sheltered v) (hrun : Vfs.setJail path v = (.ok ok, w)) : Sheltered w := by
  obtain ⟨r, hr, -⟩ := h.root
  rw [Vfs.setJail, Act.get_bind_run, lookup_eq hr, Act.lift_ok_bind_run] at hrun
  have hset : ∀ (x : Vfs) (d : Fin maxDentries), Sheltered x → x.dentryUsed d = true →
      Sheltered { x with jailRoot := some d } := fun x d hx hd =>
    ⟨⟨hx.root, hx.leaf, hx.children⟩, hx.nodup, fun j hj => by
      cases hj
      exact hd⟩
  cases hfound : Walks.walk v.lookupChild r (components path) with
  | some d =>
      rw [hfound] at hrun
      cases hrun
      exact hset v d h (h.toLinked.walk_used hr hfound)
  | none =>
      rw [hfound] at hrun
      obtain ⟨created, x, hmkdir, hrest⟩ := Act.bind_run_eq_ok hrun
      obtain ⟨hx, -, hused⟩ := h.mkdirat ((mkdirat_ensures h.toLinked path 0o755).of_ok hmkdir)
      cases created with
      | none =>
          cases hrest
          exact hx
      | some d =>
          cases hrest
          exact hset x d hx (hused d rfl)

/-- What a step keeps. -/
theorem Sheltered.step {s t : Jailed} {call : Call} (h : Sheltered s.vfs) (hstep : Step s call t)
    (hmeets : Meets s.vfs call) : Sheltered t.vfs := by
  cases hstep with
  | @createFile v path content d hrun => exact h.createFile hmeets ((createFile_ensures h.toLinked path content).of_ok hrun)
  | @mkdiratImpl v path mode d hrun => exact (h.mkdirat ((mkdirat_ensures h.toLinked path mode).of_ok hrun)).1
  | @linkat v oldPath newPath ok hrun =>
      cases (linkat_ensures h.toLinked oldPath newPath).of_ok hrun with
      | refused => exact h
      | linked _ _ hplaced _ _ _ _ hjail => exact h.placed hplaced hjail fun hl => by cases hl
  | @unlinkat v path ok hrun =>
      have hfixes := frame_unlinkat path s.vfs
      rw [hrun] at hfixes
      exact h.congr hfixes
  | @write outer outer' f buf len n hvfs hrun =>
      have hfixes := frame_write f buf len outer
      rw [hrun] at hfixes
      exact h.congr (hfixes.trans (congrArg frame hvfs))
  | setJail hrun => exact h.setJail hrun
  | clearJailContents hrun => exact (h.clear hrun).1
  | allocator => exact h.congr rfl
  | files => exact h.congr rfl

/-- In a run whose calls meet the condition, the jail confines every state. -/
theorem jail_confines {u : Vfs} (hinit : init u = (.ok (), v)) (hhello : u.available 33 = true)
    (hhost : u.available 10 = true) {trace : List Call} {t : Jailed}
    (h : Runs.Run (fun s call t => Step s call t ∧ Meets s.vfs call) { vfs := v } trace t) : Holds t := by
  obtain ⟨hgood, hjail⟩ := good_init hinit hhello hhost
  have hkept : Sheltered t.vfs ∧ ∀ path ∈ t.paths, Transparent path := by
    refine Runs.Run.invariant (I := fun s : Jailed => Sheltered s.vfs ∧ ∀ path ∈ s.paths, Transparent path) h
      ⟨sheltered_of_good hgood hjail, fun path hpath => by cases hpath⟩ ?_
    rintro s call t ⟨hs, hpath⟩ ⟨hstep, hmeets⟩
    refine ⟨hs.step hstep hmeets, ?_⟩
    cases hstep with
    | @setJail v path ok hrun =>
        intro path' hpath'
        cases ok with
        | true =>
            rcases List.mem_cons.mp hpath' with rfl | hmem
            · exact hmeets
            · exact hpath path' hmem
        | false => exact hpath path' hpath'
    | createFile | mkdiratImpl | linkat | unlinkat | write | clearJailContents | allocator | files => exact hpath
  obtain ⟨hs, hpath⟩ := hkept
  exact fun jail hj => ⟨hs.confined hj, fun path hmem p hp hhead => (hpath path hmem).resolveJailed hj hp hhead⟩

/-- A jail after boot. -/
def booted (path : Bytes) : Jailed := { vfs := (setJail path (init {}).2).2, paths := [path] }

theorem step_booted {path : Bytes} (h : (setJail path (init {}).2).1 = .ok true) :
    Step { vfs := (init {}).2 } (.setJail path) (booted path) :=
  @Step.setJail { vfs := (init {}).2 } _ path true (Prod.ext h rfl)

theorem jail_confines_workspace : Holds (booted workspace) := by
  refine jail_confines init_returns rfl rfl (.single ⟨step_booted ?_, ?_⟩)
  · decide +kernel
  · exact ⟨by decide, by decide⟩

/-- Under another jail, the path of the jail itself is not found. -/
theorem other_jail_is_not_stripped : ¬∀ (u v : Vfs) (trace : List Call) (t : Jailed), init u = (.ok (), v) →
    (∀ n, u.available n = true) → Runs.Run Step { vfs := v } trace t → Holds t := by
  intro hall
  have hjail : (booted (Json.ascii "/tmp")).vfs.jailRoot ≠ none := by decide +kernel
  obtain ⟨jail, hj⟩ := Option.ne_none_iff_exists'.mp hjail
  have hstep : Step { vfs := (init {}).2 } (.setJail (Json.ascii "/tmp")) (booted (Json.ascii "/tmp")) :=
    step_booted (by decide +kernel)
  have hsame := (hall {} _ _ _ init_returns (fun _ => rfl) (.single hstep) jail hj).2 _ List.mem_cons_self (Json.ascii ".")
    (by decide) (by decide)
  have hdiffer : (booted (Json.ascii "/tmp")).vfs.resolveJailed (Json.ascii "/tmp" ++ slash :: Json.ascii ".") ≠
      (booted (Json.ascii "/tmp")).vfs.resolveJailed (Json.ascii ".") := by decide +kernel
  exact hdiffer hsame

end Runs

end Kernel.Jail
