import ZigKernel.KernelRamfs

/-! An open ramfs file as a cursor on the bytes of its own file. Every file that was created has an array of bytes, and
every open file a file and a position; the slots of the inodes hold these arrays as long as no slot is taken that an open
file still points to, and no bytes are given back that an open file, or one that is opened later, still needs. -/

namespace Kernel.Ramfs

open Zig Vfs Jail

/-! ### Files and cursors -/

/-- What there is in terms of files: their bytes, and the file and the position behind every open ramfs file. -/
structure Cursors where
  content : FileId → Bytes
  cursor : Fin maxOpenFiles → Option (FileId × Nat)

namespace Cursors

def move (c : Cursors) (f : Fin maxOpenFiles) (pos : Nat) : Cursors :=
  { c with cursor := Function.update c.cursor f ((c.cursor f).map fun at' => (at'.1, pos)) }

/-- The bytes are written at the cursor, which goes behind them. -/
def put (c : Cursors) (f : Fin maxOpenFiles) (data : Bytes) : Cursors :=
  match c.cursor f with
  | none => c
  | some (id, pos) =>
      { c with content := Function.update c.content id (overwrite (c.content id) pos data) }.move f (pos + data.length)

def advance (c : Cursors) (f : Fin maxOpenFiles) (n : Nat) : Cursors :=
  match c.cursor f with
  | none => c
  | some (_, pos) => c.move f (pos + n)

/-- A ramfs file is opened at its start. -/
def opened (c : Cursors) (f : Fin maxOpenFiles) (id : Option FileId) (ops : Option FileOps) : Cursors :=
  { c with cursor := Function.update c.cursor f (if ops = some .ramfs then id.map fun id => (id, 0) else none) }

/-- The call in terms of files, as far as it succeeds. -/
def step (c : Cursors) : Call × Reply → Cursors
  | (.createFile _ content, .made (some id)) => { c with content := Function.update c.content id content }
  | (.openat _ _ _ _, .opened (some (f, id, ops))) => c.opened f id ops
  | (.write f data, .count n) => if n < 0 then c else c.put f data
  | (.read f _, .bytes n _) => if n < 0 then c else c.advance f n.toNat
  | (.seek f _ _, .count n) => if n < 0 then c else c.move f n.toNat
  | (.close f, _) => { c with cursor := Function.update c.cursor f none }
  | _ => c

section Cursor

variable (c : Cursors) {f g : Fin maxOpenFiles}

theorem move_self (pos : Nat) : (c.move f pos).cursor f = (c.cursor f).map fun at' => (at'.1, pos) := Function.update_self _ _ _

theorem move_other (h : g ≠ f) (pos : Nat) : (c.move f pos).cursor g = c.cursor g := Function.update_of_ne h _ _

theorem move_none (h : c.cursor f = none) (pos : Nat) : c.move f pos = c := by
  rw [move, h, Option.map_none, ← h, Function.update_eq_self]

theorem move_stay {id : FileId} {pos : Nat} (h : c.cursor f = some (id, pos)) : c.move f pos = c := by
  rw [move, h, Option.map_some, ← h, Function.update_eq_self]

theorem opened_self (id : Option FileId) (ops : Option FileOps) :
    (c.opened f id ops).cursor f = if ops = some .ramfs then id.map fun id => (id, 0) else none := Function.update_self _ _ _

theorem opened_other (h : g ≠ f) (id : Option FileId) (ops : Option FileOps) : (c.opened f id ops).cursor g = c.cursor g :=
  Function.update_of_ne h _ _

end Cursor

end Cursors

/-- The bytes that a read of `len` returns at a position of an array. -/
def window (content : Bytes) (pos len : Nat) : Bytes := (content.drop pos).take len

/-- A read and a `pread` return the bytes of the file, and a write takes all that it was given. -/
def Answers (c : Cursors) : Call × Reply → Prop
  | (.read f len, .bytes n data) => ∀ id pos, c.cursor f = some (id, pos) →
      n < 0 ∨ data = window (c.content id) pos len ∧ n = data.length
  | (.pread f offset len, .bytesAt n data) => ∀ id pos, c.cursor f = some (id, pos) →
      n = none ∨ data = window (c.content id) offset len ∧ n = some data.length
  | (.write f data, .count n) => ∀ id pos, c.cursor f = some (id, pos) → n < 0 ∨ n = data.length
  | _ => True

/-! ### The slots -/

/-- The slot is in use, or an open file points to it. -/
def Live (s : Store) (i : Fin maxInodes) : Prop :=
  s.inodeUsed i = true ∨ ∃ f, s.openUsed f = true ∧ (s.openFiles f).inode = some i

/-- The slot holds the bytes of its file. -/
def Intact (c : Cursors) (s : Store) (i : Fin maxInodes) : Prop :=
  ((s.inodes i).data).getD [] = c.content (i, (s.inodes i).ino)

/-- The open file is on the file, at the position. -/
structure Points (s : Store) (f : Fin maxOpenFiles) (id : FileId) (pos : Nat) : Prop where
  inode : (s.openFiles f).inode = some id.1
  ino : (s.inodes id.1).ino = id.2
  pos : (s.openFiles f).pos = pos
  ramfs : s.ops f = some .ramfs

/-- The slots and the open files are as the files and the cursors say. -/
structure Shows (c : Cursors) (s : Store) : Prop where
  intact : ∀ i, Live s i → Intact c s i
  points : ∀ f id pos, s.openUsed f = true → c.cursor f = some (id, pos) → Points s f id pos

/-- What also holds of them. -/
structure Good (c : Cursors) (s : Store) : Prop extends Shows c s where
  inRange : ∀ f id pos, s.openUsed f = true → c.cursor f = some (id, pos) → pos ≤ (c.content id).length
  device : ∀ f, s.openUsed f = true → c.cursor f = none → s.ops f ≠ some .ramfs
  numbered : ∀ i, (s.inodes i).ino < s.inodeNext
  unborn : ∀ id : FileId, s.inodeNext ≤ id.2 → c.content id = []
  size : ∀ i, (s.inodes i).size = dataLength (s.inodes i)
  kept : ∀ i bytes, (s.inodes i).data = some bytes → c.content (i, (s.inodes i).ino) = bytes

section Good

variable {c : Cursors} {s t : Store} {i : Fin maxInodes} {f : Fin maxOpenFiles} {id : FileId} {pos : Nat}

theorem dataLength_getD (inode : Inode) : dataLength inode = (inode.data.getD []).length := by
  rw [dataLength]
  cases inode.data <;> rfl

theorem Points.live (h : Points s f id pos) (hopen : s.openUsed f = true) : Live s id.1 := Or.inr ⟨f, hopen, h.inode⟩

/-- The bytes behind an open file. -/
theorem Good.bytes (h : Good c s) (hopen : s.openUsed f = true) (hcursor : c.cursor f = some (id, pos)) :
    ((s.inodes id.1).data).getD [] = c.content id := by
  have hpoints := h.points f id pos hopen hcursor
  have hintact := h.intact id.1 (hpoints.live hopen)
  rwa [Intact, hpoints.ino] at hintact

/-- A slot that has an array, or whose file was never given bytes, holds the bytes of its file. -/
theorem Good.holds (h : Good c s) (hnone : (s.inodes i).data = none → c.content (i, (s.inodes i).ino) = []) : Intact c s i := by
  rw [Intact]
  cases hdata : (s.inodes i).data with
  | none => exact (hnone hdata).symm
  | some bytes => exact (h.kept i bytes hdata).symm

theorem ops_congr (hfiles : t.openFiles f = s.openFiles f)
    (hinode : ∀ i, (s.openFiles f).inode = some i → (t.inodes i).ops = (s.inodes i).ops) : t.ops f = s.ops f := by
  rw [Store.ops, Store.ops, hfiles]
  cases hi : (s.openFiles f).inode with
  | none => rfl
  | some i => rw [Option.bind_some, Option.bind_some, hinode i hi]

/-- What the files and the cursors do not depend on. -/
theorem Good.congr (h : Good c s) (hinodes : t.inodes = s.inodes) (hused : ∀ i, t.inodeUsed i = true → s.inodeUsed i = true)
    (hnext : t.inodeNext = s.inodeNext) (hfiles : t.openFiles = s.openFiles) (hopen : t.openUsed = s.openUsed) : Good c t := by
  have hops (f : Fin maxOpenFiles) : t.ops f = s.ops f := ops_congr (by rw [hfiles]) fun i _ => by rw [hinodes]
  have hlive : ∀ i, Live t i → Live s i := by
    rintro i (hi | ⟨f, hf, hinode⟩)
    · exact Or.inl (hused i hi)
    · rw [hopen] at hf
      rw [hfiles] at hinode
      exact Or.inr ⟨f, hf, hinode⟩
  refine ⟨⟨fun i hi => ?_, fun f id pos hf hc => ?_⟩, fun f id pos hf hc => ?_, fun f hf hc => ?_, fun i => ?_, fun id hid => ?_,
    fun i => ?_, fun i bytes hdata => ?_⟩
  · rw [Intact, hinodes]
    exact h.intact i (hlive i hi)
  · rw [hopen] at hf
    obtain ⟨hinode, hino, hpos, hramfs⟩ := h.points f id pos hf hc
    exact ⟨hfiles ▸ hinode, hinodes ▸ hino, hfiles ▸ hpos, (hops f).trans hramfs⟩
  · exact h.inRange f id pos (hopen ▸ hf) hc
  · rw [hops]
    exact h.device f (hopen ▸ hf) hc
  · rw [hinodes, hnext]
    exact h.numbered i
  · exact h.unborn id (hnext ▸ hid)
  · rw [hinodes]
    exact h.size i
  · rw [hinodes] at hdata ⊢
    exact h.kept i bytes hdata

/-- A slot that nothing points to gets a new file. -/
theorem Good.taken (h : Good c s) (hnot : ¬Live s i) (inode : Inode) (hino : inode.ino = s.inodeNext)
    (hsize : inode.size = dataLength inode) (hinodes : t.inodes = Function.update s.inodes i inode)
    (hused : ∀ j, j ≠ i → t.inodeUsed j = s.inodeUsed j) (hnext : t.inodeNext = s.inodeNext + 1)
    (hfiles : t.openFiles = s.openFiles) (hopen : t.openUsed = s.openUsed) :
    Good { c with content := Function.update c.content (i, s.inodeNext) (inode.data.getD []) } t := by
  have hself : t.inodes i = inode := by rw [hinodes, Function.update_self]
  have hother (j : Fin maxInodes) (hj : j ≠ i) : t.inodes j = s.inodes j := by rw [hinodes, Function.update_of_ne hj]
  have hne (f : Fin maxOpenFiles) (hf : s.openUsed f = true) (j : Fin maxInodes) (hj : (s.openFiles f).inode = some j) :
      j ≠ i := by
    rintro rfl
    exact hnot (Or.inr ⟨f, hf, hj⟩)
  have hops (f : Fin maxOpenFiles) (hf : s.openUsed f = true) : t.ops f = s.ops f :=
    ops_congr (by rw [hfiles]) fun j hj => by rw [hother j (hne f hf j hj)]
  have hold {id : FileId} (hid : id.2 < s.inodeNext) :
      Function.update c.content (i, s.inodeNext) (inode.data.getD []) id = c.content id := by
    have hne : id ≠ (i, s.inodeNext) := by
      rintro rfl
      exact Nat.lt_irrefl _ hid
    exact Function.update_of_ne hne _ _
  refine ⟨⟨fun j hj => ?_, fun f id pos hf hc => ?_⟩, fun f id pos hf hc => ?_, fun f hf hc => ?_, fun j => ?_, fun id hid => ?_,
    fun j => ?_, fun j bytes hdata => ?_⟩
  · by_cases hji : j = i
    · rw [hji, Intact, hself, hino]
      exact (Function.update_self (i, s.inodeNext) (inode.data.getD []) c.content).symm
    · rw [Intact, hother j hji]
      refine (h.intact j ?_).trans (hold (h.numbered j)).symm
      rcases hj with hj | ⟨f, hf, hinode⟩
      · exact Or.inl ((hused j hji).symm.trans hj)
      · exact Or.inr ⟨f, hopen ▸ hf, hfiles ▸ hinode⟩
  · rw [hopen] at hf
    obtain ⟨hinode, hino', hpos, hramfs⟩ := h.points f id pos hf hc
    refine ⟨hfiles ▸ hinode, ?_, hfiles ▸ hpos, (hops f hf).trans hramfs⟩
    rw [hother _ (hne f hf _ hinode), hino']
  · rw [hopen] at hf
    have hid := h.numbered id.1
    rw [(h.points f id pos hf hc).ino] at hid
    exact (h.inRange f id pos hf hc).trans_eq (congrArg List.length (hold hid).symm)
  · rw [hopen] at hf
    rw [hops f hf]
    exact h.device f hf hc
  · rw [hnext]
    by_cases hji : j = i
    · rw [hji, hself, hino]
      exact Nat.lt_succ_self _
    · rw [hother j hji]
      exact (h.numbered j).trans (Nat.lt_succ_self _)
  · rw [hnext] at hid
    have hne : id ≠ (i, s.inodeNext) := by
      rintro rfl
      exact Nat.not_succ_le_self _ hid
    exact (Function.update_of_ne hne _ _).trans (h.unborn id (Nat.le_of_succ_le hid))
  · by_cases hji : j = i
    · rw [hji, hself]
      exact hsize
    · rw [hother j hji]
      exact h.size j
  · by_cases hji : j = i
    · rw [hji, hself] at hdata ⊢
      rw [hino, hdata]
      exact Function.update_self (i, s.inodeNext) _ c.content
    · rw [hother j hji] at hdata ⊢
      exact (hold (h.numbered j)).trans (h.kept j bytes hdata)

/-- A new file without bytes is one that the arrays already have. -/
theorem Good.unborn_update (h : Good c s) (i : Fin maxInodes) :
    { c with content := Function.update c.content (i, s.inodeNext) [] } = c := by
  have hcontent : Function.update c.content (i, s.inodeNext) [] = c.content := by
    rw [← h.unborn (i, s.inodeNext) (Nat.le_refl _)]
    exact Function.update_eq_self _ _
  rw [hcontent]

/-- The first free slot is one that an open file still points to. -/
def Recycles (s : Store) : Prop := ∃ i f, s.firstFree = some i ∧ s.openUsed f = true ∧ (s.openFiles f).inode = some i

theorem not_live_of_free (h : ¬Recycles s) (hfree : s.firstFree = some i) : ¬Live s i := by
  rintro (hused | ⟨f, hf, hinode⟩)
  · have hidle := Table.find?_some hfree
    rw [hused] at hidle
    cases hidle
  · exact h ⟨i, f, hfree, hf, hinode⟩

/-- The arrays with the bytes of the inode that a call has made. -/
def Cursors.born (c : Cursors) (s : Store) : Option (Fin maxInodes × Bytes) → Cursors
  | none => c
  | some (i, content) => { c with content := Function.update c.content (i, s.inodeNext) content }

/-- A call that makes an inode, where no open file points to its slot. -/
theorem Good.created {made : Option (Fin maxInodes × Bytes)} (h : Good c s) (hmade : Created s made t)
    (hfresh : ¬Recycles s) : Good (c.born s made) t := by
  have hother (i : Fin maxInodes) (j : Fin maxInodes) (hj : j ≠ i) : Function.update s.inodeUsed i true j = s.inodeUsed j :=
    Function.update_of_ne hj _ _
  cases hmade with
  | none => exact h
  | @failed i hfree =>
      have htaken : Good { c with content := Function.update c.content (i, s.inodeNext) [] } ((s.take i).release i) :=
        h.taken (not_live_of_free hfresh hfree) { ino := s.inodeNext } rfl rfl rfl
          (fun j hj => (Function.update_of_ne hj _ _).trans (hother i j hj)) rfl rfl rfl
      rwa [h.unborn_update] at htaken
  | @empty i hfree mode ops =>
      exact h.taken (not_live_of_free hfresh hfree) { ino := s.inodeNext, mode, ops } rfl rfl
        (Function.update_idem _ _ _) (hother i) rfl rfl rfl
  | @file i content hfree hcap mode =>
      refine h.taken (not_live_of_free hfresh hfree) { (s.take i).inodes i with
        data := some content, buf := s.buffers, size := content.length, ops := some .ramfs, mode } ?_ rfl
        (Function.update_idem _ _ _) (hother i) rfl rfl rfl
      have hself : (s.take i).inodes i = { ino := s.inodeNext } := Function.update_self _ _ _
      exact congrArg Inode.ino hself

/-- A file is opened whose slot holds its bytes. -/
theorem Good.opened (h : Good c s) (hfree : s.openUsed f = false) (hintact : Intact c s i) (d : Option (Fin maxDentries))
    (flags : Nat) : Good (c.opened f (some (i, (s.inodes i).ino)) (s.inodes i).ops)
      (s.opened f { dentry := d, inode := some i, flags }) := by
  have hself : (s.opened f { dentry := d, inode := some i, flags }).openFiles f = { dentry := d, inode := some i, flags } :=
    Function.update_self _ _ _
  have hother {g : Fin maxOpenFiles} (hg : g ≠ f) :
      (s.opened f { dentry := d, inode := some i, flags }).openFiles g = s.openFiles g := Function.update_of_ne hg _ _
  have hstill {g : Fin maxOpenFiles} (hg : g ≠ f)
      (hopen : (s.opened f { dentry := d, inode := some i, flags }).openUsed g = true) : s.openUsed g = true :=
    (Function.update_of_ne hg _ _).symm.trans hopen
  have hops : (s.opened f { dentry := d, inode := some i, flags }).ops f = (s.inodes i).ops := by
    rw [Store.ops, hself]
    rfl
  have hopsOther {g : Fin maxOpenFiles} (hg : g ≠ f) : (s.opened f { dentry := d, inode := some i, flags }).ops g = s.ops g :=
    ops_congr (hother hg) fun _ _ => rfl
  refine ⟨⟨fun j hj => ?_, fun g id pos hg hc => ?_⟩, fun g id pos hg hc => ?_, fun g hg hc => ?_, h.numbered, h.unborn, h.size,
    h.kept⟩
  · rcases hj with hj | ⟨g, hg, hinode⟩
    · exact h.intact j (Or.inl hj)
    · by_cases hgf : g = f
      · rw [hgf, hself] at hinode
        cases hinode
        exact hintact
      · rw [hother hgf] at hinode
        exact h.intact j (Or.inr ⟨g, hstill hgf hg, hinode⟩)
  · by_cases hgf : g = f
    · subst hgf
      rw [Cursors.opened_self] at hc
      split at hc
      · next hramfs =>
        cases hc
        exact ⟨congrArg File.inode hself, rfl, congrArg File.pos hself, hops.trans hramfs⟩
      · cases hc
    · rw [Cursors.opened_other _ hgf] at hc
      obtain ⟨hinode, hino, hpos, hramfs⟩ := h.points g id pos (hstill hgf hg) hc
      exact ⟨(congrArg File.inode (hother hgf)).trans hinode, hino, (congrArg File.pos (hother hgf)).trans hpos,
        (hopsOther hgf).trans hramfs⟩
  · by_cases hgf : g = f
    · subst hgf
      rw [Cursors.opened_self] at hc
      split at hc
      · cases hc
        exact Nat.zero_le _
      · cases hc
    · rw [Cursors.opened_other _ hgf] at hc
      exact h.inRange g id pos (hstill hgf hg) hc
  · by_cases hgf : g = f
    · subst hgf
      rw [Cursors.opened_self] at hc
      split at hc
      · cases hc
      · next hramfs => rwa [hops]
    · rw [Cursors.opened_other _ hgf] at hc
      rw [hopsOther hgf]
      exact h.device g (hstill hgf hg) hc

/-- A cursor goes to another position of its file. -/
theorem Good.moved (h : Good c s) (hopen : s.openUsed f = true) (hinode : (s.openFiles f).inode = some i)
    (hpos : pos ≤ (s.inodes i).size) : Good (c.move f pos) (s.seek f pos) := by
  have hself : (s.seek f pos).openFiles f = { s.openFiles f with pos } := Function.update_self _ _ _
  have hother {g : Fin maxOpenFiles} (hg : g ≠ f) : (s.seek f pos).openFiles g = s.openFiles g := Function.update_of_ne hg _ _
  have hinodeOf (g : Fin maxOpenFiles) : ((s.seek f pos).openFiles g).inode = (s.openFiles g).inode := by
    by_cases hgf : g = f
    · rw [hgf, hself]
    · rw [hother hgf]
  have hops (g : Fin maxOpenFiles) : (s.seek f pos).ops g = s.ops g := by
    by_cases hgf : g = f
    · rw [Store.ops, Store.ops, hgf, hself]
      rfl
    · exact ops_congr (hother hgf) fun _ _ => rfl
  have hcursor {g : Fin maxOpenFiles} {id : FileId} {p : Nat} (hc : (c.move f pos).cursor g = some (id, p)) :
      ∃ old, c.cursor g = some (id, old) ∧ p = if g = f then pos else old := by
    by_cases hgf : g = f
    · subst hgf
      rw [Cursors.move_self] at hc
      obtain ⟨⟨id', old⟩, hold, heq⟩ := Option.map_eq_some_iff.mp hc
      cases heq
      exact ⟨old, hold, (if_pos rfl).symm⟩
    · rw [Cursors.move_other _ hgf] at hc
      exact ⟨p, hc, (if_neg hgf).symm⟩
  refine ⟨⟨fun j hj => ?_, fun g id p hg hc => ?_⟩, fun g id p hg hc => ?_, fun g hg hc => ?_, h.numbered, h.unborn, h.size,
    h.kept⟩
  · refine h.intact j (hj.imp_right ?_)
    rintro ⟨g, hg, hinode⟩
    exact ⟨g, hg, (hinodeOf g).symm.trans hinode⟩
  · obtain ⟨old, hold, rfl⟩ := hcursor hc
    obtain ⟨hinode', hino, hold', hramfs⟩ := h.points g id old hg hold
    refine ⟨(hinodeOf g).trans hinode', hino, ?_, (hops g).trans hramfs⟩
    by_cases hgf : g = f
    · rw [if_pos hgf, hgf, hself]
    · rw [if_neg hgf, hother hgf, hold']
  · obtain ⟨old, hold, rfl⟩ := hcursor hc
    by_cases hgf : g = f
    · rw [if_pos hgf]
      have hi := (h.points g id old hg hold).inode
      rw [hgf, hinode] at hi
      have hi : i = id.1 := Option.some.inj hi
      refine hpos.trans_eq ?_
      rw [h.size, dataLength_getD, hi, h.bytes hg hold]
      rfl
    · rw [if_neg hgf]
      exact h.inRange g id old hg hold
  · rw [hops]
    refine h.device g hg ?_
    by_cases hgf : g = f
    · subst hgf
      rw [Cursors.move_self] at hc
      exact Option.map_eq_none_iff.mp hc
    · rwa [Cursors.move_other _ hgf] at hc

/-- The file behind a cursor gets other bytes, no fewer than it had. -/
theorem Good.rewritten (h : Good c s) (hopen : s.openUsed f = true) (hcursor : c.cursor f = some (id, pos)) {new : Bytes}
    {inode : Inode} (hino : inode.ino = (s.inodes id.1).ino) (hdata : inode.data = some new)
    (hops : inode.ops = (s.inodes id.1).ops) (hsize : inode.size = new.length) (hlen : (c.content id).length ≤ new.length)
    (hinodes : t.inodes = Function.update s.inodes id.1 inode) (hused : t.inodeUsed = s.inodeUsed)
    (hnext : t.inodeNext = s.inodeNext) (hfiles : t.openFiles = s.openFiles) (hopens : t.openUsed = s.openUsed) :
    Good { c with content := Function.update c.content id new } t := by
  have hself : t.inodes id.1 = inode := by rw [hinodes, Function.update_self]
  have hother (j : Fin maxInodes) (hj : j ≠ id.1) : t.inodes j = s.inodes j := by rw [hinodes, Function.update_of_ne hj]
  have hid : (s.inodes id.1).ino = id.2 := (h.points f id pos hopen hcursor).ino
  have hinoOf (j : Fin maxInodes) : (t.inodes j).ino = (s.inodes j).ino := by
    by_cases hj : j = id.1
    · rw [hj, hself, hino]
    · rw [hother j hj]
  have hopsOf (g : Fin maxOpenFiles) : t.ops g = s.ops g := by
    refine ops_congr (by rw [hfiles]) fun j _ => ?_
    by_cases hj : j = id.1
    · rw [hj, hself, hops]
    · rw [hother j hj]
  have hgrows (id' : FileId) : (c.content id').length ≤ (Function.update c.content id new id').length := by
    by_cases heq : id' = id
    · rw [heq, Function.update_self]
      exact hlen
    · rw [Function.update_of_ne heq]
  refine ⟨⟨fun j hj => ?_, fun g id' p hg hc => ?_⟩, fun g id' p hg hc => ?_, fun g hg hc => ?_, fun j => ?_, fun id' hid' => ?_,
    fun j => ?_, fun j bytes hbytes => ?_⟩
  · rw [Live, hused, hfiles, hopens] at hj
    rw [Intact, hinoOf]
    by_cases hji : j = id.1
    · rw [hji, hself, hid, hdata]
      exact (Function.update_self id new c.content).symm
    · have hne : (j, (s.inodes j).ino) ≠ id := fun heq => hji (congrArg Prod.fst heq)
      rw [hother j hji]
      exact (h.intact j hj).trans (Function.update_of_ne hne _ _).symm
  · rw [hopens] at hg
    obtain ⟨hinode, hino', hpos, hramfs⟩ := h.points g id' p hg hc
    exact ⟨hfiles ▸ hinode, (hinoOf _).trans hino', hfiles ▸ hpos, (hopsOf g).trans hramfs⟩
  · rw [hopens] at hg
    exact (h.inRange g id' p hg hc).trans (hgrows id')
  · rw [hopens] at hg
    rw [hopsOf]
    exact h.device g hg hc
  · rw [hinoOf, hnext]
    exact h.numbered j
  · rw [hnext] at hid'
    have hne : id' ≠ id := by
      rintro rfl
      exact Nat.not_lt_of_le hid' (hid ▸ h.numbered _)
    exact (Function.update_of_ne hne _ _).trans (h.unborn id' hid')
  · by_cases hji : j = id.1
    · rw [hji, hself, hsize, dataLength_some hdata]
    · rw [hother j hji]
      exact h.size j
  · rw [hinoOf]
    by_cases hji : j = id.1
    · rw [hji, hself, hdata] at hbytes
      rw [hji, hid]
      exact (Function.update_self id new c.content).trans (Option.some.inj hbytes)
    · have hne : (j, (s.inodes j).ino) ≠ id := fun heq => hji (congrArg Prod.fst heq)
      rw [hother j hji] at hbytes
      exact (Function.update_of_ne hne _ _).trans (h.kept j bytes hbytes)

/-- What a write leaves of the bytes does not depend on what a file has grown by. -/
theorem overwrite_grown {old : Option Bytes} {data : Bytes} (hpos : pos ≤ (old.getD []).length)
    (hlen : (old.getD []).length ≤ pos + data.length) :
    overwrite (grown old (pos + data.length)) pos data = overwrite (old.getD []) pos data := by
  have hlength : (grown old (pos + data.length)).length = pos + data.length := by
    refine length_grown old ?_
    cases old with
    | none => exact Nat.zero_le _
    | some old => exact hlen
  have hfront : (grown old (pos + data.length)).take pos = (old.getD []).take pos := by
    cases old with
    | none =>
        have hzero : pos = 0 := Nat.le_zero.mp hpos
        rw [hzero, List.take_zero, List.take_zero]
    | some old =>
        have hle : pos ≤ (old.take (pos + data.length)).length := by
          rw [List.length_take]
          exact Nat.le_min.mpr ⟨Nat.le_add_right _ _, hpos⟩
        rw [grown, List.take_append_of_le_length hle, List.take_take, Nat.min_eq_left (Nat.le_add_right _ _)]
        rfl
  rw [overwrite, overwrite, hfront, List.drop_of_length_le (Nat.le_of_eq hlength), List.drop_of_length_le hlen]

theorem length_overwrite_ge {old data : Bytes} (hpos : pos ≤ old.length) :
    old.length ≤ (overwrite old pos data).length ∧ pos + data.length ≤ (overwrite old pos data).length := by
  rw [overwrite, List.length_append, List.length_append, List.length_take, List.length_drop]
  omega

/-- A write through an open file. -/
theorem Good.written {data : Bytes} {n : Int} (h : Good c s) (hopen : s.openUsed f = true) (hw : Written s f data n t) :
    Good (if n < 0 then c else c.put f data) t ∧ ∀ id pos, c.cursor f = some (id, pos) → n < 0 ∨ n = data.length := by
  cases hcursor : c.cursor f with
  | none =>
      have hput : c.put f data = c := by rw [Cursors.put, hcursor]
      refine ⟨?_, nofun⟩
      rw [hput, ite_self]
      cases hw with
      | refused _ _ | device _ => exact h
      | inPlace hops _ _ _ | grown hops _ _ _ _ => exact absurd hops (h.device f hopen hcursor)
  | some at' =>
      obtain ⟨id, pos⟩ := at'
      have hpoints := h.points f id pos hopen hcursor
      have hbytes := h.bytes hopen hcursor
      have hrange := h.inRange f id pos hopen hcursor
      have hput : c.put f data =
          ({ c with content := Function.update c.content id (overwrite (c.content id) pos data) } : Cursors).move f
            (pos + data.length) := by rw [Cursors.put, hcursor]
      obtain ⟨hle, hstop⟩ := @length_overwrite_ge pos (c.content id) data hrange
      -- the inode with the new bytes
      have hwritten (t' : Store) (inode : Inode) (hino : inode.ino = (s.inodes id.1).ino)
          (hdata : inode.data = some (overwrite (c.content id) pos data)) (hops : inode.ops = (s.inodes id.1).ops)
          (hsize : inode.size = (overwrite (c.content id) pos data).length)
          (hinodes : t'.inodes = Function.update s.inodes id.1 inode) (hused : t'.inodeUsed = s.inodeUsed)
          (hnext : t'.inodeNext = s.inodeNext) (hfiles : t'.openFiles = s.openFiles) (hopens : t'.openUsed = s.openUsed) :
          Good (c.put f data) (t'.seek f (pos + data.length)) := by
        rw [hput]
        refine (h.rewritten hopen hcursor hino hdata hops hsize hle hinodes hused hnext hfiles hopens).moved
          (hopens ▸ hopen) (hfiles ▸ hpoints.inode) ?_
        rw [hinodes, Function.update_self, hsize]
        exact hstop
      have hcount : ¬((data.length : Nat) : Int) < 0 := Int.not_lt.mpr (Int.natCast_nonneg _)
      cases hw with
      | refused hn _ =>
          rw [if_pos hn]
          exact ⟨h, fun _ _ _ => Or.inl hn⟩
      | device hops => exact absurd hpoints.ramfs hops
      | @inPlace i old hops hinode hdata hfits =>
          have hi : i = id.1 := Option.some.inj (hinode.symm.trans hpoints.inode)
          subst hi
          rw [hdata, Option.getD_some] at hbytes
          rw [hpoints.pos] at hfits ⊢
          rw [if_neg hcount]
          refine ⟨hwritten (s.write id.1 (overwrite old pos data) (pos + data.length)) { s.inodes id.1 with
            data := some (overwrite old pos data), size := max (s.inodes id.1).size (pos + data.length) }
            rfl ?_ rfl ?_ rfl rfl rfl rfl rfl, fun _ _ _ => Or.inr rfl⟩
          · rw [hbytes]
          · have hlen := length_overwrite hfits
            rw [← hbytes, hlen]
            change max (s.inodes id.1).size (pos + data.length) = _
            rw [h.size, dataLength_some hdata, Nat.max_eq_left hfits]
      | @grown i hops hinode hgrows hcap hroom =>
          have hi : i = id.1 := Option.some.inj (hinode.symm.trans hpoints.inode)
          subst hi
          obtain ⟨hused, hnext, hfiles, hopens⟩ := s.discard_kept id.1
          have hle' : dataLength (s.inodes id.1) ≤ pos + data.length := by
            rw [hpoints.pos] at hgrows
            rcases hgrows with hnone | hlt
            · rw [dataLength_none hnone]
              exact Nat.zero_le _
            · exact Nat.le_of_lt hlt
          rw [dataLength_getD, hbytes] at hle'
          have hnew := @overwrite_grown pos (s.inodes id.1).data data (hbytes ▸ hrange) (hbytes ▸ hle')
          rw [hbytes] at hnew
          have hlen : (overwrite (c.content id) pos data).length = pos + data.length := by
            rw [overwrite, List.length_append, List.length_append, List.length_take, List.length_drop]
            omega
          rw [hpoints.pos, hnew, if_neg hcount]
          refine ⟨hwritten ((s.grow id.1 (pos + data.length)).write id.1 (overwrite (c.content id) pos data)
            (pos + data.length)) { s.inodes id.1 with
              data := some (overwrite (c.content id) pos data), buf := s.buffers
              size := max (s.inodes id.1).size (pos + data.length) }
            rfl rfl rfl ?_ (s.grow_write_inodes id.1 _ _ _) hused hnext hfiles hopens, fun _ _ _ => Or.inr rfl⟩
          change max (s.inodes id.1).size (pos + data.length) = _
          rw [h.size, dataLength_getD, hbytes, Nat.max_eq_right hle', hlen]

theorem foldl_drop_kept (s : Store) (l : List (Fin maxInodes)) :
    (∀ i, (l.foldl Store.drop s).inodeUsed i = true → i ∉ l ∧ s.inodeUsed i = true) ∧
      (l.foldl Store.drop s).inodeNext = s.inodeNext ∧ (l.foldl Store.drop s).openFiles = s.openFiles ∧
      (l.foldl Store.drop s).openUsed = s.openUsed := by
  induction l generalizing s with
  | nil => exact ⟨fun i hi => ⟨List.not_mem_nil, hi⟩, rfl, rfl, rfl⟩
  | cons k l ih =>
      obtain ⟨hused, hnext, hfiles, hopens⟩ := s.discard_kept k
      obtain ⟨ihUsed, ihNext, ihFiles, ihOpens⟩ := ih (s.drop k)
      refine ⟨fun i hi => ?_, ihNext.trans hnext, ihFiles.trans hfiles, ihOpens.trans hopens⟩
      obtain ⟨hnot, hi⟩ := ihUsed i hi
      have hdrop : (s.drop k).inodeUsed = Function.update s.inodeUsed k false :=
        congrArg (fun used : Fin maxInodes → Bool => Function.update used k false) hused
      rw [hdrop] at hi
      by_cases hik : i = k
      · rw [hik, Function.update_self] at hi
        cases hi
      · rw [Function.update_of_ne hik] at hi
        exact ⟨fun hmem => (List.mem_cons.mp hmem).elim hik hnot, hi⟩

/-- Files are destroyed, and none with bytes that is open. -/
theorem Good.dropped (h : Good c s) (l : List (Fin maxInodes))
    (hsafe : ∀ i ∈ l, dataLength (s.inodes i) ≠ 0 → ∀ f, s.openUsed f = true → (s.openFiles f).inode ≠ some i) :
    Good c (l.foldl Store.drop s) := by
  obtain ⟨hused, hnext, hfiles, hopens⟩ := foldl_drop_kept s l
  have hinodes := fun i => s.foldl_drop_inodes i l
  have hino (i : Fin maxInodes) : ((l.foldl Store.drop s).inodes i).ino = (s.inodes i).ino := by
    rw [hinodes]
    split <;> rfl
  have hops (f : Fin maxOpenFiles) : (l.foldl Store.drop s).ops f = s.ops f := by
    refine ops_congr (by rw [hfiles]) fun i _ => ?_
    rw [hinodes]
    split <;> rfl
  refine ⟨⟨fun i hi => ?_, fun f id pos hf hc => ?_⟩, fun f id pos hf hc => ?_, fun f hf hc => ?_, fun i => ?_, fun id hid => ?_,
    fun i => ?_, fun i bytes hdata => ?_⟩
  · rw [Live, hfiles, hopens] at hi
    rw [Intact, hino, hinodes]
    by_cases hmem : i ∈ l
    · rw [if_pos hmem]
      rcases hi with hi | ⟨f, hf, hinode⟩
      · exact absurd hmem (hused i hi).1
      · have hzero : dataLength (s.inodes i) = 0 := by
          by_contra hne
          exact hsafe i hmem hne f hf hinode
        rw [dataLength_getD, h.intact i (Or.inr ⟨f, hf, hinode⟩)] at hzero
        exact (List.length_eq_zero_iff.mp hzero).symm
    · rw [if_neg hmem]
      exact h.intact i (hi.imp_left fun hi => (hused i hi).2)
  · rw [hopens] at hf
    obtain ⟨hinode, hino', hpos, hramfs⟩ := h.points f id pos hf hc
    exact ⟨hfiles ▸ hinode, (hino _).trans hino', hfiles ▸ hpos, (hops f).trans hramfs⟩
  · exact h.inRange f id pos (hopens ▸ hf) hc
  · rw [hops]
    exact h.device f (hopens ▸ hf) hc
  · rw [hino, hnext]
    exact h.numbered i
  · exact h.unborn id (hnext ▸ hid)
  · rw [hinodes]
    split
    · rfl
    · exact h.size i
  · rw [hino]
    rw [hinodes] at hdata
    by_cases hmem : i ∈ l
    · rw [if_pos hmem] at hdata
      cases hdata
    · rw [if_neg hmem] at hdata
      exact h.kept i bytes hdata

/-- An open file is closed. -/
theorem Good.closed (h : Good c s) (f : Fin maxOpenFiles) :
    Good { c with cursor := Function.update c.cursor f none } (s.close f) := by
  have hstill {g : Fin maxOpenFiles} (hg : (s.close f).openUsed g = true) : g ≠ f ∧ s.openUsed g = true := by
    have hg : Function.update s.openUsed f false g = true := hg
    by_cases hgf : g = f
    · rw [hgf, Function.update_self] at hg
      cases hg
    · rw [Function.update_of_ne hgf] at hg
      exact ⟨hgf, hg⟩
  have hcursor {g : Fin maxOpenFiles} (hg : g ≠ f) : Function.update c.cursor f none g = c.cursor g :=
    Function.update_of_ne hg _ _
  refine ⟨⟨fun i hi => ?_, fun g id pos hg hc => ?_⟩, fun g id pos hg hc => ?_, fun g hg hc => ?_, h.numbered, h.unborn, h.size,
    h.kept⟩
  · refine h.intact i (hi.imp_right ?_)
    rintro ⟨g, hg, hinode⟩
    exact ⟨g, (hstill hg).2, hinode⟩
  · obtain ⟨hgf, hg⟩ := hstill hg
    obtain ⟨hinode, hino, hpos, hramfs⟩ := h.points g id pos hg ((hcursor hgf).symm.trans hc)
    exact ⟨hinode, hino, hpos, hramfs⟩
  · obtain ⟨hgf, hg⟩ := hstill hg
    exact h.inRange g id pos hg ((hcursor hgf).symm.trans hc)
  · obtain ⟨hgf, hg⟩ := hstill hg
    exact h.device g hg ((hcursor hgf).symm.trans hc)

/-- The bytes of a window, as many as there are. -/
theorem length_window (content : Bytes) (pos len : Nat) :
    (window content pos len).length = min len (content.length - pos) := by
  rw [window, List.length_take, List.length_drop]

theorem advance_move (n : Nat) (hcursor : ∀ id pos, c.cursor f = some (id, pos) → pos = (s.openFiles f).pos) :
    c.advance f n = c.move f ((s.openFiles f).pos + n) := by
  rw [Cursors.advance]
  cases hc : c.cursor f with
  | none => exact (c.move_none hc _).symm
  | some at' =>
      obtain ⟨id, pos⟩ := at'
      rw [← hcursor id pos hc]

/-- A read at the cursor. -/
theorem Good.read {len : Nat} {n : Int} {bytes : Bytes} (h : Good c s) (hopen : s.openUsed f = true)
    (hr : Read s f len n bytes t) : Good (if n < 0 then c else c.advance f n.toNat) t ∧
      ∀ id pos, c.cursor f = some (id, pos) → n < 0 ∨ bytes = window (c.content id) pos len ∧ n = bytes.length := by
  have hat : ∀ id pos, c.cursor f = some (id, pos) → pos = (s.openFiles f).pos := fun id pos hc =>
    (h.points f id pos hopen hc).pos.symm
  cases hr with
  | refused hn =>
      rw [if_pos hn]
      exact ⟨h, fun _ _ _ => Or.inl hn⟩
  | device hops =>
      cases hc : c.cursor f with
      | none =>
          rw [Cursors.advance, hc, ite_self]
          exact ⟨h, nofun⟩
      | some at' => exact absurd (h.points f at'.1 at'.2 hopen hc).ramfs hops
  | empty hinode hdata =>
      have hstay : c.advance f 0 = c := by
        rw [advance_move 0 hat, Nat.add_zero]
        cases hc : c.cursor f with
        | none => exact c.move_none hc _
        | some at' =>
            rw [← hat at'.1 at'.2 hc]
            exact c.move_stay hc
      refine ⟨?_, fun id pos hc => Or.inr ?_⟩
      · rw [if_neg (Int.lt_irrefl 0), Int.toNat_zero, hstay]
        exact h
      · have hbytes := h.bytes hopen hc
        rw [Option.some.inj ((h.points f id pos hopen hc).inode.symm.trans hinode), hdata] at hbytes
        rw [← hbytes]
        exact ⟨by rw [Option.getD_none, window, List.drop_nil, List.take_nil], rfl⟩
  | @some i data hinode hdata hpos =>
      have hnot : ¬((min len (data.length - (s.openFiles f).pos) : Nat) : Int) < 0 := Int.not_lt.mpr (Int.natCast_nonneg _)
      rw [if_neg hnot, Int.toNat_natCast, advance_move _ hat]
      have htouch : Good c (s.touch i) := h.congr rfl (fun _ hi => hi) rfl rfl rfl
      refine ⟨htouch.moved hopen hinode ?_, fun id pos hc => Or.inr ?_⟩
      · refine le_trans ?_ (h.size i).ge
        rw [dataLength_some hdata]
        omega
      · have hbytes := h.bytes hopen hc
        rw [Option.some.inj ((h.points f id pos hopen hc).inode.symm.trans hinode), hdata, Option.getD_some] at hbytes
        rw [← hbytes, hat id pos hc]
        exact ⟨rfl, congrArg Nat.cast (length_window _ _ _).symm⟩

end Good

end Kernel.Ramfs
