import ZigKernel.KernelCursor

/-! Runs of the file system in terms of files and cursors: as long as no call takes a slot that an open file points to, and
no bytes are given back that are still read, every open ramfs file is a cursor on the bytes of its own file. -/

namespace Kernel.Ramfs

open Zig Vfs Jail

def freeDentry (v : Vfs) : Option (Fin maxDentries) := Table.find? v.dentryUsed fun used => !used

/-- The call takes a slot for an inode, if there is one. -/
def Creates (v : Vfs) : Call → Prop
  | .createFile _ _ => (freeDentry v).isSome = true
  | .openat dirfd path flags _ => flags &&& oCreat ≠ 0 ∧ (freeDentry v).isSome = true ∧
      ∃ d, v.resolvePath dirfd path = .ok (some d) ∧ inodeOf v d = none
  | .mkdiratImpl _ _ | .devtmpfsRegister _ _ | .setJail _ => True
  | _ => False

/-- No slot is taken that an open file points to, no file is opened that has lost the bytes it was given, and none with
bytes is destroyed that is open. -/
structure Covered (c : Cursors) (v : Vfs) (call : Call) : Prop where
  fresh : Creates v call → ¬Recycles v.store
  opens : ∀ dirfd path flags mode d i, call = .openat dirfd path flags mode → v.resolvePath dirfd path = .ok (some d) →
    inodeOf v d = some i → (∃ f, v.openUsed f = false) → (v.inodes i).data = none → c.content (i, (v.inodes i).ino) = []
  clears : call = .clearJailContents → ∀ j x i f, v.jailRoot = some j → Below v j x → inodeOf v x = some i →
    dataLength (v.inodes i) ≠ 0 → v.openUsed f = true → (v.openFiles f).inode ≠ some i

/-- The file system next to the files and the cursors. -/
abbrev World := Vfs × Cursors

def Lawful (x : World) (step : Call × Reply) (y : World) : Prop := Answers x.2 step ∧ Shows y.2 y.1.store

/-- The files of a file system in which none is open. -/
def Cursors.boot (s : Store) : Cursors where
  content id := if (s.inodes id.1).ino = id.2 then ((s.inodes id.1).data).getD [] else []
  cursor _ := none

section Calls

variable {c : Cursors} {v w : Vfs} {path : Bytes}

/-- An unlinked inode stays where it is. -/
theorem Good.unlinked {s : Store} (h : Good c s) (i : Fin maxInodes) : Good c (s.release i) := by
  refine h.congr rfl (fun j hj => ?_) rfl rfl rfl
  by_cases hji : j = i
  · have hj : Function.update s.inodeUsed i false j = true := hj
    rw [hji, Function.update_self] at hj
    cases hj
  · have hj : Function.update s.inodeUsed i false j = true := hj
    rwa [Function.update_of_ne hji] at hj

end Calls

/-! ### Runs -/

section Runs

variable {u v : Vfs}

theorem created_open {s t : Store} {made : Option (Fin maxInodes × Bytes)} (h : Created s made t) : t.openUsed = s.openUsed := by
  cases h <;> rfl

/-- What boot leaves of the slots. -/
structure Booted (s : Store) : Prop where
  closed : ∀ f, s.openUsed f = false
  numbered : ∀ i, (s.inodes i).ino < s.inodeNext
  size : ∀ i, (s.inodes i).size = dataLength (s.inodes i)

theorem Booted.good {s : Store} (h : Booted s) : Good (Cursors.boot s) s := by
  have hnot {f : Fin maxOpenFiles} {P : Prop} (hf : s.openUsed f = true) : P := by
    rw [h.closed f] at hf
    cases hf
  refine ⟨⟨fun i _ => ?_, fun f _ _ hf => hnot hf⟩, fun f _ _ hf => hnot hf, fun f hf => hnot hf, h.numbered, fun id hid => ?_,
    h.size, fun i bytes hdata => ?_⟩
  · exact (if_pos rfl).symm
  · refine if_neg fun hino => ?_
    have hlt := h.numbered id.1
    exact Nat.not_lt_of_le hid (hino ▸ hlt)
  · refine (if_pos rfl).trans ?_
    rw [hdata, Option.getD_some]

theorem Booted.created {s t : Store} {made : Option (Fin maxInodes × Bytes)} (h : Booted s) (hmade : Created s made t) :
    Booted t := by
  have hfresh : ¬Recycles s := by
    rintro ⟨_, f, -, hf, -⟩
    rw [h.closed f] at hf
    cases hf
  have hgood := h.good.created hmade hfresh
  refine ⟨fun f => ?_, hgood.numbered, hgood.size⟩
  rw [created_open hmade]
  exact h.closed f

theorem good_init (hinit : init u = (.ok (), v)) : Good (Cursors.boot v.store) v.store := by
  refine (init_keeps (P := Booted) hinit ?_ fun hmade hbooted => hbooted.created hmade).good
  exact ⟨fun _ => rfl, fun _ => Nat.one_pos, fun _ => rfl⟩

def hello : Bytes := Json.ascii "/hello.txt"

/-- The file that boot has made is opened. -/
def greeted : Vfs := (Vfs.openat (-100) hello 0 0 (init {}).2).2

end Runs

end Kernel.Ramfs
