import ZigKernel.KernelRamfs

/-! The quota of ramfs over runs. What has been charged is the sum of the bytes of all inodes, and every buffer belongs to
one inode or has been given back. The inodes in use hold all those bytes as long as no slot is given back, or grown,
that has bytes and is not in use; and `clearJailContents` releases the files that the children arrays lead to. -/

namespace Kernel.Ramfs

open Zig Vfs Jail

/-! ### Buffers -/

/-- Every inode with bytes has a buffer of its own that has not been given back, and nothing else has been done with the
buffers. -/
structure Owned (s : Store) : Prop where
  held : ∀ i, (s.inodes i).data.isSome = true → (s.inodes i).buf < s.buffers ∧ (s.inodes i).buf ∉ s.freed
  apart : ∀ i j, (s.inodes i).data.isSome = true → (s.inodes j).data.isSome = true → (s.inodes i).buf = (s.inodes j).buf → i = j
  old : ∀ b ∈ s.freed, b < s.buffers
  fault : s.fault = false

/-- The charge is the sum of the bytes of all inodes. -/
structure Balanced (s : Store) : Prop extends Owned s where
  sum : s.fsUsedBytes = ∑ i, dataLength (s.inodes i)
  cap : s.fsUsedBytes ≤ fsCapBytes

/-- What is not in use has no bytes. -/
def Idle (s : Store) : Prop := ∀ i, s.inodeUsed i = false → dataLength (s.inodes i) = 0

section Balanced

variable {s t : Store} {i : Fin maxInodes} {inode : Inode}

/-- One inode is replaced; the buffer that it had may be given back, and the one that it gets is nobody else's. -/
theorem Owned.replace (h : Owned s) (hinodes : t.inodes = Function.update s.inodes i inode) (hbuffers : s.buffers ≤ t.buffers)
    (hfault : t.fault = false)
    (hfreed : ∀ b ∈ t.freed, b ∈ s.freed ∨ (s.inodes i).data.isSome = true ∧ b = (s.inodes i).buf)
    (hself : inode.data.isSome = true → inode.buf < t.buffers ∧ inode.buf ∉ t.freed ∧
      ∀ j, j ≠ i → (s.inodes j).data.isSome = true → (s.inodes j).buf ≠ inode.buf) : Owned t := by
  have hi : t.inodes i = inode := by rw [hinodes, Function.update_self]
  have hother : ∀ j, j ≠ i → t.inodes j = s.inodes j := fun j hj => by rw [hinodes, Function.update_of_ne hj]
  refine ⟨fun j hj => ?_, fun j k hj hk heq => ?_, fun b hb => ?_, hfault⟩
  · by_cases hji : j = i
    · rw [hji, hi] at hj ⊢
      exact ⟨(hself hj).1, (hself hj).2.1⟩
    · rw [hother j hji] at hj ⊢
      obtain ⟨hlt, hnot⟩ := h.held j hj
      refine ⟨Nat.lt_of_lt_of_le hlt hbuffers, fun hmem => ?_⟩
      rcases hfreed _ hmem with hold | ⟨hsome, heq⟩
      · exact hnot hold
      · exact hji (h.apart j i hj hsome heq)
  · by_cases hji : j = i
    · by_cases hki : k = i
      · rw [hji, hki]
      · rw [hji, hi] at hj heq
        rw [hother k hki] at hk heq
        exact absurd heq.symm ((hself hj).2.2 k hki hk)
    · by_cases hki : k = i
      · rw [hki, hi] at hk heq
        rw [hother j hji] at hj heq
        exact absurd heq ((hself hk).2.2 j hji hj)
      · rw [hother j hji] at hj heq
        rw [hother k hki] at hk heq
        exact h.apart j k hj hk heq
  · rcases hfreed b hb with hold | ⟨hsome, rfl⟩
    · exact Nat.lt_of_lt_of_le (h.old b hold) hbuffers
    · exact Nat.lt_of_lt_of_le (h.held i hsome).1 hbuffers

/-- One inode is replaced, and the charge follows its bytes. -/
theorem Balanced.replace (h : Balanced s) (howned : Owned t) (hinodes : t.inodes = Function.update s.inodes i inode)
    (hcharge : t.fsUsedBytes + dataLength (s.inodes i) = s.fsUsedBytes + dataLength inode)
    (hcap : t.fsUsedBytes ≤ fsCapBytes) : Balanced t := by
  refine ⟨howned, ?_, hcap⟩
  have hsum := Table.sum_update s.inodes dataLength i inode
  rw [← hinodes, ← h.sum, ← hcharge] at hsum
  exact (Nat.add_right_cancel hsum).symm

/-- What the books do not depend on. -/
theorem Balanced.congr (h : Balanced s) (hinodes : t.inodes = s.inodes) (hcharge : t.fsUsedBytes = s.fsUsedBytes)
    (hbuffers : t.buffers = s.buffers) (hfreed : t.freed = s.freed) (hfault : t.fault = s.fault) : Balanced t := by
  refine ⟨⟨?_, ?_, ?_, hfault.trans h.fault⟩, ?_, ?_⟩
  · rw [hinodes, hbuffers, hfreed]
    exact h.held
  · rw [hinodes]
    exact h.apart
  · rw [hbuffers, hfreed]
    exact h.old
  · rw [hcharge, hinodes]
    exact h.sum
  · rw [hcharge]
    exact h.cap

/-- A buffer that is in use has not been given back. -/
theorem Owned.touch (h : Owned s) (hdata : (s.inodes i).data.isSome = true) : (s.touch i).fault = false := by
  have hnot : s.freed.contains (s.inodes i).buf = false := by
    rw [List.contains_eq_mem, decide_eq_false_iff_not]
    exact (h.held i hdata).2
  rw [Store.touch, h.fault, hnot]
  rfl

theorem Owned.discard (h : Owned s) (i : Fin maxInodes) : (s.discard i).fault = false ∧
    (s.discard i).buffers = s.buffers ∧
      ∀ b ∈ (s.discard i).freed, b ∈ s.freed ∨ (s.inodes i).data.isSome = true ∧ b = (s.inodes i).buf := by
  rw [Store.discard]
  split
  · next hsome =>
    refine ⟨h.touch hsome, rfl, fun b hb => ?_⟩
    rcases List.mem_cons.mp hb with rfl | hold
    · exact Or.inr ⟨hsome, rfl⟩
    · exact Or.inl hold
  · exact ⟨h.fault, rfl, fun b hb => Or.inl hb⟩

theorem Balanced.touch (h : Balanced s) (hdata : (s.inodes i).data.isSome = true) : Balanced (s.touch i) :=
  h.congr rfl rfl rfl rfl ((h.toOwned.touch hdata).trans h.fault.symm)

/-- A slot that is taken loses its bytes, of which it has none. -/
theorem Balanced.take (h : Balanced s) (hlen : dataLength (s.inodes i) = 0) : Balanced (s.take i) := by
  refine h.replace (i := i) (h.toOwned.replace rfl (Nat.le_refl _) h.fault (fun b hb => Or.inl hb) fun hsome => by cases hsome)
    rfl ?_ h.cap
  rw [hlen]
  rfl

theorem Balanced.fill (h : Balanced s) (hnone : (s.inodes i).data = none) {content : Bytes}
    (hcap : s.fsUsedBytes + content.length ≤ fsCapBytes) (mode : Nat) : Balanced (s.fill i mode content) := by
  have howned : Owned (s.fill i mode content) := by
    refine h.toOwned.replace rfl (Nat.le_succ _) h.fault (fun b hb => Or.inl hb) fun _ => ⟨Nat.lt_succ_self _, fun hmem => ?_, ?_⟩
    · exact Nat.lt_irrefl _ (h.old _ hmem)
    · exact fun j _ hj heq => Nat.lt_irrefl _ (heq ▸ (h.held j hj).1)
  refine h.replace howned rfl ?_ hcap
  rw [dataLength_none hnone]
  rfl

/-- The bytes are written in place. -/
theorem Balanced.write (h : Balanced s) {old new : Bytes} (hdata : (s.inodes i).data = some old) (hlen : new.length = old.length)
    (stop : Nat) : Balanced (s.write i new stop) := by
  have hsome : (s.inodes i).data.isSome = true := by rw [hdata]; rfl
  have htouched := h.touch hsome
  have howned : Owned (s.write i new stop) := by
    refine htouched.toOwned.replace rfl (Nat.le_refl _) htouched.fault (fun b hb => Or.inl hb) fun _ => ?_
    obtain ⟨hlt, hnot⟩ := h.held i hsome
    exact ⟨hlt, hnot, fun j hj hj' heq => hj (h.apart j i hj' hsome heq)⟩
  refine htouched.replace howned rfl ?_ h.cap
  have hold : dataLength ((s.touch i).inodes i) = old.length := dataLength_some hdata
  rw [hold, ← hlen]
  rfl

theorem Balanced.grow (h : Balanced s) {newLen : Nat} (hle : dataLength (s.inodes i) ≤ newLen)
    (hcap : s.fsUsedBytes + (newLen - dataLength (s.inodes i)) ≤ fsCapBytes) : Balanced (s.grow i newLen) := by
  obtain ⟨hfault, -, hfreed⟩ := h.toOwned.discard i
  have hput := s.grow_inodes i newLen
  have howned : Owned (s.grow i newLen) := by
    refine h.toOwned.replace hput (Nat.le_succ _) hfault hfreed fun _ => ⟨Nat.lt_succ_self _, fun hmem => ?_, ?_⟩
    · rcases hfreed _ hmem with hold | ⟨hsome, heq⟩
      · exact Nat.lt_irrefl _ (h.old _ hold)
      · have hlt := (h.held i hsome).1
        rw [← heq] at hlt
        exact Nat.lt_irrefl _ hlt
    · exact fun j _ hj heq => Nat.lt_irrefl _ (heq ▸ (h.held j hj).1)
  refine h.replace howned hput ?_ hcap
  rw [@dataLength_some { s.inodes i with data := some (grown (s.inodes i).data newLen), buf := s.buffers } _ rfl,
    length_grown _ hle]
  dsimp only [Store.grow]
  omega

theorem Balanced.drop (h : Balanced s) (i : Fin maxInodes) : Balanced (s.drop i) := by
  obtain ⟨hfault, hbuffers, hfreed⟩ := h.toOwned.discard i
  have hput := s.drop_inodes i
  have howned : Owned (s.drop i) := by
    refine h.toOwned.replace hput (Nat.le_of_eq hbuffers.symm) hfault hfreed fun hsome => by cases hsome
  have hle : dataLength (s.inodes i) ≤ s.fsUsedBytes := by
    rw [h.sum]
    exact Table.le_sum s.inodes dataLength i
  refine h.replace howned hput ?_ ?_
  · rw [@dataLength_none { s.inodes i with data := none, size := 0 } rfl]
    exact Nat.sub_add_cancel hle
  · exact Nat.le_trans (Nat.sub_le _ _) h.cap

end Balanced

/-! ### The calls -/

/-- The files that were in use have their bytes, and the charge is the same. -/
def Kept (s t : Store) : Prop :=
  t.fsUsedBytes = s.fsUsedBytes ∧ ∀ i, s.inodeUsed i = true → t.inodeUsed i = true ∧ (t.inodes i).data = (s.inodes i).data

section Calls

variable {s t : Store} {f : Fin maxOpenFiles} {i : Fin maxInodes} {n : Int} {data : Bytes}

theorem Kept.refl (s : Store) : Kept s s := ⟨rfl, fun _ h => ⟨h, rfl⟩⟩

/-- A slot gets an inode, and is in use. -/
theorem Idle.occupy (h : Idle s) {inode : Inode} (hinodes : t.inodes = Function.update s.inodes i inode)
    (hused : t.inodeUsed = Function.update s.inodeUsed i true) : Idle t := fun j hj => by
  rw [hused] at hj
  by_cases hji : j = i
  · rw [hji, Function.update_self] at hj
    cases hj
  · rw [Function.update_of_ne hji] at hj
    rw [hinodes, Function.update_of_ne hji]
    exact h j hj

theorem Created.balanced {made : Option (Fin maxInodes × Bytes)} (h : Created s made t) (hbal : Balanced s) (hidle : Idle s) :
    Balanced t ∧ Idle t := by
  cases h with
  | none => exact ⟨hbal, hidle⟩
  | @failed i hfree =>
      have hlen := hidle i (firstFree_idle hfree)
      refine ⟨(hbal.take hlen).congr rfl rfl rfl rfl rfl, fun j hj => ?_⟩
      by_cases hji : j = i
      · rw [hji]
        refine dataLength_none ?_
        dsimp only [Store.release, Store.take, Store.put]
        rw [Function.update_self]
      · dsimp only [Store.release, Store.take, Store.put] at hj ⊢
        rw [Function.update_of_ne hji, Function.update_of_ne hji] at hj
        rw [Function.update_of_ne hji]
        exact hidle j hj
  | @empty i hfree mode ops =>
      have htake := hbal.take (hidle i (firstFree_idle hfree))
      have hnone : ((s.take i).inodes i).data = none := by
        dsimp only [Store.take, Store.put]
        rw [Function.update_self]
      refine ⟨htake.replace (htake.toOwned.replace rfl (Nat.le_refl _) htake.fault (fun b hb => Or.inl hb)
        fun hsome => by cases hsome) rfl ?_ htake.cap, hidle.occupy (Function.update_idem _ _ _) rfl⟩
      rw [dataLength_none hnone]
      rfl
  | @file i content hfree hcap mode =>
      have htake := hbal.take (hidle i (firstFree_idle hfree))
      have hnone : ((s.take i).inodes i).data = none := by
        dsimp only [Store.take, Store.put]
        rw [Function.update_self]
      exact ⟨htake.fill hnone hcap mode, hidle.occupy (Function.update_idem _ _ _) rfl⟩

/-- A call that makes nothing changes no file. -/
theorem Created.kept (h : Created s none t) : Kept s t := by
  cases h with
  | none => exact .refl s
  | @failed i hfree =>
      refine ⟨rfl, fun j hj => ?_⟩
      have hji : j ≠ i := by
        rintro rfl
        rw [firstFree_idle hfree] at hj
        cases hj
      dsimp only [Store.release, Store.take, Store.put]
      rw [Function.update_of_ne hji, Function.update_of_ne hji, Function.update_of_ne hji]
      exact ⟨hj, rfl⟩

/-- A write that would make a file grow that is not in use, for which there is the room. -/
def Swells (s : Store) (f : Fin maxOpenFiles) (data : Bytes) : Prop :=
  ∃ i, (s.openFiles f).inode = some i ∧ s.ops f = some .ramfs ∧ s.inodeUsed i = false ∧
    dataLength (s.inodes i) < (s.openFiles f).pos + data.length ∧
    s.fsUsedBytes + ((s.openFiles f).pos + data.length - dataLength (s.inodes i)) ≤ fsCapBytes ∧
    s.available ((s.openFiles f).pos + data.length) = true

theorem Written.balanced (h : Written s f data n t) (hbal : Balanced s) : Balanced t := by
  cases h with
  | refused _ _ | device _ => exact hbal
  | inPlace hops hinode hdata hfits => exact (hbal.write hdata (length_overwrite hfits) _).congr rfl rfl rfl rfl rfl
  | @grown i hops hinode hgrows hcap hroom =>
      have hle : dataLength (s.inodes i) ≤ (s.openFiles f).pos + data.length := by
        rcases hgrows with hnone | hlt
        · rw [dataLength_none hnone]
          exact Nat.zero_le _
        · exact Nat.le_of_lt hlt
      have hself : ((s.grow i ((s.openFiles f).pos + data.length)).inodes i).data =
          some (grown (s.inodes i).data ((s.openFiles f).pos + data.length)) := by
        dsimp only [Store.grow, Store.put]
        rw [Function.update_self]
      refine ((hbal.grow hle hcap).write hself (length_overwrite ?_) _).congr rfl rfl rfl rfl rfl
      rw [length_grown _ hle]

theorem Written.kept (h : Written s f data n t) (hn : n < 0) : Kept s t := by
  cases h with
  | refused _ _ | device _ => exact .refl s
  | inPlace _ _ _ _ | grown _ _ _ _ _ => exact absurd hn (Int.not_lt.mpr (Int.natCast_nonneg _))

/-- One inode gets other bytes: what is not in use has no bytes afterwards exactly if this one is in use or gets none. -/
theorem Idle.update_iff (h : Idle s) {inode : Inode} (hinodes : t.inodes = Function.update s.inodes i inode)
    (hused : t.inodeUsed = s.inodeUsed) : Idle t ↔ (s.inodeUsed i = false → dataLength inode = 0) := by
  constructor
  · intro ht hi
    have hlen := ht i (by rw [hused]; exact hi)
    rwa [hinodes, Function.update_self] at hlen
  · intro hi j hj
    rw [hused] at hj
    rw [hinodes]
    by_cases hji : j = i
    · rw [hji] at hj ⊢
      rw [Function.update_self]
      exact hi hj
    · rw [Function.update_of_ne hji]
      exact h j hj

theorem Written.idle (h : Written s f data n t) (hidle : Idle s) : Idle t ↔ ¬Swells s f data := by
  cases h with
  | refused _ hfull =>
      refine iff_of_true hidle ?_
      rintro ⟨i, hinode, hops, -, -, hroom⟩
      exact hfull i hinode hops hroom
  | device hops =>
      refine iff_of_true hidle ?_
      rintro ⟨i, -, hramfs, -⟩
      exact hops hramfs
  | @inPlace i old hops hinode hdata hfits =>
      have hold := dataLength_some hdata
      have hput : ((s.write i (overwrite old (s.openFiles f).pos data) ((s.openFiles f).pos + data.length)).seek f
          ((s.openFiles f).pos + data.length)).inodes = Function.update s.inodes i { s.inodes i with
            data := some (overwrite old (s.openFiles f).pos data)
            size := max (s.inodes i).size ((s.openFiles f).pos + data.length) } := rfl
      refine iff_of_true ((hidle.update_iff hput rfl).mpr fun hi => ?_) ?_
      · rw [← hidle i hi, hold]
        exact length_overwrite hfits
      · rintro ⟨i', hinode', -, -, hlt, -⟩
        rw [hinode] at hinode'
        cases hinode'
        omega
  | @grown i hops hinode hgrows hcap hroom =>
      have hle : dataLength (s.inodes i) ≤ (s.openFiles f).pos + data.length := by
        rcases hgrows with hnone | hlt
        · rw [dataLength_none hnone]
          exact Nat.zero_le _
        · exact Nat.le_of_lt hlt
      have hlen : (overwrite (grown (s.inodes i).data ((s.openFiles f).pos + data.length)) (s.openFiles f).pos data).length =
          (s.openFiles f).pos + data.length := by
        have hgrown := length_grown (s.inodes i).data hle
        rw [length_overwrite (Nat.le_of_eq hgrown.symm), hgrown]
      have hused : (s.discard i).inodeUsed = s.inodeUsed := by
        rw [Store.discard]
        split <;> rfl
      refine (hidle.update_iff (s.grow_write_inodes i _ _ _) hused).trans ?_
      rw [dataLength_some rfl, hlen]
      constructor
      · rintro hnone ⟨i', hinode', -, hi, hlt, -⟩
        rw [hinode] at hinode'
        cases hinode'
        rw [hnone hi] at hlt
        exact Nat.not_lt_zero _ hlt
      · intro hnot hi
        by_contra hpos
        refine hnot ⟨i, hinode, hops, hi, ?_, hcap, hroom⟩
        rw [hidle i hi]
        exact Nat.pos_of_ne_zero hpos

theorem Idle.congr (h : Idle s) (hinodes : t.inodes = s.inodes) (hused : t.inodeUsed = s.inodeUsed) : Idle t := by
  rw [Idle, hinodes, hused]
  exact h

theorem Opened.balanced {file : Option (Fin maxOpenFiles)} (h : Opened s file t) (hbal : Balanced s) (hidle : Idle s) :
    Balanced t ∧ Idle t := by
  cases h with
  | none hmade => exact Created.balanced hmade hbal hidle
  | some hmade _ d i flags =>
      obtain ⟨hbal', hidle'⟩ := Created.balanced hmade hbal hidle
      exact ⟨hbal'.congr rfl rfl rfl rfl rfl, hidle'.congr rfl rfl⟩

theorem Read.balanced {len : Nat} (h : Read s f len n data t) (hbal : Balanced s) (hidle : Idle s) : Balanced t ∧ Idle t := by
  cases h with
  | refused _ | device _ | empty _ _ => exact ⟨hbal, hidle⟩
  | some _ hdata _ => exact ⟨(hbal.touch (by rw [hdata]; rfl)).congr rfl rfl rfl rfl rfl, hidle.congr rfl rfl⟩

theorem ReadAt.balanced {offset len : Nat} {count : Option Nat} (h : ReadAt s f offset len count data t) (hbal : Balanced s)
    (hidle : Idle s) : Balanced t ∧ Idle t := by
  cases h with
  | refused | empty _ _ | behind _ _ _ => exact ⟨hbal, hidle⟩
  | some _ hdata _ => exact ⟨hbal.touch (by rw [hdata]; rfl), hidle.congr rfl rfl⟩

theorem Sought.balanced (h : Sought s f n t) (hbal : Balanced s) (hidle : Idle s) : Balanced t ∧ Idle t := by
  cases h with
  | refused _ => exact ⟨hbal, hidle⟩
  | moved _ _ => exact ⟨hbal.congr rfl rfl rfl rfl rfl, hidle.congr rfl rfl⟩

theorem Idle.drop (h : Idle s) (i : Fin maxInodes) : Idle (s.drop i) := fun j hj => by
  rw [s.drop_inodes]
  by_cases hji : j = i
  · rw [hji, Function.update_self]
    exact dataLength_none rfl
  · rw [Function.update_of_ne hji]
    refine h j ?_
    have hused : (s.drop i).inodeUsed = Function.update s.inodeUsed i false := by
      rw [Store.drop, Store.release, Store.put, Store.discard]
      split <;> rfl
    rwa [hused, Function.update_of_ne hji] at hj

theorem foldl_drop_balanced (l : List (Fin maxInodes)) (hbal : Balanced s) (hidle : Idle s) :
    Balanced (l.foldl Store.drop s) ∧ Idle (l.foldl Store.drop s) := by
  induction l generalizing s with
  | nil => exact ⟨hbal, hidle⟩
  | cons i l ih => exact ih (hbal.drop i) (hidle.drop i)

end Calls

/-! ### Runs -/

/-- A slot that is given back has to have no bytes. -/
theorem idle_release {s : Store} {i : Fin maxInodes} (h : Idle s) : Idle (s.release i) ↔ dataLength (s.inodes i) = 0 := by
  constructor
  · exact fun hidle => hidle i (Function.update_self _ _ _)
  · intro hlen j hj
    by_cases hji : j = i
    · rw [hji]
      exact hlen
    · dsimp only [Store.release] at hj
      rw [Function.update_of_ne hji] at hj
      exact h j hj

/-- The charge is the bytes of the files in use, it stays under the cap, and no buffer has been misused. -/
structure Exact (v : Vfs) : Prop where
  used : v.fsUsedBytes = ∑ i, if v.inodeUsed i = true then dataLength (v.inodes i) else 0
  cap : v.fsUsedBytes ≤ fsCapBytes
  fault : v.fault = false

/-- The files under the jail have no bytes left. -/
def Released (v w : Vfs) : Prop := ∀ j, v.jailRoot = some j → ∀ d, v.dentryUsed d = true → d ≠ j → Under v j d →
  ∀ i, inodeOf v d = some i → dataLength (w.inodes i) = 0

/-- What else holds after a call, and what it returns. -/
def After (v : Vfs) : Call × Reply → Vfs → Prop
  | (.createFile _ _, .made none), w => Kept v.store w.store
  | (.write _ _, .count n), w => n < 0 → Kept v.store w.store
  | (.clearJailContents, _), w => Released v w
  | _, _ => True

/-- The children arrays below the jail lead to the inode of every file under the jail that has bytes. -/
def Listed (v : Vfs) : Prop := ∀ j, v.jailRoot = some j → ∀ d, v.dentryUsed d = true → d ≠ j → Under v j d →
  ∀ i, inodeOf v d = some i → dataLength (v.inodes i) ≠ 0 → ∃ x, Below v j x ∧ inodeOf v x = some i

/-- No file with bytes is unlinked, none that is not in use grows, and the jail lists its files when it is cleared. -/
def Meets (v : Vfs) : Call → Prop
  | .unlinkat path => ∀ d i, v.lookup path = .ok (some d) → inodeOf v d = some i → dataLength (v.inodes i) = 0
  | .write f data => ¬Swells v.store f data
  | .clearJailContents => Listed v
  | _ => True

section Runs

variable {v w : Vfs}

theorem exact_iff (hbal : Balanced v.store) : Exact v ↔ Idle v.store := by
  have hle : ∀ i ∈ Finset.univ, (if v.inodeUsed i = true then dataLength (v.inodes i) else 0) ≤ dataLength (v.inodes i) :=
    fun i _ => by split <;> omega
  have hsum : v.fsUsedBytes = ∑ i, dataLength (v.inodes i) := hbal.sum
  constructor
  · intro h i hi
    have heq := (Finset.sum_eq_sum_iff_of_le hle).mp (h.used.symm.trans hsum) i (Finset.mem_univ i)
    have hused : v.inodeUsed i = false := hi
    rw [hused, if_neg Bool.false_ne_true] at heq
    exact heq.symm
  · intro h
    refine ⟨hsum.trans (Finset.sum_congr rfl fun i _ => ?_), hbal.cap, hbal.fault⟩
    cases hi : v.inodeUsed i with
    | false => exact h i hi
    | true => rfl

/-- After `clearJailContents` the files under the jail are released exactly if they are listed. -/
theorem clear_exact {r : Nat} (h : clearJailContents v = (.ok r, w)) (hshort : Short v) : Released v w ↔ Listed v := by
  rcases clear_spec h hshort with ⟨hnone, rfl⟩ | ⟨j, hj, l, hl, hmem⟩
  · refine iff_of_true (fun j hj => ?_) fun j hj => ?_
    all_goals
      rw [hnone] at hj
      cases hj
  · have hinodes : ∀ i, w.inodes i = if i ∈ l then { v.inodes i with data := none, size := 0 } else v.inodes i := fun i =>
      (congrFun (congrArg Store.inodes hl) i).trans (v.store.foldl_drop_inodes i l)
    constructor
    · intro hreleased j' hj' d hd hne hunder i hi hlen
      rw [hj] at hj'
      cases hj'
      rw [← hmem]
      by_contra hnot
      refine hlen ?_
      have hzero := hreleased j hj d hd hne hunder i hi
      rwa [hinodes, if_neg hnot] at hzero
    · intro hlisted j' hj' d hd hne hunder i hi
      rw [hj] at hj'
      cases hj'
      rw [hinodes]
      split
      · exact dataLength_none rfl
      · next hnot =>
        by_contra hlen
        exact hnot ((hmem i).mpr (hlisted j hj d hd hne hunder i hi hlen))

theorem clear_balanced {r : Nat} (h : clearJailContents v = (.ok r, w)) (hshort : Short v) (hbal : Balanced v.store)
    (hidle : Idle v.store) : Balanced w.store ∧ Idle w.store := by
  rcases clear_spec h hshort with ⟨-, rfl⟩ | ⟨j, -, l, hl, -⟩
  · exact ⟨hbal, hidle⟩
  · rw [hl]
    exact foldl_drop_balanced l hbal hidle

/-- The step lemma: a step keeps the books, and the law holds of it exactly if its call meets the condition. -/
theorem Step.exact {step : Call × Reply} (h : Step v step w) (hshort : Short v) (hbal : Balanced v.store)
    (hidle : Idle v.store) : Balanced w.store ∧ (Idle w.store ∧ After v step w ↔ Meets v step.1) := by
  have hall {step : Call × Reply} (hafter : After v step w) (hmeets : Meets v step.1) (hbooks : Balanced w.store ∧ Idle w.store) :
      Balanced w.store ∧ (Idle w.store ∧ After v step w ↔ Meets v step.1) :=
    ⟨hbooks.1, iff_of_true ⟨hbooks.2, hafter⟩ hmeets⟩
  cases h with
  | @createFile _ path content d h =>
      rcases createFile_store h with ⟨rfl, hmade⟩ | ⟨d, i, rfl, hi, hmade⟩
      · exact hall (Created.kept hmade) True.intro (Created.balanced hmade hbal hidle)
      · refine hall ?_ True.intro (Created.balanced hmade hbal hidle)
        rw [Option.bind_some, fileAt, hi]
        exact True.intro
  | mkdiratImpl h =>
      rcases mkdiratImpl_store h with ⟨-, hmade⟩ | ⟨_, _, -, -, hmade⟩
      all_goals exact hall True.intro True.intro (Created.balanced hmade hbal hidle)
  | devtmpfsRegister h =>
      obtain ⟨_, hmade, -⟩ := devtmpfsRegister_store h
      exact hall True.intro True.intro (Created.balanced hmade hbal hidle)
  | openat h => exact hall True.intro True.intro (Opened.balanced (openat_store h) hbal hidle)
  | write hvfs _ hdata h =>
      have hwritten := write_store hdata h
      rw [hvfs] at hwritten
      refine ⟨Written.balanced hwritten hbal, ?_⟩
      exact (and_iff_left (Written.kept hwritten)).trans (Written.idle hwritten hidle)
  | read hvfs _ h =>
      have hread := read_store h
      rw [hvfs] at hread
      exact hall True.intro True.intro (Read.balanced hread hbal hidle)
  | pread hvfs _ h =>
      have hread := pread_store h
      rw [hvfs] at hread
      exact hall True.intro True.intro (ReadAt.balanced hread hbal hidle)
  | seek _ h => exact hall True.intro True.intro (Sought.balanced (seek_store h) hbal hidle)
  | close _ h =>
      cases h
      exact hall True.intro True.intro ⟨hbal.congr rfl rfl rfl rfl rfl, hidle.congr rfl rfl⟩
  | linkat h =>
      have hbooks : Balanced v.store ∧ Idle v.store := ⟨hbal, hidle⟩
      rw [← (fixes_linkat _ _).run h] at hbooks
      exact hall True.intro True.intro hbooks
  | @unlinkat _ path ok h =>
      obtain ⟨hsome, hnone⟩ := unlinkat_store h
      by_cases hfound : ∃ d i, v.lookup path = .ok (some d) ∧ inodeOf v d = some i
      · obtain ⟨d, i, hd, hi⟩ := hfound
        rw [hsome d i hd hi]
        refine ⟨hbal.congr rfl rfl rfl rfl rfl, ?_⟩
        rw [and_iff_left (by exact True.intro), idle_release hidle]
        refine ⟨fun hlen d' i' hd' hi' => ?_, fun hmeets => hmeets d i hd hi⟩
        rw [hd] at hd'
        cases hd'
        rw [hi] at hi'
        cases hi'
        exact hlen
      · have hnot : ∀ d i, v.lookup path = .ok (some d) → inodeOf v d ≠ some i := fun d i hd hi => hfound ⟨d, i, hd, hi⟩
        rw [hnone hnot]
        exact ⟨hbal, iff_of_true ⟨hidle, True.intro⟩ fun d i hd hi => absurd hi (hnot d i hd)⟩
  | setJail h =>
      obtain ⟨_, hmade, -⟩ := setJail_store h
      exact hall True.intro True.intro (Created.balanced hmade hbal hidle)
  | clearJailContents h =>
      obtain ⟨hbal', hidle'⟩ := clear_balanced h hshort hbal hidle
      exact ⟨hbal', (and_iff_right hidle').trans (clear_exact h hshort)⟩
  | allocator _ => exact hall True.intro True.intro ⟨hbal.congr rfl rfl rfl rfl rfl, hidle.congr rfl rfl⟩

/-- The law of a step. -/
def Law (v : Vfs) (step : Call × Reply) (w : Vfs) : Prop := Exact w ∧ After v step w

theorem books_init {u : Vfs} (hinit : init u = (.ok (), v)) (hfreed : u.freed = []) (hfault : u.fault = false) :
    Balanced v.store ∧ Idle v.store := by
  refine init_keeps (P := fun s => Balanced s ∧ Idle s) hinit ⟨?_, fun _ _ => rfl⟩ fun hmade hbooks =>
    Created.balanced hmade hbooks.1 hbooks.2
  refine ⟨⟨fun i hi => (by cases hi), fun i j hi => (by cases hi), fun b hb => ?_, hfault⟩, (Finset.sum_eq_zero fun _ _ => rfl).symm,
    Nat.zero_le _⟩
  change b ∈ u.freed at hb
  rw [hfreed] at hb
  cases hb

/-- After boot the books are exact, and a run keeps the law in every step exactly if every call meets the condition. -/
theorem quota_exact {u : Vfs} (hinit : init u = (.ok (), v)) (hfreed : u.freed = []) (hfault : u.fault = false)
    {trace : List (Call × Reply)} :
    Exact v ∧ (Runs.Run (fun v step w => Step v step w ∧ Law v step w) v trace w ↔
      Runs.Run (fun v step w => Step v step w ∧ Meets v step.1) v trace w) := by
  obtain ⟨hbal, hidle⟩ := books_init hinit hfreed hfault
  have hstep : ∀ v step w, (Short v ∧ Balanced v.store ∧ Idle v.store) → Step v step w →
      (Law v step w ↔ Meets v step.1) ∧ (Meets v step.1 → Short w ∧ Balanced w.store ∧ Idle w.store) := by
    rintro v step w ⟨hshort, hbal, hidle⟩ h
    obtain ⟨hbal', hiff⟩ := h.exact hshort hbal hidle
    rw [Law, exact_iff hbal']
    exact ⟨hiff, fun hmeets => ⟨h.short hshort, hbal', (hiff.mpr hmeets).1⟩⟩
  refine ⟨(exact_iff hbal).mpr hidle, ?_⟩
  refine Runs.Run.along_iff (I := fun v => Short v ∧ Balanced v.store ∧ Idle v.store) ⟨short_init hinit, hbal, hidle⟩
    (fun v step w hgood h => (hstep v step w hgood h).1) fun v step w hgood h => (hstep v step w hgood h).2

theorem quota_exact_boot : Exact (init {}).2 ∧ (Runs.Run (fun v step w => Step v step w ∧ Law v step w) (init {}).2 [] (init {}).2 ↔
    Runs.Run (fun v step w => Step v step w ∧ Meets v step.1) (init {}).2 [] (init {}).2) :=
  quota_exact init_returns rfl rfl

/-- A file is unlinked right after boot. -/
def unlinked : Vfs := (Vfs.unlinkat (Json.ascii "/hello.txt") (init {}).2).2

/-- The bytes of a file that has been unlinked stay charged. -/
theorem unlinked_file_stays_charged : ¬∀ (u v w : Vfs) (trace : List (Call × Reply)), init u = (.ok (), v) → u.freed = [] →
    u.fault = false → Runs.Run Step v trace w → Exact w := by
  intro hall
  obtain ⟨hbal, hidle⟩ := books_init init_returns rfl rfl
  have hok : (Vfs.unlinkat (Json.ascii "/hello.txt") (init {}).2).1 = .ok true := by decide +kernel
  have hstep : Step (init {}).2 (.unlinkat (Json.ascii "/hello.txt"), .done) unlinked := .unlinkat (Prod.ext hok rfl)
  obtain ⟨hbal', -⟩ := hstep.exact (short_init init_returns) hbal hidle
  have hexact := (exact_iff hbal').mp (hall {} _ _ _ init_returns rfl rfl (.single hstep))
  obtain ⟨i, hused, hlen⟩ : ∃ i, unlinked.inodeUsed i = false ∧ dataLength (unlinked.inodes i) ≠ 0 := by decide +kernel
  exact hlen (hexact i hused)

end Runs

end Kernel.Ramfs
