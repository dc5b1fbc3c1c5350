import ZigKernel.LibPagingEntries
import ZigKernel.LibRuns
import ZigKernel.NativePaging
import ZigKernel.NativeVmProbeSound

/-! The kernel's map. From `init` on every address below the ceiling and every address of the kernel's block is mapped to
itself, for the kernel alone, and nothing else is mapped; only the pages of the block change, and only as they were asked
to. The lookups in software see this map. -/

namespace Native

open Zig

namespace KernelPaging

open Paging (Encodes)

/-! ### Entries -/

theorem tables_set (m : Machine) (t t' : Table) (i i' e : Nat) :
    (m.set t i e).tables t' i' = if t' = t ∧ i' = i then e else m.tables t' i' := by
  show Function.update m.tables t (Function.update (m.tables t) i e) t' i' = _
  by_cases ht : t' = t
  · subst ht
    rw [Function.update_self]
    by_cases hi : i' = i
    · rw [if_pos ⟨rfl, hi⟩, hi, Function.update_self]
    · rw [if_neg fun h => hi h.2, Function.update_of_ne hi]
  · rw [Function.update_of_ne ht, if_neg fun h => ht h.1]

theorem tables_fill (m : Machine) (t t' : Table) (n i : Nat) (e : Nat → Nat) :
    (m.fill t n e).tables t' i = if t' = t ∧ i < n then e i else m.tables t' i := by
  induction n with
  | zero => exact (if_neg fun h => Nat.not_lt_zero _ h.2).symm
  | succ n ih =>
      rw [Machine.fill, List.range_succ, List.foldl_append, List.foldl_cons, List.foldl_nil, tables_set]
      rw [Machine.fill] at ih
      rw [ih]
      by_cases hlast : t' = t ∧ i = n
      · rw [if_pos hlast, if_pos ⟨hlast.1, by omega⟩, hlast.2]
      · rw [if_neg hlast]
        by_cases hlow : t' = t ∧ i < n
        · rw [if_pos hlow, if_pos ⟨hlow.1, by omega⟩]
        · rw [if_neg hlow, if_neg fun h => ?_]
          by_cases hi : i < n
          · exact hlow ⟨h.1, hi⟩
          · exact hlast ⟨h.1, by omega⟩

/-- An entry of the kernel: a link or a page. -/
def entry (frame : Nat) (large writable noExecute : Bool) : Paging.Entry :=
  { frame, large, user := false, writable, noExecute }

/-- Where the linker puts the arrays: in pages of their own below the ceiling. -/
structure Placed (phys : Phys) : Prop where
  aligned : ∀ t, phys t % page = 0
  pos : ∀ t, phys t ≠ 0
  low : ∀ t, phys t < mapTop
  apart : ∀ t t', t ≠ t' → phys t ≠ phys t'

theorem Placed.frame {phys : Phys} (h : Placed phys) (t : Table) : Paging.Frame (phys t) :=
  ⟨h.aligned t, Nat.lt_trans (h.low t) (by decide)⟩

theorem Placed.validateFrame {phys : Phys} (h : Placed phys) (t : Table) : VmProbe.validateFrame (phys t) = true :=
  decide_eq_true ⟨h.pos t, h.aligned t, h.low t⟩

/-- The block of the kernel. -/
def InBlock (kernelBase va : Nat) : Prop := kernelBase ≤ va ∧ va < kernelBase + huge

instance (kernelBase va : Nat) : Decidable (InBlock kernelBase va) := inferInstanceAs (Decidable (_ ∧ _))

/-- The tables map the low memory to itself. In the kernel's block `ro` and `nx` are the pages that were changed. -/
structure Maps (phys : Phys) (kernelBase : Nat) (ro nx : Nat → Prop) (m : Machine) : Prop where
  cr3 : m.cr3 = phys .pml4
  root : Encodes (m.tables .pml4 0) (entry (phys .pdpt) false true false)
  root_rest : ∀ i, i ≠ 0 → (m.tables .pml4 i).testBit Paging.presentBit = false
  second : Encodes (m.tables .pdpt 0) (entry (phys .pd) false true false)
  second_rest : ∀ i, i ≠ 0 → (m.tables .pdpt i).testBit Paging.presentBit = false
  block : Encodes (m.tables .pd (kernelBase / huge)) (entry (phys .kernelPt) false true false)
  low : ∀ i < mapTop / huge, i ≠ kernelBase / huge → Encodes (m.tables .pd i) (entry (i * huge) true true false)
  high : ∀ i, mapTop / huge ≤ i → i ≠ kernelBase / huge → (m.tables .pd i).testBit Paging.presentBit = false
  pages : ∀ j < 512, ∃ w x, Encodes (m.tables .kernelPt j) (entry (kernelBase + j * page) false w x) ∧
    (w = true ↔ ¬ro j) ∧ (x = true ↔ nx j)

section Entries

variable {phys : Phys} {kernelBase : Nat} {ro nx : Nat → Prop} {m m' : Machine}

/-- A link to an array. -/
theorem encodes_link (h : Placed phys) (t : Table) : Encodes (phys t ||| present ||| write) (entry (phys t) false true false) := by
  rw [Nat.or_assoc]
  exact Encodes.of_flags (h.frame t) (by decide) (by decide) (by decide)

/-- What `init` leaves. -/
def initialized (phys : Phys) (kernelBase : Nat) (m : Machine) : Machine :=
  let m := (m.set .pml4 0 (phys .pdpt ||| present ||| write)).set .pdpt 0 (phys .pd ||| present ||| write)
  let m := m.fill .pd (mapTop / huge) fun i => i * huge ||| present ||| write ||| hugeBit
  let m := m.set .pd (kernelBase / huge) (phys .kernelPt ||| present ||| write)
  let m := m.fill .kernelPt 512 fun j => (kernelBase + j * page) ||| present ||| write
  enableWriteProtect (loadCr3 (phys .pml4) (enableNxe m))

theorem init_run (hblock : kernelBase / huge < 512) : init phys kernelBase m = .ok (initialized phys kernelBase m) :=
  if_neg (Nat.not_le.mpr hblock)

theorem tables_registers (table : Nat) (m : Machine) :
    (enableWriteProtect (loadCr3 table (enableNxe m))).tables = m.tables := rfl

/-- The entries from the last write to the first. -/
theorem tables_initialized (phys : Phys) (kernelBase : Nat) (hzero : ∀ t i, m.tables t i = 0) (t : Table) (i : Nat) :
    (initialized phys kernelBase m).tables t i =
      if t = .kernelPt ∧ i < 512 then (kernelBase + i * page) ||| present ||| write
      else if t = .pd ∧ i = kernelBase / huge then phys .kernelPt ||| present ||| write
      else if t = .pd ∧ i < mapTop / huge then i * huge ||| present ||| write ||| hugeBit
      else if t = .pdpt ∧ i = 0 then phys .pd ||| present ||| write
      else if t = .pml4 ∧ i = 0 then phys .pdpt ||| present ||| write
      else 0 := by
  simp only [initialized, tables_registers, tables_fill, tables_set, hzero]

/-- `init` builds the map from tables that hold nothing. -/
theorem initialized_maps (h : Placed phys) (haligned : kernelBase % huge = 0) (hblock : kernelBase / huge < 512)
    (hzero : ∀ t i, m.tables t i = 0) :
    Maps phys kernelBase (fun _ => False) (fun _ => False) (initialized phys kernelBase m) := by
  have hhuge : huge = 2097152 := rfl
  have htop : mapTop = 268435456 := rfl
  have hpage : page = 4096 := rfl
  have hcr3 : (initialized phys kernelBase m).cr3 = phys .pml4 := rfl
  have htables := tables_initialized phys kernelBase hzero
  generalize initialized phys kernelBase m = m' at hcr3 htables
  constructor
  · exact hcr3
  · rw [htables, if_neg (by simp), if_neg (by simp), if_neg (by simp), if_neg (by simp), if_pos ⟨rfl, rfl⟩]
    exact encodes_link h .pdpt
  · intro i hi
    rw [htables]
    simp [hi]
  · rw [htables, if_neg (by simp), if_neg (by simp), if_neg (by simp), if_pos ⟨rfl, rfl⟩]
    exact encodes_link h .pd
  · intro i hi
    rw [htables]
    simp [hi]
  · rw [htables, if_neg (by simp), if_pos ⟨rfl, rfl⟩]
    exact encodes_link h .kernelPt
  · intro i hi hne
    rw [htables, if_neg (by simp), if_neg (by simp [hne]), if_pos ⟨rfl, hi⟩, Nat.or_assoc, Nat.or_assoc]
    rw [hhuge, htop] at hi
    refine Encodes.of_flags ⟨?_, ?_⟩ (by decide) (by decide) (by decide) <;> rw [hhuge] <;> omega
  · intro i hi hne
    rw [htables]
    simp [hne, Nat.not_lt.mpr hi]
  · intro j hj
    refine ⟨true, false, ?_, by simp, by simp⟩
    rw [htables, if_pos ⟨rfl, hj⟩, Nat.or_assoc]
    rw [hhuge] at haligned hblock
    refine Encodes.of_flags ⟨?_, ?_⟩ (by decide) (by decide) (by decide) <;> rw [hpage] <;> omega

theorem Maps.of_iff (h : Maps phys kernelBase ro nx m) {ro' nx' : Nat → Prop} (hro : ∀ j, ro' j ↔ ro j)
    (hnx : ∀ j, nx' j ↔ nx j) : Maps phys kernelBase ro' nx' m where
  cr3 := h.cr3
  root := h.root
  root_rest := h.root_rest
  second := h.second
  second_rest := h.second_rest
  block := h.block
  low := h.low
  high := h.high
  pages j hj := by
    obtain ⟨w, x, hpage, hw, hx⟩ := h.pages j hj
    exact ⟨w, x, hpage, hw.trans (hro j).not.symm, hx.trans (hnx j).symm⟩

/-- What entries say is kept where they are marked. -/
theorem Maps.congr (h : Maps phys kernelBase ro nx m) (hcr3 : m'.cr3 = m.cr3)
    (hencodes : ∀ t i d, Encodes (m.tables t i) d → Encodes (m'.tables t i) d)
    (habsent : ∀ t i, (m.tables t i).testBit Paging.presentBit = false → (m'.tables t i).testBit Paging.presentBit = false) :
    Maps phys kernelBase ro nx m' where
  cr3 := hcr3.trans h.cr3
  root := hencodes _ _ _ h.root
  root_rest i hi := habsent _ _ (h.root_rest i hi)
  second := hencodes _ _ _ h.second
  second_rest i hi := habsent _ _ (h.second_rest i hi)
  block := hencodes _ _ _ h.block
  low i hi hne := hencodes _ _ _ (h.low i hi hne)
  high i hi hne := habsent _ _ (h.high i hi hne)
  pages j hj := by
    obtain ⟨w, x, hpage, hw, hx⟩ := h.pages j hj
    exact ⟨w, x, hencodes _ _ _ hpage, hw, hx⟩

theorem Maps.marked (h : Maps phys kernelBase ro nx m) (t : Table) (i : Nat) {bit : Nat} (hbit : bit = 5 ∨ bit = 6) :
    Maps phys kernelBase ro nx (m.set t i (m.tables t i ||| 1 <<< bit)) := by
  have hunread : ¬Encodes.Read bit := by
    rcases hbit with rfl | rfl <;> (unfold Encodes.Read; decide)
  refine h.congr rfl (fun t' i' d hd => ?_) fun t' i' habsent => ?_
  · rw [tables_set]
    split_ifs with heq
    · obtain ⟨rfl, rfl⟩ := heq
      exact hd.or_bit hunread
    · exact hd
  · rw [tables_set]
    split_ifs with heq
    · obtain ⟨rfl, rfl⟩ := heq
      rw [Nat.testBit_or, habsent, Bool.false_or, Nat.one_shiftLeft]
      exact Nat.testBit_two_pow_of_ne (by rcases hbit with rfl | rfl <;> decide)
    · exact habsent

/-- A page of the block is changed. -/
theorem Maps.set_page (h : Maps phys kernelBase ro nx m) {ro' nx' : Nat → Prop} {idx e : Nat}
    (hpage : ∃ w x, Encodes e (entry (kernelBase + idx * page) false w x) ∧ (w = true ↔ ¬ro' idx) ∧ (x = true ↔ nx' idx))
    (hrest : ∀ j, j ≠ idx → (ro' j ↔ ro j) ∧ (nx' j ↔ nx j)) :
    Maps phys kernelBase ro' nx' (m.set .kernelPt idx e) := by
  have hother (t : Table) (i : Nat) (ht : t ≠ .kernelPt) : (m.set .kernelPt idx e).tables t i = m.tables t i := by
    rw [tables_set, if_neg fun heq => ht heq.1]
  constructor
  · exact h.cr3
  · rw [hother _ _ (by decide)]
    exact h.root
  · intro i hi
    rw [hother _ _ (by decide)]
    exact h.root_rest i hi
  · rw [hother _ _ (by decide)]
    exact h.second
  · intro i hi
    rw [hother _ _ (by decide)]
    exact h.second_rest i hi
  · rw [hother _ _ (by decide)]
    exact h.block
  · intro i hi hne
    rw [hother _ _ (by decide)]
    exact h.low i hi hne
  · intro i hi hne
    rw [hother _ _ (by decide)]
    exact h.high i hi hne
  · intro j hj
    rw [tables_set]
    by_cases hidx : j = idx
    · rw [if_pos ⟨rfl, hidx⟩, hidx]
      exact hpage
    · rw [if_neg fun heq => hidx heq.2]
      obtain ⟨w, x, hp, hw, hx⟩ := h.pages j hj
      exact ⟨w, x, hp, hw.trans (hrest j hidx).1.not.symm, hx.trans (hrest j hidx).2.symm⟩

/-! ### Runs -/

theorem inKernelBlock_run {paddr : Nat} (hblock : kernelBase / huge < 512) :
    inKernelBlock paddr kernelBase = .ok (decide (InBlock kernelBase paddr)) := by
  have hhuge : huge = 2097152 := rfl
  have hbound : u64Bound = 2 ^ 64 := rfl
  by_cases hlow : paddr ≥ kernelBase
  · have hsum : kernelBase + huge < u64Bound := by
      rw [hhuge] at hblock ⊢
      omega
    rw [inKernelBlock, if_pos hlow, addU64_of_lt hsum, Outcome.ok_bind]
    exact congrArg Outcome.ok (decide_eq_decide.mpr (and_iff_right hlow).symm)
  · rw [inKernelBlock, if_neg hlow, decide_eq_false fun h => hlow h.1]
    rfl

theorem flip_run (hblock : kernelBase / huge < 512) (change : Nat → Nat) (paddr : Nat) (m : Machine) :
    flip change paddr kernelBase m = .ok (if InBlock kernelBase paddr then
      m.set .kernelPt ((paddr - kernelBase) / page) (change (m.tables .kernelPt ((paddr - kernelBase) / page))) else m) := by
  rw [flip, inKernelBlock_run hblock, Outcome.ok_bind]
  by_cases hin : InBlock kernelBase paddr
  · rw [if_neg (by simp [hin]), if_pos hin]
    rfl
  · rw [if_pos (by simp [hin]), if_neg hin]
    rfl

/-- A call for a page of the block is in the trace. -/
def Asked (kernelBase : Nat) (call : Nat → Event) (trace : List Event) (j : Nat) : Prop :=
  ∃ paddr, call paddr ∈ trace ∧ InBlock kernelBase paddr ∧ (paddr - kernelBase) / page = j

theorem asked_snoc {call : Nat → Event} {trace : List Event} {l : Event} {j : Nat} :
    Asked kernelBase call (trace ++ [l]) j ↔
      Asked kernelBase call trace j ∨ ∃ paddr, call paddr = l ∧ InBlock kernelBase paddr ∧ (paddr - kernelBase) / page = j := by
  simp only [Asked, List.mem_append, List.mem_singleton, or_and_right, exists_or]

theorem block_index {paddr : Nat} (h : InBlock kernelBase paddr) : (paddr - kernelBase) / page < 512 := by
  have hpage : page = 4096 := rfl
  have hhuge : huge = 2097152 := rfl
  obtain ⟨hlo, hhi⟩ := h
  rw [hhuge] at hhi
  rw [hpage]
  omega

abbrev Run (kernelBase : Nat) := Runs.Run (Step kernelBase)

theorem Maps.step (hblock : kernelBase / huge < 512) {trace : List Event} {l : Event}
    (h : Maps phys kernelBase (Asked kernelBase .setReadOnly trace) (Asked kernelBase .setNoExecute trace) m)
    (hstep : Step kernelBase m l m') :
    Maps phys kernelBase (Asked kernelBase .setReadOnly (trace ++ [l])) (Asked kernelBase .setNoExecute (trace ++ [l])) m' := by
  have hother (call : Nat → Event) (hcall : ∀ p, call p ≠ l) (j : Nat) :
      Asked kernelBase call (trace ++ [l]) j ↔ Asked kernelBase call trace j := by
    rw [asked_snoc, or_iff_left]
    rintro ⟨p, hp, -⟩
    exact hcall p hp
  cases hstep with
  | marked t i dirty _ =>
      exact (h.marked t i (by cases dirty <;> simp)).of_iff (hother _ fun _ => by nofun) (hother _ fun _ => by nofun)
  | @setReadOnly paddr _ hcall =>
      have hnew (j : Nat) : Asked kernelBase .setReadOnly (trace ++ [.setReadOnly paddr]) j ↔
          Asked kernelBase .setReadOnly trace j ∨ InBlock kernelBase paddr ∧ (paddr - kernelBase) / page = j := by
        rw [asked_snoc]
        simp only [Event.setReadOnly.injEq, exists_eq_left]
      have hsame := hother .setNoExecute fun _ => by nofun
      rw [setReadOnly, flip_run hblock] at hcall
      cases hcall
      by_cases hin : InBlock kernelBase paddr
      · obtain ⟨w, x, hpage, -, hx⟩ := h.pages _ (block_index hin)
        rw [if_pos hin]
        refine h.set_page ⟨false, x, hpage.of_readOnly (by decide), by simp [hnew, hin], hx.trans (hsame _).symm⟩ fun j hj => ?_
        rw [hnew, hsame]
        simp [hj.symm]
      · rw [if_neg hin]
        exact h.of_iff (fun j => by rw [hnew]; simp [hin]) hsame
  | @setNoExecute paddr _ hcall =>
      have hnew (j : Nat) : Asked kernelBase .setNoExecute (trace ++ [.setNoExecute paddr]) j ↔
          Asked kernelBase .setNoExecute trace j ∨ InBlock kernelBase paddr ∧ (paddr - kernelBase) / page = j := by
        rw [asked_snoc]
        simp only [Event.setNoExecute.injEq, exists_eq_left]
      have hsame := hother .setReadOnly fun _ => by nofun
      rw [setNoExecute, flip_run hblock] at hcall
      cases hcall
      by_cases hin : InBlock kernelBase paddr
      · obtain ⟨w, x, hpage, hw, -⟩ := h.pages _ (block_index hin)
        rw [if_pos hin]
        refine h.set_page ⟨w, true, hpage.of_noExecute, hw.trans (hsame _).not.symm, by simp [hnew, hin]⟩ fun j hj => ?_
        rw [hnew, hsame]
        simp [hj.symm]
      · rw [if_neg hin]
        exact h.of_iff hsame fun j => by rw [hnew]; simp [hin]

theorem maps_of_run (hblock : kernelBase / huge < 512)
    (h : Maps phys kernelBase (fun _ => False) (fun _ => False) m) {trace : List Event} (hrun : Run kernelBase m trace m') :
    Maps phys kernelBase (Asked kernelBase .setReadOnly trace) (Asked kernelBase .setNoExecute trace) m' := by
  have hnone (call : Nat → Event) (j : Nat) : Asked kernelBase call [] j ↔ False :=
    ⟨fun ⟨_, hmem, _⟩ => List.not_mem_nil hmem, False.elim⟩
  exact hrun.history (P := fun trace m => Maps phys kernelBase (Asked kernelBase .setReadOnly trace)
    (Asked kernelBase .setNoExecute trace) m) (h.of_iff (hnone _) (hnone _)) fun _ _ _ _ _ ht hstep => ht.step hblock hstep

end Entries

/-! ### Lookups -/

section Lookups

variable {phys : Phys} {kernelBase va : Nat} {ro nx : Nat → Prop} {m : Machine}

theorem Placed.outside (h : Placed phys) {t t' : Table} (hne : t ≠ t') {i : Nat} (hi : i < 512) :
    ¬(phys t' ≤ phys t + 8 * i ∧ phys t + 8 * i < phys t' + page) := by
  have hpage : page = 4096 := rfl
  have ht := h.aligned t
  have ht' := h.aligned t'
  have hapart := h.apart t t' hne
  rw [hpage] at ht ht' ⊢
  omega

/-- The words of an array. -/
theorem Placed.load (h : Placed phys) (other : Nat → Nat) (t : Table) {i : Nat} (hi : i < 512) :
    m.load phys other (phys t + 8 * i) = m.tables t i := by
  have hpage : page = 4096 := rfl
  have hself : phys t ≤ phys t + 8 * i ∧ phys t + 8 * i < phys t + page := by
    rw [hpage]
    omega
  have hindex : (phys t + 8 * i - phys t) / 8 = i := by omega
  unfold Machine.load
  cases t with
  | pml4 => rw [if_pos hself, hindex]
  | pdpt => rw [if_neg (h.outside (by decide) hi), if_pos hself, hindex]
  | pd => rw [if_neg (h.outside (by decide) hi), if_neg (h.outside (by decide) hi), if_pos hself, hindex]
  | kernelPt =>
      rw [if_neg (h.outside (by decide) hi), if_neg (h.outside (by decide) hi), if_neg (h.outside (by decide) hi),
        if_pos hself, hindex]

/-- The rights of the kernel behind two links. -/
def kernelRights : VmProbe.Rights := { user := false, wr := true, nx := false, g := false }

theorem Maps.root_addr (h : Maps phys kernelBase ro nx m) (hp : Placed phys) : m.cr3 &&& UserVm.pteAddr = phys .pml4 := by
  rw [h.cr3]
  exact (hp.frame .pml4).and_addrMask

theorem index_low (hva : va < 2 ^ 30) : UserVm.pml4Index va = 0 ∧ UserVm.pdptIndex va = 0 := by
  rw [UserVm.pml4Index_eq, UserVm.pdptIndex_eq]
  omega

/-- Below the first GiB the lookup reaches the directory. -/
theorem Maps.walk_low (h : Maps phys kernelBase ro nx m) (hp : Placed phys) (other : Nat → Nat) (hva : va < 2 ^ 30) :
    VmProbe.walkVa (m.load phys other) va (phys .pml4) = VmProbe.walkPd (m.load phys other) va (phys .pd) kernelRights := by
  obtain ⟨hroot, hsecond⟩ := index_low hva
  rw [VmProbe.walkVa_link (hp.validateFrame .pml4) h.root (by rw [hroot]; exact hp.load other .pml4 (by decide)) rfl]
  exact VmProbe.walkPdpt_link (hp.validateFrame .pdpt) h.second (by rw [hsecond]; exact hp.load other .pdpt (by decide)) rfl

theorem Maps.leaf_low (h : Maps phys kernelBase ro nx m) (hp : Placed phys) (other : Nat → Nat) (hva : va < 2 ^ 30) :
    VmProbe.leafPte (m.load phys other) va m.cr3 = VmProbe.leafPd (m.load phys other) va (phys .pd) := by
  obtain ⟨hroot, hsecond⟩ := index_low hva
  rw [VmProbe.leafPte_link (h.root_addr hp) h.root (by rw [hroot]; exact hp.load other .pml4 (by decide))]
  exact VmProbe.leafPdpt_link h.second (by rw [hsecond]; exact hp.load other .pdpt (by decide)) rfl

theorem Maps.walk_high (h : Maps phys kernelBase ro nx m) (hp : Placed phys) (other : Nat → Nat) (hva : va < 2 ^ 48)
    (hhigh : 2 ^ 30 ≤ va) : VmProbe.walkVa (m.load phys other) va (phys .pml4) = {} ∧
      VmProbe.leafPte (m.load phys other) va m.cr3 = none := by
  have hcr3 := h.root_addr hp
  by_cases hroot : UserVm.pml4Index va = 0
  · have hsecond : UserVm.pdptIndex va ≠ 0 := by
      rw [UserVm.pml4Index_eq] at hroot
      rw [UserVm.pdptIndex_eq]
      omega
    have hindex : UserVm.pdptIndex va < 512 := by
      rw [UserVm.pdptIndex_eq]
      omega
    have hload : m.load phys other (phys .pml4 + 8 * UserVm.pml4Index va) = m.tables .pml4 0 := by
      rw [hroot]
      exact hp.load other .pml4 (by decide)
    have habsent := h.second_rest _ hsecond
    rw [VmProbe.walkVa_link (hp.validateFrame .pml4) h.root hload rfl, VmProbe.leafPte_link hcr3 h.root hload]
    exact ⟨VmProbe.walkPdpt_absent (hp.load other .pdpt hindex) habsent, VmProbe.leafPdpt_absent (hp.load other .pdpt hindex) habsent⟩
  · have hindex : UserVm.pml4Index va < 512 := by
      rw [UserVm.pml4Index_eq]
      omega
    have habsent := h.root_rest _ hroot
    exact ⟨VmProbe.walkVa_absent (hp.load other .pml4 hindex) habsent,
      VmProbe.leafPte_absent hcr3 (hp.load other .pml4 hindex) habsent⟩

/-- The index of a page in the kernel's block. -/
def blockIndex (kernelBase va : Nat) : Nat := (va - kernelBase) / page

/-- A page of the kernel's block. -/
theorem Maps.walk_block (h : Maps phys kernelBase ro nx m) (hp : Placed phys) (haligned : kernelBase % huge = 0)
    (hblock : kernelBase / huge < 512) (other : Nat → Nat) (hin : InBlock kernelBase va) :
    ∃ w x raw, VmProbe.walkVa (m.load phys other) va (phys .pml4) =
        { present := true, phys := va / page * page, w, nx := x, raw, ptPhys := phys .kernelPt
          ptIndex := blockIndex kernelBase va } ∧
      (w = true ↔ ¬ro (blockIndex kernelBase va)) ∧ (x = true ↔ nx (blockIndex kernelBase va)) ∧
      raw.testBit Paging.presentBit = true := by
  have hhuge : huge = 2097152 := rfl
  have hpage : page = 4096 := rfl
  obtain ⟨hlo, hhi⟩ := hin
  rw [hhuge] at haligned hblock hhi
  have hpd : UserVm.pdIndex va = kernelBase / huge := by
    rw [UserVm.pdIndex_eq, hhuge]
    omega
  have hpt : UserVm.ptIndex va = blockIndex kernelBase va := by
    rw [UserVm.ptIndex_eq, blockIndex, hpage]
    omega
  have hframe : kernelBase + blockIndex kernelBase va * page = va / page * page := by
    rw [blockIndex, hpage]
    omega
  have hindex : blockIndex kernelBase va < 512 := by
    rw [blockIndex, hpage]
    omega
  obtain ⟨w, x, hencodes, hw, hx⟩ := h.pages _ hindex
  rw [hframe] at hencodes
  refine ⟨w, x, m.tables .kernelPt (blockIndex kernelBase va), ?_, hw, hx, hencodes.present⟩
  have hdirectory : m.load phys other (phys .pd + 8 * UserVm.pdIndex va) = m.tables .pd (kernelBase / huge) := by
    rw [hpd]
    exact hp.load other .pd (by rw [hhuge]; omega)
  have hleaf : m.load phys other (phys .kernelPt + 8 * UserVm.ptIndex va) = m.tables .kernelPt (blockIndex kernelBase va) := by
    rw [hpt]
    exact hp.load other .kernelPt hindex
  rw [h.walk_low hp other (by omega)]
  refine (VmProbe.walkPd_link (hp.validateFrame .pd) h.block hdirectory rfl).trans ?_
  refine (VmProbe.walkPt_page (hp.validateFrame .kernelPt) hencodes hleaf).trans ?_
  rw [hpt]
  simp [VmProbe.Rights.leaf, VmProbe.Rights.through, entry, kernelRights]

theorem index_ne_of_not_inBlock (haligned : kernelBase % huge = 0) (hout : ¬InBlock kernelBase va) :
    va / huge ≠ kernelBase / huge := by
  have hhuge : huge = 2097152 := rfl
  intro heq
  rw [hhuge] at haligned heq
  refine hout ⟨by omega, ?_⟩
  rw [hhuge]
  omega

/-- A large page below the ceiling. -/
theorem Maps.walk_large (h : Maps phys kernelBase ro nx m) (hp : Placed phys) (haligned : kernelBase % huge = 0)
    (other : Nat → Nat) (hout : ¬InBlock kernelBase va) (hlow : va < mapTop) :
    ∃ raw, VmProbe.walkVa (m.load phys other) va (phys .pml4) =
        { present := true, huge := true, phys := va / huge * huge, w := true, raw } ∧
      raw.testBit Paging.presentBit = true := by
  have hhuge : huge = 2097152 := rfl
  have htop : mapTop = 268435456 := rfl
  have hne := index_ne_of_not_inBlock haligned hout
  rw [htop] at hlow
  have hpd : UserVm.pdIndex va = va / huge := by
    rw [UserVm.pdIndex_eq, hhuge]
    omega
  have hindex : va / huge < mapTop / huge := by
    rw [hhuge, htop]
    omega
  have hencodes := h.low _ hindex hne
  refine ⟨m.tables .pd (va / huge), ?_, hencodes.present⟩
  have hleaf : m.load phys other (phys .pd + 8 * UserVm.pdIndex va) = m.tables .pd (va / huge) := by
    rw [hpd]
    exact hp.load other .pd (by rw [hhuge]; omega)
  rw [h.walk_low hp other (by omega), VmProbe.walkPd_large (hp.validateFrame .pd) hencodes hleaf rfl
    (show va / huge * huge % 2 ^ 21 = 0 by rw [hhuge]; omega) (show va / huge * huge < 2 ^ 52 by rw [hhuge]; omega)]
  simp [VmProbe.Rights.leaf, VmProbe.Rights.through, entry, kernelRights]

theorem Maps.walk_none (h : Maps phys kernelBase ro nx m) (hp : Placed phys) (haligned : kernelBase % huge = 0)
    (other : Nat → Nat) (hout : ¬InBlock kernelBase va) (hhigh : mapTop ≤ va) (hva : va < 2 ^ 48) :
    VmProbe.walkVa (m.load phys other) va (phys .pml4) = {} ∧ VmProbe.leafPte (m.load phys other) va m.cr3 = none := by
  rcases Nat.lt_or_ge va (2 ^ 30) with hlow | hgib
  · have hhuge : huge = 2097152 := rfl
    have htop : mapTop = 268435456 := rfl
    have hne := index_ne_of_not_inBlock haligned hout
    rw [htop] at hhigh
    have hpd : UserVm.pdIndex va = va / huge := by
      rw [UserVm.pdIndex_eq, hhuge]
      omega
    have hindex : mapTop / huge ≤ va / huge := by
      rw [hhuge, htop]
      omega
    have hload : m.load phys other (phys .pd + 8 * UserVm.pdIndex va) = m.tables .pd (va / huge) := by
      rw [hpd]
      exact hp.load other .pd (by rw [hhuge]; omega)
    have habsent := h.high _ hindex hne
    rw [h.walk_low hp other hlow, h.leaf_low hp other hlow]
    exact ⟨VmProbe.walkPd_absent hload habsent, VmProbe.leafPd_absent hload habsent⟩
  · exact h.walk_high hp other hva hgib

/-- Where `walkVa` finds a page, `leafPte` finds its entry. -/
theorem Maps.leafPte_of_present (h : Maps phys kernelBase ro nx m) (hp : Placed phys) (other : Nat → Nat) (hva : va < 2 ^ 48)
    (hpresent : (VmProbe.walkVa (m.load phys other) va (phys .pml4)).present = true) :
    VmProbe.leafPte (m.load phys other) va m.cr3 = some (VmProbe.walkVa (m.load phys other) va (phys .pml4)).raw := by
  refine VmProbe.leafPte_of_present (h.root_addr hp) (fun hlarge => ?_) hpresent
  rcases Nat.lt_or_ge va (2 ^ 30) with hlow | hgib
  · rw [(index_low hlow).1] at hlarge
    have hload : m.load phys other (phys .pml4 + 8 * 0) = m.tables .pml4 0 := hp.load other .pml4 (by decide)
    rw [hload] at hlarge
    cases (VmProbe.and_ptePs_iff h.root).mp hlarge
  · rw [(h.walk_high hp other hva hgib).1] at hpresent
    cases hpresent

end Lookups

/-- A call for the page of an address in the kernel's block is in the trace. -/
def Changed (kernelBase : Nat) (call : Nat → Event) (trace : List Event) (va : Nat) : Prop :=
  ∃ paddr, call paddr ∈ trace ∧ InBlock kernelBase paddr ∧ paddr / page = va / page

section Whole

variable {phys : Phys} {kernelBase va : Nat} {m₀ m m' : Machine} {trace : List Event} {call : Nat → Event}

theorem changed_iff_asked (haligned : kernelBase % huge = 0) (hin : InBlock kernelBase va) :
    Changed kernelBase call trace va ↔ Asked kernelBase call trace (blockIndex kernelBase va) := by
  have hhuge : huge = 2097152 := rfl
  have hpage : page = 4096 := rfl
  rw [hhuge] at haligned
  refine exists_congr fun paddr => and_congr_right fun _ => and_congr_right fun hpaddr => ?_
  have hlo := hin.1
  have hlo' := hpaddr.1
  rw [blockIndex, hpage]
  omega

theorem not_changed (haligned : kernelBase % huge = 0) (hout : ¬InBlock kernelBase va) : ¬Changed kernelBase call trace va := by
  have hhuge : huge = 2097152 := rfl
  have hpage : page = 4096 := rfl
  rw [hhuge] at haligned
  rintro ⟨paddr, -, ⟨hlo, hhi⟩, hsame⟩
  rw [hhuge] at hhi
  rw [hpage] at hsame
  refine hout ⟨by omega, ?_⟩
  rw [hhuge]
  omega

theorem block_lt_of_init (hinit : init phys kernelBase m₀ = .ok m) : kernelBase / huge < 512 := by
  by_contra hblock
  have htrap : init phys kernelBase m₀ = .trap := if_pos (Nat.not_lt.mp hblock)
  rw [htrap] at hinit
  cases hinit

/-- The tables after `init` and any calls, whatever the processor marks meanwhile. -/
theorem maps_along (hp : Placed phys) (haligned : kernelBase % huge = 0) (hzero : ∀ t i, m₀.tables t i = 0)
    (hinit : init phys kernelBase m₀ = .ok m) (hrun : Run kernelBase m trace m') :
    Maps phys kernelBase (Asked kernelBase .setReadOnly trace) (Asked kernelBase .setNoExecute trace) m' := by
  have hblock := block_lt_of_init hinit
  rw [init_run hblock] at hinit
  rw [← Outcome.ok.inj hinit] at hrun
  exact maps_of_run hblock (initialized_maps hp haligned hblock hzero) hrun

/-- From `init` on the kernel sees every address below the ceiling and of its block at itself, and no other; user code sees
none of them, and only the pages that were changed are read-only or not executable. -/
theorem supervisor_map (hp : Placed phys) (haligned : kernelBase % huge = 0) (hzero : ∀ t i, m₀.tables t i = 0)
    (hinit : init phys kernelBase m₀ = .ok m) (hrun : Run kernelBase m trace m') (other : Nat → Nat) (hva : va < 2 ^ 48) :
    let w := VmProbe.walkVa (m'.load phys other) va m'.cr3
    (w.present = true ↔ va < mapTop ∨ InBlock kernelBase va) ∧
      (w.present = true → w.phys + va % (if w.huge then huge else page) = va ∧ w.u = false ∧
        (w.w = true ↔ ¬Changed kernelBase .setReadOnly trace va) ∧ (w.nx = true ↔ Changed kernelBase .setNoExecute trace va)) ∧
      (VmProbe.leafPte (m'.load phys other) va m'.cr3 = if w.present then some w.raw else none) ∧
      ∀ paddr, setReadOnly paddr kernelBase m' ≠ .trap ∧ setNoExecute paddr kernelBase m' ≠ .trap := by
  have hblock := block_lt_of_init hinit
  have h := maps_along hp haligned hzero hinit hrun
  have hcalls (paddr : Nat) : setReadOnly paddr kernelBase m' ≠ .trap ∧ setNoExecute paddr kernelBase m' ≠ .trap := by
    rw [setReadOnly, setNoExecute, flip_run hblock, flip_run hblock]
    exact ⟨nofun, nofun⟩
  have hleaf := h.leafPte_of_present hp other hva
  rw [h.cr3]
  rw [h.cr3] at hleaf
  by_cases hin : InBlock kernelBase va
  · obtain ⟨w, x, raw, hwalk, hw, hx, -⟩ := h.walk_block hp haligned hblock other hin
    rw [hwalk] at hleaf ⊢
    refine ⟨iff_of_true rfl (Or.inr hin), fun _ => ⟨Nat.div_add_mod' va page, rfl, ?_, ?_⟩, hleaf rfl, hcalls⟩
    · rw [changed_iff_asked haligned hin]
      exact hw
    · rw [changed_iff_asked haligned hin]
      exact hx
  · rcases Nat.lt_or_ge va mapTop with hlow | hhigh
    · obtain ⟨raw, hwalk, -⟩ := h.walk_large hp haligned other hin hlow
      rw [hwalk] at hleaf ⊢
      exact ⟨iff_of_true rfl (Or.inl hlow), fun _ => ⟨Nat.div_add_mod' va huge, rfl, iff_of_true rfl (not_changed haligned hin),
        iff_of_false nofun (not_changed haligned hin)⟩, hleaf rfl, hcalls⟩
    · obtain ⟨hwalk, hnone⟩ := h.walk_none hp haligned other hin hhigh hva
      rw [h.cr3] at hnone
      rw [hwalk, hnone]
      refine ⟨iff_of_false nofun ?_, nofun, rfl, hcalls⟩
      rintro (hlow | hblock)
      · exact Nat.not_lt.mpr hhigh hlow
      · exact hin hblock

end Whole

/-- The arrays behind a kernel of sixteen pages. -/
def samplePhys : Phys
  | .pml4 => 0x210000
  | .pdpt => 0x211000
  | .pd => 0x212000
  | .kernelPt => 0x213000

theorem samplePhys_placed : Placed samplePhys where
  aligned t := by cases t <;> decide
  pos t := by cases t <;> decide
  low t := by cases t <;> decide
  apart t t' := by cases t <;> cases t' <;> decide

/-- A page that is made read-only, after which the processor marks the entry of the root. -/
theorem supervisor_map_sample : ∃ m m', init samplePhys 0x200000 {} = .ok m ∧
    Run 0x200000 m [.setReadOnly 0x203000, .marked .pml4 0 false] m' ∧
    let w := VmProbe.walkVa (m'.load samplePhys fun _ => 0) 0x203456 m'.cr3
    w.present = true ∧ w.w = false := by
  have hblock : 0x200000 / huge < 512 := by decide
  have haligned : 0x200000 % huge = 0 := by decide
  obtain ⟨m, hinit, hmaps⟩ : ∃ m, init samplePhys 0x200000 {} = .ok m ∧
      Maps samplePhys 0x200000 (fun _ => False) (fun _ => False) m :=
    ⟨_, init_run hblock, initialized_maps samplePhys_placed haligned hblock fun _ _ => rfl⟩
  have hset : Run 0x200000 m [.setReadOnly 0x203000] _ := Runs.Run.single (.setReadOnly (flip_run hblock _ _ _))
  have hroot := (maps_of_run hblock hmaps hset).root.present
  have hrun := hset.snoc (.marked .pml4 0 false (VmProbe.and_pteP_of_present hroot))
  have hmap := supervisor_map samplePhys_placed haligned (fun _ _ => rfl) hinit hrun (fun _ => 0)
    (show 0x203456 < 2 ^ 48 by decide)
  have hpresent := hmap.1.mpr (Or.inl (by decide))
  have hchanged : Changed 0x200000 .setReadOnly [.setReadOnly 0x203000, .marked .pml4 0 false] 0x203456 :=
    ⟨0x203000, List.mem_cons_self, ⟨by decide, by decide⟩, rfl⟩
  refine ⟨m, _, hinit, hrun, hpresent, Bool.eq_false_iff.mpr fun hw => ?_⟩
  exact (hmap.2.1 hpresent).2.2.1.mp hw hchanged

end KernelPaging

end Native
