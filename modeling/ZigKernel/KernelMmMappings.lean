import ZigKernel.KernelMmAreas

/-! The areas as a set of mappings. A run of `sys_mmap`, `sys_munmap` and `sys_mprotect` keeps the areas nonempty,
disjoint and in the user half, and each call has exactly its effect on what is mapped, as long as no call maps an empty,
overlapping or kernel range, unmaps a part of an area or protects a part of one. -/

namespace Kernel.Mm

open Zig

/-- An address is mapped with this protection. -/
def Maps (m : Mm) (a prot : Nat) : Prop :=
  ∃ i vma, m.vmAreas i = some vma ∧ vma.start ≤ a ∧ a < vma.stop ∧ vma.prot = prot

def VmArea.Apart (vma : VmArea) (start stop : Nat) : Prop := vma.stop ≤ start ∨ stop ≤ vma.start

instance (vma : VmArea) (start stop : Nat) : Decidable (vma.Apart start stop) := inferInstanceAs (Decidable (_ ∨ _))

structure Tidy (m : Mm) : Prop where
  nonempty : ∀ i vma, m.vmAreas i = some vma → vma.start < vma.stop
  disjoint : ∀ i j vma vma', m.vmAreas i = some vma → m.vmAreas j = some vma' → i ≠ j → vma.Apart vma'.start vma'.stop
  user : ∀ i vma, m.vmAreas i = some vma → vma.stop ≤ Gdt.userMax + 1

/-- A call with its arguments. -/
inductive AreaCall where
  | mmap (addr len prot flags : U64)
  | munmap (addr len : U64)
  | mprotect (addr len prot : U64)

namespace AreaCall

def run : AreaCall → Kernel.Run Int
  | mmap addr len prot flags => sysMmap addr len prot flags
  | munmap addr len => sysMunmap addr len
  | mprotect addr len prot => sysMprotect addr len prot

/-- The range from `base` on has been added, with its protection. -/
def Adds (m t : Mm) (addr base len prot : Nat) : Prop := (addr ≠ 0 → base = addr) ∧
  ∀ a p, Maps t a p ↔ Maps m a p ∨ base ≤ a ∧ a < base + alignUp len ∧ p = prot

/-- No area meets the range, and outside it nothing has changed. -/
def Removes (m t : Mm) (addr len : Nat) : Prop :=
  (∀ i vma, t.vmAreas i = some vma → vma.Apart addr (addr + alignUp len)) ∧
    ∀ a p, ¬(addr ≤ a ∧ a < addr + alignUp len) → (Maps t a p ↔ Maps m a p)

/-- The range has the protection, and outside it nothing has changed. -/
def Protects (m t : Mm) (addr len prot : Nat) : Prop :=
  (∀ a p, addr ≤ a → a < addr + len → (Maps t a p ↔ p = prot)) ∧
    ∀ a p, ¬(addr ≤ a ∧ a < addr + len) → (Maps t a p ↔ Maps m a p)

/-- The effect of a call that succeeds with the result `r`. -/
def Succeeds (m t : Mm) (r : Nat) : AreaCall → Prop
  | mmap addr len prot _ => Adds m t addr r len prot
  | munmap addr len => Removes m t addr len
  | mprotect addr len prot => Protects m t addr len prot

/-- The effect that a call with the result `r` should have. -/
def Effect (m t : Mm) (r : Int) (c : AreaCall) : Prop :=
  if r < 0 then t.vmAreas = m.vmAreas else c.Succeeds m t r.toNat

/-- What is mapped is a nonempty free range of the user half; whatever the range to unmap meets lies in it, if anything
does; and an area to protect is the range, or has the protection already. -/
def Whole (m : Mm) : AreaCall → Prop
  | mmap addr len _ flags => addr.val = 0 ∨ Gdt.isUserRange addr len = true → Accepts m addr len flags →
      0 < len.val ∧ baseOf m addr + alignUp len ≤ Gdt.userMax + 1 ∧
        ∀ i vma, m.vmAreas i = some vma → vma.Apart (baseOf m addr) (baseOf m addr + alignUp len)
  | munmap addr len => Gdt.isUserRange addr len = true → (∃ i, Hit addr (addr + alignUp len) (m.vmAreas i)) →
      ∀ i vma, m.vmAreas i = some vma → vma.Apart addr (addr + alignUp len) ∨ vma.within addr (addr + alignUp len)
  | mprotect addr len prot => Gdt.isUserRange addr len = true →
      ∀ i vma, findCovering m addr (addr.val + len.val) = some i → m.vmAreas i = some vma →
        vma.start = addr.val ∧ vma.stop = addr.val + len.val ∨ vma.prot = prot.val

/-- The call returns, and leaves this state. -/
def Step (s : State) (c : AreaCall) (t : State) : Prop := ∃ r, c.run s = (.ok r, t)

/-- The areas are in order after the call, and it has its effect. -/
def Exact (s : State) (c : AreaCall) (t : State) : Prop :=
  Tidy t.mm ∧ ∀ r, c.run s = (.ok r, t) → c.Effect s.mm t.mm r

end AreaCall

section Results

variable {s t : State} {r : Int}

theorem onMm_ok {α : Type} {m : Run α} {a : α} (h : onMm m s = (.ok a, t)) : m s.mm = (.ok a, t.mm) := by
  obtain ⟨hval, hstate⟩ := Prod.mk.inj h
  have hmm : t.mm = (m s.mm).2 := by
    rw [← hstate]
  rw [hmm, ← hval]

theorem sysMmap_result {addr len prot flags : Nat} (h : sysMmap addr len prot flags s = (.ok r, t)) :
    (¬(addr = 0 ∨ Gdt.isUserRange addr len = true) ∧ r < 0 ∧ t.mm = s.mm) ∨
      ((addr = 0 ∨ Gdt.isUserRange addr len = true) ∧ ∃ result, MmapResult s.mm addr len prot flags result t.mm ∧
        (result = none ∧ r < 0 ∨ ∃ base : Nat, result = some base ∧ r = base)) := by
  rw [sysMmap] at h
  by_cases hgate : addr ≠ 0 ∧ ¬Gdt.isUserRange addr len
  · rw [if_pos hgate] at h
    cases h
    exact Or.inl ⟨not_or.mpr hgate, by decide, rfl⟩
  rw [if_neg hgate] at h
  obtain ⟨p, hp, hrest⟩ := Act.lift_bind_run_eq_ok h
  obtain ⟨f, hf, hrest⟩ := Act.lift_bind_run_eq_ok hrest
  obtain ⟨result, u, hmm, hrest⟩ := Act.bind_run_eq_ok hrest
  have hresult := mmap_result (onMm_ok hmm)
  rw [castU32_val hp, castU32_val hf] at hresult
  have hopen : addr = 0 ∨ Gdt.isUserRange addr len = true := by_contra fun hno => hgate (not_or.mp hno)
  refine Or.inr ⟨hopen, result, ?_⟩
  cases result with
  | none =>
      cases hrest
      exact ⟨hresult, Or.inl ⟨rfl, by decide⟩⟩
  | some base =>
      obtain ⟨hcast, rfl⟩ := Prod.mk.inj hrest
      exact ⟨hresult, Or.inr ⟨base, rfl, (castI64_ok hcast).symm⟩⟩

theorem sysMunmap_result {addr len : Nat} (h : sysMunmap addr len s = (.ok r, t)) :
    (Gdt.isUserRange addr len = false ∧ r < 0 ∧ t.mm = s.mm) ∨
      (Gdt.isUserRange addr len = true ∧ munmap addr len s.mm = (.ok r, t.mm)) := by
  rw [sysMunmap] at h
  cases hrange : Gdt.isUserRange addr len with
  | false =>
      rw [hrange] at h
      cases h
      exact Or.inl ⟨rfl, by decide, rfl⟩
  | true =>
      rw [hrange, if_neg (fun hn => hn rfl)] at h
      exact Or.inr ⟨rfl, onMm_ok h⟩

theorem sysMprotect_result {addr len prot : Nat} (h : sysMprotect addr len prot s = (.ok r, t)) :
    (Gdt.isUserRange addr len = false ∧ r < 0 ∧ t.mm = s.mm) ∨
      (Gdt.isUserRange addr len = true ∧ mprotect addr len prot s.mm = (.ok r, t.mm)) := by
  rw [sysMprotect] at h
  cases hrange : Gdt.isUserRange addr len with
  | false =>
      rw [hrange] at h
      cases h
      exact Or.inl ⟨rfl, by decide, rfl⟩
  | true =>
      rw [hrange, if_neg (fun hn => hn rfl)] at h
      obtain ⟨p, hp, hrest⟩ := Act.lift_bind_run_eq_ok h
      rw [castU32_val hp] at hrest
      exact Or.inr ⟨rfl, onMm_ok hrest⟩

end Results

/-! ### Each call -/

section Calls

variable {m t : Mm} {addr len prot flags : Nat}

theorem le_alignUp (len : Nat) : len ≤ alignUp len := by
  have hmod := Nat.mod_lt (len + pageSize - 1) (show 0 < pageSize by decide)
  have hdiv := Nat.div_add_mod' (len + pageSize - 1) pageSize
  rw [alignUp]
  omega

theorem Maps.congr (h : t.vmAreas = m.vmAreas) (a p : Nat) : Maps t a p ↔ Maps m a p := by
  rw [Maps, Maps, h]

theorem Tidy.congr (h : Tidy m) (hareas : t.vmAreas = m.vmAreas) : Tidy t := by
  constructor <;> rw [hareas]
  exacts [h.nonempty, h.disjoint, h.user]

theorem allocPages_areas (n : Nat) (m : Mm) : (allocPages n m).vmAreas = m.vmAreas := by
  obtain ⟨pages, bitmap, heq⟩ := allocPages_eq n m
  rw [heq]

/-- The table with a new area in a free slot. -/
def Inserted (m t : Mm) (slot : Fin maxVmAreas) (vma : VmArea) : Prop :=
  m.vmAreas slot = none ∧ t.vmAreas = Function.update m.vmAreas slot (some vma)

theorem Inserted.area {slot i : Fin maxVmAreas} {vma v : VmArea} (h : Inserted m t slot vma) (hi : t.vmAreas i = some v) :
    (i = slot ∧ v = vma) ∨ (i ≠ slot ∧ m.vmAreas i = some v) := by
  rw [h.2] at hi
  by_cases his : i = slot
  · rw [his, Function.update_self] at hi
    exact Or.inl ⟨his, (Option.some.inj hi).symm⟩
  · rw [Function.update_of_ne his] at hi
    exact Or.inr ⟨his, hi⟩

theorem Inserted.new {slot : Fin maxVmAreas} {vma : VmArea} (h : Inserted m t slot vma) : t.vmAreas slot = some vma := by
  rw [h.2, Function.update_self]

theorem Inserted.old {slot i : Fin maxVmAreas} {vma v : VmArea} (h : Inserted m t slot vma) (hi : m.vmAreas i = some v) :
    i ≠ slot ∧ t.vmAreas i = some v := by
  have hne : i ≠ slot := by
    rintro rfl
    rw [h.1] at hi
    cases hi
  exact ⟨hne, by rw [h.2, Function.update_of_ne hne, hi]⟩

/-- A new area keeps the table in order exactly if it is nonempty, in the user half and apart from the others. -/
theorem Tidy.insert_iff (hm : Tidy m) {slot : Fin maxVmAreas} {vma : VmArea} (h : Inserted m t slot vma) :
    Tidy t ↔ vma.start < vma.stop ∧ vma.stop ≤ Gdt.userMax + 1 ∧
      ∀ i v, m.vmAreas i = some v → v.Apart vma.start vma.stop := by
  constructor
  · intro ht
    refine ⟨ht.nonempty slot vma h.new, ht.user slot vma h.new, fun i v hi => ?_⟩
    obtain ⟨hne, hold⟩ := h.old hi
    exact ht.disjoint i slot v vma hold h.new hne
  · rintro ⟨hnonempty, huser, hapart⟩
    refine ⟨fun i v hi => ?_, fun i j v w hi hj hij => ?_, fun i v hi => ?_⟩
    · rcases h.area hi with ⟨-, rfl⟩ | ⟨-, hold⟩
      · exact hnonempty
      · exact hm.nonempty i v hold
    · rcases h.area hi with ⟨rfl, rfl⟩ | ⟨-, hold⟩
      · rcases h.area hj with ⟨rfl, -⟩ | ⟨-, hold'⟩
        · exact absurd rfl hij
        · exact (hapart j w hold').symm
      · rcases h.area hj with ⟨-, rfl⟩ | ⟨-, hold'⟩
        · exact hapart i v hold
        · exact hm.disjoint i j v w hold hold' hij
    · rcases h.area hi with ⟨-, rfl⟩ | ⟨-, hold⟩
      · exact huser
      · exact hm.user i v hold

/-- A new area maps its range, and nothing else changes. -/
theorem Inserted.maps {slot : Fin maxVmAreas} {vma : VmArea} (h : Inserted m t slot vma) (a p : Nat) :
    Maps t a p ↔ Maps m a p ∨ vma.start ≤ a ∧ a < vma.stop ∧ p = vma.prot := by
  constructor
  · rintro ⟨i, v, hi, hle, hlt, rfl⟩
    rcases h.area hi with ⟨-, rfl⟩ | ⟨-, hold⟩
    · exact Or.inr ⟨hle, hlt, rfl⟩
    · exact Or.inl ⟨i, v, hold, hle, hlt, rfl⟩
  · rintro (⟨i, v, hi, hle, hlt, hp⟩ | ⟨hle, hlt, rfl⟩)
    · exact ⟨i, v, (h.old hi).2, hle, hlt, hp⟩
    · exact ⟨slot, vma, h.new, hle, hlt, rfl⟩

theorem newArea_nonempty (base prot flags : Nat) :
    (newArea base len prot flags).start < (newArea base len prot flags).stop ↔ 0 < len := by
  have hle := le_alignUp len
  refine ⟨fun h => Nat.pos_of_ne_zero ?_, fun h => Nat.lt_add_of_pos_right (Nat.lt_of_lt_of_le h hle)⟩
  rintro rfl
  exact Nat.lt_irrefl base h

/-- What is left of the table when the areas in a range are gone. -/
def Removed (m t : Mm) (addr stop : Nat) : Prop := ∀ i, t.vmAreas i = unmapped addr stop (m.vmAreas i)

section Removed

variable {stop : Nat}

theorem Removed.area (h : Removed m t addr stop) {i : Fin maxVmAreas} {vma : VmArea} (hi : t.vmAreas i = some vma) :
    m.vmAreas i = some vma ∧ ¬vma.within addr stop := by
  rw [h i] at hi
  obtain ⟨hold, hnot⟩ := Option.filter_eq_some_iff.mp hi
  exact ⟨hold, of_decide_eq_true hnot⟩

theorem Removed.kept (h : Removed m t addr stop) {i : Fin maxVmAreas} {vma : VmArea} (hi : m.vmAreas i = some vma)
    (hnot : ¬vma.within addr stop) : t.vmAreas i = some vma := by
  rw [h i, hi, unmapped_not hnot]

theorem Removed.nothing (h : Removed m t addr stop) (hno : ¬∃ i, Hit addr stop (m.vmAreas i)) : t.vmAreas = m.vmAreas := by
  funext i
  rw [h i]
  cases hi : m.vmAreas i with
  | none => rfl
  | some vma => exact unmapped_not fun hwithin => hno ⟨i, vma, hi, hwithin⟩

theorem Tidy.removed (hm : Tidy m) (h : Removed m t addr stop) : Tidy t :=
  ⟨fun i vma hi => hm.nonempty i vma (h.area hi).1,
    fun i j vma vma' hi hj => hm.disjoint i j vma vma' (h.area hi).1 (h.area hj).1,
    fun i vma hi => hm.user i vma (h.area hi).1⟩

/-- Outside the range the mappings stay. -/
theorem Removed.maps (h : Removed m t addr stop) {a : Nat} (houtside : ¬(addr ≤ a ∧ a < stop)) (p : Nat) :
    Maps t a p ↔ Maps m a p := by
  constructor
  · rintro ⟨i, vma, hi, ha⟩
    exact ⟨i, vma, (h.area hi).1, ha⟩
  · rintro ⟨i, vma, hi, hle, hlt, hp⟩
    refine ⟨i, vma, h.kept hi fun hwithin => houtside ?_, hle, hlt, hp⟩
    exact ⟨Nat.le_trans hwithin.1 hle, Nat.lt_of_lt_of_le hlt hwithin.2⟩

end Removed

/-- The table with a new protection for one area. -/
def Protected (m t : Mm) (i : Fin maxVmAreas) (vma : VmArea) (prot : Nat) : Prop :=
  m.vmAreas i = some vma ∧ t.vmAreas = Function.update m.vmAreas i (some { vma with prot })

section Protected

variable {i : Fin maxVmAreas} {vma : VmArea}

theorem Protected.area (h : Protected m t i vma prot) {j : Fin maxVmAreas} {v : VmArea} (hj : t.vmAreas j = some v) :
    ∃ old, m.vmAreas j = some old ∧ v.start = old.start ∧ v.stop = old.stop := by
  rw [h.2] at hj
  by_cases hji : j = i
  · rw [hji, Function.update_self] at hj
    cases hj
    exact ⟨vma, hji ▸ h.1, rfl, rfl⟩
  · rw [Function.update_of_ne hji] at hj
    exact ⟨v, hj, rfl, rfl⟩

theorem Tidy.protected (hm : Tidy m) (h : Protected m t i vma prot) : Tidy t := by
  refine ⟨fun j v hj => ?_, fun j k v w hj hk hjk => ?_, fun j v hj => ?_⟩
  · obtain ⟨old, hold, hstart, hstop⟩ := h.area hj
    rw [hstart, hstop]
    exact hm.nonempty j old hold
  · obtain ⟨old, hold, hstart, hstop⟩ := h.area hj
    obtain ⟨old', hold', hstart', hstop'⟩ := h.area hk
    rw [VmArea.Apart, hstart, hstop, hstart', hstop']
    exact hm.disjoint j k old old' hold hold' hjk
  · obtain ⟨old, hold, -, hstop⟩ := h.area hj
    rw [hstop]
    exact hm.user j old hold

/-- An address of an area is mapped by it alone. -/
theorem Tidy.maps_iff (hm : Tidy m) (hi : m.vmAreas i = some vma) {a : Nat} (ha : vma.start ≤ a ∧ a < vma.stop) (p : Nat) :
    Maps m a p ↔ p = vma.prot := by
  constructor
  · rintro ⟨j, v, hj, hle, hlt, rfl⟩
    by_cases hji : j = i
    · rw [hji, hi] at hj
      exact congrArg VmArea.prot (Option.some.inj hj).symm
    · rcases hm.disjoint j i v vma hj hi hji with hbefore | hafter
      · exact absurd ha.1 (Nat.not_le.mpr (Nat.lt_of_lt_of_le hlt hbefore))
      · exact absurd ha.2 (Nat.not_lt.mpr (Nat.le_trans hafter hle))
  · rintro rfl
    exact ⟨i, vma, hi, ha.1, ha.2, rfl⟩

/-- The addresses of the area have the new protection. -/
theorem Tidy.maps_protected (hm : Tidy m) (h : Protected m t i vma prot) {a : Nat} (ha : vma.start ≤ a ∧ a < vma.stop)
    (p : Nat) : Maps t a p ↔ p = prot := by
  have hnew : t.vmAreas i = some { vma with prot } := by
    rw [h.2, Function.update_self]
  exact (hm.protected h).maps_iff hnew ha p

/-- The other addresses have what they had. -/
theorem Protected.maps_other (h : Protected m t i vma prot) {a : Nat} (ha : ¬(vma.start ≤ a ∧ a < vma.stop)) (p : Nat) :
    Maps t a p ↔ Maps m a p := by
  constructor
  · rintro ⟨j, v, hj, hle, hlt, hp⟩
    by_cases hji : j = i
    · rw [h.2, hji, Function.update_self] at hj
      cases hj
      exact absurd ⟨hle, hlt⟩ ha
    · rw [h.2, Function.update_of_ne hji] at hj
      exact ⟨j, v, hj, hle, hlt, hp⟩
  · rintro ⟨j, v, hj, hle, hlt, hp⟩
    have hji : j ≠ i := by
      rintro rfl
      rw [h.1] at hj
      cases hj
      exact ha ⟨hle, hlt⟩
    exact ⟨j, v, by rw [h.2, Function.update_of_ne hji, hj], hle, hlt, hp⟩

end Protected

end Calls

/-! ### Every call of a run -/

namespace AreaCall

section Steps

variable {s t : State}

theorem exact_iff {c : AreaCall} {r : Int} (h : c.run s = (.ok r, t)) :
    Exact s c t ↔ Tidy t.mm ∧ c.Effect s.mm t.mm r := by
  refine and_congr Iff.rfl ⟨fun heffect => heffect r h, fun heffect r' h' => ?_⟩
  rw [h] at h'
  cases h'
  exact heffect

/-- A call that fails, where the condition asks for nothing. -/
theorem exact_failed (hm : Tidy s.mm) (hareas : t.mm.vmAreas = s.mm.vmAreas) {r : Int} (hr : r < 0) (c : AreaCall) :
    Tidy t.mm ∧ c.Effect s.mm t.mm r := by
  refine ⟨hm.congr hareas, ?_⟩
  rwa [Effect, if_pos hr]

theorem effect_succeeds {m u : Mm} {r : Nat} {c : AreaCall} : c.Effect m u r ↔ c.Succeeds m u r := by
  rw [Effect, if_neg (Int.not_lt.mpr (Int.natCast_nonneg r)), Int.toNat_natCast]

theorem mmap_exact (hm : Tidy s.mm) {addr len prot flags : U64} {r : Int}
    (h : (mmap addr len prot flags).run s = (.ok r, t)) :
    Exact s (mmap addr len prot flags) t ↔ Whole s.mm (mmap addr len prot flags) := by
  rw [exact_iff h]
  rcases sysMmap_result h with ⟨hclosed, hr, hmm⟩ | ⟨hopen, result, hresult, hr⟩
  · exact iff_of_true (exact_failed hm (congrArg vmAreas hmm) hr _) fun hopen => absurd hopen hclosed
  generalize ht : t.mm = u at hresult
  cases hresult with
  | refused hnot =>
      obtain ⟨-, hneg⟩ | ⟨base, hbase, -⟩ := hr
      · have hareas : t.mm.vmAreas = s.mm.vmAreas := by
          rw [ht]
        rw [← ht]
        exact iff_of_true (exact_failed hm hareas hneg _) fun _ haccepts => absurd haccepts hnot
      · cases hbase
  | mapped count haccepts hslot =>
      rename_i slot
      obtain ⟨hnone, -⟩ | ⟨base, hbase, rfl⟩ := hr
      · cases hnone
      cases hbase
      have hinserted : Inserted s.mm t.mm slot (newArea (baseOf s.mm addr) len prot flags) := by
        refine ⟨Option.isNone_iff_eq_none.mp (Table.find?_some hslot), ?_⟩
        rw [ht]
        exact allocPages_areas _ _
      have heffect : Adds s.mm t.mm addr (baseOf s.mm addr) len prot :=
        ⟨fun haddr => if_neg haddr, fun a p => hinserted.maps a p⟩
      rw [← ht, effect_succeeds, Succeeds, and_iff_left heffect, hm.insert_iff hinserted, newArea_nonempty]
      exact ⟨fun h _ _ => h, fun h => h hopen haccepts⟩

theorem munmap_exact (hm : Tidy s.mm) {addr len : U64} {r : Int} (h : (munmap addr len).run s = (.ok r, t)) :
    Exact s (munmap addr len) t ↔ Whole s.mm (munmap addr len) := by
  rw [exact_iff h]
  rcases sysMunmap_result h with ⟨hclosed, hr, hmm⟩ | ⟨hopen, hrun⟩
  · refine iff_of_true (exact_failed hm (congrArg vmAreas hmm) hr _) fun hopen => ?_
    rw [hclosed] at hopen
    cases hopen
  obtain ⟨hremoved, -, hr⟩ := munmap_result hrun
  have hremoved : Removed s.mm t.mm addr (addr + alignUp len) := hremoved
  obtain ⟨rfl, hhit⟩ | ⟨rfl, hmiss⟩ := hr
  · constructor
    · rintro ⟨-, heffect⟩ - - i vma hi
      have heffect : Removes s.mm t.mm addr len := effect_succeeds.mp heffect
      by_cases hwithin : vma.within addr (addr + alignUp len)
      · exact Or.inr hwithin
      · exact Or.inl (heffect.1 i vma (hremoved.kept hi hwithin))
    · intro hwhole
      refine ⟨hm.removed hremoved, effect_succeeds.mpr ⟨fun i vma hi => ?_, fun a p ha => hremoved.maps ha p⟩⟩
      obtain ⟨hold, hnot⟩ := hremoved.area hi
      exact (hwhole hopen hhit i vma hold).resolve_right hnot
  · exact iff_of_true (exact_failed hm (hremoved.nothing hmiss) (by decide) _) fun _ hhit => absurd hhit hmiss

theorem mprotect_exact (hm : Tidy s.mm) {addr len prot : U64} {r : Int}
    (h : (mprotect addr len prot).run s = (.ok r, t)) :
    Exact s (mprotect addr len prot) t ↔ Whole s.mm (mprotect addr len prot) := by
  rw [exact_iff h]
  rcases sysMprotect_result h with ⟨hclosed, hr, hmm⟩ | ⟨hopen, hrun⟩
  · refine iff_of_true (exact_failed hm (congrArg vmAreas hmm) hr _) fun hopen => ?_
    rw [hclosed] at hopen
    cases hopen
  obtain ⟨hnone, rfl, hmm⟩ | ⟨i, hfound, rfl, hmm⟩ := mprotect_result hrun
  · refine iff_of_true (exact_failed hm (congrArg vmAreas hmm) (by decide) _) fun _ i vma hfound => ?_
    rw [hnone] at hfound
    cases hfound
  obtain ⟨vma, hi, hle, hge⟩ := findCovering_some hfound
  have hprotected : Protected s.mm t.mm i vma prot := by
    refine ⟨hi, ?_⟩
    rw [hmm, hi]
    rfl
  have hwhole : Whole s.mm (mprotect addr len prot) ↔
      vma.start = addr.val ∧ vma.stop = addr.val + len.val ∨ vma.prot = prot.val := by
    refine ⟨fun h => h hopen i vma hfound hi, fun h _ j v hj hv => ?_⟩
    rw [hfound] at hj
    cases hj
    rw [hi] at hv
    cases hv
    exact h
  rw [hwhole]
  constructor
  · rintro ⟨-, heffect⟩
    have houtside := (show Protects s.mm t.mm addr len prot from effect_succeeds.mp heffect).2
    -- an address of the area outside the range has the new protection and should have the old one
    have hsame {a : Nat} (ha : vma.start ≤ a ∧ a < vma.stop) (hout : ¬(addr.val ≤ a ∧ a < addr.val + len.val)) :
        vma.prot = prot.val := by
      have hmaps := houtside a vma.prot hout
      rw [hm.maps_protected hprotected ha, hm.maps_iff hi ha] at hmaps
      exact hmaps.mpr rfl
    by_contra hnot
    rw [not_or] at hnot
    have hnonempty := hm.nonempty i vma hi
    by_cases hstart : vma.start = addr.val
    · have hstop : addr.val + len.val < vma.stop := by
        have hne : vma.stop ≠ addr.val + len.val := fun heq => hnot.1 ⟨hstart, heq⟩
        omega
      exact hnot.2 (hsame ⟨by omega, hstop⟩ fun hin => absurd hin.2 (Nat.lt_irrefl _))
    · exact hnot.2 (hsame ⟨Nat.le_refl _, hnonempty⟩ fun hin => hstart (Nat.le_antisymm hle hin.1))
  · rintro hcase
    refine ⟨hm.protected hprotected, effect_succeeds.mpr ⟨fun a p hlo hhi => ?_, fun a p hout => ?_⟩⟩
    · exact hm.maps_protected hprotected ⟨Nat.le_trans hle hlo, Nat.lt_of_lt_of_le hhi hge⟩ p
    · by_cases ha : vma.start ≤ a ∧ a < vma.stop
      · rcases hcase with ⟨hstart, hstop⟩ | hprot
        · rw [hstart, hstop] at ha
          exact absurd ha hout
        · rw [hm.maps_protected hprotected ha, hm.maps_iff hi ha, hprot]
      · exact hprotected.maps_other ha p

theorem step_exact (hm : Tidy s.mm) {c : AreaCall} (h : Step s c t) : Exact s c t ↔ Whole s.mm c := by
  obtain ⟨r, hrun⟩ := h
  cases c with
  | mmap addr len prot flags => exact mmap_exact hm hrun
  | munmap addr len => exact munmap_exact hm hrun
  | mprotect addr len prot => exact mprotect_exact hm hrun

end Steps

end AreaCall

theorem tidy_init : Tidy {} :=
  ⟨fun i vma h => (by cases h), fun i j vma vma' h => (by cases h), fun i vma h => (by cases h)⟩

/-- In a run of the three calls every call has exactly its effect and the areas stay in order exactly if every call is
whole. -/
theorem areas_exact (calls : List AreaCall) (t : State) :
    Runs.Run (fun s c t => AreaCall.Step s c t ∧ AreaCall.Exact s c t) {} calls t ↔
      Runs.Run (fun (s : State) c t => AreaCall.Step s c t ∧ AreaCall.Whole s.mm c) {} calls t :=
  Runs.Run.along_iff (I := fun s : State => Tidy s.mm) (B := fun s c _ => AreaCall.Whole s.mm c) tidy_init
    (fun _ _ _ hm hstep => AreaCall.step_exact hm hstep)
    fun _ _ _ hm hstep hwhole => ((AreaCall.step_exact hm hstep).mpr hwhole).1

/-- One page at an address that is only a hint. -/
def hintedPage : AreaCall := .mmap 0x10000 0x1000 3 2

def afterFirst : State := (hintedPage.run {}).2
def afterSecond : State := (hintedPage.run afterFirst).2

/-- Mapped a second time, the page is in two areas. -/
theorem hinted_page_maps_twice : ¬∀ calls t, Runs.Run AreaCall.Step {} calls t →
    Runs.Run (fun s c t => AreaCall.Step s c t ∧ AreaCall.Exact s c t) {} calls t := by
  intro h
  have hfirst : hintedPage.run {} = (.ok 0x10000, afterFirst) := rfl
  have hsecond : hintedPage.run afterFirst = (.ok 0x10000, afterSecond) := rfl
  have hrun : Runs.Run AreaCall.Step {} [hintedPage, hintedPage] afterSecond :=
    .cons ⟨_, hfirst⟩ (.cons ⟨_, hsecond⟩ .refl)
  obtain ⟨s, ⟨⟨r, hs⟩, -⟩, hrest⟩ := (h _ _ hrun).cons_inv
  have hstate : s = afterFirst := (congrArg Prod.snd hs).symm
  subst hstate
  obtain ⟨t, ⟨⟨r', ht⟩, htidy, -⟩, -⟩ := hrest.cons_inv
  have hstate : t = afterSecond := (congrArg Prod.snd ht).symm
  subst hstate
  have hfree := htidy.disjoint ⟨0, by decide⟩ ⟨1, by decide⟩ _ _ rfl rfl (by decide)
  revert hfree
  decide

end Kernel.Mm
