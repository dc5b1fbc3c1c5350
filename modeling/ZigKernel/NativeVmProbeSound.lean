import ZigKernel.LibPagingEntries
import ZigKernel.NativeUserVmSpace
import ZigKernel.NativeVmProbe

/-! What the lookups find, level by level. -/

namespace Native

open Zig

namespace VmProbe

open Paging (Encodes)

section Levels

variable {load : Nat → Nat} {va e frame : Nat} {d : Paging.Entry} {r : Rights}

theorem and_pteP_of_present (h : e.testBit Paging.presentBit = true) : e &&& UserVm.pteP ≠ 0 := Paging.and_bit_ne_zero.mpr h

theorem and_pteP_of_encodes (h : Encodes e d) : ¬e &&& UserVm.pteP = 0 := and_pteP_of_present h.present

theorem and_ptePs_iff (h : Encodes e d) : e &&& UserVm.ptePs ≠ 0 ↔ d.large = true := by
  rw [← h.large]
  exact Paging.and_bit_ne_zero

/-- The rights that an entry leaves. -/
def Rights.through (r : Rights) (d : Paging.Entry) : Rights where
  user := r.user && d.user
  wr := r.wr && d.writable
  nx := r.nx || d.noExecute
  g := r.g

theorem decide_bit {i : Nat} {b : Bool} (h : e.testBit i = b) : decide (e &&& 1 <<< i ≠ 0) = b := by
  cases b with
  | false => exact decide_eq_false (not_not.mpr (Paging.and_bit_eq_zero.mpr h))
  | true => exact decide_eq_true (Paging.and_bit_ne_zero.mpr h)

theorem meet_encodes (h : Encodes e d) : r.meet e = r.through d := by
  have huser : decide (e &&& UserVm.pteU ≠ 0) = d.user := decide_bit h.user
  have hwritable : decide (e &&& UserVm.pteW ≠ 0) = d.writable := decide_bit h.writable
  have hnx : decide (e &&& UserVm.pteNx ≠ 0) = d.noExecute := decide_bit h.noExecute
  have hg : decide (e &&& UserVm.pteG ≠ 0) = false := decide_bit h.local_
  rw [Rights.meet, Rights.through, huser, hwritable, hnx, hg, Bool.or_false]

theorem of_encodes (h : Encodes e d) :
    Rights.of e = { user := d.user, wr := d.writable, nx := d.noExecute, g := false } := by
  have huser : decide (e &&& UserVm.pteU ≠ 0) = d.user := decide_bit h.user
  have hwritable : decide (e &&& UserVm.pteW ≠ 0) = d.writable := decide_bit h.writable
  have hnx : decide (e &&& UserVm.pteNx ≠ 0) = d.noExecute := decide_bit h.noExecute
  have hg : decide (e &&& UserVm.pteG ≠ 0) = false := decide_bit h.local_
  rw [Rights.of, huser, hwritable, hnx, hg]

theorem walkVa_link (hroot : validateFrame frame = true) (h : Encodes e d) (hload : load (frame + 8 * UserVm.pml4Index va) = e)
    (hlink : d.large = false) : walkVa load va frame =
      walkPdpt load va d.frame { user := d.user, wr := d.writable, nx := d.noExecute, g := false } := by
  have hsmall : ¬e &&& UserVm.ptePs ≠ 0 := fun hlarge => by
    rw [(and_ptePs_iff h).mp hlarge] at hlink
    cases hlink
  have haddr : e &&& UserVm.pteAddr = d.frame := h.addr
  rw [walkVa, if_neg (not_not.mpr hroot)]
  simp only [hload]
  rw [if_neg (and_pteP_of_encodes h), if_neg hsmall, of_encodes h, haddr]

theorem walkPdpt_link (hframe : validateFrame frame = true) (h : Encodes e d)
    (hload : load (frame + 8 * UserVm.pdptIndex va) = e) (hlink : d.large = false) :
    walkPdpt load va frame r = walkPd load va d.frame (r.through d) := by
  have hsmall : ¬e &&& UserVm.ptePs ≠ 0 := fun hlarge => by
    rw [(and_ptePs_iff h).mp hlarge] at hlink
    cases hlink
  have haddr : e &&& UserVm.pteAddr = d.frame := h.addr
  rw [walkPdpt, if_neg (not_not.mpr hframe)]
  simp only [hload]
  rw [if_neg (and_pteP_of_encodes h), if_neg hsmall, meet_encodes h, haddr]

theorem walkPd_link (hframe : validateFrame frame = true) (h : Encodes e d)
    (hload : load (frame + 8 * UserVm.pdIndex va) = e) (hlink : d.large = false) :
    walkPd load va frame r = walkPt load va d.frame (r.through d) := by
  have hsmall : ¬e &&& UserVm.ptePs ≠ 0 := fun hlarge => by
    rw [(and_ptePs_iff h).mp hlarge] at hlink
    cases hlink
  have haddr : e &&& UserVm.pteAddr = d.frame := h.addr
  rw [walkPd, if_neg (not_not.mpr hframe)]
  simp only [hload]
  rw [if_neg (and_pteP_of_encodes h), if_neg hsmall, meet_encodes h, haddr]

/-- A large page, whose frame is a multiple of its size. -/
theorem walkPd_large (hframe : validateFrame frame = true) (h : Encodes e d)
    (hload : load (frame + 8 * UserVm.pdIndex va) = e) (hlarge : d.large = true) (haligned : d.frame % 2 ^ 21 = 0)
    (hbound : d.frame < 2 ^ 52) : walkPd load va frame r = (r.through d).leaf true d.frame e := by
  have haddr : e &&& 0x000FFFFFFFE00000 = d.frame := by
    have hmask : 0x000FFFFFFFE00000 = Paging.addrMask &&& 0x000FFFFFFFE00000 := by decide
    have haddr : e &&& Paging.addrMask = d.frame := h.addr
    rw [hmask, ← Nat.and_assoc, haddr]
    exact Paging.and_field (k := 21) (w := 31) haligned hbound
  rw [walkPd, if_neg (not_not.mpr hframe)]
  simp only [hload]
  rw [if_neg (and_pteP_of_encodes h), if_pos ((and_ptePs_iff h).mpr hlarge), meet_encodes h, haddr]

theorem walkPt_page (hframe : validateFrame frame = true) (h : Encodes e d)
    (hload : load (frame + 8 * UserVm.ptIndex va) = e) :
    walkPt load va frame r =
      { (r.through d).leaf false d.frame e with ptPhys := frame, ptIndex := UserVm.ptIndex va } := by
  have haddr : e &&& UserVm.pteAddr = d.frame := h.addr
  rw [walkPt, if_neg (not_not.mpr hframe)]
  simp only [hload]
  rw [if_neg (and_pteP_of_encodes h), meet_encodes h, haddr]

/-! ### Entries that are not there -/

theorem and_pteP_of_absent (h : e.testBit Paging.presentBit = false) : e &&& UserVm.pteP = 0 := Paging.and_bit_eq_zero.mpr h

theorem walkVa_absent (hload : load (frame + 8 * UserVm.pml4Index va) = e) (h : e.testBit Paging.presentBit = false) :
    walkVa load va frame = {} := by
  rw [walkVa]
  simp only [hload]
  rw [if_pos (and_pteP_of_absent h), ite_self]

theorem walkPdpt_absent (hload : load (frame + 8 * UserVm.pdptIndex va) = e) (h : e.testBit Paging.presentBit = false) :
    walkPdpt load va frame r = {} := by
  rw [walkPdpt]
  simp only [hload]
  rw [if_pos (and_pteP_of_absent h), ite_self]

theorem walkPd_absent (hload : load (frame + 8 * UserVm.pdIndex va) = e) (h : e.testBit Paging.presentBit = false) :
    walkPd load va frame r = {} := by
  rw [walkPd]
  simp only [hload]
  rw [if_pos (and_pteP_of_absent h), ite_self]

theorem walkPt_absent (hload : load (frame + 8 * UserVm.ptIndex va) = e) (h : e.testBit Paging.presentBit = false) :
    (walkPt load va frame r).present = false := by
  rw [walkPt]
  simp only [hload]
  rw [if_pos (and_pteP_of_absent h)]
  split_ifs <;> rfl

/-- Rights without user code lead to no page that user code sees. -/
theorem walkPt_user (h : r.user = false) : (walkPt load va frame r).u = false := by
  rw [walkPt]
  simp only
  split_ifs <;> simp [Rights.leaf, Rights.meet, h]

theorem walkPd_user (h : r.user = false) : (walkPd load va frame r).u = false := by
  have hmeet (e : Nat) : (r.meet e).user = false := by
    rw [Rights.meet, h]
    rfl
  rw [walkPd]
  simp only
  split_ifs <;> first | rfl | exact hmeet _ | exact walkPt_user (hmeet _)

end Levels

/-! ### `leafPte` -/

section LeafPte

variable {load : Nat → Nat} {va cr3 root table e : Nat} {d : Paging.Entry} {r : Rights}

theorem leafPt_eq : leafPt load va table =
    if load (table + 8 * UserVm.ptIndex va) &&& UserVm.pteP = 0 then none else some (load (table + 8 * UserVm.ptIndex va)) := by
  rw [leafPt, Nat.mul_comm]
  rfl

theorem leafPd_eq : leafPd load va table =
    if load (table + 8 * UserVm.pdIndex va) &&& UserVm.pteP = 0 then none
    else if load (table + 8 * UserVm.pdIndex va) &&& UserVm.ptePs ≠ 0 then some (load (table + 8 * UserVm.pdIndex va))
    else leafPt load va (load (table + 8 * UserVm.pdIndex va) &&& UserVm.pteAddr) := by
  rw [leafPd, Nat.mul_comm]
  rfl

theorem leafPdpt_eq : leafPdpt load va table =
    if load (table + 8 * UserVm.pdptIndex va) &&& UserVm.pteP = 0 then none
    else if load (table + 8 * UserVm.pdptIndex va) &&& UserVm.ptePs ≠ 0 then some (load (table + 8 * UserVm.pdptIndex va))
    else leafPd load va (load (table + 8 * UserVm.pdptIndex va) &&& UserVm.pteAddr) := by
  rw [leafPdpt, Nat.mul_comm]
  rfl

theorem leafPte_eq (hcr3 : cr3 &&& UserVm.pteAddr = root) : leafPte load va cr3 =
    if load (root + 8 * UserVm.pml4Index va) &&& UserVm.pteP = 0 then none
    else leafPdpt load va (load (root + 8 * UserVm.pml4Index va) &&& UserVm.pteAddr) := by
  rw [leafPte, Nat.mul_comm, hcr3]
  rfl

theorem leafPt_of_present (h : (walkPt load va table r).present = true) :
    leafPt load va table = some (walkPt load va table r).raw := by
  rw [leafPt_eq]
  revert h
  rw [walkPt]
  simp only
  split_ifs <;> first | exact fun _ => rfl | exact fun h => by cases h

theorem leafPd_of_present (h : (walkPd load va table r).present = true) :
    leafPd load va table = some (walkPd load va table r).raw := by
  rw [leafPd_eq]
  revert h
  rw [walkPd]
  simp only
  split_ifs <;> first | exact fun _ => rfl | exact leafPt_of_present | exact fun h => by cases h

theorem leafPdpt_of_present (h : (walkPdpt load va table r).present = true) :
    leafPdpt load va table = some (walkPdpt load va table r).raw := by
  rw [leafPdpt_eq]
  revert h
  rw [walkPdpt]
  simp only
  split_ifs <;> first | exact fun _ => rfl | exact leafPd_of_present | exact fun h => by cases h

/-- Where `walkVa` finds a page, `leafPte` finds its entry. -/
theorem leafPte_of_present (hcr3 : cr3 &&& UserVm.pteAddr = root)
    (hsmall : ¬load (root + 8 * UserVm.pml4Index va) &&& UserVm.ptePs ≠ 0) (h : (walkVa load va root).present = true) :
    leafPte load va cr3 = some (walkVa load va root).raw := by
  rw [leafPte_eq hcr3]
  revert h
  rw [walkVa]
  simp only
  split_ifs <;> first | exact leafPdpt_of_present | exact fun h => by cases h

theorem leafPd_absent (hload : load (table + 8 * UserVm.pdIndex va) = e) (h : e.testBit Paging.presentBit = false) :
    leafPd load va table = none := by
  rw [leafPd_eq, hload, if_pos (and_pteP_of_absent h)]

theorem leafPdpt_absent (hload : load (table + 8 * UserVm.pdptIndex va) = e) (h : e.testBit Paging.presentBit = false) :
    leafPdpt load va table = none := by
  rw [leafPdpt_eq, hload, if_pos (and_pteP_of_absent h)]

theorem leafPdpt_link (h : Encodes e d) (hload : load (table + 8 * UserVm.pdptIndex va) = e) (hlink : d.large = false) :
    leafPdpt load va table = leafPd load va d.frame := by
  have haddr : e &&& UserVm.pteAddr = d.frame := h.addr
  have hsmall : ¬e &&& UserVm.ptePs ≠ 0 := fun hlarge => by
    rw [(and_ptePs_iff h).mp hlarge] at hlink
    cases hlink
  rw [leafPdpt_eq, hload, if_neg (and_pteP_of_encodes h), if_neg hsmall, haddr]

theorem leafPte_absent (hcr3 : cr3 &&& UserVm.pteAddr = root) (hload : load (root + 8 * UserVm.pml4Index va) = e)
    (h : e.testBit Paging.presentBit = false) : leafPte load va cr3 = none := by
  rw [leafPte_eq hcr3, hload, if_pos (and_pteP_of_absent h)]

theorem leafPte_link (hcr3 : cr3 &&& UserVm.pteAddr = root) (h : Encodes e d)
    (hload : load (root + 8 * UserVm.pml4Index va) = e) : leafPte load va cr3 = leafPdpt load va d.frame := by
  have haddr : e &&& UserVm.pteAddr = d.frame := h.addr
  rw [leafPte_eq hcr3, hload, if_neg (and_pteP_of_encodes h), haddr]

end LeafPte

end VmProbe

end Native
