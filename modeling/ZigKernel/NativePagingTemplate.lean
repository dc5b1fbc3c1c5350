import ZigKernel.NativePagingSound

/-! The template that the kernel hands to a user space: what `kernelTemplate` returns once the tables are built, and that
the construction of a space accepts it. -/

namespace Native

open Zig

namespace KernelPaging

open Paging (Encodes)

/-- The template of `user_vm` that the probe makes of the kernel's. -/
def KernelTemplate.toUser (t : KernelTemplate) : UserVm.KernelTemplate where
  rootPhys := Fin.ofNat _ t.rootPhys
  pdpt0Entry := Fin.ofNat _ t.pdpt0Entry

section Template

variable {phys : Phys} {kernelBase e : Nat} {ro nx : Nat → Prop} {m : Machine} {t : Table} {d : Paging.Entry}

/-- What both halves of `kernelTemplate` ask of an entry. -/
structure Linked (phys : Phys) (t : Table) (e : Nat) : Prop where
  present : ¬e &&& present = 0
  user : ¬e &&& user ≠ 0
  huge : ¬e &&& hugeBit ≠ 0
  addr : e &&& addrMask = phys t

theorem linked_of_encodes (h : Encodes e (entry (phys t) false true false)) : Linked phys t e where
  present := Paging.and_bit_ne_zero.mpr h.present
  user := not_not.mpr (Paging.and_bit_eq_zero.mpr h.user)
  huge := not_not.mpr (Paging.and_bit_eq_zero.mpr h.large)
  addr := h.addr

theorem kernelTemplate_run (hp : Placed phys) (h : Maps phys kernelBase ro nx m) :
    kernelTemplate phys m = .ok { rootPhys := phys .pml4, pdpt0Entry := m.tables .pdpt 0 } := by
  have hroot := linked_of_encodes h.root
  have hsecond := linked_of_encodes h.second
  have hlow (t : Table) : ¬phys t ≥ mapTop := Nat.not_le.mpr (hp.low t)
  unfold kernelTemplate
  simp only [hroot.addr]
  rw [if_neg hroot.present, if_neg hroot.user, if_neg hroot.huge, if_neg (hp.pos _), if_neg (not_not.mpr (hp.aligned _)),
    if_neg (hlow _), if_neg (not_not.mpr rfl)]
  unfold pdptTemplate
  simp only [hsecond.addr]
  rw [if_neg hsecond.present, if_neg hsecond.user, if_neg hsecond.huge, if_neg (hp.pos _), if_neg (not_not.mpr (hp.aligned _)),
    if_neg (hlow _), if_neg (not_not.mpr rfl)]

/-- The entry in 64 bits says the same. -/
theorem encodes_u64 (h : Encodes e d) : Encodes (Fin.ofNat u64Bound e).val d := by
  refine h.congr fun i hi => ?_
  have hlt : i < 64 := by
    have hbits : Paging.presentBit < 64 ∧ Paging.writableBit < 64 ∧ Paging.userBit < 64 ∧ Paging.largeBit < 64 ∧
        Paging.globalBit < 64 ∧ Paging.noExecuteBit < 64 := by decide
    rcases hi with rfl | rfl | rfl | rfl | rfl | rfl | hi
    · exact hbits.1
    · exact hbits.2.1
    · exact hbits.2.2.1
    · exact hbits.2.2.2.1
    · exact hbits.2.2.2.2.1
    · exact hbits.2.2.2.2.2
    · omega
  have hmod : (Fin.ofNat u64Bound e).val = e % 2 ^ 64 := rfl
  rw [hmod, Nat.testBit_mod_two_pow, decide_eq_true hlt, Bool.true_and]

theorem toUser_root (hp : Placed phys) {template : KernelTemplate} (h : template.rootPhys = phys .pml4) :
    template.toUser.rootPhys.val = phys .pml4 := by
  show template.rootPhys % u64Bound = phys .pml4
  rw [h]
  exact Nat.mod_eq_of_lt (Nat.lt_trans (hp.low .pml4) (by decide))

theorem toUser_borrowedPd {template : KernelTemplate} (h : Encodes template.pdpt0Entry (entry (phys .pd) false true false)) :
    template.toUser.borrowedPd = phys .pd := (encodes_u64 h).addr

theorem toUser_accepted (hp : Placed phys) {template : KernelTemplate} (hroot : template.rootPhys = phys .pml4)
    (hentry : Encodes template.pdpt0Entry (entry (phys .pd) false true false)) :
    UserVm.validateTemplate template.toUser = .ok () := by
  have hlinked := encodes_u64 hentry
  have hlow (t : Table) : ¬phys t ≥ UserVm.physTop := Nat.not_le.mpr (hp.low t)
  have haligned (t : Table) : ¬phys t % UserVm.page ≠ 0 := not_not.mpr (hp.aligned t)
  have hpresent : ¬template.toUser.pdpt0Entry.val &&& UserVm.pteP = 0 := VmProbe.and_pteP_of_encodes hlinked
  have huser : ¬template.toUser.pdpt0Entry.val &&& UserVm.pteU ≠ 0 := not_not.mpr (Paging.and_bit_eq_zero.mpr hlinked.user)
  have hsmall : ¬template.toUser.pdpt0Entry.val &&& UserVm.ptePs ≠ 0 := not_not.mpr (Paging.and_bit_eq_zero.mpr hlinked.large)
  unfold UserVm.validateTemplate
  simp only [toUser_root hp hroot, toUser_borrowedPd hentry]
  rw [if_neg (hp.pos _), if_neg (haligned _), if_neg (hlow _), if_neg hpresent, if_neg huser, if_neg hsmall,
    if_neg (hp.pos _), if_neg (haligned _), if_neg (hlow _), if_neg (hp.apart _ _ (by decide))]

end Template

/-- From `init` on, and not before it, the kernel has a template, and it is one that a user space can be built from. -/
theorem template_accepted {phys : Phys} {kernelBase : Nat} {m₀ m m' : Machine} {trace : List Event} (hp : Placed phys)
    (haligned : kernelBase % huge = 0) (hzero : ∀ t i, m₀.tables t i = 0) (hinit : init phys kernelBase m₀ = .ok m)
    (hrun : Run kernelBase m trace m') :
    kernelTemplate phys m₀ = .error .notInitialized ∧
      ∃ template, kernelTemplate phys m' = .ok template ∧ UserVm.validateTemplate template.toUser = .ok () ∧
        template.toUser.rootPhys.val = m'.cr3 ∧ template.toUser.borrowedPd = phys .pd := by
  have h := maps_along hp haligned hzero hinit hrun
  refine ⟨?_, _, kernelTemplate_run hp h, toUser_accepted hp rfl h.second, ?_, toUser_borrowedPd h.second⟩
  · have hnone : m₀.tables .pml4 0 &&& present = 0 := by
      rw [hzero]
      exact Nat.zero_and _
    rw [kernelTemplate]
    exact if_pos hnone
  · rw [h.cr3]
    exact toUser_root hp rfl

theorem template_accepted_sample : ∃ m, init samplePhys 0x200000 {} = .ok m ∧
    kernelTemplate samplePhys {} = .error .notInitialized ∧
    ∃ template, kernelTemplate samplePhys m = .ok template ∧ UserVm.validateTemplate template.toUser = .ok () := by
  obtain ⟨m, hinit⟩ : ∃ m, init samplePhys 0x200000 {} = .ok m := ⟨_, init_run (by decide)⟩
  obtain ⟨hbefore, template, hrun, haccepted, -⟩ :=
    template_accepted samplePhys_placed (show 0x200000 % huge = 0 by decide) (fun _ _ => rfl) hinit .refl
  exact ⟨m, hinit, hbefore, template, hrun, haccepted⟩

end KernelPaging

end Native
