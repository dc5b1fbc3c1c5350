import ZigKernel.BootPages
import ZigKernel.NativeIsolation

/-! From the firmware's map to a user space: whatever was allocated before, a program in its space sees spare pages of the
machine and nothing of the kernel, the initramfs, the stack, the structure or the firmware's own memory. -/

namespace Boot

open Zig Native
open Native.UserVmPmm (fresh native provider)

section UserSpace

variable {p : Placement} {map : MemoryMapSlice} {stale : Nat → Range} {n : Nat} {info : BootInfo} {s₀ s pmm : Pmm}
  {calls : List Pmm.Call} {phys : KernelPaging.Phys} {m₀ m₁ m₂ m₃ : KernelPaging.Machine}
  {trace trace' : List KernelPaging.Event} {template : KernelPaging.KernelTemplate} {file : List UInt8}
  {storage frames : List Nat} {memory : Nat → UserVm.Page} {built : UserVm.Machine UserVmPmm.Host}

/-- The arrays lie in the image of the kernel. -/
def InImage (p : Placement) (phys : KernelPaging.Phys) : Prop :=
  ∀ t, kernelBase ≤ phys t ∧ phys t + 4096 ≤ kernelBase + p.kpages.val * 4096

theorem spare_of_published (h : p.Fits (map.descriptors.map toDesc)) (hfew : map.descriptors.length ≤ maxFirmwareDescs)
    (hsize : map.descriptorSize.val < u32Bound)
    (hpublish : publishBootInfo p map (p.owned biPages) biPages stale = .ok (n, info)) (f : Nat) :
    Pmm.Frame info f ↔ Spare (map.descriptors.map toDesc) (p.owned biPages) f := by
  obtain ⟨n', info', hpublish', -, hranges⟩ := publish_returns h hfew hsize stale
  rw [hpublish] at hpublish'
  cases hpublish'
  exact frame_iff h hranges f

/-- No array of the kernel is a spare page. -/
theorem not_spare_of_inImage (himage : InImage p phys) (t : KernelPaging.Table) {descs : List Memmap.Desc} :
    ¬Spare descs (p.owned biPages) (phys t) := by
  intro hspare
  obtain ⟨hlo, hhi⟩ := himage t
  have howned : ({ base := kernelBase, size := p.kpages.val * 4096, kind := .kernel } : Memmap.Span) ∈ p.owned biPages :=
    List.mem_cons_self
  refine hspare.unowned _ howned (phys t) (Nat.le_refl _) (by omega) ⟨hlo, ?_⟩
  show phys t < kernelBase + p.kpages.val * 4096
  omega

/-- In a user space the first GiB is the kernel's, and user code reaches spare pages only; no other page of the machine was
written to build it. -/
theorem user_isolation (h : p.Fits (map.descriptors.map toDesc)) (hfew : map.descriptors.length ≤ maxFirmwareDescs)
    (hsize : map.descriptorSize.val < u32Bound)
    (hpublish : publishBootInfo p map (p.owned biPages) biPages stale = .ok (n, info))
    (hinit : Pmm.init info s₀ = (.ok (), s)) (hrun : Pmm.Run s calls pmm) (hp : KernelPaging.Placed phys)
    (himage : InImage p phys) (hzero : ∀ t i, m₀.tables t i = 0) (hkernel : KernelPaging.init phys kernelBase m₀ = .ok m₁)
    (hbefore : KernelPaging.Run kernelBase m₁ trace m₂) (htemplate : KernelPaging.kernelTemplate phys m₂ = .ok template)
    (hbuilt : UserVm.construct (provider native) file template.toUser (fresh pmm storage frames memory) = (.ok (), built))
    (hafter : KernelPaging.Run kernelBase m₂ trace' m₃) :
    let load := m₃.load phys built.world.word
    let spare := Spare (map.descriptors.map toDesc) (p.owned biPages)
    (∀ va < 2 ^ 30, VmProbe.walkVa load va built.space.rootPhys = VmProbe.walkVa load va m₃.cr3) ∧
      (∀ va < 2 ^ 48, let w := VmProbe.walkVa load va built.space.rootPhys
        w.present = true → w.u = true → w.huge = false ∧ spare w.phys) ∧
      ∀ f, ¬spare f → built.world.memory f = memory f := by
  have hspare := spare_of_published h hfew hsize hpublish
  have harrays (t : KernelPaging.Table) : ¬Pmm.Frame info (phys t) := fun hframe =>
    not_spare_of_inImage himage t ((hspare _).mp hframe)
  obtain ⟨hroot, hentry, ro, nx, hk⟩ :=
    UserVmPmm.template_run hp (show kernelBase % KernelPaging.huge = 0 by decide) hzero hkernel hbefore htemplate hafter
  obtain ⟨plan, L, -, hstanding⟩ := UserVmPmm.standing_of_construct hinit hrun hp harrays hroot hentry.addr hbuilt m₃
  refine ⟨fun va hva => (hstanding.walk_kernel hp hk hentry hva).1, fun va hva => ?_,
    fun f hf => hstanding.kept f fun hframe => hf ((hspare f).mp hframe)⟩
  intro w hpresent huser
  rcases Nat.lt_or_ge va (2 ^ 30) with hlow | hhigh
  · have hkernel := (hstanding.walk_kernel hp hk hentry hlow).2
    rw [hkernel] at huser
    cases huser
  · have hmapped := hstanding.mapped_of_present hva hhigh hpresent
    obtain ⟨node, hnode, -, hsmall, hphys⟩ := hstanding.walk_mapped hmapped
    refine ⟨hsmall, ?_⟩
    rw [hphys]
    exact (hspare _).mp (hstanding.frames _ (hstanding.live _ node hnode))

end UserSpace

/-! ### A machine -/

/-- The image of the kernel with its arrays, and what else the loader allocates, one after the other. -/
def packed : Placement :=
  { info := 0x226000, kpages := 20, kentry := 0x200100, ibase := 0x214000, ipages := 2, initrdLen := 0x1800, stackBase := 0x216000 }

def packedMap : MemoryMapSlice :=
  { descriptors := [{ type := .conventionalMemory, physicalStart := 0x200000, numberOfPages := 0x80 }]
    descriptorSize := 48, descriptorVersion := 1 }

/-- Allocations one after the other in one descriptor fit. -/
theorem fits_of_one {p : Placement} {d : Memmap.Desc} (hstart : Memmap.page ∣ d.start) (hstop : d.stop < u64Bound)
    (haligned : ∀ o ∈ p.owned biPages, Memmap.page ∣ o.base)
    (hsorted : (p.owned biPages).Pairwise fun o o' => o.stop ≤ o'.base)
    (hinside : ∀ o ∈ p.owned biPages, d.start ≤ o.base ∧ o.stop ≤ d.stop)
    (hentry : kernelBase ≤ p.kentry.val ∧ p.kentry.val < kernelBase + p.kpages.val * 4096)
    (hlength : 1 ≤ p.initrdLen.val ∧ p.initrdLen.val ≤ p.ipages.val * 4096) : p.Fits [d] where
  aligned := List.forall_mem_singleton.mpr ⟨hstart, hstop⟩
  disjoint := List.pairwise_singleton _ _
  owned_aligned := haligned
  owned_disjoint := hsorted.imp fun hle n hn => by
    obtain ⟨⟨-, hstop⟩, ⟨hbase, -⟩⟩ := hn
    have hpage : Memmap.page = 4096 := rfl
    rw [hpage] at hstop hbase
    omega
  contained o ho n hn := ⟨d, List.mem_cons_self, Nat.le_trans (hinside o ho).1 hn.1, Nat.le_trans hn.2 (hinside o ho).2⟩
  kentry := hentry
  initrdLen := hlength

theorem packed_fits : packed.Fits (packedMap.descriptors.map toDesc) := by
  have hdescs : packedMap.descriptors.map toDesc = [{ start := 0x200000, pages := 0x80, kind := .conventional }] := by decide
  rw [hdescs]
  exact fits_of_one (by decide) (by decide) (by decide) (by decide) (by decide) (by decide) (by decide)

/-- What the loader publishes there. -/
def packedInfo : BootInfo :=
  match publishBootInfo packed packedMap (packed.owned biPages) biPages (fun _ => ⟨0, 0, .reserved⟩) with
  | .ok (_, info) => info
  | _ => UserVmPmm.wideMap

theorem user_isolation_sample :
    ∃ n m template built,
      publishBootInfo packed packedMap (packed.owned biPages) biPages (fun _ => ⟨0, 0, .reserved⟩) = .ok (n, packedInfo) ∧
      (Pmm.init packedInfo {}).1 = .ok () ∧ KernelPaging.init KernelPaging.samplePhys kernelBase {} = .ok m ∧
      KernelPaging.kernelTemplate KernelPaging.samplePhys m = .ok template ∧
      UserVm.construct (provider native) UserElf.sampleImage template.toUser (UserVmPmm.booted packedInfo) = (.ok (), built) ∧
      ∀ f, ¬Spare (packedMap.descriptors.map toDesc) (packed.owned biPages) f →
        built.world.memory f = fun _ => 0xa5 := by
  have hok : (Pmm.init packedInfo {}).1 = .ok () := by decide +kernel
  have hinit : Pmm.init packedInfo {} = (.ok (), (Pmm.init packedInfo {}).2) := Prod.ext hok rfl
  have hresult : (UserVm.construct (provider native) UserElf.sampleImage
      (KernelPaging.KernelTemplate.toUser { rootPhys := 0x210000, pdpt0Entry := 0x212003 }) (UserVmPmm.booted packedInfo)).1 =
      .ok () := by
    decide +kernel
  have hpair {x : Outcome UserVm.Error Unit × UserVm.Machine UserVmPmm.Host} (h : x.1 = .ok ()) : x = (.ok (), x.2) :=
    Prod.ext h rfl
  have hbuilt := hpair hresult
  obtain ⟨n, info, hpublish, -⟩ := publish_returns packed_fits (by decide) (by decide) fun _ => ⟨0, 0, .reserved⟩
  have hinfo : packedInfo = info := by
    rw [packedInfo, hpublish]
  rw [← hinfo] at hpublish
  obtain ⟨m, hkernel⟩ : ∃ m, KernelPaging.init KernelPaging.samplePhys kernelBase {} = .ok m :=
    ⟨_, KernelPaging.init_run (by decide)⟩
  have htemplate := UserVmPmm.sampleTemplate_run hkernel
  have himage : InImage packed KernelPaging.samplePhys := by
    intro t
    cases t <;> decide
  rw [UserVmPmm.booted] at hbuilt ⊢
  obtain ⟨-, -, hkept⟩ := user_isolation packed_fits (by decide) (by decide) hpublish hinit Runs.Run.refl
    KernelPaging.samplePhys_placed himage (fun _ _ => rfl) hkernel .refl htemplate hbuilt .refl
  exact ⟨n, m, _, _, hpublish, hok, hkernel, htemplate, hbuilt, hkept⟩

end Boot
