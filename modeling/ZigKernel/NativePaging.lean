import ZigKernel.LangInt
import Mathlib.Logic.Function.Basic

/-! `src/arch/x86_64/native/paging.zig`: the tables of the kernel, and the registers that `init` loads. `invlpg` has no
effect on them. -/

namespace Native

open Zig

namespace KernelPaging

def mapTop : Nat := 256 * 1024 * 1024
def huge : Nat := 2 * 1024 * 1024
def page : Nat := 4096
def pfProbeAddr : Nat := mapTop + 16 * 1024 * 1024

def present : Nat := 1 <<< 0
def write : Nat := 1 <<< 1
def user : Nat := 1 <<< 2
def hugeBit : Nat := 1 <<< 7
def nx : Nat := 1 <<< 63
def addrMask : Nat := 0x000FFFFFFFFFF000
def adMask : Nat := 1 <<< 5 ||| 1 <<< 6

/-- The four arrays. -/
inductive Table where
  | pml4 | pdpt | pd | kernelPt
  deriving DecidableEq, Repr

/-- The physical address of an array. -/
abbrev Phys : Type := Table → Nat

structure Machine where
  tables : Table → Nat → Nat := fun _ _ => 0
  efer : Nat := 0
  cr3 : Nat := 0
  cr0 : Nat := 0

/-- `table[i] = e` -/
def Machine.set (m : Machine) (t : Table) (i e : Nat) : Machine :=
  { m with tables := Function.update m.tables t (Function.update (m.tables t) i e) }

/-- `table[i] = e i` for `i` from 0 on, `n` times. -/
def Machine.fill (m : Machine) (t : Table) (n : Nat) (e : Nat → Nat) : Machine :=
  (List.range n).foldl (fun m i => m.set t i (e i)) m

def enableNxe (m : Machine) : Machine := { m with efer := m.efer ||| 1 <<< 11 }
def loadCr3 (table : Nat) (m : Machine) : Machine := { m with cr3 := table }
def enableWriteProtect (m : Machine) : Machine := { m with cr0 := m.cr0 ||| 0x10000 }

/-- `init`; the index of the kernel's block is checked. -/
def init (phys : Phys) (kernelBase : Nat) (m : Machine) : Outcome Empty Machine :=
  let m := m.set .pml4 0 (phys .pdpt ||| present ||| write)
  let m := m.set .pdpt 0 (phys .pd ||| present ||| write)
  let m := m.fill .pd (mapTop / huge) fun i => i * huge ||| present ||| write ||| hugeBit
  if kernelBase / huge ≥ 512 then .trap
  else
    let m := m.set .pd (kernelBase / huge) (phys .kernelPt ||| present ||| write)
    let m := m.fill .kernelPt 512 fun j => (kernelBase + j * page) ||| present ||| write
    .ok (enableWriteProtect (loadCr3 (phys .pml4) (enableNxe m)))

def inKernelBlock (paddr kernelBase : Nat) : Outcome Empty Bool :=
  if paddr ≥ kernelBase then do
    let stop ← addU64 kernelBase huge
    return paddr < stop
  else return false

/-- The two functions that flip a bit of a page in the kernel's block. -/
def flip (change : Nat → Nat) (paddr kernelBase : Nat) (m : Machine) : Outcome Empty Machine := do
  let inside ← inKernelBlock paddr kernelBase
  if ¬inside then return m
  else
    let idx := (paddr - kernelBase) / page
    return m.set .kernelPt idx (change (m.tables .kernelPt idx))

def setReadOnly (paddr kernelBase : Nat) (m : Machine) : Outcome Empty Machine := flip (· &&& notU64 write) paddr kernelBase m

def setNoExecute (paddr kernelBase : Nat) (m : Machine) : Outcome Empty Machine := flip (· ||| nx) paddr kernelBase m

def addrPerm (entry : Nat) : Nat := entry &&& notU64 adMask

structure KernelTemplate where
  rootPhys : Nat
  pdpt0Entry : Nat
  deriving DecidableEq, Repr

inductive TemplateError where
  | notInitialized | pml4User | pml4Huge | pml4Unaligned | pml4Zero | pml4OutOfDomain | pml4NotCurrent
  | pdpt0NotPresent | pdpt0User | pdpt0Huge | pdpt0Unaligned | pdpt0Zero | pdpt0OutOfDomain | pdpt0NotCurrent
  deriving DecidableEq, Repr

/-- `kernelTemplate` behind the checks of the root's entry. -/
def pdptTemplate (phys : Phys) (m : Machine) : Outcome TemplateError KernelTemplate :=
  let e3 := m.tables .pdpt 0
  if e3 &&& present = 0 then .error .pdpt0NotPresent
  else if e3 &&& user ≠ 0 then .error .pdpt0User
  else if e3 &&& hugeBit ≠ 0 then .error .pdpt0Huge
  else if e3 &&& addrMask = 0 then .error .pdpt0Zero
  else if (e3 &&& addrMask) % page ≠ 0 then .error .pdpt0Unaligned
  else if e3 &&& addrMask ≥ mapTop then .error .pdpt0OutOfDomain
  else if e3 &&& addrMask ≠ phys .pd then .error .pdpt0NotCurrent
  else .ok { rootPhys := phys .pml4, pdpt0Entry := e3 }

def kernelTemplate (phys : Phys) (m : Machine) : Outcome TemplateError KernelTemplate :=
  let e4 := m.tables .pml4 0
  if e4 &&& present = 0 then .error .notInitialized
  else if e4 &&& user ≠ 0 then .error .pml4User
  else if e4 &&& hugeBit ≠ 0 then .error .pml4Huge
  else if e4 &&& addrMask = 0 then .error .pml4Zero
  else if (e4 &&& addrMask) % page ≠ 0 then .error .pml4Unaligned
  else if e4 &&& addrMask ≥ mapTop then .error .pml4OutOfDomain
  else if e4 &&& addrMask ≠ phys .pdpt then .error .pml4NotCurrent
  else pdptTemplate phys m

/-! ### Calls -/

/-- What happens to the tables: the two calls, and the processor that marks an entry as accessed or dirty. -/
inductive Event where
  | setReadOnly (paddr : Nat)
  | setNoExecute (paddr : Nat)
  | marked (t : Table) (i : Nat) (dirty : Bool)
  deriving DecidableEq, Repr

inductive Step (kernelBase : Nat) (m : Machine) : Event → Machine → Prop where
  | setReadOnly {paddr : Nat} {m' : Machine} (h : setReadOnly paddr kernelBase m = .ok m') : Step kernelBase m (.setReadOnly paddr) m'
  | setNoExecute {paddr : Nat} {m' : Machine} (h : setNoExecute paddr kernelBase m = .ok m') :
      Step kernelBase m (.setNoExecute paddr) m'
  | marked (t : Table) (i : Nat) (dirty : Bool) (h : m.tables t i &&& present ≠ 0) :
      Step kernelBase m (.marked t i dirty) (m.set t i (m.tables t i ||| 1 <<< if dirty then 6 else 5))

/-- The word at a physical address; `other` is the memory outside the arrays. -/
def Machine.load (m : Machine) (phys : Phys) (other : Nat → Nat) (p : Nat) : Nat :=
  if phys .pml4 ≤ p ∧ p < phys .pml4 + page then m.tables .pml4 ((p - phys .pml4) / 8)
  else if phys .pdpt ≤ p ∧ p < phys .pdpt + page then m.tables .pdpt ((p - phys .pdpt) / 8)
  else if phys .pd ≤ p ∧ p < phys .pd + page then m.tables .pd ((p - phys .pd) / 8)
  else if phys .kernelPt ≤ p ∧ p < phys .kernelPt + page then m.tables .kernelPt ((p - phys .kernelPt) / 8)
  else other p

end KernelPaging

end Native
