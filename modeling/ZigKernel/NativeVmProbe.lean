import ZigKernel.NativeUserVm

/-! `src/native/vm_probe.zig` and `leafPte` of `src/native/main.zig`: the lookups in software that the kernel checks its
tables with. `load` is the 64-bit word at a physical address. -/

namespace Native

open Zig

namespace VmProbe

def physTop : Nat := 256 * 1024 * 1024

/-- `vm_cr3.validateFrame` -/
def validateFrame (phys : Nat) : Bool := phys ≠ 0 ∧ phys % UserVm.page = 0 ∧ phys < physTop

structure WalkResult where
  present : Bool := false
  huge : Bool := false
  phys : Nat := 0
  u : Bool := false
  w : Bool := false
  nx : Bool := false
  g : Bool := false
  raw : Nat := 0
  ptPhys : Nat := 0
  ptIndex : Nat := 0
  deriving DecidableEq, Repr

/-- The locals `user`, `wr`, `nx` and `g`. -/
structure Rights where
  user : Bool
  wr : Bool
  nx : Bool
  g : Bool
  deriving DecidableEq, Repr

/-- The rights in the entry of the root. -/
def Rights.of (e : Nat) : Rights where
  user := e &&& UserVm.pteU ≠ 0
  wr := e &&& UserVm.pteW ≠ 0
  nx := e &&& UserVm.pteNx ≠ 0
  g := e &&& UserVm.pteG ≠ 0

/-- The rights that are left behind an entry. -/
def Rights.meet (r : Rights) (e : Nat) : Rights where
  user := r.user && (e &&& UserVm.pteU ≠ 0)
  wr := r.wr && (e &&& UserVm.pteW ≠ 0)
  nx := r.nx || (e &&& UserVm.pteNx ≠ 0)
  g := r.g || (e &&& UserVm.pteG ≠ 0)

/-- A leaf. -/
def Rights.leaf (r : Rights) (huge : Bool) (phys raw : Nat) : WalkResult :=
  { present := true, huge, phys, u := r.user, w := r.wr, nx := r.nx, g := r.g, raw }

section Walk

variable (load : Nat → Nat) (va : Nat)

def walkPt (pt : Nat) (r : Rights) : WalkResult :=
  if ¬validateFrame pt then {}
  else
    let idx := UserVm.ptIndex va
    let e1 := load (pt + 8 * idx)
    if e1 &&& UserVm.pteP = 0 then { ptPhys := pt, ptIndex := idx, raw := e1 }
    else { (r.meet e1).leaf false (e1 &&& UserVm.pteAddr) e1 with ptPhys := pt, ptIndex := idx }

def walkPd (pd : Nat) (r : Rights) : WalkResult :=
  if ¬validateFrame pd then {}
  else
    let e2 := load (pd + 8 * UserVm.pdIndex va)
    if e2 &&& UserVm.pteP = 0 then {}
    else if e2 &&& UserVm.ptePs ≠ 0 then (r.meet e2).leaf true (e2 &&& 0x000FFFFFFFE00000) e2
    else walkPt load va (e2 &&& UserVm.pteAddr) (r.meet e2)

def walkPdpt (pdpt : Nat) (r : Rights) : WalkResult :=
  if ¬validateFrame pdpt then {}
  else
    let e3 := load (pdpt + 8 * UserVm.pdptIndex va)
    if e3 &&& UserVm.pteP = 0 then {}
    else if e3 &&& UserVm.ptePs ≠ 0 then (r.meet e3).leaf true (e3 &&& 0x000FFFFFC0000000) e3
    else walkPd load va (e3 &&& UserVm.pteAddr) (r.meet e3)

def walkVa (root : Nat) : WalkResult :=
  if ¬validateFrame root then {}
  else
    let e4 := load (root + 8 * UserVm.pml4Index va)
    if e4 &&& UserVm.pteP = 0 then {}
    else if e4 &&& UserVm.ptePs ≠ 0 then { present := true, huge := true, raw := e4 }
    else walkPdpt load va (e4 &&& UserVm.pteAddr) (Rights.of e4)

end Walk

def rxLeafOk (w : WalkResult) : Bool := w.present && !w.huge && w.u && !w.w && !w.nx && !w.g && validateFrame w.phys

def roLeafOk (w : WalkResult) : Bool := w.present && !w.huge && w.u && !w.w && w.nx && !w.g && validateFrame w.phys

def rwLeafOk (w : WalkResult) : Bool := w.present && !w.huge && w.u && w.w && w.nx && !w.g && validateFrame w.phys

section LeafPte

variable (load : Nat → Nat) (addr : Nat)

/-- `leafPte` at the page table. -/
def leafPt (pt : Nat) : Option Nat :=
  let pte := load (pt + ((addr >>> 12) &&& 0x1FF) * 8)
  if pte &&& 1 = 0 then none else some pte

/-- `leafPte` at the directory. -/
def leafPd (pd : Nat) : Option Nat :=
  let pde := load (pd + ((addr >>> 21) &&& 0x1FF) * 8)
  if pde &&& 1 = 0 then none
  else if pde &&& (1 <<< 7) ≠ 0 then some pde
  else leafPt load addr (pde &&& UserVm.pteAddr)

/-- `leafPte` at the second table. -/
def leafPdpt (pdpt : Nat) : Option Nat :=
  let pdpte := load (pdpt + ((addr >>> 30) &&& 0x1FF) * 8)
  if pdpte &&& 1 = 0 then none
  else if pdpte &&& (1 <<< 7) ≠ 0 then some pdpte
  else leafPd load addr (pdpte &&& UserVm.pteAddr)

/-- `leafPte` of `main.zig`, with the root that CR3 holds. -/
def leafPte (cr3 : Nat) : Option Nat :=
  let pml4e := load ((cr3 &&& UserVm.pteAddr) + ((addr >>> 39) &&& 0x1FF) * 8)
  if pml4e &&& 1 = 0 then none else leafPdpt load addr (pml4e &&& UserVm.pteAddr)

end LeafPte

end VmProbe

end Native
