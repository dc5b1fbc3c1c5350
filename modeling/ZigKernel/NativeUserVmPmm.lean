import ZigKernel.NativePmm
import ZigKernel.NativeUserVm

/-! `src/arch/x86_64/native/user_vm_pmm.zig`: the provider over the page allocator. The world behind it
is the allocator, the adapter and physical memory, in which a page is reached at its own address. -/

namespace Native

open Zig

namespace UserVmPmm

open UserVm (Page AllocError AccessError Provider)

structure Adapter where
  owned : List Nat := []
  count : Nat := 0
  deriving DecidableEq, Repr

namespace Adapter

def init (storage : List Nat) : Adapter := { owned := storage, count := 0 }

/-- `owned[0..count]` -/
def live (a : Adapter) : List Nat := a.owned.take a.count

def owns (a : Adapter) (phys : Nat) : Bool := a.live.contains phys

def indexOf (a : Adapter) (phys : Nat) : Option Nat := a.live.idxOf? phys

/-- `owned[count] = phys; count += 1` -/
def push (a : Adapter) (phys : Nat) : Adapter :=
  { a with owned := a.owned.set a.count phys, count := a.count + 1 }

/-- `owned[idx] = owned[last]; count = last` -/
def swapRemove (a : Adapter) (idx : Nat) : Adapter :=
  { a with owned := a.owned.set idx (a.owned.getD (a.count - 1) 0), count := a.count - 1 }

end Adapter

/-- How the adapter is built: for the machine itself or for a host, and the hosted tests' resolver. -/
structure Build where
  freestanding : Bool
  resolver : Option (Nat → Except AccessError Nat)

/-- The kernel's build. -/
def native : Build := { freestanding := true, resolver := none }

/-- `returned` is no part of the program: it records what the allocator took back, each page with the bytes
it held at that moment. -/
structure Host where
  pmm : Pmm
  adapter : Adapter
  memory : Nat → Page
  returned : List (Nat × Page) := []

namespace Host

/-- `pmm.freePage` -/
def pmmFree (h : Host) (phys : Nat) : Bool × Host :=
  match h.pmm.freePage phys with
  | (true, pmm) => (true, { h with pmm, returned := h.returned ++ [(phys, h.memory phys)] })
  | (false, pmm) => (false, { h with pmm })

def own (h : Host) (phys : Nat) : Host := { h with adapter := h.adapter.push phys }

def allocPage (h : Host) : Except AllocError Nat × Host :=
  if h.adapter.count ≥ h.adapter.owned.length then (.error .outOfMemory, h)
  else
    match h.pmm.allocPage with
    | (none, pmm) => (.error .outOfMemory, { h with pmm })
    | (some p, pmm) =>
        let h := { h with pmm }
        if p = 0 then
          match h.pmmFree 0 with
          | (true, h) => (.error .physicalZero, h)
          | (false, h) => (.ok 0, h.own 0)
        else if p % page ≠ 0 then (.error .frameUnaligned, (h.pmmFree p).2)
        else if ¬Pmm.inManagedDomain p then (.error .frameOutOfDomain, (h.pmmFree p).2)
        else if ¬h.pmm.isAllocatable p then (.error .reservedFrame, (h.pmmFree p).2)
        else if h.adapter.owns p then (.error .duplicateFrame, h)
        else (.ok p, h.own p)

def pageBytes (build : Build) (phys : Nat) (h : Host) : Except AccessError Nat :=
  if phys = 0 then .error .physicalZero
  else if phys % page ≠ 0 then .error .frameUnaligned
  else if ¬Pmm.inManagedDomain phys then .error .frameOutOfDomain
  else if ¬h.adapter.owns phys then .error .notOwnedFrame
  else
    match build.resolver with
    | some resolver => resolver phys
    | none => if ¬build.freestanding then .error .pageAccess else .ok phys

def freePage (phys : Nat) (h : Host) : Bool × Host :=
  match h.adapter.indexOf phys with
  | none => (false, h)
  | some idx =>
      match h.pmmFree phys with
      | (false, h) => (false, h)
      | (true, h) => (true, { h with adapter := h.adapter.swapRemove idx })

end Host

/-- The adapter as a provider of user spaces. -/
def provider (build : Build) : Provider Host where
  allocPage := Host.allocPage
  pageBytes phys h := (h.pageBytes build phys, h)
  freePage := Host.freePage
  load ptr h := h.memory ptr
  store ptr bytes h := { h with memory := fun p => if p = ptr then bytes else h.memory p }

end UserVmPmm

end Native
