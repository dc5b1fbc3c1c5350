import ZigKernel.LangSigned
import ZigKernel.SupervisorSession

/-! `supervisor/workspace.zig`: the canonical workspace-relative path of a client path, the check of a link target, and
the byte quota of a workspace. -/

namespace Supervisor

open Zig

namespace Workspace

def maxPath : Nat := 4096

/-- `PREFIX`, the bytes of `/workspace`. -/
def pathPrefix : Bytes :=
  ['/', 'w', 'o', 'r', 'k', 's', 'p', 'a', 'c', 'e'].map fun c => UInt8.ofNat c.toNat

def slash : UInt8 := UInt8.ofNat '/'.toNat
def dot : Bytes := [UInt8.ofNat '.'.toNat]
def dotdot : Bytes := [UInt8.ofNat '.'.toNat, UInt8.ofNat '.'.toNat]

/-- `parts.len` -/
def maxParts : Nat := 128

/-- The segment loop of `resolve`; `parts` is `parts[0..depth]`. -/
def resolveParts : List Bytes → List Bytes → Outcome Error (List Bytes)
  | [], parts => .ok parts
  | p :: rest, parts =>
      if p.length = 0 ∨ p = dot then resolveParts rest parts
      else if p = dotdot then
        if parts.length = 0 then .error .escape else resolveParts rest parts.dropLast
      else if parts.length ≥ maxParts then .error .badPath
      else resolveParts rest (parts ++ [p])

/-- The output loop of `resolve`; `written` is `out[0..n]`. -/
def joinParts (outLen : Nat) : List Bytes → Bytes → Outcome Error Bytes
  | [], written => .ok written
  | p :: rest, written =>
      if written.length ≠ 0 ∧ written.length ≥ outLen then .error .badPath
      else
        let separated := if written.length ≠ 0 then written ++ [slash] else written
        if separated.length + p.length > outLen then .error .badPath
        else joinParts outLen rest (separated ++ p)

/-- Resolves a client path against an output buffer of `outLen` bytes. -/
def resolve (req : Bytes) (outLen : Nat) : Outcome Error Bytes :=
  if req.length = 0 ∨ req.length > maxPath then .error .badPath
  else if req.contains 0 then .error .badPath
  else if ¬pathPrefix.isPrefixOf req then .error .badPath
  else
    let rest := req.drop pathPrefix.length
    if rest.length ≠ 0 ∧ rest.head? ≠ some slash then .error .badPath
    else do
      let parts ← resolveParts (rest.splitOn slash) []
      if parts.length = 0 then .error .badPath else joinParts outLen parts []

/-- The segment loop of `checkLinkTarget`; `depth` is an `isize`. -/
def linkDepth : List Bytes → Int → Outcome Error Unit
  | [], _ => .ok ()
  | p :: rest, depth =>
      if p.length = 0 ∨ p = dot then linkDepth rest depth
      else if p = dotdot then do
        let depth ← subI64 depth 1
        if depth < 0 then .error .escape else linkDepth rest depth
      else do
        let depth ← addI64 depth 1
        linkDepth rest depth

def checkLinkTarget (target : Bytes) : Outcome Error Unit :=
  if target.length = 0 ∨ target.length > maxPath then .error .badPath
  else if target.contains 0 then .error .badPath
  else if [slash].isPrefixOf target then
    -- an absolute target is looked at up to the end of the prefix only
    if ¬(pathPrefix ++ [slash]).isPrefixOf target ∧ target ≠ pathPrefix then .error .escape else .ok ()
  else linkDepth (target.splitOn slash) 0

end Workspace

structure Workspace where
  capBytes : Nat
  usedBytes : Nat := 0
  deriving DecidableEq, Repr

namespace Workspace

def init (workspaceMib : Nat) : Workspace := { capBytes := workspaceMib <<< 20 }

/-- Accounts a write of `n` bytes. -/
def charge (n : Nat) : Act Workspace Error Unit := do
  let self ← Act.get
  let next := wrapAddU64 self.usedBytes n
  if next < self.usedBytes then Act.fail .quotaExceeded
  else if next > self.capBytes then Act.fail .quotaExceeded
  else Act.modify fun w => { w with usedBytes := next }

def release (w : Workspace) (n : Nat) : Workspace :=
  { w with usedBytes := if n > w.usedBytes then 0 else w.usedBytes - n }

def reset (w : Workspace) : Workspace := { w with usedBytes := 0 }

theorem release_eq (w : Workspace) (n : Nat) : w.release n = { w with usedBytes := w.usedBytes - n } := by
  unfold release
  congr 1
  split_ifs <;> omega

/-- The wrapping comparison decides the quota: for a `u64` amount on top of a `u64` usage, the charge
is refused exactly when the true sum exceeds the cap. -/
theorem charge_run (w : Workspace) {n : Nat} (hused : w.usedBytes ≤ w.capBytes) (hcap : w.capBytes < u64Bound)
    (hn : n < u64Bound) :
    charge n w = if w.usedBytes + n ≤ w.capBytes then (.ok (), { w with usedBytes := w.usedBytes + n })
      else (.error .quotaExceeded, w) := by
  by_cases hwrap : w.usedBytes + n < u64Bound
  · have hnext : wrapAddU64 w.usedBytes n = w.usedBytes + n := Nat.mod_eq_of_lt hwrap
    have hgrows : ¬w.usedBytes + n < w.usedBytes := by omega
    by_cases hfits : w.usedBytes + n ≤ w.capBytes
    · rw [if_pos hfits]
      simp only [charge, Act.get_bind_run, hnext, if_neg hgrows, if_neg (Nat.not_lt.mpr hfits), Act.modify_run]
    · rw [if_neg hfits]
      simp only [charge, Act.get_bind_run, hnext, if_neg hgrows, if_pos (Nat.lt_of_not_le hfits), Act.fail_run]
  · have hnext : wrapAddU64 w.usedBytes n = w.usedBytes + n - u64Bound := by
      rw [wrapAddU64, Nat.mod_eq_sub_mod (by omega), Nat.mod_eq_of_lt (by omega)]
    rw [if_neg (by omega)]
    have hwrapped : w.usedBytes + n - u64Bound < w.usedBytes := by omega
    simp only [charge, Act.get_bind_run, hnext, if_pos hwrapped, Act.fail_run]

end Workspace

end Supervisor
