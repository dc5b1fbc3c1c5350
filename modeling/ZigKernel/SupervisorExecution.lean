import ZigKernel.LibBase64
import ZigKernel.SupervisorCanonical

/-! `supervisor/contract.zig`: the checks on a request to create an execution, after its JSON is decoded. -/

namespace Supervisor

open Zig Json

namespace Contract

def maxArgv : Nat := 64
def maxEnv : Nat := 64
def maxStringBytes : Nat := 4096
def maxPathBytes : Nat := 4096

/-- The errors of these checks. -/
inductive JsonError where
  | tooLarge
  | unexpectedType
  | invalidField
  deriving DecidableEq

/-- The copy, in a buffer of `capacity` bytes. -/
def copyBounded (capacity : Nat) (src : Bytes) : Outcome JsonError Bytes :=
  if capacity < src.length then .error .tooLarge else .ok src

/-! ### Guest paths -/

def slash : UInt8 := 0x2f
def dot : UInt8 := 0x2e

def indexOfPos (hay : Bytes) (start : Nat) (c : UInt8) : Option Nat :=
  if h : start < hay.length then
    if hay[start] = c then some start else indexOfPos hay (start + 1) c
  else none
termination_by hay.length - start

theorem le_indexOfPos {hay : Bytes} {start i : Nat} {c : UInt8} (h : indexOfPos hay start c = some i) : start ≤ i := by
  induction start using indexOfPos.induct hay c with
  | case1 start hlt hfound =>
      rw [indexOfPos, dif_pos hlt, if_pos hfound] at h
      cases h
      exact Nat.le_refl _
  | case2 start hlt hfound ih =>
      rw [indexOfPos, dif_pos hlt, if_neg hfound] at h
      exact Nat.le_of_succ_le (ih h)
  | case3 start hge =>
      rw [indexOfPos, dif_neg hge] at h
      cases h

theorem le_indexOfPos_getD {hay : Bytes} {start : Nat} {c : UInt8} (h : start ≤ hay.length) :
    start ≤ (indexOfPos hay start c).getD hay.length := by
  cases hindex : indexOfPos hay start c with
  | none => exact h
  | some i => exact le_indexOfPos hindex

/-- The loop of `isGuestPath`, a segment a turn. -/
def guestPathLoop (s : Bytes) (start : Nat) : Bool :=
  if h : start ≤ s.length then
    let stop := (indexOfPos s start slash).getD s.length
    let seg := (s.drop start).take (stop - start)
    have := le_indexOfPos_getD (c := slash) h
    if seg.length = 0 ∧ stop ≠ s.length then false
    else if seg = [dot] ∨ seg = [dot, dot] then false
    else if stop = s.length then true
    else guestPathLoop s (stop + 1)
  else true
termination_by s.length + 1 - start

def isGuestPath (s : Bytes) : Bool :=
  if s.length = 0 ∨ s.length > maxPathBytes then false
  else if s.head? ≠ some slash then false
  else if s.contains 0 then false
  else if s.contains backslash then false
  else if s.length ≥ 2 ∧ s[1]? = some slash then false
  else guestPathLoop s 1

/-! ### The environment -/

def isEnvName : Bytes → Bool
  | [] => false
  | c0 :: rest =>
    if ¬(isLetter c0 || c0 == 0x5f) then false
    else rest.all fun c => isLetter c || isDigit c || c == 0x5f

/-- A value under a name of the environment. -/
inductive EnvEntry where
  | string (s : Bytes)
  | other

/-- `std.json.Value` -/
inductive EnvValue where
  | object (o : List (Bytes × EnvEntry))
  | other

/-- The loop of `validateEnvValue`. -/
def validateEnvEntries : List (Bytes × EnvEntry) → Outcome JsonError Unit
  | [] => .ok ()
  | (key, entry) :: rest =>
    if ¬isEnvName key then .error .invalidField
    else
      match entry with
      | .string s => if s.contains 0 then .error .invalidField else validateEnvEntries rest
      | .other => .error .unexpectedType

def validateEnvValue : EnvValue → Outcome JsonError Unit
  | .object o => if o.length > maxEnv then .error .tooLarge else validateEnvEntries o
  | .other => .error .unexpectedType

/-! ### Standard input -/

/-- The loop of `isStandardBase64`; `pad` is how much padding there was. -/
def standardBase64Loop (pad : Nat) : Bytes → Bool
  | [] => true
  | c :: rest =>
    if c = Base64.pad then (if pad + 1 > 2 then false else standardBase64Loop (pad + 1) rest)
    else if pad ≠ 0 then false
    else if ¬(isLetter c || isDigit c || c == 0x2b || c == 0x2f) then false
    else standardBase64Loop pad rest

def isStandardBase64 (s : Bytes) : Bool :=
  if s.length = 0 then true else if s.length % 4 ≠ 0 then false else standardBase64Loop 0 s

/-- `std.base64.standard.Decoder.calcSizeForSlice` -/
def calcSizeForSlice (s : Bytes) : Option Nat := if s.length % 4 ≠ 0 then none else some (Base64.size s)

def decodedStdinLen (s : Bytes) : Outcome JsonError Nat :=
  if ¬isStandardBase64 s then .error .invalidField
  else if s.length = 0 then .ok 0
  else
    match calcSizeForSlice s with
    | none => .error .invalidField
    | some n =>
      if n > maxStringBytes then .error .tooLarge
      else
        match Base64.decode true s with
        | none => .error .invalidField
        | some _ => .ok n

/-! ### The request -/

structure ExecutionCreateJson where
  generation : Bytes
  argv : List Bytes
  cwd : Option Bytes
  env : Option EnvValue
  timeoutMs : Option Bytes
  stdinBase64 : Option Bytes

structure ValidatedExecutionCreate where
  generation : Nat
  argvCount : Nat
  hasStdin : Bool
  stdinBytes : Nat
  deriving DecidableEq

/-- The loop over the arguments. -/
def validateArgv : List Bytes → Outcome JsonError Unit
  | [] => .ok ()
  | arg :: rest =>
    if arg.length = 0 ∨ arg.contains 0 then .error .invalidField
    else do
      let _copied ← copyBounded maxStringBytes arg
      validateArgv rest

/-- `if (o) |a| try f(a)` -/
def whenSome {α : Type} (o : Option α) (f : α → Outcome JsonError Unit) : Outcome JsonError Unit :=
  match o with
  | none => .ok ()
  | some a => f a

/-- The standard input, checked last, and the result. -/
def withStdin (generation argvCount : Nat) (stdinBase64 : Option Bytes) : Outcome JsonError ValidatedExecutionCreate :=
  match stdinBase64 with
  | none => .ok ⟨generation, argvCount, false, 0⟩
  | some b64 => do
    let stdinBytes ← decodedStdinLen b64
    .ok ⟨generation, argvCount, true, stdinBytes⟩

/-- `validateExecutionCreate` behind its call of the JSON parser. -/
def validateExecutionCreate (body : ExecutionCreateJson) : Outcome JsonError ValidatedExecutionCreate := do
  let genS ← copyBounded 20 body.generation
  match parseDecimalU64 genS with
  | none => .error .invalidField
  | some generation =>
    if generation < 1 then .error .invalidField
    else if body.argv.length = 0 then .error .invalidField
    else if body.argv.length > maxArgv then .error .tooLarge
    else do
      validateArgv body.argv
      whenSome body.cwd fun cwd => if ¬isGuestPath cwd then .error .invalidField else .ok ()
      whenSome body.timeoutMs fun ts => if ¬isCanonicalDecimalU64 ts then .error .invalidField else .ok ()
      whenSome body.env validateEnvValue
      withStdin generation body.argv.length body.stdinBase64

end Contract

end Supervisor
