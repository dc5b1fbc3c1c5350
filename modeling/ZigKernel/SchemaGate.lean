import ZigKernel.LibBase64
import ZigKernel.LibText

/-! `scripts/sandbox-schema-validate.py`: the semantic stage of the contract gate, for a request to create an
execution. A string is a list of characters here, and its UTF-8 bytes are what the bounds count. -/

namespace SchemaGate

def maxStringBytes : Nat := 4096
def maxPathBytes : Nat := 4096
def maxArgv : Nat := 64
def maxEnv : Nat := 64
def u64Max : Nat := 18446744073709551615

/-- `SemanticError`, with its message. -/
structure SemanticError where
  message : String
  deriving DecidableEq

abbrev Text := List Char

def raise {α : Type} (message : String) : Except SemanticError α := .error ⟨message⟩

/-- `s.encode("utf-8")` -/
def raw (s : Text) : List UInt8 := Utf8.bytes s

def utf8Bytes (s : Text) : Nat := (raw s).length

/-! ### Numbers -/

/-- The loop of `parse_decimal_u64`. -/
def parseDecimalLoop (value : Nat) : Text → Except SemanticError Nat
  | [] => .ok value
  | ch :: rest =>
    if ch < '0' ∨ ch > '9' then raise "decimal"
    else
      let value := value * 10 + (ch.toNat - 48)
      if value > u64Max then raise "decimal overflow" else parseDecimalLoop value rest

def parseDecimalU64 (s : Text) : Except SemanticError Nat :=
  if s = [] ∨ s.length > 20 then raise "decimal"
  else if s.head? = some '0' then (if s.length ≠ 1 then raise "decimal" else .ok 0)
  else parseDecimalLoop 0 s

def semanticDecimal (instance_ : Text) : Except SemanticError Unit := do
  let _ ← parseDecimalU64 instance_

def semanticGeneration (instance_ : Text) : Except SemanticError Unit := do
  if (← parseDecimalU64 instance_) < 1 then raise "generation"

/-! ### Guest paths -/

/-- `raw.index(b, start)` -/
def index (raw : List UInt8) (b : UInt8) (start : Nat) : Option Nat :=
  ((raw.drop start).findIdx? (· == b)).map (start + ·)

theorem le_index {raw : List UInt8} {b : UInt8} {start : Nat} (h : start ≤ raw.length) :
    start ≤ (index raw b start).getD raw.length := by
  rw [index]
  cases (raw.drop start).findIdx? (· == b) with
  | none => exact h
  | some i => exact Nat.le_add_right _ _

/-- The loop of `is_guest_path`, a segment a turn. -/
def guestPathLoop (raw : List UInt8) (start : Nat) : Bool :=
  if h : start ≤ raw.length then
    let slash := (index raw 0x2f start).getD raw.length
    let seg := (raw.drop start).take (slash - start)
    have := le_index (b := 0x2f) h
    if seg.length = 0 ∧ slash ≠ raw.length then false
    else if seg = [0x2e] ∨ seg = [0x2e, 0x2e] then false
    else if slash = raw.length then true
    else guestPathLoop raw (slash + 1)
  else true
termination_by raw.length + 1 - start

def isGuestPath (s : Text) : Bool :=
  if raw s = [] ∨ (raw s).length > maxPathBytes then false
  else if (raw s).head? ≠ some 0x2f then false
  else if 0 ∈ raw s ∨ 0x5c ∈ raw s then false
  else if (raw s).length ≥ 2 ∧ (raw s)[1]? = some 0x2f then false
  else guestPathLoop (raw s) 1

/-! ### The environment -/

def isEnvName (s : Text) : Bool :=
  match raw s with
  | [] => false
  | c0 :: rest =>
    if ¬((65 ≤ c0 ∧ c0 ≤ 90) ∨ (97 ≤ c0 ∧ c0 ≤ 122) ∨ c0 = 95) then false
    else rest.all fun c => (65 ≤ c ∧ c ≤ 90) ∨ (97 ≤ c ∧ c ≤ 122) ∨ (48 ≤ c ∧ c ≤ 57) ∨ c = 95

/-- The loop over the items of `env`. -/
def semanticEnv : List (Text × Text) → Except SemanticError Unit
  | [] => .ok ()
  | (key, value) :: rest =>
    if ¬isEnvName key then raise "env name"
    else if Char.ofNat 0 ∈ value then raise "env value"
    else if utf8Bytes key > maxStringBytes ∨ utf8Bytes value > maxStringBytes then raise "env utf-8 bytes"
    else semanticEnv rest

/-! ### Standard input -/

/-- The loop of `is_standard_base64`; `pad` is how much padding there was. -/
def standardBase64Loop (pad : Nat) : Text → Bool
  | [] => true
  | c :: rest =>
    if c = '=' then (if pad + 1 > 2 then false else standardBase64Loop (pad + 1) rest)
    else if pad ≠ 0 then false
    else if ¬(('A' ≤ c ∧ c ≤ 'Z') ∨ ('a' ≤ c ∧ c ≤ 'z') ∨ ('0' ≤ c ∧ c ≤ '9') ∨ c ∈ ['+', '/']) then false
    else standardBase64Loop pad rest

def isStandardBase64 (s : Text) : Bool :=
  if s = [] then true else if s.length % 4 ≠ 0 then false else standardBase64Loop 0 s

/-- `base64.b64decode(s, validate=True)`: only an ASCII string is decoded. -/
def b64decode (s : Text) : Option (List UInt8) :=
  if s.all (·.toNat < 0x80) then Base64.decode false (s.map Utf8.asciiByte) else none

def decodedStdinLen (s : Text) : Except SemanticError Nat :=
  if ¬isStandardBase64 s then raise "invalid base64"
  else if s = [] then .ok 0
  else
    match b64decode s with
    | none => raise "base64 decode"
    | some raw => if raw.length > maxStringBytes then raise "decoded stdin too large" else .ok raw.length

/-! ### The request -/

/-- The members of the object; an absent one is none. -/
structure Instance where
  generation : Text
  argv : List Text
  cwd : Option Text
  env : Option (List (Text × Text))
  timeoutMs : Option Text
  stdinBase64 : Option Text

/-- The loop over the arguments. -/
def semanticArgv : List Text → Except SemanticError Unit
  | [] => .ok ()
  | arg :: rest =>
    if arg = [] ∨ Char.ofNat 0 ∈ arg then raise "argv item"
    else if utf8Bytes arg > maxStringBytes then raise "argv utf-8 bytes"
    else semanticArgv rest

/-- `if "member" in instance` -/
def whenIn {α : Type} (o : Option α) (f : α → Except SemanticError Unit) : Except SemanticError Unit :=
  match o with
  | none => .ok ()
  | some a => f a

def semanticExecutionCreate (instance_ : Instance) : Except SemanticError Unit := do
  semanticGeneration instance_.generation
  if instance_.argv = [] ∨ instance_.argv.length > maxArgv then raise "argv"
  else do
    semanticArgv instance_.argv
    whenIn instance_.cwd fun cwd =>
      if ¬isGuestPath cwd then raise "cwd"
      else if utf8Bytes cwd > maxPathBytes then raise "cwd utf-8 bytes"
      else .ok ()
    whenIn instance_.timeoutMs semanticDecimal
    whenIn instance_.env fun env => if env.length > maxEnv then raise "env size" else semanticEnv env
    whenIn instance_.stdinBase64 fun s => do
      let _ ← decodedStdinLen s

end SchemaGate
