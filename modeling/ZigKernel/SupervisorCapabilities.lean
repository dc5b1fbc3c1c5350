import ZigKernel.SupervisorCanonical

/-! `supervisor/contract.zig`: what a composition may advertise. The features come from evidence about the bound
adapters, the document that lists them is printed from a snapshot, and a snapshot that claims more than its inventory
bears out is refused. -/

namespace Supervisor

open Zig Json

namespace Contract

def apiVersion : Bytes := ascii "v1"
def contractVersion : Bytes := ascii "1"

inductive ProfileId where
  | linuxVmX64
  | linuxVmArm64
  | wasmCoreP1
  | nativeLinuxX64
  | nativeMacosArm64
  | nativeWindowsX64
  | zkAbiV1
  deriving DecidableEq

def ProfileId.text : ProfileId → Bytes
  | .linuxVmX64 => ascii "linux-vm/x64"
  | .linuxVmArm64 => ascii "linux-vm/arm64"
  | .wasmCoreP1 => ascii "wasm-core-p1"
  | .nativeLinuxX64 => ascii "native/linux-x64"
  | .nativeMacosArm64 => ascii "native/macos-arm64"
  | .nativeWindowsX64 => ascii "native/windows-x64"
  | .zkAbiV1 => ascii "zk-abi-v1"

def ProfileId.isLinuxVm (self : ProfileId) : Bool := self == .linuxVmX64 || self == .linuxVmArm64

inductive ProviderKind where
  | none
  | qemuKvm
  | qemuHvf
  | qemuWhpx
  deriving DecidableEq

def ProviderKind.text : ProviderKind → Bytes
  | .none => ascii "none"
  | .qemuKvm => ascii "qemu-kvm"
  | .qemuHvf => ascii "qemu-hvf"
  | .qemuWhpx => ascii "qemu-whpx"

structure ProviderRecord where
  kind : ProviderKind := .none
  profile : Option ProfileId := none
  imageDigest : Bytes := []
  pauseResume : Bool := false
  qualified : Bool := false

structure ProviderInventory where
  providers : List ProviderRecord := []

def digestPrefix : Bytes := ascii "sha256:"

def isDigestByte (c : UInt8) : Bool := (0x30 ≤ c && c ≤ 0x39) || (0x61 ≤ c && c ≤ 0x66)

def isImageDigest (s : Bytes) : Bool :=
  if ¬digestPrefix.isPrefixOf s then false
  else if (s.drop digestPrefix.length).length ≠ 64 then false
  else (s.drop digestPrefix.length).all isDigestByte

/-- The loop body of `inventoryMatchesBoundVm`: a record that none of the `continue`s passes over. -/
def ProviderRecord.qualifies (kind : ProviderKind) (profile : ProfileId) (imageDigest : Bytes) (p : ProviderRecord) : Bool :=
  p.qualified && p.pauseResume && p.kind == kind && p.profile == some profile && p.imageDigest == imageDigest

def inventoryMatchesBoundVm (inventory : ProviderInventory) (kind : ProviderKind) (profile : ProfileId)
    (imageDigest : Bytes) : Bool :=
  if kind = .none then false
  else if ¬profile.isLinuxVm then false
  else if ¬isImageDigest imageDigest then false
  else inventory.providers.any (ProviderRecord.qualifies kind profile imageDigest)

structure CanonicalCapabilities where
  execution : Bool := false
  auth : Bool := false
  durableStore : Bool := false
  snapshots : Bool := false
  forks : Bool := false
  sse : Bool := false
  pauseResume : Bool := false
  pty : Bool := false
  channels : Bool := false
  exports : Bool := false
  callbacks : Bool := false
  wasmCore : Bool := false
  guestWasi : Bool := false

structure CompositionEvidence where
  inventory : ProviderInventory := {}
  auth : Bool := false
  store : Bool := false
  launcher : Bool := false
  guest : Bool := false
  policy : Bool := false
  clock : Bool := false
  entropy : Bool := false
  imageRegistry : Bool := false
  lifecycle : Bool := false
  vmReady : Bool := false
  vmKind : ProviderKind := .none
  vmVersion : Bytes := []
  vmPauseResume : Bool := false
  vmProfile : Option ProfileId := none
  vmImageDigest : Bytes := []
  pty : Bool := false
  channels : Bool := false
  sse : Bool := false
  exports : Bool := false
  callbacks : Bool := false
  snapshots : Bool := false
  forks : Bool := false
  wasmCore : Bool := false
  guestWasi : Bool := false
  networkAllowlist : Bool := false

def linuxVmRequiredControls (ev : CompositionEvidence) : Bool :=
  ev.auth && ev.store && ev.launcher && ev.guest && ev.lifecycle && ev.policy && ev.clock && ev.entropy &&
    ev.imageRegistry

/-- The `matched` of `capabilitiesFromComposition`. -/
def CompositionEvidence.matched (ev : CompositionEvidence) : Bool :=
  match ev.vmProfile with
  | some profile => ev.vmReady && ev.vmVersion == contractVersion && ev.vmPauseResume &&
      inventoryMatchesBoundVm ev.inventory ev.vmKind profile ev.vmImageDigest
  | none => false

def capabilitiesFromComposition (ev : CompositionEvidence) : CanonicalCapabilities :=
  let exec := ev.matched && linuxVmRequiredControls ev
  { execution := exec
    auth := ev.auth
    durableStore := ev.store
    snapshots := exec && ev.snapshots
    forks := exec && ev.forks
    sse := exec && ev.sse
    pauseResume := exec && ev.vmPauseResume
    pty := exec && ev.pty
    channels := exec && ev.channels
    exports := exec && ev.exports
    callbacks := exec && ev.callbacks
    wasmCore := ev.wasmCore && ev.auth && ev.store
    guestWasi := exec && ev.guestWasi }

structure CapabilitySnapshot where
  features : CanonicalCapabilities := {}
  inventory : ProviderInventory := {}
  boundKind : ProviderKind := .none
  boundProfile : Option ProfileId := none
  boundImageDigest : Bytes := []

/-- The snapshot of a composition. -/
def CompositionEvidence.snapshot (ev : CompositionEvidence) : CapabilitySnapshot where
  features := capabilitiesFromComposition ev
  inventory := ev.inventory
  boundKind := ev.vmKind
  boundProfile := ev.vmProfile
  boundImageDigest := ev.vmImageDigest

inductive CapabilitiesError where
  | untruthfulCapabilities
  /-- What `appendSlice` and `appendJsonString` fail with. -/
  | write (e : CanonicalWriteError)

/-- The features that need `execution`. -/
def CanonicalCapabilities.gated (caps : CanonicalCapabilities) : Bool :=
  caps.pty || caps.channels || caps.sse || caps.pauseResume || caps.exports || caps.callbacks || caps.snapshots ||
    caps.forks || caps.guestWasi

/-- The checks of `assertTruthfulCapabilities` under `caps.execution`. -/
def CapabilitySnapshot.executionBorneOut (snapshot : CapabilitySnapshot) : Bool :=
  if ¬snapshot.features.auth ∨ ¬snapshot.features.durableStore ∨ ¬snapshot.features.pauseResume then false
  else
    match snapshot.boundProfile with
    | none => false
    | some profile =>
        inventoryMatchesBoundVm snapshot.inventory snapshot.boundKind profile snapshot.boundImageDigest

def assertTruthfulCapabilities (snapshot : CapabilitySnapshot) : Outcome CapabilitiesError Unit :=
  if snapshot.features.execution ∧ ¬snapshot.executionBorneOut then .error .untruthfulCapabilities
  else if snapshot.features.gated ∧ ¬snapshot.features.execution then .error .untruthfulCapabilities
  else if snapshot.features.wasmCore ∧ ¬(snapshot.features.auth ∧ snapshot.features.durableStore) then
    .error .untruthfulCapabilities
  else .ok ()

def jsonBool (v : Bool) : Bytes := if v then ascii "true" else ascii "false"

def appendWhen (p : Bool) (s : Bytes) : Append Unit := if p then appendSlice s else pure ()

/-- The loop of the three lists without repetitions, behind the records `before`: a record without a value is passed
over, and so is one whose value an earlier record has. -/
def writeList {κ : Type} (value : ProviderRecord → Option κ) (same : κ → ProviderRecord → Bool)
    (item : ProviderRecord → κ → Append Unit) (first : Bool) (before : List ProviderRecord) :
    List ProviderRecord → Append Unit
  | [] => pure ()
  | p :: rest =>
      match value p with
      | none => writeList value same item first (before ++ [p]) rest
      | some k =>
          if before.any (same k) then writeList value same item first (before ++ [p]) rest
          else do
            if ¬first then appendSlice (ascii ",")
            item p k
            writeList value same item false (before ++ [p]) rest

def ProviderRecord.backend (p : ProviderRecord) : Option ProviderKind := if p.kind = .none then none else some p.kind

def writeBackendList (inventory : ProviderInventory) : Append Unit :=
  writeList ProviderRecord.backend (fun kind q => q.kind == kind) (fun _ kind => appendJsonString kind.text) true []
    inventory.providers

def ProviderRecord.image (p : ProviderRecord) : Option Bytes :=
  if ¬isImageDigest p.imageDigest then none else some p.imageDigest

def ProviderRecord.imageId (p : ProviderRecord) : Bytes :=
  match p.profile with
  | some prof => prof.text
  | none => ascii "image"

/-- The loop body of `writeImageList`. -/
def appendImage (p : ProviderRecord) (digest : Bytes) : Append Unit := do
  appendSlice (ascii "\x7b\"id\":")
  appendJsonString p.imageId
  appendSlice (ascii ",\"digest\":")
  appendJsonString digest
  appendSlice (ascii "\x7d")

def writeImageList (inventory : ProviderInventory) : Append Unit :=
  writeList ProviderRecord.image (fun digest q => q.imageDigest == digest) appendImage true [] inventory.providers

def writeProfileList (inventory : ProviderInventory) : Append Unit :=
  writeList ProviderRecord.profile (fun profile q => q.profile == some profile)
    (fun _ profile => appendJsonString profile.text) true [] inventory.providers

def appendProfile : Option ProfileId → Append Unit
  | some profile => do
      appendSlice (ascii ",\"profile\":")
      appendJsonString profile.text
  | none => pure ()

def appendDigest (digest : Bytes) : Append Unit :=
  if isImageDigest digest then do
    appendSlice (ascii ",\"image_digest\":")
    appendJsonString digest
  else pure ()

/-- The loop body of `writeProviderList`. -/
def appendProvider (p : ProviderRecord) : Append Unit := do
  appendSlice (ascii "\x7b\"kind\":")
  appendJsonString p.kind.text
  appendSlice (ascii ",\"qualified\":")
  appendSlice (jsonBool p.qualified)
  appendSlice (ascii ",\"pause_resume\":")
  appendSlice (jsonBool p.pauseResume)
  appendProfile p.profile
  appendDigest p.imageDigest
  appendSlice (ascii "\x7d")

/-- The loop of `writeProviderList`. -/
def providerLoop (first : Bool) : List ProviderRecord → Append Unit
  | [] => pure ()
  | p :: rest =>
      if p.kind = .none then providerLoop first rest
      else do
        if ¬first then appendSlice (ascii ",")
        appendProvider p
        providerLoop false rest

def writeProviderList (inventory : ProviderInventory) : Append Unit := providerLoop true inventory.providers

/-- The features as `writeCanonicalCapabilities` prints them. -/
def appendFeatures (features : CanonicalCapabilities) : Append Unit := do
  appendSlice (ascii "],\"features\":\x7b\"execution\":")
  appendSlice (jsonBool features.execution)
  appendSlice (ascii ",\"auth\":")
  appendSlice (jsonBool features.auth)
  appendSlice (ascii ",\"durable_store\":")
  appendSlice (jsonBool features.durableStore)
  appendSlice (ascii ",\"network_modes\":[")
  appendWhen features.execution (ascii "\"offline\"")
  appendSlice (ascii "],\"snapshots\":")
  appendSlice (jsonBool features.snapshots)
  appendSlice (ascii ",\"forks\":")
  appendSlice (jsonBool features.forks)
  appendSlice (ascii ",\"sse\":")
  appendSlice (jsonBool features.sse)
  appendSlice (ascii ",\"pause_resume\":")
  appendSlice (jsonBool features.pauseResume)
  appendSlice (ascii ",\"pty\":")
  appendSlice (jsonBool features.pty)
  appendSlice (ascii ",\"channels\":")
  appendSlice (jsonBool features.channels)
  appendSlice (ascii ",\"exports\":")
  appendSlice (jsonBool features.exports)
  appendSlice (ascii ",\"callbacks\":")
  appendSlice (jsonBool features.callbacks)
  appendSlice (ascii ",\"wasm_core\":")
  appendSlice (jsonBool features.wasmCore)
  appendSlice (ascii ",\"guest_wasi\":")
  appendSlice (jsonBool features.guestWasi)

/-- The text of `writeCanonicalCapabilities`. -/
def appendCapabilities (snapshot : CapabilitySnapshot) : Append Unit := do
  appendSlice (ascii "\x7b\"api_version\":\"")
  appendSlice apiVersion
  appendSlice (ascii "\",\"contract_version\":\"")
  appendSlice contractVersion
  appendSlice (ascii "\",\"error_envelope\":\"canonical\",\"backends\":[")
  writeBackendList snapshot.inventory
  appendSlice (ascii "],\"guest_abis\":[")
  appendWhen snapshot.features.wasmCore (ascii "\"wasm-core-p1\"")
  appendSlice (ascii "],\"images\":[")
  writeImageList snapshot.inventory
  appendSlice (ascii "],\"profiles\":[")
  writeProfileList snapshot.inventory
  appendSlice (ascii "],\"providers\":[")
  writeProviderList snapshot.inventory
  appendFeatures snapshot.features
  appendSlice (ascii "\x7d,\"ceilings\":\x7b\x7d\x7d")

def printCapabilities (snapshot : CapabilitySnapshot) : Append Bytes := do
  appendCapabilities snapshot
  let w ← Act.get
  Act.lift (slice w.buf 0 w.n)

/-- `writeCanonicalCapabilities` behind the check of the snapshot. -/
def writeTruthful (snapshot : CapabilitySnapshot) : Act Bytes CapabilitiesError Bytes := fun buf =>
  let (out, w) := printCapabilities snapshot { buf, n := 0 }
  (out.mapError .write, w.buf)

/-- Prints a truthful snapshot into the caller's buffer and returns the bytes printed. -/
def writeCanonicalCapabilities (snapshot : CapabilitySnapshot) : Act Bytes CapabilitiesError Bytes := do
  Act.lift (assertTruthfulCapabilities snapshot)
  writeTruthful snapshot

end Contract

end Supervisor
