import ZigKernel.SupervisorCapabilities

/-! `engine/contracts.zig`: the adapters of an engine and the evidence that it draws from them. An adapter is what its
readiness reads: the functions it is bound to are not looked at. -/

namespace Engine

open Zig Json Supervisor Contract

structure CapabilityMeta where
  name : Bytes
  version : Bytes
  available : Bool := false

def unavailableMeta (name : Bytes) : CapabilityMeta := { name, version := contractVersion, available := false }

/-- What every adapter holds beside its functions. -/
structure Adapter where
  /-- `meta` -/
  metadata : CapabilityMeta
  /-- The address of the adapter's own data. -/
  context : Option Nat := none
  bound : Bool := false

def adapterReady (metadata : CapabilityMeta) (expectedName : Bytes) (bound : Bool) (context : Option Nat) : Bool :=
  bound && context.isSome && metadata.available && metadata.name == expectedName && metadata.version == contractVersion

abbrev Clock := Adapter
abbrev Entropy := Adapter
abbrev Auth := Adapter
abbrev Store := Adapter
abbrev Policy := Adapter
abbrev Launcher := Adapter
abbrev GuestExposure := Adapter
abbrev Lifecycle := Adapter
abbrev ImageRegistry := Adapter
abbrev ExportBroker := Adapter
abbrev Pty := Adapter
abbrev Channels := Adapter
abbrev Events := Adapter
abbrev Callbacks := Adapter

def Clock.ready (self : Clock) : Bool := adapterReady self.metadata (ascii "clock") self.bound self.context
def Entropy.ready (self : Entropy) : Bool := adapterReady self.metadata (ascii "entropy") self.bound self.context
def Auth.ready (self : Auth) : Bool := adapterReady self.metadata (ascii "auth") self.bound self.context
def Store.ready (self : Store) : Bool := adapterReady self.metadata (ascii "store") self.bound self.context
def Policy.ready (self : Policy) : Bool := adapterReady self.metadata (ascii "policy") self.bound self.context
def Launcher.ready (self : Launcher) : Bool := adapterReady self.metadata (ascii "launcher") self.bound self.context
def GuestExposure.ready (self : GuestExposure) : Bool :=
  adapterReady self.metadata (ascii "guest_exposure") self.bound self.context
def Lifecycle.ready (self : Lifecycle) : Bool := adapterReady self.metadata (ascii "lifecycle") self.bound self.context
def ImageRegistry.ready (self : ImageRegistry) : Bool :=
  adapterReady self.metadata (ascii "image_registry") self.bound self.context
def ExportBroker.ready (self : ExportBroker) : Bool := adapterReady self.metadata (ascii "export") self.bound self.context
def Pty.ready (self : Pty) : Bool := adapterReady self.metadata (ascii "pty") self.bound self.context
def Channels.ready (self : Channels) : Bool := adapterReady self.metadata (ascii "channels") self.bound self.context
def Events.ready (self : Events) : Bool := adapterReady self.metadata (ascii "events") self.bound self.context
def Callbacks.ready (self : Callbacks) : Bool := adapterReady self.metadata (ascii "callbacks") self.bound self.context

structure Network extends Adapter where
  mode : Bytes := ascii "offline"

def Network.ready (self : Network) : Bool := adapterReady self.metadata (ascii "network") self.bound self.context

structure VmBackend extends Adapter where
  kind : ProviderKind := .none
  profile : Option ProfileId := none
  imageDigest : Bytes := []
  pauseResume : Bool := false

def VmBackend.ready (self : VmBackend) : Bool :=
  self.kind != .none && self.profile.isSome && isImageDigest self.imageDigest &&
    adapterReady self.metadata (ascii "vm") self.bound self.context

/-- The seams that `toEvidence` reads, unbound as they start. -/
structure EngineSeams where
  clock : Clock := { metadata := unavailableMeta (ascii "clock") }
  entropy : Entropy := { metadata := unavailableMeta (ascii "entropy") }
  auth : Auth := { metadata := unavailableMeta (ascii "auth") }
  store : Store := { metadata := unavailableMeta (ascii "store") }
  policy : Policy := { metadata := unavailableMeta (ascii "policy") }
  launcher : Launcher := { metadata := unavailableMeta (ascii "launcher") }
  guestExposure : GuestExposure := { metadata := unavailableMeta (ascii "guest_exposure") }
  network : Network := { metadata := unavailableMeta (ascii "network") }
  vm : VmBackend := { metadata := unavailableMeta (ascii "vm") }
  lifecycle : Lifecycle := { metadata := unavailableMeta (ascii "lifecycle") }
  imageRegistry : ImageRegistry := { metadata := unavailableMeta (ascii "image_registry") }
  exportBroker : ExportBroker := { metadata := unavailableMeta (ascii "export") }
  pty : Pty := { metadata := unavailableMeta (ascii "pty") }
  channels : Channels := { metadata := unavailableMeta (ascii "channels") }
  events : Events := { metadata := unavailableMeta (ascii "events") }
  callbacks : Callbacks := { metadata := unavailableMeta (ascii "callbacks") }
  inventory : ProviderInventory := {}

def EngineSeams.toEvidence (self : EngineSeams) : CompositionEvidence where
  inventory := self.inventory
  auth := self.auth.ready
  store := self.store.ready
  launcher := self.launcher.ready
  guest := self.guestExposure.ready
  policy := self.policy.ready
  clock := self.clock.ready
  entropy := self.entropy.ready
  imageRegistry := self.imageRegistry.ready
  lifecycle := self.lifecycle.ready
  vmReady := self.vm.ready
  vmKind := if self.vm.ready then self.vm.kind else .none
  vmVersion := self.vm.metadata.version
  vmPauseResume := self.vm.ready && self.vm.pauseResume
  vmProfile := if self.vm.ready then self.vm.profile else none
  vmImageDigest := if self.vm.ready then self.vm.imageDigest else []
  pty := self.pty.ready
  channels := self.channels.ready
  sse := self.events.ready
  exports := self.exportBroker.ready
  callbacks := self.callbacks.ready
  snapshots := false
  forks := false
  wasmCore := false
  guestWasi := false
  networkAllowlist := self.network.ready && self.network.mode == ascii "allowlist"

def EngineSeams.advertisesExecution (self : EngineSeams) : Bool :=
  (capabilitiesFromComposition self.toEvidence).execution

end Engine
