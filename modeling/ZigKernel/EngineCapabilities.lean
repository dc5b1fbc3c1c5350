import ZigKernel.EngineSeams
import ZigKernel.SupervisorCapabilitiesSound

/-! Capabilities are truthful. An engine advertises execution exactly when its VM, its controls and its inventory bear
it out, and the document printed for it lists what the inventory holds. -/

namespace Engine

open Zig Json Firsts Supervisor Contract

variable {s : EngineSeams}

/-- What execution rests on. -/
structure EngineSeams.Executes (s : EngineSeams) : Prop where
  ready : s.vm.ready = true
  version : s.vm.metadata.version = contractVersion
  pauseResume : s.vm.pauseResume = true
  qualified : ∃ profile, s.vm.profile = some profile ∧ profile.isLinuxVm = true ∧
    isImageDigest s.vm.imageDigest = true ∧ ∃ p ∈ s.inventory.providers, p.Qualifies s.vm.kind profile s.vm.imageDigest
  controls : ∀ ready ∈ [s.auth.ready, s.store.ready, s.launcher.ready, s.guestExposure.ready, s.lifecycle.ready,
    s.policy.ready, s.clock.ready, s.entropy.ready, s.imageRegistry.ready], ready = true

/-- What a document lists of an inventory: the kinds of its backends, its images by their digest and its profiles
once each, and a record for every backend. -/
structure Advertises (doc : Value) (inventory : ProviderInventory) : Prop where
  backends : ∃ names : List Bytes, doc.member (ascii "backends") = some (.array (names.map .string)) ∧
    Lists (inventory.names ProviderRecord.backend ProviderKind.text) names
  images : ∃ images : List (ProviderRecord × Bytes),
    doc.member (ascii "images") = some (.array (images.map shownImage)) ∧
      Lists (inventory.providers.filterMap ProviderRecord.image) (images.map Prod.snd)
  profiles : ∃ names : List Bytes, doc.member (ascii "profiles") = some (.array (names.map .string)) ∧
    Lists (inventory.names ProviderRecord.profile ProfileId.text) names
  providers : doc.member (ascii "providers") =
    some (.array ((inventory.providers.filter fun p => p.kind != .none).map shownProvider))

/-- A VM that is not ready shows no profile. -/
theorem matched_evidence : s.toEvidence.matched = true ↔ s.vm.ready = true ∧ s.vm.metadata.version = contractVersion ∧
    s.vm.pauseResume = true ∧ ∃ profile, s.vm.profile = some profile ∧
      inventoryMatchesBoundVm s.inventory s.vm.kind profile s.vm.imageDigest = true := by
  rw [matched_iff]
  by_cases hready : s.vm.ready = true
  · simp only [EngineSeams.toEvidence, hready, if_true, Bool.true_and, true_and]
    constructor
    · rintro ⟨profile, hprofile, hversion, hpause, hinventory⟩
      exact ⟨hversion, hpause, profile, hprofile, hinventory⟩
    · rintro ⟨hversion, hpause, profile, hprofile, hinventory⟩
      exact ⟨profile, hprofile, hversion, hpause, hinventory⟩
  · simp only [EngineSeams.toEvidence, hready, Bool.false_eq_true, if_false, reduceCtorEq, false_and, exists_false]

theorem controls_evidence : linuxVmRequiredControls s.toEvidence = true ↔
    ∀ ready ∈ [s.auth.ready, s.store.ready, s.launcher.ready, s.guestExposure.ready, s.lifecycle.ready,
      s.policy.ready, s.clock.ready, s.entropy.ready, s.imageRegistry.ready], ready = true := by
  simp only [linuxVmRequiredControls, EngineSeams.toEvidence, Bool.and_eq_true, List.forall_mem_cons, List.not_mem_nil,
    false_implies, implies_true, and_true, and_assoc]

theorem executes_iff : s.advertisesExecution = true ↔ s.Executes := by
  have hgate : s.advertisesExecution = (s.toEvidence.matched && linuxVmRequiredControls s.toEvidence) := rfl
  rw [hgate, Bool.and_eq_true, matched_evidence, controls_evidence]
  constructor
  · rintro ⟨⟨hready, hversion, hpause, profile, hprofile, hinventory⟩, hcontrols⟩
    obtain ⟨-, hlinux, hdigest, p, hp, hqualifies⟩ := (matchesBoundVm_iff _).mp hinventory
    exact ⟨hready, hversion, hpause, ⟨profile, hprofile, hlinux, hdigest, p, hp, hqualifies⟩, hcontrols⟩
  · rintro ⟨hready, hversion, hpause, ⟨profile, hprofile, hlinux, hdigest, p, hp, hqualifies⟩, hcontrols⟩
    refine ⟨⟨hready, hversion, hpause, profile, hprofile, (matchesBoundVm_iff _).mpr ?_⟩, hcontrols⟩
    refine ⟨?_, hlinux, hdigest, p, hp, hqualifies⟩
    -- a ready VM has a kind
    rw [VmBackend.ready, Bool.and_eq_true, Bool.and_eq_true, Bool.and_eq_true, bne_iff_ne] at hready
    exact hready.1.1.1

theorem advertises_snapshot (ev : CompositionEvidence) : Advertises (.object ev.snapshot.members) ev.inventory where
  backends := by
    refine ⟨_, ?_, lists_backends ev.inventory⟩
    rw [List.map_map]
    rfl
  images := ⟨_, rfl, lists_images ev.inventory⟩
  profiles := by
    refine ⟨_, ?_, lists_profiles ev.inventory⟩
    rw [List.map_map]
    rfl
  providers := rfl

theorem gated_features (ev : CompositionEvidence) :
    let caps := capabilitiesFromComposition ev
    ∀ feature ∈ [caps.snapshots, caps.forks, caps.sse, caps.pauseResume, caps.pty, caps.channels, caps.exports,
      caps.callbacks, caps.guestWasi], feature = true → caps.execution = true := by
  intro caps feature hfeature htrue
  apply gated_execution
  subst htrue
  simp only [List.mem_cons, List.not_mem_nil, or_false, eq_comm (a := true)] at hfeature
  simp only [CanonicalCapabilities.gated, Bool.or_eq_true]
  tauto

/-- Capabilities are truthful and well formed. -/
theorem capabilities_truthful (s : EngineSeams) :
    let caps := capabilitiesFromComposition s.toEvidence
    (caps.execution = true ↔ s.Executes) ∧
      (∀ feature ∈ [caps.snapshots, caps.forks, caps.sse, caps.pauseResume, caps.pty, caps.channels, caps.exports,
        caps.callbacks, caps.guestWasi], feature = true → caps.execution = true) ∧
      ∀ buf : Bytes, s.toEvidence.text.length ≤ buf.length → buf.length < u64Bound →
        ∃ text doc, (writeCanonicalCapabilities s.toEvidence.snapshot buf).1 = .ok text ∧ parse text = some doc ∧
          doc.member (ascii "features") = some (.object caps.members) ∧ Advertises doc s.inventory := by
  refine ⟨executes_iff, gated_features _, fun buf hroom hbound => ?_⟩
  refine ⟨s.toEvidence.text, .object s.toEvidence.snapshot.members, ?_, parse_text _, rfl, advertises_snapshot _⟩
  rw [write_snapshot s.toEvidence hroom hbound]

def sampleDigest : Bytes := digestPrefix ++ List.replicate 64 0x30

def sampleAdapter (name : Bytes) : Adapter :=
  { metadata := { name, version := contractVersion, available := true }, context := some 0x1000, bound := true }

/-- A composition that executes, next to a record that names its image by a tag. -/
def sampleSeams : EngineSeams where
  clock := sampleAdapter (ascii "clock")
  entropy := sampleAdapter (ascii "entropy")
  auth := sampleAdapter (ascii "auth")
  store := sampleAdapter (ascii "store")
  policy := sampleAdapter (ascii "policy")
  launcher := sampleAdapter (ascii "launcher")
  guestExposure := sampleAdapter (ascii "guest_exposure")
  lifecycle := sampleAdapter (ascii "lifecycle")
  imageRegistry := sampleAdapter (ascii "image_registry")
  vm := { sampleAdapter (ascii "vm") with
    kind := .qemuKvm, profile := some .linuxVmX64, imageDigest := sampleDigest, pauseResume := true }
  inventory := {
    providers := [
      { kind := .qemuHvf, imageDigest := ascii "latest" },
      { kind := .qemuKvm, profile := some .linuxVmX64, imageDigest := sampleDigest, pauseResume := true,
        qualified := true }] }

theorem capabilities_truthful_sample : sampleSeams.advertisesExecution = true ∧ sampleSeams.Executes ∧
    ∃ text doc, (writeCanonicalCapabilities sampleSeams.toEvidence.snapshot (List.replicate 2048 0)).1 = .ok text ∧
      parse text = some doc ∧ Advertises doc sampleSeams.inventory := by
  have hexecutes : sampleSeams.advertisesExecution = true := by decide +kernel
  have hroom : sampleSeams.toEvidence.text.length ≤ (List.replicate 2048 (0 : UInt8)).length := by decide +kernel
  obtain ⟨hiff, -, hwrite⟩ := capabilities_truthful sampleSeams
  obtain ⟨text, doc, hok, hparse, -, hlists⟩ := hwrite _ hroom (by rw [List.length_replicate]; decide)
  exact ⟨hexecutes, hiff.mp hexecutes, text, doc, hok, hparse, hlists⟩

/-- A record whose image is named by no digest is not among the images. -/
theorem tagged_image_left_out : ¬∀ s : EngineSeams, ∀ buf : Bytes, s.toEvidence.text.length ≤ buf.length →
    buf.length < u64Bound → ∃ text doc, ∃ images : List (ProviderRecord × Bytes),
      (writeCanonicalCapabilities s.toEvidence.snapshot buf).1 = .ok text ∧ parse text = some doc ∧
        doc.member (ascii "images") = some (.array (images.map shownImage)) ∧
          Lists (s.inventory.providers.map (·.imageDigest)) (images.map Prod.snd) := by
  intro h
  have hroom : sampleSeams.toEvidence.text.length ≤ (List.replicate 2048 (0 : UInt8)).length := by decide +kernel
  have hbound : (List.replicate 2048 (0 : UInt8)).length < u64Bound := by
    rw [List.length_replicate]
    decide
  obtain ⟨text, doc, images, hok, hparse, himages, hlists⟩ := h sampleSeams _ hroom hbound
  rw [write_snapshot _ hroom hbound] at hok
  cases hok
  rw [parse_text] at hparse
  cases hparse
  have hshown : images.map shownImage = sampleSeams.inventory.images.map shownImage := by
    have hmember : some (Value.array (sampleSeams.inventory.images.map shownImage)) =
        some (.array (images.map shownImage)) := himages
    exact (Value.array.inj (Option.some.inj hmember)).symm
  have hlatest : ascii "latest" ∈ images.map Prod.snd := (hlists.mem _).mpr List.mem_cons_self
  obtain ⟨x, hx, hdigest⟩ := List.mem_map.mp hlatest
  obtain ⟨y, hy, hsame⟩ := List.mem_map.mp (hshown ▸ List.mem_map_of_mem hx)
  simp only [shownImage, Value.object.injEq, List.cons.injEq, Prod.mk.injEq, Value.string.injEq, true_and, and_true]
    at hsame
  have hvalid := images_digest _ hy
  rw [hsame.2, hdigest] at hvalid
  exact absurd hvalid (by decide)

end Engine
