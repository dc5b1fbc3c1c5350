import ZigKernel.LibFirsts
import ZigKernel.LibJsonPrint
import ZigKernel.SupervisorCanonicalSound
import ZigKernel.SupervisorCapabilities

/-! Capabilities are truthful and well formed. A composition advertises execution exactly when its bound VM is one
that the inventory qualifies, its snapshot is never refused, and what is printed is a document whose lists hold the
values of the inventory once each, in the order in which they first occur. -/

namespace Supervisor

open Zig Json Firsts

namespace Contract

/-! ### Writing into enough room -/

/-- With room for it, the action writes the text behind what was there. -/
def Appends (m : Append Unit) (text : Bytes) : Prop :=
  ∀ w : Writer, w.n + text.length ≤ w.buf.length → w.buf.length < u64Bound →
    m w = (.ok (), { buf := overwrite w.buf w.n text, n := w.n + text.length })

variable {s t : Bytes}

theorem Appends.pure : Appends (pure ()) [] := by
  intro w _ _
  rw [overwrite, List.append_nil, List.length_nil, Nat.add_zero, List.take_append_drop]
  rfl

theorem Appends.bind {m m' : Append Unit} (h : Appends m s) (h' : Appends m' t) :
    Appends (m >>= fun _ => m') (s ++ t) := by
  intro w hroom hbound
  rw [List.length_append, ← Nat.add_assoc] at hroom
  have hfirst : w.n + s.length ≤ w.buf.length := Nat.le_trans (Nat.le_add_right _ _) hroom
  rw [Act.bind_ok_run (h w hfirst hbound), h' _ (by rwa [length_overwrite hfirst]) (by rwa [length_overwrite hfirst]),
    overwrite_overwrite (Nat.le_trans (Nat.le_add_right _ _) hfirst), List.length_append, Nat.add_assoc]

theorem Appends.ite {p : Prop} [Decidable p] {m m' : Append Unit} (h : Appends m s) (h' : Appends m' t) :
    Appends (if p then m else m') (if p then s else t) := by
  by_cases hp : p
  · rw [if_pos hp, if_pos hp]
    exact h
  · rw [if_neg hp, if_neg hp]
    exact h'

theorem appends_slice (s : Bytes) : Appends (appendSlice s) s := by
  intro w hroom hbound
  rw [appendSlice, Act.get_bind_run, addU64_of_lt (Nat.lt_of_le_of_lt hroom hbound), Act.lift_ok_bind_run,
    if_neg (Nat.not_lt.mpr hroom), memcpy_of_le (Nat.le_add_right _ _) hroom (Nat.add_sub_cancel_left ..).symm]
  rfl

theorem appends_byte (c : UInt8) : Appends (appendByte c) [c] := by
  intro w hroom hbound
  have hlt : w.n < w.buf.length := hroom
  have hstop : w.n + 1 < u64Bound := Nat.lt_of_le_of_lt hroom hbound
  rw [appendByte, Act.get_bind_run, if_neg (Nat.not_le.mpr hlt), addU64_of_lt hstop, Act.lift_ok_bind_run,
    Act.modify_run, List.set_eq_take_append_cons_drop, if_pos hlt, overwrite, List.append_assoc]
  rfl

theorem appendJsonByte_plain {c : UInt8} (h : isPlain c = true) : appendJsonByte c = appendByte c := by
  obtain ⟨hlow, hquote, hback⟩ := isPlain_iff.mp h
  have hne {b : UInt8} (hb : b < 0x20) : c ≠ b := by
    rintro rfl
    exact UInt8.not_le.mpr hb hlow
  rw [appendJsonByte, if_neg hquote, if_neg hback, if_neg (hne (by decide)), if_neg (hne (by decide)),
    if_neg (hne (by decide)), if_neg (hne (by decide)), if_neg (hne (by decide)), if_neg (UInt8.not_lt.mpr hlow)]

theorem appends_jsonBytes (h : plainText s = true) : Appends (appendJsonBytes s) s := by
  induction s with
  | nil => exact .pure
  | cons c rest ih =>
      rw [plainText, List.all_cons, Bool.and_eq_true, Bool.and_eq_true] at h
      rw [appendJsonBytes, appendJsonByte_plain h.1.1]
      exact (appends_byte c).bind (ih h.2)

theorem appends_jsonString (h : plainText s = true) : Appends (appendJsonString s) (print (.string s)) :=
  (appends_byte quote).bind ((appends_jsonBytes h).bind (appends_byte quote))

theorem appends_bool (v : Bool) : Appends (appendSlice (jsonBool v)) (print (.bool v)) := appends_slice (jsonBool v)

theorem Appends.congr {m : Append Unit} (h : Appends m s) (hst : s = t) : Appends m t := hst ▸ h

/-! ### What the lists show -/

theorem plain_profile (profile : ProfileId) : plainText profile.text = true := by
  cases profile <;> decide

theorem plain_kind (kind : ProviderKind) : plainText kind.text = true := by
  cases kind <;> decide

theorem digest_cases (h : isImageDigest s = true) :
    ∃ hex, s = digestPrefix ++ hex ∧ hex.length = 64 ∧ hex.all isDigestByte = true := by
  rw [isImageDigest] at h
  by_cases hprefix : digestPrefix.isPrefixOf s
  · rw [if_neg (not_not.mpr hprefix)] at h
    by_cases hlength : (s.drop digestPrefix.length).length = 64
    · rw [if_neg (not_not.mpr hlength)] at h
      obtain ⟨hex, rfl⟩ := List.isPrefixOf_iff_prefix.mp hprefix
      rw [List.drop_left] at h hlength
      exact ⟨hex, rfl, hlength, h⟩
    · rw [if_pos hlength] at h
      cases h
  · rw [if_pos hprefix] at h
    cases h

theorem plain_digestByte {c : UInt8} (h : isDigestByte c = true) : isPlain c = true ∧ c < 0x80 := by
  apply plain_idByte
  simp only [isDigestByte, Bool.or_eq_true, Bool.and_eq_true, decide_eq_true_eq] at h
  simp only [isIdByte, isLetter, isDigit, Bool.or_eq_true, Bool.and_eq_true, decide_eq_true_eq, beq_iff_eq]
  simp only [UInt8.le_iff_toNat_le, UInt8.reduceToNat] at h ⊢
  omega

theorem plain_digest (h : isImageDigest s = true) : plainText s = true := by
  obtain ⟨hex, rfl, -, hhex⟩ := digest_cases h
  rw [plainText, List.all_append, Bool.and_eq_true]
  refine ⟨by decide, List.all_eq_true.mpr fun c hc => ?_⟩
  obtain ⟨hplain, hascii⟩ := plain_digestByte (List.all_eq_true.mp hhex c hc)
  rw [hplain, decide_eq_true hascii]
  rfl

/-- The items behind those that are printed already. -/
def nextItems (first : Bool) (vs : List Value) : Bytes := if first then printItems vs else moreItems vs

theorem nextItems_cons (first : Bool) (v : Value) (vs : List Value) :
    nextItems first (v :: vs) = (if ¬first then ascii "," else []) ++ (print v ++ nextItems false vs) := by
  cases first with
  | true => exact printItems_cons v vs
  | false =>
      have hcomma : ascii "," = [comma] := by decide
      rw [if_pos Bool.false_ne_true, hcomma, nextItems, nextItems, if_neg Bool.false_ne_true, if_neg Bool.false_ne_true,
        moreItems, List.flatMap_cons]
      rfl

theorem appends_comma {first : Bool} {m : Append Unit} (h : Appends m t) :
    Appends (do
      if ¬first then appendSlice (ascii ",")
      m) ((if ¬first then ascii "," else []) ++ t) := by
  cases first with
  | true => exact h
  | false => exact (appends_slice _).bind h

/-- One round of a list loop. -/
theorem appends_item {first : Bool} {v : Value} {vs : List Value} {m rest : Append Unit} (hm : Appends m (print v))
    (hrest : Appends rest (nextItems false vs)) :
    Appends (do
      if ¬first then appendSlice (ascii ",")
      m
      rest) (nextItems first (v :: vs)) := by
  rw [nextItems_cons]
  exact appends_comma (hm.bind hrest)

theorem appends_list {κ : Type} [DecidableEq κ] {value : ProviderRecord → Option κ} {same : κ → ProviderRecord → Bool}
    {item : ProviderRecord → κ → Append Unit} {shown : ProviderRecord × κ → Value}
    (hsame : ∀ p q k, value p = some k → (same k q = true ↔ value q = some k))
    (hitem : ∀ p k, value p = some k → Appends (item p k) (print (shown (p, k)))) (first : Bool)
    (before l : List ProviderRecord) :
    Appends (writeList value same item first before l) (nextItems first ((firsts value before l).map shown)) := by
  induction l generalizing first before with
  | nil =>
      cases first
      all_goals exact .pure
  | cons p rest ih =>
      rw [writeList]
      cases hvalue : value p with
      | none =>
          rw [firsts_none hvalue]
          exact ih first _
      | some k =>
          have hseen : before.any (same k) = true ↔ k ∈ before.filterMap value := by
            simp only [List.any_eq_true, List.mem_filterMap, hsame p _ k hvalue]
          by_cases hany : before.any (same k) = true
          · dsimp only
            rw [if_pos hany, firsts_seen hvalue (hseen.mp hany)]
            exact ih first _
          · dsimp only
            rw [if_neg hany, firsts_new hvalue fun hk => hany (hseen.mpr hk), List.map_cons]
            exact appends_item (hitem p k hvalue) (ih false _)

/-! ### What a snapshot shows -/

def shownImage (x : ProviderRecord × Bytes) : Value :=
  .object [(ascii "id", .string x.1.imageId), (ascii "digest", .string x.2)]

def shownProvider (p : ProviderRecord) : Value :=
  .object ((ascii "kind", .string p.kind.text) :: (ascii "qualified", .bool p.qualified) ::
    (ascii "pause_resume", .bool p.pauseResume) ::
      (p.profile.toList.map (fun profile => (ascii "profile", .string profile.text)) ++
        if isImageDigest p.imageDigest then [(ascii "image_digest", .string p.imageDigest)] else []))

theorem plain_imageId (p : ProviderRecord) : plainText p.imageId = true := by
  rw [ProviderRecord.imageId]
  cases p.profile with
  | some profile => exact plain_profile profile
  | none => decide

theorem appends_image (p : ProviderRecord) (h : plainText s = true) :
    Appends (appendImage p s) (print (shownImage (p, s))) := by
  apply ((appends_slice _).bind ((appends_jsonString (plain_imageId p)).bind ((appends_slice _).bind
    ((appends_jsonString h).bind (appends_slice _))))).congr
  simp [shownImage, ascii, print, printMembers, quote, colon, comma, openBrace, closeBrace]

theorem appends_profile (profile : Option ProfileId) : Appends (appendProfile profile)
    (moreMembers (profile.toList.map fun profile => (ascii "profile", .string profile.text))) := by
  cases profile with
  | none => exact .pure
  | some profile =>
      apply ((appends_slice _).bind (appends_jsonString (plain_profile profile))).congr
      simp [moreMembers, printMember, ascii, print, quote, colon, comma]

theorem appends_digest (digest : Bytes) : Appends (appendDigest digest)
    (moreMembers (if isImageDigest digest then [(ascii "image_digest", .string digest)] else [])) := by
  rw [appendDigest]
  by_cases h : isImageDigest digest
  · rw [if_pos h, if_pos h]
    apply ((appends_slice _).bind (appends_jsonString (plain_digest h))).congr
    simp [moreMembers, printMember, ascii, print, quote, colon, comma]
  · rw [if_neg h, if_neg h]
    exact .pure

theorem appends_provider (p : ProviderRecord) : Appends (appendProvider p) (print (shownProvider p)) := by
  apply ((appends_slice _).bind ((appends_jsonString (plain_kind p.kind)).bind ((appends_slice _).bind
    ((appends_bool _).bind ((appends_slice _).bind ((appends_bool _).bind ((appends_profile _).bind
      ((appends_digest _).bind (appends_slice _))))))))).congr
  rw [shownProvider, print_object, moreMembers_cons, moreMembers_cons, moreMembers_append]
  simp [printMember, ascii, print, quote, colon, comma, openBrace, closeBrace]

/-- The records that `writeProviderList` prints. -/
def ProviderInventory.bound (inventory : ProviderInventory) : List ProviderRecord :=
  inventory.providers.filter fun p => p.kind != .none

theorem appends_providers (first : Bool) (l : List ProviderRecord) :
    Appends (providerLoop first l) (nextItems first ((l.filter fun p => p.kind != .none).map shownProvider)) := by
  induction l generalizing first with
  | nil =>
      cases first
      all_goals exact .pure
  | cons p rest ih =>
      rw [providerLoop, List.filter_cons]
      by_cases h : p.kind = .none
      · rw [if_pos h, if_neg (by rw [h]; decide)]
        exact ih first
      · rw [if_neg h, if_pos (bne_iff_ne.mpr h), List.map_cons]
        exact appends_item (appends_provider p) (ih false)

/-- The kinds of the backends, each once. -/
def ProviderInventory.backends (inventory : ProviderInventory) : List ProviderKind :=
  (firsts ProviderRecord.backend [] inventory.providers).map Prod.snd

/-- The images, each with the record that names it first. -/
def ProviderInventory.images (inventory : ProviderInventory) : List (ProviderRecord × Bytes) :=
  firsts ProviderRecord.image [] inventory.providers

def ProviderInventory.profiles (inventory : ProviderInventory) : List ProfileId :=
  (firsts ProviderRecord.profile [] inventory.providers).map Prod.snd

variable (inventory : ProviderInventory)

theorem appends_backends : Appends (writeBackendList inventory)
    (printItems (inventory.backends.map fun kind => .string kind.text)) := by
  rw [ProviderInventory.backends, List.map_map]
  apply appends_list (fun p q kind h => ?_) (fun _ kind _ => appends_jsonString (plain_kind kind)) true []
  simp only [ProviderRecord.backend] at h ⊢
  split_ifs at h with hp
  cases h
  rw [beq_iff_eq]
  constructor
  · intro hq
    rw [hq, if_neg hp]
  · intro hq
    split_ifs at hq
    exact Option.some.inj hq

theorem image_eq_some {p : ProviderRecord} {digest : Bytes} :
    p.image = some digest ↔ isImageDigest digest = true ∧ p.imageDigest = digest := by
  rw [ProviderRecord.image]
  by_cases h : isImageDigest p.imageDigest
  · rw [if_neg (not_not.mpr h), Option.some.injEq]
    exact ⟨fun heq => ⟨heq ▸ h, heq⟩, And.right⟩
  · rw [if_pos h]
    simp only [reduceCtorEq, false_iff]
    rintro ⟨hdigest, rfl⟩
    exact h hdigest

theorem appends_images : Appends (writeImageList inventory) (printItems (inventory.images.map shownImage)) := by
  apply appends_list (fun p q digest h => ?_) (fun p digest h => ?_) true []
  · rw [beq_iff_eq, image_eq_some, and_iff_right (image_eq_some.mp h).1]
  · exact appends_image p (plain_digest (image_eq_some.mp h).1)

theorem appends_profiles : Appends (writeProfileList inventory)
    (printItems (inventory.profiles.map fun profile => .string profile.text)) := by
  rw [ProviderInventory.profiles, List.map_map]
  apply appends_list (fun p q profile h => ?_) (fun _ profile _ => appends_jsonString (plain_profile profile)) true []
  exact beq_iff_eq

theorem appends_when {p : Bool} {v : Value} (h : s = print v) :
    Appends (appendWhen p s) (printItems (if p then [v] else [])) := by
  subst h
  cases p with
  | true => exact appends_slice _
  | false => exact .pure

def CanonicalCapabilities.members (features : CanonicalCapabilities) : List (Bytes × Value) :=
  [(ascii "execution", .bool features.execution), (ascii "auth", .bool features.auth),
    (ascii "durable_store", .bool features.durableStore),
    (ascii "network_modes", .array (if features.execution then [.string (ascii "offline")] else [])),
    (ascii "snapshots", .bool features.snapshots), (ascii "forks", .bool features.forks),
    (ascii "sse", .bool features.sse), (ascii "pause_resume", .bool features.pauseResume),
    (ascii "pty", .bool features.pty), (ascii "channels", .bool features.channels),
    (ascii "exports", .bool features.exports), (ascii "callbacks", .bool features.callbacks),
    (ascii "wasm_core", .bool features.wasmCore), (ascii "guest_wasi", .bool features.guestWasi)]

def CapabilitySnapshot.members (snapshot : CapabilitySnapshot) : List (Bytes × Value) :=
  [(ascii "api_version", .string apiVersion), (ascii "contract_version", .string contractVersion),
    (ascii "error_envelope", .string (ascii "canonical")),
    (ascii "backends", .array (snapshot.inventory.backends.map fun kind => .string kind.text)),
    (ascii "guest_abis", .array (if snapshot.features.wasmCore then [.string (ascii "wasm-core-p1")] else [])),
    (ascii "images", .array (snapshot.inventory.images.map shownImage)),
    (ascii "profiles", .array (snapshot.inventory.profiles.map fun profile => .string profile.text)),
    (ascii "providers", .array (snapshot.inventory.bound.map shownProvider)),
    (ascii "features", .object snapshot.features.members), (ascii "ceilings", .object [])]

theorem appends_features (features : CanonicalCapabilities) : Appends (appendFeatures features)
    (ascii "],\"features\":\x7b" ++ printMembers features.members) := by
  have hoffline : Appends (appendWhen features.execution (ascii "\"offline\""))
      (printItems (if features.execution then [.string (ascii "offline")] else [])) :=
    appends_when (by decide)
  apply ((appends_slice _).bind ((appends_bool _).bind ((appends_slice _).bind ((appends_bool _).bind
    ((appends_slice _).bind ((appends_bool _).bind ((appends_slice _).bind (hoffline.bind
      ((appends_slice _).bind ((appends_bool _).bind ((appends_slice _).bind ((appends_bool _).bind
        ((appends_slice _).bind ((appends_bool _).bind ((appends_slice _).bind ((appends_bool _).bind
          ((appends_slice _).bind ((appends_bool _).bind ((appends_slice _).bind ((appends_bool _).bind
            ((appends_slice _).bind ((appends_bool _).bind ((appends_slice _).bind ((appends_bool _).bind
              ((appends_slice _).bind ((appends_bool _).bind ((appends_slice _).bind
                (appends_bool _)))))))))))))))))))))))))))).congr
  simp [CanonicalCapabilities.members, printMembers_cons, moreMembers, printMember, ascii, print, quote,
    colon, comma, openBracket, closeBracket]

theorem appends_capabilities (snapshot : CapabilitySnapshot) :
    Appends (appendCapabilities snapshot) (print (.object snapshot.members)) := by
  have habis : Appends (appendWhen snapshot.features.wasmCore (ascii "\"wasm-core-p1\""))
      (printItems (if snapshot.features.wasmCore then [.string (ascii "wasm-core-p1")] else [])) :=
    appends_when (by decide)
  apply ((appends_slice _).bind ((appends_slice _).bind ((appends_slice _).bind ((appends_slice _).bind
    ((appends_slice _).bind ((appends_backends _).bind ((appends_slice _).bind (habis.bind
      ((appends_slice _).bind ((appends_images _).bind ((appends_slice _).bind ((appends_profiles _).bind
        ((appends_slice _).bind ((appends_providers true _).bind ((appends_features _).bind
          (appends_slice _)))))))))))))))).congr
  rw [CapabilitySnapshot.members, print_object]
  simp [moreMembers, printMember, ascii, print, printMembers, quote, colon, comma, openBracket, closeBracket, openBrace,
    closeBrace, nextItems, ProviderInventory.bound]

/-! ### What the text means -/

theorem plain_shownImage {x : ProviderRecord × Bytes} (h : isImageDigest x.2 = true) : plain (shownImage x) = true := by
  apply plainMembers_of rfl
  simp [plainItems, plain, plain_imageId, plain_digest h]

theorem plain_shownProvider (p : ProviderRecord) : plain (shownProvider p) = true := by
  apply plainMembers_of
  · cases p.profile with
    | none => cases isImageDigest p.imageDigest <;> rfl
    | some profile => cases isImageDigest p.imageDigest <;> rfl
  · cases hprofile : p.profile with
    | none =>
        by_cases h : isImageDigest p.imageDigest
        all_goals simp [plainItems, plain, plain_kind, h, plain_digest]
    | some profile =>
        by_cases h : isImageDigest p.imageDigest
        all_goals simp [plainItems, plain, plain_kind, plain_profile, h, plain_digest]

theorem plain_features (features : CanonicalCapabilities) : plain (.object features.members) = true := by
  apply plainMembers_of
  · rfl
  · cases h : features.execution
    all_goals simp only [CanonicalCapabilities.members, List.map_cons, List.map_nil, plainItems, plain, h]
    all_goals decide

theorem images_digest {x : ProviderRecord × Bytes} (h : x ∈ inventory.images) : isImageDigest x.2 = true :=
  (image_eq_some.mp (find_firsts h).1).1

theorem plain_snapshot (snapshot : CapabilitySnapshot) : plain (.object snapshot.members) = true := by
  have habis : plainItems (if snapshot.features.wasmCore then [.string (ascii "wasm-core-p1")] else []) = true := by
    cases snapshot.features.wasmCore <;> decide
  apply plainMembers_of
  · rfl
  · simp only [CapabilitySnapshot.members, List.map_cons, List.map_nil, plainItems, plain, Bool.and_true,
      Bool.and_eq_true]
    refine ⟨by decide, by decide, by decide, ?_, habis, ?_, ?_, ?_, plain_features _, rfl⟩
    · exact plainItems_map fun kind _ => plain_kind kind
    · exact plainItems_map fun x hx => plain_shownImage (images_digest _ hx)
    · exact plainItems_map fun profile _ => plain_profile profile
    · exact plainItems_map fun p _ => plain_shownProvider p

/-! ### Truth -/

/-- A record that bears out execution on a VM. -/
structure ProviderRecord.Qualifies (p : ProviderRecord) (kind : ProviderKind) (profile : ProfileId) (digest : Bytes) :
    Prop where
  qualified : p.qualified = true
  pauseResume : p.pauseResume = true
  kind : p.kind = kind
  profile : p.profile = some profile
  imageDigest : p.imageDigest = digest

theorem qualifies_iff {p : ProviderRecord} {kind : ProviderKind} {profile : ProfileId} {digest : Bytes} :
    p.qualifies kind profile digest = true ↔ p.Qualifies kind profile digest := by
  simp only [ProviderRecord.qualifies, Bool.and_eq_true, beq_iff_eq]
  constructor
  · rintro ⟨⟨⟨⟨hqualified, hpause⟩, hkind⟩, hprofile⟩, hdigest⟩
    exact ⟨hqualified, hpause, hkind, hprofile, hdigest⟩
  · exact fun h => ⟨⟨⟨⟨h.qualified, h.pauseResume⟩, h.kind⟩, h.profile⟩, h.imageDigest⟩

theorem matchesBoundVm_iff {kind : ProviderKind} {profile : ProfileId} {digest : Bytes} :
    inventoryMatchesBoundVm inventory kind profile digest = true ↔ kind ≠ .none ∧ profile.isLinuxVm = true ∧
      isImageDigest digest = true ∧ ∃ p ∈ inventory.providers, p.Qualifies kind profile digest := by
  simp only [inventoryMatchesBoundVm, Bool.if_false_left, Bool.and_eq_true, Bool.not_eq_true', decide_eq_false_iff_not,
    List.any_eq_true, qualifies_iff, not_not, ne_eq]

theorem matched_iff {ev : CompositionEvidence} : ev.matched = true ↔ ∃ profile, ev.vmProfile = some profile ∧
    ev.vmReady = true ∧ ev.vmVersion = contractVersion ∧ ev.vmPauseResume = true ∧
      inventoryMatchesBoundVm ev.inventory ev.vmKind profile ev.vmImageDigest = true := by
  rw [CompositionEvidence.matched]
  cases ev.vmProfile with
  | none => simp only [Bool.false_eq_true, reduceCtorEq, false_and, exists_false]
  | some profile =>
      simp only [Bool.and_eq_true, beq_iff_eq, Option.some.injEq, exists_eq_left', and_assoc]

/-- Each feature behind the gate needs `execution`. -/
theorem gated_execution {ev : CompositionEvidence} (h : (capabilitiesFromComposition ev).gated = true) :
    (capabilitiesFromComposition ev).execution = true := by
  by_contra hexec
  rw [Bool.not_eq_true] at hexec
  have hexec' : (ev.matched && linuxVmRequiredControls ev) = false := hexec
  simp [capabilitiesFromComposition, CanonicalCapabilities.gated, hexec'] at h

theorem executionBorneOut_snapshot {ev : CompositionEvidence}
    (h : (capabilitiesFromComposition ev).execution = true) : ev.snapshot.executionBorneOut = true := by
  obtain ⟨hmatched, hcontrols⟩ := Bool.and_eq_true_iff.mp h
  obtain ⟨profile, hprofile, -, -, hpause, hinventory⟩ := matched_iff.mp hmatched
  simp only [linuxVmRequiredControls, Bool.and_eq_true] at hcontrols
  have hfeatures : ¬(¬ev.snapshot.features.auth = true ∨ ¬ev.snapshot.features.durableStore = true ∨
      ¬ev.snapshot.features.pauseResume = true) := by
    rw [not_or, not_or, not_not, not_not, not_not]
    exact ⟨hcontrols.1.1.1.1.1.1.1.1, hcontrols.1.1.1.1.1.1.1.2, Bool.and_eq_true_iff.mpr ⟨h, hpause⟩⟩
  have hbound : ev.snapshot.boundProfile = some profile := hprofile
  rw [CapabilitySnapshot.executionBorneOut, if_neg hfeatures, hbound]
  exact hinventory

/-- The snapshot of a composition is never refused. -/
theorem truthful_snapshot (ev : CompositionEvidence) : assertTruthfulCapabilities ev.snapshot = .ok () := by
  have hwasm : ¬(ev.snapshot.features.wasmCore = true ∧
      ¬(ev.snapshot.features.auth = true ∧ ev.snapshot.features.durableStore = true)) := by
    rintro ⟨hcore, hmissing⟩
    have hcore' : (ev.wasmCore && ev.auth && ev.store) = true := hcore
    rw [Bool.and_eq_true, Bool.and_eq_true] at hcore'
    exact hmissing ⟨hcore'.1.2, hcore'.2⟩
  rw [assertTruthfulCapabilities, if_neg, if_neg, if_neg hwasm]
  · exact fun h => h.2 (gated_execution h.1)
  · exact fun h => h.2 (executionBorneOut_snapshot h.1)

/-- What is printed for a composition. -/
def CompositionEvidence.text (ev : CompositionEvidence) : Bytes := print (.object ev.snapshot.members)

theorem write_snapshot (ev : CompositionEvidence) {buf : Bytes} (hroom : ev.text.length ≤ buf.length)
    (hbound : buf.length < u64Bound) :
    writeCanonicalCapabilities ev.snapshot buf = (.ok ev.text, overwrite buf 0 ev.text) := by
  have hstart : (⟨buf, 0⟩ : Writer).n + ev.text.length ≤ buf.length := by rwa [Nat.zero_add]
  have hrun : printCapabilities ev.snapshot { buf, n := 0 } =
      (.ok ev.text, { buf := overwrite buf 0 ev.text, n := 0 + ev.text.length }) := by
    rw [printCapabilities, Act.bind_ok_run (appends_capabilities ev.snapshot _ hstart hbound), Act.get_bind_run]
    have hslice : (slice (overwrite buf 0 ev.text) 0 (0 + ev.text.length) : Outcome CanonicalWriteError Bytes) =
        .ok ev.text := by
      rw [slice_eq_ok]
      exact ⟨rfl, [], buf.drop (0 + ev.text.length), rfl, rfl⟩
    rw [Act.lift_run]
    exact congrArg (·, _) hslice
  rw [writeCanonicalCapabilities, truthful_snapshot, Act.lift_ok_bind_run, writeTruthful, hrun]
  rfl

theorem parse_text (ev : CompositionEvidence) : parse ev.text = some (.object ev.snapshot.members) :=
  parse_print (plain_snapshot _)

/-! ### The lists -/

theorem text_kind_injective : Function.Injective ProviderKind.text := by
  intro kind kind' h
  cases kind <;> cases kind' <;> first | rfl | exact absurd h (by decide)

theorem text_profile_injective : Function.Injective ProfileId.text := by
  intro profile profile' h
  cases profile <;> cases profile' <;> first | rfl | exact absurd h (by decide)

/-- The names of the values that the records of an inventory have. -/
def ProviderInventory.names {κ : Type} (value : ProviderRecord → Option κ) (name : κ → Bytes) : List Bytes :=
  (inventory.providers.filterMap value).map name

theorem lists_backends :
    Lists (inventory.names ProviderRecord.backend ProviderKind.text) (inventory.backends.map ProviderKind.text) :=
  (lists_firsts _ _).map text_kind_injective

theorem lists_images :
    Lists (inventory.providers.filterMap ProviderRecord.image) (inventory.images.map Prod.snd) := lists_firsts _ _

theorem lists_profiles :
    Lists (inventory.names ProviderRecord.profile ProfileId.text) (inventory.profiles.map ProfileId.text) :=
  (lists_firsts _ _).map text_profile_injective

end Contract

end Supervisor
