import ZigKernel.QualifyFat16
import Mathlib.Data.List.Nodup
import Mathlib.Data.List.Pairwise
import Mathlib.Data.List.Perm.Subperm

/-! A volume that is read to the end is a tree of disjoint chains. Whatever the bytes, reading ends, and the only exception
is the verifier's own. -/

namespace Qualify.Fat16

open Except (Ensures)

/-! ### What is accepted -/

/-- The cluster lies in the data region. -/
def Volume.InData (v : Volume) (c : Nat) : Prop := 2 ≤ c ∧ c < v.clusterCount + 2

/-- The links of the FAT from a cluster to the end of its chain, all in the data region. -/
inductive Chain (v : Volume) : Nat → List Nat → Prop where
  | last {c f : Nat} (hdata : v.InData c) (hfat : v.fat c = .ok f) (hend : 0xFFF8 ≤ f) : Chain v c [c]
  | next {c f : Nat} {cs : List Nat} (hdata : v.InData c) (hfat : v.fat c = .ok f)
      (hlink : 2 ≤ f ∧ f < 0xFFF0) (h : Chain v f cs) : Chain v c (c :: cs)

/-- Where the bytes of a cluster start. -/
def Volume.offsetOf (v : Volume) (c : Nat) : Nat := v.dataOffset + (c - 2) * v.clusterBytes

/-- The bytes of the clusters, one after the other. -/
def Volume.contents (v : Volume) (cs : List Nat) : Bytes :=
  cs.flatMap fun c => slice v.data (v.offsetOf c) (v.offsetOf c + v.clusterBytes)

/-- The records of a directory up to the end marker, without those that are deleted. -/
def live : List Bytes → List Bytes
  | [] => []
  | r :: rest => if r.head? = some 0 then [] else if r.head? = some 0xE5 then live rest else r :: live rest

def records (buf : Bytes) : List Bytes := (entryOffsets buf).map fun offset => slice buf offset (offset + 32)

/-- A directory of size 0 at `cluster`. -/
structure PointsTo (cluster : Nat) (r : Bytes) : Prop where
  attr : r[11]? = some 0x10
  first : LittleEndian.ofBytes (slice r 26 28) = cluster
  size : LittleEndian.ofBytes (slice r 28 32) = 0

/-- There is a record of this name, and what has the name points to `cluster`. -/
structure HasDot (buf : Bytes) (raw : Bytes) (cluster : Nat) : Prop where
  present : ∃ r ∈ live (records buf), slice r 0 11 = raw
  points : ∀ r ∈ live (records buf), slice r 0 11 = raw → PointsTo cluster r

/-- The directory of a path, and its cluster: the root, or an entry. -/
def Parent (entries : List Entry) (path : String) (cluster : Nat) : Prop :=
  ∃ name : String, '/' ∉ name.toList ∧ ((path = "/" ++ name ∧ cluster = 0) ∨
    ∃ d ∈ entries, d.kind = .directory ∧ path = d.path ++ "/" ++ name ∧ cluster = d.cluster)

structure Sound (v : Volume) (s : Found) : Prop where
  /-- Only an empty file has no clusters. -/
  chains : ∀ e ∈ s.entries, Chain v e.cluster e.clusters ∨
    (e.kind = .file ∧ e.size = 0 ∧ e.cluster = 0 ∧ e.clusters = [])
  acyclic : ∀ e ∈ s.entries, e.clusters.Nodup
  apart : s.entries.Pairwise fun a b => a.clusters.Disjoint b.clusters
  owned : ∀ c, 2 ≤ c → c < v.clusterCount + 2 → v.fat c ≠ .ok 0 → ∃ e ∈ s.entries, c ∈ e.clusters ∧
    ∀ e' ∈ s.entries, c ∈ e'.clusters → e' = e
  lengths : ∀ e ∈ s.entries, e.kind = .file → e.clusters.length = (e.size + v.clusterBytes - 1) / v.clusterBytes
  files : s.files = (s.entries.filter fun e => e.kind = .file).map fun e => (e.path, (v.contents e.clusters).take e.size)
  paths : (s.entries.map Entry.path).Nodup
  dots : ∀ e ∈ s.entries, e.kind = .directory → HasDot (v.contents e.clusters) dotName e.cluster ∧
    ∃ parent, Parent s.entries e.path parent ∧ HasDot (v.contents e.clusters) dotDotName parent
  copies : slice v.data v.fatOffset (v.fatOffset + v.fatBytes) =
    slice v.data (v.fatOffset + v.fatBytes) (v.fatOffset + 2 * v.fatBytes)

/-- The exceptions that `verify` handles. -/
def Handled (e : Raised) : Prop := (∃ message, e = .invalidESP message) ∨ e = .structError

/-! ### Checks and reads -/

section Calls

variable {α : Type} {Q : α → Prop}

theorem check_ensures {c : Prop} [Decidable c] {message : String} {f : Unit → Call α} (h : c → Ensures Handled Q (f ())) :
    Ensures Handled Q (check c message >>= f) := by
  rw [check]
  by_cases hc : c
  · rw [if_pos hc]
    exact h hc
  · rw [if_neg hc]
    exact Or.inl ⟨message, rfl⟩

theorem check_last {c : Prop} [Decidable c] {message : String} {Q : Unit → Prop} (h : c → Q ()) :
    Ensures Handled Q (check c message) := by
  rw [check]
  exact .ite h fun _ => Or.inl ⟨message, rfl⟩

theorem index_bind {β : Type} {xs : List β} {i : Nat} {f : β → Call α} (hi : i < xs.length)
    (h : Ensures Handled Q (f xs[i])) : Ensures Handled Q (index xs i >>= f) := by
  rw [index, List.getElem?_eq_getElem hi]
  exact h

theorem unpack_bind {n offset : Nat} {data : Bytes} {f : Nat → Call α} (hfits : offset + n ≤ data.length)
    (h : Ensures Handled Q (f (LittleEndian.ofBytes (slice data offset (offset + n))))) :
    Ensures Handled Q (unpackFrom n data offset >>= f) := by
  rw [unpackFrom, if_pos hfits]
  exact h

theorem length_slice {xs : Bytes} {lo hi : Nat} (h : lo ≤ hi) (h' : hi ≤ xs.length) : (slice xs lo hi).length = hi - lo := by
  rw [slice, List.length_take, List.length_drop]
  omega

end Calls

/-! ### The boot sector -/

structure Volume.WellFormed (v : Volume) : Prop where
  bytes : 0 < v.clusterBytes ∧ v.clusterBytes % 32 = 0
  fatSize : (v.clusterCount + 2) * 2 ≤ v.fatBytes
  fats : v.fatOffset + 2 * v.fatBytes = v.rootOffset
  root : v.rootOffset + 32 * v.rootEntries = v.dataOffset
  data : v.dataOffset + v.clusterCount * v.clusterBytes ≤ v.data.length
  copies : slice v.data v.fatOffset (v.fatOffset + v.fatBytes) =
    slice v.data (v.fatOffset + v.fatBytes) (v.fatOffset + 2 * v.fatBytes)

section Volumes

variable {v : Volume}

theorem checkVolume_ensures (hbytes : 0 < v.clusterBytes ∧ v.clusterBytes % 32 = 0)
    (hfats : v.fatOffset + 2 * v.fatBytes = v.rootOffset) (hroot : v.rootOffset + 32 * v.rootEntries = v.dataOffset)
    (hcount : v.clusterCount = (v.data.length - v.dataOffset) / v.clusterBytes) (hlength : 512 ≤ v.data.length) :
    Ensures Handled (fun _ => v.WellFormed) (checkVolume v) := by
  rw [checkVolume]
  refine check_ensures fun hdata => check_ensures fun hrange => check_ensures fun hfat => ?_
  dsimp only
  refine check_ensures fun hcopies => ?_
  have hend : v.dataOffset + v.clusterCount * v.clusterBytes ≤ v.data.length := by
    have hle := Nat.div_mul_le_self (v.data.length - v.dataOffset) v.clusterBytes
    rw [← hcount] at hle
    omega
  refine unpack_bind (by omega) (index_bind (by omega) ?_)
  have hwell : v.WellFormed := ⟨hbytes, hfat, hfats, hroot, hend, by rw [hcopies, hfats]⟩
  refine .ite (fun _ => unpack_bind (by omega) (check_last fun _ => hwell)) fun _ => ?_
  exact Ensures.bind (Ensures.pure (Q := fun _ => True) True.intro) fun _ _ => check_last fun _ => hwell

theorem readVolume_ensures (data : Bytes) :
    Ensures Handled (fun v => v.WellFormed ∧ v.data = data) (readVolume data) := by
  rw [readVolume]
  refine check_ensures fun hlength => check_ensures fun _ => unpack_bind (by omega) (check_ensures fun _ => ?_)
  refine index_bind (by omega) (check_ensures fun hspc => ?_)
  dsimp only
  refine unpack_bind (by omega) (index_bind (by omega) (unpack_bind (by omega) (check_ensures fun hfats => ?_)))
  refine check_ensures fun hroots => unpack_bind (by omega) (unpack_bind (by omega) (check_ensures fun _ => ?_))
  refine check_ensures fun _ => unpack_bind (by omega) (check_ensures fun _ => ?_)
  refine unpack_bind (by omega) (check_ensures fun hsectors => ?_)
  refine (checkVolume_ensures ?_ ?_ ?_ rfl hlength.1).bind fun _ hwell => Ensures.pure ⟨hwell, rfl⟩
  · simp only [List.mem_cons, List.not_mem_nil, or_false] at hspc
    dsimp only
    omega
  · dsimp only
    rw [hfats.2, Nat.add_mul, Nat.mul_assoc]
  · exact congrArg _ (Nat.mul_comm _ _)

theorem Volume.WellFormed.fat_ok (hv : v.WellFormed) {c : Nat} (hc : c < v.clusterCount + 2) : ∃ f, v.fat c = .ok f := by
  have hfat := hv.fatSize
  have hfats := hv.fats
  have hroot := hv.root
  have hdata := hv.data
  have hfits : v.fatOffset + c * 2 + 2 ≤ v.data.length := by omega
  exact ⟨_, if_pos hfits⟩

theorem Volume.WellFormed.cluster_fits (hv : v.WellFormed) {c : Nat} (hc : v.InData c) :
    v.offsetOf c + v.clusterBytes ≤ v.data.length := by
  obtain ⟨hlow, hhigh⟩ := hc
  have hmul : (c - 2 + 1) * v.clusterBytes ≤ v.clusterCount * v.clusterBytes := Nat.mul_le_mul_right _ (by omega)
  have hdata := hv.data
  rw [Nat.add_mul, Nat.one_mul] at hmul
  rw [Volume.offsetOf]
  omega

theorem Volume.WellFormed.length_contents (hv : v.WellFormed) {cs : List Nat} (hcs : ∀ c ∈ cs, v.InData c) :
    (v.contents cs).length = cs.length * v.clusterBytes := by
  induction cs with
  | nil => exact (Nat.zero_mul _).symm
  | cons c cs ih =>
      obtain ⟨hc, hcs⟩ := List.forall_mem_cons.mp hcs
      have hslice : (slice v.data (v.offsetOf c) (v.offsetOf c + v.clusterBytes)).length = v.clusterBytes := by
        rw [length_slice (Nat.le_add_right _ _) (hv.cluster_fits hc), Nat.add_sub_cancel_left]
      rw [Volume.contents, List.flatMap_cons, List.length_append, hslice, List.length_cons, Nat.succ_mul, Nat.add_comm]
      exact congrArg (· + v.clusterBytes) (ih hcs)

end Volumes

/-! ### Chains -/

section Chains

variable {v : Volume}

theorem clusterOffset_ensures (v : Volume) (c : Nat) :
    Ensures Handled (fun p => v.InData c ∧ p = v.offsetOf c) (clusterOffset v c) := by
  rw [clusterOffset]
  refine check_ensures fun hdata => ?_
  dsimp only
  exact check_ensures fun _ => Ensures.pure ⟨hdata, rfl⟩

theorem positionsOf_ensures (v : Volume) (cs : List Nat) :
    Ensures Handled (fun ps => ps = cs.map v.offsetOf) (positionsOf v cs) := by
  induction cs with
  | nil => exact Ensures.pure rfl
  | cons c rest ih =>
      rw [positionsOf]
      refine (clusterOffset_ensures v c).bind fun p hp => ih.bind fun ps hps => Ensures.pure ?_
      rw [hp.2, hps, List.map_cons]

theorem Chain.inData {c : Nat} {cs : List Nat} (h : Chain v c cs) : ∀ x ∈ cs, v.InData x := by
  induction h with
  | last hdata => exact List.forall_mem_singleton.mpr hdata
  | next hdata _ _ _ ih => exact List.forall_mem_cons.mpr ⟨hdata, ih⟩

theorem Chain.ne_nil {c : Nat} {cs : List Nat} (h : Chain v c cs) : cs ≠ [] := by
  cases h <;> exact List.cons_ne_nil _ _

/-- The result of the loop of `chain`: the links from `current` on, which nothing had claimed. -/
structure Chained (v : Volume) (current : Nat) (seen : List Nat) (claimed : List (Nat × String)) (cs : List Nat)
    (claimed' : List (Nat × String)) : Prop where
  chain : Chain v current cs
  nodup : (seen ++ cs).Nodup
  fresh : ∀ c ∈ cs, claimed.lookup c = none
  claims : ∀ c, (claimed'.lookup c).isSome ↔ c ∈ cs ∨ (claimed.lookup c).isSome

theorem isSome_lookup_cons {c x : Nat} {owner : String} {claimed : List (Nat × String)} :
    (((x, owner) :: claimed).lookup c).isSome ↔ c = x ∨ (claimed.lookup c).isSome := by
  rw [List.lookup_cons]
  by_cases h : c = x
  · simp [h]
  · simp [h, beq_eq_false_iff_ne.mpr h]

theorem nodup_concat {seen : List Nat} {c : Nat} (h : seen.Nodup) (hc : c ∉ seen) : (seen ++ [c]).Nodup := by
  rw [List.nodup_append]
  refine ⟨h, List.nodup_singleton c, fun a ha b hb heq => ?_⟩
  rw [List.mem_singleton.mp hb] at heq
  exact hc (heq ▸ ha)

/-- The induction is on the turns left: the clusters seen are different ones of the data region, so that the turns do not run
out. -/
theorem chainLoop_ensures (hv : v.WellFormed) {owner : String} {fuel current : Nat} {seen : List Nat}
    {claimed : List (Nat × String)} (hseen : ∀ c ∈ seen, v.InData c) (hnodup : seen.Nodup)
    (hfuel : fuel + seen.length = v.clusterCount + 1) :
    Ensures Handled (fun r => ∃ cs, r.1 = seen ++ cs ∧ Chained v current seen claimed cs r.2)
      (chainLoop v owner fuel current seen claimed) := by
  induction fuel generalizing current seen claimed with
  | zero =>
      have hsub : seen ⊆ List.range' 2 v.clusterCount := fun c hc =>
        List.mem_range'_1.mpr ⟨(hseen c hc).1, by have := (hseen c hc).2; omega⟩
      have hle := (hnodup.subperm hsub).length_le
      rw [List.length_range'] at hle
      omega
  | succ fuel ih =>
      rw [chainLoop]
      refine check_ensures fun _ => (clusterOffset_ensures v current).bind fun _ hdata => ?_
      refine check_ensures fun hunseen => check_ensures fun hunclaimed => ?_
      obtain ⟨f, hf⟩ := hv.fat_ok hdata.1.2
      rw [hf]
      change Ensures Handled _ (if f ≥ 0xFFF8 then _ else _)
      have hnext : (seen ++ [current]).Nodup := nodup_concat hnodup hunseen
      refine .ite (fun hend => ?_) fun hlink => check_ensures fun hrange => ?_
      · refine Ensures.pure ⟨[current], rfl, .last hdata.1 hf hend, hnext, List.forall_mem_singleton.mpr hunclaimed, fun c => ?_⟩
        rw [isSome_lookup_cons, List.mem_singleton]
      · refine (ih (List.forall_mem_append.mpr ⟨hseen, List.forall_mem_singleton.mpr hdata.1⟩) hnext ?_).mono ?_
        · rw [List.length_append, List.length_singleton]
          omega
        · rintro r ⟨cs, hr, h⟩
          refine ⟨current :: cs, by rw [hr, List.append_assoc]; rfl, .next hdata.1 hf hrange h.chain, ?_, ?_, fun c => ?_⟩
          · rw [List.append_cons]
            exact h.nodup
          · refine List.forall_mem_cons.mpr ⟨hunclaimed, fun c hc => ?_⟩
            have hnone := h.fresh c hc
            rw [← Option.not_isSome_iff_eq_none, isSome_lookup_cons, not_or] at hnone
            exact Option.not_isSome_iff_eq_none.mp hnone.2
          · rw [h.claims, isSome_lookup_cons, List.mem_cons]
            tauto

end Chains

/-! ### Names -/

section Names

variable {α : Type} {Q : α → Prop} {raw : Bytes}

/-- The characters of ASCII bytes. -/
def chars (raw : Bytes) : List Char := raw.map fun b => Char.ofNat b.toNat

theorem toNat_ofNat {n : Nat} (h : n < 128) : (Char.ofNat n).toNat = n := by
  rw [Char.ofNat, dif_pos (Or.inl (Nat.lt_trans h (by decide)))]
  rfl

/-- A character that is not among the bytes. -/
theorem not_mem_chars {b : UInt8} (hascii : ∀ c ∈ raw, c < 128) (hb : b.toNat < 128) (h : b ∉ raw) :
    Char.ofNat b.toNat ∉ chars raw := by
  intro hmem
  obtain ⟨c, hc, heq⟩ := List.mem_map.mp hmem
  have htoNat := congrArg Char.toNat heq
  have hlt : c.toNat < 128 := hascii c hc
  rw [toNat_ofNat hlt, toNat_ofNat hb] at htoNat
  exact h (UInt8.toNat.inj htoNat ▸ hc)

theorem decodeAscii_bind {f : String → Call α} (hascii : ∀ b ∈ raw, b < 128)
    (h : Ensures Handled Q (f (String.ofList (chars raw)))) : Ensures Handled Q (decodeAscii raw >>= f) := by
  rw [decodeAscii, if_pos (List.all_eq_true.mpr fun b hb => decide_eq_true (hascii b hb))]
  exact h

theorem mem_of_mem_rstrip {b : UInt8} (h : b ∈ rstrip raw) : b ∈ raw := by
  rw [rstrip, List.mem_reverse] at h
  exact List.mem_reverse.mp ((List.dropWhile_sublist _).subset h)

/-- The raw name and the name that is read from it. -/
structure Named (raw : Bytes) (n : String) : Prop where
  ascii : ∀ b ∈ raw, b < 128
  dot : raw = dotName ↔ n = "."
  dotDot : raw = dotDotName ↔ n = ".."
  slash : '/' ∉ n.toList

/-- A name that does not start with a dot and has no slash. -/
theorem named_plain {n : String} {c : Char} (hascii : ∀ b ∈ raw, b < 128) (hdot : raw ≠ dotName)
    (hdotDot : raw ≠ dotDotName) (hn : n.toList.head? = some c) (hc : c ≠ '.') (hslash : '/' ∉ n.toList) : Named raw n where
  ascii := hascii
  dot := iff_of_false hdot fun h => by
    rw [h] at hn
    exact hc (Option.some.inj hn).symm
  dotDot := iff_of_false hdotDot fun h => by
    rw [h] at hn
    exact hc (Option.some.inj hn).symm
  slash := hslash

theorem name_ensures (raw : Bytes) : Ensures Handled (Named raw) (name raw) := by
  rw [name]
  refine .ite (fun hdot => ?_) fun hdot => .ite (fun hdotDot => ?_) fun hdotDot => ?_
  · subst hdot
    exact Ensures.pure ⟨by simp [dotName], by decide, by decide, by decide⟩
  · subst hdotDot
    exact Ensures.pure ⟨by simp [dotDotName], by decide, by decide, by decide⟩
  refine check_ensures fun hprintable => ?_
  have hascii : ∀ b ∈ raw, b < 128 := fun b hb =>
    UInt8.lt_trans (of_decide_eq_true (List.all_eq_true.mp hprintable b hb)).2 (by decide)
  dsimp only
  refine check_ensures fun hpadding => check_ensures fun hall => ?_
  have hallowed : ∀ b ∈ rstrip (raw.take 8) ++ rstrip (raw.drop 8), b ∉ forbidden := fun b hb =>
    of_decide_eq_true (List.all_eq_true.mp hall b hb)
  have hbase : ∀ b ∈ rstrip (raw.take 8), b < 128 := fun b hb => hascii b (List.mem_of_mem_take (mem_of_mem_rstrip hb))
  have hext : ∀ b ∈ rstrip (raw.drop 8), b < 128 := fun b hb => hascii b (List.mem_of_mem_drop (mem_of_mem_rstrip hb))
  refine decodeAscii_bind hbase (decodeAscii_bind hext (check_ensures fun _ => Ensures.pure ?_))
  have hmissing : ∀ b ∈ forbidden, b.toNat < 128 → Char.ofNat b.toNat ∉ chars (rstrip (raw.take 8)) ∧
      Char.ofNat b.toNat ∉ chars (rstrip (raw.drop 8)) := by
    intro b hb hlt
    exact ⟨not_mem_chars hbase hlt fun hmem => hallowed b (List.mem_append_left _ hmem) hb,
      not_mem_chars hext hlt fun hmem => hallowed b (List.mem_append_right _ hmem) hb⟩
  have hdotChar := (hmissing 46 (by decide) (by decide)).1
  have hslash := hmissing 47 (by decide) (by decide)
  cases hchars : chars (rstrip (raw.take 8)) with
  | nil => exact absurd (List.map_eq_nil_iff.mp hchars) hpadding.1
  | cons c cs =>
      rw [hchars] at hdotChar hslash
      refine named_plain hascii hdot hdotDot (c := c) ?_ (fun hc => hdotChar (hc ▸ List.mem_cons_self)) ?_
      · rw [String.toList_append, String.toList_ofList]
        rfl
      · rw [String.toList_append, String.toList_ofList, List.mem_append, not_or]
        refine ⟨hslash.1, ?_⟩
        split
        · rw [String.toList_append, List.mem_append, not_or]
          exact ⟨by decide, String.toList_ofList.symm ▸ hslash.2⟩
        · exact List.not_mem_nil

end Names

/-! ### The fields of an entry -/

structure FieldsOf (entry : Bytes) (f : Fields) : Prop where
  raw : f.raw = slice entry 0 11
  named : Named f.raw f.name
  attr : (entry[11]?).map UInt8.toNat = some f.attr
  kind : f.attr = 0x10 ∨ f.attr = 0x20
  first : f.first = LittleEndian.ofBytes (slice entry 26 28)
  size : f.size = LittleEndian.ofBytes (slice entry 28 32)

theorem readFields_ensures {directory : String} {names : List String} {entry : Bytes} (h : entry.length = 32) :
    Ensures Handled (FieldsOf entry) (readFields directory names entry) := by
  rw [readFields]
  refine index_bind (by omega) (check_ensures fun _ => check_ensures fun hkind => index_bind (by omega) ?_)
  refine check_ensures fun _ => ?_
  dsimp only
  refine (name_ensures _).bind fun n hn => check_ensures fun _ => ?_
  refine unpack_bind (by omega) (unpack_bind (by omega) (Ensures.pure ⟨rfl, hn, ?_, ?_, rfl, rfl⟩))
  · rw [List.getElem?_eq_getElem (by omega)]
    rfl
  · simp only [List.mem_cons, List.not_mem_nil, or_false] at hkind
    exact hkind

/-! ### The state of the walk -/

structure Inv (v : Volume) (s : Found) : Prop where
  chains : ∀ e ∈ s.entries, Chain v e.cluster e.clusters ∨
    (e.kind = .file ∧ e.size = 0 ∧ e.cluster = 0 ∧ e.clusters = [])
  nodup : (s.entries.flatMap Entry.clusters).Nodup
  claimed : ∀ c, (s.claimed.lookup c).isSome ↔ c ∈ s.entries.flatMap Entry.clusters
  lengths : ∀ e ∈ s.entries, e.kind = .file → e.clusters.length = (e.size + v.clusterBytes - 1) / v.clusterBytes
  files : s.files = (s.entries.filter fun e => e.kind = .file).map fun e => (e.path, (v.contents e.clusters).take e.size)
  paths : s.paths = (s.entries.map Entry.path).reverse
  distinct : s.paths.Nodup

theorem inv_init (v : Volume) : Inv v {} where
  chains := nofun
  nodup := List.nodup_nil
  claimed := fun c => by simp
  lengths := nofun
  files := rfl
  paths := rfl
  distinct := List.nodup_nil

/-- The clusters of an entry: nothing had claimed them, and now they are claimed. -/
structure Took (v : Volume) (f : Fields) (claimed : List (Nat × String)) (cs : List Nat) (claimed' : List (Nat × String)) :
    Prop where
  chain : Chain v f.first cs ∨ (f.attr = 0x20 ∧ f.size = 0 ∧ f.first = 0 ∧ cs = [])
  nodup : cs.Nodup
  fresh : ∀ c ∈ cs, claimed.lookup c = none
  claims : ∀ c, (claimed'.lookup c).isSome ↔ c ∈ cs ∨ (claimed.lookup c).isSome

section Walk

variable {v : Volume} {d : Dir} {f : Fields} {s t u : Found} {recurse : Dir → Found → Call Found}

theorem clustersOf_ensures (hv : v.WellFormed) (path : String) (f : Fields) (s : Found) :
    Ensures Handled (fun r => ∃ cs claimed, r = (cs, { s with claimed }) ∧ Took v f s.claimed cs claimed)
      (clustersOf v path f s) := by
  rw [clustersOf]
  refine .ite (fun hempty => check_ensures fun hfirst => ?_) fun _ => ?_
  · exact Ensures.pure ⟨[], s.claimed, rfl, Or.inr ⟨hempty.1, hempty.2, hfirst, rfl⟩, List.nodup_nil, nofun, fun c => by simp⟩
  · rw [chain]
    refine (chainLoop_ensures hv (by nofun) List.nodup_nil rfl).bind fun r hr => ?_
    obtain ⟨cs, hcs, h⟩ := hr
    obtain ⟨r, claimed⟩ := r
    rw [List.nil_append] at hcs
    cases hcs
    exact Ensures.pure ⟨_, _, rfl, Or.inl h.chain, h.nodup, h.fresh, h.claims⟩

theorem Took.inData {claimed claimed' : List (Nat × String)} {cs : List Nat} (h : Took v f claimed cs claimed') :
    ∀ c ∈ cs, v.InData c := by
  rcases h.chain with hchain | ⟨-, -, -, rfl⟩
  · exact hchain.inData
  · nofun

/-- One more entry whose clusters were not claimed. -/
theorem Inv.add (h : Inv v s) {e : Entry} {claimed : List (Nat × String)} {files : List (String × Bytes)}
    (hpath : e.path ∉ s.paths) (hchain : Chain v e.cluster e.clusters ∨
      (e.kind = .file ∧ e.size = 0 ∧ e.cluster = 0 ∧ e.clusters = [])) (hnodup : e.clusters.Nodup)
    (hfresh : ∀ c ∈ e.clusters, s.claimed.lookup c = none)
    (hclaims : ∀ c, (claimed.lookup c).isSome ↔ c ∈ e.clusters ∨ (s.claimed.lookup c).isSome)
    (hlength : e.kind = .file → e.clusters.length = (e.size + v.clusterBytes - 1) / v.clusterBytes)
    (hfiles : files = s.files ++ ([e].filter fun e => e.kind = .file).map fun e =>
      (e.path, (v.contents e.clusters).take e.size)) :
    Inv v { claimed, files, entries := s.entries ++ [e], paths := e.path :: s.paths } where
  chains := List.forall_mem_append.mpr ⟨h.chains, List.forall_mem_singleton.mpr hchain⟩
  nodup := by
    rw [List.flatMap_append, List.flatMap_singleton, List.nodup_append]
    refine ⟨h.nodup, hnodup, fun a ha b hb heq => ?_⟩
    have hsome := (h.claimed a).mpr ha
    rw [heq, hfresh b hb] at hsome
    cases hsome
  claimed := by
    intro c
    rw [hclaims, h.claimed, List.flatMap_append, List.flatMap_singleton, List.mem_append, or_comm]
  lengths := List.forall_mem_append.mpr ⟨h.lengths, List.forall_mem_singleton.mpr hlength⟩
  files := by rw [hfiles, h.files, List.filter_append, List.map_append]
  paths := by rw [List.map_append, List.reverse_append, h.paths]; rfl
  distinct := List.nodup_cons.mpr ⟨hpath, h.distinct⟩

/-- The dot entries of a directory are right. -/
def Dotted (v : Volume) (entries : List Entry) (e : Entry) : Prop :=
  HasDot (v.contents e.clusters) dotName e.cluster ∧
    ∃ parent, Parent entries e.path parent ∧ HasDot (v.contents e.clusters) dotDotName parent

/-- More entries, and among them only directories with the right dot entries. -/
def Grew (v : Volume) (s t : Found) : Prop :=
  ∃ new, t.entries = s.entries ++ new ∧ ∀ e ∈ new, e.kind = .directory → Dotted v t.entries e

theorem Parent.mono {entries : List Entry} {path : String} {cluster : Nat} (h : Parent entries path cluster)
    (new : List Entry) : Parent (entries ++ new) path cluster := by
  obtain ⟨n, hslash, hroot | ⟨d, hd, hkind, hpath, hcluster⟩⟩ := h
  · exact ⟨n, hslash, Or.inl hroot⟩
  · exact ⟨n, hslash, Or.inr ⟨d, List.mem_append_left _ hd, hkind, hpath, hcluster⟩⟩

theorem Dotted.mono {entries : List Entry} {e : Entry} (h : Dotted v entries e) (new : List Entry) :
    Dotted v (entries ++ new) e := by
  obtain ⟨hdot, parent, hparent, hdotDot⟩ := h
  exact ⟨hdot, parent, hparent.mono new, hdotDot⟩

theorem Grew.refl : Grew v s s := ⟨[], (List.append_nil _).symm, nofun⟩

theorem Grew.trans (h : Grew v s t) (h' : Grew v t u) : Grew v s u := by
  obtain ⟨new, heq, hnew⟩ := h
  obtain ⟨more, heq', hmore⟩ := h'
  refine ⟨new ++ more, by rw [heq', heq, List.append_assoc], List.forall_mem_append.mpr ⟨fun e he hkind => ?_, hmore⟩⟩
  rw [heq']
  exact (hnew e he hkind).mono more

/-- The directory is the root, or that of an entry. -/
def Dir.InTree (d : Dir) (entries : List Entry) : Prop :=
  (d.directory = "/" ∧ d.cluster = 0) ∨
    ∃ e ∈ entries, e.kind = .directory ∧ d.directory = e.path ++ "/" ∧ d.cluster = e.cluster

/-- The records of the directory are whole, and its clusters are those at `offsets`. -/
structure Dir.Shape (d : Dir) (v : Volume) : Prop where
  whole : d.buf.length % 32 = 0
  offsets : ∀ offsets, d.offsets = some offsets → d.buf.length = offsets.length * v.clusterBytes

/-- What `walk` does. -/
structure Walked (v : Volume) (d : Dir) (s t : Found) : Prop where
  inv : Inv v t
  grew : Grew v s t
  dots : d.directory ≠ "/" → HasDot d.buf dotName d.cluster ∧ HasDot d.buf dotDotName d.parent

def Recurses (v : Volume) (recurse : Dir → Found → Call Found) : Prop :=
  ∀ d s, d.InTree s.entries → d.Shape v → Inv v s → Ensures Handled (Walked v d s) (recurse d s)

theorem Dir.InTree.mono (h : d.InTree s.entries) (hgrew : Grew v s t) : d.InTree t.entries := by
  obtain ⟨new, hnew, -⟩ := hgrew
  rw [hnew]
  exact h.imp id fun ⟨e, he, hrest⟩ => ⟨e, List.mem_append_left _ he, hrest⟩

theorem Dir.InTree.parent {entries : List Entry} (h : d.InTree entries) {n : String} (hslash : '/' ∉ n.toList) :
    Parent entries (d.directory ++ n) d.cluster := by
  rcases h with ⟨hroot, hcluster⟩ | ⟨e, he, hkind, hpath, hcluster⟩
  · exact ⟨n, hslash, Or.inl ⟨by rw [hroot], hcluster⟩⟩
  · exact ⟨n, hslash, Or.inr ⟨e, he, hkind, by rw [hpath], hcluster⟩⟩

/-- A directory below is not the root. -/
theorem Dir.InTree.below {entries : List Entry} (h : d.InTree entries) (n : String) : d.directory ++ n ++ "/" ≠ "/" := by
  intro heq
  have hlist := congrArg String.toList heq
  have hne : d.directory.toList ≠ [] := by
    rcases h with ⟨hroot, -⟩ | ⟨e, -, -, hpath, -⟩
    · rw [hroot]
      decide
    · rw [hpath, String.toList_append]
      exact List.append_ne_nil_of_right_ne_nil _ (by decide)
  rw [String.toList_append, String.toList_append] at hlist
  have hlength := congrArg List.length hlist
  have hpos := List.length_pos_iff.mpr hne
  rw [List.length_append, List.length_append] at hlength
  have hone : "/".toList.length = 1 := rfl
  omega

theorem absoluteOf_ensures (hv : v.WellFormed) (hshape : d.Shape v) {offset : Nat} (hoffset : offset < d.buf.length) :
    Ensures Handled (fun _ => True) (absoluteOf v d offset) := by
  rw [absoluteOf]
  cases hoffsets : d.offsets with
  | none => exact True.intro
  | some offsets =>
      have hlength := hshape.offsets offsets hoffsets
      refine index_bind ?_ True.intro
      rw [hlength] at hoffset
      exact (Nat.div_lt_iff_lt_mul hv.bytes.1).mpr hoffset

theorem contents_eq (v : Volume) (cs : List Nat) :
    ((cs.map v.offsetOf).flatMap fun p => slice v.data p (p + v.clusterBytes)) = v.contents cs := by
  rw [List.flatMap_map, Volume.contents]

/-- A file is there, with its content. -/
theorem inv_file (hinv : Inv v s) {path rawName83 : String} {entryOffset : Nat} {cs : List Nat}
    {claimed : List (Nat × String)} (hpath : path ∉ s.paths) (htook : Took v f s.claimed cs claimed)
    (hlength : cs.length = (f.size + v.clusterBytes - 1) / v.clusterBytes) {digest : Option String} :
    Inv v { claimed, files := s.files ++ [(path, (v.contents cs).take f.size)]
            entries := s.entries ++ [{ path, rawName83, entryOffset, cluster := f.first, size := f.size, kind := .file
                                       clusters := cs, sha256 := digest }]
            paths := path :: s.paths } := by
  refine hinv.add (e := { path, rawName83, entryOffset, cluster := f.first, size := f.size, kind := .file, clusters := cs
                          sha256 := digest }) hpath ?_ htook.nodup htook.fresh htook.claims (fun _ => hlength) rfl
  exact htook.chain.imp id fun hempty => ⟨rfl, hempty.2.1, hempty.2.2.1, hempty.2.2.2⟩

/-- A directory is there, and it is still to be walked. -/
theorem inv_directory (hinv : Inv v s) {path rawName83 : String} {entryOffset : Nat} {cs : List Nat}
    {claimed : List (Nat × String)} (hpath : path ∉ s.paths) (htook : Took v f s.claimed cs claimed)
    (hkind : f.attr = 0x10) :
    Inv v { claimed, files := s.files
            entries := s.entries ++ [{ path, rawName83, entryOffset, cluster := f.first, size := f.size, kind := .directory
                                       clusters := cs, sha256 := none }]
            paths := path :: s.paths } := by
  refine hinv.add (e := { path, rawName83, entryOffset, cluster := f.first, size := f.size, kind := .directory, clusters := cs
                          sha256 := none }) hpath ?_ htook.nodup htook.fresh htook.claims nofun (List.append_nil _).symm
  refine htook.chain.imp id fun hempty => ?_
  rw [hkind] at hempty
  exact absurd hempty.1 (by decide)

theorem addEntry_ensures (hv : v.WellFormed) (hrec : Recurses v recurse) (htree : d.InTree s.entries) (hshape : d.Shape v)
    (hinv : Inv v s) {entry : Bytes} (hf : FieldsOf entry f) {offset : Nat} (hoffset : offset < d.buf.length) :
    Ensures Handled (fun t => Inv v t ∧ Grew v s t) (addEntry recurse v d offset f s) := by
  rw [addEntry]
  refine check_ensures fun hpath => check_ensures fun _ => (absoluteOf_ensures hv hshape hoffset).bind fun absolute _ => ?_
  refine decodeAscii_bind hf.named.ascii ((clustersOf_ensures hv _ f _).bind fun r hr => ?_)
  obtain ⟨cs, claimed, rfl, htook⟩ := hr
  refine check_ensures fun hlength => (positionsOf_ensures v cs).bind fun ps hps => ?_
  subst hps
  rw [contents_eq]
  refine .ite (fun hkind => check_ensures fun hsize => index_bind ?_ ?_) fun hkind => Ensures.pure ⟨?_, ?_⟩
  · have hchain : Chain v f.first cs := htook.chain.resolve_right fun hempty => by
      rw [hkind] at hempty
      exact absurd hempty.1 (by decide)
    rw [List.length_map]
    exact List.length_pos_iff.mpr hchain.ne_nil
  · have hlengths := hv.length_contents htook.inData
    refine (hrec _ _ (Or.inr ⟨_, List.mem_append_right _ List.mem_cons_self, rfl, rfl, rfl⟩) ⟨?_, ?_⟩
      (inv_directory hinv hpath htook hkind)).mono fun t ht => ⟨ht.inv, ?_⟩
    · rw [hlengths, Nat.mul_mod, hv.bytes.2, Nat.mul_zero, Nat.zero_mod]
    · intro offsets hoffsets
      cases hoffsets
      rw [hlengths, List.length_map]
    · obtain ⟨new, hnew, hdotted⟩ := ht.grew
      refine ⟨_ :: new, by rw [hnew, List.append_assoc]; rfl, List.forall_mem_cons.mpr ⟨fun _ => ?_, hdotted⟩⟩
      have hdots := ht.dots (htree.below f.name)
      refine ⟨hdots.1, d.cluster, ?_, hdots.2⟩
      rw [hnew, List.append_assoc]
      exact (htree.parent hf.named.slash).mono _
  · exact inv_file hinv hpath htook (hlength (hf.kind.resolve_left hkind))
  · exact ⟨_, rfl, List.forall_mem_singleton.mpr nofun⟩

/-- What the records say about one of the two names with dots, and what the loop has noted of it. -/
structure Noted (recs : List Bytes) (dots dots' : List String) (raw : Bytes) (n : String) (cluster : Nat) : Prop where
  points : ∀ r ∈ live recs, slice r 0 11 = raw → PointsTo cluster r
  present : n ∈ dots' → n ∈ dots ∨ ∃ r ∈ live recs, slice r 0 11 = raw

theorem Noted.stop {recs : List Bytes} {dots : List String} {raw : Bytes} {n : String} {cluster : Nat}
    (h : live recs = []) : Noted recs dots dots raw n cluster := by
  refine ⟨?_, Or.inl⟩
  rw [h]
  nofun

theorem Noted.congr {recs recs' : List Bytes} {dots dots' : List String} {raw : Bytes} {n : String} {cluster : Nat}
    (h : Noted recs dots dots' raw n cluster) (hlive : live recs' = live recs) : Noted recs' dots dots' raw n cluster :=
  ⟨hlive ▸ h.points, hlive ▸ h.present⟩

/-- A record that is live in front of the others. -/
theorem Noted.cons {r : Bytes} {recs : List Bytes} {dots dots₁ dots' : List String} {raw : Bytes} {n : String}
    {cluster : Nat} (h : Noted recs dots₁ dots' raw n cluster) (hlive : live (r :: recs) = r :: live recs)
    (hr : slice r 0 11 = raw → PointsTo cluster r) (hdots : n ∈ dots₁ → n ∈ dots ∨ slice r 0 11 = raw) :
    Noted (r :: recs) dots dots' raw n cluster := by
  refine ⟨?_, fun hn => ?_⟩
  · rw [hlive]
    exact List.forall_mem_cons.mpr ⟨hr, h.points⟩
  · rw [hlive]
    rcases h.present hn with hn | ⟨x, hx, hraw⟩
    · exact (hdots hn).imp id fun hraw => ⟨r, List.mem_cons_self, hraw⟩
    · exact Or.inr ⟨x, List.mem_cons_of_mem _ hx, hraw⟩

/-- What the loop of `walk` does, from the dot entries met so far. -/
structure Looped (v : Volume) (d : Dir) (recs : List Bytes) (dots : List String) (s : Found) (r : List String × Found) :
    Prop where
  inv : Inv v r.2
  grew : Grew v s r.2
  dot : d.directory ≠ "/" → Noted recs dots r.1 dotName "." d.cluster
  dotDot : d.directory ≠ "/" → Noted recs dots r.1 dotDotName ".." d.parent

theorem FieldsOf.pointsTo {entry : Bytes} (hf : FieldsOf entry f) (hattr : f.attr = 0x10) (hsize : f.size = 0)
    {cluster : Nat} (hfirst : f.first = cluster) : PointsTo cluster entry := by
  refine ⟨?_, by rw [← hf.first, hfirst], by rw [← hf.size, hsize]⟩
  have hmap := hf.attr
  rw [hattr] at hmap
  cases hget : entry[11]? with
  | none =>
      rw [hget] at hmap
      cases hmap
  | some b =>
      rw [hget] at hmap
      exact congrArg some (UInt8.toNat.inj (Option.some.inj hmap))

/-- The induction is on the offsets to go. -/
theorem walkLoop_ensures (hv : v.WellFormed) (hrec : Recurses v recurse) (htree : d.InTree s.entries) (hshape : d.Shape v)
    (hinv : Inv v s) {offsets : List Nat} (hoffsets : ∀ offset ∈ offsets, offset + 32 ≤ d.buf.length)
    (names dots : List String) :
    Ensures Handled (Looped v d (offsets.map fun offset => slice d.buf offset (offset + 32)) dots s)
      (walkLoop recurse v d offsets names dots s) := by
  induction offsets generalizing names dots s with
  | nil => exact Ensures.pure ⟨hinv, .refl, fun _ => .stop rfl, fun _ => .stop rfl⟩
  | cons offset rest ih =>
      obtain ⟨hoffset, hrest⟩ := List.forall_mem_cons.mp hoffsets
      have hentry : (slice d.buf offset (offset + 32)).length = 32 := by
        rw [length_slice (Nat.le_add_right _ _) hoffset, Nat.add_sub_cancel_left]
      rw [walkLoop, List.map_cons]
      generalize slice d.buf offset (offset + 32) = entry at hentry ⊢
      have hpos : 0 < entry.length := by omega
      have hhead : entry.head? = some entry[0] := by rw [List.head?_eq_getElem?, List.getElem?_eq_getElem hpos]
      refine index_bind hpos (.ite (fun hend => ?_) fun hend => .ite (fun hdeleted => ?_) fun hdeleted => ?_)
      · have hlive : live (entry :: rest.map fun offset => slice d.buf offset (offset + 32)) = [] := by
          rw [live, hhead, hend, if_pos rfl]
        exact Ensures.pure ⟨hinv, .refl, fun _ => .stop hlive, fun _ => .stop hlive⟩
      · have hlive : live (entry :: rest.map fun offset => slice d.buf offset (offset + 32)) =
            live (rest.map fun offset => slice d.buf offset (offset + 32)) := by
          rw [live, hhead, hdeleted, if_neg (by decide), if_pos rfl]
        exact (ih htree hinv hrest names dots).mono fun r hr => ⟨hr.inv, hr.grew, fun hne => (hr.dot hne).congr hlive,
          fun hne => (hr.dotDot hne).congr hlive⟩
      have hlive : live (entry :: rest.map fun offset => slice d.buf offset (offset + 32)) =
          entry :: live (rest.map fun offset => slice d.buf offset (offset + 32)) := by
        rw [live, hhead, if_neg (mt Option.some.inj hend), if_neg (mt Option.some.inj hdeleted)]
      refine (readFields_ensures hentry).bind fun f hf => ?_
      have hdot : slice entry 0 11 = dotName ↔ f.name = "." := hf.raw ▸ hf.named.dot
      have hdotDot : slice entry 0 11 = dotDotName ↔ f.name = ".." := hf.raw ▸ hf.named.dotDot
      refine .ite (fun hname => check_ensures fun hfields => check_ensures fun hfirst => ?_) fun hname => ?_
      · refine (ih htree hinv hrest _ _).mono fun r hr => ⟨hr.inv, hr.grew, fun hne => ?_, fun hne => ?_⟩
        · refine (hr.dot hne).cons hlive (fun hraw => ?_) fun hmem => ?_
          · rw [if_pos (hdot.mp hraw)] at hfirst
            exact hf.pointsTo hfields.2.1 hfields.2.2 hfirst
          · exact (List.mem_cons.mp hmem).symm.imp id fun heq => hdot.mpr heq.symm
        · refine (hr.dotDot hne).cons hlive (fun hraw => ?_) fun hmem => ?_
          · rw [if_neg (by rw [hdotDot.mp hraw]; decide)] at hfirst
            exact hf.pointsTo hfields.2.1 hfields.2.2 hfirst
          · exact (List.mem_cons.mp hmem).symm.imp id fun heq => hdotDot.mpr heq.symm
      · rw [not_or] at hname
        refine (addEntry_ensures hv hrec htree hshape hinv hf (by omega)).bind fun t ht => ?_
        refine (ih (htree.mono ht.2) ht.1 hrest _ _).mono fun r hr => ?_
        refine ⟨hr.inv, ht.2.trans hr.grew, fun hne => ?_, fun hne => ?_⟩
        · exact (hr.dot hne).cons hlive (fun hraw => absurd (hdot.mp hraw) hname.1) Or.inl
        · exact (hr.dotDot hne).cons hlive (fun hraw => absurd (hdotDot.mp hraw) hname.2) Or.inl

theorem entryOffsets_within {buf : Bytes} (h : buf.length % 32 = 0) :
    ∀ offset ∈ entryOffsets buf, offset + 32 ≤ buf.length := by
  intro offset hoffset
  obtain ⟨i, hi, rfl⟩ := List.mem_map.mp hoffset
  rw [List.mem_range] at hi
  omega

/-- The record of a name with dots is there if the loop has noted it. -/
theorem Noted.hasDot {buf raw : Bytes} {dots' : List String} {n : String} {cluster : Nat}
    (h : Noted (records buf) [] dots' raw n cluster) (hn : n ∈ dots') : HasDot buf raw cluster where
  present := (h.present hn).resolve_left List.not_mem_nil
  points := h.points

/-- The induction is on the levels left. -/
theorem walk_ensures (hv : v.WellFormed) (left : Nat) : Recurses v (walk v left) := by
  induction left with
  | zero => exact fun d s _ _ _ => Or.inl ⟨_, rfl⟩
  | succ left ih =>
      intro d s htree hshape hinv
      rw [walk]
      refine (walkLoop_ensures hv ih htree hshape hinv (entryOffsets_within hshape.whole) [] []).bind fun r hr => ?_
      refine check_ensures fun hdots => Ensures.pure ⟨hr.inv, hr.grew, fun hne => ?_⟩
      exact ⟨(hr.dot hne).hasDot (hdots hne).1, (hr.dotDot hne).hasDot (hdots hne).2⟩

end Walk

/-! ### The volume -/

section Fat16

variable {v : Volume} {s : Found}

theorem checkClaimed_ensures (hv : v.WellFormed) {clusters : List Nat} (h : ∀ c ∈ clusters, c < v.clusterCount + 2) :
    Ensures Handled (fun _ => ∀ c ∈ clusters, v.fat c ≠ .ok 0 → (s.claimed.lookup c).isSome)
      (checkClaimed v s clusters) := by
  induction clusters with
  | nil => exact Ensures.pure nofun
  | cons c rest ih =>
      obtain ⟨hc, hrest⟩ := List.forall_mem_cons.mp h
      obtain ⟨f, hf⟩ := hv.fat_ok hc
      rw [checkClaimed, hf]
      refine check_ensures fun hclaimed => (ih hrest).mono fun _ hall => List.forall_mem_cons.mpr ⟨fun hne => ?_, hall⟩
      refine hclaimed fun hzero => hne ?_
      rw [hf, hzero]

theorem rootDir_shape (hv : v.WellFormed) : (rootDir v).Shape v where
  whole := by
    have hroot := hv.root
    have hdata := hv.data
    rw [rootDir, length_slice (by omega) (by omega)]
    omega
  offsets := nofun

theorem sound_of_inv (hv : v.WellFormed) (hinv : Inv v s) (hgrew : Grew v {} s)
    (hclaimed : ∀ c ∈ List.range' 2 v.clusterCount, v.fat c ≠ .ok 0 → (s.claimed.lookup c).isSome) : Sound v s := by
  obtain ⟨hacyclic, hapart⟩ := List.nodup_flatMap.mp hinv.nodup
  obtain ⟨new, hnew, hdotted⟩ := hgrew
  rw [List.nil_append] at hnew
  refine ⟨hinv.chains, hacyclic, hapart, fun c hlow hhigh hfat => ?_, hinv.lengths, hinv.files, ?_, ?_, hv.copies⟩
  · have hsome := hclaimed c (List.mem_range'_1.mpr ⟨hlow, by omega⟩) hfat
    obtain ⟨e, he, hc⟩ := List.mem_flatMap.mp ((hinv.claimed c).mp hsome)
    refine ⟨e, he, hc, fun e' he' hc' => ?_⟩
    have hsymm : Std.Symm (Function.onFun List.Disjoint Entry.clusters) := ⟨fun _ _ h => List.disjoint_symm h⟩
    by_contra hne
    exact hapart.forall he' he hne hc' hc
  · have hdistinct := hinv.distinct
    rw [hinv.paths, List.nodup_reverse] at hdistinct
    exact hdistinct
  · intro e he hkind
    rw [hnew] at he
    exact hdotted e he hkind

/-- Whatever the bytes, the volume is refused with an exception that `verify` handles, or it is a tree of disjoint chains
that owns each allocated cluster. -/
theorem fat16_sound (data : Bytes) : Ensures Handled (fun r => r.1.data = data ∧ Sound r.1 r.2) (fat16 data) := by
  rw [fat16]
  refine (readVolume_ensures data).bind fun v hread => ?_
  obtain ⟨hv, hdata⟩ := hread
  refine (walk_ensures hv 9 (rootDir v) {} (Or.inl ⟨rfl, rfl⟩) (rootDir_shape hv) (inv_init v)).bind fun s hs => ?_
  have hrange : ∀ c ∈ List.range' 2 v.clusterCount, c < v.clusterCount + 2 := fun c hc => by
    have hmem := List.mem_range'_1.mp hc
    omega
  refine (checkClaimed_ensures hv hrange).bind fun _ hclaimed => ?_
  exact Ensures.pure ⟨hdata, sound_of_inv hv hs.inv hs.grew hclaimed⟩

end Fat16

end Qualify.Fat16
