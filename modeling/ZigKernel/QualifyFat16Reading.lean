import ZigKernel.LangSlice
import ZigKernel.QualifyFat16Sound

/-! What is accepted: where the fields of a volume stand as they should, the calls return. -/

namespace Qualify.Fat16

open Zig (Stands)

/-! ### Fields -/

section Fields

variable {α : Type}

theorem check_pos {c : Prop} [Decidable c] (h : c) (message : String) : check c message = .ok () := if_pos h

/-- A check that holds, and what follows. -/
theorem check_then {c : Prop} [Decidable c] (h : c) {message : String} {f : Unit → Call α} {o : Call α} (hf : f () = o) :
    (check c message >>= f) = o := by
  rw [check_pos h]
  exact hf

/-- A call that returns, and what follows. -/
theorem ok_then {β : Type} {e : Call β} {b : β} (h : e = .ok b) {f : β → Call α} {o : Call α} (hf : f b = o) : (e >>= f) = o := by
  rw [h]
  exact hf

theorem error_then {β : Type} {e : Call β} {x : Raised} (h : e = .error x) {f : β → Call α} : (e >>= f) = .error x := by
  rw [h]
  rfl

variable {a s : Bytes} {lo hi : Nat}

theorem slice_of_stands (h : Stands a lo s) (hhi : hi = lo + s.length) : slice a lo hi = s := by
  obtain ⟨pre, post, rfl, hpre⟩ := h
  rw [slice, hhi, ← hpre, List.append_assoc, List.drop_left, Nat.add_sub_cancel_left, List.take_left]

/-- A part of what stands. -/
theorem slice_within {off n : Nat} (h : Stands a lo s) (hfits : off + n ≤ s.length) :
    slice a (lo + off) (lo + off + n) = (s.drop off).take n := by
  obtain ⟨pre, post, rfl, rfl⟩ := h
  rw [slice, List.append_assoc, ← List.drop_drop, List.drop_left, Nat.add_sub_cancel_left,
    List.drop_append_of_le_length (by omega), List.take_append_of_le_length (by rw [List.length_drop]; omega)]

theorem unpackFrom_of_stands {n v : Nat} (h : Stands a lo (LittleEndian.toBytes n v)) (hv : v < 256 ^ n) :
    unpackFrom n a lo = .ok v := by
  have hlength := h.length_le
  rw [LittleEndian.length_toBytes] at hlength
  rw [unpackFrom, if_pos hlength, slice_of_stands h (by rw [LittleEndian.length_toBytes]), LittleEndian.ofBytes_toBytes,
    Nat.mod_eq_of_lt hv]
  rfl

theorem index_of_stands {b : UInt8} (h : Stands a lo [b]) : index a lo = .ok b := by
  obtain ⟨-, hget⟩ := Zig.stands_iff.mp h
  have hfirst := hget 0 Nat.zero_lt_one
  rw [Nat.add_zero, List.getElem?_cons_zero] at hfirst
  rw [index, hfirst]
  rfl

end Fields

/-! ### Chains -/

section Chains

variable {v : Volume}

theorem clusterOffset_ok (hv : v.WellFormed) {c : Nat} (hc : v.InData c) : clusterOffset v c = .ok (v.offsetOf c) := by
  have hrange : 2 ≤ c ∧ c < v.clusterCount + 2 := hc
  exact check_then hrange (check_then (hv.cluster_fits hc) rfl)

theorem positionsOf_ok (hv : v.WellFormed) {cs : List Nat} (hcs : ∀ c ∈ cs, v.InData c) :
    positionsOf v cs = .ok (cs.map v.offsetOf) := by
  induction cs with
  | nil => rfl
  | cons c rest ih =>
      obtain ⟨hc, hrest⟩ := List.forall_mem_cons.mp hcs
      exact ok_then (clusterOffset_ok hv hc) (ok_then (ih hrest) rfl)

/-- The owner of all clusters of a chain, beside those that were claimed. -/
def claim (owner : String) (cs : List Nat) (claimed : List (Nat × String)) : List (Nat × String) :=
  (cs.map fun c => (c, owner)).reverse ++ claimed

theorem claim_cons (owner : String) (c : Nat) (cs : List Nat) (claimed : List (Nat × String)) :
    claim owner cs ((c, owner) :: claimed) = claim owner (c :: cs) claimed := by
  simp [claim]

theorem isSome_lookup_claim {owner : String} {cs : List Nat} {claimed : List (Nat × String)} {c : Nat} :
    ((claim owner cs claimed).lookup c).isSome ↔ c ∈ cs ∨ (claimed.lookup c).isSome := by
  induction cs generalizing claimed with
  | nil => simp [claim]
  | cons x rest ih =>
      rw [← claim_cons, ih, isSome_lookup_cons, List.mem_cons]
      tauto

/-- The loop follows a chain of clusters that nothing else has claimed, to its end. -/
theorem chainLoop_ok (hv : v.WellFormed) (owner : String) {fuel current : Nat} {cs seen : List Nat}
    {claimed : List (Nat × String)} (h : Chain v current cs) (hlow : ∀ c ∈ cs, c < 0xFFF0) (hnodup : cs.Nodup)
    (hseen : ∀ c ∈ cs, c ∉ seen) (hfree : ∀ c ∈ cs, claimed.lookup c = none) (hfuel : cs.length ≤ fuel) :
    chainLoop v owner fuel current seen claimed = .ok (seen ++ cs, claim owner cs claimed) := by
  induction h generalizing fuel seen claimed with
  | @last c f hdata hfat hend =>
      rw [List.forall_mem_singleton] at hlow hseen hfree
      obtain ⟨fuel, rfl⟩ := Nat.exists_eq_succ_of_ne_zero (Nat.ne_of_gt hfuel)
      refine check_then hlow (ok_then (clusterOffset_ok hv hdata) (check_then hseen (check_then hfree (ok_then hfat ?_))))
      exact if_pos hend
  | @next c f cs hdata hfat hlink _ ih =>
      obtain ⟨hlow, hlows⟩ := List.forall_mem_cons.mp hlow
      obtain ⟨hseen, hseens⟩ := List.forall_mem_cons.mp hseen
      obtain ⟨hfree, hfrees⟩ := List.forall_mem_cons.mp hfree
      obtain ⟨hfresh, hnodup⟩ := List.nodup_cons.mp hnodup
      obtain ⟨fuel, rfl⟩ := Nat.exists_eq_succ_of_ne_zero (Nat.ne_of_gt (Nat.lt_of_lt_of_le (Nat.succ_pos _) hfuel))
      refine check_then hlow (ok_then (clusterOffset_ok hv hdata) (check_then hseen (check_then hfree (ok_then hfat ?_))))
      refine (if_neg (by omega)).trans (check_then hlink ?_)
      have hne {c' : Nat} (hc' : c' ∈ cs) : c' ≠ c := fun heq => hfresh (heq ▸ hc')
      refine (ih hlows hnodup (fun c' hc' => ?_) (fun c' hc' => ?_) (Nat.le_of_succ_le_succ hfuel)).trans ?_
      · rw [List.mem_append, List.mem_singleton, not_or]
        exact ⟨hseens c' hc', hne hc'⟩
      · rw [List.lookup_cons, beq_false_of_ne (hne hc')]
        exact hfrees c' hc'
      · rw [List.append_assoc, List.singleton_append, claim_cons]

theorem offsetOf_succ (v : Volume) {c : Nat} (hc : 2 ≤ c) : v.offsetOf (c + 1) = v.offsetOf c + v.clusterBytes := by
  rw [Volume.offsetOf, Volume.offsetOf, Nat.sub_add_comm hc, Nat.succ_mul, Nat.add_assoc]

/-- The bytes of clusters one behind the other. -/
theorem contents_range' (v : Volume) {c : Nat} (hc : 2 ≤ c) (n : Nat) :
    v.contents (List.range' c n) = slice v.data (v.offsetOf c) (v.offsetOf c + n * v.clusterBytes) := by
  induction n generalizing c with
  | zero => rw [Nat.zero_mul, Nat.add_zero, slice, Nat.sub_self, List.take_zero]; rfl
  | succ n ih =>
      have hrest := ih (Nat.le_succ_of_le hc)
      rw [offsetOf_succ v hc] at hrest
      have hcons : v.contents (List.range' c (n + 1)) =
          slice v.data (v.offsetOf c) (v.offsetOf c + v.clusterBytes) ++ v.contents (List.range' (c + 1) n) := by
        rw [List.range'_succ]
        rfl
      rw [hcons, hrest, slice, slice, slice, Nat.add_sub_cancel_left, Nat.add_sub_cancel_left, Nat.add_sub_cancel_left,
        ← List.drop_drop, ← List.take_add, Nat.succ_mul, Nat.add_comm v.clusterBytes]

/-- A chain has no more clusters than the volume. -/
theorem Chain.length_le {c : Nat} {cs : List Nat} (h : Chain v c cs) (hnodup : cs.Nodup) : cs.length ≤ v.clusterCount := by
  have hsub : cs ⊆ List.range' 2 v.clusterCount := fun x hx => by
    have hdata := h.inData x hx
    exact List.mem_range'_1.mpr ⟨hdata.1, by have := hdata.2; omega⟩
  simpa using (hnodup.subperm hsub).length_le

/-- A chain that can be followed: none of its clusters is claimed. -/
structure Free (v : Volume) (first : Nat) (cs : List Nat) (claimed : List (Nat × String)) : Prop where
  links : Chain v first cs
  low : ∀ c ∈ cs, c < 0xFFF0
  nodup : cs.Nodup
  unclaimed : ∀ c ∈ cs, claimed.lookup c = none

theorem Free.followed (hv : v.WellFormed) {owner : String} {first : Nat} {cs : List Nat} {s : Found}
    (h : Free v first cs s.claimed) : chain v first owner s = .ok (cs, { s with claimed := claim owner cs s.claimed }) := by
  have hfuel : cs.length ≤ v.clusterCount + 1 := Nat.le_succ_of_le (h.links.length_le h.nodup)
  have hloop := chainLoop_ok hv owner h.links h.low h.nodup (fun _ _ => List.not_mem_nil) h.unclaimed hfuel
  exact ok_then hloop rfl

theorem Chain.head {c : Nat} {cs : List Nat} (h : Chain v c cs) : ∃ rest, cs = c :: rest := by
  cases h with
  | last => exact ⟨[], rfl⟩
  | next => exact ⟨_, rfl⟩

end Chains

/-! ### Entries -/

section Entries

/-- The fields of an entry, where they are read. -/
structure Record (raw : Bytes) (attr : UInt8) (first size : Nat) (r : Bytes) : Prop where
  name : Stands r 0 raw
  attr : Stands r 11 [attr]
  nameCase : Stands r 12 [0]
  high : Stands r 20 [0, 0]
  first : Stands r 26 (LittleEndian.toBytes 2 first)
  size : Stands r 28 (LittleEndian.toBytes 4 size)

theorem readFields_ok {raw r : Bytes} {attr : UInt8} {first size : Nat} {n : String} (directory : String) (names : List String)
    (h : Record raw attr first size r) (hraw : raw.length = 11) (hattr : attr = 0x10 ∨ attr = 0x20) (hfirst : first < 256 ^ 2)
    (hsize : size < 256 ^ 4) (hname : name raw = .ok n) (hfresh : n ∉ names) :
    readFields directory names r = .ok { raw, name := n, attr := attr.toNat, first, size } := by
  have hmem : attr.toNat ∈ [0x10, 0x20] ∧ attr.toNat ≠ 0x0F := by
    rcases hattr with rfl | rfl <;> decide
  refine ok_then (index_of_stands h.attr) (check_then hmem.2 (check_then hmem.1 (ok_then (index_of_stands h.nameCase) ?_)))
  refine check_then ⟨rfl, slice_of_stands h.high rfl⟩ ?_
  dsimp only
  rw [slice_of_stands h.name (by rw [hraw])]
  refine ok_then hname (check_then hfresh ?_)
  exact ok_then (unpackFrom_of_stands h.first hfirst) (ok_then (unpackFrom_of_stands h.size hsize) rfl)

variable {v : Volume} {recurse : Dir → Found → Call Found} {d : Dir} {f : Fields} {s : Found} {offset : Nat}

theorem clustersOf_ok (hv : v.WellFormed) (path : String) {cs : List Nat} (hkind : ¬(f.attr = 0x20 ∧ f.size = 0))
    (hfree : Free v f.first cs s.claimed) :
    clustersOf v path f s = .ok (cs, { s with claimed := claim path cs s.claimed }) := by
  rw [clustersOf, if_neg hkind]
  exact hfree.followed hv

theorem clustersOf_empty (path : String) (hempty : f.attr = 0x20 ∧ f.size = 0) (hfirst : f.first ≠ 0) :
    ∃ message, clustersOf v path f s = .error (.invalidESP message) := by
  rw [clustersOf, if_pos hempty, check, if_neg hfirst]
  exact ⟨_, rfl⟩

/-- An entry under a new path, at a place that can be computed. -/
structure Fresh (v : Volume) (d : Dir) (offset : Nat) (f : Fields) (s : Found) : Prop where
  path : d.directory ++ f.name ∉ s.paths
  room : s.paths.length < 4096
  place : ∃ p, absoluteOf v d offset = .ok p
  ascii : ∃ n, decodeAscii f.raw = .ok n

/-- What was read in between: paths, clusters that are claimed, and files. -/
structure Grown (s s' : Found) (paths : List String) (cs : List Nat) (files : List (String × Bytes)) : Prop where
  paths : s'.paths = paths ++ s.paths
  claimed : ∀ c, (s'.claimed.lookup c).isSome ↔ c ∈ cs ∨ (s.claimed.lookup c).isSome
  files : s'.files = s.files ++ files

theorem Grown.trans {s' s'' : Found} {paths paths' : List String} {cs cs' : List Nat} {files files' : List (String × Bytes)}
    (h : Grown s s' paths cs files) (h' : Grown s' s'' paths' cs' files') :
    Grown s s'' (paths' ++ paths) (cs ++ cs') (files ++ files') where
  paths := by rw [h'.paths, h.paths, List.append_assoc]
  claimed := fun c => by
    rw [h'.claimed, h.claimed, List.mem_append]
    tauto
  files := by rw [h'.files, h.files, List.append_assoc]

theorem Grown.unclaimed {s' : Found} {paths : List String} {cs : List Nat} {files : List (String × Bytes)}
    (h : Grown s s' paths cs files) {c : Nat} (hc : c ∉ cs) (hfree : s.claimed.lookup c = none) : s'.claimed.lookup c = none := by
  refine Option.not_isSome_iff_eq_none.mp fun hsome => ?_
  rcases (h.claimed c).mp hsome with hmem | hsome
  · exact hc hmem
  · rw [hfree] at hsome
    cases hsome

/-- A call that returns if a condition holds, and raises the verifier's exception otherwise. -/
structure Decided {α : Type} (p : Prop) (Q : α → Prop) (o : Call α) : Prop where
  accepted : p → ∃ a, o = .ok a ∧ Q a
  refused : ¬p → ∃ message, o = .error (.invalidESP message)

namespace Decided

variable {α β : Type} {p q : Prop} {Q : α → Prop} {R : β → Prop} {o : Call α}

theorem ok {a : α} (h : o = .ok a) (hQ : Q a) : Decided True Q o := ⟨fun _ => ⟨a, h, hQ⟩, fun h => absurd trivial h⟩

theorem bind {g : α → Call β} (h : Decided p Q o) (h' : ∀ a, Q a → Decided q R (g a)) : Decided (p ∧ q) R (o >>= g) := by
  refine ⟨fun hp => ?_, fun hp => ?_⟩
  · obtain ⟨a, rfl, ha⟩ := h.accepted hp.1
    exact (h' a ha).accepted hp.2
  · by_cases hfirst : p
    · obtain ⟨a, rfl, ha⟩ := h.accepted hfirst
      exact (h' a ha).refused fun hsecond => hp ⟨hfirst, hsecond⟩
    · obtain ⟨message, rfl⟩ := h.refused hfirst
      exact ⟨message, rfl⟩

theorem mono {Q' : α → Prop} (h : Decided p Q o) (hQ : ∀ a, Q a → Q' a) : Decided p Q' o :=
  ⟨fun hp => let ⟨a, ho, ha⟩ := h.accepted hp; ⟨a, ho, hQ a ha⟩, h.refused⟩

theorem of_eq {o' : Call α} (h : Decided p Q o') (ho : o = o') : Decided p Q o := ho ▸ h

theorem of_iff (h : Decided p Q o) (hp : p ↔ q) : Decided q Q o :=
  ⟨fun hq => h.accepted (hp.mpr hq), fun hq => h.refused fun h' => hq (hp.mp h')⟩

end Decided

/-- A file with a cluster in its entry is accepted if it has a byte. -/
theorem addEntry_file (hv : v.WellFormed) {cs : List Nat} (hfresh : Fresh v d offset f s) (hattr : f.attr = 0x20)
    (hfirst : f.first ≠ 0) (hfree : f.size ≠ 0 → Free v f.first cs s.claimed)
    (hlength : cs.length = (f.size + v.clusterBytes - 1) / v.clusterBytes) :
    Decided (f.size ≠ 0)
      (Grown s · [d.directory ++ f.name] cs [(d.directory ++ f.name, (v.contents cs).take f.size)])
      (addEntry recurse v d offset f s) := by
  obtain ⟨p, hp⟩ := hfresh.place
  obtain ⟨n, hn⟩ := hfresh.ascii
  refine ⟨fun hsize => ?_, fun hsize => ?_⟩
  · have hnonempty : ¬(f.attr = 0x20 ∧ f.size = 0) := fun h => hsize h.2
    have hclusters := clustersOf_ok hv (d.directory ++ f.name)
      (s := { s with paths := (d.directory ++ f.name) :: s.paths }) hnonempty (hfree hsize)
    have hfile : ¬f.attr = 0x10 := by
      rw [hattr]
      decide
    refine ⟨_, check_then hfresh.path (check_then (Nat.succ_le_of_lt hfresh.room) (ok_then hp (ok_then hn (ok_then hclusters
      (check_then (fun _ => hlength) (ok_then (positionsOf_ok hv (hfree hsize).links.inData) (if_neg hfile))))))), ?_⟩
    rw [← contents_eq]
    exact ⟨rfl, fun c => isSome_lookup_claim, rfl⟩
  · have hempty : f.attr = 0x20 ∧ f.size = 0 := ⟨hattr, not_not.mp hsize⟩
    obtain ⟨message, hclusters⟩ := clustersOf_empty (v := v) (d.directory ++ f.name)
      (s := { s with paths := (d.directory ++ f.name) :: s.paths }) hempty hfirst
    refine ⟨message, check_then hfresh.path (check_then (Nat.succ_le_of_lt hfresh.room) (ok_then hp (ok_then hn ?_)))⟩
    exact error_then hclusters

/-- A directory is read in turn. -/
theorem addEntry_directory (hv : v.WellFormed) {cs : List Nat} {p : Prop} {Q : Found → Prop} (hfresh : Fresh v d offset f s)
    (hattr : f.attr = 0x10) (hsize : f.size = 0) (hfree : Free v f.first cs s.claimed)
    (hrec : ∀ s', Grown s s' [d.directory ++ f.name] cs [] → Decided p Q (recurse
      { buf := v.contents cs, directory := d.directory ++ f.name ++ "/", cluster := f.first, parent := d.cluster
        baseOffset := v.offsetOf f.first, offsets := some (cs.map v.offsetOf) } s')) :
    Decided p Q (addEntry recurse v d offset f s) := by
  obtain ⟨place, hplace⟩ := hfresh.place
  obtain ⟨n, hn⟩ := hfresh.ascii
  obtain ⟨rest, hrest⟩ := hfree.links.head
  let e : Entry := { path := d.directory ++ f.name, rawName83 := n, entryOffset := place, cluster := f.first, size := f.size
                     kind := .directory, clusters := cs, sha256 := none }
  have hgrown : Grown s { s with paths := (d.directory ++ f.name) :: s.paths, entries := s.entries ++ [e]
                                 claimed := claim (d.directory ++ f.name) cs s.claimed } [d.directory ++ f.name] cs [] :=
    ⟨rfl, fun c => isSome_lookup_claim, (List.append_nil _).symm⟩
  refine (hrec _ hgrown).of_eq ?_
  refine check_then hfresh.path (check_then (Nat.succ_le_of_lt hfresh.room) (ok_then hplace (ok_then hn ?_)))
  have hfile : ¬f.attr = 0x20 := by
    rw [hattr]
    decide
  have hclusters := clustersOf_ok hv (d.directory ++ f.name) (s := { s with paths := (d.directory ++ f.name) :: s.paths })
    (fun h => hfile h.1) hfree
  refine ok_then hclusters (check_then (fun h => absurd h hfile) ?_)
  refine ok_then (positionsOf_ok hv hfree.links.inData) ?_
  rw [if_pos hattr, ← contents_eq]
  have hstart : index (cs.map v.offsetOf) 0 = .ok (v.offsetOf f.first) := by
    rw [hrest]
    rfl
  exact check_then hsize (ok_then hstart rfl)

end Entries

/-! ### Directories -/

section Directories

variable {v : Volume} {recurse : Dir → Found → Call Found} {d : Dir} {f : Fields} {s : Found} {offset : Nat} {rest : List Nat}
  {names dots : List String} {r : Bytes} {p p' : Prop} {Q : Found → Prop} {R : List String × Found → Prop}

/-- A record that is neither the end nor deleted. -/
def Used (r : Bytes) : Prop := ∃ b, index r 0 = .ok b ∧ b ≠ 0 ∧ b ≠ 0xE5

theorem walkLoop_end (h : index (slice d.buf offset (offset + 32)) 0 = .ok 0) :
    walkLoop recurse v d (offset :: rest) names dots s = .ok (dots, s) :=
  ok_then h rfl

theorem walkLoop_dot (hr : slice d.buf offset (offset + 32) = r) (hused : Used r)
    (hread : readFields d.directory names r = .ok f) (hname : f.name = "." ∨ f.name = "..")
    (hdir : d.directory ≠ "/" ∧ f.attr = 0x10 ∧ f.size = 0) (hfirst : f.first = if f.name = "." then d.cluster else d.parent) :
    walkLoop recurse v d (offset :: rest) names dots s =
      walkLoop recurse v d rest (f.name :: names) (f.name :: dots) s := by
  obtain ⟨b, hb, hzero, hdeleted⟩ := hused
  subst hr
  refine ok_then hb ?_
  rw [if_neg hzero, if_neg hdeleted]
  refine ok_then hread ?_
  rw [if_pos hname]
  exact check_then hdir (check_then hfirst rfl)

theorem walkLoop_entry (hr : slice d.buf offset (offset + 32) = r) (hused : Used r)
    (hread : readFields d.directory names r = .ok f) (hname : ¬(f.name = "." ∨ f.name = ".."))
    (hadd : Decided p Q (addEntry recurse v d offset f s))
    (hrest : ∀ s', Q s' → Decided p' R (walkLoop recurse v d rest (f.name :: names) dots s')) :
    Decided (p ∧ p') R (walkLoop recurse v d (offset :: rest) names dots s) := by
  obtain ⟨b, hb, hzero, hdeleted⟩ := hused
  subst hr
  refine (hadd.bind hrest).of_eq (ok_then hb ?_)
  rw [if_neg hzero, if_neg hdeleted]
  refine ok_then hread ?_
  rw [if_neg hname]

/-- A directory with its dot entries, or the root. -/
theorem walk_decided {left : Nat} (dots : List String) (hdots : d.directory ≠ "/" → "." ∈ dots ∧ ".." ∈ dots)
    (h : Decided p (fun r => r.1 = dots ∧ Q r.2) (walkLoop (walk v left) v d (entryOffsets d.buf) [] [] s)) :
    Decided p Q (walk v (left + 1) d s) := by
  refine ⟨fun hp => ?_, fun hp => ?_⟩
  · obtain ⟨⟨_, s'⟩, hloop, rfl, hs'⟩ := h.accepted hp
    exact ⟨s', ok_then hloop (check_then hdots rfl), hs'⟩
  · obtain ⟨message, hloop⟩ := h.refused hp
    refine ⟨message, ?_⟩
    rw [walk, hloop]
    rfl

theorem entryOffsets_eq {buf : Bytes} {m : Nat} (h : buf.length = 32 * m) : entryOffsets buf = (List.range' 0 m).map (32 * ·) := by
  have hcount : (buf.length + 31) / 32 = m := by omega
  rw [entryOffsets, hcount, List.range_eq_range']

theorem checkClaimed_ok {cs : List Nat}
    (h : ∀ c ∈ cs, ∃ value, v.fat c = .ok value ∧ (value ≠ 0 → (s.claimed.lookup c).isSome)) : checkClaimed v s cs = .ok () := by
  induction cs with
  | nil => rfl
  | cons c rest ih =>
      obtain ⟨⟨value, hvalue, hclaimed⟩, hrest⟩ := List.forall_mem_cons.mp h
      exact ok_then hvalue (check_then hclaimed (ih hrest))

end Directories

end Qualify.Fat16
