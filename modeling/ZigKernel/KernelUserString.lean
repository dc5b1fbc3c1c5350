import ZigKernel.KernelConfinement

/-! `copyCStrFromUser` of `src/uaccess.zig` checks a string byte by byte, `validate` a range at once. The copy returns a
string exactly where the gate is open for the string with its NUL, and it reads nothing outside the area of its pointer. -/

namespace Kernel.Uaccess

open Zig

/-- No address lies in two areas. -/
def Disjoint (m : Mm) : Prop :=
  ∀ i j v w a, m.vmAreas i = some v → m.vmAreas j = some w → v.holds a = true → w.holds a = true → i = j

/-- The first NUL at or after `src` is `n` bytes behind it. -/
def EndsAt (s : State) (src n : Nat) : Prop := s.user (src + n) = 0 ∧ ∀ i < n, s.user (src + i) ≠ 0

/-- A read of the byte at address 0, to which there is no pointer: the string starts there, there is room for a byte,
and a readable area holds the address. -/
def AtNull (s : State) (src : Nat) : Prop := src = 0 ∧ s.pathBuf ≠ [] ∧ mayRead (s.mm.findVma 0) 0 0 = true

/-- The `n` bytes of the user from `src` on. -/
def text (s : State) (src n : Nat) : Bytes := (List.range n).map fun i => s.user (src + i)

section Gate

variable {m : Mm} {src i j : Nat}

/-- What the loop checks before it reads byte `i`. -/
theorem mayRead_iff (hsrc : src < u64Bound) (hi : i < maxCstr) :
    mayRead (m.findVma src) src i = true ↔ ∃ vma, m.findVma src = some vma ∧ src + i ≤ Gdt.userMax ∧
      src + i < vma.stop ∧ vma.prot &&& Mm.protRead ≠ 0 := by
  have hbound : i < u64Bound := Nat.lt_trans hi (by decide)
  unfold mayRead
  by_cases hwrap : wrapAddU64 src i < src
  · rw [if_pos hwrap]
    have hover : u64Bound ≤ src + i := by
      by_contra hfits
      rw [wrapAddU64, Nat.mod_eq_of_lt (Nat.lt_of_not_le hfits)] at hwrap
      exact absurd hwrap (Nat.not_lt.mpr (Nat.le_add_right _ _))
    refine iff_of_false Bool.false_ne_true ?_
    rintro ⟨vma, -, hmax, -⟩
    exact absurd (Nat.le_trans hover hmax) (by decide)
  rw [if_neg hwrap, wrapAdd_of_le hsrc hbound hwrap]
  have haddr : src + i < u64Bound := by
    rw [← wrapAdd_of_le hsrc hbound hwrap]
    exact Nat.mod_lt _ (by decide)
  have hrange : Gdt.isUserRange (src + i) 1 = true ↔ src + i ≤ Gdt.userMax := isUserRange_iff haddr (by decide)
  by_cases hmax : src + i ≤ Gdt.userMax
  · rw [if_neg (not_not.mpr (hrange.mpr hmax))]
    cases m.findVma src with
    | none => simp only [Bool.false_eq_true, reduceCtorEq, false_and, exists_false]
    | some vma => simp only [Bool.and_eq_true, decide_eq_true_eq, Option.some.injEq, exists_eq_left', hmax, true_and]
  · rw [if_pos fun hall => hmax (hrange.mp hall)]
    refine iff_of_false Bool.false_ne_true ?_
    rintro ⟨vma, -, hle, -⟩
    exact hmax hle

/-- The check of byte `i` is the gate for the bytes up to it. -/
theorem mayRead_iff_validate (hsrc : src < u64Bound) (hi : i < maxCstr) :
    mayRead (m.findVma src) src i = true ↔ validate m src (i + 1) false = true := by
  have hlen : i + 1 < u64Bound := Nat.lt_of_le_of_lt hi (by decide)
  rw [mayRead_iff hsrc hi, validate_cases (Nat.succ_ne_zero i)]
  refine exists_congr fun vma => and_congr_right fun hfind => ?_
  obtain ⟨-, -, hstart, -⟩ := findVma_holds hfind
  rw [isUserRange_iff hsrc hlen, Nat.add_sub_cancel]
  constructor
  · rintro ⟨hmax, hstop, hprot⟩
    have hfits : src + (i + 1) < u64Bound := Nat.lt_of_le_of_lt (Nat.succ_le_succ hmax) (by decide)
    rw [wrapAddU64, Nat.mod_eq_of_lt hfits]
    exact ⟨Nat.not_lt.mpr (Nat.le_add_right _ _), hstop, hmax, hprot, hstart⟩
  · rintro ⟨hwrap, hstop, hmax, hprot, -⟩
    rw [wrapAdd_of_le hsrc hlen hwrap] at hstop
    exact ⟨hmax, hstop, hprot⟩

/-- Who may read a byte may read those in front of it. -/
theorem mayRead_mono (hsrc : src < u64Bound) (hi : i < maxCstr) (hji : j ≤ i)
    (h : mayRead (m.findVma src) src i = true) : mayRead (m.findVma src) src j = true := by
  rw [mayRead_iff hsrc hi] at h
  rw [mayRead_iff hsrc (Nat.lt_of_le_of_lt hji hi)]
  obtain ⟨vma, hfind, hmax, hstop, hprot⟩ := h
  have hle : src + j ≤ src + i := Nat.add_le_add_left hji src
  exact ⟨vma, hfind, Nat.le_trans hle hmax, Nat.lt_of_le_of_lt hle hstop, hprot⟩

end Gate

/-! ### The loop -/

/-- What the loop leaves that starts at byte `i` and has `n` bytes to go. -/
structure Copied (s : State) (src i n : Nat) (r : Option Nat) (t : State) : Prop where
  state : ∃ pathBuf trace, t = { s with pathBuf, trace }
  result : ∀ k, r = some k ↔ (i ≤ k ∧ k < i + n) ∧ (s.user (src + k) = 0 ∧ ∀ j, i ≤ j → j < k → s.user (src + j) ≠ 0) ∧
    mayRead (s.mm.findVma src) src k = true
  text : ∀ k, r = some k → t.pathBuf = overwrite s.pathBuf i (text s (src + i) (k + 1 - i))
  reads : ∃ new, t.trace = s.trace ++ new ∧ ∀ a ∈ new, ∃ j < i + n, a = { addr := src + j, write := false } ∧
    mayRead (s.mm.findVma src) src j = true

section Loop

variable {s : State} {src : Nat}

theorem Copied.stopped {i n : Nat} (hnone : ∀ k, i ≤ k → k < i + n → mayRead (s.mm.findVma src) src k ≠ true) :
    Copied s src i n none s where
  state := ⟨s.pathBuf, s.trace, rfl⟩
  result := fun k => by
    refine iff_of_false (by nofun) ?_
    rintro ⟨⟨hik, hkn⟩, -, hmay⟩
    exact hnone k hik hkn hmay
  text := fun k hk => by cases hk
  reads := ⟨[], (List.append_nil _).symm, fun a ha => (List.not_mem_nil ha).elim⟩

/-- The state behind the read of byte `i`. -/
def taken (s : State) (src i : Nat) : State :=
  { s with trace := s.trace ++ accesses false (src + i) 1, pathBuf := s.pathBuf.set i (s.user (src + i)) }

theorem set_eq_overwrite {l : Bytes} {i : Nat} (h : i < l.length) (b : UInt8) : l.set i b = overwrite l i [b] := by
  rw [overwrite, List.set_eq_take_append_cons_drop, if_pos h, List.append_assoc]
  rfl

theorem text_succ (s : State) (src n : Nat) : text s src (n + 1) = [s.user src] ++ text s (src + 1) n := by
  rw [text, List.range_succ_eq_map, List.map_cons, List.map_map, Nat.add_zero]
  refine congrArg (s.user src :: ·) (List.map_congr_left fun i _ => ?_)
  rw [Function.comp_apply, Nat.add_assoc, Nat.add_comm 1]

theorem copyLoop_step {i n : Nat} (hsrc : src < u64Bound) (hi : i < maxCstr) (hnull : src + i ≠ 0)
    (hmay : mayRead (s.mm.findVma src) src i = true) (vma : Option Mm.VmArea) (hvma : vma = s.mm.findVma src) :
    copyLoop vma src i (n + 1) s =
      if s.user (src + i) = 0 then (.ok (some i), taken s src i) else copyLoop vma src (i + 1) n (taken s src i) := by
  obtain ⟨-, -, hmax, -⟩ := (mayRead_iff hsrc hi).mp hmay
  have hwrap : wrapAddU64 src i = src + i := Nat.mod_eq_of_lt (Nat.lt_of_le_of_lt hmax (by decide))
  rw [copyLoop, hvma, if_neg (not_not.mpr hmay), hwrap, ptrFromInt_byte hnull, Act.lift_ok_bind_run]
  have hread : readUser (src + i) 1 s =
      (.ok [s.user (src + i)], { s with trace := s.trace ++ accesses false (src + i) 1 }) := rfl
  rw [Act.bind_ok_run hread, Act.modify_bind_run]
  change (if s.user (src + i) = 0 then (pure (some i) : Run (Option Nat)) else _) (taken s src i) = _
  split_ifs <;> rfl

theorem Copied.found {i n : Nat} (hi : i < s.pathBuf.length) (hmay : mayRead (s.mm.findVma src) src i = true)
    (hzero : s.user (src + i) = 0) : Copied s src i (n + 1) (some i) (taken s src i) where
  state := ⟨_, _, rfl⟩
  result := fun k => by
    constructor
    · intro hk
      cases hk
      exact ⟨⟨Nat.le_refl i, by omega⟩, ⟨hzero, fun j hij hji => absurd hij (Nat.not_le_of_lt hji)⟩, hmay⟩
    · rintro ⟨⟨hik, -⟩, ⟨-, hbefore⟩, -⟩
      by_contra hne
      have hlt : i < k := Nat.lt_of_le_of_ne hik fun heq => hne (congrArg some heq)
      exact hbefore i (Nat.le_refl i) hlt hzero
  text := fun k hk => by
    cases hk
    rw [Nat.add_sub_cancel_left]
    exact set_eq_overwrite hi _
  reads := ⟨_, rfl, fun a ha => ⟨i, by omega, List.mem_singleton.mp ha, hmay⟩⟩

theorem Copied.next {i n : Nat} {r : Option Nat} {t : State} (hi : i < s.pathBuf.length)
    (hmay : mayRead (s.mm.findVma src) src i = true) (hbyte : s.user (src + i) ≠ 0)
    (h : Copied (taken s src i) src (i + 1) n r t) : Copied s src i (n + 1) r t where
  state := h.state
  result := fun k => by
    rw [h.result k]
    have hbound : i + 1 + n = i + (n + 1) := by omega
    rw [hbound]
    constructor
    · rintro ⟨⟨hik, hkn⟩, ⟨hzero, hbefore⟩, hk⟩
      refine ⟨⟨Nat.le_of_succ_le hik, hkn⟩, ⟨hzero, fun j hij hjk => ?_⟩, hk⟩
      rcases Nat.eq_or_lt_of_le hij with rfl | hlt
      · exact hbyte
      · exact hbefore j hlt hjk
    · rintro ⟨⟨hik, hkn⟩, ⟨hzero, hbefore⟩, hk⟩
      have hlt : i < k := Nat.lt_of_le_of_ne hik fun heq => hbyte (heq ▸ hzero)
      exact ⟨⟨hlt, hkn⟩, ⟨hzero, fun j hij => hbefore j (Nat.le_of_succ_le hij)⟩, hk⟩
  text := fun k hk => by
    obtain ⟨⟨hik, -⟩, -⟩ := (h.result k).mp hk
    have hlen : k + 1 - i = k + 1 - (i + 1) + 1 := by omega
    rw [h.text k hk, hlen, text_succ]
    change overwrite (s.pathBuf.set i (s.user (src + i))) (i + 1) (Uaccess.text s (src + (i + 1)) _) = _
    rw [set_eq_overwrite hi, ← Nat.add_assoc]
    exact overwrite_overwrite (Nat.le_of_lt hi)
  reads := by
    obtain ⟨new, htrace, hnew⟩ := h.reads
    refine ⟨accesses false (src + i) 1 ++ new, htrace.trans (List.append_assoc _ _ _), fun a ha => ?_⟩
    rcases List.mem_append.mp ha with hfirst | hrest
    · exact ⟨i, by omega, List.mem_singleton.mp hfirst, hmay⟩
    · obtain ⟨j, hj, heq, hread⟩ := hnew a hrest
      exact ⟨j, by omega, heq, hread⟩

/-- The loop, away from address 0. -/
theorem copyLoop_copied (n : Nat) {i : Nat} (hsrc : src < u64Bound) (hmax : i + n ≤ maxCstr)
    (hbuf : i + n ≤ s.pathBuf.length) (hnull : n ≠ 0 → mayRead (s.mm.findVma src) src i = true → src + i ≠ 0) :
    ∃ r t, copyLoop (s.mm.findVma src) src i n s = (.ok r, t) ∧ Copied s src i n r t := by
  induction n generalizing i s with
  | zero =>
      refine ⟨none, s, rfl, .stopped fun k hik hki => ?_⟩
      exact absurd hki (Nat.not_lt.mpr hik)
  | succ n ih =>
      have hi : i < maxCstr := by omega
      by_cases hmay : mayRead (s.mm.findVma src) src i = true
      · have hstep := copyLoop_step (n := n) hsrc hi (hnull (Nat.succ_ne_zero n) hmay) hmay _ rfl
        by_cases hzero : s.user (src + i) = 0
        · rw [if_pos hzero] at hstep
          exact ⟨some i, _, hstep, .found (by omega) hmay hzero⟩
        · rw [if_neg hzero] at hstep
          obtain ⟨r, t, hrun, hcopied⟩ := ih (s := taken s src i) (i := i + 1) (by omega)
            (by rw [taken, List.length_set]; omega) fun _ _ => by omega
          exact ⟨r, t, hstep.trans hrun, hcopied.next (by omega) hmay hzero⟩
      · refine ⟨none, s, ?_, .stopped fun k hik hkn hk => hmay (mayRead_mono hsrc (by omega) hik hk)⟩
        rw [copyLoop, if_pos hmay]
        rfl

end Loop

/-- The read that a byte may be made of is in the area of the pointer. -/
theorem holds_of_mayRead {m : Mm} (hdisjoint : Disjoint m) {src j : Nat} (hsrc : src < u64Bound) (hj : j < maxCstr)
    (h : mayRead (m.findVma src) src j = true) {i : Fin Mm.maxVmAreas} {vma : Mm.VmArea} (hi : m.vmAreas i = some vma)
    (hholds : vma.holds src = true) : vma.holds (src + j) = true := by
  obtain ⟨found, hfind, -, hstop, -⟩ := (mayRead_iff hsrc hj).mp h
  obtain ⟨k, hk, hstart, hlt⟩ := findVma_holds hfind
  have hsame : k = i := by
    refine hdisjoint k i found vma src hk hi ?_ hholds
    rw [Mm.VmArea.holds, decide_eq_true hstart, decide_eq_true hlt, Bool.and_self]
  rw [hsame, hi] at hk
  cases hk
  rw [Mm.VmArea.holds, decide_eq_true (Nat.le_trans hstart (Nat.le_add_right _ _)), decide_eq_true hstop, Bool.and_self]

/-- The copy of a string: it returns `n` exactly where the first NUL is at `src + n`, in front of the end of the buffer and of
the limit, and the gate is open for the `n + 1` bytes; these are then in the buffer; and every read is in the area of
`src`. Only a string that starts at address 0 of a readable area, to which no pointer can be made, is not copied. -/
theorem copyCStr_agrees {s : State} (hdisjoint : Disjoint s.mm) (src : U64) :
    (AtNull s src → (copyCStrFromUser src s).1 = .trap) ∧
      (¬AtNull s src → ∃ r t, copyCStrFromUser src s = (.ok r, t) ∧
        (∀ n, r = some n ↔
          EndsAt s src n ∧ n < min s.pathBuf.length maxCstr ∧ validate s.mm src (n + 1) false = true) ∧
        (∀ n, r = some n → t.pathBuf = overwrite s.pathBuf 0 (text s src (n + 1))) ∧
        (∃ pathBuf trace, t = { s with pathBuf, trace }) ∧
        ∃ new, t.trace = s.trace ++ new ∧ ∀ a ∈ new, a.write = false ∧ (∃ vma, s.mm.findVma src = some vma) ∧
          ∀ i vma, s.mm.vmAreas i = some vma → vma.holds src = true → vma.holds a.addr = true) := by
  have hrun : copyCStrFromUser src s =
      copyLoop (s.mm.findVma src) src 0 (min s.pathBuf.length maxCstr) s := rfl
  rw [hrun]
  refine ⟨fun hnull => ?_, fun hnull => ?_⟩
  · obtain ⟨hzero, hroom, hmay⟩ := hnull
    have hpos : min s.pathBuf.length maxCstr ≠ 0 := by
      have hlength := List.length_pos_iff.mpr hroom
      rw [maxCstr]
      omega
    obtain ⟨n, hn⟩ := Nat.exists_eq_succ_of_ne_zero hpos
    rw [hn, hzero, copyLoop, if_neg (not_not.mpr hmay)]
    rfl
  · have hmax : min s.pathBuf.length maxCstr ≤ maxCstr := Nat.min_le_right _ _
    obtain ⟨r, t, hloop, hcopied⟩ := @copyLoop_copied s src (min s.pathBuf.length maxCstr) 0
      src.isLt (by rwa [Nat.zero_add]) (by rw [Nat.zero_add]; exact Nat.min_le_left _ _) fun hroom hmay hzero => by
        have hsrc : src.val = 0 := hzero
        rw [hsrc] at hmay
        refine hnull ⟨hsrc, fun hnil => hroom ?_, hmay⟩
        rw [hnil, List.length_nil, Nat.zero_min]
    refine ⟨r, t, hloop, fun n => ?_, fun n hn => hcopied.text n hn, hcopied.state, ?_⟩
    · rw [hcopied.result n, Nat.zero_add]
      constructor
      · rintro ⟨⟨-, hlt⟩, ⟨hzero, hbefore⟩, hmay⟩
        refine ⟨⟨hzero, fun i hi => hbefore i (Nat.zero_le i) hi⟩, hlt, ?_⟩
        exact (mayRead_iff_validate src.isLt (Nat.lt_of_lt_of_le hlt hmax)).mp hmay
      · rintro ⟨⟨hzero, hbefore⟩, hlt, hgate⟩
        refine ⟨⟨Nat.zero_le n, hlt⟩, ⟨hzero, fun j _ hj => hbefore j hj⟩, ?_⟩
        exact (mayRead_iff_validate src.isLt (Nat.lt_of_lt_of_le hlt hmax)).mpr hgate
    · obtain ⟨new, htrace, hnew⟩ := hcopied.reads
      refine ⟨new, htrace, fun a ha => ?_⟩
      obtain ⟨j, hj, rfl, hmay⟩ := hnew a ha
      rw [Nat.zero_add] at hj
      have hjmax : j < maxCstr := Nat.lt_of_lt_of_le hj hmax
      obtain ⟨vma, hfind, -⟩ := (mayRead_iff src.isLt hjmax).mp hmay
      exact ⟨rfl, ⟨vma, hfind⟩, fun i vma hi hholds => holds_of_mayRead hdisjoint src.isLt hjmax hmay hi hholds⟩

/-- One area of one page, readable. -/
def onePage (start : Nat) : Mm :=
  { vmAreas := fun i => if i.val = 0 then some { start, stop := start + 4096, flags := 0, prot := Mm.protRead } else none }

theorem disjoint_onePage (start : Nat) : Disjoint (onePage start) := by
  intro i j v w a hi hj _ _
  have hzero : ∀ {k : Fin Mm.maxVmAreas} {u : Mm.VmArea}, (onePage start).vmAreas k = some u → k.val = 0 := by
    intro k u hk
    by_contra hne
    have hnone : (onePage start).vmAreas k = none := if_neg hne
    rw [hnone] at hk
    cases hk
  exact Fin.ext ((hzero hi).trans (hzero hj).symm)

/-- A string of one byte, alone in its page. -/
def oneByte : State := { mm := onePage 4096, user := fun a => if a = 4096 then 97 else 0 }

theorem copyCStr_agrees_oneByte : Disjoint oneByte.mm ∧ ¬AtNull oneByte 4096 ∧
    ∃ t, copyCStrFromUser 4096 oneByte = (.ok (some 1), t) := by
  have hdisjoint : Disjoint oneByte.mm := disjoint_onePage 4096
  have hnull : ¬AtNull oneByte 4096 := fun h => absurd h.1 (by decide)
  have haddr : ((4096 : U64) : Nat) = 4096 := by decide
  obtain ⟨r, t, hrun, hresult, -⟩ := (copyCStr_agrees hdisjoint (4096 : U64)).2 (haddr ▸ hnull)
  rw [haddr] at hrun hresult
  have hroom : 1 < min oneByte.pathBuf.length maxCstr := by
    rw [oneByte, List.length_replicate]
    decide
  refine ⟨hdisjoint, hnull, t, ?_⟩
  rw [hrun, (hresult 1).mpr ⟨⟨by decide, ?_⟩, hroom, by decide⟩]
  intro i hi
  rw [Nat.lt_one_iff.mp hi]
  decide

/-- An empty string at address 0 of a readable area: the gate is open for it, and the copy traps. -/
theorem null_string_traps : ¬∀ (s : State) (src : U64), Disjoint s.mm →
    ∃ r t, copyCStrFromUser src s = (.ok r, t) ∧ ∀ n, r = some n ↔
      EndsAt s src n ∧ n < min s.pathBuf.length maxCstr ∧ validate s.mm src (n + 1) false = true := by
  intro hall
  have hmay : mayRead ((onePage 0).findVma 0) 0 0 = true := by decide
  have hnull : AtNull { mm := onePage 0 } (0 : U64).val := ⟨by decide, List.cons_ne_nil _ _, hmay⟩
  have htrap := (copyCStr_agrees (s := { mm := onePage 0 }) (disjoint_onePage 0) 0).1 hnull
  obtain ⟨r, t, hrun, -⟩ := hall { mm := onePage 0 } 0 (disjoint_onePage 0)
  have hvalue := congrArg Prod.fst hrun
  rw [htrap] at hvalue
  cases hvalue

end Kernel.Uaccess
