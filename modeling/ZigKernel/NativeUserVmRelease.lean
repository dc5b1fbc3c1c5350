import ZigKernel.NativeUserVm

/-! What `releaseAll` does: it offers the owned frames to the provider one after the other, last one
first and frame 0 at the end, and the frames that are refused stay, in their order. -/

namespace Native

open Zig

namespace UserVm

variable {ω : Type} {P : Provider ω}

/-! ### Running the provider's calls -/

section Run

variable {α : Type} {m : Machine ω}

@[simp] theorem modifySpace_run (f : AddressSpace → AddressSpace) :
    (modifySpace f : Vm ω Unit) m = (.ok (), { m with space := f m.space }) := rfl

@[simp] theorem modifySpace_bind_run (f : AddressSpace → AddressSpace) (g : Unit → Vm ω α) :
    ((modifySpace f : Vm ω Unit) >>= g) m = g () { m with space := f m.space } := rfl

@[simp] theorem allocPage_bind_run (g : Except AllocError Nat → Vm ω α) :
    (allocPage P >>= g) m = g (P.allocPage m.world).1 { m with world := (P.allocPage m.world).2 } := rfl

@[simp] theorem pageBytes_bind_run (phys : Nat) (g : Except AccessError Nat → Vm ω α) :
    (pageBytes P phys >>= g) m = g (P.pageBytes phys m.world).1 { m with world := (P.pageBytes phys m.world).2 } := rfl

@[simp] theorem freePage_bind_run (phys : Nat) (g : Bool → Vm ω α) :
    (freePage P phys >>= g) m = g (P.freePage phys m.world).1 { m with world := (P.freePage phys m.world).2 } := rfl

@[simp] theorem readPage_bind_run (ptr : Nat) (g : Page → Vm ω α) :
    (readPage P ptr >>= g) m = g (P.load ptr m.world) m := rfl

@[simp] theorem writePage_run (ptr : Nat) (bytes : Page) :
    writePage P ptr bytes m = (.ok (), { m with world := P.store ptr bytes m.world }) := rfl

@[simp] theorem writePage_bind_run (ptr : Nat) (bytes : Page) (g : Unit → Vm ω α) :
    (writePage P ptr bytes >>= g) m = g () { m with world := P.store ptr bytes m.world } := rfl

end Run

/-! ### The journal -/

structure Journal.Wf (j : Journal) : Prop where
  count : j.count ≤ j.frames.length
  nonzero : 0 ∉ j.live
  nodup : j.live.Nodup

theorem Journal.length_live {j : Journal} (h : j.count ≤ j.frames.length) : j.live.length = j.count := by
  rw [Journal.live, List.length_take, Nat.min_eq_left h]

theorem Journal.live_push {j : Journal} (h : j.count < j.frames.length) (phys : Nat) :
    (j.push phys).live = j.live ++ [phys] := by
  have hlength : j.count < (j.frames.set j.count phys).length := by
    rw [List.length_set]
    exact h
  rw [Journal.live, Journal.push, List.take_succ_eq_append_getElem hlength, List.getElem_set_self,
    List.take_set_of_le (Nat.le_refl _), Journal.live]

/-! ### Offering frames -/

/-- The world after `scrub`. -/
def scrubbed (P : Provider ω) (phys : Nat) (w : ω) : ω :=
  match P.pageBytes phys w with
  | (.error _, w') => w'
  | (.ok ptr, w') => P.store ptr zeroPage w'

/-- The provider's answer for a scrubbed frame. -/
def offer (P : Provider ω) (phys : Nat) (w : ω) : Bool × ω := P.freePage phys (scrubbed P phys w)

/-- Offers the frames in order. Returns the refused ones in that order. -/
def offerAll (P : Provider ω) : List Nat → ω → List Nat × ω
  | [], w => ([], w)
  | phys :: rest, w =>
      let (taken, w) := offer P phys w
      let (refused, w) := offerAll P rest w
      (if taken then refused else phys :: refused, w)

theorem offerAll_taken {phys : Nat} {w : ω} (h : (offer P phys w).1 = true) (rest : List Nat) :
    offerAll P (phys :: rest) w = offerAll P rest (offer P phys w).2 := by
  simp only [offerAll, h, if_true]

theorem offerAll_refused {phys : Nat} {w : ω} (h : (offer P phys w).1 = false) (rest : List Nat) :
    offerAll P (phys :: rest) w =
      (phys :: (offerAll P rest (offer P phys w).2).1, (offerAll P rest (offer P phys w).2).2) := by
  simp only [offerAll, h, Bool.false_eq_true, if_false]

theorem offerAll_sublist (P : Provider ω) (frames : List Nat) (w : ω) : (offerAll P frames w).1.Sublist frames := by
  induction frames generalizing w with
  | nil => exact List.Sublist.refl _
  | cons phys frames ih =>
      cases htaken : (offer P phys w).1 with
      | true =>
          rw [offerAll_taken htaken]
          exact (ih _).cons phys
      | false =>
          rw [offerAll_refused htaken]
          exact (ih _).cons_cons phys

theorem scrub_bind_run {α : Type} {phys : Nat} (hphys : phys ≠ 0) (g : Unit → Vm ω α) (m : Machine ω) :
    (scrub P phys >>= g) m = g () { m with world := scrubbed P phys m.world } := by
  have hscrub : scrub P phys m = (.ok (), { m with world := scrubbed P phys m.world }) := by
    rw [scrub, if_neg hphys, pageBytes_bind_run, scrubbed]
    rcases P.pageBytes phys m.world with ⟨e | ptr, w⟩ <;> rfl
  rw [Act.bind_ok_run hscrub]

/-- A list that agrees with `frames` from index `i` on, extended by that entry. -/
theorem take_succ_of_drop {l frames : List Nat} {i : Nat} (h : l.drop i = frames.drop i) (hi : i < frames.length) :
    l.take (i + 1) = l.take i ++ [frames[i]] ∧ l.drop (i + 1) = frames.drop (i + 1) := by
  constructor
  · rw [List.take_add, h, List.drop_eq_getElem_cons hi, List.take_succ_cons, List.take_zero]
  · rw [← List.drop_drop, h, List.drop_drop]

/-- The marks that the first loop leaves are the frames the provider took. -/
theorem releaseFrames_run (i : Nat) (fail : Option Nat) (m : Machine ω) (hi : i ≤ m.space.journal.frames.length)
    (hnonzero : 0 ∉ m.space.journal.frames.take i) :
    ∃ frames', releaseFrames P i fail m =
        (.ok (fail.or (offerAll P (m.space.journal.frames.take i).reverse m.world).1.head?),
          { world := (offerAll P (m.space.journal.frames.take i).reverse m.world).2
            space := { m.space with journal := { m.space.journal with frames := frames' } } }) ∧
      frames'.length = m.space.journal.frames.length ∧ frames'.drop i = m.space.journal.frames.drop i ∧
      (frames'.take i).filter (· ≠ releasedMark) =
        (offerAll P (m.space.journal.frames.take i).reverse m.world).1.reverse := by
  induction i generalizing fail m with
  | zero => exact ⟨m.space.journal.frames, by rw [releaseFrames]; cases fail <;> rfl, rfl, rfl, rfl⟩
  | succ i ih =>
      obtain ⟨w, space⟩ := m
      simp only at hi hnonzero ⊢
      have htake := List.take_succ_eq_append_getElem hi
      have hphys : space.journal.frames.getD i 0 = space.journal.frames[i] := by
        rw [List.getD_eq_getElem?_getD, List.getElem?_eq_getElem hi, Option.getD_some]
      rw [htake, List.mem_append, not_or] at hnonzero
      obtain ⟨hrest, hlast⟩ := hnonzero
      have hne : space.journal.frames[i] ≠ 0 := fun h0 => hlast (List.mem_singleton.mpr h0.symm)
      rw [htake, List.reverse_append, List.reverse_singleton, List.singleton_append]
      simp only [releaseFrames, Act.get_bind_run, hphys]
      rw [scrub_bind_run hne, freePage_bind_run]
      simp only [offerAll]
      rw [← offer]
      cases htaken : (offer P space.journal.frames[i] w).1 with
      | true =>
          have hi' : i < (space.journal.frames.set i releasedMark).length := by
            rw [List.length_set]
            exact hi
          have hkept : (space.journal.frames.set i releasedMark).take i = space.journal.frames.take i :=
            List.take_set_of_le (Nat.le_refl _)
          obtain ⟨frames', hrun, hlength, hdrop, hfilter⟩ := ih fail
            { world := (offer P space.journal.frames[i] w).2
              space := { space with
                journal := { space.journal with frames := space.journal.frames.set i releasedMark } } }
            (Nat.le_of_lt hi') (by rw [hkept]; exact hrest)
          simp only [hkept] at hrun hlength hdrop hfilter
          obtain ⟨htake', hdrop'⟩ := take_succ_of_drop hdrop hi'
          rw [List.getElem_set_self] at htake'
          refine ⟨frames', hrun, by rw [hlength, List.length_set], ?_, ?_⟩
          · rw [hdrop', List.drop_set_of_lt (Nat.lt_succ_self i)]
          · rw [htake', List.filter_append, hfilter]
            exact List.append_nil _
      | false =>
          obtain ⟨frames', hrun, hlength, hdrop, hfilter⟩ := ih (firstFailure fail space.journal.frames[i])
            { world := (offer P space.journal.frames[i] w).2, space } (Nat.le_of_lt hi) hrest
          simp only at hrun hlength hdrop hfilter
          obtain ⟨htake', hdrop'⟩ := take_succ_of_drop hdrop hi
          refine ⟨frames', ?_, hlength, hdrop', ?_⟩
          · cases fail <;> exact hrun
          · rw [htake', List.filter_append, hfilter]
            simp only [hne, releasedMark, Bool.false_eq_true, if_false, List.reverse_cons, ne_eq, not_false_eq_true,
              decide_true, List.filter_cons_of_pos, List.filter_nil]

/-! ### Compaction -/

/-- The second loop moves the unmarked entries down, in their order. -/
theorem compactFrames_run (left r w : Nat) (frames : List Nat) (hw : w ≤ r) (hr : r + left ≤ frames.length) :
    (compactFrames left r w frames).1.take (compactFrames left r w frames).2 =
        frames.take w ++ ((frames.drop r).take left).filter (· ≠ releasedMark) ∧
      (compactFrames left r w frames).1.length = frames.length ∧
      (compactFrames left r w frames).2 ≤ r + left := by
  induction left generalizing r w frames with
  | zero =>
      refine ⟨?_, rfl, hw⟩
      rw [List.take_zero]
      exact (List.append_nil _).symm
  | succ left ih =>
      have hlt : r < frames.length := by omega
      have hentry : frames.getD r 0 = frames[r] := by
        rw [List.getD_eq_getElem?_getD, List.getElem?_eq_getElem hlt, Option.getD_some]
      rw [compactFrames, hentry, List.drop_eq_getElem_cons hlt, List.take_succ_cons]
      by_cases hmark : frames[r] ≠ releasedMark
      · rw [if_pos hmark, List.filter_cons_of_pos (by simpa using hmark)]
        have hw' : w < (frames.set w frames[r]).length := by
          rw [List.length_set]
          omega
        obtain ⟨htake, hlength, hcount⟩ := ih (r + 1) (w + 1) (frames.set w frames[r]) (by omega)
          (by rw [List.length_set]; omega)
        refine ⟨?_, by rw [hlength, List.length_set], by omega⟩
        rw [htake, List.drop_set_of_lt (by omega), List.take_succ_eq_append_getElem hw', List.getElem_set_self,
          List.take_set_of_le (Nat.le_refl _), List.append_assoc, List.singleton_append]
      · rw [if_neg hmark, List.filter_cons_of_neg (by simpa using hmark)]
        obtain ⟨htake, hlength, hcount⟩ := ih (r + 1) w frames (by omega) (by omega)
        exact ⟨htake, hlength, by omega⟩

theorem Journal.compact_run {j : Journal} (h : j.count ≤ j.frames.length) :
    j.compact.live = j.live.filter (· ≠ releasedMark) ∧ j.compact.frames.length = j.frames.length ∧
      j.compact.count ≤ j.compact.frames.length := by
  obtain ⟨htake, hlength, hcount⟩ := compactFrames_run j.count 0 0 j.frames (Nat.le_refl 0) (by omega)
  refine ⟨?_, hlength, ?_⟩
  · rw [List.take_zero, List.drop_zero, List.nil_append] at htake
    exact htake
  · show (compactFrames j.count 0 0 j.frames).2 ≤ (compactFrames j.count 0 0 j.frames).1.length
    omega

/-! ### `releaseAll` -/

/-- What a release leaves behind: the refused frames in journal order, whether frame 0 is one of them, and
the provider's world. -/
structure Remains (ω : Type) where
  kept : List Nat
  zero : Bool
  world : ω

def remains (P : Provider ω) (m : Machine ω) : Remains ω :=
  let (refused, w) := offerAll P m.space.journal.live.reverse m.world
  if m.space.ownsZero then
    { kept := refused.reverse, zero := ¬(P.freePage 0 w).1, world := (P.freePage 0 w).2 }
  else { kept := refused.reverse, zero := false, world := w }

/-- The first refused frame. -/
def Remains.first (r : Remains ω) : Option Nat := r.kept.getLast?.or (if r.zero then some 0 else none)

/-- The space after a release. -/
def Remains.space (r : Remains ω) (s : AddressSpace) (journal : Journal) : AddressSpace :=
  { s with journal, ownsZero := r.zero, failedReleaseFrame := r.first.getD 0 }

theorem reportRelease_run (fail : Option Nat) (m : Machine ω) :
    reportRelease fail m = (match fail with | some _ => .error .releaseFailed | none => .ok (),
      { m with space := { m.space with failedReleaseFrame := fail.getD 0 } }) := by
  cases fail <;> rfl

theorem remains_kept (P : Provider ω) (m : Machine ω) :
    (remains P m).kept = (offerAll P m.space.journal.live.reverse m.world).1.reverse := by
  rw [remains]
  split_ifs <;> rfl

theorem remains_sublist (P : Provider ω) (m : Machine ω) : (remains P m).kept.Sublist m.space.journal.live := by
  rw [remains_kept]
  have h := (offerAll_sublist P m.space.journal.live.reverse m.world).reverse
  rwa [List.reverse_reverse] at h

theorem remains_of_zero {m : Machine ω} (h : m.space.ownsZero = true) :
    (remains P m).zero = !(P.freePage 0 (offerAll P m.space.journal.live.reverse m.world).2).1 ∧
      (remains P m).world = (P.freePage 0 (offerAll P m.space.journal.live.reverse m.world).2).2 := by
  rw [remains]
  simp only [if_pos h, Bool.not_eq_true, Bool.decide_eq_false, and_self]

theorem remains_of_no_zero {m : Machine ω} (h : m.space.ownsZero = false) :
    (remains P m).zero = false ∧ (remains P m).world = (offerAll P m.space.journal.live.reverse m.world).2 := by
  rw [remains]
  simp only [h, Bool.false_eq_true, if_false, and_self]

theorem Remains.first_eq_none {r : Remains ω} : r.first = none ↔ r.kept = [] ∧ r.zero = false := by
  rw [Remains.first, Option.or_eq_none_iff, List.getLast?_eq_none_iff]
  cases r.zero <;> simp

theorem releaseAll_run {m : Machine ω} (h : m.space.journal.Wf) :
    ∃ journal : Journal, journal.live = (remains P m).kept ∧ journal.count ≤ journal.frames.length ∧
      journal.frames.length = m.space.journal.frames.length ∧
      releaseAll P m =
        (match (remains P m).first with | some _ => .error .releaseFailed | none => .ok (),
          { world := (remains P m).world, space := (remains P m).space m.space journal }) := by
  obtain ⟨w, space⟩ := m
  obtain ⟨frames', hrun, hlength, -, hfilter⟩ :=
    releaseFrames_run (P := P) space.journal.count none { world := w, space } h.count h.nonzero
  have hcount : space.journal.count ≤ frames'.length := by
    rw [hlength]
    exact h.count
  obtain ⟨hlive, hlength', hcount'⟩ := Journal.compact_run (j := { frames := frames', count := space.journal.count }) hcount
  refine ⟨{ frames := frames', count := space.journal.count : Journal }.compact, ?_, hcount', hlength'.trans hlength, ?_⟩
  · rw [hlive, remains_kept]
    exact hfilter
  have hlast (l : List Nat) : l.reverse.getLast? = l.head? := List.getLast?_reverse
  rw [releaseAll, Act.get_bind_run, Act.bind_ok_run hrun]
  simp only [modifySpace_bind_run, Act.get_bind_run, Option.none_or]
  rw [remains, Remains.space, Remains.first]
  have hjournal : space.journal.frames.take space.journal.count = space.journal.live := rfl
  simp only [hjournal]
  generalize offerAll P space.journal.live.reverse w = offered
  obtain ⟨refused, w₁⟩ := offered
  by_cases hzero : space.ownsZero = true
  · simp only [if_pos hzero, freePage_bind_run, hlast]
    generalize P.freePage 0 w₁ = answer
    obtain ⟨taken, w₂⟩ := answer
    cases taken with
    | true =>
        simp only [if_true, modifySpace_bind_run, reportRelease_run, not_true_eq_false, decide_false,
          Bool.false_eq_true, if_false, Option.or_none]
    | false =>
        simp only [Bool.false_eq_true, if_false, reportRelease_run, not_false_eq_true, decide_true, if_true, hzero]
        cases refused.head? <;> rfl
  · rw [Bool.not_eq_true] at hzero
    simp only [hzero, Bool.false_eq_true, if_false, hlast, Option.or_none, reportRelease_run]

end UserVm

end Native
