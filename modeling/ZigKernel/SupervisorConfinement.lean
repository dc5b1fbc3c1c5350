import ZigKernel.LibDelimited
import ZigKernel.LibLexical
import ZigKernel.SupervisorExecution
import ZigKernel.SupervisorWorkspace

/-! Where the paths of a client lead. `resolve` computes the normal form of the segments behind `/workspace`, on a
stack of bounded height; a guest path has no segment that goes up; a relative link target does not climb out of its
directory, but of an absolute one only the front is looked at. -/

namespace Supervisor

open Zig Lexical Delimited

namespace Workspace

/-- What a segment of a path does. -/
def kind (p : Bytes) : Kind := if p.length = 0 ∨ p = dot then .stay else if p = dotdot then .up else .name

variable {p req r rest target : Bytes} {segs parts : List Bytes} {outLen : Nat}

theorem kind_eq_stay : kind p = .stay ↔ p.length = 0 ∨ p = dot := by
  unfold kind
  split_ifs with hstay hup
  · exact iff_of_true rfl hstay
  · exact iff_of_false (by nofun) hstay
  · exact iff_of_false (by nofun) hstay

theorem kind_eq_up : kind p = .up ↔ p = dotdot := by
  unfold kind
  split_ifs with hstay hup
  · refine iff_of_false (by nofun) ?_
    rintro rfl
    exact absurd hstay (by decide)
  · exact iff_of_true rfl hup
  · exact iff_of_false (by nofun) hup

theorem kind_eq_name : kind p = .name ↔ p ≠ [] ∧ p ≠ dot ∧ p ≠ dotdot := by
  rw [ne_eq, ← List.length_eq_zero_iff]
  unfold kind
  split_ifs with hstay hup
  · exact iff_of_false (by nofun) (by tauto)
  · exact iff_of_false (by nofun) (by tauto)
  · exact iff_of_true rfl (by tauto)

/-! ### The canonical path -/

/-- The segments behind the prefix. -/
def segments (req : Bytes) : List Bytes := (req.drop pathPrefix.length).splitOn slash

/-- What `resolve` asks of a path. -/
structure Accepted (req : Bytes) : Prop where
  bounds : 1 ≤ req.length ∧ req.length ≤ maxPath
  noNul : 0 ∉ req
  inside : pathPrefix <+: req ∧ (req = pathPrefix ∨ pathPrefix ++ [slash] <+: req)
  stays : ¬Climbs kind 0 (segments req)
  shallow : Within kind maxParts [] (segments req)
  nonempty : normal kind [] (segments req) ≠ []

theorem resolveParts_cons (p : Bytes) (segs parts : List Bytes) : resolveParts (p :: segs) parts =
    match kind p with
    | .stay => resolveParts segs parts
    | .up => if parts.length = 0 then .error .escape else resolveParts segs parts.dropLast
    | .name => if parts.length ≥ maxParts then .error .badPath else resolveParts segs (parts ++ [p]) := by
  rw [resolveParts, kind]
  split_ifs <;> rfl

/-- The segment loop keeps the stack of the path, and stops where the path climbs or the stack is too high. -/
theorem resolveParts_cases (segs parts : List Bytes) (hparts : parts.length ≤ maxParts) :
    (¬Climbs kind parts.length segs ∧ Within kind maxParts parts segs ∧
        resolveParts segs parts = .ok (normal kind parts segs)) ∨
      (Climbs kind parts.length segs ∧ resolveParts segs parts = .error .escape) ∨
      (¬Within kind maxParts parts segs ∧ resolveParts segs parts = .error .badPath) := by
  induction segs generalizing parts with
  | nil => exact Or.inl ⟨not_climbs_nil, within_nil.mpr hparts, rfl⟩
  | cons p segs ih =>
      rw [resolveParts_cons, within_cons, normal_cons, and_iff_right hparts]
      cases hp : kind p with
      | stay =>
          rw [climbs_stay hp, push_stay hp]
          exact ih parts hparts
      | up =>
          rw [climbs_up hp, push_up hp]
          dsimp only
          by_cases hempty : parts.length = 0
          · rw [if_pos hempty]
            exact Or.inr (Or.inl ⟨Or.inl hempty, rfl⟩)
          · have hlength : parts.dropLast.length = parts.length - 1 := List.length_dropLast
            have hrest := ih parts.dropLast (by omega)
            rw [hlength] at hrest
            rw [if_neg hempty, or_iff_right hempty]
            exact hrest
      | name =>
          rw [climbs_name hp, push_name hp]
          dsimp only
          by_cases hfull : parts.length ≥ maxParts
          · rw [if_pos hfull]
            refine Or.inr (Or.inr ⟨fun h => ?_, rfl⟩)
            have := h.start
            rw [List.length_append, List.length_singleton] at this
            omega
          · have hlength : (parts ++ [p]).length = parts.length + 1 := by simp
            have hrest := ih (parts ++ [p]) (by omega)
            rw [hlength] at hrest
            rw [if_neg hfull]
            exact hrest

/-- Behind the first part every part is written with a slash in front. -/
theorem joinParts_behind (parts : List Bytes) (written : Bytes) (hne : written ≠ [])
    (hroom : (written ++ parts.flatMap fun p => slash :: p).length ≤ outLen) :
    joinParts outLen parts written = .ok (written ++ parts.flatMap fun p => slash :: p) := by
  induction parts generalizing written with
  | nil => rw [joinParts, List.flatMap_nil, List.append_nil]
  | cons p parts ih =>
      have hlength : written.length ≠ 0 := fun h => hne (List.length_eq_zero_iff.mp h)
      have hnext : written ++ (p :: parts).flatMap (fun p => slash :: p) =
          written ++ [slash] ++ p ++ parts.flatMap fun p => slash :: p := by
        simp
      rw [hnext] at hroom ⊢
      have hfits : (written ++ [slash] ++ p).length ≤ outLen := by
        rw [List.length_append] at hroom
        omega
      rw [List.length_append, List.length_append, List.length_singleton] at hfits
      rw [joinParts, if_neg (by omega)]
      simp only [if_pos hlength]
      rw [List.length_append, List.length_singleton, if_neg (by omega)]
      exact ih (written ++ [slash] ++ p) (by simp) hroom

theorem joinParts_eq (hnames : ∀ p ∈ parts, p ≠ []) (hroom : ([slash].intercalate parts).length ≤ outLen) :
    joinParts outLen parts [] = .ok ([slash].intercalate parts) := by
  cases parts with
  | nil => rfl
  | cons p parts =>
      rw [List.forall_mem_cons] at hnames
      rw [intercalate_cons] at hroom ⊢
      have hfits : p.length ≤ outLen := by
        rw [List.length_append] at hroom
        omega
      rw [joinParts, if_neg (fun h => h.1 rfl)]
      simp only [List.length_nil, ne_eq, not_true, if_false, Nat.zero_add, List.nil_append]
      rw [if_neg (Nat.not_lt_of_le hfits)]
      exact joinParts_behind parts p hnames.1 hroom

/-- The part of a path behind the prefix, in the way `resolve` tests it. -/
theorem inside_iff : (pathPrefix <+: req ∧ (req = pathPrefix ∨ pathPrefix ++ [slash] <+: req)) ↔
    pathPrefix.isPrefixOf req = true ∧
      ¬((req.drop pathPrefix.length).length ≠ 0 ∧ (req.drop pathPrefix.length).head? ≠ some slash) := by
  rw [List.isPrefixOf_iff_prefix]
  refine and_congr_right fun hunder => ?_
  obtain ⟨rest, rfl⟩ := hunder
  rw [List.drop_left, List.prefix_append_right_inj]
  cases rest with
  | nil => simp
  | cons c rest => simp [eq_comm]

/-- The checks in front of the segment loop. -/
theorem resolve_eq (req : Bytes) (outLen : Nat) : resolve req outLen =
    if (1 ≤ req.length ∧ req.length ≤ maxPath) ∧ 0 ∉ req ∧
        (pathPrefix <+: req ∧ (req = pathPrefix ∨ pathPrefix ++ [slash] <+: req)) then do
      let parts ← resolveParts (segments req) []
      if parts.length = 0 then .error .badPath else joinParts outLen parts []
    else .error .badPath := by
  unfold resolve
  by_cases hlength : req.length = 0 ∨ req.length > maxPath
  · rw [if_pos hlength, if_neg fun h => by omega]
  rw [if_neg hlength]
  by_cases hnul : req.contains 0 = true
  · rw [if_pos hnul, if_neg fun h => h.2.1 (List.contains_iff_mem.mp hnul)]
  rw [if_neg hnul]
  by_cases hunder : pathPrefix.isPrefixOf req = true
  swap
  · rw [if_pos hunder, if_neg fun h => hunder (inside_iff.mp h.2.2).1]
  rw [if_neg (not_not.mpr hunder)]
  by_cases hslash : (req.drop pathPrefix.length).length ≠ 0 ∧ (req.drop pathPrefix.length).head? ≠ some slash
  · simp only [if_pos hslash]
    rw [if_neg fun h => (inside_iff.mp h.2.2).2 hslash]
  · simp only [if_neg hslash]
    rw [if_pos ⟨by omega, fun h => hnul (List.contains_iff_mem.mpr h), inside_iff.mpr ⟨hunder, hslash⟩⟩]
    rfl

theorem segments_slash (rest : Bytes) : segments (pathPrefix ++ slash :: rest) = [] :: rest.splitOn slash := by
  rw [segments, List.drop_left]
  exact List.splitOn_append_cons_self_of_not_mem List.not_mem_nil rest

/-- The stack has names of the path only. -/
theorem names_of_stack (h : p ∈ normal kind [] segs) : p ∈ segs ∧ kind p = .name :=
  (mem_normal h).resolve_left List.not_mem_nil

/-- An accepted path goes on behind the prefix, and its normal form is no longer than what stands there. -/
theorem Accepted.behind (h : Accepted req) : ∃ rest, req = pathPrefix ++ slash :: rest ∧
    ([slash].intercalate (normal kind [] (segments req))).length ≤ rest.length := by
  obtain ⟨-, hbare | ⟨rest, hrest⟩⟩ := h.inside
  · refine absurd ?_ h.nonempty
    rw [hbare]
    decide
  · rw [List.append_assoc, List.singleton_append] at hrest
    refine ⟨rest, hrest.symm, ?_⟩
    have hjoined : ([slash].intercalate (normal kind [] (segments req))).length + 1 = _ := length_intercalate h.nonempty
    rw [← hrest, segments_slash, normal_cons, push_stay (kind_eq_stay.mpr (Or.inl rfl))] at hjoined ⊢
    have hsum : ((normal kind [] (rest.splitOn slash)).map fun f : List UInt8 => f.length + 1).sum ≤
        (([] : List Bytes).map fun f : List UInt8 => f.length + 1).sum +
          ((rest.splitOn slash).map fun f : List UInt8 => f.length + 1).sum := sum_normal_le _
    rw [sum_splitOn, List.map_nil, List.sum_nil, Nat.zero_add] at hsum
    omega

/-- The stack of an accepted path, with slashes between. -/
theorem resolve_accepted (h : Accepted req) (hout : maxPath ≤ outLen) :
    resolve req outLen = .ok ([slash].intercalate (normal kind [] (segments req))) := by
  rw [resolve_eq, if_pos ⟨h.bounds, h.noNul, h.inside⟩]
  rcases resolveParts_cases (segments req) [] (Nat.zero_le _) with ⟨-, -, hrun⟩ | ⟨hclimbs, -⟩ | ⟨hdeep, -⟩
  · obtain ⟨rest, hreq, hlength⟩ := h.behind
    have hroom : rest.length ≤ outLen := by
      have hbound := h.bounds.2
      rw [hreq, List.length_append, List.length_cons] at hbound
      omega
    rw [hrun, Outcome.ok_bind, if_neg fun hnil => h.nonempty (List.length_eq_zero_iff.mp hnil)]
    exact joinParts_eq (fun p hp => (kind_eq_name.mp (names_of_stack hp).2).1) (hlength.trans hroom)
  · exact absurd hclimbs h.stays
  · exact absurd h.shallow hdeep

/-- Everything else is refused, and only a path that climbs as an escape. -/
theorem resolve_refused (h : ¬Accepted req) (outLen : Nat) :
    resolve req outLen = .error .badPath ∨ resolve req outLen = .error .escape ∧ Climbs kind 0 (segments req) := by
  rw [resolve_eq]
  split_ifs with hfront
  · rcases resolveParts_cases (segments req) [] (Nat.zero_le _) with ⟨hstays, hshallow, hrun⟩ | ⟨hclimbs, hrun⟩ | ⟨-, hrun⟩
    · rw [hrun, Outcome.ok_bind]
      by_cases hnil : (normal kind [] (segments req)).length = 0
      · rw [if_pos hnil]
        exact Or.inl rfl
      · refine absurd ⟨hfront.1, hfront.2.1, hfront.2.2, hstays, hshallow, fun hempty => hnil ?_⟩ h
        rw [hempty, List.length_nil]
    · rw [hrun]
      exact Or.inr ⟨rfl, hclimbs⟩
    · rw [hrun]
      exact Or.inl rfl
  · exact Or.inl rfl

/-- The result, put behind the prefix again, is its own normal form. -/
theorem Accepted.again (h : Accepted req) :
    let r := [slash].intercalate (normal kind [] (segments req))
    r.splitOn slash = normal kind [] (segments req) ∧ Accepted (pathPrefix ++ slash :: r) ∧
      normal kind [] (segments (pathPrefix ++ slash :: r)) = normal kind [] (segments req) := by
  intro r
  set parts := normal kind [] (segments req) with hparts
  have hnames : ∀ p ∈ parts, kind p = .name := fun p hp => (names_of_stack hp).2
  have hsplit : r.splitOn slash = parts :=
    List.splitOn_intercalate slash (fun p hp => sep_notMem_of_mem_splitOn (names_of_stack hp).1) h.nonempty
  have hsegments : segments (pathPrefix ++ slash :: r) = [] :: parts := by rw [segments_slash, hsplit]
  have hstay : kind [] = .stay := kind_eq_stay.mpr (Or.inl rfl)
  have hnormal : normal kind [] (segments (pathPrefix ++ slash :: r)) = parts := by
    rw [hsegments, normal_cons, push_stay hstay, normal_names hnames, List.nil_append]
  obtain ⟨rest, hreq, hlength⟩ := h.behind
  refine ⟨hsplit, ⟨⟨Nat.succ_le_succ (Nat.zero_le _), ?_⟩, ?_, ⟨List.prefix_append _ _, Or.inr ?_⟩, ?_, ?_, ?_⟩, hnormal⟩
  · have hbound := h.bounds.2
    rw [hreq, List.length_append, List.length_cons] at hbound
    rw [List.length_append, List.length_cons]
    have : r.length ≤ rest.length := hlength
    omega
  · -- the bytes of the result are bytes of the path
    intro hzero
    rcases List.mem_append.mp hzero with hzero | hzero
    · exact absurd hzero (by decide)
    rcases List.mem_cons.mp hzero with hzero | hzero
    · exact absurd hzero (by decide)
    rcases mem_intercalate hzero with hzero | ⟨p, hp, hzero⟩
    · exact absurd hzero (by decide)
    · exact h.noNul (List.mem_of_mem_drop (mem_of_mem_splitOn (names_of_stack hp).1 hzero))
  · exact ⟨r, by simp⟩
  · rw [hsegments, climbs_stay hstay]
    refine not_climbs_of_no_up fun p hp hup => ?_
    rw [hnames p hp] at hup
    cases hup
  · rw [hsegments, within_cons, push_stay hstay]
    exact ⟨Nat.zero_le _, within_names hnames (h.shallow _ (List.prefix_refl _))⟩
  · rw [hnormal]
    exact h.nonempty

/-! ### Guest paths -/

theorem indexOfPos_some {hay : Bytes} {start i : Nat} {c : UInt8} (h : Contract.indexOfPos hay start c = some i) :
    i < hay.length ∧ start ≤ i ∧ c ∉ (hay.drop start).take (i - start) ∧
      hay.drop start = (hay.drop start).take (i - start) ++ c :: hay.drop (i + 1) := by
  induction start using Contract.indexOfPos.induct hay c with
  | case1 start hlt hfound =>
      rw [Contract.indexOfPos, dif_pos hlt, if_pos hfound] at h
      cases h
      refine ⟨hlt, Nat.le_refl _, by simp, ?_⟩
      rw [Nat.sub_self, List.take_zero, List.nil_append, List.drop_eq_getElem_cons hlt, hfound]
  | case2 start hlt hfound ih =>
      rw [Contract.indexOfPos, dif_pos hlt, if_neg hfound] at h
      obtain ⟨hi, hle, hnot, hsplit⟩ := ih h
      have hstep : i - start = i - (start + 1) + 1 := by omega
      rw [List.drop_eq_getElem_cons hlt, hstep, List.take_succ_cons]
      refine ⟨hi, by omega, ?_, ?_⟩
      · rw [List.mem_cons]
        rintro (heq | hmem)
        · exact hfound heq.symm
        · exact hnot hmem
      · rw [List.cons_append, ← hsplit]
  | case3 start hge =>
      rw [Contract.indexOfPos, dif_neg hge] at h
      cases h

theorem indexOfPos_none {hay : Bytes} {start : Nat} {c : UInt8} (h : Contract.indexOfPos hay start c = none) :
    c ∉ hay.drop start := by
  induction start using Contract.indexOfPos.induct hay c with
  | case1 start hlt hfound =>
      rw [Contract.indexOfPos, dif_pos hlt, if_pos hfound] at h
      cases h
  | case2 start hlt hfound ih =>
      rw [Contract.indexOfPos, dif_pos hlt, if_neg hfound] at h
      rw [List.drop_eq_getElem_cons hlt, List.mem_cons]
      rintro (heq | hmem)
      · exact hfound heq.symm
      · exact ih h hmem
  | case3 start hge =>
      rw [List.drop_eq_nil_of_le (Nat.le_of_not_lt hge)]
      exact List.not_mem_nil

/-- The segments that the guest path loop has seen do not go up. -/
theorem guestPathLoop_segments {s : Bytes} {start : Nat} (hstart : start ≤ s.length)
    (h : Contract.guestPathLoop s start = true) : ∀ p ∈ (s.drop start).splitOn slash, kind p ≠ .up := by
  induction hn : s.length - start using Nat.strong_induction_on generalizing start with
  | _ n ih =>
      rw [Contract.guestPathLoop, dif_pos hstart] at h
      simp only [Bool.if_false_left, Bool.and_eq_true, Bool.not_eq_true', decide_eq_false_iff_not] at h
      obtain ⟨-, hdots, hrest⟩ := h
      rw [show Contract.slash = slash from rfl] at hdots hrest
      have hdotdot (seg : Bytes) (hseg : ¬(seg = [Contract.dot] ∨ seg = [Contract.dot, Contract.dot])) :
          kind seg ≠ .up := fun hup => hseg (Or.inr (kind_eq_up.mp hup))
      cases hindex : Contract.indexOfPos s start slash with
      | none =>
          rw [hindex, Option.getD_none] at hdots
          rw [List.splitOn_eq_singleton (indexOfPos_none hindex)]
          have hwhole : (s.drop start).take (s.length - start) = s.drop start := by
            rw [List.take_of_length_le]
            rw [List.length_drop]
          rw [hwhole] at hdots
          exact List.forall_mem_singleton.mpr (hdotdot _ hdots)
      | some i =>
          obtain ⟨hi, hle, hnot, hsplit⟩ := indexOfPos_some hindex
          rw [hindex, Option.getD_some] at hdots hrest
          rw [if_neg hi.ne] at hrest
          rw [hsplit, List.splitOn_append_cons_self_of_not_mem hnot, List.forall_mem_cons]
          exact ⟨hdotdot _ hdots, ih (s.length - (i + 1)) (by omega) (by omega) hrest rfl⟩

/-- A guest path below the prefix does not climb. -/
theorem guestPath_stays (h : Contract.isGuestPath req = true) (hinside : pathPrefix ++ [slash] <+: req) :
    ¬Climbs kind 0 (segments req) := by
  obtain ⟨rest, rfl⟩ := hinside
  have hlong : 1 ≤ (pathPrefix ++ [slash] ++ rest).length := Nat.succ_le_succ (Nat.zero_le _)
  have hloop : Contract.guestPathLoop (pathPrefix ++ [slash] ++ rest) 1 = true := by
    rw [Contract.isGuestPath] at h
    split_ifs at h
    exact h
  have hsegments := guestPathLoop_segments hlong hloop
  have hdrop : (pathPrefix ++ [slash] ++ rest).drop 1 = pathPrefix.drop 1 ++ slash :: rest := by
    rw [List.append_assoc]
    rfl
  rw [hdrop, List.splitOn_append_cons_self_of_not_mem (by decide), List.forall_mem_cons] at hsegments
  rw [List.append_assoc, List.singleton_append, segments_slash]
  refine not_climbs_of_no_up (List.forall_mem_cons.mpr ⟨?_, hsegments.2⟩)
  decide

/-- `resolve` returns the normal form of the path, and every guest path of the workspace stays inside. -/
theorem resolve_canonical (req : Bytes) (outLen : Nat) (hout : maxPath ≤ outLen) :
    ((∃ r, resolve req outLen = .ok r) ↔ Accepted req) ∧ resolve req outLen ≠ .trap ∧
      (∀ r, resolve req outLen = .ok r →
        r = [slash].intercalate (normal kind [] (segments req)) ∧
          (∀ p ∈ r.splitOn slash, p ≠ [] ∧ p ≠ dot ∧ p ≠ dotdot) ∧
          resolve (pathPrefix ++ slash :: r) outLen = .ok r) ∧
      (resolve req outLen = .error .escape → Climbs kind 0 (segments req)) ∧
      (Contract.isGuestPath req = true → pathPrefix <+: req → resolve req outLen ≠ .error .escape) := by
  by_cases h : Accepted req
  · have hrun := resolve_accepted h hout
    obtain ⟨hsplit, hagain, hnormal⟩ := h.again
    rw [hrun]
    refine ⟨iff_of_true ⟨_, rfl⟩ h, by nofun, ?_, by nofun, by nofun⟩
    rintro r ⟨⟩
    refine ⟨rfl, fun p hp => ?_, ?_⟩
    · rw [hsplit] at hp
      exact kind_eq_name.mp (names_of_stack hp).2
    · rw [resolve_accepted hagain hout, hnormal]
  · rcases resolve_refused h outLen with hrun | ⟨hrun, hclimbs⟩
    · rw [hrun]
      exact ⟨iff_of_false (by nofun) h, by nofun, by nofun, by nofun, by nofun⟩
    · rw [hrun]
      refine ⟨iff_of_false (by nofun) h, by nofun, by nofun, fun _ => hclimbs, fun hguest hunder => ?_⟩
      -- a path that goes on with another byte than a slash was refused before
      have hinside : pathPrefix <+: req ∧ (req = pathPrefix ∨ pathPrefix ++ [slash] <+: req) := by
        by_contra hnot
        rw [resolve_eq, if_neg fun hfront => hnot hfront.2.2] at hrun
        cases hrun
      rcases hinside.2 with hbare | hslash
      · refine absurd hclimbs (not_climbs_of_no_up ?_)
        rw [hbare]
        decide
      · exact absurd hclimbs (guestPath_stays hguest hslash)

theorem resolve_canonical_workspace :
    let req := pathPrefix ++ [slash, 97, slash, 46, slash, 98]
    maxPath ≤ 4096 ∧ ((∃ r, resolve req 4096 = .ok r) ↔ Accepted req) ∧ resolve req 4096 ≠ .trap ∧
      (∀ r, resolve req 4096 = .ok r →
        r = [slash].intercalate (normal kind [] (segments req)) ∧
          (∀ p ∈ r.splitOn slash, p ≠ [] ∧ p ≠ dot ∧ p ≠ dotdot) ∧
          resolve (pathPrefix ++ slash :: r) 4096 = .ok r) ∧
      (resolve req 4096 = .error .escape → Climbs kind 0 (segments req)) ∧
      (Contract.isGuestPath req = true → pathPrefix <+: req → resolve req 4096 ≠ .error .escape) :=
  ⟨Nat.le_refl _, resolve_canonical (pathPrefix ++ [slash, 97, slash, 46, slash, 98]) 4096 (Nat.le_refl _)⟩

/-! ### Link targets -/

/-- The name in the prefix. -/
def workspaceName : Bytes := pathPrefix.drop 1

theorem kind_workspaceName : kind workspaceName = .name := by decide

/-- The target does not leave the directory that it may lead to. -/
def Stays (target : Bytes) : Prop :=
  if [slash] <+: target then Below kind [workspaceName] (target.splitOn slash)
  else ¬Climbs kind 0 (target.splitOn slash)

/-- The answer is the one that the place where the target leads asks for. -/
def Confined (target : Bytes) : Prop :=
  (checkLinkTarget target = .ok () → Stays target) ∧ (checkLinkTarget target = .error .escape → ¬Stays target)

/-- The target is the prefix, or goes on behind it with a slash. -/
def Inside (target : Bytes) : Prop := target = pathPrefix ∨ pathPrefix ++ [slash] <+: target

instance (target : Bytes) : Decidable (Inside target) := inferInstanceAs (Decidable (_ ∨ _))

/-- An absolute target whose front does not tell where it leads: behind the prefix it climbs out, or it gets to the
directory by another spelling of the prefix. -/
def Misjudged (target : Bytes) : Prop :=
  (1 ≤ target.length ∧ target.length ≤ maxPath) ∧ 0 ∉ target ∧ [slash] <+: target ∧
    (Inside target ∧ Climbs kind 0 (segments target) ∨
      ¬Inside target ∧ ∃ lead rest, target.splitOn slash = lead ++ workspaceName :: rest ∧
        (∀ s ∈ lead, kind s = .stay) ∧ ¬Climbs kind 0 rest)

theorem linkDepth_cons (p : Bytes) (segs : List Bytes) (depth : Int) : linkDepth (p :: segs) depth =
    match kind p with
    | .up => do
        let depth ← subI64 depth 1
        if depth < 0 then .error .escape else linkDepth segs depth
    | .name => do
        let depth ← addI64 depth 1
        linkDepth segs depth
    | .stay => linkDepth segs depth := by
  rw [linkDepth, kind]
  split_ifs <;> rfl

/-- The loop over a relative target; there are too few segments for the depth to overflow. -/
theorem linkDepth_cases (segs : List Bytes) (depth : Nat) (hroom : depth + segs.length < i64Bound) :
    (¬Climbs kind depth segs ∧ linkDepth segs depth = .ok ()) ∨
      (Climbs kind depth segs ∧ linkDepth segs depth = .error .escape) := by
  have hfit {i : Int} (hlow : -1 ≤ i) (hhigh : i < i64Bound) : InI64 i := by
    rw [i64Bound] at hhigh
    rw [InI64, i64Bound]
    omega
  induction segs generalizing depth with
  | nil => exact Or.inl ⟨not_climbs_nil, rfl⟩
  | cons p segs ih =>
      rw [List.length_cons] at hroom
      rw [linkDepth_cons]
      cases hp : kind p with
      | stay =>
          rw [climbs_stay hp]
          exact ih depth (by omega)
      | up =>
          rw [climbs_up hp]
          dsimp only
          rw [subI64, fitI64_of (hfit (by omega) (by omega)), Outcome.ok_bind]
          by_cases hzero : depth = 0
          · rw [if_pos (by omega)]
            exact Or.inr ⟨Or.inl hzero, rfl⟩
          · have hdepth : (depth : Int) - 1 = (depth - 1 : Nat) := by omega
            rw [if_neg (by omega), or_iff_right hzero, hdepth]
            exact ih (depth - 1) (by omega)
      | name =>
          rw [climbs_name hp]
          dsimp only
          rw [addI64, fitI64_of (hfit (by omega) (by omega)), Outcome.ok_bind]
          exact ih (depth + 1) (by omega)

/-- The checks in front of the two branches. -/
theorem checkLinkTarget_eq (target : Bytes) : checkLinkTarget target =
    if ¬((1 ≤ target.length ∧ target.length ≤ maxPath) ∧ 0 ∉ target) then .error .badPath
    else if [slash] <+: target then (if Inside target then .ok () else .error .escape)
    else linkDepth (target.splitOn slash) 0 := by
  rw [checkLinkTarget]
  by_cases hlength : target.length = 0 ∨ target.length > maxPath
  · rw [if_pos hlength, if_pos fun h => by omega]
  rw [if_neg hlength]
  by_cases hnul : target.contains 0 = true
  · rw [if_pos hnul, if_pos fun h => h.2 (List.contains_iff_mem.mp hnul)]
  rw [if_neg hnul, if_neg (not_not.mpr ⟨by omega, fun h => hnul (List.contains_iff_mem.mpr h)⟩)]
  by_cases habsolute : [slash] <+: target
  · rw [if_pos (List.isPrefixOf_iff_prefix.mpr habsolute), if_pos habsolute]
    by_cases hinside : Inside target
    · rw [if_pos hinside, if_neg]
      rintro ⟨hfront, hwhole⟩
      rcases hinside with heq | hunder
      · exact hwhole heq
      · exact hfront (List.isPrefixOf_iff_prefix.mpr hunder)
    · rw [if_neg hinside, if_pos]
      exact ⟨fun hfront => hinside (Or.inr (List.isPrefixOf_iff_prefix.mp hfront)), fun heq => hinside (Or.inl heq)⟩
  · rw [if_neg fun h => habsolute (List.isPrefixOf_iff_prefix.mp h), if_neg habsolute]

/-- The segments of a path are few. -/
theorem segments_few (h : target.length ≤ maxPath) : 0 + (target.splitOn slash).length < i64Bound := by
  have hsegments : (target.splitOn slash).length ≤ target.length + 1 := length_splitOn_le target
  have hbound : maxPath + 1 < i64Bound := by decide
  omega

/-- Behind the prefix stand the segments that decide. -/
theorem below_of_inside (h : Inside target) :
    Below kind [workspaceName] (target.splitOn slash) ↔ ¬Climbs kind 0 (segments target) := by
  have hempty : kind [] = .stay := kind_eq_stay.mpr (Or.inl rfl)
  rcases h with rfl | ⟨rest, rfl⟩
  · have hsplit : pathPrefix.splitOn slash = [[], workspaceName] := by decide
    have hsegments : segments pathPrefix = [[]] := by decide
    rw [hsplit, hsegments, below_stay hempty, below_name kind_workspaceName, climbs_stay hempty]
  · rw [List.append_assoc, List.singleton_append, segments_slash, climbs_stay hempty]
    have hsplit : (pathPrefix ++ slash :: rest).splitOn slash = [] :: workspaceName :: rest.splitOn slash := by
      have hfront : pathPrefix ++ slash :: rest = [] ++ slash :: (workspaceName ++ slash :: rest) := rfl
      rw [hfront, List.splitOn_append_cons_self_of_not_mem List.not_mem_nil,
        List.splitOn_append_cons_self_of_not_mem (by decide)]
    rw [hsplit, below_stay hempty, below_name kind_workspaceName]

/-- The targets whose answer is right are those that are not misjudged. -/
theorem checkLinkTarget_confined_iff (target : Bytes) : Confined target ↔ ¬Misjudged target := by
  rw [Confined, checkLinkTarget_eq, Misjudged]
  by_cases hform : (1 ≤ target.length ∧ target.length ≤ maxPath) ∧ 0 ∉ target
  swap
  · rw [if_pos hform]
    exact iff_of_true ⟨by nofun, by nofun⟩ fun h => hform ⟨h.1, h.2.1⟩
  rw [if_neg (not_not.mpr hform), and_iff_right hform.1, and_iff_right hform.2, Stays]
  by_cases habsolute : [slash] <+: target
  · rw [if_pos habsolute, if_pos habsolute, and_iff_right habsolute]
    by_cases hinside : Inside target
    · rw [if_pos hinside, below_of_inside hinside]
      constructor
      · rintro ⟨hok, -⟩ (⟨-, hclimbs⟩ | ⟨hnot, -⟩)
        · exact hok rfl hclimbs
        · exact hnot hinside
      · exact fun h => ⟨fun _ hclimbs => h (Or.inl ⟨hinside, hclimbs⟩), by nofun⟩
    · rw [if_neg hinside, below_iff kind_workspaceName]
      constructor
      · rintro ⟨-, hescape⟩ (⟨hin, -⟩ | ⟨-, hspelled⟩)
        · exact hinside hin
        · exact hescape rfl hspelled
      · exact fun h => ⟨by nofun, fun _ hspelled => h (Or.inr ⟨hinside, hspelled⟩)⟩
  · rw [if_neg habsolute, if_neg habsolute]
    refine iff_of_true ?_ fun h => habsolute h.1
    rcases linkDepth_cases (target.splitOn slash) 0 (segments_few hform.1.2) with ⟨hstays, hrun⟩ | ⟨hclimbs, hrun⟩
    · refine ⟨fun _ => hstays, fun h => ?_⟩
      cases hrun.symm.trans h
    · refine ⟨fun h => ?_, fun _ h => h hclimbs⟩
      cases hrun.symm.trans h

/-- A target that goes up behind the prefix leads out of the workspace and is accepted. -/
theorem checkLinkTarget_escapes : ¬∀ target, Confined target := by
  intro h
  -- /workspace/../etc
  have hconfined := h (pathPrefix ++ [slash, 46, 46, slash, 101, 116, 99])
  rw [checkLinkTarget_confined_iff] at hconfined
  refine hconfined ⟨by decide, by decide, ⟨_, rfl⟩, Or.inl ⟨Or.inr ⟨[46, 46, slash, 101, 116, 99], rfl⟩, ?_⟩⟩
  exact ⟨[[], dotdot], by decide, by decide⟩

end Workspace

end Supervisor
