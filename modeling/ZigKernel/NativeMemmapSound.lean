import ZigKernel.NativeMemmap

/-! Normalizing repaints the map. The scratch list of a descriptor is a tiling of it: it starts as one piece,
and an owned span is painted over it, which costs at most two more pieces. So the pieces of a descriptor
show, page by page, the last owned span there or the descriptor itself. -/

namespace Native

open Zig Spans

namespace Memmap

variable {o p : Span} {next pieces : List Span} {lo hi : Nat}

/-! ### The piece loop paints -/

/-- The scratch array, if the pieces fit into it. -/
def fits (ps : List Span) : Outcome Error (List Span) :=
  if ps.length ≤ maxPieces then .ok ps else .error .fragmentCapacity

/-- One piece is stored behind its bounds check, and `k` goes on from there. -/
theorem room_bind {k : Outcome Error (List Span)} {q : Span} {more : List Span}
    (h : (next ++ [q]).length ≤ maxPieces → k = fits (next ++ [q] ++ more)) :
    (room next >>= fun _ => k) = fits (next ++ [q] ++ more) := by
  rw [List.length_append, List.length_singleton] at h
  by_cases hfull : next.length ≥ maxPieces
  · rw [room, if_pos hfull, Outcome.error_bind, fits, if_neg]
    rw [List.length_append, List.length_append, List.length_singleton]
    omega
  · rw [room, if_neg hfull, Outcome.ok_bind, h (Nat.lt_of_not_ge hfull)]

/-- The last piece is stored. -/
theorem room_push (q : Span) : (room next >>= fun _ => pure (next ++ [q])) = fits (next ++ [q]) := by
  have hpush {k : Outcome Error (List Span)} :
      ((next ++ [q]).length ≤ maxPieces → k = fits (next ++ [q] ++ [])) → (room next >>= fun _ => k) = _ := room_bind
  rw [List.append_nil] at hpush
  exact hpush fun hfits => (if_pos hfits).symm

theorem splitBack_run (hnext : next.length ≤ maxPieces) : splitBack o.stop p.stop next p =
    fits (next ++ if o.stop < p.stop then [{ base := o.stop, size := p.stop - o.stop, kind := p.kind }] else []) := by
  rw [splitBack]
  by_cases hback : o.stop < p.stop
  · rw [if_pos hback, if_pos hback, subU64_of_le (Nat.le_of_lt hback), Outcome.ok_bind]
    exact room_push _
  · rw [if_neg hback, if_neg hback, List.append_nil]
    exact (if_pos hnext).symm

/-- The body of the piece loop cuts the owned span out of the piece. -/
theorem splitPiece_run (hp : p.stop < u64Bound) : splitPiece o o.stop next p = fits (next ++ o.cut p) := by
  have hostop : o.stop = o.base + o.size := rfl
  have hpstop : p.stop = p.base + p.size := rfl
  have hend : (addU64 p.base p.size : Outcome Error Nat) = .ok p.stop := addU64_of_lt hp
  rw [splitPiece, hend, Outcome.ok_bind, Span.cut]
  by_cases hmiss : o.stop ≤ p.base ∨ o.base ≥ p.stop
  · rw [if_pos hmiss, if_pos hmiss]
    exact room_push p
  rw [if_neg hmiss, if_neg hmiss, splitFront]
  have hmiddle (next : List Span) :
      (room next >>= fun _ => subU64 (min o.stop p.stop) (max o.base p.base) >>= fun size =>
        splitBack o.stop p.stop (next ++ [{ base := max o.base p.base, size, kind := o.kind }]) p) =
      fits (next ++ [{ base := max o.base p.base, size := min o.stop p.stop - max o.base p.base, kind := o.kind }] ++
        if o.stop < p.stop then [{ base := o.stop, size := p.stop - o.stop, kind := p.kind }] else []) := by
    rw [subU64_of_le (by omega), Outcome.ok_bind]
    exact room_bind fun hfits => splitBack_run hfits
  by_cases hfront : o.base > p.base
  · rw [if_pos hfront, if_pos hfront, subU64_of_le (Nat.le_of_lt hfront), Outcome.ok_bind, Outcome.bind_assoc]
    have hrest := hmiddle (next ++ [{ base := p.base, size := o.base - p.base, kind := p.kind }])
    rw [List.append_assoc (next ++ _)] at hrest
    refine (room_bind fun _ => hrest).trans (congrArg fits ?_)
    simp only [List.append_assoc]
  · rw [if_neg hfront, if_neg hfront, List.nil_append, ← List.append_assoc]
    exact hmiddle next

/-- The piece loop paints the owned span over the pieces. -/
theorem splitPieces_run (hpieces : ∀ p ∈ pieces, p.stop < u64Bound) (hnext : next.length ≤ maxPieces) :
    splitPieces o o.stop pieces next = fits (next ++ paint o pieces) := by
  induction pieces generalizing next with
  | nil =>
      rw [splitPieces, fits, paint, List.flatMap_nil, List.append_nil, if_pos hnext]
  | cons p rest ih =>
      obtain ⟨hp, hrest⟩ := List.forall_mem_cons.mp hpieces
      rw [splitPieces, splitPiece_run hp, paint_cons, ← List.append_assoc]
      by_cases hcut : (next ++ o.cut p).length ≤ maxPieces
      · rw [fits, if_pos hcut, Outcome.ok_bind]
        exact ih hrest hcut
      · rw [fits, if_neg hcut, Outcome.error_bind, fits, if_neg]
        rw [List.length_append]
        omega

/-! ### The loop over the owned spans -/

/-- The pieces with every owned span painted over them, in order. -/
def painted : List Span → List Span → List Span
  | [], pieces => pieces
  | o :: rest, pieces => if o.size = 0 then painted rest pieces else painted rest (paint o pieces)

/-- An owned span that is skipped, or that passes its checks. -/
def Sane (o : Span) : Prop := o.size ≠ 0 → page ∣ o.base ∧ page ∣ o.size ∧ o.stop < u64Bound

/-- The spans that are not skipped. -/
def nonempty (owned : List Span) : Nat := owned.countP fun o => o.size ≠ 0

theorem nonempty_cons (o : Span) (rest : List Span) :
    nonempty (o :: rest) = nonempty rest + if o.size ≠ 0 then 1 else 0 := by
  rw [nonempty, List.countP_cons]
  simp only [decide_eq_true_eq]
  rfl

/-- Carving a tiling succeeds with the painted pieces, or names the check that failed; the scratch array is
never short while at most fifteen owned spans are there to be painted. -/
theorem carve_cases (owned : List Span) (htiles : Tiles lo hi pieces) (hhi : hi < u64Bound) :
    (carve owned pieces = .ok (painted owned pieces) ∧ ∀ o ∈ owned, Sane o) ∨
      (carve owned pieces = .error .misaligned ∨ carve owned pieces = .error .addressOverflow) ∧ (∃ o ∈ owned, ¬Sane o) ∨
      carve owned pieces = .error .fragmentCapacity ∧ maxPieces < pieces.length + 2 * nonempty owned := by
  induction owned generalizing pieces with
  | nil => exact Or.inl ⟨rfl, fun o ho => absurd ho List.not_mem_nil⟩
  | cons o rest ih =>
      rw [carve, painted, nonempty_cons]
      by_cases hempty : o.size = 0
      · rw [if_pos hempty, if_pos hempty, if_neg (not_not.mpr hempty), Nat.add_zero]
        have hsane : Sane o := fun hne => absurd hempty hne
        rcases ih htiles with ⟨hrun, hall⟩ | ⟨herror, o', ho', hinsane⟩ | hshort
        · exact Or.inl ⟨hrun, List.forall_mem_cons.mpr ⟨hsane, hall⟩⟩
        · exact Or.inr (Or.inl ⟨herror, o', List.mem_cons_of_mem _ ho', hinsane⟩)
        · exact Or.inr (Or.inr hshort)
      rw [if_neg hempty, if_neg hempty, if_pos hempty]
      by_cases halign : o.base % page ≠ 0 ∨ o.size % page ≠ 0
      · rw [if_pos halign]
        refine Or.inr (Or.inl ⟨Or.inl rfl, o, List.mem_cons_self, fun hsane => ?_⟩)
        obtain ⟨hbase, hsize, -⟩ := hsane hempty
        rcases halign with h | h
        · exact h (Nat.mod_eq_zero_of_dvd hbase)
        · exact h (Nat.mod_eq_zero_of_dvd hsize)
      rw [if_neg halign]
      by_cases hend : o.base + o.size < u64Bound
      swap
      · rw [mathAdd, if_neg hend]
        exact Or.inr (Or.inl ⟨Or.inr rfl, o, List.mem_cons_self, fun hsane => hend (hsane hempty).2.2⟩)
      rw [mathAdd, if_pos hend]
      simp only
      have hsane : Sane o := fun _ =>
        ⟨Nat.dvd_of_mod_eq_zero (not_not.mp fun h => halign (Or.inl h)),
          Nat.dvd_of_mod_eq_zero (not_not.mp fun h => halign (Or.inr h)), hend⟩
      have hbounds : ∀ p ∈ pieces, p.stop < u64Bound := fun p hp => Nat.lt_of_le_of_lt (htiles.bounds p hp).2.2 hhi
      have hpaint := htiles.paint (o := o) (Nat.pos_of_ne_zero hempty)
      have hgrows := length_paint_le htiles o
      have hsplit : splitPieces o (o.base + o.size) pieces [] = fits (paint o pieces) :=
        splitPieces_run hbounds (Nat.zero_le _)
      rw [hsplit, fits]
      by_cases hfits : (paint o pieces).length ≤ maxPieces
      · rw [if_pos hfits, Outcome.ok_bind]
        rcases ih hpaint with ⟨hrun, hall⟩ | ⟨herror, o', ho', hinsane⟩ | ⟨hrun, hshort⟩
        · exact Or.inl ⟨hrun, List.forall_mem_cons.mpr ⟨hsane, hall⟩⟩
        · exact Or.inr (Or.inl ⟨herror, o', List.mem_cons_of_mem _ ho', hinsane⟩)
        · exact Or.inr (Or.inr ⟨hrun, by omega⟩)
      · rw [if_neg hfits, Outcome.error_bind]
        exact Or.inr (Or.inr ⟨rfl, by omega⟩)

/-! ### What the painted pieces show -/

theorem painted_tiles (owned : List Span) (h : Tiles lo hi pieces) : Tiles lo hi (painted owned pieces) := by
  induction owned generalizing pieces with
  | nil => exact h
  | cons o rest ih =>
      rw [painted]
      by_cases hempty : o.size = 0
      · rw [if_pos hempty]
        exact ih h
      · rw [if_neg hempty]
        exact ih (h.paint (Nat.pos_of_ne_zero hempty))

theorem painted_aligned {owned : List Span} (howned : ∀ o ∈ owned, Sane o) (h : Aligned page pieces) :
    Aligned page (painted owned pieces) := by
  induction owned generalizing pieces with
  | nil => exact h
  | cons o rest ih =>
      obtain ⟨ho, hrest⟩ := List.forall_mem_cons.mp howned
      rw [painted]
      by_cases hempty : o.size = 0
      · rw [if_pos hempty]
        exact ih hrest h
      · rw [if_neg hempty]
        exact ih hrest (h.paint ⟨(ho hempty).1, (ho hempty).2.1⟩)

/-- The last owned span at an address shows. -/
theorem painted_shows (owned : List Span) {f : Nat → RangeKind} (h : Shows f pieces) :
    Shows (fun x => topKind owned (f x) x) (painted owned pieces) := by
  induction owned generalizing pieces f with
  | nil => exact h
  | cons o rest ih =>
      simp only [painted, topKind_cons]
      by_cases hempty : o.size = 0
      · have hmiss (x : Nat) : ¬o.Contains x := by
          rintro ⟨hlo, hhi⟩
          rw [Span.stop, hempty] at hhi
          omega
        simp only [if_pos hempty, if_neg (hmiss _)]
        exact ih h
      · simp only [if_neg hempty]
        exact ih h.paint

/-! ### The output of a descriptor -/

def Desc.stop (d : Desc) : Nat := d.start + d.pages * page

/-- The range a piece is emitted as. -/
def toRange (p : Span) : Range := { physStart := p.base, pageCount := p.size / page, kind := p.kind }

/-- The ranges of a descriptor. -/
def parts (owned : List Span) (d : Desc) : List Range :=
  if d.pages = 0 then []
  else (painted owned [{ base := d.start, size := d.pages * page, kind := d.kind }]).map toRange

theorem emitPieces_run {capacity : Nat} {storage : List Range} (htiles : Tiles lo hi pieces) (hhi : hi < u64Bound)
    (hstorage : storage.length ≤ capacity) :
    emitPieces capacity pieces storage =
      if storage.length + pieces.length ≤ capacity then .ok (storage ++ pieces.map toRange) else .error .capacity := by
  induction pieces generalizing lo storage with
  | nil => rw [emitPieces, List.length_nil, Nat.add_zero, if_pos hstorage, List.map_nil, List.append_nil]
  | cons p rest ih =>
      obtain ⟨rfl, hsize, hrest⟩ := htiles
      have hstop : p.stop = p.base + p.size := rfl
      have hle := hrest.le
      rw [emitPieces, addU64_of_lt (by omega), Outcome.ok_bind, emit, if_neg (by omega), List.length_cons]
      by_cases hfull : storage.length ≥ capacity
      · rw [if_pos hfull, Outcome.error_bind, if_neg (by omega)]
      · have hemit : ({ physStart := p.base, pageCount := (p.base + p.size - p.base) / page, kind := p.kind } : Range) =
            toRange p := by
          rw [Nat.add_sub_cancel_left]
          rfl
        rw [if_neg hfull, subU64_of_le (Nat.le_add_right _ _), Outcome.ok_bind, hemit]
        show emitPieces capacity rest (storage ++ [toRange p]) = _
        rw [ih hrest (by rw [List.length_append, List.length_singleton]; omega), List.length_append,
          List.length_singleton, List.append_assoc, Nat.add_assoc, Nat.add_comm 1]
        rfl

/-- A descriptor that is skipped, or that passes its checks. -/
def Desc.Sane (d : Desc) : Prop := d.pages ≠ 0 → page ∣ d.start ∧ d.stop < u64Bound

/-- A descriptor adds its ranges, or names the check that failed. -/
theorem normalizeDesc_cases (owned : List Span) {capacity : Nat} (d : Desc) {storage : List Range}
    (hstorage : storage.length ≤ capacity) :
    (normalizeDesc owned capacity d storage = .ok (storage ++ parts owned d) ∧ d.Sane ∧
        (d.pages ≠ 0 → ∀ o ∈ owned, Sane o) ∧ (storage ++ parts owned d).length ≤ capacity) ∨
      (normalizeDesc owned capacity d storage = .error .misaligned ∨
        normalizeDesc owned capacity d storage = .error .addressOverflow) ∧ (¬d.Sane ∨ ∃ o ∈ owned, ¬Sane o) ∨
      normalizeDesc owned capacity d storage = .error .capacity ∧ capacity < (storage ++ parts owned d).length ∨
      normalizeDesc owned capacity d storage = .error .fragmentCapacity ∧ maxPieces < 1 + 2 * nonempty owned := by
  rw [normalizeDesc, parts]
  by_cases hempty : d.pages = 0
  · rw [if_pos hempty, if_pos hempty, List.append_nil]
    exact Or.inl ⟨rfl, fun h => absurd hempty h, fun h => absurd hempty h, hstorage⟩
  rw [if_neg hempty, if_neg hempty]
  by_cases halign : d.start % page ≠ 0
  · rw [if_pos halign]
    exact Or.inr (Or.inl ⟨Or.inl rfl, Or.inl fun h => halign (Nat.mod_eq_zero_of_dvd (h hempty).1)⟩)
  rw [if_neg halign]
  by_cases hmul : d.pages * page < u64Bound
  swap
  · rw [mathMul, if_neg hmul]
    refine Or.inr (Or.inl ⟨Or.inr rfl, Or.inl fun h => hmul ?_⟩)
    exact Nat.lt_of_le_of_lt (Nat.le_add_left _ _) (h hempty).2
  rw [mathMul, if_pos hmul]
  simp only
  by_cases hadd : d.start + d.pages * page < u64Bound
  swap
  · rw [mathAdd, if_neg hadd]
    exact Or.inr (Or.inl ⟨Or.inr rfl, Or.inl fun h => hadd (h hempty).2⟩)
  rw [mathAdd, if_pos hadd]
  simp only
  rw [subU64_of_le (Nat.le_add_right _ _), Outcome.ok_bind, Nat.add_sub_cancel_left]
  have hsane : d.Sane := fun _ => ⟨Nat.dvd_of_mod_eq_zero (not_not.mp halign), hadd⟩
  have hpage : page = 4096 := rfl
  have hwhole : Tiles d.start d.stop [{ base := d.start, size := d.pages * page, kind := d.kind }] :=
    ⟨rfl, by show 0 < d.pages * page; rw [hpage]; omega, rfl⟩
  rcases carve_cases owned hwhole hadd with ⟨hrun, howned⟩ | ⟨herror, o, ho, hinsane⟩ | ⟨hrun, hshort⟩
  · rw [hrun, Outcome.ok_bind, emitPieces_run (painted_tiles owned hwhole) hadd hstorage]
    by_cases hfits : storage.length + (painted owned
        [{ base := d.start, size := d.pages * page, kind := d.kind }]).length ≤ capacity
    · rw [if_pos hfits]
      refine Or.inl ⟨rfl, hsane, fun _ => howned, ?_⟩
      rw [List.length_append, List.length_map]
      exact hfits
    · rw [if_neg hfits]
      refine Or.inr (Or.inr (Or.inl ⟨rfl, ?_⟩))
      rw [List.length_append, List.length_map]
      exact Nat.lt_of_not_le hfits
  · refine Or.inr (Or.inl ⟨?_, Or.inr ⟨o, ho, hinsane⟩⟩)
    rcases herror with h | h <;> rw [h, Outcome.error_bind] <;> simp
  · rw [hrun, Outcome.error_bind]
    exact Or.inr (Or.inr (Or.inr ⟨rfl, hshort⟩))

/-- What `normalize` returns, and the reasons it has for refusing. -/
theorem normalizeDescs_cases (owned : List Span) {capacity : Nat} (descs : List Desc) {storage : List Range}
    (hstorage : storage.length ≤ capacity) :
    (normalizeDescs owned capacity descs storage = .ok (storage ++ descs.flatMap (parts owned)) ∧
        (∀ d ∈ descs, d.Sane ∧ (d.pages ≠ 0 → ∀ o ∈ owned, Sane o)) ∧
        (storage ++ descs.flatMap (parts owned)).length ≤ capacity) ∨
      (normalizeDescs owned capacity descs storage = .error .misaligned ∨
        normalizeDescs owned capacity descs storage = .error .addressOverflow) ∧
          ((∃ d ∈ descs, ¬d.Sane) ∨ ∃ o ∈ owned, ¬Sane o) ∨
      normalizeDescs owned capacity descs storage = .error .capacity ∧
        capacity < (storage ++ descs.flatMap (parts owned)).length ∨
      normalizeDescs owned capacity descs storage = .error .fragmentCapacity ∧ maxPieces < 1 + 2 * nonempty owned := by
  induction descs generalizing storage with
  | nil =>
      rw [normalizeDescs, List.flatMap_nil, List.append_nil]
      exact Or.inl ⟨rfl, fun d hd => absurd hd List.not_mem_nil, hstorage⟩
  | cons d rest ih =>
      rw [normalizeDescs, List.flatMap_cons, ← List.append_assoc]
      rcases normalizeDesc_cases owned d hstorage with ⟨hrun, hsane, howned, hlength⟩ | ⟨herror, hcause⟩ |
        ⟨hrun, hshort⟩ | ⟨hrun, hshort⟩
      · rw [hrun, Outcome.ok_bind]
        rcases ih hlength with ⟨hrest, hall, hfits⟩ | ⟨herror, hcause⟩ | hshort
        · exact Or.inl ⟨hrest, List.forall_mem_cons.mpr ⟨⟨hsane, howned⟩, hall⟩, hfits⟩
        · refine Or.inr (Or.inl ⟨herror, hcause.imp_left ?_⟩)
          rintro ⟨d', hd', hinsane⟩
          exact ⟨d', List.mem_cons_of_mem _ hd', hinsane⟩
        · exact Or.inr (Or.inr hshort)
      · refine Or.inr (Or.inl ⟨?_, hcause.imp_left fun h => ⟨d, List.mem_cons_self, h⟩⟩)
        rcases herror with h | h <;> rw [h, Outcome.error_bind] <;> simp
      · rw [hrun, Outcome.error_bind]
        exact Or.inr (Or.inr (Or.inl ⟨rfl, Nat.lt_of_lt_of_le hshort (List.sublist_append_left _ _).length_le⟩))
      · rw [hrun, Outcome.error_bind]
        exact Or.inr (Or.inr (Or.inr ⟨rfl, hshort⟩))

/-! ### The repainted map, page by page -/

/-- Page `n` lies between the two addresses. -/
def HasPage (base stop n : Nat) : Prop := base ≤ n * page ∧ (n + 1) * page ≤ stop

instance (base stop n : Nat) : Decidable (HasPage base stop n) := inferInstanceAs (Decidable (_ ∧ _))

/-- The kind of the last owned span with the page, or the descriptor's own. -/
def kindOf (owned : List Span) (d : Desc) (n : Nat) : RangeKind :=
  ((owned.filter fun o => HasPage o.base o.stop n).getLast?.map Span.kind).getD d.kind

/-- The ranges show the descriptor with the owned spans painted over it. -/
structure Repaints (owned : List Span) (d : Desc) (rs : List Range) : Prop where
  nonempty : ∀ r ∈ rs, r.pageCount ≠ 0
  once : ∀ n, rs.countP (fun r => HasPage r.physStart r.stop n) = if HasPage d.start d.stop n then 1 else 0
  kind : ∀ r ∈ rs, ∀ n, HasPage r.physStart r.stop n → r.kind = kindOf owned d n

theorem hasPage_iff {base stop : Nat} (hbase : page ∣ base) (hstop : page ∣ stop) (n : Nat) :
    HasPage base stop n ↔ base ≤ n * page ∧ n * page < stop := by
  have hpage : page = 4096 := rfl
  rw [HasPage]
  rw [hpage] at hbase hstop ⊢
  omega

theorem not_hasPage_self (base n : Nat) : ¬HasPage base base n := by
  have hpage : page = 4096 := rfl
  rw [HasPage, hpage]
  omega

theorem sane_hasPage (ho : Sane o) (n : Nat) : HasPage o.base o.stop n ↔ o.Contains (n * page) := by
  by_cases hempty : o.size = 0
  · have hstop : o.stop = o.base := by rw [Span.stop, hempty, Nat.add_zero]
    rw [hstop, Span.Contains, hstop]
    exact iff_of_false (not_hasPage_self _ _) (by omega)
  · obtain ⟨hbase, hsize, -⟩ := ho hempty
    exact hasPage_iff hbase (Nat.dvd_add hbase hsize) n

theorem kindOf_eq_topKind {owned : List Span} (howned : ∀ o ∈ owned, Sane o) (d : Desc) (n : Nat) :
    kindOf owned d n = topKind owned d.kind (n * page) := by
  have hfilter : owned.filter (fun o => HasPage o.base o.stop n) = owned.filter fun o => o.Contains (n * page) :=
    List.filter_congr fun o ho => decide_eq_decide.mpr (sane_hasPage (howned o ho) n)
  rw [kindOf, topKind, hfilter]

theorem toRange_stop (hp : page ∣ p.size) : (toRange p).stop = p.stop := by
  show p.base + p.size / page * page = p.base + p.size
  rw [Nat.div_mul_cancel hp]

theorem sum_pageCount (h : Aligned page pieces) :
    ((pieces.map toRange).map Range.pageCount).sum * page = (pieces.map Span.size).sum := by
  induction pieces with
  | nil => rfl
  | cons p rest ih =>
      obtain ⟨hp, hrest⟩ := List.forall_mem_cons.mp h
      rw [List.map_cons, List.map_cons, List.sum_cons, List.map_cons, List.sum_cons, Nat.add_mul, ih hrest]
      exact congrArg (· + _) (Nat.div_mul_cancel hp.2)

section Descriptor

variable {owned : List Span} {d : Desc}

/-- The painted pieces of a descriptor. -/
theorem parts_painted (hd : d.Sane) (howned : d.pages ≠ 0 → ∀ o ∈ owned, Sane o) :
    (d.pages = 0 ∧ parts owned d = []) ∨
      d.pages ≠ 0 ∧ ∃ ps, parts owned d = ps.map toRange ∧ Tiles d.start d.stop ps ∧ Aligned page ps ∧
        Shows (fun x => topKind owned d.kind x) ps := by
  rw [parts]
  by_cases hempty : d.pages = 0
  · exact Or.inl ⟨hempty, if_pos hempty⟩
  have hpage : page = 4096 := rfl
  refine Or.inr ⟨hempty, _, if_neg hempty, painted_tiles owned ⟨rfl, ?_, rfl⟩, painted_aligned (howned hempty) ?_,
    painted_shows owned (f := fun _ => d.kind) ?_⟩
  · show 0 < d.pages * page
    rw [hpage]
    omega
  · intro p hp
    rw [List.mem_singleton.mp hp]
    exact ⟨(hd hempty).1, Nat.dvd_mul_left _ _⟩
  · intro p hp x _
    rw [List.mem_singleton.mp hp]

theorem parts_bounds (hd : d.Sane) (howned : d.pages ≠ 0 → ∀ o ∈ owned, Sane o) :
    ∀ r ∈ parts owned d, d.pages ≠ 0 ∧ d.start ≤ r.physStart ∧ r.stop ≤ d.stop ∧ r.pageCount ≠ 0 := by
  intro r hr
  rcases parts_painted hd howned with ⟨-, hnil⟩ | ⟨hempty, ps, hps, htiles, haligned, -⟩
  · rw [hnil] at hr
    exact absurd hr List.not_mem_nil
  · rw [hps] at hr
    obtain ⟨p, hp, rfl⟩ := List.mem_map.mp hr
    obtain ⟨hlo, hsize, hhi⟩ := htiles.bounds p hp
    rw [toRange_stop (haligned p hp).2]
    refine ⟨hempty, hlo, hhi, ?_⟩
    exact Nat.ne_of_gt (Nat.div_pos (Nat.le_of_dvd hsize (haligned p hp).2) (by decide))

theorem parts_repaints (hd : d.Sane) (howned : d.pages ≠ 0 → ∀ o ∈ owned, Sane o) : Repaints owned d (parts owned d) := by
  refine ⟨fun r hr => (parts_bounds hd howned r hr).2.2.2, fun n => ?_, fun r hr n hn => ?_⟩
  · rcases parts_painted hd howned with ⟨hempty, hnil⟩ | ⟨hempty, ps, hps, htiles, haligned, -⟩
    · have hstop : d.stop = d.start := by rw [Desc.stop, hempty, Nat.zero_mul, Nat.add_zero]
      rw [hnil, hstop, if_neg (not_hasPage_self _ _), List.countP_nil]
    · have hdstart := (hd hempty).1
      have hdstop : page ∣ d.stop := Nat.dvd_add hdstart (Nat.dvd_mul_left _ _)
      have hcount : (ps.map toRange).countP (fun r => HasPage r.physStart r.stop n) =
          ps.countP fun p => p.Contains (n * page) := by
        rw [List.countP_map]
        refine List.countP_congr fun p hp => ?_
        obtain ⟨hbase, hsize⟩ := haligned p hp
        simp only [Function.comp, decide_eq_true_eq]
        rw [toRange_stop hsize]
        exact hasPage_iff hbase (Nat.dvd_add hbase hsize) n
      rw [hps, hcount, htiles.count]
      exact if_congr (hasPage_iff hdstart hdstop n).symm rfl rfl
  · rcases parts_painted hd howned with ⟨-, hnil⟩ | ⟨hempty, ps, hps, -, haligned, hshows⟩
    · rw [hnil] at hr
      exact absurd hr List.not_mem_nil
    · rw [hps] at hr
      obtain ⟨p, hp, rfl⟩ := List.mem_map.mp hr
      obtain ⟨hbase, hsize⟩ := haligned p hp
      rw [toRange_stop hsize] at hn
      rw [kindOf_eq_topKind (howned hempty)]
      exact hshows p hp _ ((hasPage_iff hbase (Nat.dvd_add hbase hsize) n).mp hn)

theorem parts_pages (hd : d.Sane) (howned : d.pages ≠ 0 → ∀ o ∈ owned, Sane o) :
    ((parts owned d).map Range.pageCount).sum = d.pages := by
  rcases parts_painted hd howned with ⟨hempty, hnil⟩ | ⟨-, ps, hps, htiles, haligned, -⟩
  · rw [hnil, hempty]
    rfl
  · have hsum := htiles.sum_size
    have hpages := sum_pageCount haligned
    have hpage : page = 4096 := rfl
    rw [Desc.stop] at hsum
    rw [hps]
    rw [hpage] at hsum hpages
    omega

/-- The ranges of one descriptor are apart. -/
theorem parts_pairwise (hd : d.Sane) (howned : d.pages ≠ 0 → ∀ o ∈ owned, Sane o) :
    (parts owned d).Pairwise Range.Separate := by
  rcases parts_painted hd howned with ⟨-, hnil⟩ | ⟨hempty, ps, hps, htiles, haligned, -⟩
  · rw [hnil]
    exact .nil
  · rw [hps, List.pairwise_map]
    refine htiles.pairwise.imp_of_mem fun {a b} ha hb hab => ?_
    have hbound (p : Span) (hp : p ∈ ps) : (toRange p).stop < u64Bound := by
      rw [toRange_stop (haligned p hp).2]
      exact Nat.lt_of_le_of_lt (htiles.bounds p hp).2.2 (hd hempty).2
    refine ⟨hbound a ha, hbound b hb, Or.inl ?_⟩
    rw [toRange_stop (haligned a ha).2]
    exact hab

end Descriptor

/-- Descriptors without a common page have ranges apart. -/
theorem parts_separate {owned : List Span} {a b : Desc} (ha : a.Sane) (hb : b.Sane)
    (howneda : a.pages ≠ 0 → ∀ o ∈ owned, Sane o) (hownedb : b.pages ≠ 0 → ∀ o ∈ owned, Sane o)
    (hapart : ∀ n, ¬(HasPage a.start a.stop n ∧ HasPage b.start b.stop n)) :
    ∀ r ∈ parts owned a, ∀ r' ∈ parts owned b, r.Separate r' := by
  intro r hr r' hr'
  obtain ⟨hemptya, hloa, hhia, hpages⟩ := parts_bounds ha howneda r hr
  obtain ⟨hemptyb, hlob, hhib, hpages'⟩ := parts_bounds hb hownedb r' hr'
  obtain ⟨hstarta, hbounda⟩ := ha hemptya
  obtain ⟨hstartb, hboundb⟩ := hb hemptyb
  refine ⟨Nat.lt_of_le_of_lt hhia hbounda, Nat.lt_of_le_of_lt hhib hboundb, ?_⟩
  by_contra hmeet
  -- otherwise the page at the higher start is common
  refine hapart (max a.start b.start / page) ?_
  have hpage : page = 4096 := rfl
  have hstopa : a.stop = a.start + a.pages * page := rfl
  have hstopb : b.stop = b.start + b.pages * page := rfl
  have hstop : r.stop = r.physStart + r.pageCount * 4096 := rfl
  have hstop' : r'.stop = r'.physStart + r'.pageCount * 4096 := rfl
  rw [Range.Apart] at hmeet
  rw [HasPage, HasPage]
  rw [hpage] at hstarta hstartb hstopa hstopb ⊢
  rcases Nat.le_total a.start b.start with hle | hle
  · rw [Nat.max_eq_right hle]
    omega
  · rw [Nat.max_eq_left hle]
    omega

/-- A successful run: the ranges of the descriptors, one after another. -/
theorem normalize_ok {descs : List Desc} {owned : List Span} {capacity : Nat} {out : List Range}
    (h : normalize descs owned capacity = .ok out) :
    out = descs.flatMap (parts owned) ∧ ∀ d ∈ descs, d.Sane ∧ (d.pages ≠ 0 → ∀ o ∈ owned, Sane o) := by
  have hnone : ([] : List Range).length ≤ capacity := Nat.zero_le _
  rw [normalize] at h
  rcases normalizeDescs_cases owned descs hnone with ⟨hrun, hall, -⟩ | ⟨herror, -⟩ | ⟨herror, -⟩ | ⟨herror, -⟩
  · rw [hrun] at h
    cases h
    exact ⟨rfl, hall⟩
  · rcases herror with herror | herror <;> rw [herror] at h <;> cases h
  · rw [herror] at h
    cases h
  · rw [herror] at h
    cases h

/-- The scratch array is never short while at most fifteen owned spans are nonempty. -/
theorem normalize_ne_fragmentCapacity {owned : List Span} (hfew : nonempty owned ≤ 15) (descs : List Desc) (capacity : Nat) :
    normalize descs owned capacity ≠ .error .fragmentCapacity := by
  have hnone : ([] : List Range).length ≤ capacity := Nat.zero_le _
  have hmax : maxPieces = 32 := rfl
  intro hfull
  rw [normalize] at hfull
  rcases normalizeDescs_cases owned descs hnone with ⟨hrun, -⟩ | ⟨herror, -⟩ | ⟨hrun, -⟩ | ⟨-, hshort⟩
  · rw [hrun] at hfull
    cases hfull
  · rcases herror with herror | herror <;> rw [herror] at hfull <;> cases hfull
  · rw [hrun] at hfull
    cases hfull
  · omega

/-- Descriptors without a common page. -/
def Disjoint (descs : List Desc) : Prop :=
  descs.Pairwise fun a b => ∀ n, ¬(HasPage a.start a.stop n ∧ HasPage b.start b.stop n)

theorem normalize_disjoint {descs : List Desc} {owned : List Span} {capacity : Nat} {out : List Range}
    (h : normalize descs owned capacity = .ok out) (hdisjoint : Disjoint descs) :
    BootInfo.rangesOverlap out = .ok false := by
  obtain ⟨rfl, hall⟩ := normalize_ok h
  refine BootInfo.rangesOverlap_of_separate ?_ (List.pairwise_flatMap.mpr ⟨?_, ?_⟩)
  · intro r hr
    obtain ⟨d, hd, hr⟩ := List.mem_flatMap.mp hr
    exact (parts_bounds (hall d hd).1 (hall d hd).2 r hr).2.2.2
  · exact fun d hd => parts_pairwise (hall d hd).1 (hall d hd).2
  · exact hdisjoint.imp_of_mem fun ha hb hab =>
      parts_separate (hall _ ha).1 (hall _ hb).1 (hall _ ha).2 (hall _ hb).2 hab

/-- Normalizing repaints the map exactly: every page of a descriptor appears once, with the kind of the last
owned span there; the output is disjoint where the descriptors are; and fifteen owned spans never exhaust
the scratch array. -/
theorem normalize_repaints (descs : List Desc) (owned : List Span) (capacity : Nat) :
    (∀ out, normalize descs owned capacity = .ok out →
      (∃ rss, out = rss.flatten ∧ List.Forall₂ (Repaints owned) descs rss) ∧
        (out.map Range.pageCount).sum = (descs.map Desc.pages).sum ∧
        (Disjoint descs → BootInfo.rangesOverlap out = .ok false)) ∧
      (nonempty owned ≤ 15 → normalize descs owned capacity ≠ .error .fragmentCapacity) := by
  refine ⟨fun out hout => ?_, fun hfew => normalize_ne_fragmentCapacity hfew descs capacity⟩
  obtain ⟨hflat, hall⟩ := normalize_ok hout
  refine ⟨⟨descs.map (parts owned), hflat.trans (List.flatMap_def ..), ?_⟩, ?_, normalize_disjoint hout⟩
  · rw [List.forall₂_map_right_iff, List.forall₂_same]
    exact fun d hd => parts_repaints (hall d hd).1 (hall d hd).2
  · rw [hflat, List.flatMap_def, List.map_flatten, List.sum_flatten, List.map_map, List.map_map]
    exact congrArg List.sum (List.map_congr_left fun d hd => parts_pages (hall d hd).1 (hall d hd).2)

/-- A descriptor of sixteen pages with a kernel of four in it. -/
theorem normalize_repaints_carved :
    ∀ out, normalize [⟨0, 16, .conventional⟩] [⟨0x2000, 0x4000, .kernel⟩] 8 = .ok out →
      (out.map Range.pageCount).sum = 16 :=
  fun out hout => ((normalize_repaints _ _ _).1 out hout).2.1

end Memmap

end Native
