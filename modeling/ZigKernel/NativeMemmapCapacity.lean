import ZigKernel.NativeMemmapSound

/-! How many ranges a map needs. Every range starts where a descriptor starts or where an owned span has an end
strictly inside a descriptor; disjoint descriptors have each end strictly inside at most one of them. -/

namespace Native

open Zig Spans

namespace Memmap

variable {pieces : List Span} {lo hi : Nat} {owned : List Span} {descs : List Desc}

/-- The ends of `o` strictly inside the interval. -/
def cuts (lo hi : Nat) (o : Span) : Nat := inner lo hi o.base + inner lo hi o.stop

theorem length_painted_le (owned : List Span) (h : Tiles lo hi pieces) :
    (painted owned pieces).length ≤ pieces.length + (owned.map (cuts lo hi)).sum := by
  induction owned generalizing pieces with
  | nil => exact Nat.le_refl _
  | cons o rest ih =>
      rw [painted, List.map_cons, List.sum_cons]
      by_cases hempty : o.size = 0
      · have hrest := ih h
        rw [if_pos hempty]
        omega
      · have hpaint := length_paint_le_inner h o
        have hrest := ih (h.paint (Nat.pos_of_ne_zero hempty))
        rw [if_neg hempty, cuts]
        omega

theorem length_parts_le (owned : List Span) (d : Desc) :
    (parts owned d).length ≤ 1 + (owned.map (cuts d.start d.stop)).sum := by
  rw [parts]
  by_cases hempty : d.pages = 0
  · rw [if_pos hempty]
    exact Nat.zero_le _
  · have hpage : page = 4096 := rfl
    have hwhole : Tiles d.start d.stop [{ base := d.start, size := d.pages * page, kind := d.kind }] :=
      ⟨rfl, by show 0 < d.pages * page; rw [hpage]; omega, rfl⟩
    rw [if_neg hempty, List.length_map]
    exact length_painted_le owned hwhole

theorem length_flatMap_parts_le (owned : List Span) (descs : List Desc) :
    (descs.flatMap (parts owned)).length ≤ descs.length + (descs.map fun d => (owned.map (cuts d.start d.stop)).sum).sum := by
  induction descs with
  | nil => exact Nat.le_refl _
  | cons d rest ih =>
      have hparts := length_parts_le owned d
      rw [List.flatMap_cons, List.length_append, List.length_cons, List.map_cons, List.sum_cons]
      omega

/-- An address strictly inside two descriptors lies in a page of both. -/
theorem inner_sum_le_one (hsane : ∀ d ∈ descs, d.Sane) (hdisjoint : Disjoint descs) (a : Nat) :
    (descs.map fun d => inner d.start d.stop a).sum ≤ 1 := by
  have hpage : page = 4096 := rfl
  have hinside {d : Desc} (hd : d.Sane) (hin : inner d.start d.stop a ≠ 0) : HasPage d.start d.stop (a / page) := by
    have hlt : d.start < a ∧ a < d.stop := by
      by_contra hout
      exact hin (if_neg hout)
    have hstop : d.stop = d.start + d.pages * page := rfl
    have hpages : d.pages ≠ 0 := by
      intro hzero
      rw [hzero] at hstop
      omega
    have hstart := (hd hpages).1
    rw [HasPage]
    rw [hpage] at hstop hstart ⊢
    omega
  induction descs with
  | nil => exact Nat.zero_le _
  | cons d rest ih =>
      obtain ⟨hd, hrest⟩ := List.forall_mem_cons.mp hsane
      obtain ⟨hfirst, hpairs⟩ := List.pairwise_cons.mp hdisjoint
      rw [List.map_cons, List.sum_cons]
      by_cases hin : inner d.start d.stop a = 0
      · rw [hin, Nat.zero_add]
        exact ih hrest hpairs
      · have hzero : (rest.map fun d => inner d.start d.stop a).sum = 0 := by
          refine List.sum_eq_zero fun n hn => ?_
          obtain ⟨d', hd', rfl⟩ := List.mem_map.mp hn
          by_contra hin'
          exact hfirst d' hd' _ ⟨hinside hd hin, hinside (hrest d' hd') hin'⟩
        rw [hzero, Nat.add_zero]
        exact inner_le_one _ _ _

theorem cuts_sum_le (hsane : ∀ d ∈ descs, d.Sane) (hdisjoint : Disjoint descs) (owned : List Span) :
    (descs.map fun d => (owned.map (cuts d.start d.stop)).sum).sum ≤ 2 * owned.length := by
  induction owned with
  | nil =>
      refine Nat.le_of_eq (List.sum_eq_zero fun n hn => ?_)
      obtain ⟨d, -, rfl⟩ := List.mem_map.mp hn
      rfl
  | cons o rest ih =>
      have hbase := inner_sum_le_one hsane hdisjoint o.base
      have hstop := inner_sum_le_one hsane hdisjoint o.stop
      simp only [List.map_cons, List.sum_cons, List.sum_map_add, cuts] at ih ⊢
      rw [List.length_cons]
      omega

/-- A map of sound, disjoint descriptors is normalized if the output has room for two more ranges for each owned span. -/
theorem normalize_total {capacity : Nat} (hdescs : ∀ d ∈ descs, d.Sane) (hdisjoint : Disjoint descs)
    (howned : ∀ o ∈ owned, Sane o) (hfew : owned.length ≤ 15) (hcapacity : descs.length + 2 * owned.length ≤ capacity) :
    ∃ out, normalize descs owned capacity = .ok out ∧ out.length ≤ descs.length + 2 * owned.length := by
  have hlength : (descs.flatMap (parts owned)).length ≤ descs.length + 2 * owned.length := by
    have hcuts := cuts_sum_le hdescs hdisjoint owned
    have hsum := length_flatMap_parts_le owned descs
    omega
  have hnone : ([] : List Range).length ≤ capacity := Nat.zero_le _
  have hmax : maxPieces = 32 := rfl
  have hnonempty : nonempty owned ≤ owned.length := List.countP_le_length
  rcases normalizeDescs_cases owned descs hnone with ⟨hrun, -⟩ | ⟨-, hcause⟩ | ⟨-, hshort⟩ | ⟨-, hshort⟩
  · exact ⟨_, hrun, hlength⟩
  · rcases hcause with ⟨d, hd, hinsane⟩ | ⟨o, ho, hinsane⟩
    · exact absurd (hdescs d hd) hinsane
    · exact absurd (howned o ho) hinsane
  · rw [List.nil_append] at hshort
    omega
  · omega

end Memmap

end Native
