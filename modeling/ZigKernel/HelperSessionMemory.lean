import ZigKernel.HelperSession
import ZigKernel.LibWindow

/-! The memory of a session: the ids in `seen[0..seen_len]` are a window, and `rememberId` pushes an id that is not
in it. -/

namespace SdkHelper

open Zig Json Supervisor
open Zig.Window (push)

variable {s : Session} {id : Bytes}

/-- The ids in `seen[0..seen_len]`. -/
def Session.ids (s : Session) : List Bytes := (s.seen.take s.seenLen).map fun slot => slot.bytes.take slot.len

/-- The memory is what its loops rely on. -/
structure Session.Sized (s : Session) : Prop where
  length : s.seen.length = maxSeenIds
  seenLen : s.seenLen ≤ maxSeenIds
  slots : ∀ slot ∈ s.seen, slot.bytes.length = Contract.maxIdBytes
  lens : ∀ slot ∈ s.seen.take s.seenLen, slot.len ≤ Contract.maxIdBytes

theorem Session.Fresh.sized (h : s.Fresh) : s.Sized := by
  refine ⟨h.length, ?_, h.slots, ?_⟩
  · rw [h.seenLen]
    exact Nat.zero_le _
  · rw [h.seenLen, List.take_zero]
    exact fun slot hslot => absurd hslot List.not_mem_nil

theorem Session.Fresh.ids (h : s.Fresh) : s.ids = [] := by rw [Session.ids, h.seenLen, List.take_zero, List.map_nil]

theorem Session.Sized.length_ids (h : s.Sized) : s.ids.length = s.seenLen := by
  rw [Session.ids, List.length_map, List.length_take, h.length]
  exact Nat.min_eq_left h.seenLen

theorem slice_slot {ε : Type} {slot : IdSlot} (hbytes : slot.bytes.length = Contract.maxIdBytes)
    (hlen : slot.len ≤ Contract.maxIdBytes) :
    (slot.slice : Zig.Outcome ε Bytes) = .ok (slot.bytes.take slot.len) := by
  rw [IdSlot.slice, slice_of_le (Nat.zero_le _) (by omega), List.drop_zero, Nat.sub_zero]

/-- The scan over the slots `mid`, which stand behind `pre`. -/
theorem scanSeen_eq (pre mid post : List IdSlot) (hbytes : ∀ slot ∈ mid, slot.bytes.length = Contract.maxIdBytes)
    (hlens : ∀ slot ∈ mid, slot.len ≤ Contract.maxIdBytes) :
    scanSeen (pre ++ (mid ++ post)) id pre.length mid.length =
      if id ∈ mid.map (fun slot => slot.bytes.take slot.len) then .error .duplicateId else .ok () := by
  induction mid generalizing pre with
  | nil => rfl
  | cons slot mid ih =>
      rw [List.forall_mem_cons] at hbytes hlens
      have hindex : (index (pre ++ (slot :: mid ++ post)) pre.length : Zig.Outcome RememberError IdSlot) = .ok slot :=
        index_eq_ok.mpr (by simp)
      have hrest := ih (pre ++ [slot]) hbytes.2 hlens.2
      rw [List.length_append, List.length_singleton, List.append_assoc, List.singleton_append,
        ← List.cons_append] at hrest
      rw [List.length_cons, scanSeen, hindex, Outcome.ok_bind, slice_slot hbytes.1 hlens.1, Outcome.ok_bind, hrest]
      simp only [List.map_cons, List.mem_cons]
      by_cases heq : slot.bytes.take slot.len = id
      · rw [if_pos heq, if_pos (Or.inl heq.symm)]
      · rw [if_neg heq]
        have hiff : id = slot.bytes.take slot.len ∨ id ∈ mid.map (fun slot => slot.bytes.take slot.len) ↔
            id ∈ mid.map (fun slot => slot.bytes.take slot.len) := or_iff_right fun h => heq h.symm
        simp only [hiff]

theorem Session.Sized.scan (h : s.Sized) :
    scanSeen s.seen id 0 s.seenLen = if id ∈ s.ids then .error .duplicateId else .ok () := by
  have hscan : scanSeen ([] ++ (s.seen.take s.seenLen ++ s.seen.drop s.seenLen)) id 0 _ = _ :=
    scanSeen_eq [] (s.seen.take s.seenLen) (s.seen.drop s.seenLen)
      (fun slot hslot => h.slots slot (List.mem_of_mem_take hslot)) h.lens
  rwa [List.nil_append, List.take_append_drop, List.length_take, h.length, Nat.min_eq_left h.seenLen] at hscan

/-- Every slot takes the value of the next, and the last keeps its own. -/
theorem shiftSeen_eq (pre : List IdSlot) (slot : IdSlot) (rest : List IdSlot) :
    shiftSeen (pre ++ slot :: rest) (pre.length + 1) rest.length =
      .ok (pre ++ (rest ++ [(slot :: rest).getLast (List.cons_ne_nil _ _)])) := by
  induction rest generalizing pre slot with
  | nil => rfl
  | cons next rest ih =>
      have hindex : (index (pre ++ slot :: next :: rest) (pre.length + 1) : Zig.Outcome RememberError IdSlot) =
          .ok next := index_eq_ok.mpr (by simp)
      have hset : (pre ++ slot :: next :: rest).set pre.length next = (pre ++ [next]) ++ next :: rest := by
        rw [List.set_append_right _ _ (Nat.le_refl _), Nat.sub_self, List.append_assoc]
        rfl
      have hrest := ih (pre ++ [next]) next
      rw [List.length_append, List.length_singleton] at hrest
      rw [List.length_cons, shiftSeen, hindex, Outcome.ok_bind, Nat.add_sub_cancel, hset, hrest, List.append_assoc,
        List.getLast_cons (List.cons_ne_nil next rest)]
      rfl

/-- `s'` remembers the ids `w` and has the flags of `s`. -/
structure Remembers (s s' : Session) (w : List Bytes) : Prop where
  sized : s'.Sized
  ids : s'.ids = w
  shuttingDown : s'.shuttingDown = s.shuttingDown
  helloDone : s'.helloDone = s.helloDone

/-- The write behind the ids there are. -/
theorem storeSeen_eq (h : s.Sized) (hroom : s.seenLen < maxSeenIds) (hid : id.length ≤ Contract.maxIdBytes) :
    ∃ s', storeSeen s id = .ok s' ∧ Remembers s s' (s.ids ++ [id]) := by
  have hlt : s.seenLen < s.seen.length := hroom.trans_eq h.length.symm
  have hindex : (index s.seen s.seenLen : Zig.Outcome RememberError IdSlot) = .ok s.seen[s.seenLen] :=
    index_eq_ok.mpr (List.getElem?_eq_getElem hlt)
  have hbytes := h.slots _ (List.getElem_mem hlt)
  have hfits : id.length ≤ s.seen[s.seenLen].bytes.length := by omega
  have htake : ∀ slot, (s.seen.set s.seenLen slot).take (s.seenLen + 1) = s.seen.take s.seenLen ++ [slot] := by
    intro slot
    rw [List.take_set, List.take_add_one, List.getElem?_eq_getElem hlt, Option.toList_some,
      List.set_append_right _ _ (by rw [List.length_take]; omega), List.length_take, Nat.min_eq_left (Nat.le_of_lt hlt),
      Nat.sub_self]
    rfl
  have hstore : storeSeen s id = .ok { s with
      seen := s.seen.set s.seenLen ⟨id ++ s.seen[s.seenLen].bytes.drop id.length, id.length⟩
      seenLen := s.seenLen + 1 } := by
    simp only [storeSeen, hindex, Outcome.ok_bind, memcpy_zero rfl hfits]
  refine ⟨_, hstore, ⟨?_, hroom, ?_, ?_⟩, ?_, rfl, rfl⟩
  · show (s.seen.set _ _).length = _
    rw [List.length_set, h.length]
  · intro slot hslot
    rcases List.mem_or_eq_of_mem_set hslot with hslot | rfl
    · exact h.slots slot hslot
    · show (id ++ _).length = _
      rw [List.length_append, List.length_drop, hbytes]
      omega
  · intro slot hslot
    rw [htake, List.mem_append, List.mem_singleton] at hslot
    rcases hslot with hslot | rfl
    · exact h.lens slot hslot
    · exact hid
  · show ((s.seen.set _ _).take _).map _ = _
    rw [htake, List.map_append, List.map_singleton, List.take_left' rfl]
    rfl

/-- The shift of a full memory drops the oldest id. -/
theorem shiftSeen_full (h : s.Sized) (hfull : s.seenLen = maxSeenIds) :
    ∃ seen, shiftSeen s.seen 1 (maxSeenIds - 1) = .ok seen ∧
      Remembers s { s with seen, seenLen := maxSeenIds - 1 } s.ids.tail := by
  obtain ⟨slot, rest, hseen⟩ : ∃ slot rest, s.seen = slot :: rest := by
    refine List.exists_cons_of_ne_nil fun hnil => ?_
    have hlength := h.length
    rw [hnil] at hlength
    exact absurd hlength (by decide)
  have hrest : rest.length = maxSeenIds - 1 := by
    have hlength := h.length
    rw [hseen, List.length_cons] at hlength
    omega
  have hall : s.seen.take s.seenLen = slot :: rest := by rw [hfull, ← h.length, List.take_length, hseen]
  obtain ⟨last, hlast, hshift⟩ : ∃ last ∈ s.seen, shiftSeen s.seen 1 (maxSeenIds - 1) = .ok (rest ++ [last]) := by
    rw [hseen, ← hrest]
    exact ⟨_, List.getLast_mem _, shiftSeen_eq [] slot rest⟩
  have htake : (rest ++ [last]).take (maxSeenIds - 1) = rest := List.take_left' hrest
  refine ⟨_, hshift, ⟨?_, Nat.sub_le _ _, fun x hx => ?_, fun x hx => ?_⟩, ?_, rfl, rfl⟩
  · show (rest ++ [last]).length = _
    rw [List.length_append, hrest]
    rfl
  · rcases List.mem_append.mp hx with hx | hx
    · exact h.slots x (by rw [hseen]; exact List.mem_cons_of_mem _ hx)
    · rw [List.mem_singleton.mp hx]
      exact h.slots _ hlast
  · rw [htake] at hx
    exact h.lens x (by rw [hall]; exact List.mem_cons_of_mem _ hx)
  · rw [Session.ids, Session.ids, htake, hall, List.map_cons, List.tail_cons]

/-- `rememberId` finds an id of the memory, and pushes any other one. -/
theorem rememberId_eq (h : s.Sized) (hid : id.length ≤ Contract.maxIdBytes) :
    (id ∈ s.ids ∧ rememberId s id = .error .duplicateId) ∨
      (id ∉ s.ids ∧ ∃ s', rememberId s id = .ok s' ∧ Remembers s s' (push maxSeenIds s.ids id)) := by
  by_cases hmem : id ∈ s.ids
  · refine Or.inl ⟨hmem, ?_⟩
    rw [rememberId, h.scan, if_pos hmem]
    rfl
  refine Or.inr ⟨hmem, ?_⟩
  rw [rememberId, h.scan, if_neg hmem, Outcome.ok_bind]
  by_cases hfull : s.seenLen = maxSeenIds
  · obtain ⟨seen, hshift, hroom⟩ := shiftSeen_full h hfull
    have : NeZero maxSeenIds := ⟨by decide⟩
    obtain ⟨s', hstore, hs'⟩ := storeSeen_eq hroom.sized (show maxSeenIds - 1 < maxSeenIds by decide) hid
    rw [if_pos hfull, hshift, Outcome.ok_bind, Window.push_of_full (h.length_ids.trans hfull)]
    exact ⟨s', hstore, hs'.sized, hs'.ids.trans (by rw [hroom.ids]), hs'.shuttingDown, hs'.helloDone⟩
  · have hroom : s.seenLen < maxSeenIds := lt_of_le_of_ne h.seenLen hfull
    rw [if_neg hfull, Window.push_of_lt (h.length_ids.trans_lt hroom)]
    exact storeSeen_eq h hroom hid

end SdkHelper
