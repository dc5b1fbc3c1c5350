import Mathlib.Algebra.Ring.Nat
import Mathlib.Data.List.Infix
import Mathlib.Tactic.Common

/-! Items read one after the other off a stream that arrives in parts. The verdict of a reader on the front
of a stream stands whatever comes behind it; so what is read of a stream does not depend on where it is cut. -/

namespace Framing

variable {ε α β : Type}

/-- What a reader says of the part of the stream it has. -/
inductive Verdict (ε β : Type) where
  | more
  | bad (e : ε)
  /-- An item that takes the first `n` elements. -/
  | item (b : β) (n : Nat)

/-- A reader that never takes a verdict back. -/
structure Reader (ε α β : Type) where
  read : List α → Verdict ε β
  item_fits {s b n} (h : read s = .item b n) : 0 < n ∧ n ≤ s.length
  item_stands {s b n} (h : read s = .item b n) (t : List α) : read (s ++ t) = .item b n
  bad_stands {s e} (h : read s = .bad e) (t : List α) : read (s ++ t) = .bad e

namespace Reader

variable (r : Reader ε α β) {s : List α}

theorem length_behind {b : β} {n : Nat} (h : r.read s = .item b n) : (s.drop n).length < s.length := by
  have := r.item_fits h
  rw [List.length_drop]
  omega

/-- Reads as long as there are items: these, and what is left. -/
def drain (s : List α) : List β × List α :=
  match _h : r.read s with
  | .item b n =>
    let next := drain (s.drop n)
    (b :: next.1, next.2)
  | .more => ([], s)
  | .bad _ => ([], s)
termination_by s.length
decreasing_by exact r.length_behind _h

variable {r}

theorem drain_item {b : β} {n : Nat} (h : r.read s = .item b n) :
    r.drain s = (b :: (r.drain (s.drop n)).1, (r.drain (s.drop n)).2) := by
  rw [drain]
  split <;> simp_all

theorem drain_more (h : r.read s = .more) : r.drain s = ([], s) := by
  rw [drain]
  split <;> simp_all

theorem drain_bad {e : ε} (h : r.read s = .bad e) : r.drain s = ([], s) := by
  rw [drain]
  split <;> simp_all

/-- Induction over the items at the front of a stream. -/
theorem stream_induction {motive : List α → Prop} (more : ∀ s, r.read s = .more → motive s)
    (bad : ∀ s e, r.read s = .bad e → motive s)
    (item : ∀ s b n, r.read s = .item b n → motive (s.drop n) → motive s) (s : List α) : motive s := by
  induction hlen : s.length using Nat.strong_induction_on generalizing s with
  | _ len ih =>
      cases hread : r.read s with
      | more => exact more s hread
      | bad e => exact bad s e hread
      | item b n =>
          have hfits := r.item_fits hread
          refine item s b n hread (ih _ ?_ _ rfl)
          rw [List.length_drop]
          omega

/-- A stream read in two parts: what is left of the first goes before the second. -/
theorem drain_append (s t : List α) :
    r.drain (s ++ t) = ((r.drain s).1 ++ (r.drain ((r.drain s).2 ++ t)).1, (r.drain ((r.drain s).2 ++ t)).2) := by
  induction s using r.stream_induction with
  | more s hmore => rw [drain_more hmore]; rfl
  | bad s e hbad => rw [drain_bad hbad]; rfl
  | item s b n hitem ih =>
      have hfits := r.item_fits hitem
      rw [drain_item (r.item_stands hitem t), List.drop_append_of_le_length hfits.2, ih, drain_item hitem]
      rfl

/-- Something is wrong with the front of a stream. -/
def Fails (r : Reader ε α β) (s : List α) : Prop := ∃ e, r.read (r.drain s).2 = .bad e

theorem Fails.append (h : r.Fails s) (t : List α) : r.Fails (s ++ t) := by
  obtain ⟨e, he⟩ := h
  have hbad := r.bad_stands he t
  refine ⟨e, ?_⟩
  rw [drain_append, drain_bad hbad, hbad]

end Reader

/-! ### Writers -/

/-- A reader with the writer it understands. `Fits` says what the writer can write. -/
structure Codec (ε α β : Type) extends Reader ε α β where
  write : β → List α
  Fits : β → Prop
  read_write {b} (h : Fits b) : read (write b) = .item b (write b).length
  read_part {b p} (h : Fits b) (hp : p <+: write b) (hne : p ≠ write b) : read p = .more

namespace Codec

variable {c : Codec ε α β} {bs : List β} {p : List α}

/-- The stream of a list of items. -/
def stream (c : Codec ε α β) (bs : List β) : List α := bs.flatMap c.write

/-- Written items are read back, and the stream goes on behind them. -/
theorem drain_stream_append (hbs : ∀ b ∈ bs, c.Fits b) (t : List α) :
    c.drain (c.stream bs ++ t) = (bs ++ (c.drain t).1, (c.drain t).2) := by
  induction bs with
  | nil => rfl
  | cons b bs ih =>
      have hitem := c.item_stands (c.read_write (hbs b List.mem_cons_self)) (c.stream bs ++ t)
      calc c.drain (c.stream (b :: bs) ++ t)
          = c.drain (c.write b ++ (c.stream bs ++ t)) := by rw [stream, List.flatMap_cons, List.append_assoc]; rfl
        _ = (b :: (c.drain (c.stream bs ++ t)).1, (c.drain (c.stream bs ++ t)).2) := by
            rw [Reader.drain_item hitem, List.drop_left]
        _ = (b :: bs ++ (c.drain t).1, (c.drain t).2) := by
            rw [ih fun b' hb' => hbs b' (List.mem_cons_of_mem b hb')]
            rfl

theorem drain_stream (hbs : ∀ b ∈ bs, c.Fits b) (hnil : c.read [] = .more) : c.drain (c.stream bs) = (bs, []) := by
  have h := drain_stream_append hbs []
  rw [List.append_nil, Reader.drain_more hnil, List.append_nil] at h
  exact h

/-- A part of a stream is the stream of the first items, and then a proper part of the next one. -/
theorem part_of_stream (hp : p <+: c.stream bs) :
    p = c.stream bs ∨
      ∃ fs b gs q, bs = fs ++ b :: gs ∧ p = c.stream fs ++ q ∧ q <+: c.write b ∧ q ≠ c.write b := by
  induction bs generalizing p with
  | nil => exact Or.inl (List.prefix_nil.mp hp)
  | cons b bs ih =>
      have hcons : c.stream (b :: bs) = c.write b ++ c.stream bs := List.flatMap_cons
      have hwrite : c.write b <+: c.stream (b :: bs) := ⟨c.stream bs, hcons.symm⟩
      by_cases hfirst : p <+: c.write b ∧ p ≠ c.write b
      · exact Or.inr ⟨[], b, bs, p, rfl, rfl, hfirst⟩
      · have hback : c.write b <+: p := by
          rcases List.prefix_or_prefix_of_prefix hp hwrite with hle | hge
          · rw [not_and, not_ne_iff] at hfirst
            rw [hfirst hle]
          · exact hge
        obtain ⟨p, rfl⟩ := hback
        rw [hcons, List.prefix_append_right_inj] at hp
        rcases ih hp with rfl | ⟨fs, b', gs, q, rfl, rfl, hq⟩
        · exact Or.inl hcons.symm
        · exact Or.inr ⟨b :: fs, b', gs, q, rfl, by rw [← List.append_assoc]; rfl, hq⟩

/-- Of a proper part of a stream the items are read that are complete in it. -/
theorem drain_part (hbs : ∀ b ∈ bs, c.Fits b) (hp : p <+: c.stream bs) (hne : p ≠ c.stream bs) :
    ∃ fs b gs q, bs = fs ++ b :: gs ∧ p = c.stream fs ++ q ∧ q <+: c.write b ∧ q ≠ c.write b ∧
      c.drain p = (fs, q) ∧ c.read q = .more := by
  obtain ⟨fs, b, gs, q, rfl, rfl, hq, hqne⟩ := (part_of_stream hp).resolve_left hne
  have hmore := c.read_part (hbs b (by simp)) hq hqne
  refine ⟨fs, b, gs, q, rfl, rfl, hq, hqne, ?_, hmore⟩
  rw [drain_stream_append (fun b' hb' => hbs b' (List.mem_append_left _ hb')), Reader.drain_more hmore,
    List.append_nil]

end Codec

end Framing
