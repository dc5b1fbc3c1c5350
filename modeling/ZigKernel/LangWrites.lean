import ZigKernel.LangSlice
import Mathlib.Data.List.Pairwise

/-! Loops that fill a buffer: the values that a loop collects, arithmetic on `u16`, and a sequence of writes into one
buffer. Writes that are apart from each other all stand in the end, and the rest of the buffer is as it was. -/

namespace Zig

variable {ε α β : Type}

/-- A call that returns, and what follows. -/
theorem Outcome.ok_then {o : Outcome ε α} {a : α} {f : α → Outcome ε β} {r : Outcome ε β} (h : o = .ok a) (hf : f a = r) :
    (o >>= f) = r := by
  rw [h]
  exact hf

/-! ### Sixteen bits -/

/-- One past the largest `u16`. -/
def u16Bound : Nat := 2 ^ 16

/-- `@intCast` to a `u16`. -/
def castU16 (a : Nat) : Outcome ε Nat := if a < u16Bound then .ok a else .trap

/-- `a + b` -/
def addU16 (a b : Nat) : Outcome ε Nat := if a + b < u16Bound then .ok (a + b) else .trap

/-- `a * b` -/
def mulU16 (a b : Nat) : Outcome ε Nat := if a * b < u16Bound then .ok (a * b) else .trap

theorem castU16_eq_ok {a b : Nat} : (castU16 a : Outcome ε Nat) = .ok b ↔ a < u16Bound ∧ a = b := by
  unfold castU16
  split_ifs with h <;> simp [h]

theorem addU16_eq_ok {a b c : Nat} : (addU16 a b : Outcome ε Nat) = .ok c ↔ a + b < u16Bound ∧ a + b = c := by
  unfold addU16
  split_ifs with h <;> simp [h]

theorem mulU16_eq_ok {a b c : Nat} : (mulU16 a b : Outcome ε Nat) = .ok c ↔ a * b < u16Bound ∧ a * b = c := by
  unfold mulU16
  split_ifs with h <;> simp [h]

/-! ### A value for each element -/

/-- The values of a loop over a list. -/
def collect (f : α → Outcome ε β) : List α → Outcome ε (List β)
  | [] => .ok []
  | a :: rest => do
      let b ← f a
      let bs ← collect f rest
      .ok (b :: bs)

theorem collect_eq_ok {f : α → Outcome ε β} {xs : List α} {ys : List β} :
    collect f xs = .ok ys ↔ List.Forall₂ (fun a b => f a = .ok b) xs ys := by
  induction xs generalizing ys with
  | nil =>
      rw [collect, Outcome.ok.injEq]
      constructor
      · rintro rfl
        exact .nil
      · rintro ⟨⟩
        rfl
  | cons a rest ih =>
      rw [collect]
      constructor
      · intro h
        obtain ⟨b, hb, h⟩ := Outcome.bind_eq_ok h
        obtain ⟨bs, hbs, h⟩ := Outcome.bind_eq_ok h
        cases h
        exact .cons hb (ih.mp hbs)
      · rintro (_ | ⟨hb, hbs⟩)
        rw [hb, Outcome.ok_bind, ih.mpr hbs]
        rfl

/-- A loop whose steps return what `g` says. -/
theorem collect_eq_map {f : α → Outcome ε β} {g : α → β} {xs : List α} {ys : List β} (h : collect f xs = .ok ys)
    (hg : ∀ a b, f a = .ok b → b = g a) : ys = xs.map g := by
  have hall := collect_eq_ok.mp h
  induction hall with
  | nil => rfl
  | cons hb hrest ih => rw [List.map_cons, ← hg _ _ hb, ih (collect_eq_ok.mpr hrest)]

theorem collect_returns {f : α → Outcome ε β} {xs : List α} {ys : List β} (h : collect f xs = .ok ys) {a : α} (ha : a ∈ xs) :
    ∃ b, f a = .ok b := by
  have hall := collect_eq_ok.mp h
  induction hall with
  | nil => cases ha
  | cons hb hrest ih =>
      rcases List.mem_cons.mp ha with rfl | ha
      · exact ⟨_, hb⟩
      · exact ih (collect_eq_ok.mpr hrest) ha

theorem collect_ok {f : α → Outcome ε β} {l : List α} (h : ∀ a ∈ l, ∃ b, f a = .ok b) : ∃ ys, collect f l = .ok ys := by
  induction l with
  | nil => exact ⟨[], rfl⟩
  | cons a rest ih =>
      obtain ⟨⟨b, hb⟩, hrest⟩ := List.forall_mem_cons.mp h
      obtain ⟨bs, hbs⟩ := ih hrest
      exact ⟨b :: bs, collect_eq_ok.mpr (.cons hb (collect_eq_ok.mp hbs))⟩

/-! ### Writes -/

/-- Bytes, or other elements, and where they go. -/
structure Write (α : Type) where
  pos : Nat
  src : List α

def Write.stop (w : Write α) : Nat := w.pos + w.src.length

/-- The writes one after the other. -/
def writeAll : List (Write α) → List α → Outcome ε (List α)
  | [], a => .ok a
  | w :: rest, a => do
      let b ← memcpy a w.pos w.stop w.src
      writeAll rest b

/-- Two windows without a common element. -/
def Write.Apart (w w' : Write α) : Prop := w.stop ≤ w'.pos ∨ w'.stop ≤ w.pos

instance : Std.Symm (@Write.Apart α) := ⟨fun _ _ => Or.symm⟩

variable {a b s : List α} {ws : List (Write α)} {lo : Nat}

theorem writeAll_cons_eq_ok {w : Write α} (h : (writeAll (w :: ws) a : Outcome ε (List α)) = .ok b) :
    w.stop ≤ a.length ∧ (writeAll ws (overwrite a w.pos w.src) : Outcome ε (List α)) = .ok b := by
  obtain ⟨c, hc, h⟩ := Outcome.bind_eq_ok h
  rw [memcpy] at hc
  split_ifs at hc with hbounds
  cases hc
  exact ⟨hbounds.2.1, h⟩

/-- Writes inside of the buffer. -/
theorem writeAll_ok (h : ∀ w ∈ ws, w.stop ≤ a.length) : ∃ b, (writeAll ws a : Outcome ε (List α)) = .ok b := by
  induction ws generalizing a with
  | nil => exact ⟨a, rfl⟩
  | cons w rest ih =>
      obtain ⟨hroom, hrest⟩ := List.forall_mem_cons.mp h
      obtain ⟨b, hb⟩ := ih (a := overwrite a w.pos w.src) fun w' hw' => (length_overwrite hroom).symm ▸ hrest w' hw'
      exact ⟨b, Outcome.ok_then (memcpy_of_le (Nat.le_add_right _ _) hroom (Nat.add_sub_cancel_left _ _).symm) hb⟩

theorem length_writeAll (h : (writeAll ws a : Outcome ε (List α)) = .ok b) : b.length = a.length := by
  induction ws generalizing a with
  | nil =>
      cases h
      rfl
  | cons w rest ih =>
      obtain ⟨hroom, hrest⟩ := writeAll_cons_eq_ok h
      rw [ih hrest, length_overwrite hroom]

/-- What stands beside all writes stays. -/
theorem stands_writeAll_of_apart (h : (writeAll ws a : Outcome ε (List α)) = .ok b) (hs : Stands a lo s)
    (hapart : ∀ w ∈ ws, w.Apart ⟨lo, s⟩) : Stands b lo s := by
  induction ws generalizing a with
  | nil =>
      cases h
      exact hs
  | cons w rest ih =>
      obtain ⟨hroom, hrest⟩ := writeAll_cons_eq_ok h
      refine ih hrest (stands_overwrite_of_apart hs hroom ?_) fun w' hw' => hapart w' (List.mem_cons_of_mem _ hw')
      exact hapart w List.mem_cons_self

/-- Of writes that are apart, each one stands in the end. -/
theorem stands_writeAll (h : (writeAll ws a : Outcome ε (List α)) = .ok b) (hapart : ws.Pairwise Write.Apart) {w : Write α}
    (hw : w ∈ ws) : Stands b w.pos w.src := by
  induction ws generalizing a with
  | nil => cases hw
  | cons w' rest ih =>
      obtain ⟨hroom, hrest⟩ := writeAll_cons_eq_ok h
      obtain ⟨hfirst, hothers⟩ := List.pairwise_cons.mp hapart
      rcases List.mem_cons.mp hw with rfl | hw
      · exact stands_writeAll_of_apart hrest (stands_overwrite hroom) fun w' hw' => Or.symm (hfirst w' hw')
      · exact ih hrest hothers hw

/-- Writes that are apart from each other, all in one window. -/
structure Packed (lo hi : Nat) (ws : List (Write α)) : Prop where
  within : ∀ w ∈ ws, lo ≤ w.pos ∧ w.stop ≤ hi
  apart : ws.Pairwise Write.Apart

theorem Packed.nil (lo hi : Nat) : Packed lo hi ([] : List (Write α)) := ⟨by nofun, .nil⟩

theorem Packed.single {w : Write α} {hi : Nat} (hlo : lo ≤ w.pos) (hhi : w.stop ≤ hi) : Packed lo hi [w] :=
  ⟨fun _ hw => List.mem_singleton.mp hw ▸ ⟨hlo, hhi⟩, List.pairwise_singleton _ _⟩

/-- The windows decide. -/
theorem packed_of_spans {hi : Nat} (spans : List (Nat × Nat)) (h : ws.map (fun w => (w.pos, w.stop)) = spans)
    (hwithin : ∀ p ∈ spans, lo ≤ p.1 ∧ p.2 ≤ hi) (hapart : spans.Pairwise fun p q => p.2 ≤ q.1 ∨ q.2 ≤ p.1) :
    Packed lo hi ws := by
  subst h
  have hpairs := List.pairwise_map.mp hapart
  exact ⟨List.forall_mem_map.mp hwithin, hpairs⟩

/-- A window behind the other. -/
theorem Packed.append {ws' : List (Write α)} {mid hi : Nat} (h : Packed lo mid ws) (h' : Packed mid hi ws') (hlo : lo ≤ mid)
    (hhi : mid ≤ hi) : Packed lo hi (ws ++ ws') := by
  refine ⟨fun w hw => ?_, List.pairwise_append.mpr ⟨h.apart, h'.apart, fun w hw w' hw' => ?_⟩⟩
  · rcases List.mem_append.mp hw with hw | hw
    · exact ⟨(h.within w hw).1, Nat.le_trans (h.within w hw).2 hhi⟩
    · exact ⟨Nat.le_trans hlo (h'.within w hw).1, (h'.within w hw).2⟩
  · exact Or.inl (Nat.le_trans (h.within w hw).2 (h'.within w' hw').1)

theorem Packed.sublist {hi : Nat} {rs : List (Write α)} (h : Packed lo hi rs) (hws : ws.Sublist rs) : Packed lo hi ws :=
  ⟨fun w hw => h.within w (hws.subset hw), h.apart.sublist hws⟩

theorem Packed.returns {hi : Nat} (h : Packed lo hi ws) (hhi : hi ≤ a.length) :
    ∃ b, (writeAll ws a : Outcome ε (List α)) = .ok b :=
  writeAll_ok fun w hw => Nat.le_trans (h.within w hw).2 hhi

/-- What stands beside the window stays. -/
theorem Packed.keeps {hi off : Nat} (hp : Packed lo hi ws) (h : (writeAll ws a : Outcome ε (List α)) = .ok b)
    (hs : Stands a off s) (hbeside : off + s.length ≤ lo ∨ hi ≤ off) : Stands b off s := by
  refine stands_writeAll_of_apart h hs fun w hw => ?_
  obtain ⟨hlo, hhi⟩ := hp.within w hw
  rcases hbeside with hbelow | habove
  · exact Or.inr (Nat.le_trans hbelow hlo)
  · exact Or.inl (Nat.le_trans hhi habove)

/-- A map of the window: regions that are apart, each of which is written or stays as it was. -/
theorem Packed.stands {hi : Nat} {rs : List (Write α)} (hrs : Packed lo hi rs) (hws : ws.Sublist rs)
    (h : (writeAll ws a : Outcome ε (List α)) = .ok b) {r : Write α} (hr : r ∈ rs) (hkept : r ∉ ws → Stands a r.pos r.src) :
    Stands b r.pos r.src := by
  by_cases hw : r ∈ ws
  · exact stands_writeAll h (hrs.sublist hws).apart hw
  · refine stands_writeAll_of_apart h (hkept hw) fun w hw' => ?_
    refine hrs.apart.forall (hws.subset hw') hr ?_
    rintro rfl
    exact hw hw'

theorem stands_replicate {n k : Nat} {x : α} (h : lo + k ≤ n) : Stands (List.replicate n x) lo (List.replicate k x) := by
  refine stands_iff.mpr ⟨by simpa using h, fun i hi => ?_⟩
  rw [List.length_replicate] at hi
  rw [List.getElem?_replicate_of_lt (by omega), List.getElem?_replicate_of_lt hi]

end Zig
