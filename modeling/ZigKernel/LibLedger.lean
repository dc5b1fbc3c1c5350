import Mathlib.Data.List.Nodup
import Mathlib.Data.List.Induction
import Mathlib.Tactic.Common

/-! A ledger of things acquired and released. Acquiring what is already held changes nothing, and a
ledger that releases what is not held does not balance. What is held at the end of a ledger that
balances determines the fate of every acquisition, and every release answers an acquisition of its own. -/

namespace Ledger

variable {α : Type} [DecidableEq α]

inductive Event (α : Type) where
  | acquire (a : α)
  | release (a : α)
  deriving DecidableEq, Repr

open Event

def enter (held : List α) : Event α → Option (List α)
  | acquire a => some (if a ∈ held then held else a :: held)
  | release a => if a ∈ held then some (held.erase a) else none

/-- What is held after the events, if they balance. -/
def balance : List α → List (Event α) → Option (List α)
  | held, [] => some held
  | held, e :: rest =>
      match enter held e with
      | some held' => balance held' rest
      | none => none

variable {held held' : List α} {es es' : List (Event α)} {a : α}

/-- A ledger that balances enters its first event. -/
theorem balance_cons {e : Event α} (h : balance held (e :: es) = some held') :
    ∃ next, enter held e = some next ∧ balance next es = some held' := by
  rw [balance] at h
  cases hstep : enter held e with
  | none => simp only [hstep, reduceCtorEq] at h
  | some next =>
      simp only [hstep] at h
      exact ⟨next, rfl, h⟩

theorem balance_append (h : balance held es = some held') :
    balance held (es ++ es') = balance held' es' := by
  induction es generalizing held with
  | nil =>
      cases h
      rfl
  | cons e rest ih =>
      obtain ⟨next, hstep, h⟩ := balance_cons h
      rw [List.cons_append, balance, hstep]
      exact ih h

theorem balance_split (h : balance held (es ++ es') = some held') :
    ∃ mid, balance held es = some mid ∧ balance mid es' = some held' := by
  induction es generalizing held with
  | nil => exact ⟨held, rfl, h⟩
  | cons e rest ih =>
      rw [List.cons_append] at h
      obtain ⟨next, hstep, h⟩ := balance_cons h
      obtain ⟨mid, hleft, hright⟩ := ih h
      refine ⟨mid, ?_, hright⟩
      rw [balance, hstep]
      exact hleft

theorem balance_snoc {e : Event α} {next : List α} (h : balance held es = some held') (he : enter held' e = some next) :
    balance held (es ++ [e]) = some next := by
  rw [balance_append h, balance, he]
  rfl

theorem enter_nodup {e : Event α} (hnodup : held.Nodup) (h : enter held e = some held') : held'.Nodup := by
  cases e with
  | acquire a =>
      rw [enter] at h
      split_ifs at h with hmem
      · cases h
        exact hnodup
      · cases h
        exact List.nodup_cons.mpr ⟨hmem, hnodup⟩
  | release a =>
      rw [enter] at h
      split_ifs at h
      cases h
      exact hnodup.erase a

theorem balance_nodup (hnodup : held.Nodup) (h : balance held es = some held') : held'.Nodup := by
  induction es generalizing held with
  | nil =>
      cases h
      exact hnodup
  | cons e rest ih =>
      obtain ⟨next, hstep, h⟩ := balance_cons h
      exact ih (enter_nodup hnodup hstep) h

/-- What is held stays held until it is released. -/
theorem held_or_released (h : balance held es = some held') (ha : a ∈ held) : a ∈ held' ∨ release a ∈ es := by
  induction es generalizing held with
  | nil =>
      cases h
      exact Or.inl ha
  | cons e rest ih =>
      obtain ⟨next, hstep, h⟩ := balance_cons h
      by_cases hrelease : e = release a
      · exact Or.inr (hrelease ▸ List.mem_cons_self)
      have hnext : a ∈ next := by
        cases e with
        | acquire b =>
            rw [enter] at hstep
            split_ifs at hstep <;> cases hstep
            · exact ha
            · exact List.mem_cons_of_mem _ ha
        | release b =>
            rw [enter] at hstep
            split_ifs at hstep
            cases hstep
            have hne : a ≠ b := fun heq => hrelease (heq ▸ rfl)
            exact (List.mem_erase_of_ne hne).mpr ha
      rcases ih h hnext with hheld | hreleased
      · exact Or.inl hheld
      · exact Or.inr (List.mem_cons_of_mem _ hreleased)

/-- Nothing acquired is lost. -/
theorem acquired_kept (h : balance held (es ++ acquire a :: es') = some held') : a ∈ held' ∨ release a ∈ es' := by
  obtain ⟨mid, -, hright⟩ := balance_split h
  rw [balance, enter] at hright
  refine held_or_released hright ?_
  split_ifs with hmem
  · exact hmem
  · exact List.mem_cons_self

/-- What is held has been acquired, and not released since. -/
theorem held_acquired (hnodup : held.Nodup) (h : balance held es = some held') (ha : a ∈ held') :
    (a ∈ held ∧ release a ∉ es) ∨ ∃ before after, es = before ++ acquire a :: after ∧ release a ∉ after := by
  induction es using List.reverseRecOn generalizing held' with
  | nil =>
      cases h
      exact Or.inl ⟨ha, List.not_mem_nil⟩
  | append_singleton es e ih =>
      obtain ⟨mid, hleft, hlast⟩ := balance_split h
      have hmid := balance_nodup hnodup hleft
      rw [balance] at hlast
      cases hstep : enter mid e with
      | none => simp only [hstep, reduceCtorEq] at hlast
      | some next =>
          simp only [hstep, balance, Option.some.injEq] at hlast
          subst hlast
          by_cases hacquire : e = acquire a
          · exact Or.inr ⟨es, [], by rw [hacquire], List.not_mem_nil⟩
          have hkept : a ∈ mid ∧ e ≠ release a := by
            cases e with
            | acquire b =>
                rw [enter] at hstep
                split_ifs at hstep <;> cases hstep
                · exact ⟨ha, by nofun⟩
                · rcases List.mem_cons.mp ha with rfl | ha
                  · exact absurd rfl hacquire
                  · exact ⟨ha, by nofun⟩
            | release b =>
                rw [enter] at hstep
                split_ifs at hstep
                cases hstep
                obtain ⟨hne, hmem⟩ := hmid.mem_erase_iff.mp ha
                refine ⟨hmem, fun heq => hne ?_⟩
                cases heq
                rfl
          have hnot : release a ∉ [e] := fun hmem => hkept.2 (List.mem_singleton.mp hmem).symm
          rcases ih hleft hkept.1 with ⟨hheld, hnone⟩ | ⟨before, after, rfl, hnone⟩
          · exact Or.inl ⟨hheld, fun hmem => (List.mem_append.mp hmem).elim hnone hnot⟩
          · refine Or.inr ⟨before, after ++ [e], by rw [List.append_assoc, List.cons_append], ?_⟩
            exact fun hmem => (List.mem_append.mp hmem).elim hnone hnot

/-- Every release answers an acquisition that no earlier release has answered. -/
theorem released_once (h : balance [] (es ++ release a :: es') = some held') :
    ∃ before after, es = before ++ acquire a :: after ∧ release a ∉ after := by
  obtain ⟨mid, hleft, hright⟩ := balance_split h
  rw [balance, enter] at hright
  split_ifs at hright with hmem
  rcases held_acquired List.nodup_nil hleft hmem with ⟨hheld, -⟩ | hacquired
  · exact absurd hheld List.not_mem_nil
  · exact hacquired

end Ledger
