import Mathlib.Tactic.Common

/-! What a call that may raise an exception ensures: `Q` of its value, and `E` of the exception. -/

namespace Except

variable {ε α β : Type} {E : ε → Prop} {Q : α → Prop} {R : β → Prop} {o : Except ε α}

def Ensures (E : ε → Prop) (Q : α → Prop) : Except ε α → Prop
  | .ok a => Q a
  | .error e => E e

theorem Ensures.pure {a : α} (h : Q a) : Ensures E Q (Pure.pure a : Except ε α) := h

theorem Ensures.throw {e : ε} (h : E e) : Ensures E Q (MonadExcept.throw e : Except ε α) := h

theorem Ensures.bind {f : α → Except ε β} (h : Ensures E Q o) (hf : ∀ a, Q a → Ensures E R (f a)) :
    Ensures E R (o >>= f) := by
  cases o with
  | ok a => exact hf a h
  | error e => exact h

theorem Ensures.mono {Q' : α → Prop} (h : Ensures E Q o) (hQ : ∀ a, Q a → Q' a) : Ensures E Q' o := by
  cases o with
  | ok a => exact hQ a h
  | error e => exact h

theorem Ensures.of_ok (h : Ensures E Q o) {a : α} (ho : o = .ok a) : Q a := by
  subst ho
  exact h

theorem Ensures.of_error (h : Ensures E Q o) {e : ε} (ho : o = .error e) : E e := by
  subst ho
  exact h

theorem Ensures.ite {p : Prop} [Decidable p] {o' : Except ε α} (h : p → Ensures E Q o) (h' : ¬p → Ensures E Q o') :
    Ensures E Q (if p then o else o') := by
  by_cases hp : p
  · rw [if_pos hp]
    exact h hp
  · rw [if_neg hp]
    exact h' hp

end Except
