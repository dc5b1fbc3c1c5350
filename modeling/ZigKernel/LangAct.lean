import Mathlib.Algebra.Ring.Nat
import Mathlib.Tactic.Common

/-! Zig computations. A call ends with a value, with a member of its error set, or at an operation
the language leaves undefined (`trap`: an overflow of an unchecked operator, a failed bound). A
failing call keeps whatever it had already written, so atomicity is something to be proved: an
action returns the state also with an error, and `errdefer` is the only undo there is. -/

namespace Zig

/-- How a call ends. -/
inductive Outcome (ε α : Type) where
  | ok (a : α)
  | error (e : ε)
  | trap
  deriving DecidableEq, Repr

namespace Outcome

variable {ε α β : Type}

def bind (o : Outcome ε α) (f : α → Outcome ε β) : Outcome ε β :=
  match o with
  | .ok a => f a
  | .error e => .error e
  | .trap => .trap

instance : Monad (Outcome ε) where
  pure := .ok
  bind := bind

@[simp] theorem pure_eq (a : α) : (pure a : Outcome ε α) = .ok a := rfl
@[simp] theorem ok_bind (a : α) (f : α → Outcome ε β) : (Outcome.ok a >>= f) = f a := rfl
@[simp] theorem error_bind (e : ε) (f : α → Outcome ε β) : (Outcome.error e >>= f) = .error e := rfl
@[simp] theorem trap_bind (f : α → Outcome ε β) : (Outcome.trap >>= f) = .trap := rfl

theorem bind_assoc {γ : Type} (o : Outcome ε α) (f : α → Outcome ε β) (g : β → Outcome ε γ) :
    (o >>= f >>= g) = o >>= fun a => f a >>= g := by
  cases o <;> rfl

/-- A bind that returns has passed through both of its parts. -/
theorem bind_eq_ok {o : Outcome ε α} {f : α → Outcome ε β} {b : β} (h : (o >>= f) = .ok b) :
    ∃ a, o = .ok a ∧ f a = .ok b := by
  cases o with
  | ok a => exact ⟨a, rfl, h⟩
  | error e => cases h
  | trap => cases h

theorem bind_ne_trap {o : Outcome ε α} {f : α → Outcome ε β} (h : o ≠ .trap) (hf : ∀ a, o = .ok a → f a ≠ .trap) :
    (o >>= f) ≠ .trap := by
  cases o with
  | ok a => exact hf a rfl
  | error e => nofun
  | trap => exact absurd rfl h

theorem ite_error_ne_trap {p : Prop} [Decidable p] {e : ε} {o : Outcome ε α} (h : ¬p → o ≠ .trap) :
    (if p then .error e else o) ≠ Outcome.trap := by
  by_cases hp : p
  · rw [if_pos hp]
    nofun
  · rw [if_neg hp]
    exact h hp

theorem bind_ne_trap_iff {o : Outcome ε α} {f : α → Outcome ε β} :
    (o >>= f) ≠ .trap ↔ o ≠ .trap ∧ ∀ a, o = .ok a → f a ≠ .trap := by
  refine ⟨fun h => ⟨?_, ?_⟩, fun h => bind_ne_trap h.1 h.2⟩
  · rintro rfl
    exact h rfl
  · rintro a rfl
    exact h

theorem ite_error_ne_trap_iff {p : Prop} [Decidable p] {e : ε} {o : Outcome ε α} :
    (if p then .error e else o) ≠ Outcome.trap ↔ (¬p → o ≠ .trap) := by
  refine ⟨fun h hp => ?_, ite_error_ne_trap⟩
  rwa [if_neg hp] at h

/-- `if (c) return error.e;` passed, so the condition did not hold. -/
theorem ite_error_eq_ok {p : Prop} [Decidable p] {e : ε} {o : Outcome ε α} {a : α}
    (h : (if p then .error e else o) = Outcome.ok a) : ¬p ∧ o = .ok a := by
  by_cases hp : p
  · rw [if_pos hp] at h
    cases h
  · rw [if_neg hp] at h
    exact ⟨hp, h⟩

theorem bind_eq_ok_iff {o : Outcome ε α} {f : α → Outcome ε β} {b : β} :
    (o >>= f) = .ok b ↔ ∃ a, o = .ok a ∧ f a = .ok b := by
  refine ⟨bind_eq_ok, ?_⟩
  rintro ⟨a, rfl, h⟩
  exact h

theorem ite_error_eq_ok_iff {p : Prop} [Decidable p] {e : ε} {o : Outcome ε α} {a : α} :
    (if p then .error e else o) = Outcome.ok a ↔ ¬p ∧ o = .ok a := by
  refine ⟨ite_error_eq_ok, ?_⟩
  rintro ⟨hp, h⟩
  rw [if_neg hp, h]

/-- The computation does not trap, and the value it returns, if any, is in `Q`. -/
def Ensures (o : Outcome ε α) (Q : α → Prop) : Prop := o ≠ .trap ∧ ∀ a, o = .ok a → Q a

section Ensures

variable {o : Outcome ε α} {Q : α → Prop}

theorem Ensures.ok {a : α} (h : Q a) : (Outcome.ok a : Outcome ε α).Ensures Q := by
  refine ⟨by nofun, fun b hb => ?_⟩
  cases hb
  exact h

theorem Ensures.error (e : ε) : (Outcome.error e : Outcome ε α).Ensures Q := ⟨by nofun, by nofun⟩

theorem Ensures.bind {f : α → Outcome ε β} {R : β → Prop} (h : o.Ensures Q) (hf : ∀ a, Q a → (f a).Ensures R) :
    (o >>= f).Ensures R := by
  refine ⟨bind_ne_trap h.1 fun a ha => (hf a (h.2 a ha)).1, fun b hb => ?_⟩
  obtain ⟨a, ha, hb⟩ := bind_eq_ok hb
  exact (hf a (h.2 a ha)).2 b hb

theorem Ensures.mono {R : α → Prop} (h : o.Ensures Q) (hQ : ∀ a, Q a → R a) : o.Ensures R :=
  ⟨h.1, fun a ha => hQ a (h.2 a ha)⟩

/-- `if (c) return error.e;` before the rest of the body. -/
theorem Ensures.guard {p : Prop} [Decidable p] {e : ε} (h : ¬p → o.Ensures Q) : (if p then .error e else o).Ensures Q := by
  by_cases hp : p
  · rw [if_pos hp]
    exact .error e
  · rw [if_neg hp]
    exact h hp

end Ensures

/-- `a catch return error.e'`. -/
def mapError {ε' : Type} (o : Outcome ε α) (f : ε → ε') : Outcome ε' α :=
  match o with
  | .ok a => .ok a
  | .error e => .error (f e)
  | .trap => .trap

@[simp] theorem mapError_eq_ok {ε' : Type} {o : Outcome ε α} {f : ε → ε'} {a : α} :
    o.mapError f = .ok a ↔ o = .ok a := by
  cases o <;> simp [mapError]

theorem Ensures.mapError {ε' : Type} {o : Outcome ε α} {Q : α → Prop} (h : o.Ensures Q) (f : ε → ε') :
    (o.mapError f).Ensures Q := by
  cases o with
  | ok a => exact .ok (h.2 a rfl)
  | error e => exact .error _
  | trap => exact absurd rfl h.1

end Outcome

/-- A call on mutable state of type `σ`. -/
def Act (σ ε α : Type) : Type := σ → Outcome ε α × σ

namespace Act

variable {σ τ ε α β : Type}

def bind (m : Act σ ε α) (f : α → Act σ ε β) : Act σ ε β := fun s =>
  match m s with
  | (.ok a, t) => f a t
  | (.error e, t) => (.error e, t)
  | (.trap, t) => (.trap, t)

instance : Monad (Act σ ε) where
  pure a := fun s => (.ok a, s)
  bind := bind

def get : Act σ ε σ := fun s => (.ok s, s)
def modify (f : σ → σ) : Act σ ε Unit := fun s => (.ok (), f s)
def fail (e : ε) : Act σ ε α := fun s => (.error e, s)

/-- A call that touches no state. -/
def lift (o : Outcome ε α) : Act σ ε α := fun s => (o, s)

/-- `errdefer cleanup;` in front of `m`. -/
def errdefer (cleanup : σ → σ) (m : Act σ ε α) : Act σ ε α := fun s =>
  match m s with
  | (.error e, t) => (.error e, cleanup t)
  | r => r

/-- `m catch |e| f(e)`. -/
def catchError {ε' : Type} (m : Act σ ε α) (f : ε → Act σ ε' α) : Act σ ε' α := fun s =>
  match m s with
  | (.ok a, t) => (.ok a, t)
  | (.error e, t) => f e t
  | (.trap, t) => (.trap, t)

/-- `m catch return error.e'` -/
def orFail {ε' : Type} (m : Act σ ε α) (e' : ε') : Act σ ε' α := m.catchError fun _ => fail e'

/-- Runs a call on a part of the state, reached through a pointer. -/
def zoom (read : σ → τ) (write : τ → σ → σ) (m : Act τ ε α) : Act σ ε α := fun s =>
  ((m (read s)).1, write (m (read s)).2 s)

section Equations

variable (s : σ)

@[simp] theorem pure_run (a : α) : (pure a : Act σ ε α) s = (.ok a, s) := rfl
@[simp] theorem get_run : (get : Act σ ε σ) s = (.ok s, s) := rfl
@[simp] theorem modify_run (f : σ → σ) : (modify f : Act σ ε Unit) s = (.ok (), f s) := rfl
@[simp] theorem fail_run (e : ε) : (fail e : Act σ ε α) s = (.error e, s) := rfl
@[simp] theorem lift_run (o : Outcome ε α) : (lift o : Act σ ε α) s = (o, s) := rfl

theorem bind_run (m : Act σ ε α) (f : α → Act σ ε β) :
    (m >>= f) s = match m s with
      | (.ok a, t) => f a t
      | (.error e, t) => (.error e, t)
      | (.trap, t) => (.trap, t) := rfl

@[simp] theorem pure_bind_run (a : α) (f : α → Act σ ε β) : ((pure a : Act σ ε α) >>= f) s = f a s := rfl
@[simp] theorem get_bind_run (f : σ → Act σ ε β) : ((get : Act σ ε σ) >>= f) s = f s s := rfl
@[simp] theorem modify_bind_run (g : σ → σ) (f : Unit → Act σ ε β) :
    ((modify g : Act σ ε Unit) >>= f) s = f () (g s) := rfl
@[simp] theorem fail_bind_run (e : ε) (f : α → Act σ ε β) :
    ((fail e : Act σ ε α) >>= f) s = (.error e, s) := rfl

@[simp] theorem lift_ok_bind_run (a : α) (f : α → Act σ ε β) :
    ((lift (.ok a) : Act σ ε α) >>= f) s = f a s := rfl
@[simp] theorem lift_error_bind_run (e : ε) (f : α → Act σ ε β) :
    ((lift (.error e) : Act σ ε α) >>= f) s = (.error e, s) := rfl
@[simp] theorem lift_trap_bind_run (f : α → Act σ ε β) : ((lift .trap : Act σ ε α) >>= f) s = (.trap, s) := rfl

theorem bind_ok_run {m : Act σ ε α} {f : α → Act σ ε β} {s t : σ} {a : α} (h : m s = (.ok a, t)) :
    (m >>= f) s = f a t := by
  rw [bind_run, h]

theorem bind_error_run {m : Act σ ε α} {f : α → Act σ ε β} {s t : σ} {e : ε} (h : m s = (.error e, t)) :
    (m >>= f) s = (.error e, t) := by
  rw [bind_run, h]

theorem bind_trap_run {m : Act σ ε α} {f : α → Act σ ε β} {s t : σ} (h : m s = (.trap, t)) :
    (m >>= f) s = (.trap, t) := by
  rw [bind_run, h]

/-- An action that returns has passed through both of its parts. -/
theorem bind_run_eq_ok {m : Act σ ε α} {f : α → Act σ ε β} {s t : σ} {b : β} (h : (m >>= f) s = (.ok b, t)) :
    ∃ a s', m s = (.ok a, s') ∧ f a s' = (.ok b, t) := by
  rw [bind_run] at h
  rcases hrun : m s with ⟨a | e | _, s'⟩ <;> rw [hrun] at h
  · exact ⟨a, s', rfl, h⟩
  · cases h
  · cases h

theorem lift_bind_run_eq_ok {o : Outcome ε α} {f : α → Act σ ε β} {s t : σ} {b : β}
    (h : ((lift o : Act σ ε α) >>= f) s = (.ok b, t)) : ∃ a, o = .ok a ∧ f a s = (.ok b, t) := by
  obtain ⟨a, s', hlift, hrest⟩ := bind_run_eq_ok h
  obtain ⟨ho, rfl⟩ := Prod.mk.inj hlift
  exact ⟨a, ho, hrest⟩

/-- `if (p) m;` in front of `k`. -/
theorem if_bind_run {p : Prop} [Decidable p] {m : Act σ ε Unit} {k : Act σ ε α} {s t : σ}
    (h : p → m s = (.ok (), t)) (h' : ¬p → s = t) : (if p then m >>= fun _ => k else k) s = k t := by
  by_cases hp : p
  · rw [if_pos hp, bind_ok_run (h hp)]
  · rw [if_neg hp, h' hp]

/-- Wrapping the value does not change how the call fails. -/
theorem bind_pure_eq_error {m : Act σ ε α} {f : α → β} {e : ε} {s : σ} :
    ((m >>= fun a => (pure (f a) : Act σ ε β)) s).1 = .error e ↔ (m s).1 = .error e := by
  rw [bind_run]
  rcases m s with ⟨a | e' | _, t⟩
  · exact iff_of_false (by nofun) (by nofun)
  · simp only [Outcome.error.injEq]
  · exact iff_of_false (by nofun) (by nofun)

/-- Wrapping the value does not touch the state. -/
theorem bind_pure_state (m : Act σ ε α) (f : α → β) (s : σ) :
    ((m >>= fun a => (pure (f a) : Act σ ε β)) s).2 = (m s).2 := by
  rw [bind_run]
  rcases m s with ⟨a | e | _, t⟩ <;> rfl

/-- A trap ends the whole call. -/
theorem bind_traps {m : Act σ ε α} {f : α → Act σ ε β} {s : σ} (h : (m s).1 = .trap) :
    ((m >>= f) s).1 = .trap := by
  rw [bind_trap_run (Prod.ext h rfl : m s = (.trap, (m s).2))]

theorem errdefer_traps {c : σ → σ} {m : Act σ ε α} {s : σ} (h : (m s).1 = .trap) :
    (errdefer c m s).1 = .trap := by
  rw [errdefer, (Prod.ext h rfl : m s = (.trap, (m s).2))]

theorem errdefer_ok_run {c : σ → σ} {m : Act σ ε α} {s t : σ} {a : α} (h : m s = (.ok a, t)) :
    errdefer c m s = (.ok a, t) := by
  rw [errdefer, h]

theorem errdefer_error_run {c : σ → σ} {m : Act σ ε α} {s t : σ} {e : ε} (h : m s = (.error e, t)) :
    errdefer c m s = (.error e, c t) := by
  rw [errdefer, h]

end Equations

/-! ### What a call ensures

`Ensures m s Q E T`: started in `s`, the call ends with a value and a state in `Q`, with an error and
a state in `E`, or traps, and the last only if `T` holds (`True` where traps are left aside, `False`
where their absence is part of the statement). -/

def Ensures (m : Act σ ε α) (s : σ) (Q : α → σ → Prop) (E : ε → σ → Prop) (T : Prop) : Prop :=
  match m s with
  | (.ok a, t) => Q a t
  | (.error e, t) => E e t
  | (.trap, _) => T

section Rules

variable {m : Act σ ε α} {s : σ} {Q Q' : α → σ → Prop} {E E' : ε → σ → Prop} {T T' : Prop}

theorem Ensures.of_ok (h : Ensures m s Q E T) {a : α} {t : σ} (hrun : m s = (.ok a, t)) : Q a t := by
  rw [Ensures, hrun] at h
  exact h

theorem Ensures.of_error (h : Ensures m s Q E T) {e : ε} {t : σ} (hrun : m s = (.error e, t)) : E e t := by
  rw [Ensures, hrun] at h
  exact h

theorem Ensures.of_trap (h : Ensures m s Q E T) {t : σ} (hrun : m s = (.trap, t)) : T := by
  rw [Ensures, hrun] at h
  exact h

theorem Ensures.intro (hok : ∀ a t, m s = (.ok a, t) → Q a t) (herror : ∀ e t, m s = (.error e, t) → E e t)
    (htrap : ∀ t, m s = (.trap, t) → T) : Ensures m s Q E T := by
  rw [Ensures]
  split
  next a t h => exact hok a t h
  next e t h => exact herror e t h
  next t h => exact htrap t h

theorem Ensures.mono (h : Ensures m s Q E T) (hQ : ∀ a t, Q a t → Q' a t) (hE : ∀ e t, E e t → E' e t)
    (hT : T → T') : Ensures m s Q' E' T' := by
  rw [Ensures] at h ⊢
  split at h
  · exact hQ _ _ h
  · exact hE _ _ h
  · exact hT h

/-- Two results about one call. -/
theorem Ensures.and (h : Ensures m s Q E T) (h' : Ensures m s Q' E' T') :
    Ensures m s (fun a t => Q a t ∧ Q' a t) (fun e t => E e t ∧ E' e t) (T ∧ T') :=
  Ensures.intro (fun _ _ hrun => ⟨h.of_ok hrun, h'.of_ok hrun⟩) (fun _ _ hrun => ⟨h.of_error hrun, h'.of_error hrun⟩)
    fun _ hrun => ⟨h.of_trap hrun, h'.of_trap hrun⟩

theorem Ensures.any : Ensures m s (fun _ _ => True) (fun _ _ => True) True :=
  Ensures.intro (fun _ _ _ => True.intro) (fun _ _ _ => True.intro) fun _ _ => True.intro

theorem Ensures.bind {f : α → Act σ ε β} {R : β → σ → Prop} (h : Ensures m s Q E T)
    (hf : ∀ a t, Q a t → Ensures (f a) t R E T) : Ensures (m >>= f) s R E T := by
  rw [Ensures] at h
  split at h
  next a t hm =>
    rw [Ensures, bind_ok_run hm]
    exact hf a t h
  next e t hm =>
    rw [Ensures, bind_error_run hm]
    exact h
  next t hm =>
    rw [Ensures, bind_trap_run hm]
    exact h

theorem Ensures.pure {a : α} (h : Q a s) : Ensures (Pure.pure a : Act σ ε α) s Q E T := h
theorem Ensures.fail {e : ε} (h : E e s) : Ensures (Act.fail e : Act σ ε α) s Q E T := h
theorem Ensures.modify {f : σ → σ} {Q : Unit → σ → Prop} (h : Q () (f s)) :
    Ensures (Act.modify f : Act σ ε Unit) s Q E T := h

theorem Ensures.get_bind {f : σ → Act σ ε β} {R : β → σ → Prop} (h : Ensures (f s) s R E T) :
    Ensures (Act.get >>= f) s R E T := h

theorem Ensures.modify_bind {g : σ → σ} {f : Unit → Act σ ε β} {R : β → σ → Prop}
    (h : Ensures (f ()) (g s) R E T) : Ensures (Act.modify g >>= f) s R E T := h

theorem Ensures.ite {p : Prop} [Decidable p] {m' : Act σ ε α} (h : p → Ensures m s Q E T)
    (h' : ¬p → Ensures m' s Q E T) : Ensures (if p then m else m') s Q E T := by
  by_cases hp : p
  · rw [if_pos hp]
    exact h hp
  · rw [if_neg hp]
    exact h' hp

/-- `if (c) return error.e;` before the rest of the body. -/
theorem Ensures.guard {p : Prop} [Decidable p] {e : ε} {m' : Act σ ε α} (herror : p → E e s)
    (h : ¬p → Ensures m' s Q E T) : Ensures (if p then Act.fail e else m') s Q E T :=
  Ensures.ite (fun hp => Ensures.fail (herror hp)) h

theorem Ensures.orFail {ε' : Type} {e' : ε'} {E' : ε' → σ → Prop} (h : Ensures m s Q E T)
    (hE : ∀ e t, E e t → E' e' t) : Ensures (m.orFail e') s Q E' T := by
  rw [Ensures] at h
  split at h
  next a t hm =>
    rw [Ensures, Act.orFail, catchError, hm]
    exact h
  next e t hm =>
    rw [Ensures, Act.orFail, catchError, hm]
    exact hE e t h
  next t hm =>
    rw [Ensures, Act.orFail, catchError, hm]
    exact h

/-- A call that only inspects its arguments keeps the state. -/
theorem Ensures.lift {o : Outcome ε α} (hok : ∀ a, o = .ok a → Q a s) (herror : ∀ e, o = .error e → E e s)
    (htrap : o = .trap → T) : Ensures (Act.lift o : Act σ ε α) s Q E T := by
  cases o with
  | ok a => exact hok a rfl
  | error e => exact herror e rfl
  | trap => exact htrap rfl

theorem Ensures.catchError {ε' : Type} {f : ε → Act σ ε' α} {E' : ε' → σ → Prop} (h : Ensures m s Q E T)
    (hf : ∀ e t, E e t → Ensures (f e) t Q E' T) : Ensures (m.catchError f) s Q E' T := by
  rw [Ensures] at h
  split at h
  next a t hm =>
    rw [Ensures, Act.catchError, hm]
    exact h
  next e t hm =>
    have hcatch : m.catchError f s = f e t := by
      rw [Act.catchError, hm]
    rw [Ensures, hcatch]
    exact hf e t h
  next t hm =>
    rw [Ensures, Act.catchError, hm]
    exact h

end Rules

/-! ### What a call keeps

`Keeps I m`: from a state in `I` the call ends in a state in `I`, with a value or with an error, and does
not trap. -/

def Keeps (I : σ → Prop) (m : Act σ ε α) : Prop := ∀ s, I s → Ensures m s (fun _ => I) (fun _ => I) False

section Invariants

variable {I : σ → Prop} {m : Act σ ε α}

theorem Keeps.pure (a : α) : Keeps I (Pure.pure a : Act σ ε α) := fun _ h => h
theorem Keeps.fail (e : ε) : Keeps I (Act.fail e : Act σ ε α) := fun _ h => h

theorem Keeps.modify {f : σ → σ} (hf : ∀ s, I s → I (f s)) : Keeps I (Act.modify f : Act σ ε Unit) := hf

theorem Keeps.bind {f : α → Act σ ε β} (h : Keeps I m) (hf : ∀ a, Keeps I (f a)) : Keeps I (m >>= f) :=
  fun s hs => (h s hs).bind fun a t ht => hf a t ht

theorem Keeps.get_bind {f : σ → Act σ ε β} (hf : ∀ s, Keeps I (f s)) : Keeps I (Act.get >>= f) := fun s => hf s s

theorem Keeps.ite {p : Prop} [Decidable p] {m' : Act σ ε α} (h : p → Keeps I m) (h' : ¬p → Keeps I m') :
    Keeps I (if p then m else m') := by
  by_cases hp : p
  · rw [if_pos hp]
    exact h hp
  · rw [if_neg hp]
    exact h' hp

theorem Keeps.guard {p : Prop} [Decidable p] {e : ε} (h : ¬p → Keeps I m) :
    Keeps I (if p then Act.fail e else m) := Keeps.ite (fun _ => Keeps.fail e) h

theorem Keeps.lift {o : Outcome ε α} (h : o ≠ .trap) : Keeps I (Act.lift o : Act σ ε α) := by
  intro s hs
  cases o with
  | ok a => exact hs
  | error e => exact hs
  | trap => exact absurd rfl h

theorem Keeps.catchError {ε' : Type} {f : ε → Act σ ε' α} (h : Keeps I m) (hf : ∀ e, Keeps I (f e)) :
    Keeps I (m.catchError f) := fun s hs => (h s hs).catchError fun e t ht => hf e t ht

end Invariants

/-! ### What a call leaves alone

`Fixes f m`: however the call ends, even at a trap, the part `f` of the state is what it was. -/

def Fixes {ρ : Type} (f : σ → ρ) (m : Act σ ε α) : Prop := ∀ s, f (m s).2 = f s

section Frame

variable {ρ : Type} {f : σ → ρ} {m : Act σ ε α}

theorem Fixes.run (h : Fixes f m) {s t : σ} {o : Outcome ε α} (hrun : m s = (o, t)) : f t = f s := by
  have hs := h s
  rwa [hrun] at hs

theorem Fixes.pure (a : α) : Fixes f (Pure.pure a : Act σ ε α) := fun _ => rfl
theorem Fixes.fail (e : ε) : Fixes f (Act.fail e : Act σ ε α) := fun _ => rfl
theorem Fixes.get : Fixes f (Act.get : Act σ ε σ) := fun _ => rfl
theorem Fixes.lift (o : Outcome ε α) : Fixes f (Act.lift o : Act σ ε α) := fun _ => rfl
theorem Fixes.modify {g : σ → σ} (h : ∀ s, f (g s) = f s) : Fixes f (Act.modify g : Act σ ε Unit) := h

theorem Fixes.bind {k : α → Act σ ε β} (h : Fixes f m) (hk : ∀ a, Fixes f (k a)) : Fixes f (m >>= k) := by
  intro s
  have hm := h s
  rw [bind_run]
  revert hm
  rcases m s with ⟨a | e | _, t⟩ <;> intro hm
  · exact (hk a t).trans hm
  · exact hm
  · exact hm

theorem Fixes.modify_bind {g : σ → σ} {k : Unit → Act σ ε β} (h : ∀ s, f (g s) = f s) (hk : ∀ a, Fixes f (k a)) :
    Fixes f (Act.modify g >>= k) := (Fixes.modify h).bind hk

theorem Fixes.ite {p : Prop} [Decidable p] {m' : Act σ ε α} (h : Fixes f m) (h' : Fixes f m') :
    Fixes f (if p then m else m') := by
  by_cases hp : p
  · rwa [if_pos hp]
  · rwa [if_neg hp]

/-- `if (c) return error.e;` before the rest of the body. -/
theorem Fixes.guard {p : Prop} [Decidable p] {e : ε} (h : Fixes f m) : Fixes f (if p then Act.fail e else m) :=
  Fixes.ite (Fixes.fail e) h

theorem Fixes.catchError {ε' : Type} {k : ε → Act σ ε' α} (h : Fixes f m) (hk : ∀ e, Fixes f (k e)) :
    Fixes f (m.catchError k) := by
  intro s
  have hm := h s
  rw [Act.catchError]
  revert hm
  rcases m s with ⟨a | e | _, t⟩ <;> intro hm
  · exact hm
  · exact (hk e t).trans hm
  · exact hm

theorem Fixes.orFail {ε' : Type} {e' : ε'} (h : Fixes f m) : Fixes f (m.orFail e') :=
  h.catchError fun _ => Fixes.fail e'

theorem Fixes.errdefer {cleanup : σ → σ} (hcleanup : ∀ s, f (cleanup s) = f s) (h : Fixes f m) :
    Fixes f (Act.errdefer cleanup m) := by
  intro s
  have hm := h s
  rw [Act.errdefer]
  revert hm
  rcases m s with ⟨a | e | _, t⟩ <;> intro hm
  · exact hm
  · exact (hcleanup t).trans hm
  · exact hm

/-- A call on a part of the state leaves alone what its writes do not reach. -/
theorem Fixes.zoom {m : Act τ ε α} {read : σ → τ} {write : τ → σ → σ} (h : ∀ s, f (write (m (read s)).2 s) = f s) :
    Fixes f (Act.zoom read write m) := h

end Frame

/-! ### What a call keeps however it ends -/

def Stable (I : σ → Prop) (m : Act σ ε α) : Prop := ∀ s, I s → I (m s).2

section Stable

variable {I : σ → Prop} {m : Act σ ε α}

theorem Stable.run (h : Stable I m) {s t : σ} {o : Outcome ε α} (hrun : m s = (o, t)) (hs : I s) : I t := by
  have ht := h s hs
  rwa [hrun] at ht

theorem Stable.pure (a : α) : Stable I (Pure.pure a : Act σ ε α) := fun _ h => h
theorem Stable.fail (e : ε) : Stable I (Act.fail e : Act σ ε α) := fun _ h => h
theorem Stable.get : Stable I (Act.get : Act σ ε σ) := fun _ h => h
theorem Stable.lift (o : Outcome ε α) : Stable I (Act.lift o : Act σ ε α) := fun _ h => h
theorem Stable.modify {g : σ → σ} (h : ∀ s, I s → I (g s)) : Stable I (Act.modify g : Act σ ε Unit) := h

theorem Stable.bind {k : α → Act σ ε β} (h : Stable I m) (hk : ∀ a, Stable I (k a)) : Stable I (m >>= k) := by
  intro s hs
  have hm := h s hs
  rw [bind_run]
  revert hm
  rcases m s with ⟨a | e | _, t⟩ <;> intro hm
  · exact hk a t hm
  · exact hm
  · exact hm

theorem Stable.modify_bind {g : σ → σ} {k : Unit → Act σ ε β} (h : ∀ s, I s → I (g s)) (hk : ∀ a, Stable I (k a)) :
    Stable I (Act.modify g >>= k) := (Stable.modify h).bind hk

theorem Stable.ite {p : Prop} [Decidable p] {m' : Act σ ε α} (h : Stable I m) (h' : Stable I m') :
    Stable I (if p then m else m') := by
  by_cases hp : p
  · rwa [if_pos hp]
  · rwa [if_neg hp]

/-- What depends only on a part that is left alone. -/
theorem Stable.of_fixes {ρ : Type} {f : σ → ρ} (h : Fixes f m) (hI : ∀ s t, f t = f s → I s → I t) : Stable I m :=
  fun s hs => hI s _ (h s) hs

end Stable

end Act

end Zig
