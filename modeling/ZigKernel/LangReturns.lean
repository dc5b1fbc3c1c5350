import ZigKernel.LangInt

/-! When exactly a call returns. `Returns F Q m s`: started in `s`, the call returns if `F` holds, with a value and a
state in `Q`, and traps if `F` does not hold. The rules build `F` along the parts of the call. -/

namespace Zig.Act

variable {σ τ ε α β : Type}

def Returns (F : Prop) (Q : α → σ → Prop) (m : Act σ ε α) (s : σ) : Prop :=
  (F → ∃ a t, m s = (.ok a, t) ∧ Q a t) ∧ (¬F → (m s).1 = .trap)

section Rules

variable {F G : Prop} {Q : α → σ → Prop} {R : β → σ → Prop} {m : Act σ ε α} {s t : σ}

theorem Returns.iff (h : Returns F Q m s) : (∃ a t, m s = (.ok a, t)) ↔ F := by
  constructor
  · rintro ⟨a, t, hrun⟩
    by_contra hF
    have htrap := h.2 hF
    rw [hrun] at htrap
    cases htrap
  · intro hF
    obtain ⟨a, t, hrun, -⟩ := h.1 hF
    exact ⟨a, t, hrun⟩

theorem Returns.post (h : Returns F Q m s) {a : α} (hrun : m s = (.ok a, t)) : Q a t := by
  obtain ⟨a', t', hrun', hQ⟩ := h.1 (h.iff.mp ⟨a, t, hrun⟩)
  rw [hrun] at hrun'
  cases hrun'
  exact hQ

/-- A call that traps has met the condition to trap. -/
theorem Returns.ensures_iff (h : Returns F Q m s) :
    Ensures m s (fun a t => F ∧ Q a t) (fun _ _ => False) ¬F := by
  by_cases hF : F
  · obtain ⟨a, t, hrun, hQ⟩ := h.1 hF
    rw [Ensures, hrun]
    exact ⟨hF, hQ⟩
  · have hrun : m s = (.trap, (m s).2) := Prod.ext (h.2 hF) rfl
    rw [Ensures, hrun]
    exact hF

theorem Returns.congr (h : Returns F Q m s) (hFG : F ↔ G) : Returns G Q m s := by
  rwa [propext hFG] at h

theorem Returns.mono {Q' : α → σ → Prop} (h : Returns F Q m s) (hQ : ∀ a t, Q a t → Q' a t) : Returns F Q' m s := by
  refine ⟨fun hF => ?_, h.2⟩
  obtain ⟨a, t, hrun, hpost⟩ := h.1 hF
  exact ⟨a, t, hrun, hQ a t hpost⟩

theorem Returns.of_run {a : α} (hrun : m s = (.ok a, t)) (h : Q a t) : Returns True Q m s :=
  ⟨fun _ => ⟨a, t, hrun, h⟩, fun hF => absurd True.intro hF⟩

theorem Returns.of_trap (hrun : (m s).1 = .trap) : Returns False Q m s := ⟨False.elim, fun _ => hrun⟩

theorem Returns.pure {a : α} (h : Q a s) : Returns True Q (Pure.pure a : Act σ ε α) s := .of_run rfl h

theorem Returns.bind {f : α → Act σ ε β} (h : Returns F Q m s) (hf : ∀ a t, Q a t → Returns G R (f a) t) :
    Returns (F ∧ G) R (m >>= f) s := by
  by_cases hF : F
  · obtain ⟨a, t, hrun, hpost⟩ := h.1 hF
    refine ⟨fun hFG => ?_, fun hFG => ?_⟩
    · rw [bind_ok_run hrun]
      exact (hf a t hpost).1 hFG.2
    · rw [bind_ok_run hrun]
      exact (hf a t hpost).2 fun hG => hFG ⟨hF, hG⟩
  · exact ⟨fun hFG => absurd hFG.1 hF, fun _ => bind_traps (h.2 hF)⟩

/-- What comes first returns always. -/
theorem Returns.run_bind {f : α → Act σ ε β} {a : α} (hrun : m s = (.ok a, t)) (hf : Returns G R (f a) t) :
    Returns G R (m >>= f) s := by
  rw [Returns, bind_ok_run hrun]
  exact hf

theorem Returns.get_bind {f : σ → Act σ ε β} (h : Returns G R (f s) s) : Returns G R (Act.get >>= f) s := h

theorem Returns.modify_bind {g : σ → σ} {f : Unit → Act σ ε β} (h : Returns G R (f ()) (g s)) :
    Returns G R (Act.modify g >>= f) s := h

theorem Returns.lift_bind {o : Outcome ε α} {f : α → Act σ ε β} (hok : F → ∃ a, o = .ok a ∧ Returns G R (f a) s)
    (htrap : ¬F → o = .trap) : Returns (F ∧ G) R (Act.lift o >>= f) s := by
  by_cases hF : F
  · obtain ⟨a, ho, h⟩ := hok hF
    rw [ho]
    exact ⟨fun hFG => h.1 hFG.2, fun hFG => h.2 fun hG => hFG ⟨hF, hG⟩⟩
  · rw [htrap hF]
    exact ⟨fun hFG => absurd hFG.1 hF, fun _ => rfl⟩

/-- `a + b` in front of a call. -/
theorem Returns.addU64_bind {a b : Nat} {f : Nat → Act σ ε β} (h : a + b < u64Bound → Returns G R (f (a + b)) s) :
    Returns (a + b < u64Bound ∧ G) R (Act.lift (addU64 a b) >>= f) s :=
  .lift_bind (fun hfits => ⟨_, addU64_of_lt hfits, h hfits⟩) fun hover => if_neg hover

theorem Returns.lift {o : Outcome ε α} (hok : F → ∃ a, o = .ok a ∧ Q a s) (htrap : ¬F → o = .trap) :
    Returns F Q (Act.lift o : Act σ ε α) s := by
  refine ⟨fun hF => ?_, htrap⟩
  obtain ⟨a, ho, h⟩ := hok hF
  exact ⟨a, s, congrArg (·, s) ho, h⟩

theorem Returns.ite {p : Prop} [Decidable p] {m' : Act σ ε α} (h : p → Returns F Q m s) (h' : ¬p → Returns G Q m' s) :
    Returns ((p → F) ∧ (¬p → G)) Q (if p then m else m') s := by
  by_cases hp : p
  · rw [if_pos hp]
    exact (h hp).congr ⟨fun hF => ⟨fun _ => hF, fun hn => absurd hp hn⟩, fun hFG => hFG.1 hp⟩
  · rw [if_neg hp]
    exact (h' hp).congr ⟨fun hG => ⟨fun hn => absurd hn hp, fun _ => hG⟩, fun hFG => hFG.2 hp⟩

/-- An early return. -/
theorem Returns.guard {p : Prop} [Decidable p] {m' : Act σ ε α} {a : α} (hrefused : p → Q a s)
    (h : ¬p → Returns F Q m' s) : Returns (p ∨ F) Q (if p then Pure.pure a else m') s :=
  (Returns.ite (fun hp => .pure (hrefused hp)) h).congr (by tauto)

theorem Returns.zoom {m : Act τ ε α} {Q : α → τ → Prop} {read : σ → τ} {write : τ → σ → σ}
    (h : Returns F Q m (read s)) :
    Returns F (fun a t => ∃ u, Q a u ∧ t = write u s) (Act.zoom read write m) s := by
  refine ⟨fun hF => ?_, h.2⟩
  obtain ⟨a, u, hrun, hQ⟩ := h.1 hF
  refine ⟨a, write u s, ?_, u, hQ, rfl⟩
  rw [Act.zoom, hrun]

/-- Where a trap is left aside, a call that traps ensures everything. -/
theorem Ensures.of_traps {E : ε → σ → Prop} (h : (m s).1 = .trap) : Ensures m s Q E True := by
  refine Ensures.intro (fun a t hrun => ?_) (fun e t hrun => ?_) fun _ _ => True.intro
  · rw [hrun] at h
    cases h
  · rw [hrun] at h
    cases h

theorem Ensures.run_bind {f : α → Act σ ε β} {E : ε → σ → Prop} {T : Prop} {a : α} (hrun : m s = (.ok a, t))
    (h : Ensures (f a) t R E T) : Ensures (m >>= f) s R E T := by
  rw [Ensures, bind_ok_run hrun]
  exact h

/-- A call with a known end. -/
theorem run_of_fst {o : Outcome ε α} (h : (m s).1 = o) : m s = (o, (m s).2) := Prod.ext h rfl

/-- A part that only inspects its arguments comes first. -/
theorem Ensures.lift_bind {o : Outcome ε α} {f : α → Act σ ε β} {E : ε → σ → Prop} {T : Prop}
    (hok : ∀ a, o = .ok a → Ensures (f a) s R E T) (herror : ∀ e, o = .error e → E e s) (htrap : o = .trap → T) :
    Ensures (Act.lift o >>= f) s R E T := by
  cases o with
  | ok a => exact hok a rfl
  | error e => exact herror e rfl
  | trap => exact htrap rfl

end Rules

end Zig.Act
