import ZigKernel.HelperTransport

/-! What the pieces of `OwnedHelperTransport` do to the requests. No part but the dispatch of a frame fulfils a reply;
what is settled stays settled; and the slot holds a request of the session whose reply is open. -/

namespace Helper.Transport

variable {V : Type}

/-! ### One request -/

/-- Later in a run. -/
structure Request.Later (r r' : Request V) : Prop where
  session : r'.session = r.session
  seq : r'.seq = r.seq
  reply : ∀ x, r.reply = some x → r'.reply = some x
  race : ∀ x, r.race = some x → r'.race = some x
  outcome : ∀ x, r.outcome = some x → r'.outcome = some x

/-- Only the deferred objects of the reply and of the cancel have changed, and the reply was not fulfilled. -/
structure Request.Touched (r r' : Request V) : Prop where
  session : r'.session = r.session
  seq : r'.seq = r.seq
  reply : ∀ x, r.reply = some x → r'.reply = some x
  quiet : ∀ v, r'.reply = some (.fulfilled v) → r.reply = some (.fulfilled v)
  race : r'.race = r.race
  outcome : r'.outcome = r.outcome
  joining : r'.joining = r.joining

/-- A value comes through the race from the reply, and who waits for the cleanup has no outcome. -/
structure Request.Linked (r : Request V) : Prop where
  race : ∀ v, r.race = some (.fulfilled v) → r.reply = some (.fulfilled v)
  outcome : ∀ v, r.outcome = some (.fulfilled v) → r.race = some (.fulfilled v)
  joining : r.joining = true → r.outcome = none

section Request

variable {r r' r'' : Request V} {x : Settled V} {code : String}

theorem Request.Later.refl (r : Request V) : r.Later r := ⟨rfl, rfl, fun _ h => h, fun _ h => h, fun _ h => h⟩

theorem Request.Later.trans (h : r.Later r') (h' : r'.Later r'') : r.Later r'' :=
  ⟨h'.session.trans h.session, h'.seq.trans h.seq, fun x hx => h'.reply x (h.reply x hx),
    fun x hx => h'.race x (h.race x hx), fun x hx => h'.outcome x (h.outcome x hx)⟩

theorem Request.Later.id (h : r.Later r') : r'.id = r.id := by rw [Request.id, Request.id, h.seq]

theorem Request.Touched.refl (r : Request V) : r.Touched r := ⟨rfl, rfl, fun _ h => h, fun _ h => h, rfl, rfl, rfl⟩

theorem Request.Touched.trans (h : r.Touched r') (h' : r'.Touched r'') : r.Touched r'' :=
  ⟨h'.session.trans h.session, h'.seq.trans h.seq, fun x hx => h'.reply x (h.reply x hx),
    fun v hv => h.quiet v (h'.quiet v hv), h'.race.trans h.race, h'.outcome.trans h.outcome, h'.joining.trans h.joining⟩

theorem Request.Touched.later (h : r.Touched r') : r.Later r' :=
  ⟨h.session, h.seq, h.reply, fun _ hx => h.race.trans hx, fun _ hx => h.outcome.trans hx⟩

theorem Request.Touched.linked (h : r.Touched r') (hr : r.Linked) : r'.Linked := by
  refine ⟨fun v hv => ?_, fun v hv => ?_, fun hj => ?_⟩
  · rw [h.race] at hv
    exact h.reply _ (hr.race v hv)
  · rw [h.outcome] at hv
    rw [h.race]
    exact hr.outcome v hv
  · rw [h.joining] at hj
    rw [h.outcome]
    exact hr.joining hj

end Request

namespace OwnedHelperTransport

/-- What holds of every transport. -/
structure Sound (s : OwnedHelperTransport V) : Prop where
  pending : ∀ p, s.pending = some p → ∃ r, s.requests[p.request]? = some r ∧ r.id = p.id ∧ r.session = s.session ∧
    r.reply = none
  session : ∀ (i : Nat) (r : Request V), s.requests[i]? = some r →
    r.session ≤ s.session ∧ (r.session = s.session → r.seq ≤ s.seq)
  linked : ∀ (i : Nat) (r : Request V), s.requests[i]? = some r → r.Linked
  increasing : ∀ (i j : Nat) (r r' : Request V), i < j → s.requests[i]? = some r → s.requests[j]? = some r' →
    r.session = r'.session → r.seq < r'.seq

/-- A part that starts no request and fulfils no reply. -/
structure Touches (s s' : OwnedHelperTransport V) : Prop where
  later : ∀ (i : Nat) (r : Request V), s.requests[i]? = some r → ∃ r', s'.requests[i]? = some r' ∧ r.Touched r'
  quiet : ∀ (i : Nat) (r' : Request V), s'.requests[i]? = some r' → ∃ r, s.requests[i]? = some r ∧ r.Touched r'
  sound : s.Sound → s'.Sound

/-- A step that fulfils no reply. -/
structure Advances (s s' : OwnedHelperTransport V) : Prop where
  later : ∀ (i : Nat) (r : Request V), s.requests[i]? = some r → ∃ r', s'.requests[i]? = some r' ∧ r.Later r'
  quiet : ∀ (i : Nat) (r' : Request V) (v : V), s'.requests[i]? = some r' → r'.reply = some (.fulfilled v) →
    ∃ r, s.requests[i]? = some r ∧ r.reply = some (.fulfilled v)
  sound : s.Sound → s'.Sound

variable {s s' s'' : OwnedHelperTransport V} {i j : Nat} {f : Request V → Request V} {code : String}

theorem Touches.trans (h : s.Touches s') (h' : s'.Touches s'') : s.Touches s'' := by
  refine ⟨fun i r hr => ?_, fun i r'' hr => ?_, h'.sound ∘ h.sound⟩
  · obtain ⟨r', hr', htouched⟩ := h.later i r hr
    obtain ⟨r'', hr'', htouched'⟩ := h'.later i r' hr'
    exact ⟨r'', hr'', htouched.trans htouched'⟩
  · obtain ⟨r', hr', htouched'⟩ := h'.quiet i r'' hr
    obtain ⟨r, hr, htouched⟩ := h.quiet i r' hr'
    exact ⟨r, hr, htouched.trans htouched'⟩

theorem Advances.trans (h : s.Advances s') (h' : s'.Advances s'') : s.Advances s'' := by
  refine ⟨fun i r hr => ?_, fun i r'' v hr hv => ?_, h'.sound ∘ h.sound⟩
  · obtain ⟨r', hr', hlater⟩ := h.later i r hr
    obtain ⟨r'', hr'', hlater'⟩ := h'.later i r' hr'
    exact ⟨r'', hr'', hlater.trans hlater'⟩
  · obtain ⟨r', hr', hv'⟩ := h'.quiet i r'' v hr hv
    exact h.quiet i r' v hr' hv'

/-! ### Changes of one field -/

/-- A change of the other fields that keeps the slot, or clears it. -/
theorem touches_fields (hrequests : s'.requests = s.requests) (hsession : s'.session = s.session)
    (hseq : s.seq ≤ s'.seq) (hpending : s'.pending = s.pending ∨ s'.pending = none) : s.Touches s' := by
  refine ⟨fun i r hr => ⟨r, by rwa [hrequests], .refl r⟩, fun i r hr => ⟨r, by rwa [← hrequests], .refl r⟩,
    fun h => ⟨fun p hp => ?_, ?_, ?_, ?_⟩⟩
  · rcases hpending with heq | hnone
    · rw [heq] at hp
      rw [hrequests, hsession]
      exact h.pending p hp
    · rw [hnone] at hp
      cases hp
  · rw [hrequests, hsession]
    exact fun i r hr => ⟨(h.session i r hr).1, fun heq => Nat.le_trans ((h.session i r hr).2 heq) hseq⟩
  · rw [hrequests]
    exact h.linked
  · rw [hrequests]
    exact h.increasing

/-- A change of fields that hold nothing of the requests. -/
theorem touches_beside
    (h : (s'.requests, s'.session, s'.seq, s'.pending) = (s.requests, s.session, s.seq, s.pending)) : s.Touches s' := by
  obtain ⟨hrequests, hsession, hseq, hpending⟩ : s'.requests = s.requests ∧ s'.session = s.session ∧ s'.seq = s.seq ∧
      s'.pending = s.pending := by simpa only [Prod.mk.injEq] using h
  exact touches_fields hrequests hsession (Nat.le_of_eq hseq.symm) (Or.inl hpending)

theorem Touches.refl (s : OwnedHelperTransport V) : s.Touches s := touches_beside rfl

@[simp] theorem rejectPending_pending (s : OwnedHelperTransport V) (code : String) :
    (s.rejectPending code).pending = none := by
  rw [rejectPending]
  cases h : s.pending with
  | none => exact h
  | some p => rfl

end OwnedHelperTransport

end Helper.Transport
