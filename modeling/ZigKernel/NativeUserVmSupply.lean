import ZigKernel.NativeUserVmSpace

/-! Construction over a provider that does not fail. As long as it has frames to hand out, each access of the
core ends with a value, and what it does to the space is known exactly. -/

namespace Native

open Zig

namespace UserVm

variable {ω : Type} {P : Provider ω} {template : KernelTemplate} {own : OwnPages P template} {limit : Nat}
  {m m' m'' : Machine ω}

/-- The provider hands out frames until there are `limit` of them, and gives access to each. -/
structure OwnPages.Supplies (own : OwnPages P template) (limit : Nat) : Prop where
  alloc : ∀ w, own.valid w → (own.handed w).length < limit → ∃ f w', P.allocPage w = (.ok f, w')
  access : ∀ w, own.valid w → ∀ f ∈ own.handed w, ∃ ptr w', P.pageBytes f w = (.ok ptr, w')

/-- The frames handed out after the first `n`. -/
def OwnPages.since (own : OwnPages P template) (n : Nat) : OwnPages P template where
  valid w := own.valid w ∧ n ≤ (own.handed w).length
  handed w := (own.handed w).take ((own.handed w).length - n)
  page := own.page
  alloc w f w' hvalid halloc := by
    obtain ⟨hvalid', hhanded, hfresh, hdomain, hother⟩ := own.alloc w f w' hvalid.1 halloc
    have hlength : (own.handed w').length = (own.handed w).length + 1 := by
      rw [hhanded, List.length_cons]
    refine ⟨⟨hvalid', by have := hvalid.2; omega⟩, ?_, fun hmem => hfresh (List.mem_of_mem_take hmem), hdomain,
      fun g hg => hother g (List.mem_of_mem_take hg)⟩
    rw [hlength, hhanded, Nat.succ_sub hvalid.2, List.take_succ_cons]
  access w f ptr w' hvalid hf haccess := by
    obtain ⟨hvalid', hhanded, hpage, hload, hstore⟩ := own.access w f ptr w' hvalid.1 (List.mem_of_mem_take hf) haccess
    refine ⟨⟨hvalid', hhanded ▸ hvalid.2⟩, by rw [hhanded], fun g hg => hpage g (List.mem_of_mem_take hg), hload,
      fun bytes => ?_⟩
    obtain ⟨hvalid'', hhanded', hpage'⟩ := hstore bytes
    exact ⟨⟨hvalid'', hhanded' ▸ hvalid.2⟩, by rw [hhanded'], fun g hg => hpage' g (List.mem_of_mem_take hg)⟩

theorem OwnPages.Supplies.since (h : own.Supplies limit) {n left : Nat} (hleft : n + left ≤ limit) :
    (own.since n).Supplies left where
  alloc w hvalid hroom := by
    refine h.alloc w hvalid.1 ?_
    have hsince : ((own.handed w).take ((own.handed w).length - n)).length < left := hroom
    rw [List.length_take] at hsince
    omega
  access w hvalid f hf := h.access w hvalid.1 f (List.mem_of_mem_take hf)

/-- The call returns, and its value and state are in `Q`. -/
abbrev Yields {α : Type} (call : Vm ω α) (m : Machine ω) (Q : α → Machine ω → Prop) : Prop :=
  Act.Ensures call m Q (fun _ _ => False) False

section Rules

variable {α : Type} {call : Vm ω α} {Q R : α → Machine ω → Prop}

theorem Yields.mono (h : Yields call m Q) (hQ : ∀ a t, Q a t → R a t) : Yields call m R :=
  Act.Ensures.mono h hQ (fun _ _ h => h) id

/-- What holds of every call that returns holds of this one. -/
theorem Yields.and_returns (h : Yields call m Q) (hR : Returns call m R) :
    Yields call m fun a m' => Q a m' ∧ R a m' :=
  (h.and hR).mono (fun _ _ h => h) (fun _ _ h => h.1) And.left

theorem Yields.guard {p : Prop} [Decidable p] {e : Error} (hp : ¬p) (h : Yields call m Q) :
    Yields (if p then Act.fail e else call) m Q := Act.Ensures.guard (fun h => absurd h hp) fun _ => h

theorem Yields.run {call : Vm ω α} (h : Yields call m Q) : ∃ a m', call m = (.ok a, m') ∧ Q a m' := by
  rw [Yields, Act.Ensures] at h
  split at h
  next a t hrun => exact ⟨a, t, hrun, h⟩
  next => exact h.elim
  next => exact h.elim

end Rules

/-! ### Access -/

section Access

variable (hsupply : own.Supplies limit) (hvalid : own.valid m.world) {f : Nat} (hf : f ∈ own.handed m.world)

include hsupply hvalid hf

theorem pageBytes_yields {α : Type} {e : Error} {k : Nat → Vm ω α} {Q : α → Machine ω → Prop}
    (hk : ∀ ptr w', Yields (k ptr) { m with world := w' } Q) :
    Yields (pageBytes P f >>= fun reply => match reply with
      | .error _ => Act.fail e
      | .ok ptr => k ptr) m Q := by
  obtain ⟨ptr, w', hreply⟩ := hsupply.access _ hvalid f hf
  rw [Yields, Act.Ensures, pageBytes_bind_run, hreply]
  exact hk ptr w'

theorem writeRaw_yields {i v : Nat} (hi : i < 512) :
    Yields (writeRaw P f i v) m fun _ m' =>
      m'.space = m.space ∧ Edited own m f (storeU64 (own.page m.world f) i v) m' := by
  refine Yields.and_returns ?_ (writeRaw_returns hvalid hf)
  exact Yields.guard (Nat.not_le.mpr hi) (pageBytes_yields hsupply hvalid hf fun _ _ => rfl)

theorem readEntry_yields {i : Nat} (hi : i < 512) :
    Yields (readEntry P f i) m fun v m' =>
      m'.space = m.space ∧ v = loadU64 (own.page m.world f) i ∧ Edited own m f (own.page m.world f) m' := by
  refine Yields.and_returns ?_ (readEntry_returns hvalid hf)
  exact Yields.guard (Nat.not_le.mpr hi) (pageBytes_yields hsupply hvalid hf fun _ _ => rfl)

end Access

/-! ### Entries -/

theorem and_two_pow_eq_zero {n i : Nat} (h : n.testBit i = false) : n &&& 2 ^ i = 0 := by
  refine Nat.eq_of_testBit_eq fun j => ?_
  rw [Nat.testBit_and, Nat.testBit_two_pow, Nat.zero_testBit]
  by_cases hij : i = j
  · rw [← hij, h, Bool.false_and]
  · rw [decide_eq_false hij, Bool.and_false]

/-- Flags that `writeNew` accepts. -/
structure KnownFlags (flags : Nat) : Prop where
  small : flags &&& ptePs = 0
  local_ : flags &&& pteG = 0
  known : flags &&& notU64 pteKnown = 0

theorem tableFlags_known : KnownFlags tableFlags := by
  constructor <;> decide

theorem stackFlags_known : KnownFlags (pteP ||| pteU ||| pteW ||| pteNx) := by
  constructor <;> decide

theorem leafFlags_known (elfFlags : Nat) : KnownFlags (leafFlags elfFlags) := by
  unfold leafFlags
  split_ifs <;> constructor <;> decide

/-- A frame of the domain has no bit that an entry reserves. -/
theorem frame_known {f : Nat} (haligned : f % page = 0) (htop : f < physTop) : f &&& notU64 pteKnown = 0 := by
  have hframe : Paging.Frame f := ⟨haligned, Nat.lt_trans htop (by decide)⟩
  have hlow : f &&& (2 ^ 28 - 1) = f := Nat.and_two_pow_sub_one_of_lt_two_pow htop
  have hmask : (2 ^ 28 - 1) &&& notU64 pteKnown = 0xe18 := by decide
  rw [← hlow, Nat.and_assoc, hmask]
  exact hframe.and_low (by decide)

theorem writeNew_yields (hsupply : own.Supplies limit) (hvalid : own.valid m.world) {table i frame flags : Nat}
    (htable : table ∈ own.handed m.world) (hi : i < 512)
    (hdomain : frame ≠ 0 ∧ frame % page = 0 ∧ frame < physTop) (hflags : KnownFlags flags) :
    Yields (writeNew P table i frame flags) m fun _ m' => m'.space = m.space ∧
      Edited own m table (storeU64 (own.page m.world table) i (frame ||| flags)) m' := by
  have hknown : (frame ||| flags) &&& notU64 pteKnown = 0 := by
    rw [Nat.and_or_distrib_right, frame_known hdomain.2.1 hdomain.2.2, hflags.known, Nat.or_zero]
  refine Yields.guard hdomain.1 (Yields.guard (not_not.mpr hdomain.2.1) (Yields.guard (Nat.not_le.mpr hdomain.2.2) ?_))
  refine Yields.guard (not_not.mpr hflags.small) (Yields.guard (not_not.mpr hflags.local_) ?_)
  exact Yields.guard (not_not.mpr hknown) (writeRaw_yields hsupply hvalid htable hi)

/-! ### Frames and their content -/

/-- The next frame is new to the journal, so nothing refuses it. -/
theorem takeFrame_yields (hsupply : own.Supplies limit) (hvalid : own.valid m.world)
    (hroom : (own.handed m.world).length < limit) (hslots : m.space.journal.count < m.space.journal.frames.length)
    (hbudget : m.space.journal.count < maxOwnedFrames) (hlive : ∀ f ∈ m.space.journal.live, f ∈ own.handed m.world) :
    Yields (takeFrame P template) m fun f m' =>
      m'.space = { m.space with journal := m.space.journal.push f } ∧ Took own m f zeroPage m' := by
  refine Yields.and_returns ?_ (takeFrame_returns hvalid)
  refine Act.Ensures.get_bind (Yields.guard (Nat.not_le.mpr hslots) (Yields.guard (Nat.not_le.mpr hbudget) ?_))
  obtain ⟨f, w, hreply⟩ := hsupply.alloc _ hvalid hroom
  obtain ⟨hvalid', hhanded, hfresh, ⟨hzero, haligned, htop, hroot, hpd⟩, -⟩ := own.alloc _ _ _ hvalid hreply
  rw [Yields, Act.Ensures, allocPage_bind_run, hreply]
  have hnew : ¬m.space.journal.contains f = true := fun hmem => hfresh (hlive f (List.contains_iff_mem.mp hmem))
  have haccept : Yields (acceptFrame template f) { m with world := w } fun _ m' =>
      m'.world = w ∧ m'.space = { m.space with journal := m.space.journal.push f } := by
    refine Act.Ensures.get_bind (Act.Ensures.ite (fun h => absurd h hzero) fun _ => ?_)
    refine Yields.guard (not_not.mpr haligned) (Yields.guard (Nat.not_le.mpr htop) (Yields.guard hnew ?_))
    refine Yields.guard (fun h => h.elim hroot hpd) ?_
    exact ⟨rfl, rfl⟩
  refine haccept.bind fun _ t ht => ?_
  obtain ⟨rfl, hspace⟩ := ht
  exact pageBytes_yields hsupply hvalid' (mem_cons_of_handed hhanded).1 fun _ _ => hspace

theorem copyFileBytes_yields (hsupply : own.Supplies limit) {m₁ : Machine ω} {f va : Nat} {file : List UInt8}
    {seg : UserElf.Segment} (hfile : file.length < u64Bound) (hrange : seg.fileOff + seg.filesz ≤ file.length)
    (h : Took own m f zeroPage m₁) :
    Yields (copyFileBytes P f file seg va) m₁ fun _ m' =>
      m'.space = m₁.space ∧ Took own m f (segmentPage file seg va) m' := by
  refine Yields.and_returns ?_ (copyFileBytes_took h)
  refine Act.Ensures.ite (fun _ => rfl) fun hcopy => ?_
  have hadd {a b : Nat} (hab : a + b ≤ file.length) : mathAdd a b = some (a + b) :=
    mathAdd_eq_some.mpr ⟨Nat.lt_of_le_of_lt hab hfile, rfl⟩
  rw [copyRange, hadd (by omega)]
  simp only
  rw [hadd (by omega)]
  simp only
  refine Yields.guard (by omega) (Yields.guard (by omega) ?_)
  exact pageBytes_yields hsupply h.valid (mem_cons_of_handed h.handed).1 fun _ _ => rfl

end UserVm

end Native
