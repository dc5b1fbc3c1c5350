import ZigKernel.KernelDescriptors
import ZigKernel.KernelProcTable

/-! Runs of the calls on descriptors, by any processes in any order. A descriptor keeps to its open file, a child inherits
those of its parent, and a slot is free exactly when no descriptor refers to it, as long as no pipe is made, no descriptor is
closed whose slot another one refers to, and nothing runs full halfway through a call. -/

namespace Kernel.Descriptors

open Zig Vfs Procs

/-! ### The law -/

/-- The open file is still there, though its position may have moved. -/
def Stays (v w : Vfs) (f : Fin maxOpenFiles) : Prop :=
  w.openUsed f = true ∧ { w.openFiles f with pos := 0 } = { v.openFiles f with pos := 0 }

/-- An end of a pipe. -/
def IsEnd (v : Vfs) (f : Fin maxOpenFiles) (p : Fin maxPipes) (isReadEnd : Bool) : Prop :=
  (v.openFiles f).ops = some .pipe ∧ (v.openFiles f).data = some p ∧ (v.openFiles f).pipeReadEnd = isReadEnd

/-- `fds[i]` where `pipe` has stored its descriptors. -/
def pipefd (t : State) (ptr i : Nat) : Nat := LittleEndian.decode (fun k => t.user (ptr + 4 * i + k)) 4

/-- The call reports a failure. -/
def Event.Fails (e : Event) : Prop := e.result < 0 ∨ e.call = .fork ∧ e.result = 0

/-- What a call that succeeds makes is where the process finds it. -/
def Returns (s : State) (e : Event) (t : State) : Prop :=
  match e.call with
  | .openat _ _ _ _ => ∃ f, entry t.procs e.pid e.result.toNat = some f ∧ s.vfs.openUsed f = false
  | .pipe ptr _ => ∃ p f g, s.vfs.pipeUsed p = false ∧ entry t.procs e.pid (pipefd t ptr 0) = some f ∧ IsEnd t.vfs f p true ∧
      entry t.procs e.pid (pipefd t ptr 1) = some g ∧ IsEnd t.vfs g p false
  | .fork => ∀ fd, entry t.procs e.result.toNat fd = entry s.procs e.pid fd
  | _ => True

/-- A slot is free exactly when no descriptor refers to it. -/
def Fits (s : State) : Prop := ∀ f, s.vfs.openUsed f = false ↔ ∀ pid fd, entry s.procs pid fd ≠ some f

structure Lawful (s : State) (e : Event) (t : State) : Prop where
  returned : ¬e.Fails → Returns s e t
  stable : ∀ pid fd f, entry s.procs pid fd = some f →
    (e.pid = pid ∧ e.call = .close fd) ∨ entry t.procs pid fd = some f ∧ Stays s.vfs t.vfs f
  slots : Fits t
  unchanged : e.Fails → table t.procs = table s.procs ∧ t.vfs.openUsed = s.vfs.openUsed ∧ t.vfs.openFiles = s.vfs.openFiles

/-- No file is opened without a descriptor for it, no pipe gets a slot, no child is left without a thread, and no descriptor
is closed whose slot another one refers to. -/
def Covered (s : State) (e : Event) : Prop :=
  match e.call with
  | .openat dirfd pathPtr flags mode => Opens (resumed s e.pid e.rest) dirfd pathPtr flags mode →
      ∀ c, s.procs.processAt e.pid = some c → freeFd (s.procs.storage c) ≠ none
  | .pipe _ _ => (∀ p, s.vfs.pipeUsed p = true) ∨ ∀ f, s.vfs.openUsed f = true
  | .fork => Proc.freeProcess s.procs ≠ none → Proc.freePidOf s.procs ≠ none → Proc.freeThread s.procs ≠ none
  | .close fd => ∀ f pid' fd', entry s.procs e.pid fd = some f → entry s.procs pid' fd' = some f → pid' = e.pid ∧ fd' = fd
  | _ => True

/-! ### The step -/

/-- The descriptors fit the slots, and no open file is a pipe. -/
structure Good (s : State) : Prop where
  fits : Fits s
  seated : Seated s.procs
  plain : ∀ f, s.vfs.openUsed f = true → (s.vfs.openFiles f).ops ≠ some .pipe

section Steps

variable {s t : State} {e : Event}

theorem Good.used (h : Good s) {pid fd : Nat} {f : Fin maxOpenFiles} (hentry : entry s.procs pid fd = some f) :
    s.vfs.openUsed f = true := by
  cases hused : s.vfs.openUsed f with
  | true => rfl
  | false => exact absurd hentry ((h.fits f).mp hused pid fd)

theorem Fits.congr (h : Fits s) (htable : table t.procs = table s.procs) (hused : t.vfs.openUsed = s.vfs.openUsed) : Fits t := by
  intro f
  rw [hused, h f]
  exact forall_congr' fun pid => forall_congr' fun fd => by rw [entry_congr htable]

/-- A call that leaves the tables alone. -/
theorem Good.quiet (h : Good s) (hseat : Seated t.procs) (htable : table t.procs = table s.procs)
    (hmoved : Moved s.vfs t.vfs) : Good t := by
  refine ⟨h.fits.congr htable hmoved.used, hseat, fun f hf => ?_⟩
  have hops := congrArg File.ops (hmoved.files f)
  dsimp only at hops
  rw [hops]
  exact h.plain f (hmoved.used ▸ hf)

theorem Good.quiet_lawful (h : Good s) (htable : table t.procs = table s.procs) (hmoved : Moved s.vfs t.vfs)
    (hfails : e.Fails → t.vfs.openFiles = s.vfs.openFiles) (hreturns : ¬e.Fails → Returns s e t) : Lawful s e t := by
  refine ⟨hreturns, fun pid fd f hentry => Or.inr ⟨?_, ?_, hmoved.files f⟩, h.fits.congr htable hmoved.used,
    fun hf => ⟨htable, hmoved.used, hfails hf⟩⟩
  · rw [entry_congr htable]
    exact hentry
  · rw [hmoved.used]
    exact h.used hentry

theorem moved_of_eq {v w : Vfs} (hused : w.openUsed = v.openUsed) (hfiles : w.openFiles = v.openFiles) : Moved v w :=
  ⟨hused, fun f => by rw [hfiles]⟩

/-- The id that `fork` takes is not listed. -/
theorem table_unlisted {p : Procs} {k : Nat} (hk : Proc.freePidOf p = some k) : table p k = none := by
  obtain ⟨-, -, hnone, -⟩ := Proc.freePidOf_some hk
  rw [table, Procs.processAt, hnone, ite_self]
  rfl

/-- A slot that was free is taken, without a descriptor. -/
theorem not_fits_of_taken (h : Good s) {f : Fin maxOpenFiles} (hfree : s.vfs.openUsed f = false)
    (hused : t.vfs.openUsed f = true) (htable : table t.procs = table s.procs) : ¬Fits t := by
  intro hfits
  have hnone : ∀ pid fd, entry t.procs pid fd ≠ some f := by
    intro pid fd
    rw [entry_congr htable]
    exact (h.fits f).mp hfree pid fd
  rw [(hfits f).mpr hnone] at hused
  cases hused

/-- A descriptor is given or taken away. -/
def Assigns (s t : State) (pid fd : Nat) (file : Option (Fin maxOpenFiles)) : Prop :=
  ∀ pid' fd', entry t.procs pid' fd' = if pid' = pid ∧ fd' = fd then file else entry s.procs pid' fd'

section Assigned

variable {pid fd : Nat} {f g : Fin maxOpenFiles} {used : Bool}

theorem Assigns.self {file : Option (Fin maxOpenFiles)} (h : Assigns s t pid fd file) : entry t.procs pid fd = file :=
  (h pid fd).trans (if_pos ⟨rfl, rfl⟩)

theorem used_self (h : t.vfs.openUsed = Function.update s.vfs.openUsed f used) : t.vfs.openUsed f = used := by
  rw [h]
  exact Function.update_self _ _ _

theorem used_other (h : t.vfs.openUsed = Function.update s.vfs.openUsed f used) (hg : g ≠ f) :
    t.vfs.openUsed g = s.vfs.openUsed g := by
  rw [h]
  exact Function.update_of_ne hg _ _

/-- For the other slots it makes no difference. -/
theorem Assigns.refers_other {file : Option (Fin maxOpenFiles)} (h : Assigns s t pid fd file) (hnew : file ≠ some g)
    (hold : entry s.procs pid fd ≠ some g) :
    (∀ pid' fd', entry t.procs pid' fd' ≠ some g) ↔ ∀ pid' fd', entry s.procs pid' fd' ≠ some g := by
  refine forall_congr' fun pid' => forall_congr' fun fd' => ?_
  rw [h]
  by_cases hboth : pid' = pid ∧ fd' = fd
  · rw [if_pos hboth, hboth.1, hboth.2]
    exact iff_of_true hnew hold
  · rw [if_neg hboth]

/-- A slot is taken for a descriptor that was not in use. -/
theorem Fits.taken (h : Fits s) (hassign : Assigns s t pid fd (some f)) (hfresh : entry s.procs pid fd = none)
    (hused : t.vfs.openUsed = Function.update s.vfs.openUsed f true) : Fits t := by
  intro g
  by_cases hg : g = f
  · subst hg
    refine ⟨fun hfalse => ?_, fun hnever => absurd hassign.self (hnever pid fd)⟩
    rw [used_self hused] at hfalse
    cases hfalse
  · rw [used_other hused hg, h g, hassign.refers_other (fun heq => hg (Option.some.inj heq).symm)]
    rw [hfresh]
    nofun

/-- A slot is freed with its descriptor, which fits if no other one refers to it. -/
theorem Fits.freed_iff (h : Fits s) (hassign : Assigns s t pid fd none) (hf : entry s.procs pid fd = some f)
    (hused : t.vfs.openUsed = Function.update s.vfs.openUsed f false) :
    Fits t ↔ ∀ pid' fd', entry s.procs pid' fd' = some f → pid' = pid ∧ fd' = fd := by
  refine ⟨fun hfits pid' fd' hf' => ?_, fun honly g => ?_⟩
  · by_contra hne
    have hlost := (hfits f).mp (used_self hused) pid' fd'
    rw [hassign, if_neg hne] at hlost
    exact hlost hf'
  · by_cases hg : g = f
    · subst hg
      refine ⟨fun _ pid' fd' heq => ?_, fun _ => used_self hused⟩
      rw [hassign] at heq
      split at heq
      · cases heq
      · next hne => exact hne (honly pid' fd' heq)
    · rw [used_other hused hg, h g, hassign.refers_other nofun]
      rw [hf]
      exact fun heq => hg (Option.some.inj heq).symm

end Assigned

section Resumed

variable {pid : Nat} {rest : State} {r : Int} {c : Fin maxProcesses}

theorem table_resumed (s : State) (pid : Nat) (rest : State) : table (resumed s pid rest).procs = table s.procs := rfl

theorem Good.seat (h : Good s) (pid : Nat) (rest : State) : Seated (resumed s pid rest).procs :=
  ⟨h.seated.used, h.seated.one, h.seated.standard⟩

theorem assigns_setFd {fd : Fin maxFd} {file : Option (Fin maxOpenFiles)} (h : Good s) (hc : s.procs.processAt pid = some c)
    (hprocs : t.procs = (resumed s pid rest).procs.setFd c fd file) : Assigns s t pid fd.val file := by
  intro pid' fd'
  have hc' : (resumed s pid rest).procs.processAt pid = some c := hc
  rw [hprocs, entry_setFd (h.seat pid rest) hc', entry_congr (table_resumed s pid rest)]

theorem openat_lawful {dirfd pathPtr flags mode : Nat} (hgood : Good s) (hc : s.procs.processAt pid = some c)
    (h : (Call.openat dirfd pathPtr flags mode).run (resumed s pid rest) = (.ok r, t)) :
    (Lawful s ⟨pid, rest, .openat dirfd pathPtr flags mode, r⟩ t ↔ Covered s ⟨pid, rest, .openat dirfd pathPtr flags mode, r⟩) ∧
      (Covered s ⟨pid, rest, .openat dirfd pathPtr flags mode, r⟩ → Good t) := by
  have hresult := sysOpenat_cases (x := resumed s pid rest) (c := c) h hc
  cases hresult with
  | refused hr hnot hprocs hused hfiles =>
      have htable : table t.procs = table s.procs := by rw [hprocs, table_resumed]
      have hmoved := moved_of_eq (v := s.vfs) hused hfiles
      have hlawful : Lawful s ⟨pid, rest, .openat dirfd pathPtr flags mode, r⟩ t :=
        hgood.quiet_lawful htable hmoved (fun _ => hfiles) fun hok => absurd (Or.inl hr) hok
      refine ⟨iff_of_true hlawful fun hopens => absurd hopens hnot, fun _ => hgood.quiet ?_ htable hmoved⟩
      rw [hprocs]
      exact hgood.seat pid rest
  | leaked hopens hfull hprocs hfree hused hfiles hfile =>
      have htable : table t.procs = table s.procs := by rw [hprocs, table_resumed]
      have hnot : ¬Covered s ⟨pid, rest, .openat dirfd pathPtr flags mode, emfile⟩ := fun hcovered => hcovered hopens c hc hfull
      refine ⟨iff_of_false (fun hlawful => ?_) hnot, fun hcovered => absurd hcovered hnot⟩
      refine not_fits_of_taken hgood hfree ?_ htable hlawful.slots
      rw [hused]
      exact Function.update_self _ _ _
  | @opened _ f file fd hfd hprocs hfree hused hfiles hfile =>
      obtain ⟨hthree, hnone⟩ := freeFd_some hfd
      have hassign := assigns_setFd hgood hc hprocs
      have hfresh : entry s.procs pid fd.val = none := by
        rw [entry_of hc, dif_pos fd.isLt]
        exact hnone
      have hused : t.vfs.openUsed = Function.update s.vfs.openUsed f true := hused
      have hself : (t.vfs.openFiles f).ops ≠ some .pipe := by
        rw [hfiles, Function.update_self, hfile.2]
        nofun
      have hfiles {g : Fin maxOpenFiles} (hg : g ≠ f) : t.vfs.openFiles g = s.vfs.openFiles g := by
        rw [hfiles]
        exact Function.update_of_ne hg _ _
      have hne {pid' fd' : Nat} {g : Fin maxOpenFiles} (hg : entry s.procs pid' fd' = some g) : g ≠ f := by
        rintro rfl
        have hfree : s.vfs.openUsed g = false := hfree
        rw [hgood.used hg] at hfree
        cases hfree
      have hfits := hgood.fits.taken hassign hfresh hused
      have hnever : ¬Event.Fails ⟨pid, rest, .openat dirfd pathPtr flags mode, fd.val⟩ := by
        rintro (hneg | ⟨hfork, -⟩)
        · exact absurd hneg (Int.not_lt.mpr (Int.natCast_nonneg _))
        · cases hfork
      have hlawful : Lawful s ⟨pid, rest, .openat dirfd pathPtr flags mode, fd.val⟩ t := by
        refine ⟨fun _ => ⟨f, hassign.self, hfree⟩, fun pid' fd' g hg => Or.inr ⟨?_, ?_, ?_⟩, hfits, fun hfails => absurd hfails hnever⟩
        · rw [hassign, if_neg, hg]
          rintro ⟨rfl, rfl⟩
          rw [hfresh] at hg
          cases hg
        · rw [used_other hused (hne hg)]
          exact hgood.used hg
        · rw [hfiles (hne hg)]
      refine ⟨iff_of_true hlawful fun _ c' hc' hfull => ?_, fun _ => ⟨hfits, ?_, fun g hg => ?_⟩⟩
      · rw [hc] at hc'
        cases hc'
        have hfd : freeFd (s.procs.storage c) = some fd := hfd
        rw [hfull] at hfd
        cases hfd
      · rw [hprocs]
        exact (hgood.seat pid rest).setFd c (some f) (Or.inl hthree)
      · by_cases hgf : g = f
        · rw [hgf]
          exact hself
        · rw [hfiles hgf]
          exact hgood.plain g (used_other hused hgf ▸ hg)

theorem pipe_lawful {ptr flags : Nat} (hgood : Good s)
    (h : (Call.pipe ptr flags).run (resumed s pid rest) = (.ok r, t)) :
    (Lawful s ⟨pid, rest, .pipe ptr flags, r⟩ t ↔ Covered s ⟨pid, rest, .pipe ptr flags, r⟩) ∧
      (Covered s ⟨pid, rest, .pipe ptr flags, r⟩ → Good t) := by
  obtain ⟨fds, hresult, hprocs, hr⟩ := sysPipe_cases h
  have htable : table t.procs = table s.procs := by rw [hprocs, table_resumed]
  have hseat : Seated t.procs := by
    rw [hprocs]
    exact hgood.seat pid rest
  have hquiet (hnone : fds = none) (hused : t.vfs.openUsed = s.vfs.openUsed) (hfiles : t.vfs.openFiles = s.vfs.openFiles) :
      Lawful s ⟨pid, rest, .pipe ptr flags, r⟩ t ∧ Good t := by
    have hmoved := moved_of_eq hused hfiles
    have hneg : r < 0 := by
      rcases hr with ⟨-, rfl⟩ | ⟨hsome, -⟩
      · decide
      · rw [hnone] at hsome
        cases hsome
    exact ⟨hgood.quiet_lawful htable hmoved (fun _ => hfiles) fun hok => absurd (Or.inl hneg) hok,
      hgood.quiet hseat htable hmoved⟩
  generalize hw : t.vfs = w at hresult
  cases hresult with
  | noPipe hall =>
      obtain ⟨hlawful, hgood'⟩ := hquiet rfl (by rw [hw]; rfl) (by rw [hw]; rfl)
      exact ⟨iff_of_true hlawful (Or.inl hall), fun _ => hgood'⟩
  | noFile hmade hused hfiles hfull =>
      obtain ⟨hlawful, hgood'⟩ := hquiet rfl (by rw [hw, hused]; rfl) (by rw [hw, hfiles]; rfl)
      exact ⟨iff_of_true hlawful (Or.inr hfull), fun _ => hgood'⟩
  | @took p _ _ f hmade hfree hused =>
      have hnot : ¬Covered s ⟨pid, rest, .pipe ptr flags, r⟩ := by
        rintro (hall | hfull)
        · have hfree := hmade.free
          have hused : s.vfs.pipeUsed p = true := hall p
          rw [show (resumed s pid rest).vfs.pipeUsed p = true from hused] at hfree
          cases hfree
        · rw [show (resumed s pid rest).vfs.openUsed f = true from hfull f] at hfree
          cases hfree
      refine ⟨iff_of_false (fun hlawful => ?_) hnot, fun hcovered => absurd hcovered hnot⟩
      exact not_fits_of_taken hgood hfree (hw ▸ hused) htable hlawful.slots

theorem fork_lawful (hgood : Good s) (hc : s.procs.processAt pid = some c)
    (h : Call.fork.run (resumed s pid rest) = (.ok r, t)) :
    (Lawful s ⟨pid, rest, .fork, r⟩ t ↔ Covered s ⟨pid, rest, .fork, r⟩) ∧ (Covered s ⟨pid, rest, .fork, r⟩ → Good t) := by
  obtain ⟨k, rfl, hvfs, hends, hseat⟩ := sysFork_cases h (hgood.seat pid rest) hc
  have hused : t.vfs.openUsed = s.vfs.openUsed := by rw [hvfs]; rfl
  have hfiles : t.vfs.openFiles = s.vfs.openFiles := by rw [hvfs]; rfl
  have hmoved := moved_of_eq hused hfiles
  generalize hp : t.procs = q at hends
  cases hends with
  | refused hno htable =>
      have htable : table t.procs = table s.procs := by rw [hp, htable, table_resumed]
      refine ⟨iff_of_true ?_ fun hroom hpid => ?_, fun _ => hgood.quiet hseat htable hmoved⟩
      · exact hgood.quiet_lawful htable hmoved (fun _ => hfiles) fun hok => absurd (Or.inr ⟨rfl, rfl⟩) hok
      · exact (hno.elim hroom hpid).elim
  | @halfway _ k hroom hk hthread htable =>
      have hnot : ¬Covered s ⟨pid, rest, .fork, (0 : Nat)⟩ := fun hcovered =>
        hcovered hroom (ne_of_eq_of_ne hk nofun) hthread
      refine ⟨iff_of_false (fun hlawful => ?_) hnot, fun hcovered => absurd hcovered hnot⟩
      have hnone : table s.procs k = none := table_unlisted hk
      have hsame := congrFun (hlawful.unchanged (Or.inr ⟨rfl, rfl⟩)).1 k
      rw [hp, htable, Function.update_self, hnone] at hsame
      cases hsame
  | @forked _ k hk hthread htable =>
      have hnone : table s.procs k = none := table_unlisted hk
      have hentry (pid' fd' : Nat) : entry t.procs pid' fd' = entry s.procs (if pid' = k then pid else pid') fd' := by
        rw [entry, hp, htable]
        by_cases hk' : pid' = k
        · rw [hk', Function.update_self, if_pos rfl, entry_of hc]
          rfl
        · rw [Function.update_of_ne hk', if_neg hk']
          rfl
      have hold {pid' fd' : Nat} {f : Fin maxOpenFiles} (hf : entry s.procs pid' fd' = some f) : pid' ≠ k := by
        rintro rfl
        rw [entry, hnone] at hf
        cases hf
      have hfits : Fits t := by
        intro f
        rw [hused, hgood.fits f]
        refine ⟨fun hnever pid' fd' => ?_, fun hnever pid' fd' hf => ?_⟩
        · rw [hentry]
          exact hnever _ _
        · refine hnever pid' fd' ?_
          rw [hentry, if_neg (hold hf)]
          exact hf
      have hpos : ¬Event.Fails ⟨pid, rest, .fork, (k : Nat)⟩ := by
        rintro (hneg | ⟨-, hzero⟩)
        · exact absurd hneg (Int.not_lt.mpr (Int.natCast_nonneg _))
        · exact (Proc.freePidOf_some hk).1 (Int.natCast_eq_zero.mp hzero)
      refine ⟨iff_of_true ⟨fun _ fd' => ?_, fun pid' fd' f hf => Or.inr ⟨?_, ?_, ?_⟩, hfits, fun hfails => absurd hfails hpos⟩
        fun _ _ => hthread, fun _ => ⟨hfits, hseat, fun f hf => ?_⟩⟩
      · exact (hentry k fd').trans (by rw [if_pos rfl])
      · rw [hentry, if_neg (hold hf)]
        exact hf
      · rw [hused]
        exact hgood.used hf
      · rw [hfiles]
      · rw [hfiles]
        exact hgood.plain f (hused ▸ hf)

/-- A call that may move a position, unless it fails. -/
theorem moved_lawful {call : Call} (hgood : Good s) (hend : t.procs = (resumed s pid rest).procs ∧
    Moved (resumed s pid rest).vfs t.vfs ∧ (r < 0 → t.vfs.openFiles = (resumed s pid rest).vfs.openFiles))
    (hcall : ∀ s t, Returns s ⟨pid, rest, call, r⟩ t) (hfork : call ≠ .fork) :
    Lawful s ⟨pid, rest, call, r⟩ t ∧ Good t := by
  obtain ⟨hprocs, hmoved, hneg⟩ := hend
  have htable : table t.procs = table s.procs := by rw [hprocs, table_resumed]
  have hmoved : Moved s.vfs t.vfs := ⟨hmoved.used, hmoved.files⟩
  refine ⟨hgood.quiet_lawful htable hmoved (fun hfails => ?_) fun _ => hcall s t, hgood.quiet ?_ htable hmoved⟩
  · exact hneg (hfails.resolve_right fun h => hfork h.1)
  · rw [hprocs]
    exact hgood.seat pid rest

theorem read_lawful {fd buf len : Nat} (hgood : Good s) (hc : s.procs.processAt pid = some c)
    (h : (Call.read fd buf len).run (resumed s pid rest) = (.ok r, t)) :
    Lawful s ⟨pid, rest, .read fd buf len, r⟩ t ∧ Good t := by
  refine moved_lawful hgood ?_ (fun _ _ => True.intro) (by nofun)
  rcases sysRead_cases (x := resumed s pid rest) (c := c) h hc with ⟨-, rfl, -⟩ | ⟨f, -, -, hread⟩
  · exact ⟨rfl, moved_of_eq rfl rfl, fun _ => rfl⟩
  · exact read_moved hread

theorem write_lawful {fd buf len : Nat} (hgood : Good s) (hc : s.procs.processAt pid = some c)
    (h : (Call.write fd buf len).run (resumed s pid rest) = (.ok r, t)) :
    Lawful s ⟨pid, rest, .write fd buf len, r⟩ t ∧ Good t := by
  refine moved_lawful hgood ?_ (fun _ _ => True.intro) (by nofun)
  rcases sysWrite_cases (x := resumed s pid rest) (c := c) h hc with ⟨hvfs, hprocs, -⟩ | ⟨f, -, -, hwrite⟩
  · rw [hvfs]
    exact ⟨hprocs, moved_of_eq rfl rfl, fun _ => rfl⟩
  · exact write_moved hwrite

theorem close_lawful {fd : Nat} (hgood : Good s) (hc : s.procs.processAt pid = some c)
    (h : (Call.close fd).run (resumed s pid rest) = (.ok r, t)) :
    (Lawful s ⟨pid, rest, .close fd, r⟩ t ↔ Covered s ⟨pid, rest, .close fd, r⟩) ∧
      (Covered s ⟨pid, rest, .close fd, r⟩ → Good t) := by
  rcases sysClose_cases (x := resumed s pid rest) (c := c) h hc with ⟨hnone, hneg, rfl⟩ | ⟨f, hfd, hf, rfl, hprocs, hvfs⟩
  · have hnone : entry s.procs pid fd = none := hnone
    have hquiet : Lawful s ⟨pid, rest, .close fd, r⟩ (resumed s pid rest) ∧ Good (resumed s pid rest) :=
      moved_lawful hgood ⟨rfl, moved_of_eq rfl rfl, fun _ => rfl⟩ (fun _ _ => True.intro) (by nofun)
    obtain ⟨hlawful, hgood'⟩ := hquiet
    refine ⟨iff_of_true hlawful fun f _ _ hf => ?_, fun _ => hgood'⟩
    rw [hnone] at hf
    cases hf
  · have hf : entry s.procs pid fd = some f := hf
    have hassign : Assigns s t pid fd none := assigns_setFd hgood hc hprocs
    have hused : t.vfs.openUsed = Function.update s.vfs.openUsed f false := by
      rw [hvfs]
      rfl
    have hfiles : t.vfs.openFiles = s.vfs.openFiles := by
      rw [hvfs]
      rfl
    have hfits : Fits t ↔ Covered s ⟨pid, rest, .close fd, 0⟩ := by
      rw [hgood.fits.freed_iff hassign hf hused]
      refine ⟨fun honly g pid' fd' hg => ?_, fun hcov pid' fd' => hcov f pid' fd' hf⟩
      rw [hf] at hg
      cases hg
      exact honly pid' fd'
    have hpos : ¬Event.Fails ⟨pid, rest, .close fd, 0⟩ := by
      rintro (hneg | ⟨hfork, -⟩)
      · exact absurd hneg (Int.lt_irrefl 0)
      · cases hfork
    refine ⟨⟨fun hlawful => hfits.mp hlawful.slots, fun hcov => ?_⟩, fun hcov => ⟨hfits.mpr hcov, ?_, fun g hg => ?_⟩⟩
    · refine ⟨fun _ => True.intro, fun pid' fd' g hg => ?_, hfits.mpr hcov, fun hfails => absurd hfails hpos⟩
      by_cases hboth : pid' = pid ∧ fd' = fd
      · exact Or.inl ⟨hboth.1.symm, congrArg Call.close hboth.2.symm⟩
      · have hne : g ≠ f := by
          rintro rfl
          exact hboth (hcov g pid' fd' hf hg)
        refine Or.inr ⟨?_, ?_, ?_⟩
        · rw [hassign, if_neg hboth, hg]
        · rw [used_other hused hne]
          exact hgood.used hg
        · rw [hfiles]
    · rw [hprocs]
      exact (hgood.seat pid rest).setFd c none (Or.inr rfl)
    · have hne : g ≠ f := by
        rintro rfl
        rw [used_self hused] at hg
        cases hg
      rw [hfiles]
      exact hgood.plain g (used_other hused hne ▸ hg)

end Resumed

/-- The step lemma. -/
theorem Step.lawful_iff (h : Step s e t) (hgood : Good s) : (Lawful s e t ↔ Covered s e) ∧ (Covered s e → Good t) := by
  obtain ⟨halive, hrun⟩ := h
  obtain ⟨pid, rest, call, r⟩ := e
  obtain ⟨c, hc⟩ := Option.isSome_iff_exists.mp halive
  cases call with
  | openat dirfd pathPtr flags mode => exact openat_lawful hgood hc hrun
  | pipe ptr flags => exact pipe_lawful hgood hrun
  | fork => exact fork_lawful hgood hc hrun
  | read fd buf len =>
      obtain ⟨hlawful, hgood'⟩ := read_lawful hgood hc hrun
      exact ⟨iff_of_true hlawful True.intro, fun _ => hgood'⟩
  | write fd buf len =>
      obtain ⟨hlawful, hgood'⟩ := write_lawful hgood hc hrun
      exact ⟨iff_of_true hlawful True.intro, fun _ => hgood'⟩
  | close fd => exact close_lawful hgood hc hrun

end Steps

/-! ### Runs -/

section Runs

variable {u v : Vfs}

/-- The state after boot: the init process has no descriptor. -/
def boot (v : Vfs) (rest : State) : State := { rest with vfs := v, procs := Proc.booted }

theorem booted_fds (c : Fin maxProcesses) (fd : Fin maxFd) : (Proc.booted.storage c).fds fd = none := by
  rw [Proc.booted_storage]
  by_cases hc : c = Proc.initSlot
  · rw [hc, Function.update_self]
  · rw [Function.update_of_ne hc]

theorem booted_entry (pid fd : Nat) : entry Proc.booted pid fd = none := by
  cases hc : Proc.booted.processAt pid with
  | none => exact entry_none hc fd
  | some c =>
      rw [entry_of hc]
      split
      · exact booted_fds c _
      · rfl

theorem booted_listed {pid : Nat} {c : Fin maxProcesses} (h : Proc.booted.processes pid = some c) :
    pid = 1 ∧ c = Proc.initSlot := by
  rw [Proc.booted_processes] at h
  by_cases hpid : pid = 1
  · rw [hpid, Function.update_self] at h
    exact ⟨hpid, (Option.some.inj h).symm⟩
  · rw [Function.update_of_ne hpid] at h
    cases h

theorem seated_booted : Seated Proc.booted := by
  refine ⟨fun pid c h => ?_, fun pid pid' c h h' => ?_, fun c fd _ => booted_fds c fd⟩
  · rw [(booted_listed h).2, Proc.booted_processUsed]
    exact Function.update_self _ _ _
  · exact (booted_listed h).1.trans (booted_listed h').1.symm

theorem init_closed (hinit : Vfs.init u = (.ok (), v)) (f : Fin maxOpenFiles) : v.openUsed f = false :=
  init_keeps (P := fun s => ∀ f, s.openUsed f = false) hinit (fun _ => rfl)
    (fun hmade h f => (congrFun hmade.openUsed.2 f).trans (h f)) f

theorem good_boot (hinit : Vfs.init u = (.ok (), v)) (rest : State) : Good (boot v rest) := by
  refine ⟨fun f => iff_of_true (init_closed hinit f) fun pid fd hf => ?_, seated_booted, fun f hf => ?_⟩
  · have hnone : entry (boot v rest).procs pid fd = none := booted_entry pid fd
    rw [hnone] at hf
    cases hf
  · have hfree : (boot v rest).vfs.openUsed f = false := init_closed hinit f
    rw [hfree] at hf
    cases hf

/-- From boot on, a run keeps the law in every step exactly if every call meets the condition. -/
theorem descriptors_stable (hinit : Vfs.init u = (.ok (), v)) {rest t : State} {trace : List Event} :
    Fits (boot v rest) ∧ (Runs.Run (fun s e t => Step s e t ∧ Lawful s e t) (boot v rest) trace t ↔
      Runs.Run (fun s e t => Step s e t ∧ Covered s e) (boot v rest) trace t) := by
  have hgood := good_boot hinit rest
  refine ⟨hgood.fits, Runs.Run.along_iff (I := Good) hgood (fun s e t hs h => ?_) fun s e t hs h => ?_⟩
  · exact (h.lawful_iff hs).1
  · exact (h.lawful_iff hs).2

theorem descriptors_stable_boot : Fits (boot (init {}).2 {}) ∧
    (Runs.Run (fun s e t => Step s e t ∧ Lawful s e t) (boot (init {}).2 {}) [] (boot (init {}).2 {}) ↔
      Runs.Run (fun s e t => Step s e t ∧ Covered s e) (boot (init {}).2 {}) [] (boot (init {}).2 {})) :=
  descriptors_stable init_returns

/-- The descriptors that `pipe` returns are not those of the process. -/
theorem pipe_returns_no_descriptor : ¬∀ (u v : Vfs) (rest t : State) (trace : List Event), Vfs.init u = (.ok (), v) →
    Runs.Run Step (boot v rest) trace t →
      Runs.Run (fun s e t => Step s e t ∧ Lawful s e t) (boot v rest) trace t := by
  intro hall
  have hok : (sysPipe 4096 0 (resumed (boot (init {}).2 {}) 1 {})).1 = .ok 0 := by decide +kernel
  have hstep : Step (boot (init {}).2 {}) ⟨1, {}, .pipe 4096 0, 0⟩ (sysPipe 4096 0 (resumed (boot (init {}).2 {}) 1 {})).2 :=
    ⟨rfl, Prod.ext hok rfl⟩
  obtain ⟨t, ⟨hstep, hlawful⟩, -⟩ := (hall {} _ {} _ _ init_returns (Runs.Run.single hstep)).cons_inv
  have hpipe : (init {}).2.pipeUsed ⟨0, by decide⟩ = false := by decide +kernel
  have hfile : (init {}).2.openUsed ⟨0, by decide⟩ = false := by decide +kernel
  rcases (hstep.lawful_iff (good_boot init_returns {})).1.mp hlawful with hall | hall
  · exact absurd ((hall ⟨0, by decide⟩).symm.trans hpipe) (by decide)
  · exact absurd ((hall ⟨0, by decide⟩).symm.trans hfile) (by decide)

end Runs

end Kernel.Descriptors
