import ZigKernel.KernelSyscall
import ZigKernel.KernelTime

/-! User memory is confined at the boundary of the system calls. Every byte that a call reads or writes lies in an
area of memory that holds it and permits the access, whatever the call is and however it ends, and a call whose
pointer fails the gate leaves the kernel as it was. -/

namespace Kernel

open Zig

/-- The byte lies in an area that permits the access, in the lower half. -/
def Access.Confined (m : Mm) (a : Access) : Prop :=
  ∃ i vma, m.vmAreas i = some vma ∧ vma.start ≤ a.addr ∧ a.addr < vma.stop ∧
    vma.prot &&& (if a.write then Mm.protWrite else Mm.protRead) ≠ 0 ∧ a.addr ≤ Gdt.userMax

/-! ### What a call touches

`Touches P m`: however the call ends, even at a trap, the accesses that it adds are in `P`. `TouchesFrom P m s` says
it of the call started in `s`. -/

def TouchesFrom {α : Type} (P : Access → Prop) (m : Run α) (s : State) : Prop :=
  ∃ new, (m s).2.trace = s.trace ++ new ∧ ∀ a ∈ new, P a

def Touches {α : Type} (P : Access → Prop) (m : Run α) : Prop := ∀ s, TouchesFrom P m s

/-- The bytes of a buffer are in `P`. -/
def Reaches (P : Access → Prop) (write : Bool) (addr len : Nat) : Prop := ∀ i < len, P { addr := addr + i, write }

section Rules

variable {α β : Type} {P : Access → Prop} {m : Run α}

theorem Touches.of_fixes (h : Act.Fixes State.trace m) : Touches P m := by
  intro s
  refine ⟨[], ?_, fun a ha => by cases ha⟩
  rw [List.append_nil]
  exact h s

theorem Touches.pure (a : α) : Touches P (Pure.pure a : Run α) := .of_fixes (.pure a)
theorem Touches.lift (o : Outcome Spins α) : Touches P (Act.lift o : Run α) := .of_fixes (.lift o)

theorem TouchesFrom.bind {s : State} {f : α → Run β} (h : TouchesFrom P m s) (hf : ∀ a, Touches P (f a)) :
    TouchesFrom P (m >>= f) s := by
  obtain ⟨new, htrace, hnew⟩ := h
  rw [TouchesFrom, Act.bind_run]
  revert htrace
  rcases m s with ⟨a | e | _, t⟩ <;> intro htrace
  · obtain ⟨more, hmore, hin⟩ := hf a t
    refine ⟨new ++ more, ?_, ?_⟩
    · rw [← List.append_assoc, ← htrace]
      exact hmore
    · intro x hx
      rcases List.mem_append.mp hx with hx | hx
      · exact hnew x hx
      · exact hin x hx
  · exact ⟨new, htrace, hnew⟩
  · exact ⟨new, htrace, hnew⟩

theorem Touches.bind {f : α → Run β} (h : Touches P m) (hf : ∀ a, Touches P (f a)) : Touches P (m >>= f) :=
  fun s => (h s).bind hf

theorem Touches.get_bind {f : State → Run β} (h : ∀ s, Touches P (f s)) : Touches P (Act.get >>= f) := fun s => h s s

/-- What follows a computed value may use how it was computed. -/
theorem Touches.lift_bind {o : Outcome Spins α} {f : α → Run β} (h : ∀ a, o = .ok a → Touches P (f a)) :
    Touches P (Act.lift o >>= f) := by
  cases o with
  | ok a => exact h a rfl
  | error e => exact .of_fixes fun _ => rfl
  | trap => exact .of_fixes fun _ => rfl

theorem TouchesFrom.ite {s : State} {p : Prop} [Decidable p] {m' : Run α} (h : p → TouchesFrom P m s)
    (h' : ¬p → TouchesFrom P m' s) : TouchesFrom P (if p then m else m') s := by
  by_cases hp : p
  · rw [if_pos hp]
    exact h hp
  · rw [if_neg hp]
    exact h' hp

theorem Touches.ite {p : Prop} [Decidable p] {m' : Run α} (h : p → Touches P m) (h' : ¬p → Touches P m') :
    Touches P (if p then m else m') := fun s => .ite (fun hp => h hp s) fun hp => h' hp s

theorem touches_onVfs (m : Vfs.Run α) : Touches P (onVfs m) := .of_fixes (.zoom fun _ => rfl)
theorem touches_onMm (m : Mm.Run α) : Touches P (onMm m) := .of_fixes (.zoom fun _ => rfl)
theorem touches_onProcs (m : Procs.Run α) : Touches P (onProcs m) := .of_fixes (.zoom fun _ => rfl)
theorem touches_onClock (m : Clock.Run α) : Touches P (onClock m) := .of_fixes (.zoom fun _ => rfl)

theorem Reaches.accesses {write : Bool} {addr len : Nat} (h : Reaches P write addr len) :
    ∀ a ∈ accesses write addr len, P a := by
  intro a ha
  obtain ⟨i, hi, rfl⟩ := List.mem_map.mp ha
  exact h i (List.mem_range.mp hi)

theorem Reaches.mono {write : Bool} {addr len n : Nat} (h : Reaches P write addr len) (hn : n ≤ len) :
    Reaches P write addr n := fun i hi => h i (Nat.lt_of_lt_of_le hi hn)

/-- The rest of a buffer behind its first byte. -/
theorem Reaches.tail {write : Bool} {addr n : Nat} (h : Reaches P write addr (n + 1)) :
    Reaches P write (addr + 1) n := by
  intro i hi
  have hnext := h (i + 1) (Nat.succ_lt_succ hi)
  rwa [Nat.add_comm i 1, ← Nat.add_assoc] at hnext

theorem touches_readUser {addr n : Nat} (h : Reaches P false addr n) : Touches P (readUser addr n) := by
  intro s
  exact ⟨accesses false addr n, rfl, h.accesses⟩

theorem touches_writeUser {addr : Nat} {bytes : Bytes} (h : Reaches P true addr bytes.length) :
    Touches P (writeUser addr bytes) := fun _ => ⟨_, rfl, h.accesses⟩

end Rules

/-! ### Open files -/

namespace Vfs

variable {P : Access → Prop} {buf len : Nat}

theorem touches_ramfsRead (h : Reaches P true buf len) (f : Fin maxOpenFiles) : Touches P (ramfsRead f buf len) := by
  apply Touches.get_bind
  intro s
  dsimp only
  split
  · exact .pure _
  · split
    · exact .pure _
    · next data _ =>
      apply Touches.lift_bind
      intro stop hstop
      apply Touches.lift_bind
      intro bytes hbytes
      obtain ⟨hlength, -⟩ := slice_eq_ok.mp hbytes
      obtain ⟨-, rfl⟩ := addU64_eq_ok.mp hstop
      have hle : bytes.length ≤ len := by omega
      refine (touches_onVfs _).bind fun _ => (touches_writeUser (h.mono hle)).bind fun _ => ?_
      exact (touches_onVfs _).bind fun _ => .lift _

theorem touches_ramfsPut (h : Reaches P false buf len) (f : Fin maxOpenFiles) (i : Fin maxInodes) :
    Touches P (ramfsPut f i buf len) := by
  apply Touches.get_bind
  intro s
  dsimp only
  split
  · exact .lift _
  · apply Touches.lift_bind
    intro stop _
    refine (touches_readUser h).bind fun bytes => (touches_onVfs _).bind fun _ => (Touches.lift _).bind fun data => ?_
    exact (touches_onVfs _).bind fun _ => (touches_onVfs _).bind fun _ => (touches_onVfs _).bind fun _ => .lift _

theorem touches_ramfsWrite (h : Reaches P false buf len) (f : Fin maxOpenFiles) : Touches P (ramfsWrite f buf len) := by
  apply Touches.get_bind
  intro s
  dsimp only
  split
  · exact .pure _
  · refine (Touches.lift _).bind fun newLen => Touches.ite (fun _ => ?_) fun _ => touches_ramfsPut h f _
    refine (touches_onVfs _).bind fun failed => ?_
    cases failed with
    | none => exact touches_ramfsPut h f _
    | some e => exact .pure e

theorem touches_pipeReadLoop (p : Fin maxPipes) (n buf : Nat) (h : Reaches P true buf n) :
    Touches P (pipeReadLoop p buf n) := by
  induction n generalizing buf with
  | zero => exact .pure ()
  | succ n ih =>
      have hfirst : Reaches P true buf 1 := h.mono (Nat.succ_le_succ (Nat.zero_le n))
      apply Touches.get_bind
      intro s
      refine (Touches.lift _).bind fun cell => ?_
      refine (touches_writeUser (show Reaches P true buf [(s.vfs.pipes p).data cell].length from hfirst)).bind fun _ => (Touches.lift _).bind fun used => ?_
      exact (touches_onVfs _).bind fun _ => ih _ h.tail

theorem touches_pipeRead (h : Reaches P true buf len) (p : Fin maxPipes) : Touches P (pipeRead p buf len) := by
  apply Touches.get_bind
  intro s
  refine Touches.ite (fun _ => .pure _) fun _ => ?_
  refine (touches_pipeReadLoop p _ buf (h.mono (Nat.min_le_left _ _))).bind fun _ => ?_
  exact (touches_onVfs _).bind fun _ => .lift _

theorem touches_pipeWriteLoop (p : Fin maxPipes) (n buf : Nat) (h : Reaches P false buf n) :
    Touches P (pipeWriteLoop p buf n) := by
  induction n generalizing buf with
  | zero => exact .pure ()
  | succ n ih =>
      have hfirst : Reaches P false buf 1 := h.mono (Nat.succ_le_succ (Nat.zero_le n))
      apply Touches.get_bind
      intro s
      refine (Touches.lift _).bind fun cell => ?_
      refine (touches_readUser hfirst).bind fun _ => (Touches.lift _).bind fun used => ?_
      exact (touches_onVfs _).bind fun _ => ih _ h.tail

theorem touches_pipeWrite (h : Reaches P false buf len) (p : Fin maxPipes) : Touches P (pipeWrite p buf len) := by
  apply Touches.get_bind
  intro s
  refine Touches.ite (fun _ => .pure _) fun _ => (Touches.lift _).bind fun avail => Touches.ite (fun _ => .pure _) fun _ => ?_
  refine (touches_pipeWriteLoop p _ buf (h.mono (Nat.min_le_left _ _))).bind fun _ => ?_
  exact (touches_onVfs _).bind fun _ => .lift _

theorem touches_opsRead (h : Reaches P true buf len) (ops : FileOps) (f : Fin maxOpenFiles) :
    Touches P (ops.read f buf len) := by
  cases ops with
  | ramfs => exact touches_ramfsRead h f
  | nullDev => exact .pure 0
  | consoleDev => exact .pure 0
  | zeroDev =>
      refine (touches_writeUser ?_).bind fun _ => .lift _
      rwa [List.length_replicate]
  | fullDev => exact .pure enospc
  | pipe => exact .get_bind fun s => (Touches.lift _).bind fun p => touches_pipeRead h p

theorem touches_opsWrite (h : Reaches P false buf len) (ops : FileOps) (f : Fin maxOpenFiles) :
    Touches P (ops.write f buf len) := by
  cases ops with
  | ramfs => exact touches_ramfsWrite h f
  | nullDev => exact .lift _
  | consoleDev => exact (touches_readUser h).bind fun _ => .lift _
  | zeroDev => exact .lift _
  | fullDev => exact .pure enospc
  | pipe => exact .get_bind fun s => (Touches.lift _).bind fun p => touches_pipeWrite h p

theorem touches_read (h : Reaches P true buf len) (f : Fin maxOpenFiles) : Touches P (read f buf len) := by
  apply Touches.get_bind
  intro s
  split
  · exact touches_opsRead h _ f
  · refine (Touches.lift _).bind fun ops => ?_
    cases ops with
    | none => exact .pure enosys
    | some ops => exact touches_opsRead h ops f

theorem touches_write (h : Reaches P false buf len) (f : Fin maxOpenFiles) : Touches P (write f buf len) := by
  apply Touches.get_bind
  intro s
  split
  · exact touches_opsWrite h _ f
  · refine (Touches.lift _).bind fun ops => ?_
    cases ops with
    | none => exact .pure enosys
    | some ops => exact touches_opsWrite h ops f

end Vfs

/-! ### The gate -/

variable {m : Mm}

/-- The area that is found holds the address. -/
theorem findVma_holds {addr : Nat} {vma : Mm.VmArea} (h : m.findVma addr = some vma) :
    ∃ i, m.vmAreas i = some vma ∧ vma.start ≤ addr ∧ addr < vma.stop := by
  obtain ⟨i, hfind, hslot⟩ := Option.bind_eq_some_iff.mp h
  have hany := Table.find?_some hfind
  rw [hslot, Option.any_some, Mm.VmArea.holds, Bool.and_eq_true, decide_eq_true_eq, decide_eq_true_eq] at hany
  exact ⟨i, hslot, hany.1, hany.2⟩

theorem wrapAdd_of_le {a b : Nat} (ha : a < u64Bound) (hb : b < u64Bound) (h : ¬wrapAddU64 a b < a) :
    wrapAddU64 a b = a + b := by
  rw [wrapAddU64] at h ⊢
  by_cases hfits : a + b < u64Bound
  · exact Nat.mod_eq_of_lt hfits
  · rw [Nat.mod_eq_sub_mod (Nat.le_of_not_lt hfits), Nat.mod_eq_of_lt (by omega)] at h
    omega

theorem isUserRange_iff {addr len : Nat} (haddr : addr < u64Bound) (hlen : len < u64Bound) :
    Gdt.isUserRange addr len = true ↔ addr + (len - 1) ≤ Gdt.userMax := by
  have hmax : Gdt.userMax < u64Bound := by decide
  rw [Gdt.isUserRange]
  by_cases hzero : len = 0
  · rw [if_pos hzero, hzero, decide_eq_true_eq, Nat.zero_sub, Nat.add_zero]
  rw [if_neg hzero]
  by_cases hwrap : wrapAddU64 addr (len - 1) < addr
  · rw [if_pos hwrap]
    have hover : u64Bound ≤ addr + (len - 1) := by
      by_contra hfits
      rw [wrapAddU64, Nat.mod_eq_of_lt (Nat.lt_of_not_le hfits)] at hwrap
      exact absurd hwrap (Nat.not_lt.mpr (Nat.le_add_right _ _))
    simp only [Bool.false_eq_true, false_iff, Nat.not_le]
    exact Nat.lt_of_lt_of_le hmax hover
  · rw [if_neg hwrap, decide_eq_true_eq, wrapAdd_of_le haddr (by omega) hwrap]

/-- A buffer that passes the gate and is not empty: the area that it starts in. -/
theorem validate_cases {addr len : Nat} {write : Bool} (hlen : len ≠ 0) :
    Uaccess.validate m addr len write = true ↔ ∃ vma, m.findVma addr = some vma ∧ ¬wrapAddU64 addr len < addr ∧
      wrapAddU64 addr len ≤ vma.stop ∧ Gdt.isUserRange addr len = true ∧
        vma.prot &&& (if write then Mm.protWrite else Mm.protRead) ≠ 0 ∧ vma.start ≤ addr := by
  rw [Uaccess.validate, if_neg hlen]
  by_cases hwrap : wrapAddU64 addr len < addr
  · rw [if_pos hwrap]
    simp only [Bool.false_eq_true, false_iff, not_exists, not_and]
    exact fun vma _ hnot => absurd hwrap hnot
  rw [if_neg hwrap]
  by_cases hrange : Gdt.isUserRange addr len = true
  · rw [if_neg (not_not.mpr hrange)]
    cases hvma : m.findVma addr with
    | none => simp only [Bool.false_eq_true, reduceCtorEq, false_and, exists_false]
    | some vma =>
        simp only [Option.some.injEq, exists_eq_left', hrange, hwrap, not_false_eq_true, true_and]
        by_cases hstop : wrapAddU64 addr len > vma.stop
        · rw [if_pos hstop]
          simp only [Bool.false_eq_true, false_iff, not_and]
          exact fun hle => absurd hstop (Nat.not_lt.mpr hle)
        · rw [if_neg hstop, and_iff_right (Nat.le_of_not_lt hstop), Gdt.userCopyAllowed, if_neg hlen]
          cases write <;> simp [hwrap, hrange, hstop]
  · rw [if_pos hrange]
    simp only [Bool.false_eq_true, false_iff, not_exists, not_and]
    exact fun vma _ _ _ hin => absurd hin hrange

/-- What passes the gate lies in one area. -/
theorem reaches_of_validate {addr len : Nat} {write : Bool} (haddr : addr < u64Bound) (hlen : len < u64Bound)
    (h : Uaccess.validate m addr len write = true) : Reaches (Access.Confined m) write addr len := by
  intro i hi
  obtain ⟨vma, hfind, hwrap, hstop, hrange, hprot, hstart⟩ := (validate_cases (Nat.ne_zero_of_lt hi)).mp h
  obtain ⟨slot, hslot, -, -⟩ := findVma_holds hfind
  rw [wrapAdd_of_le haddr hlen hwrap] at hstop
  rw [isUserRange_iff haddr hlen] at hrange
  refine ⟨slot, vma, hslot, ?_, ?_, hprot, ?_⟩
  · exact Nat.le_trans hstart (Nat.le_add_right _ _)
  · exact Nat.lt_of_lt_of_le (Nat.add_lt_add_left hi _) hstop
  · exact Nat.le_trans (Nat.add_le_add_left (Nat.le_sub_one_of_lt hi) _) hrange

/-- A byte of a path that the loop reads. -/
theorem confined_of_mayRead {src i : Nat} (h : Uaccess.mayRead (m.findVma src) src i = true) :
    Access.Confined m { addr := wrapAddU64 src i, write := false } := by
  unfold Uaccess.mayRead at h
  by_cases hwrap : wrapAddU64 src i < src
  · rw [if_pos hwrap] at h
    cases h
  rw [if_neg hwrap] at h
  by_cases hrange : Gdt.isUserRange (wrapAddU64 src i) 1 = true
  · rw [if_neg (not_not.mpr hrange)] at h
    cases hvma : m.findVma src with
    | none =>
        rw [hvma] at h
        cases h
    | some vma =>
        rw [hvma] at h
        simp only [Bool.and_eq_true, decide_eq_true_eq] at h
        obtain ⟨slot, hslot, hstart, -⟩ := findVma_holds hvma
        have haddr : wrapAddU64 src i < u64Bound := Nat.mod_lt _ (by decide)
        rw [isUserRange_iff haddr (by decide)] at hrange
        exact ⟨slot, vma, hslot, Nat.le_trans hstart (Nat.le_of_not_lt hwrap), h.1, h.2, hrange⟩
  · rw [if_pos hrange] at h
    cases h

/-! ### The handlers -/

variable {s : State} {P : Access → Prop}

theorem touches_copyLoop (m : Mm) (src i n : Nat) :
    Touches (Access.Confined m) (Uaccess.copyLoop (m.findVma src) src i n) := by
  induction n generalizing i with
  | zero => exact .pure none
  | succ n ih =>
      refine Touches.ite (fun _ => .pure none) fun hmay => ?_
      have hbyte := confined_of_mayRead (not_not.mp hmay)
      apply Touches.lift_bind
      intro addr haddr
      rw [ptrFromInt_eq_ok haddr]
      refine (touches_readUser fun j hj => ?_).bind fun bytes => ?_
      · rwa [Nat.lt_one_iff.mp hj]
      · refine Touches.bind (.of_fixes (.modify fun _ => rfl)) fun _ => ?_
        exact Touches.ite (fun _ => .pure _) fun _ => ih _

theorem touches_userPath (s : State) (ptr : Nat) : TouchesFrom (Access.Confined s.mm) (userPath ptr) s := by
  have hcopy : TouchesFrom (Access.Confined s.mm) (Uaccess.copyCStrFromUser ptr) s := touches_copyLoop s.mm ptr 0 _ s
  refine hcopy.bind fun n => ?_
  cases n with
  | none => exact .pure none
  | some n => exact .get_bind fun s => (Touches.lift _).bind fun path => .pure _

theorem touches_fdAt (fd : Nat) : Touches P (fdAt fd) := .get_bind fun _ => .lift _

theorem touches_sysOpenat (s : State) (dirfd pathPtr flags mode : Nat) :
    TouchesFrom (Access.Confined s.mm) (sysOpenat dirfd pathPtr flags mode) s := by
  refine (touches_userPath s pathPtr).bind fun path => ?_
  cases path with
  | none => exact .pure efault
  | some path =>
      refine (Touches.lift _).bind fun dirfd => (Touches.lift _).bind fun flags => (Touches.lift _).bind fun mode => ?_
      refine (touches_onVfs _).bind fun file => ?_
      cases file with
      | none => exact .pure _
      | some file =>
          refine (touches_onProcs _).bind fun fd => ?_
          cases fd with
          | none => exact .pure _
          | some fd => exact .lift _

theorem touches_sysRead (s : State) (fd : Nat) {buf len : Nat} (hbuf : buf < u64Bound) (hlen : len < u64Bound) :
    TouchesFrom (Access.Confined s.mm) (sysRead fd buf len) s := by
  refine TouchesFrom.ite (fun _ => Touches.pure efault s) fun hgate => ?_
  have hreach := reaches_of_validate hbuf hlen (not_not.mp hgate)
  refine (touches_fdAt fd).bind (fun file => ?_) s
  cases file with
  | none => exact .pure ebadf
  | some file =>
      refine Touches.lift_bind fun p hp => ?_
      rw [ptrFromInt_eq_ok hp]
      exact Vfs.touches_read hreach file

theorem touches_captureWrite {read : Capture → Fin Capture.maxProcs → Capture.Stream}
    {write : (Fin Capture.maxProcs → Capture.Stream) → Capture → Capture} {data len : Nat}
    (h : Reaches P false data len) : Touches P (captureWrite read write data len) := by
  refine .get_bind fun s => (Touches.lift _).bind fun pid => ?_
  refine (touches_readUser (h.mono (Nat.min_le_right _ _))).bind fun bytes => (Touches.lift _).bind fun stream => ?_
  exact Touches.bind (.of_fixes (.modify fun _ => rfl)) fun _ => .lift _

theorem touches_sysWrite (s : State) (fd : Nat) {buf len : Nat} (hbuf : buf < u64Bound) (hlen : len < u64Bound) :
    TouchesFrom (Access.Confined s.mm) (sysWrite fd buf len) s := by
  refine TouchesFrom.ite (fun _ => Touches.pure efault s) fun hgate => ?_
  have hreach := reaches_of_validate hbuf hlen (not_not.mp hgate)
  refine Touches.lift_bind (fun p hp => ?_) s
  rw [ptrFromInt_eq_ok hp]
  refine Touches.ite (fun _ => touches_captureWrite hreach) fun _ => Touches.ite (fun _ => touches_captureWrite hreach) fun _ => ?_
  refine (touches_fdAt fd).bind fun file => ?_
  cases file with
  | none => exact .pure ebadf
  | some file => exact Vfs.touches_write hreach file

theorem length_i64Bytes (i : Int) : (i64Bytes i).length = 8 := by
  rw [i64Bytes, List.length_map, List.length_range]

theorem touches_sysClockGet (s : State) {tp : Nat} (htp : tp < u64Bound) :
    TouchesFrom (Access.Confined s.mm) (sysClockGet tp) s := by
  refine Touches.lift_bind (fun ns _ => ?_) s
  refine Touches.ite (fun _ => .pure 0) fun _ => Touches.ite (fun _ => .pure efault) fun hgate => ?_
  have hreach := reaches_of_validate htp (by decide) (not_not.mp hgate)
  refine Touches.lift_bind fun p hp => (Touches.lift _).bind fun signed => ?_
  rw [ptrFromInt_eq_ok hp]
  have hsec : Reaches (Access.Confined s.mm) true tp (i64Bytes (signed.tdiv 1000000000)).length := by
    rw [length_i64Bytes]
    exact hreach.mono (by decide)
  refine (touches_writeUser hsec).bind fun _ => (Touches.lift _).bind fun rest => ?_
  refine (touches_writeUser fun i hi => ?_).bind fun _ => .pure 0
  rw [length_i64Bytes] at hi
  rw [Nat.add_assoc]
  exact hreach (8 + i) (Nat.add_lt_add_left hi 8)

theorem touches_copyFromUser (s : State) {src len : Nat} (hsrc : src < u64Bound) (hlen : len < u64Bound) :
    TouchesFrom (Access.Confined s.mm) (Uaccess.copyFromUser src len) s := by
  refine TouchesFrom.ite (fun _ => Touches.pure none s) fun hgate => ?_
  have hreach := reaches_of_validate hsrc hlen (not_not.mp hgate)
  refine Touches.lift_bind (fun p hp => ?_) s
  rw [ptrFromInt_eq_ok hp]
  exact (touches_readUser hreach).bind fun bytes => .pure _

theorem touches_sysNanosleep (s : State) {req : Nat} (hreq : req < u64Bound) :
    TouchesFrom (Access.Confined s.mm) (sysNanosleep req) s := by
  refine TouchesFrom.ite (fun _ => Touches.pure 0 s) fun _ => ?_
  refine (touches_copyFromUser s hreq (by decide)).bind fun bytes => ?_
  cases bytes with
  | none => exact .pure efault
  | some bytes =>
      refine (Touches.lift _).bind fun whole => (Touches.lift _).bind fun ns => Touches.ite (fun _ => ?_) fun _ => .pure 0
      exact (touches_onClock _).bind fun _ => .pure 0

/-! ### Dispatch -/

theorem dispatchUser_refused {nr a0 a1 a2 a3 : Nat} (h : Gdt.syscallAllowed nr = false) :
    dispatchUser nr a0 a1 a2 a3 = pure Vfs.enosys := by
  rw [dispatchUser, h]
  exact if_pos Bool.false_ne_true

theorem dispatchUser_allowed {nr a0 a1 a2 a3 : Nat} {func : SyscallFn} (h : Gdt.syscallAllowed nr = true)
    (hnr : nr < syscallMax) (hfunc : syscallTable nr = some func) :
    dispatchUser nr a0 a1 a2 a3 = func a0 a1 a2 a3 := by
  rw [dispatchUser, if_neg (not_not.mpr h), dispatch, if_neg (Nat.not_le.mpr hnr), hfunc]

theorem allowed_iff {nr : Nat} : Gdt.syscallAllowed nr = true ↔
    nr = 1 ∨ nr = 2 ∨ nr = 3 ∨ nr = 4 ∨ nr = 5 ∨ nr = 6 ∨ nr = 15 ∨ nr = 31 ∨ nr = 34 ∨ nr = 48 ∨ nr = 50 ∨ nr = 53 := by
  simp only [Gdt.syscallAllowed, List.contains_eq_mem, List.mem_cons, List.not_mem_nil, or_false, decide_eq_true_eq]

theorem touches_sysMmap (addr len prot flags : Nat) : Touches P (sysMmap addr len prot flags) := by
  refine Touches.ite (fun _ => .pure _) fun _ => (Touches.lift _).bind fun prot => (Touches.lift _).bind fun flags => ?_
  refine (touches_onMm _).bind fun result => ?_
  cases result with
  | none => exact .pure _
  | some result => exact .lift _

theorem touches_sysMunmap (addr len : Nat) : Touches P (sysMunmap addr len) :=
  .ite (fun _ => .pure _) fun _ => touches_onMm _

theorem touches_sysMprotect (addr len prot : Nat) : Touches P (sysMprotect addr len prot) :=
  .ite (fun _ => .pure _) fun _ => (Touches.lift _).bind fun _ => touches_onMm _

theorem touches_sysSeek (fd offset whence : Nat) : Touches P (sysSeek fd offset whence) := by
  refine (touches_fdAt fd).bind fun file => ?_
  cases file with
  | none => exact .pure ebadf
  | some file => exact (Touches.lift _).bind fun _ => (Touches.lift _).bind fun _ => touches_onVfs _

theorem touches_sysClose (fd : Nat) : Touches P (sysClose fd) := by
  refine (touches_fdAt fd).bind fun file => ?_
  cases file with
  | none => exact .pure ebadf
  | some file => exact (touches_onVfs _).bind fun _ => (touches_onProcs _).bind fun _ => .pure 0

theorem touches_sysExit (code : Nat) : Touches P (sysExit code) := (Touches.lift _).bind fun _ => touches_onProcs _

theorem touches_sysGetpid : Touches P sysGetpid := .get_bind fun _ => (Touches.lift _).bind fun _ => .lift _

theorem touches_dispatchUser (s : State) (nr a0 a1 a2 a3 : U64) :
    TouchesFrom (Access.Confined s.mm) (dispatchUser nr a0 a1 a2 a3) s := by
  cases hallowed : Gdt.syscallAllowed nr with
  | false =>
      rw [dispatchUser_refused hallowed]
      exact Touches.pure _ s
  | true =>
      have hnr := allowed_iff.mp hallowed
      generalize (nr : Nat) = n at hallowed hnr
      rcases hnr with rfl | rfl | rfl | rfl | rfl | rfl | rfl | rfl | rfl | rfl | rfl | rfl <;>
        rw [dispatchUser_allowed hallowed (by decide) rfl]
      · exact touches_sysMmap _ _ _ _ s
      · exact touches_sysOpenat s a0 a1 a2 a3
      · exact touches_sysRead s a0 a1.isLt a2.isLt
      · exact touches_sysWrite s a0 a1.isLt a2.isLt
      · exact touches_sysSeek _ _ _ s
      · exact touches_sysClose _ s
      · exact touches_sysExit _ s
      · exact touches_sysGetpid s
      · exact touches_sysMunmap _ _ s
      · exact touches_sysMprotect _ _ _ s
      · exact touches_sysClockGet s a1.isLt
      · exact touches_sysNanosleep s a0.isLt

/-! ### A pointer that fails the gate -/

/-- From byte `i` on, a string of the user ends within `n` bytes and may be read up to its end. -/
def Readable (user : Nat → UInt8) (vma : Option Mm.VmArea) (src i n : Nat) : Prop :=
  ∃ k < n, user (wrapAddU64 src (i + k)) = 0 ∧ ∀ j ≤ k, Uaccess.mayRead vma src (i + j) = true

theorem readable_succ {user : Nat → UInt8} {vma : Option Mm.VmArea} {src i n : Nat} :
    Readable user vma src i (n + 1) ↔ Uaccess.mayRead vma src i = true ∧
      (user (wrapAddU64 src i) = 0 ∨ Readable user vma src (i + 1) n) := by
  constructor
  · rintro ⟨k, hk, hend, hmay⟩
    refine ⟨hmay 0 (Nat.zero_le k), ?_⟩
    cases k with
    | zero => exact Or.inl hend
    | succ k =>
        refine Or.inr ⟨k, Nat.lt_of_succ_lt_succ hk, ?_, fun j hj => ?_⟩
        · rwa [Nat.add_right_comm, Nat.add_assoc]
        · rw [Nat.add_right_comm, Nat.add_assoc]
          exact hmay (j + 1) (Nat.succ_le_succ hj)
  · rintro ⟨hmay, hend | ⟨k, hk, hend, hrest⟩⟩
    · refine ⟨0, Nat.succ_pos n, hend, fun j hj => ?_⟩
      rwa [Nat.le_zero.mp hj]
    · refine ⟨k + 1, Nat.succ_lt_succ hk, ?_, fun j hj => ?_⟩
      · rwa [Nat.add_right_comm, Nat.add_assoc] at hend
      · cases j with
        | zero => exact hmay
        | succ j =>
            have hnext := hrest j (Nat.le_of_succ_le_succ hj)
            rwa [Nat.add_right_comm, Nat.add_assoc] at hnext

theorem readUser_one (addr : Nat) (s : State) :
    readUser addr 1 s = (.ok [s.user addr], { s with trace := s.trace ++ accesses false addr 1 }) := rfl

/-- The copy of a path: it changes the path buffer only, and ends with a length if the string is readable. -/
theorem copyLoop_run {vma : Option Mm.VmArea} {src : Nat}
    (hnull : ∀ i, Uaccess.mayRead vma src i = true → wrapAddU64 src i ≠ 0) (n i : Nat) (s : State) :
    ∃ r pathBuf trace, Uaccess.copyLoop vma src i n s = (.ok r, { s with pathBuf, trace }) ∧
      pathBuf.length = s.pathBuf.length ∧ (r.isSome = true ↔ Readable s.user vma src i n) ∧
        ∀ stop, r = some stop → stop < i + n := by
  induction n generalizing i s with
  | zero =>
      refine ⟨none, s.pathBuf, s.trace, rfl, rfl, ?_, fun stop h => by cases h⟩
      simp only [Option.isSome_none, Bool.false_eq_true, false_iff]
      rintro ⟨k, hk, -⟩
      exact absurd hk (Nat.not_lt_zero k)
  | succ n ih =>
      rw [Uaccess.copyLoop, readable_succ]
      by_cases hmay : Uaccess.mayRead vma src i = true
      · rw [if_neg (not_not.mpr hmay), ptrFromInt_byte (hnull i hmay), Act.lift_ok_bind_run,
          Act.bind_ok_run (readUser_one _ s), Act.modify_bind_run]
        by_cases hend : s.user (wrapAddU64 src i) = 0
        · have hbyte : [s.user (wrapAddU64 src i)].getD 0 0 = 0 := hend
          rw [if_pos hbyte]
          refine ⟨some i, _, _, rfl, List.length_set, ?_, fun stop h => ?_⟩
          · simp only [Option.isSome_some, hmay, hend, true_or, true_and]
          · cases h
            exact Nat.lt_add_of_pos_right (Nat.succ_pos n)
        · have hbyte : ¬[s.user (wrapAddU64 src i)].getD 0 0 = 0 := hend
          rw [if_neg hbyte]
          obtain ⟨r, pathBuf, trace, hrun, hlength, hiff, hstop⟩ := ih (i + 1)
            { s with
              trace := s.trace ++ accesses false (wrapAddU64 src i) 1
              pathBuf := s.pathBuf.set i (s.user (wrapAddU64 src i)) }
          refine ⟨r, pathBuf, trace, hrun, hlength.trans List.length_set, ?_, fun stop h => ?_⟩
          · simp only [hiff, hmay, hend, false_or, true_and]
          · have hlt := hstop stop h
            omega
      · rw [if_pos hmay]
        refine ⟨none, s.pathBuf, s.trace, rfl, rfl, ?_, fun stop h => by cases h⟩
        simp only [Option.isSome_none, Bool.false_eq_true, hmay, false_and]

/-- The path that a pointer names may be read. -/
def PathReadable (s : State) (src : Nat) : Prop :=
  Readable s.user (s.mm.findVma src) src 0 (min s.pathBuf.length Uaccess.maxCstr)

/-- No byte of the path is at address 0. -/
def Unmapped0 (s : State) (src : Nat) : Prop := src ≠ 0 ∨ s.mm.findVma 0 = none

theorem ne_zero_of_mayRead {src i : Nat} (h : Unmapped0 s src)
    (hmay : Uaccess.mayRead (s.mm.findVma src) src i = true) : wrapAddU64 src i ≠ 0 := by
  unfold Uaccess.mayRead at hmay
  intro hzero
  rw [hzero] at hmay
  rcases h with hsrc | hnone
  · rw [if_pos (Nat.pos_of_ne_zero hsrc)] at hmay
    cases hmay
  · by_cases hsrc : src = 0
    · subst hsrc
      rw [hnone] at hmay
      split at hmay
      · cases hmay
      · split at hmay
        · cases hmay
        · cases hmay
    · rw [if_pos (Nat.pos_of_ne_zero hsrc)] at hmay
      cases hmay

/-- The path of a user: the path buffer apart, the state stays, and there is a path if it may be read. -/
theorem userPath_run {src : Nat} (h : Unmapped0 s src) :
    ∃ r pathBuf trace, userPath src s = (.ok r, { s with pathBuf, trace }) ∧ pathBuf.length = s.pathBuf.length ∧
      (r.isSome = true ↔ PathReadable s src) := by
  have hnull := fun i => ne_zero_of_mayRead (i := i) h
  obtain ⟨r, pathBuf, trace, hrun, hlength, hiff, hstop⟩ :=
    copyLoop_run hnull (min s.pathBuf.length Uaccess.maxCstr) 0 s
  have hcopy : Uaccess.copyCStrFromUser src s = (.ok r, { s with pathBuf, trace }) := hrun
  rw [userPath, Act.bind_ok_run hcopy]
  cases r with
  | none => exact ⟨none, pathBuf, trace, rfl, hlength, hiff⟩
  | some n =>
      have hn : n ≤ pathBuf.length := by
        rw [hlength]
        have hlt := hstop n rfl
        omega
      refine ⟨some ((pathBuf.drop 0).take (n - 0)), pathBuf, trace, ?_, hlength, hiff⟩
      dsimp only
      rw [Act.get_bind_run, slice_of_le (Nat.zero_le n) hn, Act.lift_ok_bind_run]
      rfl

/-- The pointer of the call does not pass the gate. A null pointer of `clock_get` and of `nanosleep` names nothing. -/
def PointerFails (s : State) (nr a0 a1 a2 : Nat) : Prop :=
  nr = 2 ∧ ¬PathReadable s a1 ∧ Unmapped0 s a1 ∨
    nr = 3 ∧ Uaccess.validate s.mm a1 a2 true = false ∨
    nr = 4 ∧ Uaccess.validate s.mm a1 a2 false = false ∨
    nr = 50 ∧ a1 ≠ 0 ∧ Uaccess.validate s.mm a1 timeSpecSize true = false ∧ s.clock.elapsed < u64Bound ∨
    nr = 53 ∧ a0 ≠ 0 ∧ Uaccess.validate s.mm a0 timeSpecSize false = false

theorem pointer_fails {nr a0 a1 a2 a3 : Nat} (h : PointerFails s nr a0 a1 a2) :
    ∃ pathBuf trace, dispatchUser nr a0 a1 a2 a3 s = (.ok efault, { s with pathBuf, trace }) := by
  rcases h with ⟨rfl, hpath, hnull⟩ | ⟨rfl, hgate⟩ | ⟨rfl, hgate⟩ | ⟨rfl, hptr, hgate, hclock⟩ | ⟨rfl, hptr, hgate⟩
  · obtain ⟨r, pathBuf, trace, hrun, -, hiff⟩ := userPath_run hnull
    rw [dispatchUser_allowed (by decide) (by decide) rfl, sysOpenat, Act.bind_ok_run hrun]
    cases r with
    | none => exact ⟨pathBuf, trace, rfl⟩
    | some path => exact absurd (hiff.mp rfl) hpath
  · rw [dispatchUser_allowed (by decide) (by decide) rfl, sysRead, Act.get_bind_run, hgate]
    exact ⟨s.pathBuf, s.trace, rfl⟩
  · rw [dispatchUser_allowed (by decide) (by decide) rfl, sysWrite, Act.get_bind_run, hgate]
    exact ⟨s.pathBuf, s.trace, rfl⟩
  · rw [dispatchUser_allowed (by decide) (by decide) rfl, sysClockGet, Act.get_bind_run]
    rw [Clock.monotonicNs_of_lt hclock, Act.lift_ok_bind_run, if_neg hptr, hgate]
    exact ⟨s.pathBuf, s.trace, rfl⟩
  · rw [dispatchUser_allowed (by decide) (by decide) rfl, sysNanosleep, if_neg hptr]
    have hnone : Uaccess.copyFromUser a0 timeSpecSize s = (.ok none, s) := by
      rw [Uaccess.copyFromUser, Act.get_bind_run, hgate]
      rfl
    rw [Act.bind_ok_run hnone]
    exact ⟨s.pathBuf, s.trace, rfl⟩

/-- In every state and for all arguments, however the call ends: it reads and writes the user only where an area
permits it; with a pointer that does not pass the gate it fails and the kernel stays as it was, the path buffer apart;
and without a place in the allowlist it does nothing. -/
theorem user_memory_confined (s : State) (nr a0 a1 a2 a3 : U64) :
    (∃ new, (dispatchUser nr a0 a1 a2 a3 s).2.trace = s.trace ++ new ∧ ∀ a ∈ new, a.Confined s.mm) ∧
      (PointerFails s nr a0 a1 a2 →
        ∃ pathBuf trace, dispatchUser nr a0 a1 a2 a3 s = (.ok (-14), { s with pathBuf, trace })) ∧
      (Gdt.syscallAllowed nr = false → dispatchUser nr a0 a1 a2 a3 s = (.ok (-38), s)) := by
  refine ⟨touches_dispatchUser s nr a0 a1 a2 a3, pointer_fails, fun hrefused => ?_⟩
  rw [dispatchUser_refused hrefused]
  rfl

/-- A read of 8 bytes that no area holds, and a call outside the list. -/
theorem user_memory_confined_sample :
    (∃ pathBuf trace, dispatchUser 3 0 4096 8 0 {} = (.ok (-14), { pathBuf, trace })) ∧
      dispatchUser 7 0 4096 8 0 {} = (.ok (-38), {}) := by
  have hgate : Uaccess.validate {} 4096 8 true = false := by decide
  exact ⟨(user_memory_confined {} 3 0 4096 8 0).2.1 (Or.inr (Or.inl ⟨rfl, hgate⟩)),
    (user_memory_confined {} 7 0 4096 8 0).2.2 (by decide)⟩

/-- A page from address 0 on. -/
def nullArea : Mm := { vmAreas := fun i => if i.val = 0 then some { start := 0, stop := 4096, flags := 0, prot := 1 } else none }

/-- Where an area holds address 0, a path from there on traps at its first byte. -/
theorem sysOpenat_null {dirfd flags mode : Nat} (hbuf : s.pathBuf ≠ [])
    (hmay : Uaccess.mayRead (s.mm.findVma 0) 0 0 = true) : sysOpenat dirfd 0 flags mode s = (.trap, s) := by
  have hcopy : Uaccess.copyCStrFromUser 0 s = (.trap, s) := by
    rw [Uaccess.copyCStrFromUser, Act.get_bind_run]
    obtain ⟨n, hn⟩ : ∃ n, min s.pathBuf.length Uaccess.maxCstr = n + 1 := by
      have hlength := List.length_pos_iff.mpr hbuf
      rw [Uaccess.maxCstr]
      exact ⟨_, (Nat.succ_pred_eq_of_pos (by omega)).symm⟩
    rw [hn, Uaccess.copyLoop, if_neg (not_not.mpr hmay)]
    rfl
  have hpath : userPath 0 s = (.trap, s) := by
    rw [userPath, Act.bind_trap_run hcopy]
  rw [sysOpenat, Act.bind_trap_run hpath]

/-- Pointers that fail the gate without the error. A null pointer of `clock_get` asks for no time and of `nanosleep`
for no sleep; `clock_get` reads the clock first, which traps when its nanoseconds have run out; and a path that does
not end inside the area at address 0 traps at its first byte. -/
theorem null_pointers_pass :
    (Uaccess.validate {} 0 timeSpecSize true = false ∧ (dispatchUser 50 1 0 0 0 {}).1 = .ok 0) ∧
      (Uaccess.validate {} 0 timeSpecSize false = false ∧ (dispatchUser 53 0 0 0 0 {}).1 = .ok 0) ∧
      (Uaccess.validate {} 4096 timeSpecSize true = false ∧
        (dispatchUser 50 1 4096 0 0 { clock := { monotonic := { sec := 2 ^ 35 } } }).1 = .trap) ∧
      ¬PathReadable { mm := nullArea, user := fun _ => 1 } 0 ∧
        (dispatchUser 2 0 0 0 0 { mm := nullArea, user := fun _ => 1 }).1 = .trap := by
  refine ⟨⟨by decide, by decide⟩, ⟨by decide, by decide⟩, ⟨by decide, by decide⟩, ?_, ?_⟩
  · rintro ⟨k, -, hend, -⟩
    have hone : (1 : UInt8) = 0 := hend
    cases hone
  · rw [dispatchUser_allowed (by decide) (by decide) rfl]
    exact congrArg Prod.fst (sysOpenat_null (List.cons_ne_nil _ _) (by decide))

end Kernel
