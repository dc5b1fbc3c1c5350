import ZigKernel.KernelSched

/-! What the calls of the scheduler do: which task the choice finds, which calls start no task, when a tick traps, and what a
turn leaves of the tasks. -/

namespace Kernel.Sched

open Zig

variable {tasks tasks' : List Task} {queue : List Nat} {s t : Scheduler} {a b c i j : Nat}

/-! ### The choice -/

def Eligible (tasks : List Task) (i : Nat) : Prop := ∃ u, tasks[i]? = some u ∧ u.eligible = true

def Outranks (tasks : List Task) (i j : Nat) : Prop := ∃ u v, tasks[i]? = some u ∧ tasks[j]? = some v ∧ u.outranks v = true

theorem Task.outranks_iff {u v : Task} :
    u.outranks v = true ↔ u.priority < v.priority ∨ u.priority = v.priority ∧ u.vruntime < v.vruntime := by
  simp only [Task.outranks, Bool.or_eq_true, decide_eq_true_eq, Bool.and_eq_true, beq_iff_eq]

theorem Outranks.trans (h : Outranks tasks a b) (h' : Outranks tasks b c) : Outranks tasks a c := by
  obtain ⟨u, v, hu, hv, huv⟩ := h
  obtain ⟨v', w, hv', hw, hvw⟩ := h'
  rw [hv] at hv'
  cases hv'
  rw [Task.outranks_iff] at huv hvw
  exact ⟨u, w, hu, hw, Task.outranks_iff.mpr (by omega)⟩

/-- What does not come before `b` does not come before what outranks `b`. -/
theorem Outranks.trans_not (h : Outranks tasks a b) (hc : Eligible tasks c) (h' : ¬Outranks tasks c b) : Outranks tasks a c := by
  obtain ⟨u, v, hu, hv, huv⟩ := h
  obtain ⟨w, hw, -⟩ := hc
  have hwv : ¬w.outranks v = true := fun hwv => h' ⟨w, v, hw, hv, hwv⟩
  rw [Task.outranks_iff] at huv hwv
  exact ⟨u, w, hu, hw, Task.outranks_iff.mpr (by omega)⟩

/-- The task of the best priority and the least virtual runtime that is first in the queue. -/
def First (tasks : List Task) (queue : List Nat) (a : Nat) : Prop :=
  Eligible tasks a ∧ ∃ before after, queue = before ++ a :: after ∧ (∀ c ∈ before, Eligible tasks c → Outranks tasks a c) ∧
    ∀ c ∈ after, Eligible tasks c → ¬Outranks tasks c a

theorem scan_concat (tasks : List Task) (queue : List Nat) (i : Nat) :
    scan tasks (queue ++ [i]) = if prefers tasks (scan tasks queue) i then some i else scan tasks queue := by
  rw [scan, List.foldl_append]
  rfl

theorem prefers_none : prefers tasks none i = true ↔ Eligible tasks i := by
  rw [prefers, Eligible]
  cases tasks[i]? with
  | none => simp
  | some u => simp

theorem prefers_some (hb : Eligible tasks b) : prefers tasks (some b) i = true ↔ Eligible tasks i ∧ Outranks tasks i b := by
  obtain ⟨v, hv, -⟩ := hb
  rw [prefers, Eligible, Outranks, Option.bind_some, hv]
  cases tasks[i]? with
  | none => simp
  | some u => simp

theorem scan_none (h : scan tasks queue = none) : ∀ c ∈ queue, ¬Eligible tasks c := by
  induction queue using List.reverseRecOn with
  | nil => exact fun c hc => absurd hc List.not_mem_nil
  | append_singleton queue i ih =>
      rw [scan_concat] at h
      split_ifs at h with hprefers
      rw [h, prefers_none] at hprefers
      intro c hc
      rcases List.mem_append.mp hc with hc | hc
      · exact ih h c hc
      · rwa [List.mem_singleton.mp hc]

theorem scan_first (h : scan tasks queue = some a) : First tasks queue a := by
  induction queue using List.reverseRecOn generalizing a with
  | nil => cases h
  | append_singleton queue i ih =>
      rw [scan_concat] at h
      split_ifs at h with hprefers
      · cases h
        cases hbest : scan tasks queue with
        | none =>
            rw [hbest, prefers_none] at hprefers
            exact ⟨hprefers, queue, [], rfl, fun c hc he => absurd he (scan_none hbest c hc),
              fun c hc => absurd hc List.not_mem_nil⟩
        | some b =>
            obtain ⟨hb, before, after, rfl, hbefore, hafter⟩ := ih hbest
            rw [hbest, prefers_some hb] at hprefers
            obtain ⟨hi, hib⟩ := hprefers
            refine ⟨hi, _, [], rfl, fun c hc he => ?_, fun c hc => absurd hc List.not_mem_nil⟩
            rcases List.mem_append.mp hc with hc | hc
            · exact hib.trans (hbefore c hc he)
            · rcases List.mem_cons.mp hc with rfl | hc
              · exact hib
              · exact hib.trans_not he (hafter c hc he)
      · obtain ⟨ha, before, after, hsplit, hbefore, hafter⟩ := ih h
        rw [h, prefers_some ha] at hprefers
        refine ⟨ha, before, after ++ [i], by rw [hsplit, List.append_assoc, List.cons_append], hbefore, fun c hc he hca => ?_⟩
        rcases List.mem_append.mp hc with hc | hc
        · exact hafter c hc he hca
        · rw [List.mem_singleton.mp hc] at he hca
          exact hprefers ⟨he, hca⟩

theorem First.mem (h : First tasks queue a) : a ∈ queue := by
  obtain ⟨-, before, after, rfl, -⟩ := h
  exact List.mem_append_right before List.mem_cons_self

/-- Of two tasks in the queue one comes before the other. -/
theorem First.unique (h : First tasks queue a) (h' : First tasks queue b) : a = b := by
  obtain ⟨ha, before, after, hsplit, hbefore, hafter⟩ := h
  obtain ⟨hb, before', after', hsplit', hbefore', hafter'⟩ := h'
  rcases List.append_eq_append_iff.mp (hsplit.symm.trans hsplit') with ⟨mid, hpre, hpost⟩ | ⟨mid, hpre, hpost⟩
  · cases mid with
    | nil => exact (List.cons.inj hpost).1
    | cons x mid =>
        obtain ⟨rfl, hrest⟩ := List.cons.inj hpost
        have hba := hbefore' a (hpre ▸ List.mem_append_right before List.mem_cons_self) ha
        exact absurd hba (hafter b (hrest ▸ List.mem_append_right mid List.mem_cons_self) hb)
  · cases mid with
    | nil => exact (List.cons.inj hpost).1.symm
    | cons x mid =>
        obtain ⟨rfl, hrest⟩ := List.cons.inj hpost
        have hab := hbefore b (hpre ▸ List.mem_append_right before' List.mem_cons_self) hb
        exact absurd hab (hafter' a (hrest ▸ List.mem_append_right mid List.mem_cons_self) ha)

theorem scan_eq_some : scan tasks queue = some a ↔ First tasks queue a := by
  refine ⟨scan_first, fun h => ?_⟩
  cases hbest : scan tasks queue with
  | none => exact absurd h.1 (scan_none hbest a h.mem)
  | some b => rw [(scan_first hbest).unique h]

/-- No task in the queue is of a better priority. -/
theorem First.priority_le (h : First tasks queue a) {u v : Task} (ha : tasks[a]? = some u) (hc : c ∈ queue)
    (hv : tasks[c]? = some v) (he : v.eligible = true) : u.priority ≤ v.priority := by
  obtain ⟨-, before, after, rfl, hbefore, hafter⟩ := h
  rcases List.mem_append.mp hc with hc | hc
  · obtain ⟨u', v', hu', hv', hbetter⟩ := hbefore c hc ⟨v, hv, he⟩
    rw [ha] at hu'
    rw [hv] at hv'
    cases hu'
    cases hv'
    rw [Task.outranks_iff] at hbetter
    omega
  · rcases List.mem_cons.mp hc with rfl | hc
    · rw [ha] at hv
      cases hv
      exact Nat.le_refl u.priority.val
    · have hworse : ¬v.outranks u = true := fun hbetter => hafter c hc ⟨v, hv, he⟩ ⟨v, u, hv, ha, hbetter⟩
      rw [Task.outranks_iff] at hworse
      omega

/-- What the choice looks at. -/
def Task.rank (u : Task) : Bool × Fin 256 × Nat := (u.eligible, u.priority, u.vruntime)

theorem scan_congr (h : ∀ i : Nat, (tasks[i]?).map Task.rank = (tasks'[i]?).map Task.rank) (queue : List Nat) :
    scan tasks queue = scan tasks' queue := by
  have hprefers (best : Option Nat) (i : Nat) : prefers tasks best i = prefers tasks' best i := by
    have hi := h i
    have hbest : (best.bind fun b => tasks[b]?).map Task.rank = (best.bind fun b => tasks'[b]?).map Task.rank := by
      cases best with
      | none => rfl
      | some b => exact h b
    rw [prefers, prefers]
    revert hi hbest
    generalize tasks[i]? = x
    generalize tasks'[i]? = x'
    generalize (best.bind fun b => tasks[b]?) = y
    generalize (best.bind fun b => tasks'[b]?) = y'
    intro hx hy
    rcases x with _ | u <;> rcases x' with _ | u' <;> rcases y with _ | v <;> rcases y' with _ | v' <;>
      simp_all [Task.rank, Task.outranks]
  unfold scan
  congr 1
  funext best i
  rw [hprefers]

/-! ### What the calls change -/

theorem edit_get (s : Scheduler) (i : Nat) (f : Task → Task) (j : Nat) :
    (s.edit i f).tasks[j]? = (s.tasks[j]?).map fun u => if i = j then f u else u :=
  List.getElem?_modify f i s.tasks j

def Running (s : Scheduler) (i : Nat) : Prop := ∃ u, s.tasks[i]? = some u ∧ u.state = .running

/-- The call starts no task. -/
def Quiet (s t : Scheduler) : Prop := ∀ i, Running t i → Running s i

theorem Quiet.refl : Quiet s s := fun _ h => h

theorem Quiet.trans {u : Scheduler} (h : Quiet s t) (h' : Quiet t u) : Quiet s u := fun i hi => h i (h' i hi)

theorem quiet_of_tasks (h : t.tasks = s.tasks) : Quiet s t := by
  rintro i ⟨u, hu, hstate⟩
  exact ⟨u, h ▸ hu, hstate⟩

theorem quiet_edit {f : Task → Task} (hf : ∀ u, s.tasks[i]? = some u → (f u).state = .running → u.state = .running) :
    Quiet s (s.edit i f) := by
  rintro j ⟨u', hu', hstate⟩
  rw [edit_get] at hu'
  obtain ⟨u, hu, rfl⟩ := Option.map_eq_some_iff.mp hu'
  split_ifs at hstate with hij
  · exact ⟨u, hu, hf u (hij ▸ hu) hstate⟩
  · exact ⟨u, hu, hstate⟩

/-- A task that runs may be changed in any way. -/
theorem quiet_edit_running (h : Running s i) (f : Task → Task) : Quiet s (s.edit i f) := by
  obtain ⟨u, hu, hstate⟩ := h
  refine quiet_edit fun v hv _ => ?_
  rw [hu] at hv
  cases hv
  exact hstate

theorem running_edit (h : Running s i) {f : Task → Task}
    (hf : ∀ u, s.tasks[i]? = some u → u.state = .running → (f u).state = .running) : Running (s.edit i f) i := by
  obtain ⟨u, hu, hstate⟩ := h
  refine ⟨f u, ?_, hf u hu hstate⟩
  rw [edit_get, hu, Option.map_some, if_pos rfl]

theorem enqueue_quiet {o : Outcome Empty Unit} (h : cfsEnqueue i s = (o, t)) : Quiet s t := by
  rw [cfsEnqueue, Act.get_bind_run] at h
  cases htask : s.tasks[i]? with
  | none =>
      simp only [htask] at h
      cases h
      exact .refl
  | some u =>
      simp only [htask] at h
      split_ifs at h
      · cases h
        exact .refl
      · cases h
        exact .refl
      · rw [Act.modify_bind_run] at h
        cases h
        exact (quiet_of_tasks rfl).trans (quiet_edit fun _ _ hstate => absurd hstate (by nofun))

theorem dequeue_quiet {o : Outcome Empty Unit} (h : cfsDequeue i s = (o, t)) : Quiet s t := by
  rw [cfsDequeue, Act.get_bind_run] at h
  cases htask : s.tasks[i]? with
  | none =>
      simp only [htask] at h
      cases h
      exact .refl
  | some u =>
      simp only [htask] at h
      cases hplace : queued s u.pid with
      | none =>
          simp only [hplace] at h
          cases h
          exact .refl
      | some k =>
          simp only [hplace] at h
          rw [Act.modify_bind_run] at h
          cases h
          exact (quiet_of_tasks rfl).trans (quiet_edit fun _ _ hstate => absurd hstate (by nofun))

theorem create_quiet {prio : Fin 256} {o : Outcome Empty (Option Nat)} (h : createWithPrio prio s = (o, t)) : Quiet s t := by
  rw [createWithPrio, Act.get_bind_run] at h
  split_ifs at h
  · cases h
    exact .refl
  · rw [addU32] at h
    split_ifs at h
    · rw [Act.lift_ok_bind_run] at h
      simp only [Act.modify_bind_run] at h
      set next : Scheduler := { s with
        tasks := s.tasks ++ [{ pid := s.nextPid, priority := prio, sliceRemaining := defaultSlice }]
        nextPid := s.nextPid + 1 }
      have hnew : Quiet s next := by
        rintro j ⟨u, hu, hstate⟩
        rcases List.getElem?_append .. ▸ hu with hu
        split_ifs at hu with hj
        · exact ⟨u, hu, hstate⟩
        · obtain rfl := List.mem_singleton.mp (List.mem_of_getElem? hu)
          cases hstate
      rcases henqueue : cfsEnqueue s.tasks.length next with ⟨o' | e | _, u⟩
      · rw [Act.bind_ok_run henqueue] at h
        cases h
        exact hnew.trans (enqueue_quiet henqueue)
      · exact e.elim
      · rw [Act.bind_trap_run henqueue] at h
        cases h
        exact hnew.trans (enqueue_quiet henqueue)
    · rw [Act.lift_trap_bind_run] at h
      cases h
      exact .refl

/-- A tick traps where the weight of the running task or its virtual runtime does not fit. -/
def TickFits (s : Scheduler) : Prop := ∀ u, s.tasks[s.current]? = some u → u.state = .running →
  58 ≤ u.priority.val ∧ ∀ gain, credit u.priority = .ok gain → u.vruntime + gain < u64Bound

theorem credit_traps_iff : ∀ prio : Fin 256, credit prio = .trap ↔ prio.val < 58 := by decide +kernel

theorem tick_spec {o : Outcome Empty Bool} (h : schedTick s = (o, t)) : Quiet s t ∧ (o ≠ .trap ↔ TickFits s) := by
  rw [schedTick, Act.get_bind_run] at h
  cases htask : s.tasks[s.current]? with
  | none =>
      simp only [htask] at h
      cases h
      exact ⟨.refl, iff_of_true (by nofun) fun u hu => absurd (htask.symm.trans hu) (by nofun)⟩
  | some u =>
      simp only [htask] at h
      have hfits : TickFits s ↔ (u.state = .running → 58 ≤ u.priority.val ∧
          ∀ gain, credit u.priority = .ok gain → u.vruntime + gain < u64Bound) := by
        refine ⟨fun hfits => hfits u htask, fun hfits u' hu' => ?_⟩
        rw [htask] at hu'
        cases hu'
        exact hfits
      rw [hfits]
      split_ifs at h with hstate
      · cases h
        exact ⟨.refl, iff_of_true (by nofun) fun hrunning => absurd hrunning hstate⟩
      · rw [not_not] at hstate
        have hrunning : Running s s.current := ⟨u, htask, hstate⟩
        rw [Act.modify_bind_run] at h
        set s1 := s.edit s.current fun _ => { u with sliceRemaining := u.sliceRemaining - 1 }
        have hs1 : Quiet s s1 := quiet_edit_running hrunning _
        have hrunning1 : Running s1 s.current := running_edit hrunning fun _ _ _ => hstate
        clear_value s1
        cases hcredit : credit u.priority with
        | trap =>
            rw [hcredit, Act.lift_trap_bind_run] at h
            cases h
            have hsmall := (credit_traps_iff u.priority).mp hcredit
            exact ⟨hs1, iff_of_false (not_not.mpr rfl) fun hfits => absurd (hfits hstate).1 (by omega)⟩
        | error e => exact e.elim
        | ok gain =>
            have hlarge : 58 ≤ u.priority.val := by
              by_contra hsmall
              have htrap := (credit_traps_iff u.priority).mpr (by omega)
              rw [hcredit] at htrap
              cases htrap
            rw [hcredit, Act.lift_ok_bind_run] at h
            by_cases hsum : u.vruntime + gain < u64Bound
            · rw [addU64_of_lt hsum, Act.lift_ok_bind_run, Act.modify_bind_run] at h
              set s2 := s1.edit s.current fun _ =>
                { u with sliceRemaining := u.sliceRemaining - 1, vruntime := u.vruntime + gain }
              have hs2 : Quiet s s2 := hs1.trans (quiet_edit_running hrunning1 _)
              have hrunning2 : Running s2 s.current := running_edit hrunning1 fun _ _ _ => hstate
              clear_value s2
              have hfits (gain' : Nat) (hgain : (Outcome.ok gain : Outcome Empty Nat) = .ok gain') :
                  u.vruntime + gain' < u64Bound := Outcome.ok.inj hgain ▸ hsum
              split_ifs at h
              · rw [Act.modify_bind_run] at h
                cases h
                exact ⟨hs2.trans (quiet_edit_running hrunning2 _), iff_of_true (by nofun) fun _ => ⟨hlarge, hfits⟩⟩
              · cases h
                exact ⟨hs2, iff_of_true (by nofun) fun _ => ⟨hlarge, hfits⟩⟩
            · rw [addU64, if_neg hsum, Act.lift_trap_bind_run] at h
              cases h
              exact ⟨hs1, iff_of_false (not_not.mpr rfl) fun hfits => hsum ((hfits hstate).2 gain rfl)⟩

/-- The choice of the next task. -/
theorem pick_spec (s : Scheduler) : cfsPickNext s = (.ok (scan s.tasks s.runqueue),
    match scan s.tasks s.runqueue with
    | none => s
    | some i => s.edit i Task.start) := by
  rw [cfsPickNext, Act.get_bind_run]
  cases hscan : scan s.tasks s.runqueue with
  | none => rfl
  | some i =>
      dsimp only
      rw [Act.modify_bind_run]
      rfl

/-- What the choice and the counting of running tasks look at, and the slice. -/
def Task.core (u : Task) : TaskState × Fin 256 × Nat × Nat := (u.state, u.priority, u.vruntime, u.sliceRemaining)

theorem charge_core {u v : Task} {nowNs : Nat} (h : chargeCpuTime u nowNs = .ok v) : v.core = u.core := by
  rw [chargeCpuTime] at h
  dsimp only at h
  split_ifs at h
  · cases h
    rfl
  · obtain ⟨cpuTimeNs, -, h⟩ := Outcome.bind_eq_ok h
    cases h
    rfl

theorem chargeCurrent_spec {nowNs : Nat} (h : chargeCurrent nowNs s = (.ok (), t)) :
    t.runqueue = s.runqueue ∧ ∀ i : Nat, (t.tasks[i]?).map Task.core = (s.tasks[i]?).map Task.core := by
  rw [chargeCurrent, Act.get_bind_run] at h
  cases htask : s.tasks[s.current]? with
  | none =>
      simp only [htask] at h
      cases h
      exact ⟨rfl, fun _ => rfl⟩
  | some u =>
      simp only [htask] at h
      split_ifs at h with hstate
      · obtain ⟨v, hv, h⟩ := Act.lift_bind_run_eq_ok h
        cases h
        refine ⟨rfl, fun i => ?_⟩
        rw [edit_get]
        by_cases hi : s.current = i
        · rw [← hi, htask, Option.map_some, Option.map_some, Option.map_some, if_pos rfl, charge_core hv]
        · simp only [if_neg hi, Option.map_id']
      · cases h
        exact ⟨rfl, fun _ => rfl⟩

/-- What a turn leaves of a task: the others keep state, priority and virtual runtime. -/
structure Turn (s t : Scheduler) (r : Option Nat) : Prop where
  picked : r = scan s.tasks s.runqueue
  queue : t.runqueue = s.runqueue
  tasks : ∀ i : Nat, (t.tasks[i]?).map (fun u => (u.state, u.priority, u.vruntime)) = (s.tasks[i]?).map fun u =>
    (if r = some i then (if u.sliceRemaining = 1 then .runnable else .running) else u.state, u.priority, u.vruntime)

theorem takeTurn_spec {beginNs : Nat} (h : takeTurn i beginNs s = (.ok (), t)) : ∃ ticks : Nat, t.runqueue = s.runqueue ∧
    ∀ j : Nat, t.tasks[j]? = (s.tasks[j]?).map fun u => if i = j then
      Task.finish { u with state := .running, needResched := false, scheduledAtNs := beginNs, ticks } else u := by
  rw [takeTurn, Act.get_bind_run] at h
  cases htask : s.tasks[i]? with
  | none =>
      simp only [htask] at h
      cases h
  | some u =>
      simp only [htask, Act.modify_bind_run] at h
      obtain ⟨ticks, -, h⟩ := Act.lift_bind_run_eq_ok h
      cases h
      refine ⟨ticks, rfl, fun j => ?_⟩
      rw [edit_get, edit_get, Option.map_map]
      congr 1
      funext v
      rw [Function.comp_apply]
      split_ifs <;> rfl

theorem runNext_turn {nowNs beginNs : Nat} {r : Option Nat} (h : runNext nowNs beginNs s = (.ok r, t)) : Turn s t r := by
  obtain ⟨_, s1, hcharge, h⟩ := Act.bind_run_eq_ok h
  obtain ⟨hqueue, hcore⟩ := chargeCurrent_spec hcharge
  have hscan : scan s1.tasks s1.runqueue = scan s.tasks s.runqueue := by
    rw [hqueue]
    refine scan_congr (fun i => ?_) s.runqueue
    have hrank : Task.rank = (fun c : TaskState × Fin 256 × Nat × Nat =>
        (c.1 == .runnable || c.1 == .running, c.2.1, c.2.2.1)) ∘ Task.core := rfl
    rw [hrank, ← Option.map_map, ← Option.map_map, hcore i]
  rw [schedule, Act.bind_run, pick_spec, hscan] at h
  cases hpick : scan s.tasks s.runqueue with
  | none =>
      simp only [hpick] at h
      cases h
      refine ⟨hpick.symm, hqueue, fun i => ?_⟩
      have hface : (fun u : Task => (u.state, u.priority, u.vruntime)) =
          (fun c : TaskState × Fin 256 × Nat × Nat => (c.1, c.2.1, c.2.2.1)) ∘ Task.core := rfl
      simp only [reduceCtorEq, if_false]
      rw [hface, ← Option.map_map, ← Option.map_map, hcore i]
  | some a =>
      simp only [hpick] at h
      obtain ⟨_, u, hturn, h⟩ := Act.bind_run_eq_ok h
      cases h
      obtain ⟨ticks, hqueue', htasks⟩ := takeTurn_spec hturn
      refine ⟨hpick.symm, hqueue'.trans hqueue, fun i => ?_⟩
      have hi := hcore i
      rw [htasks i, edit_get]
      cases hs1 : s1.tasks[i]? with
      | none =>
          rw [hs1] at hi
          rw [Option.map_eq_none_iff.mp hi.symm]
          rfl
      | some v =>
          rw [hs1] at hi
          obtain ⟨v', hv', hcore'⟩ := Option.map_eq_some_iff.mp hi.symm
          rw [hv']
          simp only [Task.core, Prod.mk.injEq] at hcore'
          obtain ⟨hstate, hpriority, hvruntime, hslice⟩ := hcore'
          by_cases hai : a = i
          · have hlast : v.start.sliceRemaining - 1 = 0 ↔ v'.sliceRemaining = 1 := by
              rw [Task.start, ← hslice, defaultSlice]
              dsimp only
              by_cases hzero : v'.sliceRemaining = 0
              · rw [if_pos hzero, hzero]
                decide
              · rw [if_neg hzero]
                omega
            rw [Option.map_some, Option.map_some, Option.map_some, Option.map_some, if_pos hai, if_pos hai,
              if_pos (congrArg some hai), if_congr hlast.symm rfl rfl, hpriority, hvruntime]
            rfl
          · simp only [Option.map_some, if_neg hai, Option.some.injEq, hstate, hpriority, hvruntime]

end Kernel.Sched
