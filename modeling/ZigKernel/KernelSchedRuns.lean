import ZigKernel.KernelSchedCalls
import ZigKernel.LibRuns

/-! The scheduler over whole runs: that one task at most is running, and how far two tasks of equal priority get apart. A
choice does not put back the task that was running, and a turn is charged to nobody's virtual runtime, so both hold exactly
in the runs that work around it. -/

namespace Kernel.Sched

open Zig

inductive Call where
  | createWithPrio (prio : Fin 256)
  | enqueue (i : Nat)
  | dequeue (i : Nat)
  | schedule
  | schedTick
  /-- with what the clock shows at its two readings -/
  | runNext (nowNs beginNs : Nat)
  deriving DecidableEq

def Call.run : Call → Run (Option Nat)
  | .createWithPrio prio => Sched.createWithPrio prio
  | .enqueue i => do
      cfsEnqueue i
      pure none
  | .dequeue i => do
      cfsDequeue i
      pure none
  | .schedule => Sched.schedule
  | .schedTick => do
      let _ ← Sched.schedTick
      pure none
  | .runNext nowNs beginNs => Sched.runNext nowNs beginNs

/-- A call and how it ends. -/
abbrev Event := Call × Outcome Empty (Option Nat)

/-- The scheduler, and the events so far with the states in which they set in. -/
structure World where
  sched : Scheduler := {}
  past : List (Scheduler × Event) := []

/-- A trap outside of the tick, as at a counter of turns that overflows, ends the run. -/
def Step (s : World) (e : Event) (t : World) : Prop :=
  e.1.run s.sched = (e.2, t.sched) ∧ t.past = s.past ++ [(s.sched, e)] ∧ (e.2 = .trap → e.1 = .schedTick)

/-- Two tasks of the queue may run, are of one priority, and none of a better priority may run. -/
def Peers (s : Scheduler) (a b : Nat) : Prop :=
  a ∈ s.runqueue ∧ b ∈ s.runqueue ∧ ∃ u v, s.tasks[a]? = some u ∧ s.tasks[b]? = some v ∧ u.eligible = true ∧
    v.eligible = true ∧ u.priority = v.priority ∧
    ∀ c ∈ s.runqueue, ∀ w, s.tasks[c]? = some w → w.eligible = true → u.priority ≤ w.priority

/-- How often `runNext` ran the task in a window of the past. -/
def runs (a : Nat) (window : List (Scheduler × Event)) : Nat :=
  window.countP fun e => match e.2 with
    | (.runNext _ _, .ok r) => r = some a
    | _ => false

/-- A window of the past up to now through which the two tasks stay peers. -/
def Window (s : World) (a b : Nat) (window : List (Scheduler × Event)) : Prop :=
  window <:+ s.past ∧ (∀ e ∈ window, Peers e.1 a b) ∧ Peers s.sched a b

/-- In no window up to now has one of two peers run more often than the other by more than a slice. -/
def Fair (s : World) : Prop := ∀ a b window, Window s a b window → runs a window ≤ runs b window + defaultSlice

def Single (s : Scheduler) : Prop := ∀ i j, Running s i → Running s j → i = j

/-- `schedule` has returned a task of the best priority, or there is none that may run. -/
def Best (s : Scheduler) : Option Nat → Prop
  | none => ∀ c ∈ s.runqueue, ¬Eligible s.tasks c
  | some i => i ∈ s.runqueue ∧ ∃ u, s.tasks[i]? = some u ∧ u.eligible = true ∧
      ∀ c ∈ s.runqueue, ∀ w, s.tasks[c]? = some w → w.eligible = true → u.priority ≤ w.priority

structure Sound (s : World) (e : Event) (t : World) : Prop where
  single : Single t.sched
  best : ∀ r, e = (.schedule, .ok r) → Best s.sched r
  fair : Fair t
  exact : e.2 ≠ .trap

/-- A peer over which the task leads by a whole slice. -/
def Leads (s : World) (a b : Nat) : Prop := ∃ window, Window s a b window ∧ runs a window = runs b window + defaultSlice

/-- At a choice no task is running but the one that comes first, unless `runNext` ends its slice. A tick fits. No turn goes
to a task that leads a peer by a whole slice: its virtual runtime has been charged past another's by then. -/
def Covered (s : World) : Call → Prop
  | .schedule => ∀ a, First s.sched.tasks s.sched.runqueue a → ∀ i, Running s.sched i → i = a
  | .schedTick => TickFits s.sched
  | .runNext _ _ => ∀ a, First s.sched.tasks s.sched.runqueue a →
      ((∀ i, Running s.sched i → i = a) ∨ ∃ u, s.sched.tasks[a]? = some u ∧ u.sliceRemaining = 1) ∧ ∀ b, ¬Leads s a b
  | _ => True

/-- What every event keeps. -/
def Good (s : World) : Prop := Single s.sched ∧ Fair s

section Steps

variable {s t : World} {e : Event} {a b i : Nat} {r : Option Nat} {window : List (Scheduler × Event)}

/-! ### Windows -/

theorem runs_concat (a : Nat) (window : List (Scheduler × Event)) (e : Scheduler × Event) :
    runs a (window ++ [e]) = runs a window + runs a [e] :=
  List.countP_append

theorem Window.step (h : Window t a b window) (hpast : t.past = s.past ++ [(s.sched, e)]) :
    window = [] ∨ ∃ w, window = w ++ [(s.sched, e)] ∧ Window s a b w := by
  obtain ⟨hsuffix, hpeers, -⟩ := h
  rw [hpast, List.suffix_concat_iff] at hsuffix
  rcases hsuffix with rfl | ⟨w, rfl, hw⟩
  · exact Or.inl rfl
  · refine Or.inr ⟨w, rfl, hw, fun x hx => hpeers x (List.mem_append_left _ hx), ?_⟩
    exact hpeers (s.sched, e) (List.mem_append_right w (List.mem_singleton_self _))

/-- A turn of a task that leads no peer by a whole slice keeps the windows fair. -/
theorem Fair.step (h : Fair s) (hpast : t.past = s.past ++ [(s.sched, e)])
    (hturn : ∀ a, runs a [(s.sched, e)] ≠ 0 → ∀ b, ¬Leads s a b) : Fair t := by
  intro a b window hwindow
  rcases hwindow.step hpast with rfl | ⟨w, rfl, hw⟩
  · exact Nat.zero_le _
  · have hbefore := h a b w hw
    rw [runs_concat, runs_concat]
    by_cases hruns : runs a [(s.sched, e)] = 0
    · omega
    · have hno : runs a w ≠ runs b w + defaultSlice := fun heq => hturn a hruns b ⟨w, hw, heq⟩
      have hone : runs a [(s.sched, e)] ≤ 1 := List.countP_le_length
      omega

/-- A turn of a task that does lead a peer by a whole slice breaks the next window. -/
theorem Leads.unfair (h : Leads s a b) (hpast : t.past = s.past ++ [(s.sched, e)]) (hpeers : Peers t.sched a b)
    (ha : runs a [(s.sched, e)] = 1) (hb : b ≠ a → runs b [(s.sched, e)] = 0) : ¬Fair t := by
  intro hfair
  obtain ⟨w, ⟨hsuffix, hbefore, hnow⟩, hlead⟩ := h
  have hwindow : Window t a b (w ++ [(s.sched, e)]) := by
    refine ⟨?_, fun x hx => ?_, hpeers⟩
    · rw [hpast, List.suffix_concat_iff]
      exact Or.inr ⟨w, rfl, hsuffix⟩
    · rcases List.mem_append.mp hx with hx | hx
      · exact hbefore x hx
      · rw [List.mem_singleton.mp hx]
        exact hnow
  have hle := hfair a b _ hwindow
  rw [runs_concat, runs_concat, hlead, ha] at hle
  by_cases hba : b = a
  · rw [hba, defaultSlice] at hlead
    omega
  · rw [hb hba] at hle
    omega

/-! ### The events -/

theorem runs_other {c : Call} {o : Outcome Empty (Option Nat)} {sched : Scheduler} (h : ∀ nowNs beginNs, c ≠ .runNext nowNs beginNs)
    (a : Nat) : runs a [(sched, (c, o))] = 0 := by
  rw [runs, List.countP_singleton]
  cases c with
  | runNext nowNs beginNs => exact absurd rfl (h nowNs beginNs)
  | createWithPrio | enqueue | dequeue | schedule | schedTick => rfl

theorem Single.quiet {s t : Scheduler} (h : Single s) (hquiet : Quiet s t) : Single t :=
  fun i j hi hj => h i j (hquiet i hi) (hquiet j hj)

/-- An event that starts no task. -/
theorem quiet_step {c : Call} {o : Outcome Empty (Option Nat)} (hgood : Good s) (hstep : Step s (c, o) t)
    (hquiet : Quiet s.sched t.sched) (hrun : ∀ nowNs beginNs, c ≠ .runNext nowNs beginNs) (hschedule : c ≠ .schedule) :
    (Sound s (c, o) t ↔ o ≠ .trap) ∧ Good t := by
  have hsingle := hgood.1.quiet hquiet
  have hfair := hgood.2.step hstep.2.1 fun a hruns => absurd (runs_other hrun a) hruns
  refine ⟨⟨fun h => h.exact, fun htrap => ⟨hsingle, fun r heq => ?_, hfair, htrap⟩⟩, hsingle, hfair⟩
  exact absurd (congrArg Prod.fst heq) hschedule

theorem best_scan (s : Scheduler) : Best s (scan s.tasks s.runqueue) := by
  cases hscan : scan s.tasks s.runqueue with
  | none => exact scan_none hscan
  | some i =>
      have hfirst := scan_first hscan
      obtain ⟨u, hu, he⟩ := hfirst.1
      exact ⟨hfirst.mem, u, hu, he, fun c hc w hw hw' => hfirst.priority_le hu hc hw hw'⟩

theorem schedule_step {o : Outcome Empty (Option Nat)} (hgood : Good s) (hstep : Step s (.schedule, o) t) :
    (Sound s (.schedule, o) t ↔ Covered s .schedule) ∧ (Covered s .schedule → Good t) := by
  obtain ⟨hrun, hpast, -⟩ := hstep
  have hother (nowNs beginNs : Nat) : Call.schedule ≠ .runNext nowNs beginNs := fun h => by cases h
  have hfair := hgood.2.step hpast fun a hruns => absurd (runs_other hother a) hruns
  rw [Call.run, schedule, pick_spec] at hrun
  obtain ⟨ho, ht⟩ := Prod.mk.inj hrun
  cases ho
  have hsound : Sound s (.schedule, .ok (scan s.sched.tasks s.sched.runqueue)) t ↔ Single t.sched := by
    refine ⟨fun h => h.single, fun h => ⟨h, fun r heq => ?_, hfair, fun htrap => ?_⟩⟩
    swap
    · cases htrap
    rw [← Outcome.ok.inj (congrArg Prod.snd heq)]
    exact best_scan s.sched
  have hiff : Single t.sched ↔ Covered s .schedule := by
    cases hscan : scan s.sched.tasks s.sched.runqueue with
    | none =>
        rw [hscan] at ht
        refine iff_of_true (ht ▸ hgood.1) fun a ha => ?_
        rw [scan_eq_some.mpr ha] at hscan
        cases hscan
    | some a =>
        rw [hscan] at ht
        have hfirst := scan_first hscan
        obtain ⟨u, hu, -⟩ := hfirst.1
        have hrunning (i : Nat) : Running t.sched i ↔ i = a ∨ Running s.sched i := by
          rw [← ht, Running, Running]
          simp only [edit_get]
          by_cases hi : i = a
          · rw [hi, hu]
            exact iff_of_true ⟨u.start, by rw [Option.map_some, if_pos rfl], rfl⟩ (Or.inl rfl)
          · simp only [if_neg (Ne.symm hi), Option.map_id', hi, false_or]
        constructor
        · intro hsingle a' ha' i hi
          rw [ha'.unique hfirst]
          exact hsingle i a ((hrunning i).mpr (Or.inr hi)) ((hrunning a).mpr (Or.inl rfl))
        · intro hcovered i j hi hj
          have honly (k : Nat) (hk : Running t.sched k) : k = a := ((hrunning k).mp hk).elim id (hcovered a hfirst k)
          rw [honly i hi, honly j hj]
  exact ⟨hsound.trans hiff, fun hcovered => ⟨hiff.mpr hcovered, hfair⟩⟩

/-! ### The turn -/

section Turn

variable {s t : Scheduler}

theorem Turn.task (h : Turn s t r) {u : Task} (hu : s.tasks[i]? = some u) :
    ∃ u', t.tasks[i]? = some u' ∧ u'.priority = u.priority ∧
      u'.state = if r = some i then (if u.sliceRemaining = 1 then .runnable else .running) else u.state := by
  have htask := h.tasks i
  rw [hu, Option.map_some] at htask
  obtain ⟨u', hu', hface⟩ := Option.map_eq_some_iff.mp htask
  simp only [Prod.mk.injEq] at hface
  exact ⟨u', hu', hface.2.1, hface.1⟩

theorem Turn.task_back (h : Turn s t r) {u' : Task} (hu' : t.tasks[i]? = some u') :
    ∃ u, s.tasks[i]? = some u ∧ u'.priority = u.priority ∧
      u'.state = if r = some i then (if u.sliceRemaining = 1 then .runnable else .running) else u.state := by
  have htask := h.tasks i
  rw [hu', Option.map_some] at htask
  obtain ⟨u, hu, -⟩ := Option.map_eq_some_iff.mp htask.symm
  obtain ⟨v, hv, hpriority, hstate⟩ := h.task hu
  rw [hu'] at hv
  cases hv
  exact ⟨u, hu, hpriority, hstate⟩

theorem Turn.running_other (h : Turn s t r) (hi : r ≠ some i) : Running t i ↔ Running s i := by
  constructor
  · rintro ⟨u', hu', hstate'⟩
    obtain ⟨u, hu, -, hstate⟩ := h.task_back hu'
    rw [if_neg hi] at hstate
    exact ⟨u, hu, hstate.symm.trans hstate'⟩
  · rintro ⟨u, hu, hstate'⟩
    obtain ⟨u', hu', -, hstate⟩ := h.task hu
    rw [if_neg hi] at hstate
    exact ⟨u', hu', hstate.trans hstate'⟩

theorem Turn.running_self (h : Turn s t (some a)) {u : Task} (hu : s.tasks[a]? = some u) :
    Running t a ↔ u.sliceRemaining ≠ 1 := by
  obtain ⟨u', hu', -, hstate⟩ := h.task hu
  rw [if_pos rfl] at hstate
  have hrunning : Running t a ↔ u'.state = .running := by
    refine ⟨?_, fun hstate => ⟨u', hu', hstate⟩⟩
    rintro ⟨v, hv, hstate⟩
    rw [hu'] at hv
    cases hv
    exact hstate
  rw [hrunning, hstate]
  split_ifs with hslice
  · exact iff_of_false (by nofun) fun hne => hne hslice
  · exact iff_of_true rfl hslice

theorem eligible_of_running {u : Task} (h : u.state = .running ∨ u.state = .runnable) : u.eligible = true := by
  rw [Task.eligible]
  rcases h with h | h <;> rw [h] <;> rfl

theorem Turn.peers (h : Turn s t (some a)) (hpeers : Peers s a b) : Peers t a b := by
  obtain ⟨ha, hb, u, v, hu, hv, heu, hev, hpriority, hbest⟩ := hpeers
  have heligible {i : Nat} {w w' : Task} (hw : s.tasks[i]? = some w) (hw' : t.tasks[i]? = some w') (hia : i ≠ a) :
      w'.eligible = w.eligible ∧ w'.priority = w.priority := by
    obtain ⟨w'', hw'', hpriority', hstate⟩ := h.task hw
    rw [hw'] at hw''
    cases hw''
    rw [if_neg fun heq => hia (Option.some.inj heq).symm] at hstate
    exact ⟨by rw [Task.eligible, Task.eligible, hstate], hpriority'⟩
  obtain ⟨u', hu', hpu, hstate⟩ := h.task hu
  have heu' : u'.eligible = true := by
    rw [if_pos rfl] at hstate
    refine eligible_of_running ?_
    rw [hstate]
    split_ifs
    · exact Or.inr rfl
    · exact Or.inl rfl
  obtain ⟨v', hv', hpv, -⟩ := h.task hv
  refine ⟨h.queue ▸ ha, h.queue ▸ hb, u', v', hu', hv', heu', ?_, ?_, ?_⟩
  · by_cases hba : b = a
    · rw [hba, hu'] at hv'
      cases hv'
      exact heu'
    · exact (heligible hv hv' hba).1.trans hev
  · rw [hpu, hpv, hpriority]
  · intro c hc w' hw' hew
    obtain ⟨w, hw, hpw, -⟩ := h.task_back hw'
    rw [hpu, hpw]
    by_cases hca : c = a
    · rw [hca, hu] at hw
      cases hw
      exact Nat.le_refl u.priority.val
    · exact hbest c (h.queue ▸ hc) w hw ((heligible hw hw' hca).1 ▸ hew)

end Turn

theorem runNext_step {nowNs beginNs : Nat} {o : Outcome Empty (Option Nat)} (hgood : Good s)
    (hstep : Step s (.runNext nowNs beginNs, o) t) :
    (Sound s (.runNext nowNs beginNs, o) t ↔ Covered s (.runNext nowNs beginNs)) ∧
      (Covered s (.runNext nowNs beginNs) → Good t) := by
  obtain ⟨hrun, hpast, htrap⟩ := hstep
  rcases o with r | e | _
  · have hturn := runNext_turn hrun
    have hruns (a : Nat) : runs a [(s.sched, (.runNext nowNs beginNs, .ok r))] = if r = some a then 1 else 0 := by
      rw [runs, List.countP_singleton]
      simp only [decide_eq_true_eq]
    have hsound : Sound s (.runNext nowNs beginNs, .ok r) t ↔ Single t.sched ∧ Fair t :=
      ⟨fun h => ⟨h.single, h.fair⟩, fun h => ⟨h.1, fun _ heq => absurd (congrArg Prod.fst heq) (by nofun), h.2, by nofun⟩⟩
    have hiff : Single t.sched ∧ Fair t ↔ Covered s (.runNext nowNs beginNs) := by
      cases r with
      | none =>
          have hno (a : Nat) : ¬First s.sched.tasks s.sched.runqueue a := fun ha => by
            have hpicked := hturn.picked
            rw [scan_eq_some.mpr ha] at hpicked
            cases hpicked
          refine iff_of_true ⟨hgood.1.quiet fun i hi => (hturn.running_other (by nofun)).mp hi, ?_⟩ fun a ha => absurd ha (hno a)
          exact hgood.2.step hpast fun a ha => absurd (hruns a) ha
      | some a =>
          have hfirst : First s.sched.tasks s.sched.runqueue a := scan_first hturn.picked.symm
          obtain ⟨u, hu, -⟩ := hfirst.1
          have hsingle : Single t.sched ↔
              (∀ i, Running s.sched i → i = a) ∨ ∃ u, s.sched.tasks[a]? = some u ∧ u.sliceRemaining = 1 := by
            have hself := hturn.running_self hu
            have hother {i : Nat} (hi : i ≠ a) : Running t.sched i ↔ Running s.sched i :=
              hturn.running_other fun heq => hi (Option.some.inj heq).symm
            by_cases hslice : u.sliceRemaining = 1
            · refine iff_of_true (fun i j hi hj => ?_) (Or.inr ⟨u, hu, hslice⟩)
              have hne {k : Nat} (hk : Running t.sched k) : k ≠ a := fun heq => hself.mp (heq ▸ hk) hslice
              exact hgood.1 i j ((hother (hne hi)).mp hi) ((hother (hne hj)).mp hj)
            · constructor
              · intro hsingle
                refine Or.inl fun i hi => ?_
                by_contra hia
                exact hia (hsingle i a ((hother hia).mpr hi) (hself.mpr hslice))
              · rintro (honly | ⟨u', hu', hslice'⟩)
                · intro i j hi hj
                  have heq {k : Nat} (hk : Running t.sched k) : k = a := by
                    by_contra hka
                    exact hka (honly k ((hother hka).mp hk))
                  rw [heq hi, heq hj]
                · rw [hu] at hu'
                  cases hu'
                  exact absurd hslice' hslice
          have hfair : Fair t ↔ ∀ b, ¬Leads s a b := by
            constructor
            · intro hfair b hleads
              obtain ⟨w, hwindow, -⟩ := id hleads
              refine hleads.unfair hpast (hturn.peers hwindow.2.2) ((hruns a).trans (if_pos rfl)) (fun hba => ?_) hfair
              exact (hruns b).trans (if_neg fun heq => hba (Option.some.inj heq).symm)
            · intro hno
              refine hgood.2.step hpast fun a' ha' => ?_
              have haa' : a = a' := by
                by_contra hne
                exact ha' ((hruns a').trans (if_neg fun heq => hne (Option.some.inj heq)))
              exact haa' ▸ hno
          rw [hsingle, hfair]
          refine ⟨fun h a' ha' => ha'.unique hfirst ▸ h, fun h => h a hfirst⟩
    exact ⟨hsound.trans hiff, hiff.mpr⟩
  · exact e.elim
  · exact absurd (htrap rfl) (by nofun)

/-- A call without a value ends as its action does. -/
theorem then_none_run {α : Type} {m : Run α} {s t : Scheduler} {o : Outcome Empty (Option Nat)}
    (h : (m >>= fun _ => (pure none : Run (Option Nat))) s = (o, t)) : ∃ o', m s = (o', t) ∧ (o = .trap ↔ o' = .trap) := by
  rw [Act.bind_run] at h
  rcases hrun : m s with ⟨x | e | _, u⟩ <;> rw [hrun] at h
  · cases h
    exact ⟨_, rfl, iff_of_false (by nofun) (by nofun)⟩
  · exact e.elim
  · cases h
    exact ⟨_, rfl, iff_of_true rfl rfl⟩

theorem step_iff (hgood : Good s) (hstep : Step s e t) : (Sound s e t ↔ Covered s e.1) ∧ (Covered s e.1 → Good t) := by
  obtain ⟨c, o⟩ := e
  have hquiet (hquiet : Quiet s.sched t.sched) (hrun : ∀ nowNs beginNs, c ≠ .runNext nowNs beginNs) (hschedule : c ≠ .schedule)
      (hcovered : o ≠ .trap ↔ Covered s c) : (Sound s (c, o) t ↔ Covered s c) ∧ (Covered s c → Good t) := by
    obtain ⟨hsound, hgood'⟩ := quiet_step hgood hstep hquiet hrun hschedule
    exact ⟨hsound.trans hcovered, fun _ => hgood'⟩
  have hreturns (htick : c ≠ .schedTick) : o ≠ .trap := fun htrap => htick (hstep.2.2 htrap)
  cases c with
  | createWithPrio prio =>
      exact hquiet (create_quiet hstep.1) (by nofun) (by nofun) (iff_of_true (hreturns (by nofun)) True.intro)
  | enqueue i =>
      obtain ⟨o', hrun, -⟩ := then_none_run hstep.1
      exact hquiet (enqueue_quiet hrun) (by nofun) (by nofun) (iff_of_true (hreturns (by nofun)) True.intro)
  | dequeue i =>
      obtain ⟨o', hrun, -⟩ := then_none_run hstep.1
      exact hquiet (dequeue_quiet hrun) (by nofun) (by nofun) (iff_of_true (hreturns (by nofun)) True.intro)
  | schedule => exact schedule_step hgood hstep
  | schedTick =>
      obtain ⟨o', hrun, htrap⟩ := then_none_run hstep.1
      obtain ⟨hquiet', hfits⟩ := tick_spec hrun
      exact hquiet hquiet' (by nofun) (by nofun) ((not_congr htrap).trans hfits)
  | runNext nowNs beginNs => exact runNext_step hgood hstep

end Steps

theorem good_init : Good {} := by
  refine ⟨?_, ?_⟩
  · rintro i j ⟨u, hu, -⟩
    cases hu
  · rintro a b window ⟨-, -, ha, -⟩
    cases ha

/-- The world behind a call. -/
def World.next (s : World) (c : Call) : World :=
  { sched := (c.run s.sched).2, past := s.past ++ [(s.sched, c, (c.run s.sched).1)] }

/-- The events of a list of calls. -/
def World.events (s : World) : List Call → List Event
  | [] => []
  | c :: calls => (c, (c.run s.sched).1) :: (s.next c).events calls

/-- Two tasks of one priority, both in the queue. -/
def Level (s : Scheduler) : Prop :=
  s.runqueue = [0, 1] ∧ s.tasks.length = 2 ∧ ∀ u ∈ s.tasks, u.priority = 120 ∧ u.eligible = true

instance (s : Scheduler) : Decidable (Level s) := inferInstanceAs (Decidable (_ ∧ _))

theorem Level.peers {s : Scheduler} (h : Level s) : Peers s 0 1 := by
  obtain ⟨hqueue, hlength, hlevel⟩ := h
  have hfirst : 0 < s.tasks.length := by omega
  have hsecond : 1 < s.tasks.length := by omega
  have hu := hlevel _ (List.getElem_mem hfirst)
  have hv := hlevel _ (List.getElem_mem hsecond)
  refine ⟨by rw [hqueue]; decide, by rw [hqueue]; decide, _, _, List.getElem?_eq_getElem hfirst,
    List.getElem?_eq_getElem hsecond, hu.2, hv.2, hu.1.trans hv.1.symm, fun c _ w hw _ => ?_⟩
  exact Nat.le_of_eq (congrArg _ (hu.1.trans (hlevel w (List.mem_of_getElem? hw)).1.symm))

end Kernel.Sched
