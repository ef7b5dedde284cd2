import PecsRegistry.Directory.CancelSafety
import PecsRegistry.Provider.Nacos

/-!
# Directory/Backoff — which reconnects of a watch task wait

`run_watch_loop` sleeps when `registry.watch` fails, and then for one to ten seconds
(`retryBackoff_bounds`).  When a stream it was given ends, it goes straight back to the top of its
loop and watches again.  So a registry whose streams end at once makes it spin (`nacos_spins`).

A `Monitor` follows one task from outside: whether its stream has been silent so far, whether it has
just ended so, and whether a sleep is due since.  `backed_off_iff` says which runs keep every such
reconnect waiting.
-/

namespace PecsRegistry

open Transition

namespace ServiceDirectory

variable {d d' : ServiceDirectory} {k : ℕ}

/-! ## How long a backoff lasts -/

/-- **A backoff lasts between one and ten seconds.** -/
theorem retryBackoff_bounds (diskCache : Bool) (disk : Disk)
    {w : List DirectoryLabel} (hrun : run step (withOptions diskCache disk) w = some d)
    {t : WatchTask} (ht : d.tasks k = some t) : 1 ≤ t.retryBackoff ∧ t.retryBackoff ≤ 10 := by
  refine preserved_run
    (I := fun d : ServiceDirectory => ∀ k t, d.tasks k = some t →
      1 ≤ t.retryBackoff ∧ t.retryBackoff ≤ 10)
    (fun d l d' h hstep k t' ht' => ?_) (fun k t ht => by simp [withOptions] at ht) hrun k t ht
  by_cases hl : ∃ l', l = .task k l'
  · obtain ⟨l, rfl⟩ := hl
    obtain ⟨t, ht, htask⟩ := Option.bind_eq_some_iff.mp hstep
    have hold := h k t ht
    cases taskMove_of_taskStep htask <;> obtain rfl : _ = t' := by simpa using ht'
    all_goals
      simp only
      omega
  · rcases task_of_foreign_step hstep ht' (not_exists.mp hl) with ht | ⟨-, hone⟩
    · exact h k t' ht
    · omega

/-! ## Watching the watchers -/

/-- What is known of a watch task from outside: the stream it has established has yielded nothing so
far (`silent`), its last step was the end of such a stream (`ended`), and since such an end no sleep
of a second or more has completed (`owing`). -/
structure Monitor where
  silent : Bool
  ended : Bool
  owing : Bool
deriving DecidableEq

/-- What a step of the task changes.  A task that stops at the top of its loop establishes
nothing. -/
def Monitor.next (m : Monitor) (t : WatchTask) : TaskLabel → Monitor
  | .enter => { m with silent := t.initialStream.isSome, ended := false }
  | .watched result => { m with silent := result.toOption.isSome, ended := false }
  | .next (some _) => { m with silent := false, ended := false }
  | .next none => ⟨false, m.silent, m.owing || m.silent⟩
  | .slept => { m with ended := false, owing := m.owing && t.retryBackoff < 1 }
  | _ => { m with ended := false }

/-- The directory, and a monitor for each of its tasks. -/
structure Monitored where
  directory : ServiceDirectory
  monitors : ℕ → Monitor

namespace Monitored

variable {a b : Monitored} {l : DirectoryLabel}

def start (diskCache : Bool) (disk : Disk) : Monitored :=
  ⟨withOptions diskCache disk, fun _ => ⟨false, false, false⟩⟩

/-- What the monitors make of a step. -/
def note (a : Monitored) : DirectoryLabel → ℕ → Monitor
  | .task k l =>
      match a.directory.tasks k with
      | some t => Function.update a.monitors k ((a.monitors k).next t l)
      | none => a.monitors
  | _ => a.monitors

def step (a : Monitored) (l : DirectoryLabel) : Option Monitored :=
  (a.directory.step l).map fun d => ⟨d, a.note l⟩

/-- The task calls `registry.watch` while it owes a sleep. -/
def Spins (a : Monitored) : DirectoryLabel → Prop
  | .task k .enter => (a.monitors k).owing = true ∧ ∃ t ∈ a.directory.tasks k,
      t.state = .entering ∧ t.token ∉ a.directory.cancelled ∧ t.initialStream = none
  | _ => False

/-- A task whose stream has just ended without an event has been cancelled by the time it looks at
its token. -/
def CalledOff (a : Monitored) (l : DirectoryLabel) : Prop :=
  ∀ k, l = .task k .enter → (a.monitors k).ended = true →
    ∃ t ∈ a.directory.tasks k, t.token ∈ a.directory.cancelled

instance (a : Monitored) : DecidablePred a.Spins := fun l => by
  rcases l with _ | _ | ⟨_, _ | _ | _ | _ | _ | _ | _ | _ | _ | _⟩ | _ | _ <;> simp only [Spins] <;>
    infer_instance

theorem Spins.enter (h : a.Spins l) : ∃ k, l = .task k .enter ∧ (a.monitors k).owing = true
    ∧ ∃ t ∈ a.directory.tasks k, t.state = .entering ∧ t.token ∉ a.directory.cancelled := by
  cases l with
  | task k l =>
    cases l with
    | enter =>
      obtain ⟨howing, t, ht, hentering, hlive, -⟩ := h
      exact ⟨k, rfl, howing, t, ht, hentering, hlive⟩
    | _ => exact h.elim
  | _ => exact h.elim

theorem step_eq_some :
    a.step l = some b ↔ a.directory.step l = some b.directory ∧ b.monitors = a.note l := by
  rw [step, Option.map_eq_some_iff]
  constructor
  · rintro ⟨d, hd, rfl⟩
    exact ⟨hd, rfl⟩
  · rintro ⟨hd, hmonitors⟩
    exact ⟨b.directory, hd, by rw [← hmonitors]⟩

/-! ## What the monitors know -/

/-- A task past the top of its loop has used up its initial stream; one whose stream has just ended
in silence owes a sleep and is back at the top of its loop. -/
structure Sound (a : Monitored) : Prop where
  guarded : Guarded a.directory
  spent : ∀ k t, a.directory.tasks k = some t →
    t.state = .entering ∨ t.state = .stopped ∨ t.initialStream = none
  ended : ∀ k, (a.monitors k).ended = true → (a.monitors k).owing = true
    ∧ ∃ t, a.directory.tasks k = some t ∧ t.state = .entering ∧ t.initialStream = none

/-- A task that owes a sleep has just seen its stream end, or has stopped. -/
def Repaid (a : Monitored) : Prop :=
  ∀ k, (a.monitors k).owing = true → (a.monitors k).ended = true
    ∨ ∃ t, a.directory.tasks k = some t ∧ t.state = .stopped

theorem sound_start (diskCache : Bool) (disk : Disk) :
    (start diskCache disk).Sound :=
  ⟨guarded_withOptions diskCache disk, fun _ _ ht => by simp [start, withOptions] at ht,
    fun _ hended => by simp [start] at hended⟩

theorem repaid_start (diskCache : Bool) (disk : Disk) :
    (start diskCache disk).Repaid := fun _ howing => by simp [start] at howing

theorem monitors_of_ne (hl : ∀ l', l ≠ .task k l') : a.note l k = a.monitors k := by
  cases l with
  | task j l =>
    have hne : k ≠ j := fun hkj => hl l (by rw [hkj])
    cases ht : a.directory.tasks j with
    | none => simp [note, ht]
    | some t => simp [note, ht, hne]
  | _ => rfl

theorem monitors_self {l : TaskLabel} {t : WatchTask} (ht : a.directory.tasks k = some t) :
    a.note (.task k l) k = (a.monitors k).next t l := by
  rw [note, ht]
  exact Function.update_self ..

/-- A task uses up its initial stream when it moves past the top of its loop. -/
theorem spent_of_move {t t' : WatchTask} {l : TaskLabel} (move : TaskMove d k t l d')
    (ht' : d'.tasks k = some t')
    (h : t.state = .entering ∨ t.state = .stopped ∨ t.initialStream = none) :
    t'.state = .entering ∨ t'.state = .stopped ∨ t'.initialStream = none := by
  cases move with
  | watch at_ live initial =>
    obtain rfl : _ = t' := by simpa using ht'
    exact .inr (.inr initial)
  | _ =>
    obtain rfl : _ = t' := by simpa using ht'
    simp_all

/-- What the end of a stream leaves a monitor with. -/
theorem Monitor.ended_next {m : Monitor} {t : WatchTask} {l : TaskLabel}
    (h : (m.next t l).ended = true) : l = .next none ∧ m.silent = true := by
  rcases l with _ | _ | _ | _ | _ | _ | _ | _ | ⟨_ | _⟩ | _ <;> simp_all [Monitor.next]

theorem Sound.step (h : a.Sound) (hstep : a.step l = some b) : b.Sound := by
  obtain ⟨d', monitors⟩ := b
  obtain ⟨hdir, rfl⟩ := step_eq_some.mp hstep
  refine ⟨h.guarded.step hdir, fun k t' ht' => ?_, fun k hended => ?_⟩
  · by_cases hl : ∃ l', l = .task k l'
    · obtain ⟨l, rfl⟩ := hl
      obtain ⟨t, ht, htask⟩ := Option.bind_eq_some_iff.mp hdir
      exact spent_of_move (taskMove_of_taskStep htask) ht' (h.spent k t ht)
    · rcases task_of_foreign_step hdir ht' (not_exists.mp hl) with ht | ⟨hentering, -⟩
      · exact h.spent k t' ht
      · exact .inl hentering
  · by_cases hl : ∃ l', l = .task k l'
    · obtain ⟨l, rfl⟩ := hl
      obtain ⟨t, ht, htask⟩ := Option.bind_eq_some_iff.mp hdir
      simp only [monitors_self ht] at hended ⊢
      obtain ⟨rfl, hsilent⟩ := Monitor.ended_next hended
      refine ⟨by simp [Monitor.next, hsilent], ?_⟩
      cases taskMove_of_taskStep htask with
      | ended at_ =>
        have hspent : t.initialStream = none := by simpa [at_] using h.spent k t ht
        exact ⟨_, Function.update_self .., rfl, hspent⟩
    · have hforeign := not_exists.mp hl
      simp only [monitors_of_ne hforeign] at hended ⊢
      obtain ⟨howing, t, ht, hstate⟩ := h.ended k hended
      exact ⟨howing, t, h.guarded.task_kept hdir ht hforeign, hstate⟩

/-- What a monitor owes, it owed before, or it is left with by the end of a silent stream. -/
theorem Monitor.owing_next {m : Monitor} {t : WatchTask} {l : TaskLabel}
    (h : (m.next t l).owing = true) : (m.next t l).ended = true ∨ m.owing = true := by
  rcases l with _ | _ | _ | _ | _ | _ | _ | _ | ⟨_ | _⟩ | _ <;> simp_all [Monitor.next, or_comm]

/-- **A task that is called off stops**, and does not reconnect. -/
theorem Repaid.step (h : a.Repaid) (hsound : a.Sound) (hoff : a.CalledOff l)
    (hstep : a.step l = some b) : b.Repaid := by
  obtain ⟨d', monitors⟩ := b
  obtain ⟨hdir, rfl⟩ := step_eq_some.mp hstep
  intro k howing
  by_cases hl : ∃ l', l = .task k l'
  · obtain ⟨l, rfl⟩ := hl
    obtain ⟨t, ht, htask⟩ := Option.bind_eq_some_iff.mp hdir
    simp only [monitors_self ht] at howing ⊢
    refine (Monitor.owing_next howing).imp_right fun hold => ?_
    have move := taskMove_of_taskStep htask
    rcases h k hold with hended | ⟨t₀, ht₀, hstop⟩
    · obtain ⟨-, t₀, ht₀, hentering, hinitial⟩ := hsound.ended k hended
      obtain rfl := Option.some.inj (ht.symm.trans ht₀)
      cases move with
      | leave at_ stop => exact ⟨_, Function.update_self .., rfl⟩
      | first at_ live initial => simp [hinitial] at initial
      | watch at_ live initial =>
        obtain ⟨t', ht', hcancelled⟩ := hoff k rfl hended
        obtain rfl := Option.some.inj (ht.symm.trans ht')
        exact absurd hcancelled live
      | _ => simp_all
    · obtain rfl := Option.some.inj (ht.symm.trans ht₀)
      cases move <;> simp_all
  · have hforeign := not_exists.mp hl
    simp only [monitors_of_ne hforeign] at howing ⊢
    refine (h k howing).imp_right fun ⟨t, ht, hstop⟩ => ?_
    exact ⟨t, hsound.guarded.task_kept hdir ht hforeign, hstop⟩

/-! ## Runs -/

/-- **Backoff of silent streams, exactly.**  Along a run every task whose stream has ended without
an event completes a sleep of a second or more before it calls `registry.watch` again, if and only
if every such task has been cancelled by the time it next looks at its token. -/
theorem backed_off_iff (diskCache : Bool) (disk : Disk)
    (w : List DirectoryLabel) :
    EachStep step (fun a l => ¬ a.Spins l) (start diskCache disk) w
      ↔ EachStep step (fun a l => a.CalledOff l) (start diskCache disk) w := by
  constructor
  · refine EachStep.imp_of_invariant (fun _ _ _ h _ => h.step) (fun a l h hspins => ?_)
      (sound_start diskCache disk)
    rintro k rfl hended
    obtain ⟨howing, t, ht, hentering, hinitial⟩ := h.ended k hended
    exact ⟨t, ht, by_contra fun hlive => hspins ⟨howing, t, ht, hentering, hlive, hinitial⟩⟩
  · refine EachStep.imp_of_invariant (I := fun a => a.Sound ∧ a.Repaid)
      (fun _ _ _ h hoff hstep => ⟨h.1.step hstep, h.2.step h.1 hoff hstep⟩)
      (fun a l h hoff hspins => ?_) ⟨sound_start diskCache disk, repaid_start diskCache disk⟩
    obtain ⟨k, rfl, howing, t, ht, hentering, hlive⟩ := hspins.enter
    rcases h.2 k howing with hended | ⟨t', ht', hstop⟩
    · obtain ⟨t', ht', hcancelled⟩ := hoff k rfl hended
      obtain rfl := Option.some.inj (ht.symm.trans ht')
      exact hlive hcancelled
    · obtain rfl := Option.some.inj (ht.symm.trans ht')
      simp [hentering] at hstop

end Monitored

/-! ## A registry whose streams end at once -/

/-- The task is at the top of its loop without a stream, and the next one it asks for is `n`. -/
def AtTop (n : ℕ) (sys : Deployment Nacos) : Prop :=
  sys.registry.nextStream = n
    ∧ ∃ t, sys.directory.tasks 0 = some t ∧ t.state = .entering ∧ t.initialStream = none
      ∧ t.token ∉ sys.directory.cancelled

/-- One lap of the loop: the task watches, and the stream it gets ends. -/
def lap (stream : ℕ) : List DirectoryLabel :=
  [.task 0 .enter, .task 0 (.watched (.ok stream)), .task 0 .primed, .task 0 (.next none)]

theorem run_lap {config : NacosConfig} {n : ℕ} {sys : Deployment Nacos} (h : AtTop n sys) :
    ∃ sys', run (Nacos.provider config).step sys ((lap n).map .inl) = some sys'
      ∧ AtTop (n + 1) sys' := by
  obtain ⟨d, reg⟩ := sys
  obtain ⟨rfl, t, ht, hentering, hinitial, hlive⟩ := h
  replace ht : d.tasks 0 = some t := ht
  replace hlive : t.token ∉ d.cancelled := hlive
  have henter : d.step (.task 0 .enter) = some (d.setTask 0 { t with state := .watching }) := by
    rw [step, ht, Option.bind_some, hentering, taskStep, if_neg hlive, hinitial]
  have hquery : d.query (.task 0 .enter) = none := by
    rw [query, ht]
    rfl
  refine ⟨_, run_cons_eq_some.mpr ⟨⟨_, reg⟩, Provider.step_inl_eq_some.mpr ⟨?_, henter⟩,
    run_cons_eq_some.mpr ⟨⟨_, _⟩, Provider.step_inl_eq_some.mpr ⟨if_pos rfl, rfl⟩, rfl⟩⟩, ?_⟩
  · rw [hquery]
    rfl
  · exact ⟨rfl, _, rfl, rfl, hinitial, hlive⟩

/-- **Nacos makes the loop spin**: however many times the task is to reconnect, it does so without a
single sleep. -/
theorem nacos_spins {config : NacosConfig} {n : ℕ} {sys : Deployment Nacos} (h : AtTop n sys)
    (m : ℕ) : ∃ sys', run (Nacos.provider config).step sys
        (((List.range' n m).flatMap lap).map .inl) = some sys' ∧ AtTop (n + m) sys' := by
  induction m generalizing n sys with
  | zero => exact ⟨sys, rfl, h⟩
  | succ m ih =>
    obtain ⟨mid, hlap, htop⟩ := run_lap h
    obtain ⟨sys', hlaps, htop'⟩ := ih htop
    refine ⟨sys', ?_, by rwa [Nat.add_right_comm] at htop'⟩
    rw [List.range'_succ, List.flatMap_cons, List.map_append]
    exact run_append_eq_some.mpr ⟨mid, hlap, hlaps⟩

namespace Monitored

/-- A service is loaded, its first stream ends without an event, and the task watches again. -/
def reconnect : List DirectoryLabel :=
  [.call 0 (.loadOrWatch "order-svc"), .call 0 .read, .call 0 .lock, .call 0 (.listed (.ok [])),
    .call 0 .insert, .call 0 .lock, .call 0 (.subscribed (.ok 0)), .task 0 .enter, .task 0 .primed,
    .task 0 (.next none), .task 0 .enter]

/-- **An unslept reconnect**, and Nacos gives every answer that leads there. -/
theorem reconnects_at_once :
    (run (Nacos.provider { serverAddr := "127.0.0.1:8848" }).step
        ⟨withOptions false ∅, ⟨fun _ => .failed, 0⟩⟩ (reconnect.map .inl)).isSome
      ∧ ¬ ∀ diskCache disk w,
        EachStep step (fun a l => ¬ a.Spins l) (start diskCache disk) w := by
  refine ⟨by decide +kernel, fun h => ?_⟩
  exact absurd (h false ∅ reconnect) (by decide +kernel)

end Monitored

end ServiceDirectory

end PecsRegistry
