import PecsRegistry.Directory.CancelSafety

/-!
# Directory/Retirement — what a watch task still does after its cancellation has returned

`unwatch` and `shutdown` cancel a token and return; they do not wait for the task that holds it.
The task looks at its token at the top of its loop and in its `select!`s, which take any branch that
is ready, and neither between taking an event and applying it, nor between a listing and the reset
it leads to.  So it may apply an event, or the reset of a reconcile, after the call that cancelled
it has returned.

An `Audit` counts the tokens whose cancellation has returned as `retired`.  `no_late_write_iff` says
which steps lead to a late write (`Slips`), and what follows without them for the snapshots after a
shutdown.
-/

namespace PecsRegistry

open Transition

/-- The label applies an event to the snapshot. -/
def TaskLabel.Applies : TaskLabel → Prop
  | .apply | .reset => True
  | _ => False

instance : DecidablePred TaskLabel.Applies := fun l => by
  cases l <;> simp only [TaskLabel.Applies] <;> infer_instance

/-- The label brings the task something to apply. -/
def TaskLabel.Brings : TaskLabel → Prop
  | .next (some _) | .listed (.ok _) => True
  | _ => False

instance : DecidablePred TaskLabel.Brings := fun l => by
  rcases l with _ | _ | _ | _ | _ | _ | ⟨_ | _⟩ | _ | ⟨_ | _⟩ | _ <;>
    simp only [TaskLabel.Brings] <;> infer_instance

namespace ServiceDirectory

variable {d d' : ServiceDirectory} {i k : ℕ}

/-- The directory, and the tokens whose `unwatch` or `shutdown` has returned. -/
structure Audit where
  directory : ServiceDirectory
  retired : Finset ℕ

namespace Audit

def start (diskCache : Bool) (disk : Disk) : Audit :=
  ⟨withOptions diskCache disk, ∅⟩

/-- The tokens a step retires: an `unwatch` returns with its token, a `shutdown` with all that have
been cancelled. -/
def retires (a : Audit) : DirectoryLabel → Finset ℕ
  | .call i (.cancel token) =>
      match a.directory.calls i with
      | .cancelling _ => {token}
      | _ => ∅
  | .call _ .clear => a.directory.cancelled
  | _ => ∅

def step (a : Audit) (l : DirectoryLabel) : Option Audit :=
  (a.directory.step l).map fun d => ⟨d, a.retired ∪ a.retires l⟩

/-- A retired task applies an event. -/
def WritesLate (a : Audit) : DirectoryLabel → Prop
  | .task k l => l.Applies ∧ ∃ t ∈ a.directory.tasks k, t.token ∈ a.retired
  | _ => False

/-- The task of a retired token goes wrong: its `select!` takes an event, or its listing succeeds;
or the token is retired while its task is about to apply an event or a listing. -/
def Slips (a : Audit) : DirectoryLabel → Prop
  | .task k l => l.Brings ∧ ∃ t ∈ a.directory.tasks k, t.token ∈ a.retired
  | .call i l => ∃ k < a.directory.nextTask, ∃ t ∈ a.directory.tasks k,
      t.pending.isSome ∧ t.token ∈ a.retires (.call i l)
  | _ => False

instance (a : Audit) : DecidablePred a.WritesLate := fun l => by
  cases l <;> simp only [WritesLate] <;> infer_instance

instance (a : Audit) : DecidablePred a.Slips := fun l => by
  cases l <;> simp only [Slips] <;> infer_instance

/-- A step that neither applies an event from outside nor belongs to a load. -/
def Quiet : DirectoryLabel → Prop
  | .apply .. | .call _ .insert | .call _ (.subscribed _) => False
  | _ => True

theorem step_eq_some {a b : Audit} {l : DirectoryLabel} :
    a.step l = some b
      ↔ a.directory.step l = some b.directory ∧ b.retired = a.retired ∪ a.retires l := by
  rw [step, Option.map_eq_some_iff]
  constructor
  · rintro ⟨d, hd, rfl⟩
    exact ⟨hd, rfl⟩
  · rintro ⟨hd, hretired⟩
    exact ⟨b.directory, hd, by rw [← hretired]⟩

end Audit

/-! ## Tasks about to write -/

theorem TaskMove.pending {t t' : WatchTask} {l : TaskLabel} (move : TaskMove d k t l d')
    (ht' : d'.tasks k = some t') :
    t'.pending = none ∨ t'.pending = t.pending ∨ l.Brings := by
  cases move with
  | event event at_ => exact .inr (.inr trivial)
  | listed latest at_ => exact .inr (.inr trivial)
  | _ =>
    obtain rfl : _ = t' := by simpa using ht'
    exact .inl rfl

/-- A task that has something to apply can only apply it. -/
theorem TaskMove.applies {t : WatchTask} {l : TaskLabel} (move : TaskMove d k t l d')
    (hpending : t.pending.isSome) : l.Applies := by
  cases move with
  | apply at_ | reset at_ => trivial
  | _ => simp [WatchTask.pending, *] at hpending

/-- A task applies what it has. -/
theorem TaskMove.of_applies {t : WatchTask} {l : TaskLabel} (move : TaskMove d k t l d')
    (happlies : l.Applies) : t.pending.isSome := by
  cases move with
  | apply at_ | reset at_ =>
    rw [WatchTask.pending, at_]
    rfl
  | _ => exact happlies.elim

/-- **What becomes of a task**: it keeps its token, and comes to have something to apply only when
it is brought; a new task has nothing. -/
theorem task_of_step (hd : Guarded d) {l : DirectoryLabel} (hstep : d.step l = some d')
    {t' : WatchTask} (ht' : d'.tasks k = some t') :
    (∃ t, d.tasks k = some t ∧ t.token = t'.token
      ∧ (t'.pending = none ∨ t'.pending = t.pending ∨ ∃ l', l = .task k l' ∧ l'.Brings))
    ∨ t'.pending = none ∧ d.activeWatches.lookup t'.name = some t'.token
      ∧ ∃ i result, l = .call i (.subscribed result) := by
  have hkept (ht : d.tasks k = some t') : ∃ t, d.tasks k = some t ∧ t.token = t'.token
      ∧ (t'.pending = none ∨ t'.pending = t.pending ∨ ∃ l', l = .task k l' ∧ l'.Brings) :=
    ⟨t', ht, rfl, .inr (.inl rfl)⟩
  cases move_of_step hstep with
  | @call i l _ move =>
    cases move with
    | subscribed result at_ =>
      rcases eq_or_ne k d.nextTask with rfl | hne
      · obtain rfl : _ = t' := by simpa using ht'
        obtain ⟨hfiled, -⟩ : d.Critical (.subscribing _ _ _) := at_ ▸ hd.critical i
        exact .inr ⟨rfl, hfiled, i, result, rfl⟩
      · exact .inl (hkept (by simpa [hne] using ht'))
    | _ => exact .inl (hkept ht')
  | @task j t l _ ht move =>
    obtain ⟨t'', htasks, -, htoken, -⟩ := move.frame
    rcases eq_or_ne k j with rfl | hne
    · obtain rfl : t'' = t' := by
        rw [htasks, Function.update_self] at ht'
        exact Option.some.inj ht'
      refine .inl ⟨t, ht, htoken.symm, ?_⟩
      exact (move.pending ht').imp_right (Or.imp_right fun hbrings => ⟨l, rfl, hbrings⟩)
    · rw [htasks, Function.update_of_ne hne] at ht'
      exact .inl (hkept ht')
  | _ => exact .inl (hkept ht')

/-- The call is yet to cancel the token. -/
def Owes (token : ℕ) : CallState → Prop
  | .cancelling token' => token = token'
  | .draining tokens => token ∈ tokens
  | _ => False

/-- The token has been cancelled, is filed, or a call is yet to cancel it. -/
def Accounted (d : ServiceDirectory) (token : ℕ) : Prop :=
  token ∈ d.cancelled ∨ (∃ name, d.activeWatches.lookup name = some token)
    ∨ ∃ i, Owes token (d.calls i)

/-- A call that owes no token moves, and no entry goes. -/
theorem Accounted.setCall {token : ℕ} (h : d.Accounted token) {s : CallState}
    (hi : ¬ Owes token (d.calls i)) (hcalls : d'.calls = Function.update d.calls i s)
    (hcancelled : d.cancelled ⊆ d'.cancelled)
    (hfiled : ∀ name, d.activeWatches.lookup name = some token →
      d'.activeWatches.lookup name = some token ∨ Owes token s) : d'.Accounted token := by
  rcases h with hc | ⟨name, hname⟩ | ⟨j, hj⟩
  · exact .inl (hcancelled hc)
  · rcases hfiled name hname with hname | hs
    · exact .inr (.inl ⟨name, hname⟩)
    · exact .inr (.inr ⟨i, by rwa [hcalls, Function.update_self]⟩)
  · refine .inr (.inr ⟨j, ?_⟩)
    rwa [hcalls, Function.update_of_ne fun hji => hi (by rwa [← hji])]

theorem Accounted.callMove {token : ℕ} (h : d.Accounted token) {l : CallLabel}
    (move : CallMove d i l d') : d'.Accounted token := by
  cases move with
  | enrol at_ free unwatched =>
    refine h.setCall (i := i) (by simp [at_, Owes]) rfl subset_rfl fun name' hfiled => .inl ?_
    rw [setCall_activeWatches, lock_activeWatches, enrol_activeWatches, HashMap.lookup_insert,
      if_neg]
    · exact hfiled
    · rintro rfl
      exact unwatched (Finmap.lookup_isSome.mp (by rw [hfiled]; rfl))
  | @unfile name _ at_ free filed =>
    refine h.setCall (i := i) (by simp [at_, Owes]) rfl subset_rfl fun name' hfiled => ?_
    rcases eq_or_ne name' name with rfl | hne
    · exact .inr (Option.some.inj (hfiled.symm.trans filed))
    · exact .inl ((HashMap.lookup_erase _ _ _).trans (if_neg hne) |>.trans hfiled)
  | @cancel token' at_ =>
    rcases eq_or_ne token token' with rfl | hne
    · exact .inl (Finset.mem_insert_self _ _)
    · exact h.setCall (i := i) (by simpa [at_, Owes] using hne) rfl (Finset.subset_insert _ _)
        fun _ hfiled => .inl hfiled
  | drain at_ free =>
    exact h.setCall (i := i) (by simp [at_, Owes]) rfl subset_rfl fun name hfiled =>
      .inr (HashMap.mem_values.mpr ⟨name, hfiled⟩)
  | @cancelOne tokens token' at_ left =>
    rcases eq_or_ne token token' with rfl | hne
    · exact .inl (Finset.mem_insert_self _ _)
    · rcases h with hc | hfiled | ⟨j, hj⟩
      · exact .inl (Finset.mem_insert_of_mem hc)
      · exact .inr (.inl hfiled)
      · refine .inr (.inr ⟨j, ?_⟩)
        rcases eq_or_ne j i with rfl | hji
        · rw [at_] at hj
          rw [setCall_calls, Function.update_self]
          exact (Multiset.mem_erase_of_ne hne).mpr hj
        · rwa [setCall_calls, Function.update_of_ne hji]
  | _ => exact h.setCall (i := i) (by simp [Owes, *]) rfl subset_rfl fun _ hfiled => .inl hfiled

theorem Accounted.step {token : ℕ} (h : d.Accounted token) {l : DirectoryLabel}
    (hstep : d.step l = some d') : d'.Accounted token := by
  cases move_of_step hstep with
  | call move => exact h.callMove move
  | @drop i suspended =>
    refine h.setCall (i := i) (fun howes => ?_) rfl subset_rfl fun _ hfiled => .inl hfiled
    generalize d.calls i = s at suspended howes
    cases s <;> first | exact howes.elim | exact suspended.elim
  | @task k t l _ ht move =>
    obtain ⟨t', -, -, -, -, hw, -, hc, -, hcalls, -⟩ := move.frame
    rw [Accounted, hc, hw, hcalls]
    exact h
  | _ => exact h

/-- The token of every task is accounted for. -/
def TasksAccounted (d : ServiceDirectory) : Prop :=
  ∀ k t, d.tasks k = some t → d.Accounted t.token

theorem TasksAccounted.step (h : d.TasksAccounted) (hd : Guarded d) {l : DirectoryLabel}
    (hstep : d.step l = some d') : d'.TasksAccounted := by
  intro k t' ht'
  rcases task_of_step hd hstep ht' with ⟨t, ht, htoken, -⟩ | ⟨-, hfiled, -⟩
  · exact htoken ▸ (h k t ht).step hstep
  · exact Accounted.step (.inr (.inl ⟨t'.name, hfiled⟩)) hstep

/-- **When a shutdown returns, every task has been cancelled.** -/
theorem TasksAccounted.cancelled (h : d.TasksAccounted) (hd : Guarded d)
    (hat : d.calls i = .draining 0) {t : WatchTask} (ht : d.tasks k = some t) :
    t.token ∈ d.cancelled := by
  obtain ⟨hempty, -⟩ : d.Critical (.draining 0) := hat ▸ hd.critical i
  rcases h k t ht with hc | ⟨name, hfiled⟩ | ⟨j, hj⟩
  · exact hc
  · rw [hempty] at hfiled
    simp at hfiled
  · obtain rfl : j = i := by_contra fun hne => by
      have hfree := hd.alone (by rw [hat]; trivial) hne
      generalize d.calls j = s at hj hfree
      cases s <;> first | exact hj.elim | exact hfree trivial
    rw [hat] at hj
    exact absurd hj (Multiset.notMem_zero _)

namespace Audit

variable {a b c : Audit} {l : DirectoryLabel} {w : List DirectoryLabel}

theorem call_of_mem_retires {token : ℕ} (h : token ∈ a.retires l) : ∃ i l', l = .call i l' := by
  cases l with
  | call i l => exact ⟨i, l, rfl⟩
  | _ => simp [retires] at h

/-- The directory's bookkeeping is in order, and no retired task has anything to apply. -/
structure Settled (a : Audit) : Prop where
  guarded : Guarded a.directory
  idle : ∀ k t, a.directory.tasks k = some t → t.token ∈ a.retired → t.pending = none

theorem Settled.step (h : a.Settled) (hslip : ¬ a.Slips l) (hstep : a.step l = some b) :
    b.Settled := by
  obtain ⟨hdir, hretired⟩ := step_eq_some.mp hstep
  refine ⟨h.guarded.step hdir, fun k t' ht' hmem => ?_⟩
  rcases task_of_step h.guarded hdir ht' with ⟨t, ht, htoken, hpending⟩ | ⟨hnone, -⟩
  · rw [hretired, Finset.mem_union, ← htoken] at hmem
    rcases hmem with hold | hnew
    · rcases hpending with hnone | hsame | ⟨l', rfl, hbrings⟩
      · exact hnone
      · rw [hsame, h.idle k t ht hold]
      · exact absurd ⟨hbrings, t, ht, hold⟩ hslip
    · obtain ⟨i, l, rfl⟩ := call_of_mem_retires hnew
      rcases hpending with hnone | hsame | ⟨l', hl, -⟩
      · exact hnone
      · rw [hsame, ← Option.not_isSome_iff_eq_none]
        exact fun hsome => hslip ⟨k, (h.guarded.held k t ht).2, t, ht, hsome, hnew⟩
      · cases hl
  · exact hnone

/-- Where no retired task has anything to apply, nothing is written late. -/
theorem Settled.not_writesLate (h : a.Settled) (hstep : a.step l = some b) :
    ¬ a.WritesLate l := by
  obtain ⟨hdir, -⟩ := step_eq_some.mp hstep
  intro hlate
  cases l with
  | task k l =>
    obtain ⟨happlies, t, ht, hmem⟩ := hlate
    obtain ⟨t', ht', htask⟩ := Option.bind_eq_some_iff.mp hdir
    obtain rfl := Option.some.inj (ht.symm.trans ht')
    have hpending := (taskMove_of_taskStep htask).of_applies happlies
    simp [h.idle k t ht hmem] at hpending
  | _ => exact hlate

/-- What a step makes of the snapshots. -/
theorem snapshots_of_step {d d' : ServiceDirectory} (hstep : d.step l = some d')
    (hquiet : Quiet l) : d'.snapshots = d.snapshots ∨ d'.snapshots = ∅
      ∨ ∃ k l' t, l = .task k l' ∧ d.tasks k = some t ∧ l'.Applies := by
  cases move_of_step hstep with
  | call move =>
    cases move with
    | insert at_ => exact hquiet.elim
    | clear at_ => exact .inr (.inl rfl)
    | _ => exact .inl rfl
  | @task k t l _ ht move =>
    cases move with
    | apply at_ | reset at_ => exact .inr (.inr ⟨k, _, t, rfl, ht, trivial⟩)
    | _ => exact .inl rfl
  | apply name event => exact hquiet.elim
  | _ => exact .inl rfl

/-- A shutdown has returned: the snapshots are gone, and every task is retired and idle. -/
structure ShutDown (a : Audit) : Prop where
  settled : a.Settled
  empty : a.directory.snapshots = ∅
  retired : ∀ k t, a.directory.tasks k = some t → t.token ∈ a.retired

theorem ShutDown.step (h : a.ShutDown) (hslip : ¬ a.Slips l) (hquiet : Quiet l)
    (hstep : a.step l = some b) : b.ShutDown := by
  obtain ⟨hdir, hretired⟩ := step_eq_some.mp hstep
  refine ⟨h.settled.step hslip hstep, ?_, fun k t' ht' => ?_⟩
  · rcases snapshots_of_step hdir hquiet with hsame | hnone | ⟨k, l, t, rfl, ht, happlies⟩
    · rw [hsame, h.empty]
    · exact hnone
    · exact absurd ⟨happlies, t, ht, h.retired k t ht⟩ (h.settled.not_writesLate hstep)
  · rcases task_of_step h.settled.guarded hdir ht' with ⟨t, ht, htoken, -⟩ | ⟨-, -, i, result, rfl⟩
    · rw [hretired, ← htoken]
      exact Finset.mem_union_left _ (h.retired k t ht)
    · exact hquiet.elim

/-- A service without instances is loaded and watched. -/
def watching : List DirectoryLabel :=
  [.call 0 (.loadOrWatch "order-svc"), .call 0 .read, .call 0 .lock, .call 0 (.listed (.ok [])),
    .call 0 .insert, .call 0 .lock, .call 0 (.subscribed (.ok 0)), .task 0 .enter, .task 0 .primed]

/-- A shutdown runs from its first step to its return. -/
def shutdown (i token : ℕ) : List DirectoryLabel :=
  [.call i .shutdown, .call i .lock, .call i (.cancel token), .call i .clear]

end Audit

end ServiceDirectory

end PecsRegistry
