import PecsRegistry.Directory.Moves

/-!
# Directory/CancelSafety — which services of `active_watches` have a running watch task

`load_or_watch` trusts an entry of `active_watches` to have a live `run_watch_loop` behind it
(`WatchersRunning`).  The entry is filed before the first subscription is awaited and the task is
spawned after it, so the one step that breaks the promise is dropping the future in between:
`watchersRunning_iff` says so for every run.

Two invariants carry it.  `Guarded` holds of every run: who holds the guard, and which tokens are
filed, held and cancelled.  `Attended` is kept by every other step: behind each entry there is a
task, or a call about to spawn it.
-/

namespace PecsRegistry

open Transition

/-- The call holds the guard of `active_watches`. -/
def CallState.Holds : CallState → Prop
  | subscribing .. | cancelling _ | draining _ => True
  | _ => False

namespace ServiceDirectory

variable {d d' : ServiceDirectory} {i k : ℕ}

/-- Task `k` serves an entry: it holds the token filed for the service, and has not stopped. -/
def Serves (d : ServiceDirectory) (k : ℕ) (name : String) (token : ℕ) : Prop :=
  ∃ t, d.tasks k = some t ∧ t.name = name ∧ t.token = token ∧ t.state ≠ .stopped

/-- **Every service of `active_watches` has a watch task**: spawned, holding the stored token, and
not terminated. -/
def WatchersRunning (d : ServiceDirectory) : Prop :=
  ∀ name token, d.activeWatches.lookup name = some token → ∃ k, d.Serves k name token

/-- The step drops the future of a `load_or_watch` that awaits its first subscription. -/
def AbandonsWatch (d : ServiceDirectory) : DirectoryLabel → Prop
  | .drop i => ∃ name instances token, d.calls i = .subscribing name instances token
  | _ => False

/-! ## Guards and tokens -/

/-- What the holder of the guard has set up so far. -/
def Critical (d : ServiceDirectory) : CallState → Prop
  | .subscribing name _ token =>
      d.activeWatches.lookup name = some token ∧ ∀ k t, d.tasks k = some t → t.token ≠ token
  | .cancelling token =>
      token < d.nextToken ∧ ∀ name, d.activeWatches.lookup name ≠ some token
  | .draining tokens => d.activeWatches = ∅ ∧ ∀ token ∈ tokens, token < d.nextToken
  | _ => True

theorem critical_of_not_holds {s : CallState} (h : ¬ s.Holds) : d.Critical s := by
  cases s <;> first | trivial | exact absurd trivial h

/-- The bookkeeping of guards and tokens, kept by every step. -/
structure Guarded (d : ServiceDirectory) : Prop where
  holder : ∀ i, (d.calls i).Holds → d.lockedBy = some i
  critical : ∀ i, d.Critical (d.calls i)
  filed : ∀ name token, d.activeWatches.lookup name = some token →
    token < d.nextToken ∧ token ∉ d.cancelled
  injective : ∀ name name' token, d.activeWatches.lookup name = some token →
    d.activeWatches.lookup name' = some token → name = name'
  issued : ∀ token ∈ d.cancelled, token < d.nextToken
  held : ∀ k t, d.tasks k = some t → t.token < d.nextToken ∧ k < d.nextTask
  stopped : ∀ k t, d.tasks k = some t → t.state = .stopped → t.token ∈ d.cancelled

theorem guarded_withOptions (diskCache : Bool) (disk : Disk) :
    Guarded (withOptions diskCache disk) := by
  constructor <;> simp [withOptions, CallState.Holds, Critical]

/-- While the guard is free no call is in its critical section. -/
theorem Guarded.not_holds (h : Guarded d) (free : d.lockedBy = none) (i : ℕ) :
    ¬ (d.calls i).Holds := fun hi => by simp [h.holder i hi] at free

/-- The holder of the guard is alone in its critical section. -/
theorem Guarded.alone (h : Guarded d) (hi : (d.calls i).Holds) {j : ℕ} (hne : j ≠ i) :
    ¬ (d.calls j).Holds :=
  fun hj => hne (Option.some.inj ((h.holder j hj).symm.trans (h.holder i hi)))

/-- Where at most call `i` is in its critical section, only its state is to be checked. -/
theorem guarded_of_alone {s : CallState} (alone : ∀ j, j ≠ i → ¬ (d.calls j).Holds)
    (own : s.Holds → d.lockedBy = some i) (critical : d.Critical s)
    (filed : ∀ name token, d.activeWatches.lookup name = some token →
      token < d.nextToken ∧ token ∉ d.cancelled)
    (injective : ∀ name name' token, d.activeWatches.lookup name = some token →
      d.activeWatches.lookup name' = some token → name = name')
    (issued : ∀ token ∈ d.cancelled, token < d.nextToken)
    (held : ∀ k t, d.tasks k = some t → t.token < d.nextToken ∧ k < d.nextTask)
    (stopped : ∀ k t, d.tasks k = some t → t.state = .stopped → t.token ∈ d.cancelled) :
    Guarded (d.setCall i s) := by
  refine ⟨?_, ?_, filed, injective, issued, held, stopped⟩
  · exact (Function.forall_update_iff d.calls fun j c => c.Holds → d.lockedBy = some j).mpr
      ⟨own, fun j hne hj => absurd hj (alone j hne)⟩
  · exact (Function.forall_update_iff d.calls fun _ c => d.Critical c).mpr
      ⟨critical, fun j hne => critical_of_not_holds (alone j hne)⟩

/-- A call moves to a state outside its critical section. -/
theorem Guarded.setCall (h : Guarded d) {s : CallState} (hs : ¬ s.Holds) :
    Guarded (d.setCall i s) := by
  refine { h with holder := ?_, critical := ?_ }
  · exact (Function.forall_update_iff d.calls fun j c => c.Holds → d.lockedBy = some j).mpr
      ⟨fun hj => absurd hj hs, fun j _ => h.holder j⟩
  · exact (Function.forall_update_iff d.calls fun _ c => d.Critical c).mpr
      ⟨critical_of_not_holds hs, fun j _ => h.critical j⟩

theorem Guarded.store (h : Guarded d) (name : String) (instances : List ServiceInstance) :
    Guarded (d.store name instances) := { h with }

theorem Guarded.persistToDisk (h : Guarded d) (name : String) (instances : List ServiceInstance) :
    Guarded (d.persistToDisk name instances) := { h with }

theorem Guarded.callMove (h : Guarded d) {l : CallLabel} (move : CallMove d i l d') :
    Guarded d' := by
  cases move with
  | loadOrWatch | unwatch | shutdown | read | fastPath | slowPath | listFailed | recovered
  | recoverFailed | ensured | unfiled => exact h.setCall id
  | listed => exact (h.persistToDisk _ _).setCall id
  | insert => exact (h.store _ _).setCall id
  | enrol at_ free unwatched =>
    refine guarded_of_alone (fun j _ => h.not_holds free j) (fun _ => rfl)
      ⟨Finmap.lookup_insert _, fun k t ht => (h.held k t ht).1.ne⟩ (fun name' token hfiled => ?_)
      (fun name₁ name₂ token h₁ h₂ => ?_)
      (fun token hc => (h.issued token hc).trans_le (Nat.le_succ _))
      (fun k t ht => ⟨(h.held k t ht).1.trans (Nat.lt_succ_self _), (h.held k t ht).2⟩) h.stopped
    · simp only [lock_activeWatches, enrol_activeWatches, HashMap.lookup_insert] at hfiled
      split_ifs at hfiled
      · obtain rfl := Option.some.inj hfiled
        exact ⟨Nat.lt_succ_self _, fun hc => (h.issued _ hc).false⟩
      · exact ⟨(h.filed _ _ hfiled).1.trans (Nat.lt_succ_self _), (h.filed _ _ hfiled).2⟩
    · simp only [lock_activeWatches, enrol_activeWatches, HashMap.lookup_insert] at h₁ h₂
      have := h.filed
      have := h.injective
      grind
  | subscribed result at_ =>
    obtain ⟨hfiled, hfree⟩ : d.Critical (.subscribing _ _ _) := at_ ▸ h.critical i
    refine guarded_of_alone (fun j => h.alone (by rw [at_]; trivial)) (fun hs => hs.elim) trivial
      h.filed h.injective h.issued (fun k t ht => ?_) (fun k t ht => ?_)
    · rcases update_eq_some.mp ht with ⟨rfl, rfl⟩ | ⟨-, hold⟩
      · exact ⟨(h.filed _ _ hfiled).1, Nat.lt_succ_self _⟩
      · obtain ⟨h1, h2⟩ := h.held k t hold
        exact ⟨h1, h2.trans (Nat.lt_succ_self _)⟩
    · rcases update_eq_some.mp ht with ⟨rfl, rfl⟩ | ⟨-, hold⟩
      · exact fun hstop => by simp at hstop
      · exact h.stopped k t hold
  | unfile at_ free filed =>
    refine guarded_of_alone (fun j _ => h.not_holds free j) (fun _ => rfl)
      ⟨(h.filed _ _ filed).1, fun name' hfiled => ?_⟩
      (fun name' token hfiled => h.filed _ _ (HashMap.lookup_of_lookup_erase hfiled))
      (fun _ _ _ h₁ h₂ => h.injective _ _ _ (HashMap.lookup_of_lookup_erase h₁)
        (HashMap.lookup_of_lookup_erase h₂)) h.issued h.held h.stopped
    obtain rfl := h.injective _ _ _ (HashMap.lookup_of_lookup_erase hfiled) filed
    simp at hfiled
  | cancel at_ =>
    obtain ⟨hlt, hunfiled⟩ : d.Critical (.cancelling _) := at_ ▸ h.critical i
    refine guarded_of_alone (fun j => h.alone (by rw [at_]; trivial)) (fun hs => hs.elim) trivial
      (fun name token hfiled => ⟨(h.filed _ _ hfiled).1, fun hc => ?_⟩) h.injective
      ((Finset.forall_mem_insert _ _ _).mpr ⟨hlt, h.issued⟩) h.held
      (fun k t ht hstop => Finset.mem_insert_of_mem (h.stopped k t ht hstop))
    rcases Finset.mem_insert.mp hc with rfl | hc
    · exact hunfiled _ hfiled
    · exact (h.filed _ _ hfiled).2 hc
  | drain at_ free =>
    refine guarded_of_alone (fun j _ => h.not_holds free j) (fun _ => rfl) ⟨rfl, fun token ht => ?_⟩
      (fun name token hfiled => by simp at hfiled) (fun _ _ token hfiled => by simp at hfiled)
      h.issued h.held h.stopped
    obtain ⟨name, hfiled⟩ := HashMap.mem_values.mp ht
    exact (h.filed _ _ hfiled).1
  | cancelOne at_ left =>
    obtain ⟨hempty, hlt⟩ : d.Critical (.draining _) := at_ ▸ h.critical i
    have hholds : (d.calls i).Holds := by rw [at_]; trivial
    refine guarded_of_alone (fun j => h.alone hholds) (fun _ => h.holder i hholds)
      ⟨hempty, fun token ht => hlt token (Multiset.mem_of_mem_erase ht)⟩
      (fun name token hfiled => ?_) h.injective
      ((Finset.forall_mem_insert _ _ _).mpr ⟨hlt _ left, h.issued⟩) h.held
      (fun k t ht hstop => Finset.mem_insert_of_mem (h.stopped k t ht hstop))
    rw [cancel_activeWatches, hempty] at hfiled
    simp at hfiled
  | clear at_ =>
    exact guarded_of_alone (fun j => h.alone (by rw [at_]; trivial)) (fun hs => hs.elim) trivial
      h.filed h.injective h.issued h.held h.stopped

theorem Guarded.taskMove (h : Guarded d) {t : WatchTask} {l : TaskLabel} (ht : d.tasks k = some t)
    (move : TaskMove d k t l d') : Guarded d' := by
  obtain ⟨t', htasks, hname, htoken, hstop, hw, hl, hc, hn, hcalls, hnext⟩ := move.frame
  have htask : ∀ k' t'', d'.tasks k' = some t'' →
      d.tasks k' = some t'' ∨ k' = k ∧ t'' = t' := by
    intro k' t'' ht''
    rw [htasks] at ht''
    exact (update_eq_some.mp ht'').symm.imp_left And.right
  refine ⟨?_, ?_, ?_, ?_, ?_, ?_, ?_⟩
  · rw [hcalls, hl]
    exact h.holder
  · intro i
    rw [hcalls]
    have hcrit := h.critical i
    generalize d.calls i = s at hcrit
    cases s with
    | subscribing name instances token =>
      refine ⟨hw ▸ hcrit.1, fun k' t'' ht'' => ?_⟩
      rcases htask k' t'' ht'' with hold | ⟨rfl, rfl⟩
      · exact hcrit.2 k' t'' hold
      · exact htoken ▸ hcrit.2 _ t ht
    | cancelling token =>
      rw [Critical, hn, hw]
      exact hcrit
    | draining tokens =>
      rw [Critical, hn, hw]
      exact hcrit
    | _ => trivial
  · rw [hw, hn, hc]
    exact h.filed
  · rw [hw]
    exact h.injective
  · rw [hc, hn]
    exact h.issued
  · intro k' t'' ht''
    rw [hn, hnext]
    rcases htask k' t'' ht'' with hold | ⟨rfl, rfl⟩
    · exact h.held k' t'' hold
    · exact htoken ▸ h.held _ t ht
  · intro k' t'' ht'' hstopped
    rw [hc]
    rcases htask k' t'' ht'' with hold | ⟨rfl, rfl⟩
    · exact h.stopped k' t'' hold hstopped
    · exact hstop hstopped

theorem Guarded.drop (h : Guarded d) (i : ℕ) : Guarded
    ({ d with lockedBy := if d.lockedBy = some i then none else d.lockedBy }.setCall i
      .dropped) := by
  refine { h with holder := ?_, critical := ?_ }
  · refine (Function.forall_update_iff d.calls fun j c => c.Holds →
      (if d.lockedBy = some i then none else d.lockedBy) = some j).mpr ⟨fun hj => hj.elim, ?_⟩
    intro j hne hj
    have hlock := h.holder j hj
    simp [hlock, hne]
  · exact (Function.forall_update_iff d.calls fun _ c => d.Critical c).mpr
      ⟨trivial, fun j _ => h.critical j⟩

/-- **The bookkeeping is kept by every step.** -/
theorem Guarded.step (h : Guarded d) {l : DirectoryLabel} (hstep : d.step l = some d') :
    Guarded d' := by
  cases move_of_step hstep with
  | call move => exact h.callMove move
  | drop suspended => exact h.drop _
  | task ht move => exact h.taskMove ht move
  | apply name event => exact { h with }
  | persist written pending => exact { h with }

/-- Nobody else moves a task. -/
theorem Guarded.task_kept (h : Guarded d) {l : DirectoryLabel} (hstep : d.step l = some d')
    {t : WatchTask} (ht : d.tasks k = some t) (hl : ∀ l', l ≠ .task k l') :
    d'.tasks k = some t := by
  cases move_of_step hstep with
  | @call i l _ move =>
    cases move with
    | subscribed result at_ => simpa [(h.held k t ht).2.ne] using ht
    | _ => exact ht
  | @task j t' l _ ht' move =>
    have hne : k ≠ j := fun hkj => hl l (by rw [hkj])
    obtain ⟨t'', htasks, -⟩ := move.frame
    rw [htasks, Function.update_of_ne hne, ht]
  | _ => exact ht

/-! ## Entries and tasks -/

/-- Behind every entry there is a task, or the call that is about to spawn it. -/
def Attended (d : ServiceDirectory) : Prop :=
  ∀ name token, d.activeWatches.lookup name = some token →
    (∃ k, d.Serves k name token) ∨ ∃ i instances, d.calls i = .subscribing name instances token

/-- While the guard is free, only tasks are left to attend. -/
theorem Attended.watchersRunning (h : Attended d) (hd : Guarded d) (free : d.lockedBy = none) :
    WatchersRunning d := fun name token hfiled =>
  (h name token hfiled).resolve_right fun ⟨i, _, hi⟩ =>
    hd.not_holds free i (by rw [hi]; trivial)

/-- Entries may go, tasks stay, and a call that was not subscribing moves. -/
theorem Attended.mono (h : Attended d) {s : CallState}
    (hi : ∀ name instances token, d.calls i ≠ .subscribing name instances token)
    (hcalls : d'.calls = Function.update d.calls i s) (htasks : d'.tasks = d.tasks)
    (hw : ∀ name token, d'.activeWatches.lookup name = some token →
      d.activeWatches.lookup name = some token) : Attended d' := fun name token hfiled => by
  rcases h name token (hw name token hfiled) with ⟨k, t, ht, hk⟩ | ⟨j, instances, hj⟩
  · exact .inl ⟨k, t, htasks ▸ ht, hk⟩
  · refine .inr ⟨j, instances, ?_⟩
    rw [hcalls, Function.update_of_ne (fun hji => hi _ _ _ (by rw [← hji, hj]))]
    exact hj

theorem Attended.callMove (h : Attended d) (hd : Guarded d) {l : CallLabel}
    (move : CallMove d i l d') : Attended d' := by
  cases move with
  | enrol at_ free unwatched =>
    intro name' token hfiled
    simp only [setCall_activeWatches, lock_activeWatches, enrol_activeWatches,
      HashMap.lookup_insert] at hfiled
    split_ifs at hfiled with hname
    · obtain rfl := Option.some.inj hfiled
      exact .inr ⟨i, _, by rw [hname, setCall_calls, Function.update_self]⟩
    · exact .inl (h.watchersRunning hd free name' token hfiled)
  | subscribed result at_ =>
    intro name' token' hfiled
    have hholds : (d.calls i).Holds := by rw [at_]; trivial
    obtain ⟨hown, -⟩ : d.Critical (.subscribing _ _ _) := at_ ▸ hd.critical i
    rcases h name' token' hfiled with ⟨k, t, ht, hname, htoken, hlive⟩ | ⟨j, instances', hj⟩
    · refine .inl ⟨k, t, ?_, hname, htoken, hlive⟩
      simpa [(hd.held k t ht).2.ne] using ht
    · obtain rfl : j = i := by_contra fun hne => hd.alone hholds hne (by rw [hj]; trivial)
      obtain ⟨rfl, -, rfl⟩ := CallState.subscribing.inj (at_.symm.trans hj)
      exact .inl ⟨d.nextTask, ⟨_, _, result.toOption, 1, .entering⟩, by simp, rfl, rfl, by simp⟩
  | unfile at_ free filed =>
    exact h.mono (by simp [at_]) rfl rfl fun _ _ => HashMap.lookup_of_lookup_erase
  | drain at_ free => exact fun name token hfiled => by simp at hfiled
  | _ => exact h.mono (i := i) (by simp [*]) rfl rfl fun _ _ hfiled => hfiled

theorem Attended.taskMove (h : Attended d) (hd : Guarded d) {t : WatchTask} {l : TaskLabel}
    (ht : d.tasks k = some t) (move : TaskMove d k t l d') : Attended d' := by
  obtain ⟨t', htasks, hname, htoken, hstop, hw, -, -, -, hcalls, -⟩ := move.frame
  intro name token hfiled
  rw [hw] at hfiled
  rcases h name token hfiled with ⟨k', t'', ht'', hname'', htoken'', hlive⟩ | ⟨j, instances, hj⟩
  · rcases eq_or_ne k' k with rfl | hne
    · -- the task keeps serving: its token is filed, hence not cancelled
      obtain rfl : t = t'' := Option.some.inj (ht.symm.trans ht'')
      refine .inl ⟨k', t', by rw [htasks, Function.update_self], hname.trans hname'',
        htoken.trans htoken'', fun hstopped => ?_⟩
      exact (hd.filed name token hfiled).2 (htoken'' ▸ htoken ▸ hstop hstopped)
    · refine .inl ⟨k', t'', ?_, hname'', htoken'', hlive⟩
      rw [htasks, Function.update_of_ne hne, ht'']
  · exact .inr ⟨j, instances, hcalls ▸ hj⟩

/-- **Entries stay attended**, unless a call is dropped at its first subscription. -/
theorem Attended.step (h : Attended d) (hd : Guarded d) {l : DirectoryLabel}
    (hkeep : ¬ d.AbandonsWatch l) (hstep : d.step l = some d') : Attended d' := by
  cases move_of_step hstep with
  | call move => exact h.callMove hd move
  | @drop i suspended =>
    exact h.mono (i := i) (fun _ _ _ hi => hkeep ⟨_, _, _, hi⟩) rfl rfl fun _ _ hfiled => hfiled
  | task ht move => exact h.taskMove hd ht move
  | apply name event => exact h
  | persist written pending => exact h

/-- **An abandoned watch is never made up for**: the guard is released, the entry stays, and no task
holds its token. -/
theorem Guarded.not_watchersRunning (h : Guarded d) {l : DirectoryLabel} (hl : d.AbandonsWatch l) :
    ∃ d', d.step l = some d' ∧ d'.lockedBy = none ∧ ¬ WatchersRunning d' := by
  cases l with
  | drop i =>
    obtain ⟨name, instances, token, hi⟩ := hl
    obtain ⟨hfiled, hfree⟩ : d.Critical (.subscribing _ _ _) := hi ▸ h.critical i
    have hlock := h.holder i (by rw [hi]; trivial)
    refine ⟨_, by rw [ServiceDirectory.step, dropCall, if_pos (by rw [hi]; trivial)],
      by simp [hlock],
      fun hrun => ?_⟩
    obtain ⟨k, t, ht, -, htoken, -⟩ := hrun name token hfiled
    exact hfree k t ht htoken
  | _ => exact hl.elim

/-! ## Runs -/

/-- **Cancel safety, exactly.**  Along a run every service of `active_watches` has a running watch
task whenever the mutex is free, if and only if no `load_or_watch` is dropped while it awaits its
first subscription. -/
theorem watchersRunning_iff (diskCache : Bool) (disk : Disk)
    (w : List DirectoryLabel) :
    EachState step (fun d => d.lockedBy = none → WatchersRunning d) (withOptions diskCache disk) w
      ↔ EachStep step (fun d l => ¬ d.AbandonsWatch l) (withOptions diskCache disk) w := by
  have hinit := guarded_withOptions diskCache disk
  constructor
  · refine eachStep_of_eachState (D := fun _ _ => True) (fun _ _ _ hd _ => hd.step)
      (fun d l hd _ hl => ?_) hinit (eachStep_of_forall_mem fun _ _ => trivial)
    obtain ⟨d', hstep, hfree, hbad⟩ := hd.not_watchersRunning (not_not.mp hl)
    exact ⟨d', hstep, fun hrun => hbad (hrun hfree)⟩
  · intro hw
    have hattended : EachState step (fun d => Guarded d ∧ Attended d) _ w :=
      eachState_of_invariant (fun d l d' hd hl hstep => ⟨hd.1.step hstep, hd.2.step hd.1 hl hstep⟩)
        ⟨hinit, fun name token hfiled => by simp [withOptions] at hfiled⟩ hw
    exact hattended.imp fun d hd => hd.2.watchersRunning hd.1

/-- **A watcher that never starts.**  The caller of `load_or_watch` gives up while the first
subscription is awaited. -/
theorem abandoned_watch :
    ¬ ∀ w, EachState step (fun d => d.lockedBy = none → WatchersRunning d)
      (withOptions false ∅) w := by
  intro h
  have hlast := h [.call 0 (.loadOrWatch "order-svc"), .call 0 .read, .call 0 .lock,
    .call 0 (.listed (.ok [])), .call 0 .insert, .call 0 .lock, .drop 0]
  obtain ⟨k, t, ht, -⟩ := hlast.last rfl rfl "order-svc" 0 (by decide +kernel)
  exact absurd ht (by simp [withOptions])

end ServiceDirectory

end PecsRegistry
