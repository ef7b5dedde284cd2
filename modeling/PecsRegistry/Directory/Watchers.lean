import PecsRegistry.Directory.CancelSafety

/-!
# Directory/Watchers — who watches, and who holds the guard

`active_watches` has an entry for each service that is watched, under a guard that calls hold across
await points.  Two facts about every run, whatever is dropped or cancelled on the way:

* no service is watched twice: of the watch tasks of a service at most one has not been cancelled,
  and while the guard is free it is the one on file (`single_watcher`);
* the guard is not lost: it is held exactly by the call in its critical section, which can always
  go on alone and give it back (`guard_released`).
-/

namespace PecsRegistry

open Transition

namespace ServiceDirectory

variable {d d' : ServiceDirectory} {i k : ℕ}

/-! ## Who watches -/

/-- The call has taken the token off file and is about to cancel it. -/
def Revokes (token : ℕ) : CallState → Prop
  | .cancelling token' => token' = token
  | .draining tokens => token ∈ tokens
  | _ => False

theorem holds_of_revokes {token : ℕ} {s : CallState} (h : Revokes token s) : s.Holds := by
  cases s <;> trivial

/-- Only the call in its critical section cancels. -/
theorem Guarded.eq_of_revokes (h : Guarded d) (hi : (d.calls i).Holds) {j token : ℕ}
    (hj : Revokes token (d.calls j)) : j = i :=
  by_contra fun hne => h.alone hi hne (holds_of_revokes hj)

/-- Every task that has not been cancelled is on file, or about to be cancelled, and is the only one
of its service. -/
structure Watched (d : ServiceDirectory) : Prop where
  guarded : d.Guarded
  filed : ∀ k t, d.tasks k = some t → t.token ∉ d.cancelled →
    d.activeWatches.lookup t.name = some t.token ∨ ∃ i, Revokes t.token (d.calls i)
  unique : ∀ k k' t t', d.tasks k = some t → d.tasks k' = some t' → t.name = t'.name →
    t.token ∉ d.cancelled → t'.token ∉ d.cancelled → k = k'

theorem watched_withOptions (diskCache : Bool) (disk : Disk) :
    Watched (withOptions diskCache disk) :=
  ⟨guarded_withOptions diskCache disk, fun k t ht => (by cases ht),
    fun k k' t t' ht => (by cases ht)⟩

/-- While the guard is free every task that has not been cancelled is on file. -/
theorem Watched.on_file (h : Watched d) (free : d.lockedBy = none) {t : WatchTask}
    (ht : d.tasks k = some t) (hlive : t.token ∉ d.cancelled) :
    d.activeWatches.lookup t.name = some t.token := by
  refine (h.filed k t ht hlive).resolve_right ?_
  rintro ⟨i, hi⟩
  exact h.guarded.not_holds free i (holds_of_revokes hi)

/-- A step that cancels nothing, takes nothing off file and spawns nothing. -/
theorem Watched.quiet (h : Watched d) (hguarded : d'.Guarded)
    (htasks : ∀ k t', d'.tasks k = some t' →
      ∃ t, d.tasks k = some t ∧ t.name = t'.name ∧ t.token = t'.token)
    (hwatches : d'.activeWatches = d.activeWatches) (hcancelled : d'.cancelled = d.cancelled)
    (hcalls : ∀ j token, Revokes token (d.calls j) → Revokes token (d'.calls j)) :
    Watched d' := by
  refine ⟨hguarded, fun k t' ht' hlive => ?_, fun k₁ k₂ t₁' t₂' ht₁' ht₂' hname hlive₁ hlive₂ => ?_⟩
  · obtain ⟨t, ht, hname, htoken⟩ := htasks k t' ht'
    rw [hcancelled, ← htoken] at hlive
    rw [hwatches, ← hname, ← htoken]
    exact (h.filed k t ht hlive).imp_right fun ⟨j, hj⟩ => ⟨j, hcalls j _ hj⟩
  · obtain ⟨t₁, ht₁, hname₁, htoken₁⟩ := htasks k₁ t₁' ht₁'
    obtain ⟨t₂, ht₂, hname₂, htoken₂⟩ := htasks k₂ t₂' ht₂'
    rw [hcancelled, ← htoken₁] at hlive₁
    rw [hcancelled, ← htoken₂] at hlive₂
    exact h.unique k₁ k₂ t₁ t₂ ht₁ ht₂ (hname₁.trans (hname.trans hname₂.symm)) hlive₁ hlive₂

/-- A step that cancels one token; the other cancellations stay pending. -/
theorem Watched.cancels {token : ℕ} (h : Watched d) (hguarded : d'.Guarded)
    (htasks : d'.tasks = d.tasks) (hwatches : d'.activeWatches = d.activeWatches)
    (hcancelled : d'.cancelled = insert token d.cancelled)
    (hcalls : ∀ j other, other ≠ token → Revokes other (d.calls j) →
      ∃ j', Revokes other (d'.calls j')) :
    Watched d' := by
  have hlives : ∀ other, other ∉ d'.cancelled → other ≠ token ∧ other ∉ d.cancelled := by
    intro other hlive
    rw [hcancelled, Finset.mem_insert] at hlive
    exact not_or.mp hlive
  refine ⟨hguarded, fun k t ht hlive => ?_, fun k k' t t' ht ht' hname hlive hlive' => ?_⟩
  · rw [htasks] at ht
    obtain ⟨hne, hlive⟩ := hlives _ hlive
    rw [hwatches]
    refine (h.filed k t ht hlive).imp_right ?_
    rintro ⟨j, hj⟩
    exact hcalls j _ hne hj
  · rw [htasks] at ht ht'
    exact h.unique k k' t t' ht ht' hname (hlives _ hlive).2 (hlives _ hlive').2

/-- A call that moves on without cancelling leaves the others' cancellations pending. -/
theorem revokes_update {s : CallState} (hs : ∀ token, ¬ Revokes token (d.calls i)) (j token : ℕ)
    (hj : Revokes token (d.calls j)) : Revokes token (Function.update d.calls i s j) := by
  rw [Function.update_of_ne]
  · exact hj
  · rintro rfl
    exact hs _ hj

theorem Watched.callMove (h : Watched d) {l : CallLabel} (move : CallMove d i l d') :
    Watched d' := by
  have hguarded := h.guarded.callMove move
  have hsame : ∀ k t', d.tasks k = some t' →
      ∃ t, d.tasks k = some t ∧ t.name = t'.name ∧ t.token = t'.token :=
    fun k t' ht' => ⟨t', ht', rfl, rfl⟩
  cases move with
  | @enrol name instances at_ free unwatched =>
    refine ⟨hguarded, fun k t ht hlive => .inl ?_, h.unique⟩
    have hfiled := h.on_file free ht hlive
    rw [setCall_activeWatches, lock_activeWatches, enrol_activeWatches, HashMap.lookup_insert,
      if_neg, hfiled]
    intro hname
    exact unwatched (Finmap.lookup_isSome.mp (by rw [← hname, hfiled]; rfl))
  | @subscribed name instances token result at_ =>
    obtain ⟨hfiled, hfresh⟩ : d.Critical (.subscribing name instances token) :=
      at_ ▸ h.guarded.critical i
    have hholds : (d.calls i).Holds := by rw [at_]; trivial
    have hold : ∀ k t, d.tasks k = some t → t.token ∉ d.cancelled →
        d.activeWatches.lookup t.name = some t.token := by
      intro k t ht hlive
      refine (h.filed k t ht hlive).resolve_right ?_
      rintro ⟨j, hj⟩
      obtain rfl := h.guarded.eq_of_revokes hholds hj
      rw [at_] at hj
      exact hj
    -- a task of the service that is still live would have the token of the new one
    have hother : ∀ k t, d.tasks k = some t → t.token ∉ d.cancelled → t.name ≠ name := by
      rintro k t ht hlive rfl
      exact hfresh k t ht (Option.some.inj ((hold k t ht hlive).symm.trans hfiled))
    refine ⟨hguarded, fun k t ht hlive => .inl ?_, fun k k' t t' ht ht' hname hlive hlive' => ?_⟩
    · rcases update_eq_some.mp ht with ⟨-, rfl⟩ | ⟨-, ht⟩
      · exact hfiled
      · exact hold k t ht hlive
    · rcases update_eq_some.mp ht with ⟨rfl, rfl⟩ | ⟨-, ht⟩ <;>
        rcases update_eq_some.mp ht' with ⟨rfl, rfl⟩ | ⟨-, ht'⟩
      · rfl
      · exact absurd hname.symm (hother k' t' ht' hlive')
      · exact absurd hname (hother k t ht hlive)
      · exact h.unique k k' t t' ht ht' hname hlive hlive'
  | @unfile name token at_ free filed =>
    refine ⟨hguarded, fun k t ht hlive => ?_, h.unique⟩
    have hfiled := h.on_file free ht hlive
    by_cases hname : t.name = name
    · right
      refine ⟨i, ?_⟩
      rw [setCall_calls, Function.update_self]
      exact Option.some.inj (filed.symm.trans (hname ▸ hfiled))
    · left
      rw [setCall_activeWatches, lock_activeWatches, HashMap.lookup_erase, if_neg hname, hfiled]
  | @cancel token at_ =>
    have hholds : (d.calls i).Holds := by rw [at_]; trivial
    refine h.cancels hguarded rfl rfl rfl fun j other hne hj => ?_
    obtain rfl := h.guarded.eq_of_revokes hholds hj
    rw [at_] at hj
    exact absurd hj.symm hne
  | drain at_ free =>
    refine ⟨hguarded, fun k t ht hlive => .inr ⟨i, ?_⟩, h.unique⟩
    rw [setCall_calls, Function.update_self]
    exact HashMap.mem_values.mpr ⟨t.name, h.on_file free ht hlive⟩
  | @cancelOne tokens token at_ left =>
    have hholds : (d.calls i).Holds := by rw [at_]; trivial
    refine h.cancels hguarded rfl rfl rfl fun j other hne hj => ⟨j, ?_⟩
    obtain rfl := h.guarded.eq_of_revokes hholds hj
    rw [at_] at hj
    rw [setCall_calls, Function.update_self]
    exact (Multiset.mem_erase_of_ne hne).mpr hj
  | clear at_ =>
    exact h.quiet hguarded hsame rfl rfl (revokes_update fun token hr => by
      rw [at_] at hr
      exact Multiset.notMem_zero token hr)
  | loadOrWatch name at_ | unwatch name at_ | shutdown at_ | read at_ | fastPath at_ | slowPath at_
  | listed instances at_ | listFailed err at_ | recovered at_ | recoverFailed at_ | insert at_
  | ensured at_ | unfiled at_ =>
    exact h.quiet hguarded hsame rfl rfl (revokes_update fun token hr => by
      rw [at_] at hr
      exact hr)

/-- **Every step keeps this.** -/
theorem Watched.step (h : Watched d) {l : DirectoryLabel} (hstep : d.step l = some d') :
    Watched d' := by
  have hguarded := h.guarded.step hstep
  cases move_of_step hstep with
  | call move => exact h.callMove move
  | @drop i suspended =>
    refine h.quiet hguarded (fun k t ht => ⟨t, ht, rfl, rfl⟩) rfl rfl
      (revokes_update fun token hr => ?_)
    cases hcall : d.calls i <;> simp_all [CallState.Suspended, Revokes]
  | @task k t l _ ht move =>
    obtain ⟨t', htasks, hname, htoken, -, hwatches, -, hcancelled, -, hcalls, -⟩ := move.frame
    refine h.quiet hguarded (fun k' t'' ht'' => ?_) hwatches hcancelled
      fun j token hj => hcalls ▸ hj
    rw [htasks] at ht''
    rcases update_eq_some.mp ht'' with ⟨rfl, rfl⟩ | ⟨-, ht''⟩
    · exact ⟨t, ht, hname.symm, htoken.symm⟩
    · exact ⟨t'', ht'', rfl, rfl⟩
  | apply name event =>
    exact h.quiet hguarded (fun k t ht => ⟨t, ht, rfl, rfl⟩) rfl rfl fun _ _ hj => hj
  | persist written pending =>
    exact h.quiet hguarded (fun k t ht => ⟨t, ht, rfl, rfl⟩) rfl rfl fun _ _ hj => hj

/-- **No service is watched twice.**  In every reachable state at most one of the watch tasks of a
service has not been cancelled; while the guard is free that one is on file. -/
theorem single_watcher (diskCache : Bool) (disk : Disk)
    {w : List DirectoryLabel} (hrun : run step (withOptions diskCache disk) w = some d) :
    (∀ k k' t t', d.tasks k = some t → d.tasks k' = some t' → t.name = t'.name →
      t.token ∉ d.cancelled → t'.token ∉ d.cancelled → k = k')
    ∧ (d.lockedBy = none → ∀ k t, d.tasks k = some t → t.token ∉ d.cancelled →
      d.activeWatches.lookup t.name = some t.token) := by
  have h : Watched d := preserved_run (fun _ _ _ h hstep => h.step hstep)
    (watched_withOptions diskCache disk) hrun
  exact ⟨h.unique, fun free k t ht hlive => h.on_file free ht hlive⟩

/-- Call `i` loads a service, which has no instances. -/
def loading (i : ℕ) (name : String) : List DirectoryLabel :=
  [.call i (.loadOrWatch name), .call i .read, .call i .lock, .call i (.listed (.ok [])),
    .call i .insert, .call i .lock, .call i (.subscribed (.ok i))]

/-- A service is watched, unwatched and watched again; its first task has not noticed yet. -/
def rewatched : List DirectoryLabel :=
  loading 0 "order-svc" ++ [.call 1 (.unwatch "order-svc"), .call 1 .lock, .call 1 (.cancel 0)]
    ++ loading 2 "order-svc"

/-- `single_watcher` where two tasks of a service are still there. -/
theorem single_watcher_rewatched : ∃ d t t', run step (withOptions false ∅) rewatched = some d
    ∧ d.tasks 0 = some t ∧ d.tasks 1 = some t' ∧ t.name = t'.name
    ∧ d.activeWatches.lookup t'.name = some t'.token := by
  obtain ⟨d, hrun⟩ : ∃ d, run step (withOptions false ∅) rewatched = some d := ⟨_, rfl⟩
  have honFile := (single_watcher false ∅ hrun).2
  obtain rfl := Option.some.inj hrun
  exact ⟨_, _, _, hrun, rfl, rfl, rfl, honFile rfl 1 _ rfl (by decide)⟩

/-! ## Who holds the guard -/

/-- The guard is held by a call in its critical section, and by no other. -/
def Kept (d : ServiceDirectory) : Prop := ∀ i, d.lockedBy = some i → (d.calls i).Holds

/-- A call outside its critical section does not hold the guard. -/
theorem Kept.setCall (h : Kept d) {s : CallState} (hi : ¬ (d.calls i).Holds) :
    Kept (d.setCall i s) := by
  intro j hj
  have hholds := h j hj
  rw [setCall_calls, Function.update_of_ne]
  · exact hholds
  · rintro rfl
    exact hi hholds

/-- The call that has just taken the guard, or keeps it, is in its critical section. -/
theorem kept_setCall {s : CallState} (hlocked : d.lockedBy = some i) (hs : s.Holds) :
    Kept (d.setCall i s) := by
  intro j hj
  obtain rfl : i = j := Option.some.inj (hlocked.symm.trans hj)
  rwa [setCall_calls, Function.update_self]

theorem kept_of_free (h : d.lockedBy = none) : Kept d := fun i hi => by simp [h] at hi

theorem Kept.step (h : Kept d) (hguarded : d.Guarded) {l : DirectoryLabel}
    (hstep : d.step l = some d') : Kept d' := by
  cases move_of_step hstep with
  | @call i l _ move =>
    cases move with
    | enrol | unfile | drain => exact kept_setCall rfl trivial
    | cancelOne at_ left =>
      exact kept_setCall (hguarded.holder i (by rw [at_]; trivial)) trivial
    | subscribed | cancel | clear => exact kept_of_free rfl
    | listed instances at_ =>
      exact Kept.setCall (d := d.persistToDisk _ _) h (by rw [persistToDisk_calls, at_]; exact id)
    | insert at_ => exact Kept.setCall (d := d.store _ _) h (by rw [store_calls, at_]; exact id)
    | loadOrWatch name at_ | unwatch name at_ | shutdown at_ | read at_ | fastPath at_
    | slowPath at_ | listFailed err at_ | recovered at_ | recoverFailed at_ | ensured at_
    | unfiled at_ => exact h.setCall (by rw [at_]; exact id)
  | @drop i suspended =>
    intro j hj
    rw [setCall_lockedBy] at hj
    split_ifs at hj with hi
    have hne : j ≠ i := by
      rintro rfl
      exact hi hj
    rw [setCall_calls, Function.update_of_ne hne]
    exact h j hj
  | task ht move =>
    obtain ⟨-, -, -, -, -, -, hlocked, -, -, hcalls, -⟩ := move.frame
    rw [Kept, hlocked, hcalls]
    exact h
  | apply name event => exact h
  | persist written pending => exact h

/-- What the holder of the guard does next, if its watch is answered with `result`. -/
def Releases (i : ℕ) (result : RegistryResult ℕ) : DirectoryLabel → Prop
  | .call j (.subscribed result') => j = i ∧ result' = result
  | .call j (.cancel _) | .call j .clear => j = i
  | _ => False

/-- One step gives the guard back. -/
theorem released_of_step {result : RegistryResult ℕ} {l : DirectoryLabel} (hl : Releases i result l)
    (hstep : d.step l = some d') (hfree : d'.lockedBy = none) : ∃ w d',
      (∀ l ∈ w, Releases i result l) ∧ run step d w = some d' ∧ d'.lockedBy = none :=
  ⟨[l], d', List.forall_mem_singleton.mpr hl, (run_singleton d l).trans hstep, hfree⟩

/-- A `shutdown` cancels what it has taken off file, token by token. -/
theorem drained {tokens : Multiset ℕ} (h : d.calls i = .draining tokens)
    (result : RegistryResult ℕ) : ∃ w d', (∀ l ∈ w, Releases i result l)
      ∧ run step d w = some d' ∧ d'.lockedBy = none := by
  induction tokens using Multiset.induction generalizing d with
  | empty =>
    have hstep : d.step (.call i .clear)
        = some ({ d with snapshots := ∅ }.unlock.setCall i .finished) := by
      rw [step, h, callStep, if_pos rfl]
    exact released_of_step (l := .call i .clear) rfl hstep rfl
  | cons token tokens ih =>
    obtain ⟨w, d', hw, hrun, hfree⟩ := ih (d := (d.cancel token).setCall i (.draining tokens))
      (by rw [setCall_calls, Function.update_self])
    refine ⟨.call i (.cancel token) :: w, d', fun l hl => ?_, ?_, hfree⟩
    · rcases List.mem_cons.mp hl with rfl | hl
      · rfl
      · exact hw l hl
    · refine run_cons_eq_some.mpr ⟨_, ?_, hrun⟩
      rw [step, h, callStep, if_pos (Multiset.mem_cons_self _ _), Multiset.erase_cons_head]

/-- **The guard is never lost.**  Whenever it is held, no call gets past it; but the call that holds
it is in its critical section, and can go on alone, whatever its watch is answered with, until the
guard is free. -/
theorem guard_released (diskCache : Bool) (disk : Disk)
    {w : List DirectoryLabel} (hrun : run step (withOptions diskCache disk) w = some d)
    (hheld : d.lockedBy = some i) (result : RegistryResult ℕ) :
    (∀ j, d.step (.call j .lock) = none)
      ∧ ∃ w' d', (∀ l ∈ w', Releases i result l) ∧ run step d w' = some d'
        ∧ d'.lockedBy = none := by
  obtain ⟨-, hkept⟩ : d.Guarded ∧ d.Kept := preserved_run (I := fun d => d.Guarded ∧ d.Kept)
    (fun _ _ _ h hstep => ⟨h.1.step hstep, h.2.step h.1 hstep⟩)
    ⟨guarded_withOptions diskCache disk, kept_of_free rfl⟩ hrun
  refine ⟨fun j => ?_, ?_⟩
  · cases hj : d.calls j <;> simp [step, hj, callStep, hheld]
  · have hholds := hkept i hheld
    cases hi : d.calls i with
    | subscribing name instances token =>
      have hstep : d.step (.call i (.subscribed result)) = some ((d.spawnWatch name token
          result.toOption).unlock.setCall i (.returned (.ok instances))) := by
        rw [step, hi, callStep]
      exact released_of_step (l := .call i (.subscribed result)) ⟨rfl, rfl⟩ hstep rfl
    | cancelling token =>
      have hstep : d.step (.call i (.cancel token))
          = some ((d.cancel token).unlock.setCall i .finished) := by
        rw [step, hi, callStep, if_pos rfl]
      exact released_of_step (l := .call i (.cancel token)) rfl hstep rfl
    | draining tokens => exact drained hi result
    | _ =>
      rw [hi] at hholds
      exact hholds.elim

/-- `guard_released` for a `shutdown` that is about to cancel a task. -/
theorem guard_released_shutdown : ∃ d, run step (withOptions false ∅)
      (loading 0 "order-svc" ++ [.call 1 .shutdown, .call 1 .lock]) = some d
    ∧ ∃ w' d', (∀ l ∈ w', Releases 1 (.ok 0) l) ∧ run step d w' = some d' ∧ d'.lockedBy = none := by
  obtain ⟨d, hrun⟩ : ∃ d, run step (withOptions false ∅)
    (loading 0 "order-svc" ++ [.call 1 .shutdown, .call 1 .lock]) = some d := ⟨_, rfl⟩
  have hheld : d.lockedBy = some 1 := by
    obtain rfl := Option.some.inj hrun
    rfl
  exact ⟨d, hrun, (guard_released false ∅ hrun hheld (.ok 0)).2⟩

end ServiceDirectory

end PecsRegistry
