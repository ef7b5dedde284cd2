import PecsRegistry.Provider.Etcd.Deregister

/-!
# Provider/Etcd/Ghosts — a hasty deregistration always leaves a ghost

The converse of `no_ghost`: once `deregister` has run ahead of the task, it carries no lease that
the task's last put hangs on, and has no key left to delete.  While no lease runs out, the key is
still there when both are done: a complete run is without a ghost exactly when no step of it was
hasty (`no_ghost_iff`).
-/

namespace PecsRegistry

open Transition

/-- The lease a deregistration carries. -/
def EtcdCall.carried : EtcdCall → Option ℕ
  | .connecting _ lease | .deleting _ lease => lease
  | .revoking lease => some lease
  | _ => none

/-- A deregistration that has still to look at the lease slot. -/
def EtcdCall.Looking : EtcdCall → Prop
  | .idle | .cancelling | .takingKey | .takingLease _ => True
  | _ => False

/-- The lease a task has been granted and has not yet stored. -/
def HeartbeatState.unstored : HeartbeatState → Option ℕ
  | .putting lease | .storingKey lease | .storingLease lease => some lease
  | _ => none

/-- No lease runs out. -/
def EtcdLabel.keepsLeases : EtcdLabel → Bool
  | .expire _ => false
  | _ => true

namespace EtcdRegistry

variable {r r' : EtcdRegistry} {e₀ : Etcd} {inst : ServiceInstance}

@[simp] theorem carried_releasing (lease : Option ℕ) : (releasing lease).carried = lease := by
  cases lease <;> rfl

/-! ## A lease that is not stored yet -/

/-- The leases in the slot and in hand were granted; the one the task has still to store is new, is
neither of them, and holds the task's key once it is put. -/
structure Leased (e₀ : Etcd) (r : EtcdRegistry) : Prop where
  slot : ∀ l, r.leaseId = some l → r.etcd.state l ≠ none
  carried : ∀ l, (r.calls 1).carried = some l → r.etcd.state l ≠ none
  unstored : ∀ t ∈ r.tasks 0, ∀ l, t.state.unstored = some l →
    e₀.state l = none ∧ r.etcd.state l ≠ none ∧ r.leaseId ≠ some l ∧ (r.calls 1).carried ≠ some l
  written : (r.calls 1).Looking → ∀ t ∈ r.tasks 0, ∀ l, t.state.storing = some l → r.Ghost e₀ l

theorem leased_new (config : RegistryConfig) (reread : ServiceInstance → ServiceInstance) :
    (new config reread e₀).Leased e₀ :=
  ⟨fun _ h => by simp [new] at h, fun _ h => by simp [new, EtcdCall.carried] at h,
    fun _ h => by simp [new] at h, fun _ _ h => by simp [new] at h⟩

/-- Call 1 moves on with the leases it can see. -/
theorem Leased.advance (h : r.Leased e₀) (q : EtcdRegistry) {c : EtcdCall}
    (htasks : q.tasks = r.tasks) (hevolves : r.etcd.Evolves q.etcd)
    (hslot : ∀ l, q.leaseId = some l → r.leaseId = some l)
    (hcarried : ∀ l, c.carried = some l → r.leaseId = some l ∨ (r.calls 1).carried = some l)
    (hlooking : c.Looking → (r.calls 1).Looking ∧ q.etcd = r.etcd) : (q.setCall 1 c).Leased e₀ := by
  refine ⟨fun l hl => ?_, fun l hl => ?_, fun t ht l hl => ?_, fun hc t ht l hl => ?_⟩
  · exact fun hnone => h.slot l (hslot l hl) (hevolves.granted l hnone)
  · rw [setCall_calls, Function.update_self] at hl
    refine fun hnone => ?_
    rcases hcarried l hl with hl | hl
    · exact h.slot l hl (hevolves.granted l hnone)
    · exact h.carried l hl (hevolves.granted l hnone)
  · obtain ⟨hnew, hgranted, hs, hc⟩ := h.unstored t (htasks ▸ ht) l hl
    refine ⟨hnew, fun hnone => hgranted (hevolves.granted l hnone), fun hq => hs (hslot l hq),
      fun hq => ?_⟩
    rw [setCall_calls, Function.update_self] at hq
    exact (hcarried l hq).elim hs hc
  · rw [setCall_calls, Function.update_self] at hc
    obtain ⟨hlook, hetcd⟩ := hlooking hc
    have hghost := h.written hlook t (htasks ▸ ht) l hl
    rwa [Ghost, setCall_etcd, hetcd]

/-- The task moves on without a lease to store. -/
theorem Leased.advanceTask (h : r.Leased e₀) (q : EtcdRegistry) {t : Heartbeat}
    (hcalls : q.calls = r.calls) (hetcd : q.etcd = r.etcd)
    (hslot : ∀ l, q.leaseId = some l → q.etcd.state l ≠ none) (hstored : t.state.unstored = none) :
    (q.setTask 0 t).Leased e₀ := by
  have htask : ∀ t' ∈ (q.setTask 0 t).tasks 0, t' = t := fun t' ht' => by simpa using ht'.symm
  refine ⟨hslot, ?_, fun t' ht' l hl => ?_, fun _ t' ht' l hl => ?_⟩
  · rw [setTask_calls, setTask_etcd, hcalls, hetcd]
    exact h.carried
  · obtain rfl := htask t' ht'
    simp [hstored] at hl
  · obtain rfl := htask t' ht'
    cases hs : t'.state <;> simp_all [HeartbeatState.unstored, HeartbeatState.storing]

/-- Call 0 moves on. -/
theorem Leased.setCall (h : r.Leased e₀) {c : EtcdCall} : (r.setCall 0 c).Leased e₀ := by
  have hone : (r.setCall 0 c).calls 1 = r.calls 1 := by simp
  refine ⟨h.slot, ?_, ?_, ?_⟩ <;> rw [hone]
  · exact h.carried
  · exact h.unstored
  · exact h.written

theorem Leased.registerMove (h : r.Leased e₀) (htidy : r.Tidy e₀ inst) {l : EtcdCallLabel}
    (hone : (EtcdLabel.call 0 l).OneEach inst) (move : EtcdCallMove r 0 l r') :
    r'.Leased e₀ := by
  cases move with
  | register inst' at_ => exact h.setCall
  | replace at_ =>
    rw [cancelTask_of_none (htidy.call.resolve_left (by simp [at_])).token]
    exact h.setCall
  | @arm inst' at_ =>
    have hspawned : (r.spawn 0 inst').Leased e₀ :=
      { h.advanceTask r (t := ⟨inst', .checking⟩) rfl rfl h.slot rfl with }
    exact hspawned.setCall
  | deregister at_ => simp [EtcdLabel.OneEach] at hone
  | cancel at_ | takeKey at_ | takeLease at_ | connected at_ | keyless at_ | connectFailed at_
  | deleted _ at_ | revoked _ at_ =>
    rcases htidy.call with hcall | ⟨hcall, -⟩ <;> simp [at_] at hcall

theorem Leased.deregisterMove (h : r.Leased e₀) (htidy : r.Tidy e₀ inst) {l : EtcdCallLabel}
    (hok : (EtcdLabel.call 1 l).succeeds) (hone : (EtcdLabel.call 1 l).OneEach inst)
    (move : EtcdCallMove r 1 l r') : r'.Leased e₀ := by
  cases move with
  | register inst' at_ => simp [EtcdLabel.OneEach] at hone
  | replace at_ | arm at_ =>
    have hrelies := htidy.relies
    simp [at_, ReliesOn] at hrelies
  | deregister at_ =>
    exact h.advance r rfl (.refl _) (fun _ hl => hl) (fun _ hl => by cases hl)
      fun _ => ⟨by rw [at_]; trivial, rfl⟩
  | cancel at_ =>
    exact h.advance r.cancelTask rfl (.refl _) (fun _ hl => hl) (fun _ hl => by cases hl)
      fun _ => ⟨by rw [at_]; trivial, rfl⟩
  | takeKey at_ =>
    exact h.advance { r with registeredKey := none } rfl (.refl _) (fun _ hl => hl)
      (fun _ hl => by cases hl) fun _ => ⟨by rw [at_]; trivial, rfl⟩
  | takeLease at_ =>
    exact h.advance { r with leaseId := none } rfl (.refl _) (fun _ hl => by cases hl)
      (fun _ hl => .inl hl) fun hlook => hlook.elim
  | connected at_ =>
    exact h.advance { r with client := true } rfl (.refl _) (fun _ hl => hl)
      (fun _ hl => .inr (by rw [at_]; exact hl)) fun hlook => hlook.elim
  | @keyless lease at_ =>
    refine h.advance { r with client := true } rfl (.refl _) (fun _ hl => hl)
      (fun _ hl => .inr (by rw [carried_releasing] at hl; rw [at_]; exact hl)) fun hlook => ?_
    cases lease <;> exact hlook.elim
  | connectFailed at_ => cases hok
  | @deleted key lease reached at_ =>
    obtain rfl : reached = true := hok
    refine h.advance (r.withEtcd (r.etcd.delete key)) rfl (LeaseStore.evolves_of_state rfl)
      (fun _ hl => hl) (fun _ hl => .inr (by rw [carried_releasing] at hl; rw [at_]; exact hl))
      fun hlook => ?_
    cases lease <;> exact hlook.elim
  | @revoked lease reached at_ =>
    obtain rfl : reached = true := hok
    exact h.advance (r.withEtcd (r.etcd.revoke lease)) rfl (LeaseStore.evolves_release _)
      (fun _ hl => hl) (fun _ hl => by cases hl) fun hlook => hlook.elim

theorem Leased.taskMove (h : r.Leased e₀) (htidy : r.Tidy e₀ inst) {t : Heartbeat}
    {l : HeartbeatLabel} (hok : (EtcdLabel.task 0 l).succeeds) (ht : r.tasks 0 = some t)
    (move : HeartbeatMove r 0 t l r') : r'.Leased e₀ := by
  cases move with
  | @granted lease ok at_ fresh =>
    obtain rfl : ok = true := hok
    have hevolves : r.etcd.Evolves (r.etcd.grant lease r.config.leaseTtl fresh) :=
      LeaseStore.evolves_grant fresh
    refine ⟨fun l hl hnone => h.slot l hl (hevolves.granted l hnone),
      fun l hl hnone => h.carried l hl (hevolves.granted l hnone), fun t' ht' l hl => ?_,
      fun _ t' ht' l hl => ?_⟩
    · obtain rfl := eq_of_setTask ht'
      obtain rfl : lease = l := Option.some.inj hl
      refine ⟨htidy.evolves.granted lease fresh, ?_, fun hs => h.slot lease hs fresh,
        fun hc => h.carried lease hc fresh⟩
      rw [setTask_etcd, withEtcd_etcd, LeaseStore.state_grant, if_pos rfl]
      simp
    · obtain rfl := eq_of_setTask ht'
      cases hl
  | @put lease ok at_ live =>
    obtain rfl : ok = true := hok
    have hunstored := h.unstored t ht lease (by rw [at_]; rfl)
    refine ⟨h.slot, h.carried, fun t' ht' l hl => ?_, fun _ t' ht' l hl => ?_⟩ <;>
      obtain rfl := eq_of_setTask ht' <;>
      obtain rfl : lease = l := Option.some.inj hl
    · exact hunstored
    · exact ⟨hunstored.1, _, _, Finmap.lookup_insert _⟩
  | @storeKey lease at_ =>
    refine ⟨h.slot, h.carried, fun t' ht' l hl => ?_, fun hlook t' ht' l hl => ?_⟩ <;>
      obtain rfl := eq_of_setTask ht' <;>
      obtain rfl : lease = l := Option.some.inj hl
    · exact h.unstored t ht lease (by rw [at_]; rfl)
    · exact h.written hlook t ht lease (by rw [at_]; rfl)
  | @storeLease lease at_ =>
    refine h.advanceTask { r with leaseId := some lease } rfl rfl (fun l hl => ?_) rfl
    obtain rfl : lease = l := Option.some.inj hl
    exact (h.unstored t ht lease (by rw [at_]; rfl)).2.1
  | connectFailed at_ => cases hok
  | failed at_ => cases hok
  | connected at_ => exact h.advanceTask { r with client := true } rfl rfl h.slot rfl
  | invalidated at_ => exact h.advanceTask { r with client := false } rfl rfl h.slot rfl
  | _ => exact h.advanceTask r rfl rfl h.slot rfl

theorem Leased.step (h : r.Leased e₀) (htidy : r.Tidy e₀ inst) {l : EtcdLabel} (hok : l.succeeds)
    (hone : l.OneEach inst) (hkeeps : l.keepsLeases) (hstep : r.step l = some r') :
    r'.Leased e₀ := by
  cases move_of_step hstep with
  | @call i l r' move =>
    rcases eq_or_ne i 0 with rfl | h0
    · exact h.registerMove htidy hone move
    rcases eq_or_ne i 1 with rfl | h1
    · exact h.deregisterMove htidy hok hone move
    exact (move.not_idle hone h0 h1 (htidy.others i h0 h1)).elim
  | @task k t l r' ht move =>
    obtain ⟨rfl, -⟩ := htidy.task k t ht
    exact h.taskMove htidy hok ht move
  | @answer k t lease requests replies consumed ht at_ =>
    obtain ⟨rfl, -⟩ := htidy.task k t ht
    exact h.advanceTask r rfl rfl h.slot rfl
  | expire lease => cases hkeeps

/-! ## A ghost that stays -/

/-- Deregister has no key left to delete and carries the lease `lo`; once the task is cancelled, it
still makes a put, or has left a key under another lease than `lo`. -/
structure Haunted (e₀ : Etcd) (lo : Option ℕ) (r : EtcdRegistry) : Prop where
  armed : r.calls 0 = .finished
  others : ∀ i, i ≠ 0 → i ≠ 1 → r.calls i = .idle
  task : ∀ k t, r.tasks k = some t → k = 0
  call : r.calls 1 = .connecting none lo ∨ r.calls 1 = releasing lo
  evolves : e₀.Evolves r.etcd
  carried : ∀ l, lo = some l → r.etcd.state l ≠ none
  putting : ∀ t ∈ r.tasks 0, ∀ l, t.state = .putting l → e₀.state l = none ∧ lo ≠ some l
  stopped : ∀ t ∈ r.tasks 0, t.state = .stopped → 0 ∈ r.cancelled
  haunt : 0 ∈ r.cancelled → r.MayPut ∨ ∃ l, r.Ghost e₀ l ∧ lo ≠ some l

/-- Past its first step, a deregistration that runs beside the task is call 1. -/
theorem Tidy.deregistering (h : r.Tidy e₀ inst) {i : ℕ} (htask : r.tasks 0 ≠ none)
    (hidle : r.calls i ≠ .idle) (hfinished : r.calls i ≠ .finished) :
    i = 1 ∧ r.calls 0 = .finished := by
  have harmed : r.calls 0 = .finished := h.call.resolve_right fun hu => htask hu.task
  refine ⟨by_contra fun h1 => ?_, harmed⟩
  rcases eq_or_ne i 0 with rfl | h0
  · exact hfinished harmed
  · exact hidle (h.others i h0 h1)

/-- Call 1 moves on in a hasty step. -/
theorem haunted_setCall (htidy : r.Tidy e₀ inst) (h : r.Leased e₀) (q : EtcdRegistry) {c : EtcdCall}
    {lo : Option ℕ} (harmed : r.calls 0 = .finished) (hcalls : q.calls = r.calls)
    (htasks : q.tasks = r.tasks) (hcancelled : q.cancelled = r.cancelled)
    (hevolves : r.etcd.Evolves q.etcd) (hc : c = .connecting none lo ∨ c = releasing lo)
    (hlo : ∀ l, lo = some l → r.leaseId = some l ∨ (r.calls 1).carried = some l)
    (hhaunt : r.MayPut ∨ ∃ l, q.Ghost e₀ l ∧ lo ≠ some l) : (q.setCall 1 c).Haunted e₀ lo where
  armed := by simp [hcalls, harmed]
  others := fun i h0 h1 => by simp [hcalls, h1, htidy.others i h0 h1]
  task := fun k t ht => (htidy.task k t (htasks ▸ ht)).1
  call := by simpa using hc
  evolves := htidy.evolves.trans hevolves
  carried := by
    intro l hl hnone
    rcases hlo l hl with hl | hl
    · exact h.slot l hl (hevolves.granted l hnone)
    · exact h.carried l hl (hevolves.granted l hnone)
  putting := by
    intro t ht l hl
    obtain ⟨hnew, -, hs, hc⟩ := h.unstored t (htasks ▸ ht) l (by rw [hl]; rfl)
    exact ⟨hnew, fun hq => (hlo l hq).elim hs hc⟩
  stopped := fun t ht hstop => hcancelled ▸ htidy.stopped t (htasks ▸ ht) hstop
  haunt := fun _ => hhaunt.imp (fun hmay => by simpa [MayPut, htasks] using hmay) id

/-- **A hasty step haunts the run.** -/
theorem haunted_of_hasty (htidy : r.Tidy e₀ inst) (h : r.Leased e₀) {l : EtcdLabel}
    (hok : l.succeeds) (hhasty : r.Hasty l) (hstep : r.step l = some r') :
    ∃ lo, r'.Haunted e₀ lo := by
  cases move_of_step hstep with
  | @call i l r' move =>
    cases move with
    | @takeLease key at_ =>
      obtain ⟨hkey, t, ht, hreg⟩ := hhasty
      obtain ⟨rfl, harmed⟩ := htidy.deregistering (i := i) (by simp [Option.mem_def.mp ht])
        (by simp [at_]) (by simp [at_])
      obtain rfl : key = none := by simpa [at_] using hkey
      refine ⟨r.leaseId, haunted_setCall htidy h { r with leaseId := none } harmed rfl rfl rfl
        (.refl _) (.inl rfl) (fun _ hl => .inl hl) ?_⟩
      rcases hreg with hmay | hstoring
      · exact .inl ⟨t, ht, hmay⟩
      · -- the put is made: its key hangs on the lease that is still to be stored
        obtain ⟨l, hl⟩ := Option.ne_none_iff_exists'.mp hstoring
        have hghost := h.written (by rw [at_]; trivial) t ht l hl
        have hunstored : t.state.unstored = some l := by
          cases hs : t.state <;>
            simp_all [HeartbeatState.unstored, HeartbeatState.storing]
        exact .inr ⟨l, hghost, (h.unstored t ht l hunstored).2.2.1⟩
    | @deleted key lease reached at_ =>
      obtain rfl : reached = true := hok
      have hmay : r.MayPut := hhasty
      obtain ⟨t, ht, -⟩ := hmay
      obtain ⟨rfl, harmed⟩ := htidy.deregistering (i := i) (by simp [Option.mem_def.mp ht])
        (by simp [at_]) (by simp [at_])
      exact ⟨lease, haunted_setCall htidy h (r.withEtcd (r.etcd.delete key)) harmed rfl rfl rfl
        (LeaseStore.evolves_of_state rfl) (.inr rfl) (fun _ hl => .inr (by rw [at_]; exact hl))
        (.inl hhasty)⟩
    | _ => exact hhasty.elim
  | task | answer | expire => exact hhasty.elim

variable {lo : Option ℕ}

/-- The task moves on, and keeps what haunts the run. -/
theorem Haunted.advanceTask (h : r.Haunted e₀ lo) (q : EtcdRegistry) {t : Heartbeat}
    (hcalls : q.calls = r.calls) (htasks : q.tasks = r.tasks)
    (hcancelled : q.cancelled = r.cancelled) (hevolves : r.etcd.Evolves q.etcd)
    (hputting : ∀ l, t.state = .putting l → e₀.state l = none ∧ lo ≠ some l)
    (hstopped : t.state = .stopped → 0 ∈ r.cancelled)
    (hhaunt : 0 ∈ r.cancelled → t.state.MayPut ∨ ∃ l, q.Ghost e₀ l ∧ lo ≠ some l) :
    (q.setTask 0 t).Haunted e₀ lo := by
  have htask : ∀ t' ∈ (q.setTask 0 t).tasks 0, t' = t := fun t' ht' => by simpa using ht'.symm
  refine { armed := ?_, others := ?_, task := fun k t' ht' => ?_, call := ?_,
           evolves := h.evolves.trans hevolves, carried := fun l hl hnone => ?_,
           putting := fun t' ht' => ?_, stopped := fun t' ht' => ?_, haunt := fun hcan => ?_ }
  · exact hcalls ▸ h.armed
  · exact hcalls ▸ h.others
  · rw [setTask_tasks, htasks] at ht'
    rcases update_eq_some.mp ht' with ⟨hk, -⟩ | ⟨-, hold⟩
    · exact hk
    · exact h.task k t' hold
  · exact hcalls ▸ h.call
  · exact h.carried l hl (hevolves.granted l hnone)
  · obtain rfl := htask t' ht'
    exact hputting
  · obtain rfl := htask t' ht'
    exact fun hstop => hcancelled ▸ hstopped hstop
  · exact (hhaunt (hcancelled ▸ hcan)).imp_left fun hmay => ⟨t, by simp, hmay⟩

theorem Haunted.taskMove (h : r.Haunted e₀ lo) {t : Heartbeat} {l : HeartbeatLabel}
    (hok : (EtcdLabel.task 0 l).succeeds) (ht : r.tasks 0 = some t)
    (move : HeartbeatMove r 0 t l r') : r'.Haunted e₀ lo := by
  have hghost : ¬ t.state.MayPut → 0 ∈ r.cancelled → ∃ l, r.Ghost e₀ l ∧ lo ≠ some l :=
    fun hmay hcan => (h.haunt hcan).resolve_left fun hr => hmay ((mayPut_iff ht).mp hr)
  cases move with
  | leave at_ stop =>
    exact h.advanceTask r rfl rfl rfl (.refl _) (fun _ hput => by cases hput) (fun _ => stop)
      fun hcan => .inr (hghost (by rw [at_]; exact id) hcan)
  | check at_ live =>
    exact h.advanceTask r rfl rfl rfl (.refl _) (fun _ hput => by cases hput)
      (fun hstop => by cases hstop) fun hcan => absurd hcan live
  | connected at_ =>
    exact h.advanceTask { r with client := true } rfl rfl rfl (.refl _)
      (fun _ hput => by cases hput) (fun hstop => by cases hstop) fun _ => .inl trivial
  | connectFailed at_ => cases hok
  | @granted lease ok at_ fresh =>
    obtain rfl : ok = true := hok
    refine h.advanceTask (r.withEtcd _) rfl rfl rfl (LeaseStore.evolves_grant fresh)
      (fun l hput => ?_) (fun hstop => by cases hstop) fun _ => .inl trivial
    obtain rfl : lease = l := HeartbeatState.putting.inj hput
    exact ⟨h.evolves.granted lease fresh, fun hlo => h.carried lease hlo fresh⟩
  | @put lease ok at_ live =>
    obtain rfl : ok = true := hok
    obtain ⟨hnew, hlo⟩ := h.putting t ht lease at_
    exact h.advanceTask (r.withEtcd _) rfl rfl rfl (LeaseStore.evolves_of_state rfl)
      (fun _ hput => by cases hput) (fun hstop => by cases hstop)
      fun _ => .inr ⟨lease, ⟨hnew, _, _, Finmap.lookup_insert _⟩, hlo⟩
  | storeKey at_ =>
    exact h.advanceTask { r with registeredKey := _ } rfl rfl rfl (.refl _)
      (fun _ hput => by cases hput) (fun hstop => by cases hstop)
      fun hcan => .inr (hghost (by rw [at_]; exact id) hcan)
  | @storeLease lease at_ =>
    exact h.advanceTask { r with leaseId := some lease } rfl rfl rfl (.refl _)
      (fun _ hput => by cases hput) (fun hstop => by cases hstop)
      fun hcan => .inr (hghost (by rw [at_]; exact id) hcan)
  | failed at_ => cases hok
  | cancelled at_ stop | cancelledAsleep at_ stop =>
    exact h.advanceTask r rfl rfl rfl (.refl _) (fun _ hput => by cases hput) (fun _ => stop)
      fun hcan => .inr (hghost (by rw [at_]; exact id) hcan)
  | invalidated at_ =>
    exact h.advanceTask { r with client := false } rfl rfl rfl (.refl _)
      (fun _ hput => by cases hput) (fun hstop => by cases hstop)
      fun hcan => .inr (hghost (by rw [at_]; exact id) hcan)
  | established at_ | beat at_ | renewed at_ | broken at_ | slept at_ =>
    exact h.advanceTask r rfl rfl rfl (.refl _) (fun _ hput => by cases hput)
      (fun hstop => by cases hstop)
      fun hcan => .inr (hghost (by rw [at_]; exact id) hcan)

theorem Haunted.deregisterMove (h : r.Haunted e₀ lo) {l : EtcdCallLabel}
    (hok : (EtcdLabel.call 1 l).succeeds) (hone : (EtcdLabel.call 1 l).OneEach inst)
    (move : EtcdCallMove r 1 l r') : ∃ lo', r'.Haunted e₀ lo' := by
  have hcall := h.call
  cases move with
  | @keyless lease at_ =>
    obtain rfl : lease = lo := by
      rcases hcall with hcall | hcall
      · exact (EtcdCall.connecting.inj (at_.symm.trans hcall)).2
      · cases lo <;> simp [at_, releasing] at hcall
    exact ⟨lease, { h with
      armed := by simp [h.armed]
      others := fun i h0 h1 => by simp [h1, h.others i h0 h1]
      call := .inr (by simp) }⟩
  | @revoked lease reached at_ =>
    obtain rfl : reached = true := hok
    obtain rfl : lo = some lease := by
      rcases hcall with hcall | hcall <;> cases lo <;> simp_all [releasing]
    refine ⟨none, { h with
      armed := by simp [h.armed]
      others := fun i h0 h1 => by simp [h1, h.others i h0 h1]
      call := .inr (by simp [releasing])
      evolves := h.evolves.trans (LeaseStore.evolves_release _)
      carried := fun _ hl => by cases hl
      putting := fun t ht l hl => ⟨(h.putting t ht l hl).1, by simp⟩
      haunt := fun hcan => (h.haunt hcan).imp_right ?_ }⟩
    rintro ⟨l, ⟨hnew, key, value, hentry⟩, hne⟩
    refine ⟨l, ⟨hnew, key, value, ?_⟩, by simp⟩
    exact (r.etcd.lookup_release_eq_some _).mpr ⟨hentry, fun hl => hne (by rw [hl])⟩
  | connectFailed at_ => cases hok
  | register | deregister | replace | arm | cancel | takeKey | takeLease | connected | deleted =>
    rcases hcall with hcall | hcall <;> cases lo <;> simp_all [releasing]

/-- **Once haunted, always haunted**, while every call succeeds and no lease runs out. -/
theorem Haunted.step (h : r.Haunted e₀ lo) {l : EtcdLabel} (hok : l.succeeds)
    (hone : l.OneEach inst) (hkeeps : l.keepsLeases) (hstep : r.step l = some r') :
    ∃ lo', r'.Haunted e₀ lo' := by
  cases move_of_step hstep with
  | @call i l r' move =>
    rcases eq_or_ne i 0 with rfl | h0
    · have harmed := h.armed
      cases move <;> simp_all
    rcases eq_or_ne i 1 with rfl | h1
    · exact h.deregisterMove hok hone move
    exact (move.not_idle hone h0 h1 (h.others i h0 h1)).elim
  | @task k t l r' ht move =>
    obtain rfl := h.task k t ht
    exact ⟨lo, h.taskMove hok ht move⟩
  | @answer k t lease requests replies consumed ht at_ =>
    obtain rfl := h.task k t ht
    refine ⟨lo, h.advanceTask r rfl rfl rfl (.refl _) (fun _ hput => by cases hput)
      (fun hstop => by cases hstop) fun hcan => .inr ?_⟩
    refine (h.haunt hcan).resolve_left fun hmay => ?_
    rw [mayPut_iff ht, at_] at hmay
    exact hmay
  | expire lease => cases hkeeps

theorem Haunted.ghost (h : r.Haunted e₀ lo) {t : Heartbeat} (ht : r.tasks 0 = some t)
    (hstopped : t.state = .stopped) : ∃ l, r.Ghost e₀ l := by
  have hmay : ¬ r.MayPut := by
    rw [mayPut_iff ht, hstopped]
    exact id
  obtain ⟨l, hl, -⟩ := (h.haunt (h.stopped t ht hstopped)).resolve_left hmay
  exact ⟨l, hl⟩

/-! ## Complete runs -/

/-- A step of one registration and one deregistration in which every call succeeds and no lease runs
out. -/
def Undisturbed (inst : ServiceInstance) (l : EtcdLabel) : Prop :=
  l.succeeds ∧ l.OneEach inst ∧ l.keepsLeases

/-- A haunted run that ends with the task stopped has left a ghost. -/
theorem ghost_of_haunted (h : r.Haunted e₀ lo) {w : List EtcdLabel}
    (hw : ∀ l ∈ w, Undisturbed inst l) (hrun : run step r w = some r') {t : Heartbeat}
    (ht : r'.tasks 0 = some t) (hstopped : t.state = .stopped) : ∃ l, r'.Ghost e₀ l := by
  have hstep : ∀ q l q', (∃ lo, q.Haunted e₀ lo) → Undisturbed inst l → step q l = some q' →
      ∃ lo, q'.Haunted e₀ lo := by
    rintro q l q' ⟨lo, h⟩ ⟨hok, hone, hkeeps⟩ hstep
    exact h.step hok hone hkeeps hstep
  obtain ⟨lo', hhaunted⟩ := invariant_run hstep ⟨lo, h⟩ (eachStep_of_forall_mem hw) hrun
  exact hhaunted.ghost ht hstopped

/-- Where a run ends without a ghost, no step of it was hasty. -/
theorem not_hasty_of_clean (htidy : r.Tidy e₀ inst) (h : r.Leased e₀) {w : List EtcdLabel}
    (hw : ∀ l ∈ w, Undisturbed inst l) (hrun : run step r w = some r') {t : Heartbeat}
    (ht : r'.tasks 0 = some t) (hstopped : t.state = .stopped) (hclean : ∀ l, ¬ r'.Ghost e₀ l) :
    EachStep step (fun r l => ¬ r.Hasty l) r w := by
  induction w generalizing r with
  | nil => trivial
  | cons l w ih =>
    obtain ⟨hl, hw⟩ := List.forall_mem_cons.mp hw
    obtain ⟨q, hstep, hrest⟩ := run_cons_eq_some.mp hrun
    have hhasty : ¬ r.Hasty l := by
      intro hhasty
      obtain ⟨lo, hhaunted⟩ := haunted_of_hasty htidy h hl.1 hhasty hstep
      obtain ⟨lease, hghost⟩ := ghost_of_haunted hhaunted hw hrest ht hstopped
      exact hclean lease hghost
    refine ⟨hhasty, fun q' hq' => ?_⟩
    obtain rfl : q = q' := Option.some.inj (hstep.symm.trans hq')
    exact ih (htidy.step hl.1 hl.2.1 hhasty hstep) (h.step htidy hl.1 hl.2.1 hl.2.2 hstep) hw hrest

/-- **Deregister leaves no ghost, exactly.**  Every call succeeds.  As long as no step is hasty, no
state of the run has a ghost; and where no lease runs out, a run that has `deregister` returned and
the task stopped is without a ghost only if none was hasty. -/
theorem no_ghost_iff (config : RegistryConfig) (reread : ServiceInstance → ServiceInstance)
    (e₀ : Etcd) (inst : ServiceInstance) (w : List EtcdLabel)
    (hw : ∀ l ∈ w, l.succeeds ∧ l.OneEach inst) :
    (EachStep step (fun r l => ¬ r.Hasty l) (new config reread e₀) w →
        EachState step (NoGhost e₀) (new config reread e₀) w)
      ∧ ((∀ l ∈ w, l.keepsLeases) → ∀ r t, run step (new config reread e₀) w = some r →
          r.calls 1 = .finished → r.tasks 0 = some t → t.state = .stopped →
            (r.NoGhost e₀ ↔ EachStep step (fun r l => ¬ r.Hasty l) (new config reread e₀) w)) := by
  have hclean : EachStep step (fun r l => ¬ r.Hasty l) (new config reread e₀) w →
      EachState step (NoGhost e₀) (new config reread e₀) w := fun hhasty =>
    no_ghost config reread e₀ inst w
      (((eachStep_of_forall_mem hw).and hhasty).imp fun _ _ h => ⟨h.1.1, h.1.2, h.2⟩)
  refine ⟨hclean, fun hkeeps r t hrun hreturned ht hstopped => ⟨fun h => ?_, fun hhasty => ?_⟩⟩
  · have hund : ∀ l ∈ w, Undisturbed inst l := fun l hl => ⟨(hw l hl).1, (hw l hl).2, hkeeps l hl⟩
    exact not_hasty_of_clean (tidy_new config reread e₀) (leased_new config reread) hund hrun ht
      hstopped (h hreturned t ht hstopped)
  · exact (hclean hhasty).last hrun

/-- The instance of the examples. -/
def departing : ServiceInstance := .simple "order-svc" "127.0.0.1" 8080

/-- `register`, and its task up to its grant. -/
def granted : List EtcdLabel :=
  [.call 0 (.register departing), .call 0 .cancel, .call 0 .arm, .task 0 .check,
    .task 0 (.connected true), .task 0 (.granted 7 true)]

/-- A run in which `deregister` waits for the task to be in its loop. -/
def departure : List EtcdLabel :=
  granted ++ [.task 0 (.put true), .task 0 .storeKey, .task 0 .storeLease, .task 0 .established,
    .call 1 .deregister, .call 1 .cancel, .task 0 .cancelled, .call 1 .takeKey, .call 1 .takeLease,
    .call 1 (.connected true), .call 1 (.deleted true), .call 1 (.revoked true)]

theorem no_ghost_iff_departure :
    EachState step (NoGhost .empty) (new .default id .empty) departure
      ∧ ∃ r, run step (new .default id .empty) departure = some r
        ∧ (r.NoGhost .empty ↔ EachStep step (fun r l => ¬ r.Hasty l) (new .default id .empty)
          departure) := by
  obtain ⟨hclean, hexact⟩ := no_ghost_iff .default id .empty departing departure (by decide +kernel)
  exact ⟨hclean (by decide +kernel), _, rfl, hexact (by decide +kernel) _ _ rfl rfl rfl rfl⟩

/-- **A ghost.**  The slots are still empty when `deregister` looks; the task, cancelled between its
grant and its put, puts its key and stops. -/
theorem ghost_left :
    ¬ ∀ w, EachStep step (fun _ l => l.succeeds ∧ l.OneEach departing) (new .default id .empty) w →
      EachState step (NoGhost .empty) (new .default id .empty) w := by
  intro h
  have hlast := h (granted ++ [.call 1 .deregister, .call 1 .cancel, .call 1 .takeKey,
    .call 1 .takeLease, .call 1 (.connected true), .task 0 (.put true), .task 0 .storeKey,
    .task 0 .storeLease, .task 0 .established, .task 0 .cancelled]) (by decide +kernel)
  refine hlast.last rfl rfl _ rfl rfl 7 ⟨rfl, RegistryConfig.default.keyOf departing, departing, ?_⟩
  decide +kernel

end EtcdRegistry

end PecsRegistry
