import PecsRegistry.Provider.Etcd.System

/-!
# Provider/Etcd/Moves — what one step of the registry and etcd can do

`EtcdCallMove` and `HeartbeatMove` list the moves of `callStep` and `taskStep`, one constructor
each, with the guard the move was taken under.  Every invariant of the registry is a case analysis
on them.
-/

namespace PecsRegistry

namespace EtcdRegistry

variable {r r' : EtcdRegistry} {i k : ℕ}

/-- The moves of a call. -/
inductive EtcdCallMove (r : EtcdRegistry) (i : ℕ) : EtcdCallLabel → EtcdRegistry → Prop
  | register (inst : ServiceInstance) (at_ : r.calls i = .idle) :
      EtcdCallMove r i (.register inst)
        (r.setCall i (if r.config.active then .replacing inst else .finished))
  | replace {inst : ServiceInstance} (at_ : r.calls i = .replacing inst) :
      EtcdCallMove r i .cancel (r.cancelTask.setCall i (.arming inst))
  | arm {inst : ServiceInstance} (at_ : r.calls i = .arming inst) :
      EtcdCallMove r i .arm ((r.spawn i inst).setCall i .finished)
  | deregister (at_ : r.calls i = .idle) :
      EtcdCallMove r i .deregister (r.setCall i .cancelling)
  | cancel (at_ : r.calls i = .cancelling) :
      EtcdCallMove r i .cancel (r.cancelTask.setCall i .takingKey)
  | takeKey (at_ : r.calls i = .takingKey) :
      EtcdCallMove r i .takeKey
        ({ r with registeredKey := none }.setCall i (.takingLease r.registeredKey))
  | takeLease {key : Option String} (at_ : r.calls i = .takingLease key) :
      EtcdCallMove r i .takeLease
        ({ r with leaseId := none }.setCall i (.connecting key r.leaseId))
  | connected {key : String} {lease : Option ℕ} (at_ : r.calls i = .connecting (some key) lease) :
      EtcdCallMove r i (.connected true) ({ r with client := true }.setCall i (.deleting key lease))
  | keyless {lease : Option ℕ} (at_ : r.calls i = .connecting none lease) :
      EtcdCallMove r i (.connected true) ({ r with client := true }.setCall i (releasing lease))
  | connectFailed {key : Option String} {lease : Option ℕ} (at_ : r.calls i = .connecting key lease)
      (cold : r.client = false) : EtcdCallMove r i (.connected false) (r.setCall i .finished)
  | deleted {key : String} {lease : Option ℕ} (reached : Bool)
      (at_ : r.calls i = .deleting key lease) :
      EtcdCallMove r i (.deleted reached)
        ((r.withEtcd (if reached then r.etcd.delete key else r.etcd)).setCall i (releasing lease))
  | revoked {lease : ℕ} (reached : Bool) (at_ : r.calls i = .revoking lease) :
      EtcdCallMove r i (.revoked reached)
        ((r.withEtcd (if reached then r.etcd.revoke lease else r.etcd)).setCall i .finished)

/-- The moves of a task. -/
inductive HeartbeatMove (r : EtcdRegistry) (k : ℕ) (t : Heartbeat) :
    HeartbeatLabel → EtcdRegistry → Prop
  | leave (at_ : t.state = .checking) (stop : k ∈ r.cancelled) :
      HeartbeatMove r k t .check (r.setTask k { t with state := .stopped })
  | check (at_ : t.state = .checking) (live : k ∉ r.cancelled) :
      HeartbeatMove r k t .check (r.setTask k { t with state := .connecting })
  | connected (at_ : t.state = .connecting) :
      HeartbeatMove r k t (.connected true)
        ({ r with client := true }.setTask k { t with state := .granting })
  | connectFailed (at_ : t.state = .connecting) (cold : r.client = false) :
      HeartbeatMove r k t (.connected false) (r.setTask k { t with state := .invalidating })
  | granted {lease : ℕ} (ok : Bool) (at_ : t.state = .granting)
      (fresh : r.etcd.state lease = none) :
      HeartbeatMove r k t (.granted lease ok)
        ((r.withEtcd (r.etcd.grant lease r.config.leaseTtl fresh)).setTask k
          { t with state := if ok then .putting lease else .invalidating })
  | put {lease : ℕ} (ok : Bool) (at_ : t.state = .putting lease)
      (live : r.etcd.state lease = some .live) :
      HeartbeatMove r k t (.put ok)
        ((r.withEtcd (r.etcd.put (r.config.keyOf t.inst) (r.reread t.inst) lease live)).setTask k
          { t with state := if ok then .storingKey lease else .invalidating })
  | storeKey {lease : ℕ} (at_ : t.state = .storingKey lease) :
      HeartbeatMove r k t .storeKey
        ({ r with registeredKey := some (r.config.keyOf t.inst) }.setTask k
          { t with state := .storingLease lease })
  | storeLease {lease : ℕ} (at_ : t.state = .storingLease lease) :
      HeartbeatMove r k t .storeLease
        ({ r with leaseId := some lease }.setTask k { t with state := .establishing lease })
  | established {lease : ℕ} (at_ : t.state = .establishing lease)
      (live : r.etcd.state lease = some .live) :
      HeartbeatMove r k t .established
        (r.setTask k { t with state := .beating lease ⟨0, [], []⟩ })
  | failed (at_ : t.state = .granting ∨ (∃ lease, t.state = .putting lease)
        ∨ ∃ lease, t.state = .establishing lease) :
      HeartbeatMove r k t .failed (r.setTask k { t with state := .invalidating })
  | cancelled {lease : ℕ} {stream : KeepAliveStream} (at_ : t.state = .beating lease stream)
      (stop : k ∈ r.cancelled) :
      HeartbeatMove r k t .cancelled (r.setTask k { t with state := .stopped })
  | beat {lease : ℕ} {stream : KeepAliveStream} (at_ : t.state = .beating lease stream) :
      HeartbeatMove r k t .beat (r.setTask k
        { t with state := .beating lease { stream with requests := stream.requests + 1 } })
  | renewed {lease requests ttl : ℕ} {replies consumed : List ℕ}
      (at_ : t.state = .beating lease ⟨requests, ttl :: replies, consumed⟩) :
      HeartbeatMove r k t .renewed (r.setTask k
        { t with state := .beating lease ⟨requests, replies, consumed ++ [ttl]⟩ })
  | broken {lease : ℕ} {stream : KeepAliveStream} (at_ : t.state = .beating lease stream) :
      HeartbeatMove r k t .broken (r.setTask k { t with state := .invalidating })
  | invalidated (at_ : t.state = .invalidating) :
      HeartbeatMove r k t .invalidated
        ({ r with client := false }.setTask k { t with state := .backingOff })
  | cancelledAsleep (at_ : t.state = .backingOff) (stop : k ∈ r.cancelled) :
      HeartbeatMove r k t .cancelled (r.setTask k { t with state := .stopped })
  | slept (at_ : t.state = .backingOff) :
      HeartbeatMove r k t .slept (r.setTask k { t with state := .checking })

theorem callMove_of_callStep {l : EtcdCallLabel} (h : r.callStep i (r.calls i) l = some r') :
    EtcdCallMove r i l r' := by
  generalize hc : r.calls i = c at h
  revert h
  fun_cases callStep r i c l <;> intro h <;>
    simp only [reduceCtorEq, Option.some.injEq] at h <;> subst h
  case case1 => exact .register _ hc
  case case2 => exact .replace hc
  case case3 => exact .arm hc
  case case4 => exact .deregister hc
  case case5 => exact .cancel hc
  case case6 => exact .takeKey hc
  case case7 => exact .takeLease hc
  case case8 => exact .connected hc
  case case9 => exact .keyless hc
  case case11 cold => exact .connectFailed hc (by simpa using cold)
  case case12 => exact .deleted _ hc
  case case13 => exact .revoked _ hc

theorem taskMove_of_taskStep {t : Heartbeat} {l : HeartbeatLabel}
    (h : r.taskStep k t t.state l = some r') : HeartbeatMove r k t l r' := by
  generalize hs : t.state = s at h
  revert h
  fun_cases taskStep r k t s l <;> intro h <;>
    simp only [reduceCtorEq, Option.some.injEq] at h <;> subst h
  case case1 =>
    split_ifs with stop
    · exact .leave hs stop
    · exact .check hs stop
  case case2 => exact .connected hs
  case case4 cold => exact .connectFailed hs (by simpa using cold)
  case case5 fresh => exact .granted _ hs fresh
  case case7 live => exact .put _ hs live
  case case9 => exact .storeKey hs
  case case10 => exact .storeLease hs
  case case11 live => exact .established hs live
  case case13 => exact .failed (.inl hs)
  case case14 => exact .failed (.inr (.inl ⟨_, hs⟩))
  case case15 => exact .failed (.inr (.inr ⟨_, hs⟩))
  case case16 stop => exact .cancelled hs stop
  case case18 => exact .beat hs
  case case19 => exact .renewed hs
  case case20 => exact .broken hs
  case case21 => exact .invalidated hs
  case case22 stop => exact .cancelledAsleep hs stop
  case case24 => exact .slept hs

/-- The moves of the registry and etcd. -/
inductive EtcdMove (r : EtcdRegistry) : EtcdLabel → EtcdRegistry → Prop
  | call {i : ℕ} {l : EtcdCallLabel} {r' : EtcdRegistry} (move : EtcdCallMove r i l r') :
      EtcdMove r (.call i l) r'
  | task {k : ℕ} {t : Heartbeat} {l : HeartbeatLabel} {r' : EtcdRegistry} (ht : r.tasks k = some t)
      (move : HeartbeatMove r k t l r') : EtcdMove r (.task k l) r'
  | answer {k : ℕ} {t : Heartbeat} {lease requests : ℕ} {replies consumed : List ℕ}
      (ht : r.tasks k = some t)
      (at_ : t.state = .beating lease ⟨requests + 1, replies, consumed⟩) :
      EtcdMove r (.answer k) (r.setTask k { t with
        state := .beating lease ⟨requests, replies ++ [r.etcd.keepAlive lease], consumed⟩ })
  | expire (lease : ℕ) : EtcdMove r (.expire lease) (r.withEtcd (r.etcd.expire lease))

/-- **Every step of the registry and etcd is a move.** -/
theorem move_of_step {l : EtcdLabel} (h : r.step l = some r') : EtcdMove r l r' := by
  cases l with
  | call i l => exact .call (callMove_of_callStep h)
  | task k l =>
    obtain ⟨t, ht, hstep⟩ := Option.bind_eq_some_iff.mp h
    exact .task ht (taskMove_of_taskStep hstep)
  | answer k =>
    obtain ⟨t, ht, hstep⟩ := Option.bind_eq_some_iff.mp h
    rw [answerStep] at hstep
    split at hstep
    · next at_ =>
      obtain rfl := Option.some.inj hstep
      exact .answer ht at_
    · cases hstep
  | expire lease =>
    obtain rfl := Option.some.inj h
    exact .expire lease

/-! ## What every step leaves alone -/

/-- **Etcd only moves on**: no step forgets a lease or brings one back. -/
theorem EtcdMove.evolves {l : EtcdLabel} (move : EtcdMove r l r') : r.etcd.Evolves r'.etcd := by
  cases move with
  | call move =>
    cases move with
    | deleted reached at_ => cases reached <;> exact LeaseStore.evolves_of_state rfl
    | revoked reached at_ =>
      cases reached with
      | false => exact LeaseStore.evolves_of_state rfl
      | true => exact LeaseStore.evolves_release .revoked
    | _ => exact LeaseStore.evolves_of_state rfl
  | task ht move =>
    cases move with
    | granted ok at_ fresh => exact LeaseStore.evolves_grant fresh
    | _ => exact LeaseStore.evolves_of_state rfl
  | answer ht at_ => exact LeaseStore.evolves_of_state rfl
  | expire lease => exact LeaseStore.evolves_release .expired

/-- A call leaves the tasks alone, but for the one it spawns. -/
theorem EtcdCallMove.tasks {l : EtcdCallLabel} (move : EtcdCallMove r i l r') :
    r'.tasks = r.tasks ∨ ∃ inst, r.calls i = .arming inst ∧ l = .arm
      ∧ r'.tasks = Function.update r.tasks i (some ⟨inst, .checking⟩) := by
  cases move with
  | @arm inst at_ => exact .inr ⟨inst, at_, rfl, rfl⟩
  | _ => exact .inl rfl

/-- A task that moves stays the task of its instance. -/
theorem HeartbeatMove.tasks {t : Heartbeat} {l : HeartbeatLabel} (move : HeartbeatMove r k t l r') :
    ∃ state, r'.tasks = Function.update r.tasks k (some ⟨t.inst, state⟩) := by
  cases move <;> exact ⟨_, rfl⟩

theorem EtcdMove.config {l : EtcdLabel} (move : EtcdMove r l r') : r'.config = r.config := by
  cases move with
  | call move => cases move <;> rfl
  | task ht move => cases move <;> rfl
  | _ => rfl

theorem EtcdMove.reread {l : EtcdLabel} (move : EtcdMove r l r') : r'.reread = r.reread := by
  cases move with
  | call move => cases move <;> rfl
  | task ht move => cases move <;> rfl
  | _ => rfl

end EtcdRegistry

end PecsRegistry
