import PecsRegistry.Provider.Etcd.Moves
import PecsRegistry.Provider.Etcd.Rounds

/-!
# Provider/Etcd/LatestWins — two registrations on one registry

A second `register` cancels the task of the first one, but the first task may be anywhere between
its cancellation check and its last store.  What the second task has written in its round, its key,
its value and its lease, stays until the first one overwrites it: the latest registration wins as
long as no such step comes late (`latest_wins`).
-/

namespace PecsRegistry

open Transition

/-- Where a call of the two registrations stands. -/
def EtcdCall.Begun (inst : ServiceInstance) : EtcdCall → Prop
  | .idle | .finished => True
  | .replacing inst' | .arming inst' => inst' = inst
  | _ => False

namespace EtcdRegistry

variable {r r' : EtcdRegistry} {i j k : ℕ}

/-! ## What a round leaves behind -/

/-- What a task has written in its round is there: its value under its key and its lease, and its
key and its lease in their slots. -/
structure Registered (r : EtcdRegistry) (t : Heartbeat) : Prop where
  entry : ∀ lease, t.state.written = some lease →
    r.etcd.entries.lookup (r.config.keyOf t.inst) = some (r.reread t.inst, lease)
  key : t.state.KeyStored → r.registeredKey = some (r.config.keyOf t.inst)
  lease : ∀ lease, t.state.leaseStored = some lease → r.leaseId = some lease

/-- A round that has written nothing yet. -/
theorem registered_of_written_none {t : Heartbeat} (h : t.state.written = none) :
    r.Registered t := by
  obtain ⟨inst, state⟩ := t
  cases state <;> simp [HeartbeatState.written] at h <;>
    constructor <;> simp [HeartbeatState.written, HeartbeatState.KeyStored,
      HeartbeatState.leaseStored]

/-- **A task's own step registers it further**, if its call succeeds. -/
theorem Registered.own {t : Heartbeat} {l : HeartbeatLabel} (h : r.Registered t)
    (move : HeartbeatMove r k t l r') (hok : (EtcdLabel.task k l).succeeds) :
    ∃ state, r'.tasks = Function.update r.tasks k (some ⟨t.inst, state⟩)
      ∧ r'.Registered ⟨t.inst, state⟩ := by
  cases move with
  | granted ok at_ fresh =>
    obtain rfl : ok = true := hok
    exact ⟨_, rfl, registered_of_written_none rfl⟩
  | @put lease ok at_ live =>
    obtain rfl : ok = true := hok
    refine ⟨_, rfl, fun lease' hlease => ?_, fun hkey => hkey.elim, fun _ hlease => by cases hlease⟩
    obtain rfl := Option.some.inj hlease
    exact Finmap.lookup_insert _
  | storeKey at_ =>
    refine ⟨_, rfl, fun lease hlease => ?_, fun _ => rfl, fun _ hlease => by cases hlease⟩
    exact h.entry lease (by rw [at_]; exact hlease)
  | storeLease at_ =>
    refine ⟨_, rfl, fun lease hlease => ?_, fun _ => ?_, fun lease hlease => ?_⟩
    · exact h.entry lease (by rw [at_]; exact hlease)
    · exact h.key (by rw [at_]; trivial)
    · exact hlease
  | established at_ live =>
    refine ⟨_, rfl, fun lease hlease => ?_, fun _ => ?_, fun lease hlease => ?_⟩
    · exact h.entry lease (by rw [at_]; exact hlease)
    · exact h.key (by rw [at_]; trivial)
    · exact h.lease lease (by rw [at_]; exact hlease)
  | beat at_ | renewed at_ =>
    refine ⟨_, rfl, fun lease hlease => ?_, fun _ => ?_, fun lease hlease => ?_⟩
    · exact h.entry lease (by rw [at_]; exact hlease)
    · exact h.key (by rw [at_]; trivial)
    · exact h.lease lease (by rw [at_]; exact hlease)
  | _ => exact ⟨_, rfl, registered_of_written_none rfl⟩

/-- Another task than `k` writes, late, what task `k` has already written in its round. -/
def Late (r : EtcdRegistry) (k : ℕ) : EtcdLabel → Prop
  | .task j (.put _) => j ≠ k ∧ ∃ t ∈ r.tasks k, ∃ t' ∈ r.tasks j,
      t.state.written ≠ none ∧ r.config.keyOf t'.inst = r.config.keyOf t.inst
  | .task j .storeKey => j ≠ k ∧ ∃ t ∈ r.tasks k, ∃ t' ∈ r.tasks j,
      t.state.KeyStored ∧ r.config.keyOf t'.inst ≠ r.config.keyOf t.inst
  | .task j .storeLease => j ≠ k ∧ ∃ t ∈ r.tasks k, t.state.leaseStored ≠ none
  | _ => False

instance (r : EtcdRegistry) (k : ℕ) : DecidablePred (r.Late k) := fun l => by
  unfold Late
  split <;> infer_instance

/-- **A step of another task spares it**, unless it is late. -/
theorem Registered.other {t t' : Heartbeat} {l : HeartbeatLabel} (h : r.Registered t)
    (ht : r.tasks k = some t) (ht' : r.tasks j = some t') (hne : j ≠ k)
    (hlate : ¬ r.Late k (.task j l)) (move : HeartbeatMove r j t' l r') : r'.Registered t := by
  cases move with
  | @put lease ok at_ live =>
    refine { h with entry := fun lease' hwritten => ?_ }
    have hkey : r.config.keyOf t.inst ≠ r.config.keyOf t'.inst := fun hkey =>
      hlate ⟨hne, t, ht, t', ht', by simp [hwritten], hkey.symm⟩
    exact (Finmap.lookup_insert_of_ne _ hkey).trans (h.entry lease' hwritten)
  | storeKey at_ =>
    refine { h with key := fun hstored => ?_ }
    have hkey : r.config.keyOf t'.inst = r.config.keyOf t.inst := by_contra fun hkey =>
      hlate ⟨hne, t, ht, t', ht', hstored, hkey⟩
    exact congrArg some hkey
  | storeLease at_ =>
    exact { h with lease := fun lease hlease => (hlate ⟨hne, t, ht, by simp [hlease]⟩).elim }
  | _ => exact { h with }

/-! ## Two registrations -/

/-- The lease that task `k` holds does not run out. -/
def KeptAlive (r : EtcdRegistry) (k : ℕ) : EtcdLabel → Prop
  | .expire lease => ∀ t ∈ r.tasks k, t.state.lease ≠ some lease
  | _ => True

instance (r : EtcdRegistry) (k : ℕ) : DecidablePred (r.KeptAlive k) := fun l => by
  unfold KeptAlive
  split <;> infer_instance

/-- **The latest registration wins**: once the first task has stopped and the second is in its loop,
the slots and etcd hold what the second has written. -/
def LatestWins (b : ServiceInstance) (r : EtcdRegistry) : Prop :=
  ∀ ta ∈ r.tasks 0, ta.state = .stopped →
    ∀ tb ∈ r.tasks 1, ∀ lease stream, tb.state = .beating lease stream →
      r.registeredKey = some (r.config.keyOf b) ∧ r.leaseId = some lease
        ∧ r.etcd.entries.lookup (r.config.keyOf b) = some (r.reread b, lease)

variable {a b : ServiceInstance}

/-- Call 0 registers `a` and call 1 registers `b`; a task runs once its call has returned; the
leases the tasks hold were granted, one to each. -/
structure Paired (a b : ServiceInstance) (r : EtcdRegistry) : Prop where
  first : (r.calls 0).Begun a
  second : (r.calls 1).Begun b
  others : ∀ i, i ≠ 0 → i ≠ 1 → r.calls i = .idle
  task : ∀ k t, r.tasks k = some t →
    r.calls k = .finished ∧ (k = 0 ∧ t.inst = a ∨ k = 1 ∧ t.inst = b)
  held : ∀ k t l, r.tasks k = some t → t.state.lease = some l → r.etcd.state l ≠ none
  distinct : ∀ k t k' t' l, r.tasks k = some t → r.tasks k' = some t' → k ≠ k' →
    t.state.lease = some l → t'.state.lease ≠ some l

theorem paired_new (config : RegistryConfig) (reread : ServiceInstance → ServiceInstance)
    (etcd : Etcd) : (new config reread etcd).Paired a b :=
  ⟨trivial, trivial, fun _ _ _ => rfl, fun _ _ h => by simp [new] at h,
    fun _ _ _ h => by simp [new] at h, fun _ _ _ _ _ h => by simp [new] at h⟩

/-- A step of a task keeps its lease, gives it up, or has it granted. -/
theorem HeartbeatMove.lease {t t' : Heartbeat} {l : HeartbeatLabel} {id : ℕ}
    (move : HeartbeatMove r k t l r') (ht' : r'.tasks k = some t')
    (hid : t'.state.lease = some id) :
    t.state.lease = some id ∨ r.etcd.state id = none ∧ r'.etcd.state id ≠ none := by
  cases move with
  | @granted lease ok at_ fresh =>
    obtain rfl := eq_of_setTask ht'
    cases ok with
    | false => cases hid
    | true =>
      obtain rfl : lease = id := Option.some.inj hid
      refine .inr ⟨fresh, ?_⟩
      rw [setTask_etcd, withEtcd_etcd, LeaseStore.state_grant, if_pos rfl]
      simp
  | put ok at_ =>
    obtain rfl := eq_of_setTask ht'
    cases ok with
    | false => cases hid
    | true => exact .inl (by rw [at_]; exact hid)
  | storeKey at_ | storeLease at_ | established at_ | beat at_ | renewed at_ =>
    obtain rfl := eq_of_setTask ht'
    exact .inl (by rw [at_]; exact hid)
  | _ =>
    obtain rfl := eq_of_setTask ht'
    cases hid

theorem Paired.setCall (h : r.Paired a b) {c : EtcdCall}
    (hi : i = 0 ∧ c.Begun a ∨ i = 1 ∧ c.Begun b)
    (htask : ∀ t, r.tasks i = some t → c = .finished) : (r.setCall i c).Paired a b := by
  refine { h with first := ?_, second := ?_, others := fun j h0 h1 => ?_, task := fun k t ht => ?_ }
  · rcases hi with ⟨rfl, hc⟩ | ⟨rfl, -⟩
    · simpa using hc
    · simpa using h.first
  · rcases hi with ⟨rfl, -⟩ | ⟨rfl, hc⟩
    · simpa using h.second
    · simpa using hc
  · have hj : j ≠ i := by
      rcases hi with ⟨rfl, -⟩ | ⟨rfl, -⟩
      · exact h0
      · exact h1
    simpa [hj] using h.others j h0 h1
  · refine ⟨?_, (h.task k t ht).2⟩
    rw [setCall_calls, Function.update_apply]
    split_ifs with hk
    · exact htask t (hk ▸ ht)
    · exact (h.task k t ht).1

/-- A task moves on: it keeps its lease, gives it up, or has it granted. -/
theorem Paired.moveTask (h : r.Paired a b) {t : Heartbeat} {state : HeartbeatState}
    (ht : r.tasks k = some t) (hcalls : r'.calls = r.calls)
    (htasks : r'.tasks = Function.update r.tasks k (some ⟨t.inst, state⟩))
    (hevolves : r.etcd.Evolves r'.etcd)
    (hlease : ∀ id, state.lease = some id →
      t.state.lease = some id ∨ r.etcd.state id = none ∧ r'.etcd.state id ≠ none) :
    r'.Paired a b := by
  -- the leases of the other tasks are what they were
  have hother : ∀ k' t', k' ≠ k → r'.tasks k' = some t' → r.tasks k' = some t' := by
    intro k' t' hne ht'
    rwa [htasks, Function.update_of_ne hne] at ht'
  have hself : ∀ t', r'.tasks k = some t' → t' = ⟨t.inst, state⟩ := by
    intro t' ht'
    rw [htasks, Function.update_self] at ht'
    exact (Option.some.inj ht').symm
  have hclash : ∀ k' t' id, k' ≠ k → r'.tasks k' = some t' → state.lease = some id →
      t'.state.lease ≠ some id := by
    intro k' t' id hne ht' hid hid'
    rcases hlease id hid with hold | ⟨hfresh, -⟩
    · exact h.distinct k t k' t' id ht (hother k' t' hne ht') hne.symm hold hid'
    · exact h.held k' t' id (hother k' t' hne ht') hid' hfresh
  refine ⟨hcalls ▸ h.first, hcalls ▸ h.second, hcalls ▸ h.others, fun k' t' ht' => ?_,
    fun k' t' id ht' hid => ?_, fun k₁ t₁ k₂ t₂ id ht₁ ht₂ hne hid => ?_⟩
  · rw [hcalls]
    rcases eq_or_ne k' k with rfl | hne
    · obtain rfl := hself t' ht'
      exact h.task k' t ht
    · exact h.task k' t' (hother k' t' hne ht')
  · rcases eq_or_ne k' k with rfl | hne
    · obtain rfl := hself t' ht'
      rcases hlease id hid with hold | ⟨-, hgranted⟩
      · exact fun hnone => h.held k' t id ht hold (hevolves.granted id hnone)
      · exact hgranted
    · exact fun hnone => h.held k' t' id (hother k' t' hne ht') hid (hevolves.granted id hnone)
  · rcases eq_or_ne k₁ k with rfl | hne₁
    · obtain rfl := hself t₁ ht₁
      exact hclash k₂ t₂ id hne.symm ht₂ hid
    · rcases eq_or_ne k₂ k with rfl | hne₂
      · obtain rfl := hself t₂ ht₂
        exact fun hid₂ => hclash k₁ t₁ id hne₁ ht₁ hid₂ hid
      · exact h.distinct k₁ t₁ k₂ t₂ id (hother k₁ t₁ hne₁ ht₁) (hother k₂ t₂ hne₂ ht₂) hne hid

/-- A call under way is one of the two. -/
theorem Paired.begun (h : r.Paired a b) (hi : r.calls i ≠ .idle) :
    i = 0 ∧ (r.calls i).Begun a ∨ i = 1 ∧ (r.calls i).Begun b := by
  rcases eq_or_ne i 0 with rfl | h0
  · exact .inl ⟨rfl, h.first⟩
  rcases eq_or_ne i 1 with rfl | h1
  · exact .inr ⟨rfl, h.second⟩
  exact absurd (h.others i h0 h1) hi

theorem Paired.callMove (h : r.Paired a b) {l : EtcdCallLabel}
    (hseq : r.Sequential a b (.call i l)) (move : EtcdCallMove r i l r') : r'.Paired a b := by
  cases move with
  | register inst at_ =>
    refine h.setCall ?_ fun t ht => absurd (at_.symm.trans (h.task i t ht).1) (by simp)
    rcases eq_or_ne i 0 with rfl | h0
    · obtain rfl : inst = a := hseq
      exact .inl ⟨rfl, by split_ifs <;> trivial⟩
    rcases eq_or_ne i 1 with rfl | h1
    · obtain rfl : inst = b := hseq.1
      exact .inr ⟨rfl, by split_ifs <;> trivial⟩
    simp [Sequential] at hseq
  | @replace inst at_ =>
    have hbegun := h.begun (i := i) (by simp [at_])
    rw [at_] at hbegun
    have hcancelled : r.cancelTask.Paired a b := { h with }
    exact hcancelled.setCall (c := .arming inst) hbegun
      fun t ht => absurd (at_.symm.trans (h.task i t ht).1) (by simp)
  | @arm inst at_ =>
    have hbegun := h.begun (i := i) (by simp [at_])
    rw [at_] at hbegun
    have hreturned : (r.setCall i .finished).Paired a b :=
      h.setCall (hbegun.imp (And.imp_right fun _ => trivial) (And.imp_right fun _ => trivial))
        fun _ _ => rfl
    have htasks : ∀ k t, ((r.spawn i inst).setCall i .finished).tasks k = some t →
        k = i ∧ t = ⟨inst, .checking⟩ ∨ k ≠ i ∧ r.tasks k = some t :=
      fun _ _ => update_eq_some.mp
    refine { hreturned with task := ?_, held := ?_, distinct := ?_ }
    · intro k t ht
      rcases htasks k t ht with ⟨rfl, rfl⟩ | ⟨-, hold⟩
      · exact ⟨by simp, hbegun⟩
      · exact hreturned.task k t hold
    · intro k t l ht hl
      rcases htasks k t ht with ⟨rfl, rfl⟩ | ⟨-, hold⟩
      · cases hl
      · exact h.held k t l hold hl
    · intro k t k' t' l ht ht' hne hl
      rcases htasks k t ht with ⟨rfl, rfl⟩ | ⟨-, hold⟩
      · cases hl
      · rcases htasks k' t' ht' with ⟨rfl, rfl⟩ | ⟨-, hold'⟩
        · exact fun hl' => by cases hl'
        · exact h.distinct k t k' t' l hold hold' hne hl
  | deregister at_ => simp [Sequential] at hseq
  | cancel at_ | takeKey at_ | takeLease at_ | connected at_ | keyless at_ | connectFailed at_
  | deleted _ at_ | revoked _ at_ =>
    have hbegun := h.begun (i := i) (by simp [at_])
    rw [at_] at hbegun
    exact hbegun.elim (fun hb => hb.2.elim) fun hb => hb.2.elim

theorem Paired.step (h : r.Paired a b) {l : EtcdLabel} (hseq : r.Sequential a b l)
    (hstep : r.step l = some r') : r'.Paired a b := by
  have move := move_of_step hstep
  have hevolves := move.evolves
  cases move with
  | call move => exact h.callMove hseq move
  | @task k t l r' ht move =>
    obtain ⟨state, htasks⟩ := move.tasks
    refine h.moveTask ht (by cases move <;> rfl) htasks hevolves fun id hid => ?_
    exact move.lease (by rw [htasks, Function.update_self]) hid
  | @answer k t lease requests replies consumed ht at_ =>
    exact h.moveTask ht rfl rfl hevolves fun id hid => .inl (by rw [at_]; exact hid)
  | expire lease =>
    have hheld : ∀ k t id, r.tasks k = some t → t.state.lease = some id →
        (r.etcd.expire lease).state id ≠ none :=
      fun k t id ht hid hnone => h.held k t id ht hid (hevolves.granted id hnone)
    exact { h with held := hheld }

/-- A call of the two registrations touches its token and its task, and nothing else. -/
theorem Paired.call_frame (h : r.Paired a b) {l : EtcdCallLabel}
    (hseq : r.Sequential a b (.call i l)) (move : EtcdCallMove r i l r') :
    r'.config = r.config ∧ r'.etcd = r.etcd ∧ r'.registeredKey = r.registeredKey
      ∧ r'.leaseId = r.leaseId := by
  cases move with
  | register | replace | arm => exact ⟨rfl, rfl, rfl, rfl⟩
  | deregister at_ => simp [Sequential] at hseq
  | cancel at_ | takeKey at_ | takeLease at_ | connected at_ | keyless at_ | connectFailed at_
  | deleted _ at_ | revoked _ at_ =>
    have hbegun := h.begun (i := i) (by simp [at_])
    rw [at_] at hbegun
    exact hbegun.elim (fun hb => hb.2.elim) fun hb => hb.2.elim

/-! ## The second registration stays in force -/

/-- What the second task has written in its round is there. -/
def InForce (r : EtcdRegistry) : Prop := ∀ t, r.tasks 1 = some t → r.Registered t

theorem InForce.latestWins (hforce : r.InForce) (h : r.Paired a b) : r.LatestWins b := by
  rintro - - - tb htb lease stream hbeating
  obtain rfl : tb.inst = b := by simpa using (h.task 1 tb htb).2
  obtain ⟨hentry, hkey, hlease⟩ := hforce tb htb
  exact ⟨hkey (by rw [hbeating]; trivial), hlease lease (by rw [hbeating]; rfl),
    hentry lease (by rw [hbeating]; rfl)⟩

/-- **What the second registration has written stays**, under any step that is not late. -/
theorem InForce.step (hforce : r.InForce) (h : r.Paired a b) {l : EtcdLabel} (hok : l.succeeds)
    (hseq : r.Sequential a b l) (hkept : r.KeptAlive 1 l) (hlate : ¬ r.Late 1 l)
    (hstep : r.step l = some r') : r'.InForce := by
  intro t' ht'
  cases move_of_step hstep with
  | @call i l r' move =>
    obtain ⟨hconfig, hetcd, hkey, hlease⟩ := h.call_frame hseq move
    have hold : r.tasks 1 = some t' → r'.Registered t' := by
      intro ht
      obtain ⟨hentry, hstored, hleased⟩ := hforce t' ht
      constructor
      · rwa [hconfig, hetcd, (EtcdMove.call move).reread]
      · rwa [hconfig, hkey]
      · rwa [hlease]
    rcases move.tasks with htasks | ⟨inst, -, -, htasks⟩
    · exact hold (htasks ▸ ht')
    · rw [htasks] at ht'
      rcases update_eq_some.mp ht' with ⟨-, rfl⟩ | ⟨-, hkept⟩
      · exact registered_of_written_none rfl
      · exact hold hkept
  | @task k t l r' ht move =>
    rcases eq_or_ne k 1 with rfl | hne
    · obtain ⟨state, htasks, hown⟩ := (hforce t ht).own move hok
      rw [htasks, Function.update_self] at ht'
      obtain rfl := Option.some.inj ht'
      exact hown
    · obtain ⟨state, htasks⟩ := move.tasks
      rw [htasks, Function.update_of_ne hne.symm] at ht'
      exact (hforce t' ht').other ht' ht hne hlate move
  | @answer k t lease requests replies consumed ht at_ =>
    rcases eq_or_ne k 1 with rfl | hne
    · obtain ⟨hentry, hkey, hlease⟩ := hforce t ht
      obtain rfl := eq_of_setTask ht'
      rw [at_] at hentry hkey hlease
      exact ⟨hentry, hkey, hlease⟩
    · rw [setTask_tasks, Function.update_of_ne hne.symm] at ht'
      exact { hforce t' ht' with }
  | expire lease =>
    refine { hforce t' ht' with entry := fun lease' hwritten => ?_ }
    refine (r.etcd.lookup_release_eq_some .expired).mpr ⟨(hforce t' ht').entry lease' hwritten, ?_⟩
    rintro rfl
    exact hkept t' ht' (HeartbeatState.lease_of_written hwritten)

/-- **The latest registration wins**, as long as the first task overwrites nothing late.  Every call
succeeds, and the second task's lease is kept alive. -/
theorem latest_wins (config : RegistryConfig) (reread : ServiceInstance → ServiceInstance)
    (etcd : Etcd) (a b : ServiceInstance) (w : List EtcdLabel)
    (hw : EachStep step
      (fun r l => l.succeeds ∧ r.Sequential a b l ∧ r.KeptAlive 1 l ∧ ¬ r.Late 1 l)
      (new config reread etcd) w) :
    EachState step (LatestWins b) (new config reread etcd) w := by
  have hinit : (new config reread etcd).Paired a b ∧ (new config reread etcd).InForce :=
    ⟨paired_new config reread etcd, fun _ ht => by simp [new] at ht⟩
  have hinv : EachState step (fun r => r.Paired a b ∧ r.InForce)
      (new config reread etcd) w := by
    refine eachState_of_invariant ?_ hinit hw
    rintro r l r' ⟨hpaired, hforce⟩ ⟨hok, hseq, hkept, hlate⟩ hstep
    exact ⟨hpaired.step hseq hstep, hforce.step hpaired hok hseq hkept hlate hstep⟩
  exact hinv.imp fun _ h => h.2.latestWins h.1

end EtcdRegistry

end PecsRegistry
