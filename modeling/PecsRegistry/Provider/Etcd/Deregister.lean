import PecsRegistry.Provider.Etcd.Moves
import PecsRegistry.Provider.Etcd.Rounds

/-!
# Provider/Etcd/Deregister — what a deregistration leaves in etcd

`deregister` cancels the task, takes the key and the lease out of their slots, deletes the one and
revokes the other.  The task, past its cancellation check, still makes its put and its stores.  So
nothing of the task is left (`no_ghost`) as long as `deregister` does not run ahead of it
(`Hasty`): it may not find the key slot empty while the task is registering, nor delete the key
while the task may still put it.
-/

namespace PecsRegistry

open Transition

namespace EtcdRegistry

variable {r r' : EtcdRegistry} {e₀ : Etcd} {inst : ServiceInstance} {i k : ℕ}

/-- The task of call 0 may still make a put. -/
def MayPut (r : EtcdRegistry) : Prop := ∃ t ∈ r.tasks 0, t.state.MayPut

instance : Decidable r.MayPut :=
  inferInstanceAs (Decidable (∃ t ∈ r.tasks 0, t.state.MayPut))

/-- **Deregister runs ahead of the task**: it has found no key, and takes the lease while the task
is still registering; or it deletes the key while the task may still put it. -/
def Hasty (r : EtcdRegistry) : EtcdLabel → Prop
  | .call i .takeLease =>
      r.calls i = .takingLease none ∧ ∃ t ∈ r.tasks 0, t.state.Registering
  | .call _ (.deleted _) => r.MayPut
  | _ => False

instance : DecidablePred r.Hasty := fun l => by
  unfold Hasty
  split <;> infer_instance

/-- A key is left under a lease that etcd did not know at the start: the task has written it. -/
def Ghost (e₀ : Etcd) (r : EtcdRegistry) (lease : ℕ) : Prop :=
  e₀.state lease = none ∧ ∃ key value, r.etcd.entries.lookup key = some (value, lease)

/-- **Deregister leaves no ghost**: it has returned, the task has stopped, and no key of the task is
left under a lease. -/
def NoGhost (e₀ : Etcd) (r : EtcdRegistry) : Prop :=
  r.calls 1 = .finished → ∀ t ∈ r.tasks 0, t.state = .stopped → ∀ lease, ¬ r.Ghost e₀ lease

/-! ## What deregister still owes -/

/-- The lease slot, once the task has made the store it is about to make. -/
def lastLease (r : EtcdRegistry) : Option ℕ :=
  ((r.tasks 0).bind (·.state.storing)).or r.leaseId

/-- Once the task is cancelled, it makes no further put, and `lease` is all that is left of it. -/
def Settled (e₀ : Etcd) (r : EtcdRegistry) (lease : Option ℕ) : Prop :=
  0 ∈ r.cancelled → ¬ r.MayPut ∧ ∀ l, r.Ghost e₀ l → lease = some l

/-- What a deregistration can rely on, by where it stands: up to its look at the lease slot, that
slot is right; a key in hand is the key of the instance; after that, what is left is settled. -/
def ReliesOn (e₀ : Etcd) (inst : ServiceInstance) (r : EtcdRegistry) : EtcdCall → Prop
  | .idle | .cancelling | .takingKey | .takingLease none =>
      ∀ lease, r.Ghost e₀ lease → r.lastLease = some lease
  | .takingLease (some key) | .connecting (some key) _ | .deleting key _ =>
      key = r.config.keyOf inst
  | .connecting none lease => r.Settled e₀ lease
  | .revoking lease => r.Settled e₀ (some lease)
  | .finished => r.Settled e₀ none
  | .replacing _ | .arming _ => False

theorem reliesOn_releasing {lease : Option ℕ} :
    r.ReliesOn e₀ inst (releasing lease) ↔ r.Settled e₀ lease := by
  cases lease <;> rfl

/-- A step that leaves nothing new, keeps the slot right and allows no new put. -/
theorem ReliesOn.mono {c : EtcdCall} (h : r.ReliesOn e₀ inst c) (hconfig : r'.config = r.config)
    (hghost : ∀ lease, r'.Ghost e₀ lease → r.Ghost e₀ lease) (hlease : r'.lastLease = r.lastLease)
    (hcancelled : r'.cancelled = r.cancelled)
    (hput : 0 ∈ r.cancelled → r'.MayPut → r.MayPut) : r'.ReliesOn e₀ inst c := by
  have hsettled : ∀ lease, r.Settled e₀ lease → r'.Settled e₀ lease := by
    intro lease hs hcan
    rw [hcancelled] at hcan
    exact ⟨fun hmay => (hs hcan).1 (hput hcan hmay), fun l hl => (hs hcan).2 l (hghost l hl)⟩
  unfold ReliesOn at h ⊢
  split
  any_goals rw [hconfig]
  any_goals exact h
  any_goals exact hsettled _ h
  all_goals exact fun lease hl => hlease ▸ h lease (hghost lease hl)

/-- A put, which nobody relying on a settled task has to expect. -/
theorem ReliesOn.put {c : EtcdCall} (h : r.ReliesOn e₀ inst c) (hmay : r.MayPut)
    (hconfig : r'.config = r.config) (hcancelled : r'.cancelled = r.cancelled)
    (hlast : ∀ lease, r'.Ghost e₀ lease → r'.lastLease = some lease) : r'.ReliesOn e₀ inst c := by
  have hsettled : ∀ lease, r.Settled e₀ lease → r'.Settled e₀ lease := fun lease hs hcan =>
    ((hs (hcancelled ▸ hcan)).1 hmay).elim
  unfold ReliesOn at h ⊢
  split
  any_goals rw [hconfig]
  any_goals exact h
  any_goals exact hsettled _ h
  all_goals exact hlast

/-! ## The invariant -/

/-- Call 0 has still to arm the task: there is no task, and no token to cancel. -/
structure Unarmed (inst : ServiceInstance) (r : EtcdRegistry) : Prop where
  call : r.calls 0 = .idle ∨ r.calls 0 = .replacing inst ∨ r.calls 0 = .arming inst
  task : r.tasks 0 = none
  token : r.cancelToken = none
  live : 0 ∉ r.cancelled

/-- One registration of `inst` and one deregistration, over an etcd that began as `e₀`. -/
structure Tidy (e₀ : Etcd) (inst : ServiceInstance) (r : EtcdRegistry) : Prop where
  call : r.calls 0 = .finished ∨ r.Unarmed inst
  others : ∀ i, i ≠ 0 → i ≠ 1 → r.calls i = .idle
  task : ∀ k t, r.tasks k = some t → k = 0 ∧ t.inst = inst
  keyed : ∀ key, r.registeredKey = some key → key = r.config.keyOf inst
  key : ∀ key value lease, r.etcd.entries.lookup key = some (value, lease) →
    e₀.state lease = none → key = r.config.keyOf inst
  evolves : e₀.Evolves r.etcd
  stopped : ∀ t ∈ r.tasks 0, t.state = .stopped → 0 ∈ r.cancelled
  relies : r.ReliesOn e₀ inst (r.calls 1)

theorem not_ghost_self (e₀ : Etcd) {lease : ℕ} (h : r.etcd = e₀) : ¬ r.Ghost e₀ lease := by
  rintro ⟨hnew, key, value, hentry⟩
  rw [h] at hentry
  exact absurd ((e₀.attached key value lease hentry).symm.trans hnew) (by simp)

theorem tidy_new (config : RegistryConfig) (reread : ServiceInstance → ServiceInstance)
    (e₀ : Etcd) : (new config reread e₀).Tidy e₀ inst where
  call := .inr ⟨.inl rfl, rfl, rfl, by simp [new]⟩
  others := fun _ _ _ => rfl
  task := fun _ _ ht => by simp [new] at ht
  keyed := fun _ hkey => by simp [new] at hkey
  key := fun key value lease hentry hnew =>
    (not_ghost_self (r := new config reread e₀) e₀ rfl ⟨hnew, key, value, hentry⟩).elim
  evolves := .refl e₀
  stopped := fun _ ht => by simp [new] at ht
  relies := fun lease hghost => (not_ghost_self e₀ rfl hghost).elim

theorem Tidy.noGhost (h : r.Tidy e₀ inst) : r.NoGhost e₀ := by
  intro hreturned t ht hstopped lease hghost
  have hsettled : r.Settled e₀ none := by simpa [hreturned, ReliesOn] using h.relies
  exact absurd ((hsettled (h.stopped t ht hstopped)).2 lease hghost) (by simp)

theorem cancelTask_of_none (h : r.cancelToken = none) : r.cancelTask = r := by
  obtain ⟨config, reread, client, registeredKey, leaseId, cancelToken, cancelled, calls, tasks,
    etcd⟩ := r
  obtain rfl : cancelToken = none := h
  simp [cancelTask]

/-- Call 0 moves on; call 1 relies on what it relied on. -/
theorem Tidy.setCall (h : r.Tidy e₀ inst) {c : EtcdCall}
    (hc : c = .finished ∨ (c = .replacing inst ∨ c = .arming inst) ∧ r.Unarmed inst) :
    (r.setCall 0 c).Tidy e₀ inst where
  call := by
    rcases hc with rfl | ⟨hc, hunarmed⟩
    · exact .inl (by simp)
    · exact .inr { hunarmed with call := by rcases hc with rfl | rfl <;> simp }
  others := fun i h0 h1 => by simp [h0, h.others i h0 h1]
  task := h.task
  keyed := h.keyed
  key := h.key
  evolves := h.evolves
  stopped := h.stopped
  relies := by
    rw [setCall_calls, Function.update_of_ne one_ne_zero]
    exact h.relies.mono rfl (fun _ hghost => hghost) rfl rfl fun _ hmay => hmay

/-- A step of `register` keeps what `deregister` relies on. -/
theorem Tidy.registerMove (h : r.Tidy e₀ inst) {l : EtcdCallLabel}
    (hone : (EtcdLabel.call 0 l).OneEach inst) (move : EtcdCallMove r 0 l r') :
    r'.Tidy e₀ inst := by
  cases move with
  | register inst' at_ =>
    obtain rfl : inst' = inst := hone
    have hunarmed := h.call.resolve_left (by simp [at_])
    refine h.setCall ?_
    split_ifs
    · exact .inr ⟨.inl rfl, hunarmed⟩
    · exact .inl rfl
  | @replace inst' at_ =>
    have hunarmed := h.call.resolve_left (by simp [at_])
    obtain rfl : inst' = inst := by simpa [at_] using hunarmed.call
    rw [cancelTask_of_none hunarmed.token]
    exact h.setCall (.inr ⟨.inr rfl, hunarmed⟩)
  | @arm inst' at_ =>
    have hunarmed := h.call.resolve_left (by simp [at_])
    obtain rfl : inst' = inst := by simpa [at_] using hunarmed.call
    -- the task is spawned at its cancellation check, with nothing written
    have htasks : ∀ k t, (r.spawn 0 inst').tasks k = some t → k = 0 ∧ t = ⟨inst', .checking⟩ := by
      intro k t ht
      refine (update_eq_some.mp ht).resolve_right ?_
      rintro ⟨hk, hold⟩
      exact hk (h.task k t hold).1
    refine ⟨.inl (by simp), fun i h0 h1 => by simp [h0, h.others i h0 h1], fun k t ht => ?_,
      h.keyed, h.key, h.evolves, fun t ht hstopped => ?_, ?_⟩
    · obtain ⟨rfl, rfl⟩ := htasks k t ht
      exact ⟨rfl, rfl⟩
    · obtain ⟨-, rfl⟩ := htasks 0 t ht
      cases hstopped
    · rw [setCall_calls, Function.update_of_ne one_ne_zero]
      refine h.relies.mono rfl (fun _ hghost => hghost) ?_ rfl fun _ hmay => ?_
      · simp [lastLease, hunarmed.task, HeartbeatState.storing]
      · obtain ⟨t, ht, hmay⟩ := hmay
        obtain ⟨-, rfl⟩ := htasks 0 t ht
        exact hmay.elim
  | deregister at_ => simp [EtcdLabel.OneEach] at hone
  | cancel at_ | takeKey at_ | takeLease at_ | connected at_ | keyless at_ | connectFailed at_
  | deleted _ at_ | revoked _ at_ =>
    rcases h.call with hcall | ⟨hcall, -⟩ <;> simp [at_] at hcall

/-- Call 1 changes slots, tokens or etcd, and moves on. -/
theorem Tidy.advance (h : r.Tidy e₀ inst) (q : EtcdRegistry) {c : EtcdCall}
    (hconfig : q.config = r.config) (hcalls : q.calls = r.calls) (htasks : q.tasks = r.tasks)
    (hcancelled : r.cancelled ⊆ q.cancelled)
    (hunarmed : r.Unarmed inst → q.cancelToken = none ∧ 0 ∉ q.cancelled)
    (hkeyed : ∀ key, q.registeredKey = some key → r.registeredKey = some key)
    (hentries : ∀ key value lease, q.etcd.entries.lookup key = some (value, lease) →
      r.etcd.entries.lookup key = some (value, lease))
    (hevolves : r.etcd.Evolves q.etcd) (hrelies : q.ReliesOn e₀ inst c) :
    (q.setCall 1 c).Tidy e₀ inst where
  call := by
    have hzero : (q.setCall 1 c).calls 0 = r.calls 0 := by simp [hcalls]
    rcases h.call with hcall | hu
    · exact .inl (hzero.trans hcall)
    · exact .inr ⟨hzero ▸ hu.call, by simp [htasks, hu.task], (hunarmed hu).1, (hunarmed hu).2⟩
  others := fun i h0 h1 => by simp [hcalls, h1, h.others i h0 h1]
  task := fun k t ht => h.task k t (htasks ▸ ht)
  keyed := fun key hkey => by simpa [hconfig] using h.keyed key (hkeyed key hkey)
  key := fun key value lease hentry hnew => by
    simpa [hconfig] using h.key key value lease (hentries key value lease hentry) hnew
  evolves := h.evolves.trans hevolves
  stopped := fun t ht hstop => hcancelled (h.stopped t (htasks ▸ ht) hstop)
  relies := by
    rw [setCall_calls, Function.update_self]
    exact hrelies.mono rfl (fun _ hghost => hghost) rfl rfl fun _ hmay => hmay

/-- **A step of `deregister` that is not hasty** leaves the next one what it relies on. -/
theorem Tidy.deregisterMove (h : r.Tidy e₀ inst) {l : EtcdCallLabel}
    (hok : (EtcdLabel.call 1 l).succeeds) (hone : (EtcdLabel.call 1 l).OneEach inst)
    (hhasty : ¬ r.Hasty (.call 1 l)) (move : EtcdCallMove r 1 l r') : r'.Tidy e₀ inst := by
  have hrelies := h.relies
  have htoken : r.Unarmed inst → r.cancelToken = none ∧ 0 ∉ r.cancelled := fun hu =>
    ⟨hu.token, hu.live⟩
  cases move with
  | register inst' at_ => simp [EtcdLabel.OneEach] at hone
  | replace at_ | arm at_ => simp [at_, ReliesOn] at hrelies
  | deregister at_ =>
    rw [at_] at hrelies
    exact h.advance r (c := .cancelling) rfl rfl rfl subset_rfl htoken (fun _ hkey => hkey)
      (fun _ _ _ hentry => hentry) (.refl _) hrelies
  | cancel at_ =>
    rw [at_] at hrelies
    refine h.advance r.cancelTask (c := .takingKey) rfl rfl rfl Finset.subset_union_left
      (fun hu => ?_) (fun _ hkey => hkey) (fun _ _ _ hentry => hentry) (.refl _) hrelies
    rw [cancelTask_of_none hu.token]
    exact htoken hu
  | takeKey at_ =>
    rw [at_] at hrelies
    refine h.advance { r with registeredKey := none } rfl rfl rfl subset_rfl htoken
      (fun _ hkey => by simp at hkey) (fun _ _ _ hentry => hentry) (.refl _) ?_
    rcases hkey : r.registeredKey with - | key
    · exact hrelies
    · exact h.keyed key hkey
  | @takeLease key at_ =>
    rw [at_] at hrelies
    refine h.advance { r with leaseId := none } rfl rfl rfl subset_rfl htoken
      (fun _ hkey => hkey) (fun _ _ _ hentry => hentry) (.refl _) ?_
    cases key with
    | some key => exact hrelies
    | none =>
      -- the task is not registering: the lease slot is right, and no put is to come
      have hcalm : ∀ t ∈ r.tasks 0, ¬ t.state.Registering :=
        fun t ht hreg => hhasty ⟨at_, t, ht, hreg⟩
      refine fun _ => ⟨?_, fun l hghost => ?_⟩
      · rintro ⟨t, ht, hmay⟩
        exact hcalm t ht (.inl hmay)
      have hstoring : (r.tasks 0).bind (·.state.storing) = none := by
        rcases ht : r.tasks 0 with - | t
        · rfl
        · exact not_not.mp fun hne => hcalm t ht (.inr hne)
      simpa [lastLease, hstoring] using hrelies l hghost
  | connected at_ =>
    rw [at_] at hrelies
    exact h.advance { r with client := true } rfl rfl rfl subset_rfl htoken
      (fun _ hkey => hkey) (fun _ _ _ hentry => hentry) (.refl _) hrelies
  | keyless at_ =>
    rw [at_] at hrelies
    exact h.advance { r with client := true } rfl rfl rfl subset_rfl htoken
      (fun _ hkey => hkey) (fun _ _ _ hentry => hentry) (.refl _) (reliesOn_releasing.mpr hrelies)
  | connectFailed at_ => cases hok
  | @deleted key lease reached at_ =>
    obtain rfl : reached = true := hok
    rw [at_] at hrelies
    obtain rfl : key = r.config.keyOf inst := hrelies
    have hentries : ∀ key' value lease, ((r.etcd.delete (r.config.keyOf inst)).entries.lookup key'
        = some (value, lease)) → r.etcd.entries.lookup key' = some (value, lease)
          ∧ key' ≠ r.config.keyOf inst := by
      intro key' value lease hentry
      rw [LeaseStore.delete, HashMap.lookup_erase] at hentry
      split_ifs at hentry with hne
      exact ⟨hentry, hne⟩
    refine h.advance (r.withEtcd (r.etcd.delete _)) rfl rfl rfl subset_rfl htoken
      (fun _ hkey => hkey) (fun _ _ _ hentry => (hentries _ _ _ hentry).1)
      (LeaseStore.evolves_of_state rfl) (reliesOn_releasing.mpr fun _ => ⟨hhasty, ?_⟩)
    rintro l ⟨hnew, key', value, hentry⟩
    exact absurd (h.key key' value l (hentries _ _ _ hentry).1 hnew) (hentries _ _ _ hentry).2
  | @revoked lease reached at_ =>
    obtain rfl : reached = true := hok
    rw [at_] at hrelies
    refine h.advance (r.withEtcd (r.etcd.revoke lease)) (c := .finished) rfl rfl rfl subset_rfl
      htoken (fun _ hkey => hkey)
      (fun _ _ _ hentry => ((r.etcd.lookup_release_eq_some _).mp hentry).1)
      (LeaseStore.evolves_release _) fun hcan => ⟨(hrelies hcan).1, ?_⟩
    rintro l ⟨hnew, key', value, hentry⟩
    obtain ⟨hbefore, hne⟩ := (r.etcd.lookup_release_eq_some _).mp hentry
    exact absurd ((hrelies hcan).2 l ⟨hnew, key', value, hbefore⟩) (by simpa using hne.symm)

theorem lastLease_eq {t : Heartbeat} (ht : r.tasks 0 = some t) :
    r.lastLease = t.state.storing.or r.leaseId := by
  rw [lastLease, ht]
  rfl

theorem mayPut_iff {t : Heartbeat} (ht : r.tasks 0 = some t) : r.MayPut ↔ t.state.MayPut := by
  simp [MayPut, ht]

/-- The task changes slots or etcd, and moves on. -/
theorem Tidy.advanceTask (h : r.Tidy e₀ inst) (q : EtcdRegistry) {t : Heartbeat}
    (ht : r.tasks 0 = some t) {state : HeartbeatState} (hconfig : q.config = r.config)
    (hcalls : q.calls = r.calls) (htasks : q.tasks = r.tasks)
    (hcancelled : q.cancelled = r.cancelled)
    (hkeyed : ∀ key, q.registeredKey = some key → key = r.config.keyOf inst)
    (hkey : ∀ key value lease, q.etcd.entries.lookup key = some (value, lease) →
      e₀.state lease = none → key = r.config.keyOf inst)
    (hevolves : r.etcd.Evolves q.etcd) (hstopped : state = .stopped → 0 ∈ r.cancelled)
    (hrelies : (q.setTask 0 ⟨t.inst, state⟩).ReliesOn e₀ inst (r.calls 1)) :
    (q.setTask 0 ⟨t.inst, state⟩).Tidy e₀ inst where
  call := by
    rcases h.call with hcall | hu
    · exact .inl ((congrFun hcalls 0).trans hcall)
    · exact absurd (hu.task.symm.trans ht) (by simp)
  others := fun i h0 h1 => by simpa [hcalls] using h.others i h0 h1
  task := by
    intro k t' ht'
    rw [setTask_tasks, htasks] at ht'
    rcases update_eq_some.mp ht' with ⟨rfl, rfl⟩ | ⟨-, hold⟩
    · exact ⟨rfl, (h.task 0 t ht).2⟩
    · exact h.task k t' hold
  keyed := fun key hkey => by simpa [hconfig] using hkeyed key hkey
  key := fun key value lease hentry hnew => by
    simpa [hconfig] using hkey key value lease hentry hnew
  evolves := h.evolves.trans hevolves
  stopped := by
    intro t' ht' hstop
    obtain rfl := eq_of_setTask ht'
    simpa [hcancelled] using hstopped hstop
  relies := by simpa [hcalls] using hrelies

/-- A step of the task that puts nothing keeps what `deregister` relies on. -/
theorem Tidy.relies_of_task (h : r.Tidy e₀ inst) (q : EtcdRegistry) {t : Heartbeat}
    (ht : r.tasks 0 = some t) {state : HeartbeatState} (hconfig : q.config = r.config)
    (hcancelled : q.cancelled = r.cancelled) (hentries : q.etcd.entries = r.etcd.entries)
    (hlease : state.storing.or q.leaseId = t.state.storing.or r.leaseId)
    (hput : 0 ∈ r.cancelled → state.MayPut → t.state.MayPut) :
    (q.setTask 0 ⟨t.inst, state⟩).ReliesOn e₀ inst (r.calls 1) := by
  have ht' : (q.setTask 0 ⟨t.inst, state⟩).tasks 0 = some ⟨t.inst, state⟩ := by simp
  refine h.relies.mono hconfig (fun lease hghost => ?_) ?_ hcancelled fun hcan hmay => ?_
  · rwa [Ghost, setTask_etcd, hentries] at hghost
  · rw [lastLease_eq ht', lastLease_eq ht, setTask_leaseId, hlease]
  · rw [mayPut_iff ht]
    exact hput hcan ((mayPut_iff ht').mp hmay)

/-- The task moves on without a slot or etcd changing. -/
theorem Tidy.setTask (h : r.Tidy e₀ inst) {t : Heartbeat} (ht : r.tasks 0 = some t) {client : Bool}
    {state : HeartbeatState} (hstoring : state.storing = t.state.storing)
    (hput : 0 ∈ r.cancelled → state.MayPut → t.state.MayPut)
    (hstopped : state = .stopped → 0 ∈ r.cancelled) :
    ({ r with client := client }.setTask 0 ⟨t.inst, state⟩).Tidy e₀ inst :=
  h.advanceTask { r with client := client } ht rfl rfl rfl rfl h.keyed h.key (.refl _)
    hstopped (h.relies_of_task { r with client := client } ht rfl rfl rfl
      (by rw [hstoring]) hput)

/-- **A step of the task** keeps what `deregister` relies on. -/
theorem Tidy.taskMove (h : r.Tidy e₀ inst) {t : Heartbeat} {l : HeartbeatLabel}
    (hok : (EtcdLabel.task 0 l).succeeds) (ht : r.tasks 0 = some t)
    (move : HeartbeatMove r 0 t l r') : r'.Tidy e₀ inst := by
  obtain ⟨-, hinst⟩ := h.task 0 t ht
  cases move with
  | leave at_ stop => exact h.setTask ht (by rw [at_]; rfl) (fun _ hmay => hmay.elim) fun _ => stop
  | check at_ live =>
    exact h.setTask ht (by rw [at_]; rfl) (fun hcan => absurd hcan live)
      (fun hstop => by cases hstop)
  | connected at_ =>
    exact h.setTask ht (by rw [at_]; rfl) (fun _ _ => by rw [at_]; trivial)
      (fun hstop => by cases hstop)
  | connectFailed at_ => cases hok
  | @granted lease ok at_ fresh =>
    obtain rfl : ok = true := hok
    refine h.advanceTask (r.withEtcd _) ht rfl rfl rfl rfl h.keyed h.key
      (LeaseStore.evolves_grant fresh) (fun hstop => by cases hstop)
      (h.relies_of_task (r.withEtcd _) ht rfl rfl rfl ?_ fun _ _ => ?_)
    · rw [at_]
      rfl
    · rw [at_]
      trivial
  | @put lease ok at_ live =>
    obtain rfl : ok = true := hok
    have hkeyOf : r.config.keyOf t.inst = r.config.keyOf inst := by rw [hinst]
    -- the key of the task is the only one, and now hangs on the new lease
    have hentry : ∀ key value lease', (r.etcd.put (r.config.keyOf t.inst) (r.reread t.inst) lease
        live).entries.lookup key = some (value, lease') → e₀.state lease' = none →
          key = r.config.keyOf inst ∧ lease' = lease := by
      intro key value lease' hentry hnew
      rw [LeaseStore.put, HashMap.lookup_insert] at hentry
      split_ifs at hentry with hkey
      · exact ⟨hkey.trans hkeyOf, (congrArg Prod.snd (Option.some.inj hentry)).symm⟩
      · exact absurd ((h.key key value lease' hentry hnew).trans hkeyOf.symm) hkey
    refine h.advanceTask (r.withEtcd _) ht rfl rfl rfl rfl h.keyed
      (fun key value lease' he hnew => (hentry key value lease' he hnew).1)
      (LeaseStore.evolves_of_state rfl) (fun hstop => by cases hstop)
      (h.relies.put ((mayPut_iff ht).mpr (by rw [at_]; trivial)) rfl rfl ?_)
    rintro lease' ⟨hnew, key, value, he⟩
    obtain rfl := (hentry key value lease' he hnew).2
    exact lastLease_eq (t := ⟨t.inst, .storingKey lease'⟩) (by simp)
  | @storeKey lease at_ =>
    refine h.advanceTask { r with registeredKey := _ } ht rfl rfl rfl rfl
      (fun key hkey => ?_) h.key (.refl _) (fun hstop => by cases hstop)
      (h.relies_of_task { r with registeredKey := _ } ht rfl rfl rfl ?_ fun _ hmay => hmay.elim)
    · rw [← Option.some.inj hkey, hinst]
    · rw [at_]
      rfl
  | @storeLease lease at_ =>
    refine h.advanceTask { r with leaseId := some lease } ht rfl rfl rfl rfl h.keyed h.key
      (.refl _) (fun hstop => by cases hstop)
      (h.relies_of_task { r with leaseId := some lease } ht rfl rfl rfl ?_
        fun _ hmay => hmay.elim)
    rw [at_]
    rfl
  | failed at_ => cases hok
  | cancelled at_ stop | cancelledAsleep at_ stop =>
    exact h.setTask ht (by rw [at_]; rfl) (fun _ hmay => hmay.elim) fun _ => stop
  | established at_ | beat at_ | renewed at_ | broken at_ | invalidated at_ | slept at_ =>
    exact h.setTask ht (by rw [at_]; rfl) (fun _ hmay => hmay.elim) (fun hstop => by cases hstop)

/-- Nobody but call 0 and call 1 begins. -/
theorem EtcdCallMove.not_idle {l : EtcdCallLabel} (move : EtcdCallMove r i l r')
    (hone : (EtcdLabel.call i l).OneEach inst) (h0 : i ≠ 0) (h1 : i ≠ 1) : r.calls i ≠ .idle := by
  intro hidle
  cases move with
  | register => simp [EtcdLabel.OneEach] at hone
  | deregister => simp [EtcdLabel.OneEach] at hone
  | replace at_ | arm at_ | cancel at_ | takeKey at_ | takeLease at_ | connected at_ | keyless at_
  | connectFailed at_ | deleted _ at_ | revoked _ at_ => simp [at_] at hidle

/-- **The invariant is kept**, as long as every call succeeds and `deregister` is not hasty. -/
theorem Tidy.step (h : r.Tidy e₀ inst) {l : EtcdLabel} (hok : l.succeeds) (hone : l.OneEach inst)
    (hhasty : ¬ r.Hasty l) (hstep : r.step l = some r') : r'.Tidy e₀ inst := by
  cases move_of_step hstep with
  | @call i l r' move =>
    rcases eq_or_ne i 0 with rfl | h0
    · exact h.registerMove hone move
    rcases eq_or_ne i 1 with rfl | h1
    · exact h.deregisterMove hok hone hhasty move
    exact (move.not_idle hone h0 h1 (h.others i h0 h1)).elim
  | @task k t l r' ht move =>
    obtain ⟨rfl, -⟩ := h.task k t ht
    exact h.taskMove hok ht move
  | @answer k t lease requests replies consumed ht at_ =>
    obtain ⟨rfl, -⟩ := h.task k t ht
    exact h.setTask ht (by rw [at_]; rfl) (fun _ hmay => hmay.elim) (fun hstop => by cases hstop)
  | expire lease =>
    have hbefore : ∀ key value lease', (r.etcd.expire lease).entries.lookup key
        = some (value, lease') → r.etcd.entries.lookup key = some (value, lease') :=
      fun _ _ _ hentry => ((r.etcd.lookup_release_eq_some _).mp hentry).1
    refine { h with
      call := h.call.imp_right fun hu => { hu with }
      key := fun key value lease' hentry => h.key key value lease' (hbefore _ _ _ hentry)
      evolves := h.evolves.trans (LeaseStore.evolves_release _)
      relies := h.relies.mono rfl ?_ rfl rfl fun _ hmay => hmay }
    rintro lease' ⟨hnew, key, value, hentry⟩
    exact ⟨hnew, key, value, hbefore _ _ _ hentry⟩

/-- **Deregister leaves no ghost**, as long as it does not run ahead of the task. -/
theorem no_ghost (config : RegistryConfig) (reread : ServiceInstance → ServiceInstance)
    (e₀ : Etcd) (inst : ServiceInstance) (w : List EtcdLabel)
    (hw : EachStep step (fun r l => l.succeeds ∧ l.OneEach inst ∧ ¬ r.Hasty l)
      (new config reread e₀) w) :
    EachState step (NoGhost e₀) (new config reread e₀) w := by
  have hinv : EachState step (Tidy e₀ inst) _ w :=
    eachState_of_invariant (fun _ _ _ h hl hstep => h.step hl.1 hl.2.1 hl.2.2 hstep)
      (tidy_new config reread e₀) hw
  exact hinv.imp fun _ h => h.noGhost

end EtcdRegistry

end PecsRegistry
