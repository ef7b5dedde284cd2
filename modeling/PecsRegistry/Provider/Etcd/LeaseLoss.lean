import PecsRegistry.Provider.Etcd.Moves

/-!
# Provider/Etcd/LeaseLoss — the heartbeat of a lost lease

Etcd answers the keep-alive of a lease that is gone with a time to live of zero.  The heartbeat loop
takes every reply for a renewal, and leaves only when the stream ends or fails: so it beats on for a
lease it has been told is lost if and only if it reads such a reply (`heedsLoss_iff`).
-/

namespace PecsRegistry

open Transition

namespace EtcdRegistry

variable {r r' : EtcdRegistry} {i k : ℕ}

/-! ## What a step does to a keep-alive stream -/

/-- What becomes of the stream of a task in its loop: it is new, or as it was, or etcd has answered,
or the task has read a reply. -/
inductive StreamMove (r : EtcdRegistry) (k lease : ℕ) (stream : KeepAliveStream) :
    EtcdLabel → KeepAliveStream → Prop
  | kept {l : EtcdLabel} {stream' : KeepAliveStream} (replies : stream'.replies = stream.replies)
      (consumed : stream'.consumed = stream.consumed) : StreamMove r k lease stream l stream'
  | answered {requests : ℕ} :
      StreamMove r k lease stream (.answer k)
        ⟨requests, stream.replies ++ [r.etcd.keepAlive lease], stream.consumed⟩
  | read {requests ttl : ℕ} {replies : List ℕ} (head : stream.replies = ttl :: replies) :
      StreamMove r k lease stream (.task k .renewed) ⟨requests, replies, stream.consumed ++ [ttl]⟩

theorem EtcdMove.stream {l : EtcdLabel} {t' : Heartbeat} {lease : ℕ} {stream' : KeepAliveStream}
    (move : EtcdMove r l r') (ht' : r'.tasks k = some t')
    (at' : t'.state = .beating lease stream') :
    (r.etcd.state lease = some .live ∧ stream' = ⟨0, [], []⟩) ∨
      ∃ t stream, r.tasks k = some t ∧ t.state = .beating lease stream
        ∧ StreamMove r k lease stream l stream' := by
  have hkept : r.tasks k = some t' → ∃ t stream, r.tasks k = some t
      ∧ t.state = .beating lease stream ∧ StreamMove r k lease stream l stream' :=
    fun ht => ⟨t', stream', ht, at', .kept rfl rfl⟩
  cases move with
  | @call i l r' move =>
    rcases move.tasks with htasks | ⟨inst, -, -, htasks⟩
    · exact .inr (hkept (htasks ▸ ht'))
    · rcases eq_or_ne k i with rfl | hne
      · rw [htasks, Function.update_self] at ht'
        obtain rfl := Option.some.inj ht'
        cases at'
      · rw [htasks, Function.update_of_ne hne] at ht'
        exact .inr (hkept ht')
  | @task k' t l r' ht move =>
    rcases eq_or_ne k k' with rfl | hne
    · cases move with
      | established at_ live =>
        obtain rfl : ⟨t.inst, .beating _ ⟨0, [], []⟩⟩ = t' := by simpa using ht'
        obtain ⟨rfl, rfl⟩ := HeartbeatState.beating.inj at'
        exact .inl ⟨live, rfl⟩
      | beat at_ =>
        obtain rfl : ⟨t.inst, .beating _ _⟩ = t' := by simpa using ht'
        obtain ⟨rfl, rfl⟩ := HeartbeatState.beating.inj at'
        exact .inr ⟨t, _, ht, at_, .kept rfl rfl⟩
      | renewed at_ =>
        obtain rfl : ⟨t.inst, .beating _ _⟩ = t' := by simpa using ht'
        obtain ⟨rfl, rfl⟩ := HeartbeatState.beating.inj at'
        exact .inr ⟨t, _, ht, at_, .read rfl⟩
      | granted ok => cases ok <;> simp at ht' <;> subst ht' <;> cases at'
      | put ok => cases ok <;> simp at ht' <;> subst ht' <;> cases at'
      | _ => simp at ht'; subst ht'; cases at'
    · obtain ⟨state, htasks⟩ := move.tasks
      rw [htasks, Function.update_of_ne hne] at ht'
      exact .inr (hkept ht')
  | @answer k' t lease' requests replies consumed ht at_ =>
    rcases eq_or_ne k k' with rfl | hne
    · obtain rfl : ⟨t.inst, .beating _ _⟩ = t' := by simpa using ht'
      obtain ⟨rfl, rfl⟩ := HeartbeatState.beating.inj at'
      exact .inr ⟨t, _, ht, at_, .answered⟩
    · exact .inr (hkept (by simpa [hne] using ht'))
  | expire lease' => exact .inr (hkept ht')

/-! ## Replies tell the truth -/

/-- The loop beats for a lease that was granted; once a reply with a time to live of zero is on the
way, the lease is gone. -/
def Truthful (r : EtcdRegistry) : Prop :=
  ∀ k t lease stream, r.tasks k = some t → t.state = .beating lease stream →
    r.etcd.state lease ≠ none
      ∧ (0 ∈ stream.replies ++ stream.consumed → r.etcd.state lease ≠ some .live)

theorem truthful_new (config : RegistryConfig) (reread : ServiceInstance → ServiceInstance)
    (etcd : Etcd) : (new config reread etcd).Truthful :=
  fun _ _ _ _ ht => by simp [new] at ht

/-- A lease that is gone is never live again. -/
theorem EtcdMove.ne_live {l : EtcdLabel} (move : EtcdMove r l r') {lease : ℕ}
    (hgranted : r.etcd.state lease ≠ none) (hgone : r.etcd.state lease ≠ some .live) :
    r'.etcd.state lease ≠ some .live := by
  obtain ⟨outcome, houtcome⟩ := Option.ne_none_iff_exists'.mp hgranted
  have hne : outcome ≠ .live := fun h => hgone (h ▸ houtcome)
  rw [move.evolves.gone lease outcome houtcome hne]
  exact fun h => hne (Option.some.inj h)

theorem Truthful.step (h : r.Truthful) {l : EtcdLabel} (hstep : r.step l = some r') :
    r'.Truthful := by
  have move := move_of_step hstep
  intro k t' lease stream' ht' at'
  rcases move.stream ht' at' with ⟨hlive, rfl⟩ | ⟨t, stream, ht, at_, hstream⟩
  · exact ⟨fun hnone => by simp [move.evolves.granted lease hnone] at hlive, by simp⟩
  · obtain ⟨hgranted, htruth⟩ := h k t lease stream ht at_
    refine ⟨fun hnone => hgranted (move.evolves.granted lease hnone), fun hzero => ?_⟩
    refine move.ne_live hgranted ?_
    cases hstream with
    | kept replies consumed => exact htruth (by rwa [replies, consumed] at hzero)
    | answered =>
      simp only [List.append_assoc, List.mem_append, List.mem_singleton] at hzero
      rcases hzero with hzero | hzero | hzero
      · exact htruth (List.mem_append_left _ hzero)
      · exact r.etcd.keepAlive_eq_zero.mp hzero.symm
      · exact htruth (List.mem_append_right _ hzero)
    | read head =>
      refine htruth ?_
      rw [head]
      simp only [List.mem_append, List.mem_cons] at hzero ⊢
      tauto

/-! ## A loop that beats on -/

/-- **Self-healing**: no task is in its loop for an expired lease once it has read a
reply that says so. -/
def HeedsLoss (r : EtcdRegistry) : Prop :=
  ∀ k t lease stream, r.tasks k = some t → t.state = .beating lease stream →
    r.etcd.state lease = some .expired → 0 ∉ stream.consumed

/-- The step reads, in the loop, a reply with a time to live of zero for an expired lease. -/
def ReadsLoss (r : EtcdRegistry) : EtcdLabel → Prop
  | .task k .renewed => ∃ t lease requests replies consumed, r.tasks k = some t
      ∧ t.state = .beating lease ⟨requests, 0 :: replies, consumed⟩
      ∧ r.etcd.state lease = some .expired
  | _ => False

theorem HeedsLoss.step (h : r.HeedsLoss) (htruth : r.Truthful) {l : EtcdLabel}
    (hread : ¬ r.ReadsLoss l) (hstep : r.step l = some r') : r'.HeedsLoss := by
  have move := move_of_step hstep
  intro k t' lease stream' ht' at' hexpired hzero
  rcases move.stream ht' at' with ⟨-, rfl⟩ | ⟨t, stream, ht, at_, hstream⟩
  · simp at hzero
  · obtain ⟨hgranted, hgone⟩ := htruth k t lease stream ht at_
    -- a lease that a reply has called lost, and that is expired now, was expired before the step
    have hbefore : 0 ∈ stream.replies ++ stream.consumed →
        r.etcd.state lease = some .expired := by
      intro hmem
      obtain ⟨outcome, houtcome⟩ := Option.ne_none_iff_exists'.mp hgranted
      have hne : outcome ≠ .live := fun hlive => hgone hmem (hlive ▸ houtcome)
      rw [houtcome, ← move.evolves.gone lease outcome houtcome hne, hexpired]
    cases hstream with
    | kept _ consumed =>
      rw [consumed] at hzero
      exact h k t lease stream ht at_ (hbefore (List.mem_append_right _ hzero)) hzero
    | answered =>
      exact h k t lease stream ht at_ (hbefore (List.mem_append_right _ hzero)) hzero
    | @read requests ttl replies head =>
      rcases List.mem_append.mp hzero with hzero | hzero
      · exact h k t lease stream ht at_ (hbefore (List.mem_append_right _ hzero)) hzero
      · obtain rfl : 0 = ttl := List.mem_singleton.mp hzero
        obtain ⟨requests', replies', consumed'⟩ := stream
        obtain rfl : replies' = 0 :: replies := head
        exact hread ⟨t, lease, _, _, _, ht, at_, hbefore (by simp)⟩

/-- **A reply that says the lease is lost is taken for a renewal.** -/
theorem ReadsLoss.beatsOn {l : EtcdLabel} (h : r.ReadsLoss l) :
    ∃ r', r.step l = some r' ∧ ¬ r'.HeedsLoss := by
  unfold ReadsLoss at h
  split at h
  · next k =>
    obtain ⟨⟨inst, _⟩, lease, requests, replies, consumed, ht, rfl, hexpired⟩ := h
    refine ⟨_, by rw [step, ht]; rfl, fun hheeds => ?_⟩
    exact hheeds k _ lease ⟨requests, replies, consumed ++ [0]⟩ (Function.update_self ..) rfl
      hexpired (by simp)
  · exact h.elim

/-- **Self-healing, exactly.**  Along a run no task beats on for a lease it has been told is
expired, if and only if no loop ever reads such a reply. -/
theorem heedsLoss_iff (config : RegistryConfig) (reread : ServiceInstance → ServiceInstance)
    (etcd : Etcd) (w : List EtcdLabel) :
    EachState step HeedsLoss (new config reread etcd) w
      ↔ EachStep step (fun r l => ¬ r.ReadsLoss l) (new config reread etcd) w := by
  constructor
  · refine eachStep_of_eachState (I := fun _ => True) (D := fun _ _ => True)
      (fun _ _ _ _ _ _ => trivial) (fun r l _ _ hl => ?_) trivial
      (eachStep_of_forall_mem fun _ _ => trivial)
    exact ReadsLoss.beatsOn (not_not.mp hl)
  · intro hw
    have hinit : (new config reread etcd).Truthful ∧ (new config reread etcd).HeedsLoss :=
      ⟨truthful_new config reread etcd, fun _ _ _ _ ht => by simp [new] at ht⟩
    have hboth : EachState step (fun r => r.Truthful ∧ r.HeedsLoss) _ w :=
      eachState_of_invariant
        (fun r l r' h hl hstep => ⟨h.1.step hstep, h.2.step h.1 hl hstep⟩) hinit hw
    exact hboth.imp fun r h => h.2

/-- **A dead lease heartbeated on.**  The lease expires between two heartbeats; the reply to the
second one says so, and the task stays in its loop. -/
theorem lost_lease_beaten :
    ¬ ∀ w, EachState step HeedsLoss (new .default id .empty) w := by
  intro h
  have hlast := h [.call 0 (.register (.simple "order-svc" "127.0.0.1" 8080)), .call 0 .cancel,
    .call 0 .arm, .task 0 .check, .task 0 (.connected true), .task 0 (.granted 7 true),
    .task 0 (.put true), .task 0 .storeKey, .task 0 .storeLease, .task 0 .established,
    .expire 7, .task 0 .beat, .answer 0, .task 0 .renewed]
  exact absurd (hlast.last rfl 0 _ 7 ⟨0, [], [0]⟩ rfl rfl (by decide +kernel)) (by decide)

end EtcdRegistry

end PecsRegistry
