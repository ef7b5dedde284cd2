import PecsRegistry.Provider.Etcd.LatestWins

/-!
# Provider/Etcd/Usurping — a late step always usurps

The converse of `latest_wins`: what the first task has overwritten late, the second does not write
again in the same round.  While the second task stays in its first round, a run that ends with the
first task stopped and the second in its loop leaves the second registration in force exactly when
no step was late (`latest_wins_iff`).
-/

namespace PecsRegistry

open Transition

namespace EtcdRegistry

variable {r r' : EtcdRegistry} {a b : ServiceInstance} {i k : ℕ}

/-! ## What a late step overwrites -/

/-- What the second task has written in its round has been overwritten, or it has stopped. -/
inductive Usurped (a : ServiceInstance) (r : EtcdRegistry) (t : Heartbeat) : Prop
  | stopped (at_ : t.state = .stopped)
  | entry {lease : ℕ} (written : t.state.written = some lease)
      (lost : ∀ value, r.etcd.entries.lookup (r.config.keyOf t.inst) ≠ some (value, lease))
  | key (keys : r.config.keyOf a ≠ r.config.keyOf t.inst) (stored : t.state.KeyStored)
      (lost : r.registeredKey ≠ some (r.config.keyOf t.inst))
  | lease {lease : ℕ} (stored : t.state.leaseStored = some lease) (lost : r.leaseId ≠ some lease)

theorem Usurped.not_latestWins (h : r.Paired a b) {t ta : Heartbeat} (hu : r.Usurped a t)
    (ht : r.tasks 1 = some t) (hta : r.tasks 0 = some ta) (hstopped : ta.state = .stopped)
    {lease : ℕ} {stream : KeepAliveStream} (hbeating : t.state = .beating lease stream) :
    ¬ r.LatestWins b := by
  intro hwins
  have hinst : t.inst = b := by simpa using (h.task 1 t ht).2
  obtain ⟨hkey, hlease, hentry⟩ := hwins ta hta hstopped t ht lease stream hbeating
  rw [← hinst] at hkey hentry
  cases hu with
  | stopped at_ => simp [hbeating] at at_
  | entry written lost =>
    rw [hbeating] at written
    obtain rfl := Option.some.inj written
    exact lost _ hentry
  | key _ _ lost => exact lost hkey
  | lease stored lost =>
    rw [hbeating] at stored
    obtain rfl := Option.some.inj stored
    exact lost hlease

/-- Another task than the second one is the first. -/
theorem Paired.inst_of_ne (h : r.Paired a b) {t : Heartbeat} (ht : r.tasks k = some t)
    (hne : k ≠ 1) :
    t.inst = a := by
  rcases (h.task k t ht).2 with ⟨-, hinst⟩ | ⟨hk, -⟩
  · exact hinst
  · exact absurd hk hne

/-- **A late step usurps.** -/
theorem usurped_of_late (h : r.Paired a b) {l : EtcdLabel} (hlate : r.Late 1 l)
    (hstep : r.step l = some r') : ∃ t, r'.tasks 1 = some t ∧ r'.Usurped a t := by
  cases move_of_step hstep with
  | @task j t' l r' ht' move =>
    cases move with
    | @put lease' ok at_ live =>
      obtain ⟨hne, t, ht, t'', ht'', hwritten, hkeys⟩ := hlate
      obtain rfl : t' = t'' := Option.some.inj (ht'.symm.trans ht'')
      obtain ⟨lease, hwritten⟩ := Option.ne_none_iff_exists'.mp hwritten
      refine ⟨t, by simpa [hne.symm] using ht, .entry hwritten fun value hentry => ?_⟩
      -- the key hangs on the lease of the other task now
      have hput : r.config.keyOf t.inst = r.config.keyOf t'.inst := hkeys.symm
      rw [setTask_config, setTask_etcd, withEtcd_config, withEtcd_etcd, LeaseStore.put, hput,
        Finmap.lookup_insert] at hentry
      obtain rfl : lease' = lease := congrArg Prod.snd (Option.some.inj hentry)
      exact h.distinct j t' 1 t lease' ht' ht hne (by rw [at_]; rfl)
        (HeartbeatState.lease_of_written hwritten)
    | storeKey at_ =>
      obtain ⟨hne, t, ht, t'', ht'', hstored, hkeys⟩ := hlate
      obtain rfl : t' = t'' := Option.some.inj (ht'.symm.trans ht'')
      have hinst := h.inst_of_ne ht' hne
      refine ⟨t, by simpa [hne.symm] using ht, .key (hinst ▸ hkeys) hstored ?_⟩
      exact fun hkey => hkeys (Option.some.inj hkey)
    | @storeLease lease' at_ =>
      obtain ⟨hne, t, ht, hstored⟩ := hlate
      obtain ⟨lease, hstored⟩ := Option.ne_none_iff_exists'.mp hstored
      refine ⟨t, by simpa [hne.symm] using ht, .lease hstored fun hlease => ?_⟩
      obtain rfl : lease' = lease := Option.some.inj hlease
      exact h.distinct j t' 1 t lease' ht' ht hne (by rw [at_]; rfl)
        (HeartbeatState.lease_of_leaseStored hstored)
    | _ => exact hlate.elim
  | call | answer | expire => exact hlate.elim

/-- A step of the first task leaves the second one usurped. -/
theorem Usurped.other {t₁ : Heartbeat} (hu : r.Usurped a t₁) (h : r.Paired a b)
    (ht₁ : r.tasks 1 = some t₁) {t : Heartbeat} {l : HeartbeatLabel} (ht : r.tasks k = some t)
    (hne : k ≠ 1) (move : HeartbeatMove r k t l r') : r'.Usurped a t₁ := by
  cases move with
  | @put lease ok at_ live =>
    cases hu with
    | stopped at_ => exact .stopped at_
    | key keys stored lost => exact .key keys stored lost
    | lease stored lost => exact .lease stored lost
    | entry written lost =>
      refine .entry written fun value hentry => ?_
      rw [setTask_config, setTask_etcd, withEtcd_config, withEtcd_etcd, LeaseStore.put,
        HashMap.lookup_insert] at hentry
      split_ifs at hentry
      · obtain rfl := congrArg Prod.snd (Option.some.inj hentry)
        exact h.distinct k t 1 t₁ lease ht ht₁ hne (by rw [at_]; rfl)
          (HeartbeatState.lease_of_written written)
      · exact lost value hentry
  | storeKey at_ =>
    cases hu with
    | stopped at_ => exact .stopped at_
    | entry written lost => exact .entry written lost
    | lease stored lost => exact .lease stored lost
    | key keys stored lost =>
      refine .key keys stored fun hkey => ?_
      rw [← h.inst_of_ne ht hne] at keys
      exact keys (Option.some.inj hkey)
  | @storeLease lease at_ =>
    cases hu with
    | stopped at_ => exact .stopped at_
    | entry written lost => exact .entry written lost
    | key keys stored lost => exact .key keys stored lost
    | lease stored lost =>
      refine .lease stored fun hlease => ?_
      obtain rfl := Option.some.inj hlease
      exact h.distinct k t 1 t₁ lease ht ht₁ hne (by rw [at_]; rfl)
        (HeartbeatState.lease_of_leaseStored stored)
  | _ =>
    cases hu with
    | stopped at_ => exact .stopped at_
    | entry written lost => exact .entry written lost
    | key keys stored lost => exact .key keys stored lost
    | lease stored lost => exact .lease stored lost

/-- A step that writes nothing the second task has lost, and takes it no further back in its
round. -/
theorem Usurped.mono {t t' : Heartbeat} (hu : r.Usurped a t) (hconfig : r'.config = r.config)
    (hinst : t'.inst = t.inst)
    (hentries : ∀ key entry, r'.etcd.entries.lookup key = some entry →
      r.etcd.entries.lookup key = some entry)
    (hkey : t.state.KeyStored → r'.registeredKey = r.registeredKey ∧ t'.state.KeyStored)
    (hwritten : ∀ l, t.state.written = some l → t'.state.written = some l)
    (hlease : ∀ l, t.state.leaseStored = some l → r'.leaseId = r.leaseId ∧
      t'.state.leaseStored = some l)
    (hstopped : t.state = .stopped → t'.state = .stopped) : r'.Usurped a t' := by
  cases hu with
  | stopped at_ => exact .stopped (hstopped at_)
  | entry written lost =>
    refine .entry (hwritten _ written) fun value hentry => lost value ?_
    rw [hconfig, hinst] at hentry
    exact hentries _ _ hentry
  | key keys stored lost =>
    obtain ⟨hslot, hstored⟩ := hkey stored
    exact .key (by rwa [hconfig, hinst]) hstored (by rwa [hconfig, hinst, hslot])
  | lease stored lost =>
    obtain ⟨hslot, hstored⟩ := hlease _ stored
    exact .lease hstored (by rwa [hslot])

/-- **The second task does not make good what it has lost** in the same round. -/
theorem Usurped.own {t : Heartbeat} (hu : r.Usurped a t) {l : HeartbeatLabel}
    (hround : l ≠ .broken) (hok : (EtcdLabel.task k l).succeeds) (move : HeartbeatMove r k t l r') :
    ∃ t', r'.tasks k = some t' ∧ r'.Usurped a t' := by
  cases move with
  | storeKey at_ =>
    refine ⟨_, Function.update_self .., hu.mono rfl rfl (fun _ _ he => he) ?_ ?_ ?_ ?_⟩ <;>
      rw [at_]
    · exact fun hstored => hstored.elim
    · exact fun _ hwritten => hwritten
    · exact fun _ hstored => by cases hstored
    · exact fun hstop => by cases hstop
  | storeLease at_ =>
    refine ⟨_, Function.update_self .., hu.mono rfl rfl (fun _ _ he => he) ?_ ?_ ?_ ?_⟩ <;>
      rw [at_]
    · exact fun _ => ⟨rfl, trivial⟩
    · exact fun _ hwritten => hwritten
    · exact fun _ hstored => by cases hstored
    · exact fun hstop => by cases hstop
  | established at_ | beat at_ | renewed at_ =>
    refine ⟨_, Function.update_self .., hu.mono rfl rfl (fun _ _ he => he) ?_ ?_ ?_ ?_⟩ <;>
      rw [at_]
    · exact fun _ => ⟨rfl, trivial⟩
    · exact fun _ hwritten => hwritten
    · exact fun _ hstored => ⟨rfl, hstored⟩
    · exact fun hstop => by cases hstop
  | leave at_ | cancelled at_ | cancelledAsleep at_ =>
    exact ⟨_, Function.update_self .., .stopped rfl⟩
  | broken at_ => exact absurd rfl hround
  | connectFailed at_ => cases hok
  | failed at_ => cases hok
  | check at_ | connected at_ | granted _ at_ | put _ at_ | invalidated at_ | slept at_ =>
    -- nothing is written yet in this round, so nothing is lost
    cases hu with
    | stopped at' => simp [at_] at at'
    | entry written => rw [at_] at written; cases written
    | key _ stored => rw [at_] at stored; exact stored.elim
    | lease stored => rw [at_] at stored; cases stored

/-- **Once usurped, always usurped**, while the second task stays in its round. -/
theorem Usurped.step {t : Heartbeat} (hu : r.Usurped a t) (h : r.Paired a b)
    (ht : r.tasks 1 = some t) {l : EtcdLabel} (hok : l.succeeds) (hseq : r.Sequential a b l)
    (hround : l ≠ .task 1 .broken) (hstep : r.step l = some r') :
    ∃ t', r'.tasks 1 = some t' ∧ r'.Usurped a t' := by
  have hkept : ∀ q : EtcdRegistry, q.config = r.config → q.registeredKey = r.registeredKey →
      q.leaseId = r.leaseId → (∀ key entry, q.etcd.entries.lookup key = some entry →
        r.etcd.entries.lookup key = some entry) → q.Usurped a t :=
    fun q hconfig hkey hlease hentries => hu.mono hconfig rfl hentries (fun hs => ⟨hkey, hs⟩)
      (fun _ hw => hw) (fun _ hs => ⟨hlease, hs⟩) id
  cases move_of_step hstep with
  | @call i l r' move =>
    obtain ⟨hconfig, hetcd, hkey, hlease⟩ := h.call_frame hseq move
    refine ⟨t, ?_, hkept r' hconfig hkey hlease fun _ _ he => hetcd ▸ he⟩
    rcases move.tasks with htasks | ⟨inst, harming, -, htasks⟩
    · rw [htasks, ht]
    · -- the second call has returned: it is not the one that spawns
      have hi : (1 : ℕ) ≠ i := by
        rintro rfl
        exact absurd (harming.symm.trans (h.task 1 t ht).1) (by simp)
      rw [htasks, Function.update_of_ne hi, ht]
  | @task k t' l r' ht' move =>
    rcases eq_or_ne k 1 with rfl | hne
    · obtain rfl : t = t' := Option.some.inj (ht.symm.trans ht')
      exact hu.own (fun hl => hround (by rw [hl])) hok move
    · obtain ⟨state, htasks⟩ := move.tasks
      refine ⟨t, ?_, hu.other h ht ht' hne move⟩
      rw [htasks, Function.update_of_ne hne.symm, ht]
  | @answer k t' lease requests replies consumed ht' at_ =>
    rcases eq_or_ne k 1 with rfl | hne
    · obtain rfl : t = t' := Option.some.inj (ht.symm.trans ht')
      refine ⟨_, (setTask_tasks ..).trans (Function.update_self ..),
        hu.mono rfl rfl (fun _ _ he => he) ?_ ?_ ?_ ?_⟩ <;> rw [at_]
      · exact fun _ => ⟨rfl, trivial⟩
      · exact fun _ hwritten => hwritten
      · exact fun _ hstored => ⟨rfl, hstored⟩
      · exact fun hstop => by cases hstop
    · exact ⟨t, by simpa [hne.symm] using ht, hkept _ rfl rfl rfl fun _ _ he => he⟩
  | expire lease =>
    refine ⟨t, ht, hkept _ rfl rfl rfl ?_⟩
    rintro key ⟨value, id⟩ he
    exact ((r.etcd.lookup_release_eq_some .expired).mp he).1

/-! ## Complete runs -/

/-- A usurped run that ends with the second task in its loop has lost the second registration. -/
theorem not_latestWins_of_usurped (h : r.Paired a b) {t : Heartbeat} (ht : r.tasks 1 = some t)
    (hu : r.Usurped a t) {w : List EtcdLabel}
    (hw : EachStep step (fun r l => l.succeeds ∧ r.Sequential a b l ∧ r.KeptAlive 1 l) r w)
    (hround : ∀ l ∈ w, l ≠ .task 1 .broken) (hrun : run step r w = some r') {ta tb : Heartbeat}
    (hta : r'.tasks 0 = some ta) (hstopped : ta.state = .stopped) (htb : r'.tasks 1 = some tb)
    {lease : ℕ} {stream : KeepAliveStream} (hbeating : tb.state = .beating lease stream) :
    ¬ r'.LatestWins b := by
  have hstep : ∀ q l q', (q.Paired a b ∧ ∃ t, q.tasks 1 = some t ∧ q.Usurped a t) →
      ((l.succeeds ∧ q.Sequential a b l ∧ q.KeptAlive 1 l) ∧ l ≠ .task 1 .broken) →
      step q l = some q' → q'.Paired a b ∧ ∃ t, q'.tasks 1 = some t ∧ q'.Usurped a t := by
    rintro q l q' ⟨h, t, ht, hu⟩ ⟨⟨hok, hseq, -⟩, hround⟩ hstep
    exact ⟨h.step hseq hstep, hu.step h ht hok hseq hround hstep⟩
  obtain ⟨h', t', ht', hu'⟩ :=
    invariant_run hstep ⟨h, t, ht, hu⟩ (hw.and (eachStep_of_forall_mem hround)) hrun
  obtain rfl : tb = t' := Option.some.inj (htb.symm.trans ht')
  exact hu'.not_latestWins h' htb hta hstopped hbeating

/-- Where a run ends with the second registration in force, no step of it was late. -/
theorem not_late_of_latestWins (h : r.Paired a b) {w : List EtcdLabel}
    (hw : EachStep step (fun r l => l.succeeds ∧ r.Sequential a b l ∧ r.KeptAlive 1 l) r w)
    (hround : ∀ l ∈ w, l ≠ .task 1 .broken) (hrun : run step r w = some r') {ta tb : Heartbeat}
    (hta : r'.tasks 0 = some ta) (hstopped : ta.state = .stopped) (htb : r'.tasks 1 = some tb)
    {lease : ℕ} {stream : KeepAliveStream} (hbeating : tb.state = .beating lease stream)
    (hwins : r'.LatestWins b) : EachStep step (fun r l => ¬ r.Late 1 l) r w := by
  induction w generalizing r with
  | nil => trivial
  | cons l w ih =>
    obtain ⟨⟨hok, hseq, hkept⟩, hrest⟩ := hw
    obtain ⟨q, hstep, hrun⟩ := run_cons_eq_some.mp hrun
    have hround' := (List.forall_mem_cons.mp hround).2
    have hlate : ¬ r.Late 1 l := by
      intro hlate
      obtain ⟨t, ht, hu⟩ := usurped_of_late h hlate hstep
      exact not_latestWins_of_usurped (h.step hseq hstep) ht hu (hrest q hstep) hround' hrun hta
        hstopped htb hbeating hwins
    refine ⟨hlate, fun q' hq' => ?_⟩
    obtain rfl : q = q' := Option.some.inj (hstep.symm.trans hq')
    exact ih (h.step hseq hstep) (hrest q hstep) hround' hrun

/-- **The latest registration wins, exactly.**  Every call succeeds, and the second task's lease is
kept alive.  As long as no step of the first task is late, the second registration is in force in
every state of the run; and where the second task stays in its first round, a run that has the first
task stopped and the second in its loop leaves it in force only if no step was late. -/
theorem latest_wins_iff (config : RegistryConfig) (reread : ServiceInstance → ServiceInstance)
    (etcd : Etcd) (a b : ServiceInstance) (w : List EtcdLabel)
    (hw : EachStep step (fun r l => l.succeeds ∧ r.Sequential a b l ∧ r.KeptAlive 1 l)
      (new config reread etcd) w) :
    (EachStep step (fun r l => ¬ r.Late 1 l) (new config reread etcd) w →
        EachState step (LatestWins b) (new config reread etcd) w)
      ∧ ((∀ l ∈ w, l ≠ .task 1 .broken) → ∀ r ta tb lease stream,
          run step (new config reread etcd) w = some r → r.tasks 0 = some ta → ta.state = .stopped →
          r.tasks 1 = some tb → tb.state = .beating lease stream →
            (r.LatestWins b
              ↔ EachStep step (fun r l => ¬ r.Late 1 l) (new config reread etcd) w)) := by
  have hwins : EachStep step (fun r l => ¬ r.Late 1 l) (new config reread etcd) w →
      EachState step (LatestWins b) (new config reread etcd) w := fun hlate =>
    latest_wins config reread etcd a b w
      ((hw.and hlate).imp fun _ _ h => ⟨h.1.1, h.1.2.1, h.1.2.2, h.2⟩)
  refine ⟨hwins, fun hround r ta tb lease stream hrun hta hstopped htb hbeating =>
    ⟨fun h => ?_, fun hlate => (hwins hlate).last hrun⟩⟩
  exact not_late_of_latestWins (paired_new config reread etcd) hw hround hrun hta hstopped htb
    hbeating h

/-- The instance of the examples, and the same instance with another weight. -/
def first : ServiceInstance := .simple "order-svc" "127.0.0.1" 8080

def updated : ServiceInstance := first.withWeight 2

/-- `register` as call `i`, up to its return. -/
def registering (i : ℕ) (inst : ServiceInstance) : List EtcdLabel :=
  [.call i (.register inst), .call i .cancel, .call i .arm]

/-- Task `k` up to its put. -/
def granting (k lease : ℕ) : List EtcdLabel :=
  [.task k .check, .task k (.connected true), .task k (.granted lease true)]

/-- Task `k` from its put to its loop. -/
def storing (k : ℕ) : List EtcdLabel :=
  [.task k (.put true), .task k .storeKey, .task k .storeLease, .task k .established]

/-- A run in which the first task is in its loop when the second registration begins. -/
def handover : List EtcdLabel :=
  registering 0 first ++ granting 0 7 ++ storing 0 ++ registering 1 updated ++ [.task 0 .cancelled]
    ++ granting 1 8 ++ storing 1

theorem latest_wins_iff_handover :
    EachState step (LatestWins updated) (new .default id .empty) handover
      ∧ ∃ r, run step (new .default id .empty) handover = some r
        ∧ (r.LatestWins updated
          ↔ EachStep step (fun r l => ¬ r.Late 1 l) (new .default id .empty) handover) := by
  obtain ⟨hwins, hexact⟩ :=
    latest_wins_iff .default id .empty first updated handover (by decide +kernel)
  exact ⟨hwins (by decide +kernel), _, rfl,
    hexact (by decide +kernel) _ _ _ 8 _ rfl rfl rfl rfl rfl⟩

/-- **A late put.**  The second registration is complete when the first task, cancelled since, makes
its put: the key hangs on a lease that nobody renews. -/
theorem latest_overwritten :
    ¬ ∀ w, EachStep step (fun r l => l.succeeds ∧ r.Sequential first updated l ∧ r.KeptAlive 1 l)
      (new .default id .empty) w →
      EachState step (LatestWins updated) (new .default id .empty) w := by
  intro h
  have hlast := h (registering 0 first ++ granting 0 7 ++ registering 1 updated ++ granting 1 8
    ++ storing 1 ++ storing 0 ++ [.task 0 .cancelled]) (by decide +kernel)
  have hlease := (hlast.last rfl _ rfl rfl _ rfl 8 ⟨0, [], []⟩ rfl).2.1
  exact absurd hlease (by decide +kernel)

end EtcdRegistry

end PecsRegistry
