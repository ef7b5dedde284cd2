import PecsRegistry.Provider.Etcd.System

/-!
# Provider/Etcd/Retry — a deregistration that fails half-way

A `deregister` that nobody interrupts runs its steps to the end; `deregister` is what it makes of
the registry, for every way its requests may end (`run_deregister`, `run_unconnected`).  It empties
the slots `registered_key` and `lease_id` before it has a client, drops what its requests report,
and returns `Ok`.  So the one who called it can tell that the key is still in etcd, and try again,
if and only if the key is not there any more (`retriable_iff`).
-/

namespace PecsRegistry

open Transition

/-- How a request to etcd ends: what it reports, and whether etcd has carried it out.  One that
fails or times out may have been. -/
structure EtcdReply where
  result : RegistryResult Unit
  reached : Bool
  answered : result = .ok () → reached

/-- A request that times out before it has reached etcd. -/
def EtcdReply.lost (msg : String) : EtcdReply := ⟨.error (.timeout msg), false, nofun⟩

def EtcdReply.ok : EtcdReply := ⟨.ok (), true, fun _ => rfl⟩

namespace EtcdRegistry

variable {r : EtcdRegistry} {i lease l : ℕ} {key : String} {connect : RegistryResult Unit}
  {delete revoke : EtcdReply}

/-- The cached client, or a new one if it connects. -/
def getOrConnectClient (r : EtcdRegistry) (connect : RegistryResult Unit) :
    RegistryResult Unit × EtcdRegistry :=
  if r.client then (.ok (), r)
  else match connect with
    | .ok () => (.ok (), { r with client := true })
    | .error err => (.error err, r)

/-- `client.delete(k)`, for a key that was in its slot. -/
def deleteKey (r : EtcdRegistry) (key : Option String) (reply : EtcdReply) : EtcdRegistry :=
  match key with
  | some key => r.withEtcd (if reply.reached then r.etcd.delete key else r.etcd)
  | none => r

/-- `client.lease_revoke(id)`, for a lease that was in its slot. -/
def revokeLease (r : EtcdRegistry) (lease : Option ℕ) (reply : EtcdReply) : EtcdRegistry :=
  match lease with
  | some lease => r.withEtcd (if reply.reached then r.etcd.revoke lease else r.etcd)
  | none => r

/-- A whole `deregister`, by how connecting and its two requests end. -/
def deregister (r : EtcdRegistry) (connect : RegistryResult Unit) (delete revoke : EtcdReply) :
    RegistryResult Unit × EtcdRegistry :=
  match { r.cancelTask with registeredKey := none, leaseId := none }.getOrConnectClient connect with
  | (.ok (), r') => (.ok (), (r'.deleteKey r.registeredKey delete).revokeLease r.leaseId revoke)
  | (.error _, r') => (.ok (), r')

/-- A client is at hand, or connects. -/
def Connects (r : EtcdRegistry) (connect : RegistryResult Unit) : Prop :=
  r.client ∨ connect = .ok ()

/-- The key is in etcd, under the lease, which is live (`LeaseStore.attached`). -/
def HangsOn (r : EtcdRegistry) (key : String) (lease : ℕ) : Prop :=
  (r.etcd.entries.lookup key).map Prod.snd = some lease

instance : Decidable (r.HangsOn key lease) :=
  inferInstanceAs (Decidable ((r.etcd.entries.lookup key).map Prod.snd = some lease))

/-- **A failure can be retried**: if etcd still holds the key when `deregister` returns, it has
returned an error, or the slots still hold the key and the lease. -/
def Retriable (key : String) (lease : ℕ) (out : RegistryResult Unit × EtcdRegistry) : Prop :=
  (∃ l, out.2.HangsOn key l) →
    (∃ err, out.1 = .error err) ∨ out.2.registeredKey = some key ∧ out.2.leaseId = some lease

/-! ## The steps of a whole call -/

theorem deregister_of_connects (h : r.Connects connect) :
    r.deregister connect delete revoke
      = (.ok (), (({ r.cancelTask with registeredKey := none, leaseId := none, client := true
          }).deleteKey r.registeredKey delete).revokeLease r.leaseId revoke) := by
  rcases hclient : r.client with - | -
  · obtain rfl := h.resolve_left (by simp [hclient])
    simp [deregister, getOrConnectClient, hclient]
  · simp only [deregister, getOrConnectClient, cancelTask_client, hclient, if_true]

theorem deregister_of_not_connects (h : ¬ r.Connects connect) :
    r.deregister connect delete revoke
      = (.ok (), { r.cancelTask with registeredKey := none, leaseId := none }) := by
  obtain ⟨hclient, hconnect⟩ := not_or.mp h
  cases connect with
  | ok => exact absurd rfl hconnect
  | error err => simp [deregister, getOrConnectClient, hclient]

/-- What a deregistration does before it asks for a client. -/
def taking (i : ℕ) : List EtcdLabel :=
  [.call i .deregister, .call i .cancel, .call i .takeKey, .call i .takeLease]

/-- **The slots are emptied first.** -/
theorem run_taking (hi : r.calls i = .idle) :
    run step r (taking i)
      = some ({ r.cancelTask with registeredKey := none, leaseId := none }.setCall i
        (.connecting r.registeredKey r.leaseId)) := by
  simp [taking, step, callStep, hi, setCall, cancelTask]

/-- A deregistration with a client is the run of its steps… -/
theorem run_deregister (hi : r.calls i = .idle) (hkey : r.registeredKey = some key)
    (hlease : r.leaseId = some lease) (hconnects : r.Connects connect) :
    run step r (taking i ++ [.call i (.connected true), .call i (.deleted delete.reached),
        .call i (.revoked revoke.reached)])
      = some ((r.deregister connect delete revoke).2.setCall i .finished) := by
  rw [deregister_of_connects hconnects]
  refine run_append_eq_some.mpr ⟨_, run_taking hi, ?_⟩
  simp [step, callStep, hkey, hlease, setCall, withEtcd, releasing, deleteKey, revokeLease]

/-- …and so is one that gets none. -/
theorem run_unconnected (hi : r.calls i = .idle) (hconnects : ¬ r.Connects connect) :
    run step r (taking i ++ [.call i (.connected false)])
      = some ((r.deregister connect delete revoke).2.setCall i .finished) := by
  rw [deregister_of_not_connects hconnects]
  have hclient : r.client = false := by simpa using (not_or.mp hconnects).1
  refine run_append_eq_some.mpr ⟨_, run_taking hi, ?_⟩
  cases r.registeredKey <;> simp [step, callStep, setCall, hclient]

/-! ## What it leaves -/

/-- It always returns `Ok`, with the slots emptied. -/
theorem deregister_frame : (r.deregister connect delete revoke).1 = .ok ()
    ∧ (r.deregister connect delete revoke).2.registeredKey = none := by
  by_cases hconnects : r.Connects connect
  · rw [deregister_of_connects hconnects]
    refine ⟨rfl, ?_⟩
    cases r.registeredKey <;> cases r.leaseId <;> rfl
  · rw [deregister_of_not_connects hconnects]
    exact ⟨rfl, rfl⟩

theorem hangsOn_iff : r.HangsOn key l ↔ ∃ value, r.etcd.entries.lookup key = some (value, l) := by
  rw [HangsOn, Option.map_eq_some_iff]
  constructor
  · rintro ⟨⟨value, l'⟩, hentry, rfl⟩
    exact ⟨value, hentry⟩
  · rintro ⟨value, hentry⟩
    exact ⟨(value, l), hentry, rfl⟩

theorem hangsOn_deleteKey (reply : EtcdReply) :
    (r.deleteKey (some key) reply).HangsOn key l ↔ r.HangsOn key l ∧ ¬ reply.reached := by
  rw [deleteKey, hangsOn_iff, hangsOn_iff]
  cases reply.reached <;> simp [LeaseStore.delete]

theorem hangsOn_revokeLease (reply : EtcdReply) :
    (r.revokeLease (some lease) reply).HangsOn key l
      ↔ r.HangsOn key l ∧ (reply.reached → l ≠ lease) := by
  rw [revokeLease, hangsOn_iff, hangsOn_iff]
  cases reply.reached <;> simp [LeaseStore.revoke, LeaseStore.lookup_release_eq_some]

/-- **What keeps a key in etcd**: there is no client, or neither the deletion nor the revocation of
its lease gets through. -/
theorem hangsOn_deregister (hkey : r.registeredKey = some key) (hlease : r.leaseId = some lease) :
    (r.deregister connect delete revoke).2.HangsOn key l
      ↔ r.HangsOn key l
        ∧ (r.Connects connect → ¬ delete.reached ∧ (revoke.reached → l ≠ lease)) := by
  by_cases hconnects : r.Connects connect
  · rw [deregister_of_connects hconnects, hkey, hlease, hangsOn_revokeLease, hangsOn_deleteKey,
      imp_iff_right hconnects, and_assoc]
    rfl
  · rw [deregister_of_not_connects hconnects]
    exact ⟨fun h => ⟨h, fun hyes => absurd hyes hconnects⟩, fun h => h.1⟩

/-- **A deregistration all of whose requests succeed removes what its slots hold.** -/
theorem deregister_removes (hkey : r.registeredKey = some key) (hlease : r.leaseId = some lease) :
    ¬ (r.deregister (.ok ()) .ok .ok).2.HangsOn key l :=
  fun h => (((hangsOn_deregister hkey hlease).mp h).2 (.inr rfl)).1 rfl

/-- **A failed deregistration can be retried, exactly** where there is nothing to retry: the key was
not in etcd, or there is a client, and the deletion gets through, or the revocation of the lease the
key is under. -/
theorem retriable_iff (hkey : r.registeredKey = some key) (hlease : r.leaseId = some lease) :
    Retriable key lease (r.deregister connect delete revoke)
      ↔ (∀ l, ¬ r.HangsOn key l)
        ∨ r.Connects connect ∧ (delete.reached ∨ revoke.reached ∧ r.HangsOn key lease) := by
  have hgone : Retriable key lease (r.deregister connect delete revoke)
      ↔ ∀ l, ¬ (r.deregister connect delete revoke).2.HangsOn key l := by
    rw [Retriable, deregister_frame.1, deregister_frame.2]
    simp
  rw [hgone]
  simp only [hangsOn_deregister hkey hlease]
  constructor
  · intro h
    by_cases hheld : ∃ l, r.HangsOn key l
    · obtain ⟨l, hl⟩ := hheld
      have hrelease := not_and.mp (h l) hl
      obtain ⟨hconnects, hreached⟩ := Classical.not_imp.mp hrelease
      refine .inr ⟨hconnects, or_iff_not_imp_left.mpr fun hdelete => ?_⟩
      obtain ⟨hrevoke, heq⟩ := Classical.not_imp.mp (not_and.mp hreached hdelete)
      exact ⟨hrevoke, not_not.mp heq ▸ hl⟩
    · exact .inl (not_exists.mp hheld)
  · rintro (hnone | ⟨hconnects, hdelete | ⟨hrevoke, hlast⟩⟩) l ⟨hl, hkept⟩
    · exact hnone l hl
    · exact (hkept hconnects).1 hdelete
    · have heq : some l = some lease := hl.symm.trans hlast
      exact (hkept hconnects).2 hrevoke (Option.some.inj heq)

/-! ## A registration that outlives its deregistration -/

def orderInstance : ServiceInstance := .simple "order-svc" "127.0.0.1" 8080

/-- An instance is registered, its task loses the connection, and is then cancelled by a
`deregister` that had run before the slots were filled. -/
def registeredIdle : List EtcdLabel :=
  [.call 0 (.register orderInstance), .call 0 .cancel, .call 0 .arm, .task 0 .check,
    .task 0 (.connected true), .call 1 .deregister, .call 1 .cancel, .call 1 .takeKey,
    .call 1 .takeLease, .call 1 (.connected true), .task 0 (.granted 7 true), .task 0 (.put true),
    .task 0 .storeKey, .task 0 .storeLease, .task 0 .failed, .task 0 .invalidated,
    .task 0 .cancelled]

def orderKey : String := "/pecs/dev/order-svc/order-svc-127.0.0.1-8080"

def refused : RegistryResult Unit := .error (.connection "refused")

theorem retriable_iff_registeredIdle :
    ∃ r, run step (new .default id .empty) registeredIdle = some r
    ∧ (Retriable orderKey 7 (r.deregister refused .ok .ok)
      ↔ (∀ l, ¬ r.HangsOn orderKey l)
        ∨ r.Connects refused
          ∧ (EtcdReply.ok.reached ∨ EtcdReply.ok.reached ∧ r.HangsOn orderKey 7)) :=
  ⟨_, rfl, retriable_iff rfl rfl⟩

/-- **A deregistration that cannot be retried**: etcd cannot be reached, the slots are emptied, and
the caller is told that all went well. -/
theorem failure_forgotten : ¬ ∀ (w : List EtcdLabel) (r : EtcdRegistry) (key : String) (lease : ℕ)
    (connect : RegistryResult Unit) (delete revoke : EtcdReply),
    run step (new .default id .empty) w = some r →
    (∀ k t, r.tasks k = some t → t.state = .stopped) →
    r.registeredKey = some key → r.leaseId = some lease →
    Retriable key lease (r.deregister connect delete revoke) := by
  intro h
  have hretriable := h registeredIdle _ orderKey 7 refused .ok .ok rfl
    (fun k t ht => by
      rcases k with - | k
      · exact Option.some.inj ht ▸ rfl
      · cases ht)
    (by decide +kernel) rfl
  rcases hretriable ⟨7, by decide +kernel⟩ with ⟨err, herr⟩ | ⟨hkey, -⟩
  · cases herr
  · cases hkey

end EtcdRegistry

end PecsRegistry
