import PecsRegistry.Provider.Etcd.System

/-!
# Provider/Etcd/Rounds — the round of a heartbeat task, and who calls

A round of the task goes from its cancellation check through the put and the two stores into the
keep-alive loop: how far it has come, and which calls it runs beside.
-/

namespace PecsRegistry

/-! ## How far a round has come -/

namespace HeartbeatState

/-- Past the cancellation check, with the put still to come. -/
def MayPut : HeartbeatState → Prop
  | .connecting | .granting | .putting _ => True
  | _ => False

/-- The lease of a put whose stores are still to come. -/
def storing : HeartbeatState → Option ℕ
  | .storingKey lease | .storingLease lease => some lease
  | _ => none

/-- Past the cancellation check, with the store of the lease still to come. -/
def Registering (s : HeartbeatState) : Prop := s.MayPut ∨ s.storing ≠ none

instance : DecidablePred MayPut := fun s => by
  cases s <;> simp only [MayPut] <;> infer_instance

instance : DecidablePred Registering := fun _ => inferInstanceAs (Decidable (_ ∨ _))

/-- The lease a task holds. -/
def lease : HeartbeatState → Option ℕ
  | .putting lease | .storingKey lease | .storingLease lease | .establishing lease
  | .beating lease _ => some lease
  | _ => none

/-- The lease under which a task has put its key in this round. -/
def written : HeartbeatState → Option ℕ
  | .storingKey lease | .storingLease lease | .establishing lease | .beating lease _ => some lease
  | _ => none

/-- A task has stored its key in this round. -/
def KeyStored : HeartbeatState → Prop
  | .storingLease _ | .establishing _ | .beating _ _ => True
  | _ => False

/-- The lease a task has stored in this round. -/
def leaseStored : HeartbeatState → Option ℕ
  | .establishing lease | .beating lease _ => some lease
  | _ => none

theorem lease_of_written {s : HeartbeatState} {id : ℕ} (h : s.written = some id) :
    s.lease = some id := by
  cases s <;> simp_all [written, lease]

theorem lease_of_leaseStored {s : HeartbeatState} {id : ℕ} (h : s.leaseStored = some id) :
    s.lease = some id := by
  cases s <;> simp_all [leaseStored, lease]

instance : DecidablePred KeyStored := fun s => by
  cases s <;> simp only [KeyStored] <;> infer_instance

end HeartbeatState

/-! ## Who calls -/

/-- A call to etcd that the step awaits succeeds. -/
def EtcdLabel.succeeds : EtcdLabel → Bool
  | .call _ (.connected ok) | .task _ (.connected ok) | .task _ (.granted _ ok)
  | .task _ (.put ok) => ok
  | .call _ (.deleted reached) | .call _ (.revoked reached) => reached
  | .task _ .failed => false
  | _ => true

/-- Call 0 registers `inst`, call 1 deregisters, and nobody else calls. -/
def EtcdLabel.OneEach (inst : ServiceInstance) : EtcdLabel → Prop
  | .call 0 (.register i) => i = inst
  | .call 1 .deregister => True
  | .call _ (.register _) | .call _ .deregister => False
  | _ => True

instance (inst : ServiceInstance) : DecidablePred (EtcdLabel.OneEach inst) := fun l => by
  unfold EtcdLabel.OneEach
  split <;> infer_instance

namespace EtcdRegistry

/-- `register(a)` is call 0; `register(b)` is call 1, and begins once call 0 has returned. -/
def Sequential (r : EtcdRegistry) (a b : ServiceInstance) : EtcdLabel → Prop
  | .call 0 (.register inst) => inst = a
  | .call 1 (.register inst) => inst = b ∧ r.calls 0 = .finished
  | .call _ (.register _) | .call _ .deregister => False
  | _ => True

instance (r : EtcdRegistry) (a b : ServiceInstance) : DecidablePred (r.Sequential a b) :=
  fun l => by
    unfold Sequential
    split <;> infer_instance

end EtcdRegistry

end PecsRegistry
