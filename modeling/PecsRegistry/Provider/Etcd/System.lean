import Mathlib.Tactic.Simps.Basic
import PecsRegistry.Machinery.LeaseStore
import PecsRegistry.Machinery.Transition
import PecsRegistry.Provider.Etcd.Config

/-!
# Provider/Etcd/System — an etcd registry, its heartbeat tasks and etcd

`EtcdRegistry` is the handle that all clones share (the client cache, the slots `registered_key`,
`lease_id` and `cancel_token`), the calls of `register` and `deregister` on it, the tasks that
`register` spawns, and the etcd behind it.  `step` moves one of them from one await point to the
next:

* each slot has a mutex of its own, held for one access: an access is a step;
* a call to etcd takes effect in one step; the client mutex, held while a client connects, only
  delays, and is left out;
* a keep-alive is a request and a reply in flight (`KeepAliveStream`), answered when etcd gets to
  it;
* a call may fail, before or after it has reached etcd.

The task a `register` spawns, and its cancellation token, go by the number of the call.
-/

namespace PecsRegistry

/-- The cluster, as far as this registry uses it: a key holds the JSON text of an instance, which
goes by the instance it reads back as. -/
abbrev Etcd := LeaseStore String ServiceInstance

/-! ## State -/

/-- Where a call of the registry stands. -/
inductive EtcdCall
  | idle
  | replacing (inst : ServiceInstance)
  | arming (inst : ServiceInstance)
  | cancelling
  | takingKey
  | takingLease (key : Option String)
  | connecting (key : Option String) (lease : Option ℕ)
  | deleting (key : String) (lease : Option ℕ)
  | revoking (lease : ℕ)
  | finished
deriving DecidableEq

/-- The keep-alives of a lease: the requests etcd has yet to answer, the replies under way, by the
time to live they carry, and the replies the task has read. -/
structure KeepAliveStream where
  requests : ℕ
  replies : List ℕ
  consumed : List ℕ
deriving DecidableEq

/-- Where a heartbeat task stands.  `granting` to `storingLease` is `do_register_once`. -/
inductive HeartbeatState
  | checking
  | connecting
  | granting
  | putting (lease : ℕ)
  | storingKey (lease : ℕ)
  | storingLease (lease : ℕ)
  | establishing (lease : ℕ)
  | beating (lease : ℕ) (stream : KeepAliveStream)
  | invalidating
  | backingOff
  | stopped
deriving DecidableEq

/-- The task a `register` spawns. -/
structure Heartbeat where
  inst : ServiceInstance
  state : HeartbeatState
deriving DecidableEq

/-- A registry.  The JSON text of an instance reads back as `reread` of it: the weight may come back
as a neighbouring double. -/
structure EtcdRegistry where
  config : RegistryConfig
  reread : ServiceInstance → ServiceInstance
  client : Bool
  registeredKey : Option String
  leaseId : Option ℕ
  cancelToken : Option ℕ
  cancelled : Finset ℕ
  calls : ℕ → EtcdCall
  tasks : ℕ → Option Heartbeat
  etcd : Etcd

namespace EtcdRegistry

/-- A new registry, over whatever etcd holds. -/
def new (config : RegistryConfig) (reread : ServiceInstance → ServiceInstance) (etcd : Etcd) :
    EtcdRegistry where
  config := config
  reread := reread
  client := false
  registeredKey := none
  leaseId := none
  cancelToken := none
  cancelled := ∅
  calls := fun _ => .idle
  tasks := fun _ => none
  etcd := etcd

@[simps]
def setCall (r : EtcdRegistry) (i : ℕ) (c : EtcdCall) : EtcdRegistry :=
  { r with calls := Function.update r.calls i c }

@[simps]
def setTask (r : EtcdRegistry) (k : ℕ) (t : Heartbeat) : EtcdRegistry :=
  { r with tasks := Function.update r.tasks k (some t) }

theorem eq_of_setTask {r : EtcdRegistry} {k : ℕ} {t t' : Heartbeat}
    (h : (r.setTask k t).tasks k = some t') : t = t' := by
  rw [setTask_tasks, Function.update_self] at h
  exact Option.some.inj h

/-- The token on file is taken and cancelled. -/
@[simps]
def cancelTask (r : EtcdRegistry) : EtcdRegistry :=
  { r with
    cancelToken := none
    cancelled := r.cancelled ∪ r.cancelToken.toFinset }

/-- The token of call `i` is filed, and its task spawned. -/
@[simps]
def spawn (r : EtcdRegistry) (i : ℕ) (inst : ServiceInstance) : EtcdRegistry :=
  { r.setTask i ⟨inst, .checking⟩ with cancelToken := some i }

/-- Only etcd changes. -/
@[simps]
def withEtcd (r : EtcdRegistry) (etcd : Etcd) : EtcdRegistry := { r with etcd := etcd }

end EtcdRegistry

/-! ## Labels -/

/-- What a call does next; `ok` says that it succeeded, `reached` that it reached etcd. -/
inductive EtcdCallLabel
  | register (inst : ServiceInstance)
  | deregister
  | cancel
  | arm
  | takeKey
  | takeLease
  | connected (ok : Bool)
  | deleted (reached : Bool)
  | revoked (reached : Bool)
deriving DecidableEq

/-- What a task does next.  `renewed` reads a reply off the keep-alive stream; at `broken` the
stream has ended or failed, or a heartbeat could not be sent. -/
inductive HeartbeatLabel
  | check
  | connected (ok : Bool)
  | granted (lease : ℕ) (ok : Bool)
  | put (ok : Bool)
  | failed
  | storeKey
  | storeLease
  | established
  | beat
  | renewed
  | broken
  | invalidated
  | cancelled
  | slept
deriving DecidableEq

/-- One step: a call or a task moves, etcd answers the oldest keep-alive of a task, or a lease runs
out. -/
inductive EtcdLabel
  | call (i : ℕ) (l : EtcdCallLabel)
  | task (k : ℕ) (l : HeartbeatLabel)
  | answer (k : ℕ)
  | expire (lease : ℕ)
deriving DecidableEq

/-! ## Steps -/

namespace EtcdRegistry

/-- Where `deregister` goes once it has a client, and once the key is deleted. -/
def releasing : Option ℕ → EtcdCall
  | some lease => .revoking lease
  | none => .finished

/-- A step of `register` or `deregister`. -/
def callStep (r : EtcdRegistry) (i : ℕ) : EtcdCall → EtcdCallLabel → Option EtcdRegistry
  | .idle, .register inst =>
      some (r.setCall i (if r.config.active then .replacing inst else .finished))
  | .replacing inst, .cancel => some (r.cancelTask.setCall i (.arming inst))
  | .arming inst, .arm => some ((r.spawn i inst).setCall i .finished)
  | .idle, .deregister => some (r.setCall i .cancelling)
  | .cancelling, .cancel => some (r.cancelTask.setCall i .takingKey)
  | .takingKey, .takeKey =>
      some ({ r with registeredKey := none }.setCall i (.takingLease r.registeredKey))
  | .takingLease key, .takeLease =>
      some ({ r with leaseId := none }.setCall i (.connecting key r.leaseId))
  | .connecting (some key) lease, .connected true =>
      some ({ r with client := true }.setCall i (.deleting key lease))
  | .connecting none lease, .connected true =>
      some ({ r with client := true }.setCall i (releasing lease))
  | .connecting _ _, .connected false => if r.client then none else some (r.setCall i .finished)
  | .deleting key lease, .deleted reached =>
      some ((r.withEtcd (if reached then r.etcd.delete key else r.etcd)).setCall i
        (releasing lease))
  | .revoking lease, .revoked reached =>
      some ((r.withEtcd (if reached then r.etcd.revoke lease else r.etcd)).setCall i .finished)
  | _, _ => none

/-- A step of the task that `register` spawns. -/
def taskStep (r : EtcdRegistry) (k : ℕ) (t : Heartbeat) :
    HeartbeatState → HeartbeatLabel → Option EtcdRegistry
  | .checking, .check =>
      some (r.setTask k { t with state := if k ∈ r.cancelled then .stopped else .connecting })
  | .connecting, .connected true =>
      some ({ r with client := true }.setTask k { t with state := .granting })
  | .connecting, .connected false =>
      if r.client then none else some (r.setTask k { t with state := .invalidating })
  | .granting, .granted lease ok =>
      if fresh : r.etcd.state lease = none then
        some ((r.withEtcd (r.etcd.grant lease r.config.leaseTtl fresh)).setTask k
          { t with state := if ok then .putting lease else .invalidating })
      else none
  | .putting lease, .put ok =>
      if live : r.etcd.state lease = some .live then
        some ((r.withEtcd
          (r.etcd.put (r.config.keyOf t.inst) (r.reread t.inst) lease live)).setTask k
          { t with state := if ok then .storingKey lease else .invalidating })
      else none
  | .storingKey lease, .storeKey =>
      some ({ r with registeredKey := some (r.config.keyOf t.inst) }.setTask k
        { t with state := .storingLease lease })
  | .storingLease lease, .storeLease =>
      some ({ r with leaseId := some lease }.setTask k { t with state := .establishing lease })
  -- the client awaits a first reply, and fails on a lease that is gone
  | .establishing lease, .established =>
      if r.etcd.state lease = some .live then
        some (r.setTask k { t with state := .beating lease ⟨0, [], []⟩ })
      else none
  | .granting, .failed | .putting _, .failed | .establishing _, .failed =>
      some (r.setTask k { t with state := .invalidating })
  | .beating _ _, .cancelled =>
      if k ∈ r.cancelled then some (r.setTask k { t with state := .stopped }) else none
  | .beating lease stream, .beat =>
      some (r.setTask k
        { t with state := .beating lease { stream with requests := stream.requests + 1 } })
  -- `Ok(Some(_))`: the reply is not looked at
  | .beating lease ⟨requests, ttl :: replies, consumed⟩, .renewed =>
      some (r.setTask k
        { t with state := .beating lease ⟨requests, replies, consumed ++ [ttl]⟩ })
  | .beating _ _, .broken => some (r.setTask k { t with state := .invalidating })
  | .invalidating, .invalidated =>
      some ({ r with client := false }.setTask k { t with state := .backingOff })
  | .backingOff, .cancelled =>
      if k ∈ r.cancelled then some (r.setTask k { t with state := .stopped }) else none
  | .backingOff, .slept => some (r.setTask k { t with state := .checking })
  | _, _ => none

/-- Etcd answers the oldest keep-alive of a task. -/
def answerStep (r : EtcdRegistry) (k : ℕ) (t : Heartbeat) : Option EtcdRegistry :=
  match t.state with
  | .beating lease ⟨requests + 1, replies, consumed⟩ =>
      let replies := replies ++ [r.etcd.keepAlive lease]
      some (r.setTask k { t with state := .beating lease ⟨requests, replies, consumed⟩ })
  | _ => none

/-- One step of the registry and of etcd. -/
def step (r : EtcdRegistry) : EtcdLabel → Option EtcdRegistry
  | .call i l => r.callStep i (r.calls i) l
  | .task k l => (r.tasks k).bind fun t => r.taskStep k t t.state l
  | .answer k => (r.tasks k).bind fun t => r.answerStep k t
  | .expire lease => some (r.withEtcd (r.etcd.expire lease))

end EtcdRegistry

end PecsRegistry
