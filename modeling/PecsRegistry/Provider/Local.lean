import PecsRegistry.Directory.System

/-!
# Provider/Local — the in-memory registry

`LocalRegistry` files every instance under its name and id and broadcasts each change, under the
same write lock, to all receivers.  A receiver belongs to one watch stream: it keeps at most
`channelCapacity` messages, skips the oldest when it falls behind, and its stream passes on only
what concerns its service.

An instance is filed under its own name and id, which `InstanceStore` carries as a field.
-/

namespace PecsRegistry

open Writes

/-! ## The store -/

/-- The instances of a service, by id; none if the service is not filed. -/
def svcMap (map : HashMap String (HashMap String ServiceInstance)) (name : String) :
    HashMap String ServiceInstance := (map.lookup name).getD ∅

/-- Instances by service name and id, each filed under its own. -/
structure InstanceStore where
  map : HashMap String (HashMap String ServiceInstance)
  keyed : ∀ name id inst, (svcMap map name).lookup id = some inst →
    inst.name = name ∧ inst.serviceId = id

namespace InstanceStore

/-- The store read as one map for each service. -/
def view (st : InstanceStore) (name id : String) : Option ServiceInstance :=
  (svcMap st.map name).lookup id

theorem svcMap_insert (map : HashMap String (HashMap String ServiceInstance)) (name name' : String)
    (m : HashMap String ServiceInstance) :
    svcMap (map.insert name m) name' = if name' = name then m else svcMap map name' := by
  rw [svcMap, HashMap.lookup_insert]
  split_ifs <;> rfl

def empty : InstanceStore := ⟨∅, fun _ _ _ h => by simp [svcMap] at h⟩

/-- `entry(name).or_insert_with(HashMap::new)`, then `insert(service_id, instance)`. -/
def insert (st : InstanceStore) (inst : ServiceInstance) : InstanceStore where
  map := st.map.insert inst.name ((svcMap st.map inst.name).insert inst.serviceId inst)
  keyed name id i h := by
    rw [svcMap_insert] at h
    split_ifs at h with hname
    · rw [HashMap.lookup_insert] at h
      split_ifs at h with hid
      · obtain rfl := Option.some.inj h
        exact ⟨hname.symm, hid.symm⟩
      · exact hname ▸ st.keyed inst.name id i h
    · exact st.keyed name id i h

/-- `get_mut(name)`, then `remove(service_id)`; a service that is not filed stays so. -/
def remove (st : InstanceStore) (name id : String) : InstanceStore where
  map := if name ∈ st.map then st.map.insert name ((svcMap st.map name).erase id) else st.map
  keyed name' id' i h := by
    split_ifs at h
    · rw [svcMap_insert] at h
      split_ifs at h with hname
      · exact hname ▸ st.keyed name id' i (HashMap.lookup_of_lookup_erase h)
      · exact st.keyed name' id' i h
    · exact st.keyed name' id' i h

theorem view_insert (st : InstanceStore) (inst : ServiceInstance) (name : String) :
    (st.insert inst).view name = if inst.name = name
      then (Write.put inst.serviceId inst).apply (st.view name) else st.view name := by
  funext id
  rw [view, insert, svcMap_insert]
  rcases eq_or_ne inst.name name with rfl | hname
  · rw [if_pos rfl, if_pos rfl, Write.apply_put, HashMap.lookup_insert, Function.update_apply]
    rfl
  · rw [if_neg hname.symm, if_neg hname]
    rfl

theorem view_remove (st : InstanceStore) (svc id name : String) :
    (st.remove svc id).view name = if svc = name
      then (Write.drop id).apply (st.view name) else st.view name := by
  funext id'
  rw [view, remove]
  by_cases hfiled : svc ∈ st.map
  · simp only [hfiled, if_true, svcMap_insert]
    rcases eq_or_ne svc name with rfl | hname
    · rw [if_pos rfl, if_pos rfl, Write.apply_drop, HashMap.lookup_erase, Function.update_apply]
      rfl
    · rw [if_neg hname.symm, if_neg hname]
      rfl
  · simp only [hfiled, if_false]
    split_ifs with hname
    · have hempty : svcMap st.map svc = ∅ := by
        rw [svcMap, Finmap.lookup_eq_none.mpr hfiled, Option.getD_none]
      rw [Write.apply_drop, ← hname, Function.update_apply]
      simp [view, hempty]
    · rfl

/-- A traversal of a service's map lists exactly what the store shows. -/
theorem byId_of_values {st : InstanceStore} {name : String} {list : List ServiceInstance}
    (h : (svcMap st.map name).Values list) : byId list = st.view name := by
  funext id
  have hmem : ∀ i, i ∈ list → (svcMap st.map name).lookup i.serviceId = some i := by
    intro i hi
    obtain ⟨id', hid'⟩ := h.mem.mp hi
    rw [(st.keyed name id' i hid').2]
    exact hid'
  rw [byId, view]
  rcases hfind : list.find? (fun i => i.serviceId = id) with - | i
  · rw [hfind, eq_comm, Option.eq_none_iff_forall_ne_some]
    intro i hi
    have hno := List.find?_eq_none.mp hfind i (h.mem.mpr ⟨id, hi⟩)
    exact hno (by simpa using (st.keyed name id i hi).2)
  · have hid : i.serviceId = id := by simpa using List.find?_some hfind
    rw [hfind, ← hid]
    exact (hmem i (List.mem_of_find?_eq_some hfind)).symm

/-- …and every instance once, under its own name. -/
theorem distinct_of_values {st : InstanceStore} {name : String} {list : List ServiceInstance}
    (h : (svcMap st.map name).Values list) :
    (∀ inst ∈ list, inst.name = name) ∧ Distinct list := by
  constructor
  · intro inst hinst
    obtain ⟨id, hid⟩ := h.mem.mp hinst
    exact (st.keyed name id inst hid).1
  · have hids : (list.map (·.serviceId) : Multiset String) = (svcMap st.map name).entries.keys := by
      rw [← Multiset.map_coe, h, HashMap.values, Multiset.map_map]
      refine Multiset.map_congr rfl fun e he => ?_
      exact (st.keyed name e.1 e.2 (Finmap.mem_lookup_iff.mpr he)).2
    rw [Distinct, ← Multiset.coe_nodup, hids, Multiset.nodup_keys]
    exact (svcMap st.map name).nodupKeys

end InstanceStore

/-! ## Receivers -/

def channelCapacity : ℕ := 128

/-- The `filter_map` of a watch stream: what it passes on. -/
def ServiceEvent.concerns (svcName : String) : ServiceEvent → Bool
  | .upsert inst => inst.name = svcName
  | .delete serviceName _ => serviceName = svcName
  | .reset list => list.head?.map (·.name) = some svcName

/-- Storing an instance is the write its event stands for, in the map of its service only. -/
theorem InstanceStore.view_upsert (st : InstanceStore) (inst : ServiceInstance) (name : String) :
    (st.insert inst).view name = replay (if (ServiceEvent.upsert inst).concerns name
      then [(ServiceEvent.upsert inst).write] else []) (st.view name) := by
  rw [view_insert]
  by_cases h : inst.name = name <;> simp [ServiceEvent.concerns, ServiceEvent.write, h]

theorem InstanceStore.view_delete (st : InstanceStore) (svc id name : String) :
    (st.remove svc id).view name = replay (if (ServiceEvent.delete svc id).concerns name
      then [(ServiceEvent.delete svc id).write] else []) (st.view name) := by
  rw [view_remove]
  by_cases h : svc = name <;> simp [ServiceEvent.concerns, ServiceEvent.write, h]

/-- One receiver of the broadcast, and the stream over it: the unread messages, and how many were
skipped since the last read. -/
structure Receiver where
  service : String
  queue : List ServiceEvent
  missed : ℕ
deriving DecidableEq

namespace Receiver

def send (event : ServiceEvent) (rx : Receiver) : Receiver :=
  if rx.queue.length < channelCapacity then { rx with queue := rx.queue ++ [event] }
  else { rx with queue := rx.queue.tail ++ [event], missed := rx.missed + 1 }

/-- What the stream has yet to deliver. -/
def pending (rx : Receiver) : List ServiceEvent := rx.queue.filter (·.concerns rx.service)

/-- The writes the stream has yet to deliver. -/
def backlog (rx : Receiver) : List (Write String ServiceInstance) :=
  rx.pending.map ServiceEvent.write

theorem send_of_missed_eq_zero {rx : Receiver} {event : ServiceEvent}
    (h : (rx.send event).missed = 0) :
    rx.send event = { rx with queue := rx.queue ++ [event] } := by
  rw [send] at h ⊢
  split_ifs at h ⊢
  · rfl

theorem backlog_send {rx : Receiver} {event : ServiceEvent} (h : (rx.send event).missed = 0) :
    (rx.send event).backlog
      = rx.backlog ++ if event.concerns rx.service then [event.write] else [] := by
  rw [send_of_missed_eq_zero h, backlog, backlog, pending, pending, List.filter_append,
    List.map_append]
  cases hc : event.concerns rx.service <;> simp [hc]

end Receiver

/-! ## The registry -/

/-- The registry; a stream is the position of its receiver. -/
structure LocalRegistry where
  store : InstanceStore
  receivers : List Receiver

/-- What others do to the registry, and a stream's own polling: `skip` reads a message that the
stream does not pass on. -/
inductive LocalOp
  | addInstance (inst : ServiceInstance)
  | removeInstance (serviceName serviceId : String)
  | clear
  | skip (stream : ℕ)

namespace LocalRegistry

def new : LocalRegistry := ⟨.empty, []⟩

/-- The instances of a service, by id. -/
def view (reg : LocalRegistry) (name : String) : String → Option ServiceInstance :=
  reg.store.view name

def addInstance (reg : LocalRegistry) (inst : ServiceInstance) : LocalRegistry where
  store := reg.store.insert inst
  receivers := reg.receivers.map (Receiver.send (.upsert inst))

def removeInstance (reg : LocalRegistry) (serviceName serviceId : String) : LocalRegistry where
  store := reg.store.remove serviceName serviceId
  receivers := reg.receivers.map (Receiver.send (.delete serviceName serviceId))

def clear (reg : LocalRegistry) : LocalRegistry := { reg with store := .empty }

/-- A stream reads the next message of its receiver; a lag is reported first. -/
def poll (reg : LocalRegistry) (stream : ℕ) : Option (Option ServiceEvent × LocalRegistry) :=
  match reg.receivers[stream]? with
  | some ⟨svcName, event :: queue, 0⟩ =>
      some (if event.concerns svcName then some event else none,
        { reg with receivers := reg.receivers.set stream ⟨svcName, queue, 0⟩ })
  | some ⟨svcName, queue, _ + 1⟩ =>
      some (none, { reg with receivers := reg.receivers.set stream ⟨svcName, queue, 0⟩ })
  | _ => none

def act (reg : LocalRegistry) : LocalOp → Option LocalRegistry
  | .addInstance inst => some (reg.addInstance inst)
  | .removeInstance serviceName serviceId => some (reg.removeInstance serviceName serviceId)
  | .clear => some reg.clear
  | .skip stream =>
      match reg.poll stream with
      | some (none, reg') => some reg'
      | _ => none

/-- The answers of `list_instances`, `watch` and of a stream, which never ends while the registry
holds the sender. -/
def answer (reg : LocalRegistry) : Query → Option LocalRegistry
  | .list name (.ok list) => if (svcMap reg.store.map name).Values list then some reg else none
  | .watch name (.ok stream) =>
      if stream = reg.receivers.length then
        some { reg with receivers := reg.receivers ++ [⟨name, [], 0⟩] }
      else none
  | .next stream (some event) =>
      match reg.poll stream with
      | some (some event', reg') => if event' = event then some reg' else none
      | _ => none
  | _ => none

def provider : Provider LocalRegistry LocalOp := ⟨act, answer⟩

/-- The receiver of the stream has skipped nothing. -/
def InStep (r : ℕ) (reg : LocalRegistry) : Prop := ∀ rx ∈ reg.receivers[r]?, rx.missed = 0

instance (r : ℕ) (reg : LocalRegistry) : Decidable (reg.InStep r) :=
  inferInstanceAs (Decidable (∀ rx ∈ reg.receivers[r]?, rx.missed = 0))

/-! ## What an update and a delivery do -/

variable {reg reg' : LocalRegistry} {stream : ℕ}

/-- A stream that yields an event yields its oldest message. -/
theorem poll_some {event : ServiceEvent} (h : reg.poll stream = some (some event, reg')) :
    ∃ svcName queue, reg.receivers[stream]? = some ⟨svcName, event :: queue, 0⟩
      ∧ event.concerns svcName ∧ reg' = { reg with
        receivers := reg.receivers.set stream ⟨svcName, queue, 0⟩ } := by
  rw [poll] at h
  split at h
  case h_1 svcName head queue hrx =>
    obtain ⟨hhead, rfl⟩ := Prod.mk.inj (Option.some.inj h)
    split_ifs at hhead with hc
    obtain rfl := Option.some.inj hhead
    exact ⟨svcName, queue, hrx, hc, rfl⟩
  case h_2 => simp at h
  case h_3 => simp at h

/-- A stream in step reads its oldest message; one that lags only learns that it does. -/
theorem poll_inStep {svcName : String} {event : ServiceEvent} {queue : List ServiceEvent}
    (hrx : reg.receivers[stream]? = some ⟨svcName, event :: queue, 0⟩) :
    reg.poll stream = some (if event.concerns svcName then some event else none,
      { reg with receivers := reg.receivers.set stream ⟨svcName, queue, 0⟩ }) := by
  rw [poll, hrx]

theorem poll_lagging {svcName : String} {queue : List ServiceEvent} {m : ℕ}
    (hrx : reg.receivers[stream]? = some ⟨svcName, queue, m + 1⟩) :
    reg.poll stream
      = some (none, { reg with receivers := reg.receivers.set stream ⟨svcName, queue, 0⟩ }) := by
  rw [poll, hrx]
  cases queue <;> rfl

/-- A poll takes messages off the receiver, and nothing else. -/
theorem poll_frame {out : Option ServiceEvent} (h : reg.poll stream = some (out, reg')) :
    ∃ rx rx', reg.receivers[stream]? = some rx ∧ rx'.queue <:+ rx.queue
      ∧ rx'.service = rx.service ∧ reg' = { reg with
        receivers := reg.receivers.set stream rx' } := by
  rw [poll] at h
  split at h
  case h_1 svcName head queue hrx =>
    obtain ⟨-, rfl⟩ := Prod.mk.inj (Option.some.inj h)
    exact ⟨_, ⟨svcName, queue, 0⟩, hrx, List.suffix_cons head queue, rfl, rfl⟩
  case h_2 svcName queue m hrx =>
    obtain ⟨-, rfl⟩ := Prod.mk.inj (Option.some.inj h)
    exact ⟨_, ⟨svcName, queue, 0⟩, hrx, List.suffix_rfl, rfl, rfl⟩
  case h_3 => simp at h

/-- A stream that passes nothing on keeps its backlog. -/
theorem poll_none (h : reg.poll stream = some (none, reg')) :
    ∃ rx rx', reg.receivers[stream]? = some rx ∧ rx'.backlog = rx.backlog
      ∧ rx'.service = rx.service ∧ rx'.missed = 0 ∧ reg' = { reg with
        receivers := reg.receivers.set stream rx' } := by
  rw [poll] at h
  split at h
  case h_1 svcName head queue hrx =>
    obtain ⟨hhead, rfl⟩ := Prod.mk.inj (Option.some.inj h)
    split_ifs at hhead with hc
    exact ⟨_, ⟨svcName, queue, 0⟩, hrx, by simp [Receiver.backlog, Receiver.pending, hc], rfl, rfl,
      rfl⟩
  case h_2 svcName queue m hrx =>
    obtain ⟨-, rfl⟩ := Prod.mk.inj (Option.some.inj h)
    exact ⟨_, ⟨svcName, queue, 0⟩, hrx, rfl, rfl, rfl, rfl⟩
  case h_3 => simp at h

theorem answer_next {event : ServiceEvent}
    (h : reg.answer (.next stream (some event)) = some reg') :
    reg.poll stream = some (some event, reg') := by
  rw [answer] at h
  split at h
  case h_1 event' reg'' hpoll =>
    split_ifs at h with he
    obtain rfl := Option.some.inj h
    exact he ▸ hpoll
  case h_2 => simp at h

theorem act_skip (h : reg.act (.skip stream) = some reg') :
    reg.poll stream = some (none, reg') := by
  rw [act] at h
  split at h
  case h_1 reg'' hpoll => exact hpoll.trans (congrArg _ (congrArg _ (Option.some.inj h)))
  case h_2 => simp at h

end LocalRegistry

end PecsRegistry
