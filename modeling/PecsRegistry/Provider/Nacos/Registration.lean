import PecsRegistry.Machinery.Paths
import PecsRegistry.Provider.Nacos

/-!
# Provider/Nacos/Registration — what a registered instance is listed as

`register` sends Nacos a form with one address, and `list_instances` makes an instance out of each
address it gets back, under an id of its own and with an HTTP endpoint.  The form has no place for
the id, the scheme, a second endpoint or the metadata: `reads_back_iff` says which instances
survive.
-/

namespace PecsRegistry

/-! ## The provider -/

/-- The registry: its configuration, with the cluster that only the registration reads, and the
instance it has registered. -/
structure NacosRegistry where
  config : NacosConfig
  clusterName : String := "DEFAULT"
  registeredInstance : Option ServiceInstance := none

/-- The form of a registration.  Numbers travel as text, and are read back as they were. -/
structure RegisterForm where
  serviceName : String
  ip : String
  groupName : String
  namespaceId : String
  clusterName : String
  port : UInt16
  weight : ℚ

/-- A request of a registration. -/
structure RegisterRequest where
  url : String
  form : RegisterForm

namespace NacosRegistry

/-- The one address of an instance that Nacos is told. -/
def address (inst : ServiceInstance) : String × UInt16 :=
  match inst.http.or inst.grpc with
  | some ep => (ep.address, ep.port)
  | none => ("127.0.0.1", 8080)

def registerRequest (reg : NacosRegistry) (inst : ServiceInstance) : RegisterRequest where
  url := reg.config.serverUrl ++ "/nacos/v1/ns/instance"
  form :=
    { serviceName := inst.name
      ip := (address inst).1
      groupName := reg.config.registration.group
      namespaceId := reg.config.namespace
      clusterName := reg.clusterName
      port := (address inst).2
      weight := inst.weight }

/-- `register`: what becomes of the registry, and the request it sends. -/
def register (reg : NacosRegistry) (inst : ServiceInstance) :
    NacosRegistry × Option RegisterRequest :=
  if reg.config.active then
    ({ reg with registeredInstance := some inst }, some (reg.registerRequest inst))
  else (reg, none)

end NacosRegistry

/-! ## A faithful server -/

/-- What a server keeps of an instance. -/
structure NacosRecord where
  serviceName : String
  groupName : String
  namespaceId : String
  clusterName : String
  item : NacosInstanceItem
deriving DecidableEq

/-- What tells two records apart. -/
def NacosRecord.key (r : NacosRecord) : String × String × String × String × String × UInt16 :=
  (r.serviceName, r.groupName, r.namespaceId, r.clusterName, r.item.ip, r.item.port)

/-- The record of a form: enabled and healthy, and without metadata, of which the form has none. -/
def RegisterForm.record (form : RegisterForm) : NacosRecord where
  serviceName := form.serviceName
  groupName := form.groupName
  namespaceId := form.namespaceId
  clusterName := form.clusterName
  item := ⟨form.ip, form.port, form.weight, true, true, ∅⟩

/-- A server: its records, no two of them with one key. -/
structure NacosServer where
  records : List NacosRecord
  nodup : (records.map NacosRecord.key).Nodup

namespace NacosServer

/-- A form replaces the record of its key. -/
def store (server : NacosServer) (form : RegisterForm) : NacosServer where
  records := server.records.filter (fun r => r.key ≠ form.record.key) ++ [form.record]
  nodup := by
    rw [List.map_append, List.map_singleton]
    refine List.Nodup.append (server.nodup.sublist (List.filter_sublist.map _))
      (List.nodup_singleton _) ?_
    simp

/-- What comes of a request. -/
def post (server : NacosServer) : Option RegisterRequest → NacosServer
  | some request => server.store request.form
  | none => server

/-- The record is asked for: it is of the service, group and namespace of the query, and healthy. -/
def Asked (query : List (String × String)) (r : NacosRecord) : Prop :=
  query.lookup "serviceName" = some r.serviceName ∧ query.lookup "groupName" = some r.groupName
    ∧ query.lookup "namespaceId" = some r.namespaceId ∧ r.item.healthy

instance (query : List (String × String)) : DecidablePred (Asked query) :=
  fun _ => inferInstanceAs (Decidable (_ ∧ _))

def reply (server : NacosServer) (request : ListRequest) : ListReply :=
  .decoded ((server.records.filter fun r => Asked request.query r).map (·.item))

end NacosServer

namespace NacosRegistry

variable {reg : NacosRegistry} {server : NacosServer} {inst : ServiceInstance} {r : NacosRecord}
  {name ip ip' : String} {port port' : UInt16}

/-! ## What is listed -/

/-- The list has exactly one entry with the id of the instance, and it has the endpoints and the
metadata of the instance. -/
def ReadsBack (inst : ServiceInstance) (list : List ServiceInstance) : Prop :=
  ∃ e, list.filter (fun i => i.serviceId = inst.serviceId) = [e]
    ∧ e.http = inst.http ∧ e.grpc = inst.grpc ∧ e.metadata = inst.metadata

/-- The id a listing gives to an address. -/
def listedId (name ip : String) (port : UInt16) : String :=
  name ++ "-" ++ ip ++ ":" ++ toString port

/-- The registration is sent, the instance is as an instance made of its address, and the server has
no record of this address, for this service, in another cluster. -/
structure Fits (reg : NacosRegistry) (server : NacosServer) (inst : ServiceInstance) : Prop where
  active : reg.config.active = true
  serviceId : inst.serviceId = listedId inst.name (address inst).1 (address inst).2
  http : inst.http = some (.new (address inst).1 (address inst).2)
  grpc : inst.grpc = none
  metadata : inst.metadata = ∅
  alone : ∀ r ∈ server.records, NacosServer.Asked (reg.config.listRequest inst.name).query r →
    (r.item.ip, r.item.port) = address inst → r.clusterName = reg.clusterName

theorem listedId_inj :
    listedId name ip port = listedId name ip' port' ↔ ip = ip' ∧ port = port' := by
  have hcolon : ∀ port : UInt16, ':' ∉ (toString port).toList := fun port =>
    Paths.notMem_toString rfl port.toNat
  have hlist : ∀ ip port, (listedId name ip port).toList
      = (name ++ "-").toList ++ (ip.toList ++ ':' :: (toString port).toList) := by
    intro ip port
    simp [listedId]
  rw [← String.toList_inj, hlist, hlist, List.append_cancel_left_eq,
    Paths.append_cons_inj (hcolon port) (hcolon port'), String.toList_inj, String.toList_inj]
  exact and_congr_right fun _ => Paths.toString_inj.trans UInt16.toNat_inj

theorem instanceOf_serviceId (config : NacosConfig) (name : String) (h : NacosInstanceItem) :
    (config.instanceOf name h).serviceId = listedId name h.ip h.port := rfl

theorem asked_iff : NacosServer.Asked (reg.config.listRequest name).query r
    ↔ r.serviceName = name ∧ r.groupName = reg.config.registration.group
      ∧ r.namespaceId = reg.config.namespace ∧ r.item.healthy := by
  have hsome : ∀ {s t : String}, some s = some t ↔ t = s := by simp [eq_comm]
  exact and_congr hsome (and_congr hsome (and_congr hsome Iff.rfl))

/-- The records listed next to that of a registration. -/
def neighbours (reg : NacosRegistry) (server : NacosServer) (inst : ServiceInstance) :
    List NacosRecord :=
  server.records.filter fun r => NacosServer.Asked (reg.config.listRequest inst.name).query r
    ∧ r.key ≠ (reg.registerRequest inst).form.record.key

/-- The instance a registration is listed as. -/
def listedAs (reg : NacosRegistry) (inst : ServiceInstance) : ServiceInstance :=
  reg.config.instanceOf inst.name (reg.registerRequest inst).form.record.item

/-- **What is listed after a registration.** -/
theorem listed_of_register (hactive : reg.config.active = true) :
    reg.config.listInstances (server.post (reg.register inst).2).reply inst.name
      = .ok ((neighbours reg server inst).map (fun r => reg.config.instanceOf inst.name r.item)
          ++ [listedAs reg inst]) := by
  have hasked : NacosServer.Asked (reg.config.listRequest inst.name).query
      (reg.registerRequest inst).form.record := asked_iff.mpr ⟨rfl, rfl, rfl, rfl⟩
  rw [NacosConfig.listInstances, if_pos hactive, register, if_pos hactive]
  simp only [NacosServer.reply, NacosServer.post, NacosServer.store, List.filter_append,
    List.filter_filter, List.filter_singleton, hasked, decide_true, cond_true, List.map_append,
    List.map_map, List.map_singleton, neighbours, listedAs, Bool.decide_and]
  rfl

/-- A neighbour of the same address is in another cluster. -/
theorem mem_neighbours : r ∈ neighbours reg server inst
    ↔ r ∈ server.records ∧ NacosServer.Asked (reg.config.listRequest inst.name).query r
      ∧ ((r.item.ip, r.item.port) = address inst → r.clusterName ≠ reg.clusterName) := by
  rw [neighbours, List.mem_filter, decide_eq_true_eq]
  refine and_congr_right fun _ => and_congr_right fun hasked => ?_
  obtain ⟨hname, hgroup, hnamespace, -⟩ := asked_iff.mp hasked
  have hkey : r.key = (reg.registerRequest inst).form.record.key
      ↔ r.clusterName = reg.clusterName ∧ (r.item.ip, r.item.port) = address inst := by
    simp [NacosRecord.key, RegisterForm.record, registerRequest, hname, hgroup, hnamespace,
      Prod.ext_iff]
  rw [Ne, hkey, not_and']

/-- An entry with the endpoint of the instance has its address, and so its id, if any has. -/
theorem listedAs_serviceId {item : NacosInstanceItem}
    (hid : (reg.config.instanceOf inst.name item).serviceId = inst.serviceId)
    (hhttp : (reg.config.instanceOf inst.name item).http = inst.http) :
    (listedAs reg inst).serviceId = inst.serviceId := by
  have haddress : address inst = (item.ip, item.port) := by
    rw [address, ← hhttp]
    rfl
  rw [← hid]
  change listedId inst.name (address inst).1 (address inst).2 = _
  rw [haddress]
  rfl

/-- No neighbour is listed under the id of the instance, exactly if none has its address. -/
theorem filter_neighbours_eq_nil_iff
    (hid : inst.serviceId = listedId inst.name (address inst).1 (address inst).2) :
    ((neighbours reg server inst).map fun r => reg.config.instanceOf inst.name r.item).filter
        (fun i => i.serviceId = inst.serviceId) = []
      ↔ ∀ r ∈ server.records, NacosServer.Asked (reg.config.listRequest inst.name).query r →
        (r.item.ip, r.item.port) = address inst → r.clusterName = reg.clusterName := by
  rw [List.filter_eq_nil_iff, List.forall_mem_map]
  constructor
  · intro h r hr hasked haddr
    by_contra hcluster
    refine h r (mem_neighbours.mpr ⟨hr, hasked, fun _ => hcluster⟩) (decide_eq_true ?_)
    rw [instanceOf_serviceId, hid, ← haddr]
  · intro h r hr hsame
    obtain ⟨hmem, hasked, hcluster⟩ := mem_neighbours.mp hr
    rw [decide_eq_true_eq, instanceOf_serviceId, hid, listedId_inj] at hsame
    have haddr : (r.item.ip, r.item.port) = address inst := Prod.ext hsame.1 hsame.2
    exact hcluster haddr (h r hmem hasked haddr)

/-- **Which instances read back as registered, exactly.** -/
theorem reads_back_iff (reg : NacosRegistry) (server : NacosServer) (inst : ServiceInstance) :
    (∃ list, reg.config.listInstances (server.post (reg.register inst).2).reply inst.name = .ok list
        ∧ ReadsBack inst list) ↔ Fits reg server inst := by
  constructor
  · rintro ⟨list, hlist, e, hfilter, hhttp, hgrpc, hmetadata⟩
    have hactive : reg.config.active = true := by
      by_contra hactive
      rw [NacosConfig.listInstances, if_neg hactive] at hlist
      cases hlist
      cases hfilter
    obtain rfl := Except.ok.inj (listed_of_register hactive ▸ hlist)
    -- the entry is made of an address, and that is the address of the instance
    have hid : (listedAs reg inst).serviceId = inst.serviceId := by
      have he : e ∈ [e] := List.mem_singleton_self e
      rw [← hfilter, List.mem_filter, List.mem_append, decide_eq_true_eq] at he
      rcases he with ⟨he | he, hid⟩
      · obtain ⟨r, -, rfl⟩ := List.mem_map.mp he
        exact listedAs_serviceId hid hhttp
      · obtain rfl := List.mem_singleton.mp he
        exact hid
    rw [List.filter_append, List.filter_singleton, decide_eq_true hid, cond_true] at hfilter
    rcases List.append_eq_singleton_iff.mp hfilter with ⟨hnone, he⟩ | ⟨-, he⟩
    · obtain rfl := List.singleton_inj.mp he
      exact ⟨hactive, hid.symm, hhttp.symm, hgrpc.symm, hmetadata.symm,
        (filter_neighbours_eq_nil_iff hid.symm).mp hnone⟩
    · cases he
  · intro h
    refine ⟨_, listed_of_register h.active, listedAs reg inst, ?_, h.http.symm, h.grpc.symm,
      h.metadata.symm⟩
    have hid : (listedAs reg inst).serviceId = inst.serviceId := h.serviceId.symm
    rw [List.filter_append, List.filter_singleton,
      (filter_neighbours_eq_nil_iff h.serviceId).mpr h.alone, decide_eq_true hid]
    rfl

/-- A registry for a local server, and a server without records. -/
def localNacos : NacosRegistry := { config := { serverAddr := "127.0.0.1:8848" } }

def emptyServer : NacosServer := ⟨[], List.nodup_nil⟩

/-- **A second identity.**  An instance named by `ServiceInstance::simple` is listed under another
id. -/
theorem second_identity : ¬ ∀ (reg : NacosRegistry) (server : NacosServer) (inst : ServiceInstance),
    reg.config.enableNaming = true →
    ∃ list, reg.config.listInstances (server.post (reg.register inst).2).reply inst.name = .ok list
      ∧ ReadsBack inst list := by
  intro h
  obtain ⟨list, hlist, e, hfilter, -⟩ := h localNacos emptyServer
    (.simple "order-svc" "127.0.0.1" 8080) rfl
  have hlisted : localNacos.config.listInstances (emptyServer.post
      (localNacos.register (.simple "order-svc" "127.0.0.1" 8080)).2).reply "order-svc"
      = .ok [listedAs localNacos (.simple "order-svc" "127.0.0.1" 8080)] := by decide +kernel
  obtain rfl := Except.ok.inj (hlisted.symm.trans hlist)
  have hnone : [listedAs localNacos (.simple "order-svc" "127.0.0.1" 8080)].filter
      (fun i => i.serviceId = (ServiceInstance.simple "order-svc" "127.0.0.1" 8080).serviceId)
      = [] := by decide +kernel
  cases hnone.symm.trans hfilter

end NacosRegistry

end PecsRegistry
