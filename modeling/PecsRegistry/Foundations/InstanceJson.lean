import PecsRegistry.Foundations.Instance
import PecsRegistry.Foundations.Numeric
import PecsRegistry.Machinery.Json

/-!
# Foundations/InstanceJson — instances as JSON, on disk and in etcd

What the derived `Serialize` and `Deserialize` of `Endpoint` and `ServiceInstance` do to a JSON
value.  A field that is skipped when it is empty has a default when it is missing, and `round_trip`
says that the two always match: a list of instances is what its encoding decodes to, and an object
with the required fields decodes, whichever optional fields it has, to an instance that its own
encoding decodes to.

A `HashMap` is written in the order of a traversal, so an instance has many encodings
(`Serializes`).
-/

namespace PecsRegistry

open Json

/-! ## Fields -/

/-- A `u16`. -/
def asU16 (j : Json) : Option UInt16 := (asNat UInt16.size j).map UInt16.ofNat

/-- An `f64`; an integer is cast. -/
def asFloat : Json → Option ℚ
  | .int n => some (asF64 n)
  | .float q => some q
  | _ => none

/-- A number, integral or not. -/
def IsNumber (j : Json) : Prop := (∃ n, j = .int n) ∨ ∃ q, j = .float q

theorem isSome_asFloat {j : Json} (h : IsNumber j) : (asFloat j).isSome := by
  obtain ⟨n, rfl⟩ | ⟨q, rfl⟩ := h <;> rfl

theorem asU16_toNat (port : UInt16) : asU16 (.int port.toNat) = some port := by
  rw [asU16, asNat_int port.toNat_lt_size, Option.map_some, UInt16.ofNat_toNat]

/-! ## Endpoints -/

namespace Endpoint

def serializeMembers (ep : Endpoint) : List (String × Json) :=
  [("address", .str ep.address), ("port", .int ep.port.toNat)]
    ++ optional "scheme" (ep.scheme.map .str)

def serialize (ep : Endpoint) : Json := .obj ep.serializeMembers

def deserialize (j : Json) : Option Endpoint := do
  let ms ← members ["address", "port", "scheme"] j
  let address ← field ms "address" asStr none
  let port ← field ms "port" asU16 none
  let scheme ← field ms "scheme" (asOption asStr) (some none)
  return { address, port, scheme }

theorem deserialize_serialize (ep : Endpoint) : deserialize ep.serialize = some ep := by
  have haddress : field ep.serializeMembers "address" asStr none = some ep.address :=
    field_singleton (j := .str ep.address) (by simp [serializeMembers])
  have hport : field ep.serializeMembers "port" asU16 none = some ep.port :=
    (field_singleton (by simp [serializeMembers])).trans (asU16_toNat ep.port)
  have hscheme : field ep.serializeMembers "scheme" (asOption asStr) (some none)
      = some ep.scheme := by
    refine (field_optional (j := ep.scheme.map .str) (by simp [serializeMembers])).trans ?_
    cases ep.scheme <;> rfl
  simp only [serialize, deserialize, members, Option.bind_eq_bind, Option.bind_some, haddress,
    hport, hscheme]
  rfl

/-- An array stands for an endpoint, field by field. -/
example : deserialize (.arr [.str "127.0.0.1", .int 8001]) = some (.new "127.0.0.1" 8001) := by
  decide +kernel

/-- An object that stands for an endpoint: a string, a `u16`, and perhaps a string or null. -/
structure Members (ms : List (String × Json)) : Prop where
  distinct : (ms.map (·.1)).Nodup
  address : Has ms "address" IsStr
  port : Has ms "port" (IsNat UInt16.size)
  scheme : May ms "scheme" (Nullable IsStr)

theorem Members.isSome_deserialize {ms : List (String × Json)} (h : Members ms) :
    (deserialize (.obj ms)).isSome := by
  obtain ⟨address, haddress⟩ := exists_of_has h.distinct (fun _ => isSome_asStr) h.address
  obtain ⟨port, hport⟩ := exists_of_has h.distinct (d := asU16)
    (fun j hj => by rw [asU16, Option.isSome_map]; exact isSome_asNat hj) h.port
  obtain ⟨scheme, hscheme⟩ := exists_of_may none h.distinct
    (fun _ => isSome_asOption fun _ => isSome_asStr) h.scheme
  simp only [deserialize, members, Option.bind_eq_bind, Option.bind_some, haddress, hport, hscheme]
  rfl

/-- The value is such an object. -/
def WellTyped (j : Json) : Prop := ∃ ms, j = .obj ms ∧ Members ms

theorem isSome_deserialize {j : Json} (h : WellTyped j) : (deserialize j).isSome := by
  obtain ⟨ms, rfl, hms⟩ := h
  exact hms.isSome_deserialize

end Endpoint

/-! ## Instances -/

namespace ServiceInstance

/-- The members of an encoding, the maps traversed in the given orders. -/
def serializeMembers (inst : ServiceInstance) (endpoints : List (String × Endpoint))
    (metadata : List (String × String)) : List (String × Json) :=
  [("service_id", .str inst.serviceId), ("namespace", .str inst.namespace),
      ("group", .str inst.group), ("name", .str inst.name)]
    ++ optional "http" (inst.http.map Endpoint.serialize)
    ++ optional "grpc" (inst.grpc.map Endpoint.serialize)
    ++ optional "endpoints" (if inst.endpoints = ∅ then none
      else some (.obj (endpoints.map fun e => (e.1, e.2.serialize))))
    ++ optional "metadata" (if inst.metadata = ∅ then none
      else some (.obj (metadata.map fun e => (e.1, .str e.2))))
    ++ [("weight", .float inst.weight), ("enabled", .bool inst.enabled),
      ("healthy", .bool inst.healthy)]

def deserialize (j : Json) : Option ServiceInstance := do
  let ms ← members ["service_id", "namespace", "group", "name", "http", "grpc", "endpoints",
    "metadata", "weight", "enabled", "healthy"] j
  let serviceId ← field ms "service_id" asStr none
  let «namespace» ← field ms "namespace" asStr none
  let group ← field ms "group" asStr none
  let name ← field ms "name" asStr none
  let http ← field ms "http" (asOption Endpoint.deserialize) (some none)
  let grpc ← field ms "grpc" (asOption Endpoint.deserialize) (some none)
  let endpoints ← field ms "endpoints" (asMap Endpoint.deserialize) (some ∅)
  let metadata ← field ms "metadata" (asMap asStr) (some ∅)
  let weight ← field ms "weight" asFloat (some 1)
  let enabled ← field ms "enabled" asBool (some true)
  let healthy ← field ms "healthy" asBool (some true)
  return { serviceId, «namespace», group, name, http, grpc, endpoints, metadata, weight, enabled,
           healthy }

/-- `j` is an encoding of the instance. -/
def Serializes (inst : ServiceInstance) (j : Json) : Prop :=
  ∃ endpoints metadata, Entries inst.endpoints endpoints ∧ Entries inst.metadata metadata
    ∧ j = .obj (inst.serializeMembers endpoints metadata)

theorem exists_serializes (inst : ServiceInstance) : ∃ j, inst.Serializes j := by
  obtain ⟨endpoints, hendpoints⟩ := exists_entries inst.endpoints
  obtain ⟨metadata, hmetadata⟩ := exists_entries inst.metadata
  exact ⟨_, endpoints, metadata, hendpoints, hmetadata, rfl⟩

/-- An access point that is skipped when it is missing. -/
theorem elim_endpoint (ep : Option Endpoint) :
    (ep.map Endpoint.serialize).elim (some none) (asOption Endpoint.deserialize) = some ep := by
  cases ep with
  | none => rfl
  | some ep =>
    have hobj : asOption Endpoint.deserialize ep.serialize
      = (Endpoint.deserialize ep.serialize).map some := rfl
    rw [Option.map_some, Option.elim_some, hobj, ep.deserialize_serialize, Option.map_some]

/-- A map that is skipped when it is empty. -/
theorem elim_map {α : Type} [DecidableEq α] {d : Json → Option α} {e : α → Json}
    (hde : ∀ a, d (e a) = some a) {m : HashMap String α} {entries : List (String × α)}
    (h : Entries m entries) :
    (if m = ∅ then none else some (.obj (entries.map fun p => (p.1, e p.2)))).elim (some ∅)
      (asMap d) = some m := by
  split_ifs with hm
  · rw [hm]
    rfl
  · exact asMap_obj hde h

/-- **An encoding decodes to the instance**, whatever the order of its maps. -/
theorem deserialize_of_serializes {inst : ServiceInstance} {j : Json} (h : inst.Serializes j) :
    deserialize j = some inst := by
  obtain ⟨endpoints, metadata, hendpoints, hmetadata, rfl⟩ := h
  generalize hms : inst.serializeMembers endpoints metadata = ms
  have hstr : ∀ name s, values ms name = [.str s] → field ms name asStr none = some s :=
    fun name s hvalues => field_singleton hvalues
  have hhttp : field ms "http" (asOption Endpoint.deserialize) (some none) = some inst.http :=
    (field_optional (by simp [← hms, serializeMembers])).trans (elim_endpoint inst.http)
  have hgrpc : field ms "grpc" (asOption Endpoint.deserialize) (some none) = some inst.grpc :=
    (field_optional (by simp [← hms, serializeMembers])).trans (elim_endpoint inst.grpc)
  have heps : field ms "endpoints" (asMap Endpoint.deserialize) (some ∅) = some inst.endpoints :=
    (field_optional (by simp [← hms, serializeMembers])).trans
      (elim_map Endpoint.deserialize_serialize hendpoints)
  have hmd : field ms "metadata" (asMap asStr) (some ∅) = some inst.metadata :=
    (field_optional (by simp [← hms, serializeMembers])).trans
      (elim_map (d := asStr) (e := Json.str) (fun _ => rfl) hmetadata)
  have hweight : field ms "weight" asFloat (some 1) = some inst.weight :=
    field_singleton (j := .float inst.weight) (by simp [← hms, serializeMembers])
  have henabled : field ms "enabled" asBool (some true) = some inst.enabled :=
    field_singleton (j := .bool inst.enabled) (by simp [← hms, serializeMembers])
  have hhealthy : field ms "healthy" asBool (some true) = some inst.healthy :=
    field_singleton (j := .bool inst.healthy) (by simp [← hms, serializeMembers])
  have hserviceId := hstr "service_id" inst.serviceId (by simp [← hms, serializeMembers])
  have hnamespace := hstr "namespace" inst.namespace (by simp [← hms, serializeMembers])
  have hgroup := hstr "group" inst.group (by simp [← hms, serializeMembers])
  have hname := hstr "name" inst.name (by simp [← hms, serializeMembers])
  change (field ms "service_id" asStr none).bind _ = _
  rw [hserviceId, hnamespace, hgroup, hname, hhttp, hgrpc, heps, hmd, hweight, henabled, hhealthy]
  rfl

/-- An object that stands for an instance: the four required fields are strings, and each other
field that is present has its type. -/
structure Members (ms : List (String × Json)) : Prop where
  distinct : (ms.map (·.1)).Nodup
  serviceId : Has ms "service_id" IsStr
  «namespace» : Has ms "namespace" IsStr
  group : Has ms "group" IsStr
  name : Has ms "name" IsStr
  http : May ms "http" (Nullable Endpoint.WellTyped)
  grpc : May ms "grpc" (Nullable Endpoint.WellTyped)
  endpoints : May ms "endpoints" (MapOf Endpoint.WellTyped)
  metadata : May ms "metadata" (MapOf IsStr)
  weight : May ms "weight" IsNumber
  enabled : May ms "enabled" IsBool
  healthy : May ms "healthy" IsBool

/-- **Every such object decodes.** -/
theorem Members.exists_deserialize {ms : List (String × Json)} (h : Members ms) :
    ∃ inst, deserialize (.obj ms) = some inst := by
  have hstr : ∀ name, Has ms name IsStr → ∃ s, field ms name asStr none = some s :=
    fun name => exists_of_has h.distinct fun _ => isSome_asStr
  have hendpoint : ∀ name, May ms name (Nullable Endpoint.WellTyped) →
      ∃ ep, field ms name (asOption Endpoint.deserialize) (some none) = some ep :=
    fun name => exists_of_may none h.distinct
      fun _ => isSome_asOption fun _ => Endpoint.isSome_deserialize
  have hbool : ∀ name, May ms name IsBool → ∃ b, field ms name asBool (some true) = some b :=
    fun name => exists_of_may true h.distinct fun _ => isSome_asBool
  obtain ⟨serviceId, hserviceId⟩ := hstr _ h.serviceId
  obtain ⟨«namespace», hnamespace⟩ := hstr _ h.namespace
  obtain ⟨group, hgroup⟩ := hstr _ h.group
  obtain ⟨name, hname⟩ := hstr _ h.name
  obtain ⟨http, hhttp⟩ := hendpoint _ h.http
  obtain ⟨grpc, hgrpc⟩ := hendpoint _ h.grpc
  obtain ⟨endpoints, hendpoints⟩ := exists_of_may ∅ h.distinct
    (fun _ => isSome_asMap fun _ => Endpoint.isSome_deserialize) h.endpoints
  obtain ⟨metadata, hmetadata⟩ := exists_of_may ∅ h.distinct
    (fun _ => isSome_asMap fun _ => isSome_asStr) h.metadata
  obtain ⟨weight, hweight⟩ := exists_of_may 1 h.distinct (fun _ => isSome_asFloat) h.weight
  obtain ⟨enabled, henabled⟩ := hbool _ h.enabled
  obtain ⟨healthy, hhealthy⟩ := hbool _ h.healthy
  change ∃ inst, (field ms "service_id" asStr none).bind _ = some inst
  rw [hserviceId, hnamespace, hgroup, hname, hhttp, hgrpc, hendpoints, hmetadata, hweight, henabled,
    hhealthy]
  exact ⟨_, rfl⟩

end ServiceInstance

/-! ## Lists -/

/-- `j` is an encoding of the list. -/
def SerializesList (instances : List ServiceInstance) (j : Json) : Prop :=
  ∃ items, j = .arr items ∧ List.Forall₂ ServiceInstance.Serializes instances items

def deserializeList : Json → Option (List ServiceInstance) := asList ServiceInstance.deserialize

theorem exists_serializesList (instances : List ServiceInstance) :
    ∃ j, SerializesList instances j := by
  induction instances with
  | nil => exact ⟨_, [], rfl, .nil⟩
  | cons inst instances ih =>
    obtain ⟨_, items, rfl, hitems⟩ := ih
    obtain ⟨j, hj⟩ := inst.exists_serializes
    exact ⟨_, j :: items, rfl, .cons hj hitems⟩

theorem deserializeList_of_serializes {instances : List ServiceInstance} {j : Json}
    (h : SerializesList instances j) : deserializeList j = some instances := by
  obtain ⟨items, rfl, hitems⟩ := h
  exact mapM_of_forall₂ (hitems.imp fun _ _ => ServiceInstance.deserialize_of_serializes)

/-- **The round trip.**  A list can be encoded, and any of its encodings decodes to it; and an
object with the required fields decodes to an instance that any of its own encodings decodes to. -/
theorem round_trip :
    (∀ instances, (∃ j, SerializesList instances j)
      ∧ ∀ j, SerializesList instances j → deserializeList j = some instances)
    ∧ ∀ ms, ServiceInstance.Members ms → ∃ inst, ServiceInstance.deserialize (.obj ms) = some inst
      ∧ ∀ j, inst.Serializes j → ServiceInstance.deserialize j = some inst := by
  refine ⟨fun instances => ⟨exists_serializesList instances, fun _ =>
    deserializeList_of_serializes⟩, fun ms hms => ?_⟩
  obtain ⟨inst, hinst⟩ := hms.exists_deserialize
  exact ⟨inst, hinst, fun _ => ServiceInstance.deserialize_of_serializes⟩

/-- The object of an access point. -/
def pointMembers (port : ℕ) (scheme : Json) : List (String × Json) :=
  [("address", .str "127.0.0.1"), ("port", .int port), ("scheme", scheme)]

theorem members_pointMembers {port : ℕ} {scheme : Json} (hport : port < UInt16.size)
    (hscheme : Nullable IsStr scheme) : Endpoint.WellTyped (.obj (pointMembers port scheme)) :=
  ⟨_, rfl,
    { distinct := by simp [pointMembers]
      address := ⟨⟨.str "127.0.0.1", by simp [pointMembers]⟩, by simp [May, pointMembers, IsStr]⟩
      port := ⟨⟨.int port, by simp [pointMembers]⟩,
        by simpa [May, pointMembers, IsNat] using hport⟩
      scheme := by simpa [May, pointMembers] using hscheme }⟩

/-- `round_trip` on an object that has every field but `grpc`, in an order of its own, and one that
is none. -/
theorem round_trip_mixed :
    ∃ inst, ServiceInstance.deserialize (.obj [("healthy", .bool false), ("weight", .int 2),
        ("http", .obj (pointMembers 8080 (.str "https"))), ("service_id", .str "inst-01"),
        ("endpoints", .obj [("admin", .obj (pointMembers 9000 .null))]),
        ("namespace", .str "pecs"), ("group", .str "dev"), ("zone", .int 1),
        ("metadata", .obj [("version", .str "v2")]), ("name", .str "pecs-bff"),
        ("enabled", .bool true)]) = some inst
      ∧ ∀ j, inst.Serializes j → ServiceInstance.deserialize j = some inst :=
  have hhttp : Endpoint.WellTyped (.obj (pointMembers 8080 (.str "https"))) :=
    members_pointMembers (by decide) (.inr ⟨_, rfl⟩)
  have hadmin : Endpoint.WellTyped (.obj (pointMembers 9000 .null)) :=
    members_pointMembers (by decide) (.inl rfl)
  round_trip.2 _
    { distinct := by simp
      serviceId := ⟨⟨.str "inst-01", by simp⟩, by simp [May, IsStr]⟩
      «namespace» := ⟨⟨.str "pecs", by simp⟩, by simp [May, IsStr]⟩
      group := ⟨⟨.str "dev", by simp⟩, by simp [May, IsStr]⟩
      name := ⟨⟨.str "pecs-bff", by simp⟩, by simp [May, IsStr]⟩
      http := by simp [May, Nullable, hhttp]
      grpc := by simp [May]
      endpoints := by simp [May, MapOf, hadmin]
      metadata := by simp [May, MapOf, IsStr]
      weight := by simp [May, IsNumber]
      enabled := by simp [May, IsBool]
      healthy := by simp [May, IsBool] }

end PecsRegistry
