import PecsRegistry.Foundations.InstanceJson
import PecsRegistry.Provider.Etcd.Config

/-!
# Service/Settings — the configuration of a service as JSON

What the derived `Serialize` and `Deserialize` of `RegistryConfig` do to a JSON value.  Every member
may be left out of an object, in any combination, and its default takes its place
(`deserialize_eq_completed`): so an empty object is the default configuration, and an encoding
decodes to what it encodes (`deserialize_serialize`).
-/

namespace PecsRegistry

open Json

/-- A `u64`. -/
def asU64 (j : Json) : Option UInt64 := (asNat UInt64.size j).map UInt64.ofNat

theorem asU64_toNat (n : UInt64) : asU64 (.int n.toNat) = some n := by
  rw [asU64, asNat_int n.toNat_lt_size, Option.map_some, UInt64.ofNat_toNat]

/-- An array that stands for a record must reach its last field without a default. -/
def reaches (n : ℕ) : Json → Bool
  | .arr items => n ≤ items.length
  | _ => true

/-- The whole `RegistryConfig`: what the etcd provider reads of it, and the rest. -/
structure RegistrySettings extends RegistryConfig where
  kind : String
  user : Option String
  password : Option String
  timeout : UInt64
  cacheTtl : UInt64
  diskCacheDir : Option String
  diskCacheEnabled : Bool
deriving DecidableEq

namespace RegistrySettings

def default : RegistrySettings where
  toRegistryConfig := .default
  kind := "etcd"
  user := none
  password := none
  timeout := 10
  cacheTtl := 5
  diskCacheDir := none
  diskCacheEnabled := false

/-- A string or null. -/
def nullable (s : Option String) : Json := s.elim .null .str

def serializeMembers (config : RegistrySettings) : List (String × Json) :=
  [("enable", .bool config.enable), ("kind", .str config.kind), ("host", .str config.host),
    ("port", .int config.port.toNat), ("namespace", .str config.namespace),
    ("group", .str config.group), ("user", nullable config.user),
    ("password", nullable config.password), ("timeout", .int config.timeout.toNat),
    ("ttl", .int config.ttl.toNat), ("cache_ttl", .int config.cacheTtl.toNat),
    ("disk_cache_dir", nullable config.diskCacheDir),
    ("disk_cache_enabled", .bool config.diskCacheEnabled)]

def serialize (config : RegistrySettings) : Json := .obj config.serializeMembers

/-- The members of an object. -/
def fields : List String :=
  ["enable", "kind", "host", "port", "namespace", "group", "user", "password", "timeout", "ttl",
    "cache_ttl", "disk_cache_dir", "disk_cache_enabled"]

def deserializeMembers (ms : List (String × Json)) : Option RegistrySettings := do
  let enable ← field ms "enable" asBool (some true)
  let kind ← field ms "kind" asStr (some "etcd")
  let host ← field ms "host" asStr (some "127.0.0.1")
  let port ← field ms "port" asU16 (some 2379)
  let «namespace» ← field ms "namespace" asStr (some "pecs")
  let group ← field ms "group" asStr (some "dev")
  let user ← field ms "user" (asOption asStr) (some none)
  let password ← field ms "password" (asOption asStr) (some none)
  let timeout ← field ms "timeout" asU64 (some 10)
  let ttl ← field ms "ttl" asU64 (some 30)
  let cacheTtl ← field ms "cache_ttl" asU64 (some 5)
  let diskCacheDir ← field ms "disk_cache_dir" (asOption asStr) (some none)
  let diskCacheEnabled ← field ms "disk_cache_enabled" asBool (some false)
  return { enable, host, port, «namespace», group, ttl, kind, user, password, timeout, cacheTtl,
           diskCacheDir, diskCacheEnabled }

/-- In an array, `user` and `password` may not be missing: an `Option` without a `default` attribute
falls back on `None` only as a member of an object. -/
def deserialize (j : Json) : Option RegistrySettings :=
  if reaches 8 j then (members fields j).bind deserializeMembers else none

theorem deserialize_obj (ms : List (String × Json)) :
    deserialize (.obj ms) = deserializeMembers ms := rfl

/-- An array must reach the password. -/
example : deserialize (.arr [.bool false]) = none := by decide

/-! ## What it decodes to -/

/-- The configuration, with the defaults for what is missing. -/
def completed (missing : String → Prop) [DecidablePred missing] (config : RegistrySettings) :
    RegistrySettings where
  enable := if missing "enable" then default.enable else config.enable
  kind := if missing "kind" then default.kind else config.kind
  host := if missing "host" then default.host else config.host
  port := if missing "port" then default.port else config.port
  «namespace» := if missing "namespace" then default.namespace else config.namespace
  group := if missing "group" then default.group else config.group
  user := if missing "user" then default.user else config.user
  password := if missing "password" then default.password else config.password
  timeout := if missing "timeout" then default.timeout else config.timeout
  ttl := if missing "ttl" then default.ttl else config.ttl
  cacheTtl := if missing "cache_ttl" then default.cacheTtl else config.cacheTtl
  diskCacheDir := if missing "disk_cache_dir" then default.diskCacheDir else config.diskCacheDir
  diskCacheEnabled :=
    if missing "disk_cache_enabled" then default.diskCacheEnabled else config.diskCacheEnabled

theorem asOption_nullable (s : Option String) : asOption asStr (nullable s) = some s := by
  cases s <;> rfl

theorem map_fst_serializeMembers (config : RegistrySettings) :
    config.serializeMembers.map (·.1) = fields := rfl

theorem nodup_serializeMembers (config : RegistrySettings) :
    (config.serializeMembers.map (·.1)).Nodup := by
  have hnodup : fields.Nodup := by decide
  exact hnodup

/-- A field of an object whose members are those of an encoding. -/
theorem field_of_members {config : RegistrySettings} {ms : List (String × Json)}
    (honce : ∀ name ∈ fields, (values ms name).length ≤ 1)
    (hms : ∀ name ∈ fields, ∀ j ∈ values ms name, (name, j) ∈ config.serializeMembers) {α : Type}
    {name : String} {d : Json → Option α} {e : Json} {a : α} (default : α)
    (he : (name, e) ∈ config.serializeMembers) (hd : d e = some a) :
    field ms name d (some default) = some (if values ms name = [] then default else a) := by
  have hname : name ∈ fields := by
    rw [← map_fst_serializeMembers config]
    exact List.mem_map_of_mem he
  refine field_eq_ite default hd (honce name hname) fun j hj => ?_
  have hsame := List.inj_on_of_nodup_map config.nodup_serializeMembers (hms name hname j hj) he rfl
  exact (Prod.mk.inj hsame).2

/-- The fields of an object whose members are those of an encoding. -/
theorem deserializeMembers_of_members (config : RegistrySettings) {ms : List (String × Json)}
    (honce : ∀ name ∈ fields, (values ms name).length ≤ 1)
    (hms : ∀ name ∈ fields, ∀ j ∈ values ms name, (name, j) ∈ config.serializeMembers) :
    deserializeMembers ms = some (config.completed fun name => values ms name = []) := by
  have hbool : ∀ name b default, (name, .bool b) ∈ config.serializeMembers →
      field ms name asBool (some default) = some (if values ms name = [] then default else b) :=
    fun name b default he => field_of_members honce hms default he rfl
  have hstr : ∀ name s default, (name, .str s) ∈ config.serializeMembers →
      field ms name asStr (some default) = some (if values ms name = [] then default else s) :=
    fun name s default he => field_of_members honce hms default he rfl
  have hnullable : ∀ name s, (name, nullable s) ∈ config.serializeMembers →
      field ms name (asOption asStr) (some none)
        = some (if values ms name = [] then none else s) :=
    fun name s he => field_of_members honce hms none he (asOption_nullable s)
  have hu64 : ∀ name (n default : UInt64), (name, .int n.toNat) ∈ config.serializeMembers →
      field ms name asU64 (some default) = some (if values ms name = [] then default else n) :=
    fun name n default he => field_of_members honce hms default he (asU64_toNat n)
  have hport : field ms "port" asU16 (some 2379)
      = some (if values ms "port" = [] then 2379 else config.port) :=
    field_of_members honce hms 2379 (by simp [serializeMembers]) (asU16_toNat config.port)
  change (field ms "enable" asBool (some true)).bind _ = _
  rw [hbool "enable" config.enable true (by simp [serializeMembers]),
    hstr "kind" config.kind "etcd" (by simp [serializeMembers]),
    hstr "host" config.host "127.0.0.1" (by simp [serializeMembers]), hport,
    hstr "namespace" config.namespace "pecs" (by simp [serializeMembers]),
    hstr "group" config.group "dev" (by simp [serializeMembers]),
    hnullable "user" config.user (by simp [serializeMembers]),
    hnullable "password" config.password (by simp [serializeMembers]),
    hu64 "timeout" config.timeout 10 (by simp [serializeMembers]),
    hu64 "ttl" config.ttl 30 (by simp [serializeMembers]),
    hu64 "cache_ttl" config.cacheTtl 5 (by simp [serializeMembers]),
    hnullable "disk_cache_dir" config.diskCacheDir (by simp [serializeMembers]),
    hbool "disk_cache_enabled" config.diskCacheEnabled false (by simp [serializeMembers])]
  rfl

/-- **What is left out takes its default.**  Whichever members of an encoding an object has, in
whatever order and among whatever others, it decodes to the encoded configuration, but for the
members that are missing. -/
theorem deserialize_eq_completed (config : RegistrySettings) {ms : List (String × Json)}
    (honce : ∀ name ∈ fields, (values ms name).length ≤ 1)
    (hms : ∀ name ∈ fields, ∀ j ∈ values ms name, (name, j) ∈ config.serializeMembers) :
    deserialize (.obj ms) = some (config.completed fun name => values ms name = []) := by
  rw [deserialize_obj]
  exact config.deserializeMembers_of_members honce hms

/-- A Nacos server on another port: the rest is by default, and the comment is not read. -/
theorem deserialize_eq_completed_nacos :
    deserialize (.obj [("port", .int 8848), ("comment", .null), ("kind", .str "nacos")])
      = some { default with port := 8848, kind := "nacos" } := by
  refine (deserialize_eq_completed { default with port := 8848, kind := "nacos" }
    (by decide) ?_).trans (by decide)
  simp [fields, values, serializeMembers]

theorem completed_eq_self (config : RegistrySettings) {missing : String → Prop}
    [DecidablePred missing] (hall : ∀ name ∈ fields, ¬missing name) :
    config.completed missing = config := by
  simp only [fields, List.forall_mem_cons] at hall
  simp only [completed, hall, if_false]

/-- An encoding decodes to what it encodes. -/
theorem deserialize_serialize (config : RegistrySettings) :
    deserialize config.serialize = some config := by
  have hmembers := config.deserializeMembers_of_members
    (fun name _ => length_values_le config.nodup_serializeMembers name)
    (fun name _ j hj => mem_values.mp hj)
  rw [serialize, deserialize_obj, hmembers, completed_eq_self]
  intro name hname hmissing
  rw [← map_fst_serializeMembers config] at hname
  obtain ⟨e, he, rfl⟩ := List.mem_map.mp hname
  have hvalue : e.2 ∈ values config.serializeMembers e.1 := mem_values.mpr he
  rw [hmissing] at hvalue
  exact List.not_mem_nil hvalue

end RegistrySettings

end PecsRegistry
