import Mathlib.Algebra.Order.Field.Rat
import Mathlib.Data.Finmap

/-!
# Foundations/Instance — service instances, events and errors

The data that every layer passes on: an instance (`ServiceInstance`), what a registry reports about
instances (`ServiceEvent`), and what its operations may answer (`RegistryResult`).

A `HashMap` is a finite map; its iteration order is unspecified, so a list read off one is any list
of its values (`Values`).
-/

namespace PecsRegistry

/-- A hash map: a finite map, compared by its contents. -/
abbrev HashMap (α β : Type) := Finmap fun _ : α => β

namespace HashMap

variable {α β : Type} [DecidableEq α]

/-- The values of a map, each with the keys that hold it forgotten. -/
def values (m : HashMap α β) : Multiset β := m.entries.map Sigma.snd

/-- `l` lists the values of `m`, in the order a traversal happens to take. -/
def Values (m : HashMap α β) (l : List β) : Prop := (l : Multiset β) = m.values

instance [DecidableEq β] (m : HashMap α β) (l : List β) : Decidable (m.Values l) :=
  inferInstanceAs (Decidable ((l : Multiset β) = m.values))

theorem mem_values {m : HashMap α β} {b : β} : b ∈ m.values ↔ ∃ a, m.lookup a = some b := by
  rw [values, Multiset.mem_map]
  constructor
  · rintro ⟨⟨a, b'⟩, hmem, rfl⟩
    exact ⟨a, Finmap.mem_lookup_iff.mpr hmem⟩
  · rintro ⟨a, ha⟩
    exact ⟨⟨a, b⟩, Finmap.mem_lookup_iff.mp ha, rfl⟩

theorem Values.mem {m : HashMap α β} {l : List β} (h : m.Values l) {b : β} :
    b ∈ l ↔ ∃ a, m.lookup a = some b := by
  rw [← mem_values, ← h, Multiset.mem_coe]

theorem lookup_insert (m : HashMap α β) (a a' : α) (b : β) :
    (m.insert a b).lookup a' = if a' = a then some b else m.lookup a' := by
  split_ifs with h
  · rw [h, Finmap.lookup_insert]
  · exact Finmap.lookup_insert_of_ne m h

theorem lookup_erase (m : HashMap α β) (a a' : α) :
    (m.erase a).lookup a' = if a' = a then none else m.lookup a' := by
  split_ifs with h
  · rw [h, Finmap.lookup_erase]
  · exact Finmap.lookup_erase_ne h

theorem lookup_of_lookup_erase {m : HashMap α β} {a a' : α} {b : β}
    (h : (m.erase a).lookup a' = some b) : m.lookup a' = some b := by
  rw [lookup_erase] at h
  split_ifs at h
  exact h

end HashMap

/-! ## Text -/

/-- The white space of `str::trim`. -/
def isWhitespace (c : Char) : Bool :=
  c.toNat ∈ [0x09, 0x0A, 0x0B, 0x0C, 0x0D, 0x20, 0x85, 0xA0, 0x1680, 0x2000, 0x2001, 0x2002, 0x2003,
    0x2004, 0x2005, 0x2006, 0x2007, 0x2008, 0x2009, 0x200A, 0x2028, 0x2029, 0x202F, 0x205F, 0x3000]

/-- `str::trim`: the white space at both ends is dropped. -/
def trim (s : String) : String :=
  String.ofList ((s.toList.dropWhile isWhitespace).reverse.dropWhile isWhitespace).reverse

/-- `str::to_ascii_lowercase`: only the letters `A` to `Z` have another case. -/
def toAsciiLowercase (s : String) : String := String.ofList (s.toList.map Char.toLower)

/-- `str::eq_ignore_ascii_case`. -/
def eqIgnoreAsciiCase (s t : String) : Prop := toAsciiLowercase s = toAsciiLowercase t

instance (s t : String) : Decidable (eqIgnoreAsciiCase s t) :=
  inferInstanceAs (Decidable (toAsciiLowercase s = toAsciiLowercase t))

/-! ## Instances -/

/-- An access point of an instance: host, port and scheme. -/
structure Endpoint where
  address : String
  port : UInt16
  scheme : Option String
deriving DecidableEq

def Endpoint.new (address : String) (port : UInt16) : Endpoint := ⟨address, port, none⟩

def Endpoint.toUrl (ep : Endpoint) (defaultScheme : String) : String :=
  ep.scheme.getD defaultScheme ++ "://" ++ ep.address ++ ":" ++ toString ep.port

/-- The metadata of one instance of a microservice. -/
structure ServiceInstance where
  serviceId : String
  «namespace» : String
  group : String
  name : String
  http : Option Endpoint
  grpc : Option Endpoint
  endpoints : HashMap String Endpoint
  metadata : HashMap String String
  weight : ℚ
  enabled : Bool
  healthy : Bool
deriving DecidableEq

namespace ServiceInstance

/-- An instance with its core fields; the access points given are also filed under their names. -/
def new (serviceId «namespace» group name : String) (http grpc : Option Endpoint) :
    ServiceInstance :=
  let endpoints : HashMap String Endpoint :=
    match http with
    | some h => (∅ : HashMap String Endpoint).insert "http" h
    | none => ∅
  let endpoints :=
    match grpc with
    | some g => endpoints.insert "grpc" g
    | none => endpoints
  { serviceId, «namespace», group, name, http, grpc, endpoints, metadata := ∅, weight := 1,
    enabled := true, healthy := true }

def newHttp (serviceId «namespace» group name : String) (http : Endpoint) : ServiceInstance :=
  new serviceId «namespace» group name (some http) none

def newGrpc (serviceId «namespace» group name : String) (grpc : Endpoint) : ServiceInstance :=
  new serviceId «namespace» group name none (some grpc)

/-- A one-line instance, named after its service, host and port. -/
def simple (serviceName host : String) (port : UInt16) : ServiceInstance :=
  newHttp (serviceName ++ "-" ++ host ++ "-" ++ toString port) "default" "default" serviceName
    (Endpoint.new host port)

def withWeight (inst : ServiceInstance) (weight : ℚ) : ServiceInstance :=
  { inst with weight := max weight 0 }

def withMetadata (inst : ServiceInstance) (key val : String) : ServiceInstance :=
  { inst with metadata := inst.metadata.insert key val }

/-- An access point more.  The protocol is recognised in any case; the map has the name as it is
spelled. -/
def withEndpoint (inst : ServiceInstance) (name : String) (endpoint : Endpoint) :
    ServiceInstance :=
  let inst :=
    if eqIgnoreAsciiCase name "http" then { inst with http := some endpoint }
    else if eqIgnoreAsciiCase name "grpc" then { inst with grpc := some endpoint }
    else inst
  { inst with endpoints := inst.endpoints.insert name endpoint }

/-- The second is the first, but for the weight. -/
def ButWeight (inst inst' : ServiceInstance) : Prop := ∃ weight, inst' = { inst with weight }

theorem ButWeight.refl (inst : ServiceInstance) : inst.ButWeight inst := ⟨inst.weight, rfl⟩

theorem ButWeight.trans {inst inst' inst'' : ServiceInstance} (h : inst.ButWeight inst')
    (h' : inst'.ButWeight inst'') : inst.ButWeight inst'' := by
  obtain ⟨weight, rfl⟩ := h
  obtain ⟨weight', rfl⟩ := h'
  exact ⟨weight', rfl⟩

end ServiceInstance

/-- The ids of a list. -/
def serviceIds (instances : List ServiceInstance) : Finset String :=
  (instances.map (·.serviceId)).toFinset

theorem mem_serviceIds {l : List ServiceInstance} {id : String} :
    id ∈ serviceIds l ↔ ∃ inst ∈ l, inst.serviceId = id := by
  rw [serviceIds, List.mem_toFinset, List.mem_map]

/-! ## Events and errors -/

/-- What a registry reports about the instances of a service. -/
inductive ServiceEvent
  | upsert (inst : ServiceInstance)
  | delete (serviceName serviceId : String)
  | reset (all : List ServiceInstance)
deriving DecidableEq

inductive RegistryError
  | connection (msg : String)
  | serviceNotFound (service : String)
  | instanceNotFound (msg : String)
  | timeout (msg : String)
  | serialization (msg : String)
  | driver (msg : String)
  | config (msg : String)
  | other (msg : String)
deriving DecidableEq

abbrev RegistryResult (α : Type) := Except RegistryError α

end PecsRegistry
