import PecsRegistry.Foundations.Instance
import PecsRegistry.Machinery.Aliases

/-!
# Foundations/EndpointViews — the access points of an instance, twice

An instance has its HTTP and gRPC endpoints in fields of their own and all its endpoints in a map.
The constructors file the two under `"http"` and `"grpc"`; `with_endpoint` sets the field for a name
that is a protocol's in any case, and files the endpoint under the name as it was spelled.  So the
map is the list of what was given, read by name, and a field is the same list read in lower case
(`Views`).  They agree exactly if each protocol is spelled in one way (`endpointsAgree_iff`).
-/

namespace PecsRegistry

open Aliases

namespace ServiceInstance

/-- A call of a constructor. -/
inductive Construction
  | new (serviceId «namespace» group name : String) (http grpc : Option Endpoint)
  | newHttp (serviceId «namespace» group name : String) (http : Endpoint)
  | newGrpc (serviceId «namespace» group name : String) (grpc : Endpoint)
  | simple (serviceName host : String) (port : UInt16)

/-- A call that is chained to it. -/
inductive Chained
  | withEndpoint (name : String) (endpoint : Endpoint)
  | withMetadata (key val : String)
  | withWeight (weight : ℚ)

namespace Construction

def build : Construction → ServiceInstance
  | new serviceId «namespace» group name http grpc =>
    .new serviceId «namespace» group name http grpc
  | newHttp serviceId «namespace» group name http =>
    .newHttp serviceId «namespace» group name http
  | newGrpc serviceId «namespace» group name grpc =>
    .newGrpc serviceId «namespace» group name grpc
  | simple serviceName host port => .simple serviceName host port

/-- The endpoints it is given, under the protocols' names. -/
def given : Construction → List (String × Endpoint)
  | new _ _ _ _ http grpc => http.toList.map ("http", ·) ++ grpc.toList.map ("grpc", ·)
  | newHttp _ _ _ _ http => [("http", http)]
  | newGrpc _ _ _ _ grpc => [("grpc", grpc)]
  | simple _ host port => [("http", .new host port)]

end Construction

namespace Chained

def apply (inst : ServiceInstance) : Chained → ServiceInstance
  | withEndpoint name endpoint => inst.withEndpoint name endpoint
  | withMetadata key val => inst.withMetadata key val
  | withWeight weight => inst.withWeight weight

/-- The endpoint it is given. -/
def given : Chained → List (String × Endpoint)
  | withEndpoint name endpoint => [(name, endpoint)]
  | _ => []

end Chained

/-- An instance built by a constructor and a chain of calls. -/
def built (c : Construction) (calls : List Chained) : ServiceInstance :=
  calls.foldl Chained.apply c.build

/-- All endpoints given for it, the oldest first. -/
def given (c : Construction) (calls : List Chained) : List (String × Endpoint) :=
  c.given ++ calls.flatMap Chained.given

/-! ## One list, read twice -/

/-- What an instance holds of the endpoints given for it. -/
structure Views (given : List (String × Endpoint)) (inst : ServiceInstance) : Prop where
  endpoints : inst.endpoints.lookup = lastOf given
  http : inst.http = lastOf (folded toAsciiLowercase given) "http"
  grpc : inst.grpc = lastOf (folded toAsciiLowercase given) "grpc"

variable {inst : ServiceInstance} {g : List (String × Endpoint)}

theorem eqIgnoreAsciiCase_iff {name protocol : String} (h : toAsciiLowercase protocol = protocol) :
    eqIgnoreAsciiCase name protocol ↔ protocol = toAsciiLowercase name := by
  rw [eqIgnoreAsciiCase, h, eq_comm]

theorem toAsciiLowercase_http : toAsciiLowercase "http" = "http" := by decide

theorem toAsciiLowercase_grpc : toAsciiLowercase "grpc" = "grpc" := by decide

theorem withEndpoint_endpoints (inst : ServiceInstance) (name : String) (endpoint : Endpoint) :
    (inst.withEndpoint name endpoint).endpoints = inst.endpoints.insert name endpoint := by
  rw [withEndpoint]
  split_ifs <;> rfl

theorem withEndpoint_http (inst : ServiceInstance) (name : String) (endpoint : Endpoint) :
    (inst.withEndpoint name endpoint).http
      = if eqIgnoreAsciiCase name "http" then some endpoint else inst.http := by
  rw [withEndpoint]
  split_ifs <;> rfl

/-- The name of one protocol is not that of the other, so the order of the tests is immaterial. -/
theorem withEndpoint_grpc (inst : ServiceInstance) (name : String) (endpoint : Endpoint) :
    (inst.withEndpoint name endpoint).grpc
      = if eqIgnoreAsciiCase name "grpc" then some endpoint else inst.grpc := by
  rw [withEndpoint]
  split_ifs with hhttp hgrpc
  · rw [eqIgnoreAsciiCase_iff toAsciiLowercase_http] at hhttp
    rw [eqIgnoreAsciiCase_iff toAsciiLowercase_grpc, ← hhttp] at hgrpc
    exact absurd hgrpc (by decide)
  all_goals rfl

/-- **An endpoint given is a pair more on the list.** -/
theorem Views.withEndpoint (h : Views g inst) (name : String) (endpoint : Endpoint) :
    Views (g ++ [(name, endpoint)]) (inst.withEndpoint name endpoint) := by
  constructor
  · funext key
    rw [withEndpoint_endpoints, HashMap.lookup_insert, lastOf_concat, ← h.endpoints]
  · simp only [withEndpoint_http, lastOf_folded_concat, ← h.http,
      eqIgnoreAsciiCase_iff toAsciiLowercase_http]
  · simp only [withEndpoint_grpc, lastOf_folded_concat, ← h.grpc,
      eqIgnoreAsciiCase_iff toAsciiLowercase_grpc]

/-- A step of the chain keeps the views. -/
theorem Views.apply (h : Views g inst) (call : Chained) :
    Views (g ++ call.given) (call.apply inst) := by
  cases call with
  | withEndpoint name endpoint => exact h.withEndpoint name endpoint
  | withMetadata key val => exact (List.append_nil g).symm ▸ ⟨h.endpoints, h.http, h.grpc⟩
  | withWeight weight => exact (List.append_nil g).symm ▸ ⟨h.endpoints, h.http, h.grpc⟩

/-- The whole chain does. -/
theorem Views.foldl (h : Views g inst) (calls : List Chained) :
    Views (g ++ calls.flatMap Chained.given) (calls.foldl Chained.apply inst) := by
  induction calls generalizing g inst with
  | nil => exact (List.append_nil g).symm ▸ h
  | cons call calls ih =>
    rw [List.flatMap_cons, ← List.append_assoc]
    exact ih (h.apply call)

/-- The constructor files what it is given as `with_endpoint` does. -/
theorem new_eq_foldl (serviceId «namespace» group name : String) (http grpc : Option Endpoint) :
    new serviceId «namespace» group name http grpc
      = (http.toList.map (Chained.withEndpoint "http")
          ++ grpc.toList.map (Chained.withEndpoint "grpc")).foldl Chained.apply
        (new serviceId «namespace» group name none none) := by
  cases http <;> cases grpc <;> rfl

theorem views_new (serviceId «namespace» group name : String) (http grpc : Option Endpoint) :
    Views (http.toList.map ("http", ·) ++ grpc.toList.map ("grpc", ·))
      (new serviceId «namespace» group name http grpc) := by
  have hbare : Views [] (new serviceId «namespace» group name none none) := ⟨rfl, rfl, rfl⟩
  rw [new_eq_foldl]
  have hfiled := hbare.foldl (http.toList.map (Chained.withEndpoint "http")
    ++ grpc.toList.map (Chained.withEndpoint "grpc"))
  cases http <;> cases grpc <;> exact hfiled

theorem views_build (c : Construction) : Views c.given c.build := by
  cases c with
  | new serviceId «namespace» group name http grpc =>
    exact views_new serviceId «namespace» group name http grpc
  | newHttp serviceId «namespace» group name http =>
    exact views_new serviceId «namespace» group name (some http) none
  | newGrpc serviceId «namespace» group name grpc =>
    exact views_new serviceId «namespace» group name none (some grpc)
  | simple serviceName host port => exact views_new _ _ _ _ (some (.new host port)) none

/-- **Every instance holds what was given for it**, by name and by protocol. -/
theorem views_built (c : Construction) (calls : List Chained) :
    Views (given c calls) (built c calls) := (views_build c).foldl calls

/-! ## When the two agree -/

/-- The two representations of the endpoints of an instance agree: on each protocol, and any other
name has the endpoint last given for it. -/
structure EndpointsAgree (given : List (String × Endpoint)) (inst : ServiceInstance) : Prop where
  http : Agrees toAsciiLowercase inst.endpoints.lookup "http" inst.http
  grpc : Agrees toAsciiLowercase inst.endpoints.lookup "grpc" inst.grpc
  other : ∀ name, ¬ eqIgnoreAsciiCase name "http" → ¬ eqIgnoreAsciiCase name "grpc" →
    inst.endpoints.lookup name = lastOf given name

/-- **They agree exactly if each protocol is spelled in one way** in all that is given for it. -/
theorem endpointsAgree_iff (c : Construction) (calls : List Chained) :
    EndpointsAgree (given c calls) (built c calls)
      ↔ SpelledAlike toAsciiLowercase (given c calls) "http"
        ∧ SpelledAlike toAsciiLowercase (given c calls) "grpc" := by
  obtain ⟨hendpoints, hhttp, hgrpc⟩ := views_built c calls
  constructor
  · rintro ⟨http, grpc, -⟩
    rw [hendpoints, hhttp] at http
    rw [hendpoints, hgrpc] at grpc
    exact ⟨agrees_lastOf_iff.mp http, agrees_lastOf_iff.mp grpc⟩
  · rintro ⟨http, grpc⟩
    refine ⟨?_, ?_, fun name _ _ => congrFun hendpoints name⟩
    · rw [hendpoints, hhttp]
      exact agrees_lastOf_iff.mpr http
    · rw [hendpoints, hgrpc]
      exact agrees_lastOf_iff.mpr grpc

/-- The spelling that is kept to need not be in lower case. -/
example : SpelledAlike toAsciiLowercase (given (.simple "order-svc" "127.0.0.1" 8080)
    [.withEndpoint "GRPC" (.new "127.0.0.1" 9090), .withEndpoint "GRPC" (.new "127.0.0.1" 9443)])
    "grpc" := by decide

/-- An HTTP endpoint filed again, under another spelling of its protocol: the map has both. -/
theorem not_endpointsAgree_respelled :
    ¬ ∀ c calls, EndpointsAgree (given c calls) (built c calls) := by
  intro h
  have hviews := (h (.simple "order-svc" "127.0.0.1" 8080)
    [.withEndpoint "HTTP" (.new "127.0.0.1" 8443)]).http
  have hkeys : "http" = "HTTP" :=
    hviews.unique (by decide) (by decide) (by decide +kernel) (by decide +kernel)
  exact absurd hkeys (by decide)

end ServiceInstance

end PecsRegistry
