import PecsRegistry.Provider.Nacos.Registration

/-!
# Provider/Nacos/Fleet — many processes on one Nacos server

A `register` or `deregister` sends one request and takes no notice of what becomes of it: on its way
it may be overtaken, come late, or get lost (`NacosLabel`).  The server is a parameter
(`NacosApi`): what it makes of a request, what it does by itself, and what it lists.

**What is listed has been registered** (`listed_posted`), if the server lists only what was
posted to it (`NacosApi.Honest`).  A process remembers one instance, and takes back no other: **what
no process remembers stays listed** (`abandoned_listed`), if the server takes an instance off its
lists only when it is asked to (`NacosApi.Keeps`).
-/

namespace PecsRegistry

open Transition

/-! ## Requests -/

/-- An address of a service, in a group and a namespace. -/
structure NacosSite where
  serviceName : String
  groupName : String
  namespaceId : String
  ip : String
  port : UInt16
deriving DecidableEq

/-- The form of a deregistration; it has no cluster. -/
structure DeregisterForm where
  serviceName : String
  ip : String
  port : UInt16
  groupName : String
  namespaceId : String

/-- A request of a deregistration. -/
structure DeregisterRequest where
  url : String
  form : DeregisterForm

def RegisterForm.site (form : RegisterForm) : NacosSite :=
  ⟨form.serviceName, form.groupName, form.namespaceId, form.ip, form.port⟩

def DeregisterForm.site (form : DeregisterForm) : NacosSite :=
  ⟨form.serviceName, form.groupName, form.namespaceId, form.ip, form.port⟩

/-- Where an instance stands that is registered or listed with a configuration. -/
def NacosConfig.site (config : NacosConfig) (inst : ServiceInstance) : NacosSite :=
  ⟨inst.name, config.registration.group, config.namespace, (NacosRegistry.address inst).1,
    (NacosRegistry.address inst).2⟩

namespace NacosRegistry

def new (config : NacosConfig) (clusterName : String) : NacosRegistry := { config, clusterName }

def deregisterRequest (reg : NacosRegistry) (inst : ServiceInstance) : DeregisterRequest where
  url := reg.config.serverUrl ++ "/nacos/v1/ns/instance"
  form :=
    { serviceName := inst.name
      ip := (address inst).1
      port := (address inst).2
      groupName := reg.config.registration.group
      namespaceId := reg.config.namespace }

/-- `deregister`: what becomes of the registry, and the request it sends. -/
def deregister (reg : NacosRegistry) : NacosRegistry × Option DeregisterRequest :=
  if reg.config.active then
    ({ reg with registeredInstance := none }, reg.registeredInstance.map reg.deregisterRequest)
  else (reg, none)

end NacosRegistry

/-- What a process sends. -/
inductive NacosRequest
  | register (request : RegisterRequest)
  | deregister (request : DeregisterRequest)

/-! ## The server -/

/-- A Nacos server with states in `ν`: what it makes of a request, what it does by itself, as when
it drops an instance that sends no heartbeats, and what it answers. -/
structure NacosApi (ν ε : Type) where
  handle : ν → NacosRequest → ν
  act : ν → ε → ν
  reply : ν → ListRequest → ListReply

namespace NacosApi

variable {ν ε : Type} (api : NacosApi ν ε)

/-- It lists only what was posted to it; `filed` is what it knows of that. -/
structure Honest (filed : ν → Set NacosSite) : Prop where
  register : ∀ server request,
    filed (api.handle server (.register request)) ⊆ insert request.form.site (filed server)
  deregister : ∀ server request, filed (api.handle server (.deregister request)) ⊆ filed server
  act : ∀ server e, filed (api.act server e) ⊆ filed server
  reply : ∀ server (config : NacosConfig) name hosts,
    api.reply server (config.listRequest name) = .decoded hosts →
      ∀ h ∈ hosts, config.site (config.instanceOf name h) ∈ filed server

/-- A registry with this configuration has the site on its list of the service. -/
def Lists (config : NacosConfig) (server : ν) (site : NacosSite) : Prop :=
  ∃ list, config.listInstances (api.reply server) site.serviceName = .ok list
    ∧ ∃ e ∈ list, config.site e = site

/-- What it lists it goes on listing, until it is asked to take it off. -/
structure Keeps (config : NacosConfig) : Prop where
  register : ∀ server request site, api.Lists config server site →
    api.Lists config (api.handle server (.register request)) site
  deregister : ∀ server request site, request.form.site ≠ site → api.Lists config server site →
    api.Lists config (api.handle server (.deregister request)) site

end NacosApi

/-! ## A server that does so -/

namespace NacosServer

variable {server : NacosServer} {site : NacosSite}

def siteOf (r : NacosRecord) : NacosSite :=
  ⟨r.serviceName, r.groupName, r.namespaceId, r.item.ip, r.item.port⟩

/-- The records with `p`. -/
def keep (server : NacosServer) (p : NacosRecord → Prop) [DecidablePred p] : NacosServer where
  records := server.records.filter p
  nodup := server.nodup.sublist (List.filter_sublist.map _)

/-- A server of records.  A deregistration takes off the record of its site in the cluster
`DEFAULT`; by itself the server drops all that are at a site. -/
def api : NacosApi NacosServer NacosSite where
  handle server
    | .register request => server.store request.form
    | .deregister request => server.keep fun r =>
        ¬(siteOf r = request.form.site ∧ r.clusterName = "DEFAULT")
  act server site := server.keep fun r => siteOf r ≠ site
  reply := reply

/-- The sites of the records. -/
def filed (server : NacosServer) : Set NacosSite := {site | ∃ r ∈ server.records, siteOf r = site}

theorem filed_keep {p : NacosRecord → Prop} [DecidablePred p] :
    filed (server.keep p) ⊆ filed server :=
  fun _ ⟨r, hr, hsite⟩ => ⟨r, (List.mem_filter.mp hr).1, hsite⟩

theorem honest_api : api.Honest filed where
  register server request site := by
    rintro ⟨r, hr, rfl⟩
    rcases List.mem_append.mp hr with hold | hnew
    · exact .inr ⟨r, (List.mem_filter.mp hold).1, rfl⟩
    · obtain rfl := List.mem_singleton.mp hnew
      exact .inl rfl
  deregister _ _ := filed_keep
  act _ _ := filed_keep
  reply server config name hosts hreply h hh := by
    obtain rfl := ListReply.decoded.inj hreply
    obtain ⟨r, hr, rfl⟩ := List.mem_map.mp hh
    obtain ⟨hmem, hasked⟩ := List.mem_filter.mp hr
    obtain ⟨reg, rfl⟩ : ∃ reg : NacosRegistry, reg.config = config := ⟨⟨config, "", none⟩, rfl⟩
    obtain ⟨hname, hgroup, hnamespace, -⟩ :=
      NacosRegistry.asked_iff.mp (of_decide_eq_true hasked)
    refine ⟨r, hmem, ?_⟩
    rw [siteOf, hname, hgroup, hnamespace]
    rfl

/-- A site is listed where it has a healthy record. -/
theorem lists_iff {config : NacosConfig} : api.Lists config server site
    ↔ config.active ∧ site.groupName = config.registration.group
      ∧ site.namespaceId = config.namespace
      ∧ ∃ r ∈ server.records, siteOf r = site ∧ r.item.healthy := by
  obtain ⟨reg, rfl⟩ : ∃ reg : NacosRegistry, reg.config = config := ⟨⟨config, "", none⟩, rfl⟩
  constructor
  · rintro ⟨list, hlist, e, he, hsite⟩
    rw [NacosConfig.listInstances] at hlist
    split_ifs at hlist with hactive
    · obtain rfl := Except.ok.inj hlist
      simp only [List.map_map, List.mem_map, List.mem_filter, decide_eq_true_eq] at he
      obtain ⟨r, ⟨hr, hasked⟩, rfl⟩ := he
      obtain ⟨hname, hgroup, hnamespace, hhealthy⟩ := NacosRegistry.asked_iff.mp hasked
      refine ⟨hactive, (congrArg NacosSite.groupName hsite).symm,
        (congrArg NacosSite.namespaceId hsite).symm, r, hr, Eq.trans ?_ hsite, hhealthy⟩
      rw [siteOf, hname, hgroup, hnamespace]
      rfl
    · obtain rfl := Except.ok.inj hlist
      cases he
  · rintro ⟨hactive, hgroup, hnamespace, r, hr, rfl, hhealthy⟩
    refine ⟨_, by rw [NacosConfig.listInstances, if_pos hactive]; rfl,
      reg.config.instanceOf r.serviceName r.item, ?_, ?_⟩
    · simp only [List.map_map, List.mem_map, List.mem_filter, decide_eq_true_eq]
      exact ⟨r, ⟨hr, NacosRegistry.asked_iff.mpr ⟨rfl, hgroup, hnamespace, hhealthy⟩⟩, rfl⟩
    · rw [siteOf, show r.groupName = _ from hgroup, show r.namespaceId = _ from hnamespace]
      rfl

theorem keeps_api (config : NacosConfig) : api.Keeps config where
  register server request site h := by
    obtain ⟨hactive, hgroup, hnamespace, r, hr, rfl, hhealthy⟩ := lists_iff.mp h
    refine lists_iff.mpr ⟨hactive, hgroup, hnamespace, ?_⟩
    by_cases hkey : r.key = request.form.record.key
    · -- the record makes way for one of the same site
      refine ⟨request.form.record, List.mem_append_right _ (List.mem_singleton_self _), ?_, rfl⟩
      simp only [NacosRecord.key, Prod.mk.injEq] at hkey
      obtain ⟨hname, hgroup, hnamespace, -, hip, hport⟩ := hkey
      simp only [siteOf, hname, hgroup, hnamespace, hip, hport]
    · exact ⟨r, List.mem_append_left _ (List.mem_filter.mpr ⟨hr, decide_eq_true hkey⟩), rfl,
        hhealthy⟩
  deregister server request site hne h := by
    obtain ⟨hactive, hgroup, hnamespace, r, hr, rfl, hhealthy⟩ := lists_iff.mp h
    exact lists_iff.mpr ⟨hactive, hgroup, hnamespace, r, List.mem_filter.mpr
      ⟨hr, decide_eq_true fun hsite => hne hsite.1.symm⟩, rfl, hhealthy⟩

end NacosServer

/-! ## The processes -/

/-- A process: its registry, and its requests that are on their way. -/
structure NacosProcess where
  registry : NacosRegistry
  flying : List NacosRequest

/-- A process calls `register` or `deregister`, or one of its requests arrives, or is lost. -/
inductive NacosLabel
  | register (inst : ServiceInstance)
  | deregister
  | arrive (n : ℕ)
  | lose (n : ℕ)

/-- One step of a process, with the request that arrives. -/
def NacosProcess.step (p : NacosProcess) : NacosLabel → Option (NacosProcess × Option NacosRequest)
  | .register inst =>
    let called := p.registry.register inst
    some (⟨called.1, p.flying ++ (called.2.map .register).toList⟩, none)
  | .deregister =>
    let called := p.registry.deregister
    some (⟨called.1, p.flying ++ (called.2.map .deregister).toList⟩, none)
  | .arrive n => p.flying[n]?.map fun request =>
      ({ p with flying := p.flying.eraseIdx n }, some request)
  | .lose n => p.flying[n]?.map fun _ => ({ p with flying := p.flying.eraseIdx n }, none)

namespace NacosProcess

variable {reg : NacosRegistry} {A : ServiceInstance → Prop} {B : NacosRequest → Prop}
  {p p' : NacosProcess} {l : NacosLabel} {arrived : Option NacosRequest}

/-- A process whose registry began as `reg`: it remembers an instance in `A` or none, and sends
requests in `B`. -/
structure Bound (reg : NacosRegistry) (A : ServiceInstance → Prop) (B : NacosRequest → Prop)
    (p : NacosProcess) : Prop where
  registry : ∃ registered, p.registry = { reg with registeredInstance := registered }
    ∧ ∀ inst ∈ registered, A inst
  flying : ∀ request ∈ p.flying, B request

/-- **What a process has in hand**, if it registers instances in `A`, and these are registered and
deregistered by requests in `B`. -/
theorem Bound.step (h : p.Bound reg A B) (hl : ∀ inst, l = .register inst → A inst)
    (hregister : ∀ inst, A inst → reg.config.active → B (.register (reg.registerRequest inst)))
    (hderegister : ∀ inst, A inst → reg.config.active →
      B (.deregister (reg.deregisterRequest inst)))
    (hstep : p.step l = some (p', arrived)) :
    p'.Bound reg A B ∧ ∀ request ∈ arrived, B request := by
  obtain ⟨⟨registered, hregistry, hregistered⟩, hflying⟩ := h
  have herase : ∀ n, ∀ request ∈ p.flying.eraseIdx n, B request :=
    fun n request hrequest => hflying request ((List.eraseIdx_sublist _ _).subset hrequest)
  cases l with
  | register inst =>
    obtain ⟨rfl, rfl⟩ := Prod.mk.inj (Option.some.inj hstep)
    refine ⟨?_, by simp⟩
    rw [hregistry, NacosRegistry.register]
    split_ifs with hactive
    · refine ⟨⟨some inst, rfl, by simpa using hl inst rfl⟩, fun request hrequest => ?_⟩
      rcases List.mem_append.mp hrequest with hold | hnew
      · exact hflying request hold
      · obtain rfl := List.mem_singleton.mp hnew
        exact hregister inst (hl inst rfl) hactive
    · exact ⟨⟨registered, rfl, hregistered⟩, by simpa using hflying⟩
  | deregister =>
    obtain ⟨rfl, rfl⟩ := Prod.mk.inj (Option.some.inj hstep)
    refine ⟨?_, by simp⟩
    rw [hregistry, NacosRegistry.deregister]
    split_ifs with hactive
    · refine ⟨⟨none, rfl, by simp⟩, fun request hrequest => ?_⟩
      rcases List.mem_append.mp hrequest with hold | hnew
      · exact hflying request hold
      · cases registered with
        | none => cases hnew
        | some inst =>
          obtain rfl := List.mem_singleton.mp hnew
          exact hderegister inst (hregistered inst rfl) hactive
    · exact ⟨⟨registered, rfl, hregistered⟩, by simpa using hflying⟩
  | arrive n =>
    obtain ⟨request, hrequest, heq⟩ := Option.map_eq_some_iff.mp hstep
    obtain ⟨rfl, rfl⟩ := Prod.mk.inj heq
    refine ⟨⟨⟨registered, hregistry, hregistered⟩, herase n⟩, fun _ harrived => ?_⟩
    obtain rfl := Option.some.inj harrived
    exact hflying request (List.mem_of_getElem? hrequest)
  | lose n =>
    obtain ⟨request, -, heq⟩ := Option.map_eq_some_iff.mp hstep
    obtain ⟨rfl, rfl⟩ := Prod.mk.inj heq
    exact ⟨⟨⟨registered, hregistry, hregistered⟩, herase n⟩, by simp⟩

end NacosProcess

/-! ## The fleet -/

/-- The processes of a deployment, on one server. -/
structure NacosFleet (ν : Type) where
  server : ν
  process : ℕ → NacosProcess

/-- A process takes a step, or the server does something by itself. -/
inductive NacosFleetLabel (ε : Type)
  | process (j : ℕ) (l : NacosLabel)
  | server (e : ε)

namespace NacosFleet

variable {ν ε : Type} {api : NacosApi ν ε} {server : ν} {F F' : NacosFleet ν}
  {registries : ℕ → NacosRegistry} {l : NacosFleetLabel ε} {w : List (NacosFleetLabel ε)}

/-- Processes that have not registered. -/
def new (server : ν) (registries : ℕ → NacosRegistry) : NacosFleet ν :=
  ⟨server, fun j => ⟨registries j, []⟩⟩

def step (api : NacosApi ν ε) (F : NacosFleet ν) : NacosFleetLabel ε → Option (NacosFleet ν)
  | .process j l => ((F.process j).step l).map fun (p, arrived) =>
      ⟨arrived.elim F.server (api.handle F.server), Function.update F.process j p⟩
  | .server e => some { F with server := api.act F.server e }

/-- What holds of the processes and of the server: each process has in hand what `A` and `B` say,
and `Q` holds of the server. -/
structure Bound (registries : ℕ → NacosRegistry) (A : ℕ → ServiceInstance → Prop)
    (B : NacosRequest → Prop) (Q : ν → Prop) (F : NacosFleet ν) : Prop where
  process : ∀ j, (F.process j).Bound (registries j) (A j) B
  server : Q F.server

variable {A : ℕ → ServiceInstance → Prop} {B : NacosRequest → Prop} {Q : ν → Prop}

/-- **One step of a fleet**: what requests in `B` and the server's own steps preserve of the server
is preserved. -/
theorem Bound.step (h : F.Bound registries A B Q)
    (hl : ∀ j inst, l = .process j (.register inst) → A j inst)
    (hregister : ∀ j inst, A j inst → (registries j).config.active →
      B (.register ((registries j).registerRequest inst)))
    (hderegister : ∀ j inst, A j inst → (registries j).config.active →
      B (.deregister ((registries j).deregisterRequest inst)))
    (hhandle : ∀ server request, B request → Q server → Q (api.handle server request))
    (hact : ∀ server e, l = .server e → Q server → Q (api.act server e))
    (hstep : F.step api l = some F') : F'.Bound registries A B Q := by
  cases l with
  | process j l =>
    obtain ⟨⟨p, arrived⟩, hp, rfl⟩ := Option.map_eq_some_iff.mp hstep
    obtain ⟨hbound, harrived⟩ := (h.process j).step (fun inst heq => hl j inst (heq ▸ rfl))
      (hregister j) (hderegister j) hp
    refine ⟨fun i => ?_, ?_⟩
    · rcases eq_or_ne i j with rfl | hne
      · simpa using hbound
      · simpa [hne] using h.process i
    · cases arrived with
      | none => exact h.server
      | some request => exact hhandle _ request (harrived request rfl) h.server
  | server e =>
    obtain rfl := Option.some.inj hstep
    exact ⟨h.process, hact F.server e rfl h.server⟩

/-! ## What is listed -/

/-- An instance that `config` lists for a service was registered: it stands at the site of an
instance that a process, which is switched on, registered in the calls `A`. -/
def Registered (registries : ℕ → NacosRegistry) (A : ℕ → ServiceInstance → Prop)
    (config : NacosConfig) (name : String) (e : ServiceInstance) : Prop :=
  (∃ item, e = config.instanceOf name item)
    ∧ ∃ j inst, A j inst ∧ (registries j).config.active
      ∧ (registries j).config.site inst = config.site e

/-- The server knows only of sites that were registered, and so do the requests on their way. -/
def Sourced (filed : ν → Set NacosSite) (registries : ℕ → NacosRegistry)
    (A : ℕ → ServiceInstance → Prop) : NacosFleet ν → Prop :=
  let registered (site : NacosSite) : Prop :=
    ∃ j inst, A j inst ∧ (registries j).config.active ∧ (registries j).config.site inst = site
  Bound registries A (fun request => ∀ sent, request = .register sent → registered sent.form.site)
    fun server => ∀ site ∈ filed server, registered site

variable {filed : ν → Set NacosSite}

theorem sourced_new (hfresh : ∀ j, (registries j).registeredInstance = none)
    (hempty : filed server = ∅) : (new server registries).Sourced filed registries A where
  process j := ⟨⟨none, by rw [← hfresh j]; rfl, by simp⟩, by simp [new]⟩
  server site hsite := by simp [new, hempty] at hsite

theorem Sourced.step (h : F.Sourced filed registries A) (hhonest : api.Honest filed)
    (hl : ∀ j inst, l = .process j (.register inst) → A j inst)
    (hstep : F.step api l = some F') : F'.Sourced filed registries A := by
  refine Bound.step h hl (fun j inst hinst hactive sent heq => ?_) (by simp)
    (fun server request hrequest hQ site hsite => ?_)
    (fun server e _ hQ site hsite => hQ site (hhonest.act server e hsite)) hstep
  · obtain rfl := NacosRequest.register.inj heq
    exact ⟨j, inst, hinst, hactive, rfl⟩
  · cases request with
    | register sent =>
      rcases hhonest.register server sent hsite with rfl | hold
      · exact hrequest sent rfl
      · exact hQ site hold
    | deregister sent => exact hQ site (hhonest.deregister server sent hsite)

theorem sourced_of_run (hhonest : api.Honest filed)
    (hfresh : ∀ j, (registries j).registeredInstance = none) (hempty : filed server = ∅)
    (hrun : run (step api) (new server registries) w = some F) :
    F.Sourced filed registries fun j inst => .process j (.register inst) ∈ w :=
  invariant_run (C := fun _ l => l ∈ w)
    (fun _ _ _ h hl hstep => h.step hhonest (fun _ _ heq => heq ▸ hl) hstep)
    (sourced_new hfresh hempty) (eachStep_of_forall_mem fun _ hl => hl) hrun

theorem Sourced.registered (h : F.Sourced filed registries A) (hhonest : api.Honest filed)
    {config : NacosConfig} {name : String} {list : List ServiceInstance}
    (hlist : config.listInstances (api.reply F.server) name = .ok list) {e : ServiceInstance}
    (he : e ∈ list) : Registered registries A config name e := by
  rw [NacosConfig.listInstances] at hlist
  split_ifs at hlist with hactive
  · split at hlist
    case h_1 hosts hreply =>
      obtain rfl := Except.ok.inj hlist
      obtain ⟨item, hitem, rfl⟩ := List.mem_map.mp he
      obtain ⟨j, inst, hinst, hon, hsite⟩ :=
        h.server _ (hhonest.reply _ config name hosts hreply item hitem)
      exact ⟨⟨item, rfl⟩, j, inst, hinst, hon, hsite⟩
    all_goals
      obtain rfl := Except.ok.inj hlist
      cases he
  · obtain rfl := Except.ok.inj hlist
    cases he

/-- **What is listed has been registered.**  However the calls of the processes overlap, whatever
requests are overtaken, come late or get lost, and whatever the server does by itself, an instance
that a registry lists for a service has the service, group, namespace and address of an instance
that was handed to a `register` of a process that is switched on. -/
theorem listed_posted (hhonest : api.Honest filed) (server : ν) (hempty : filed server = ∅)
    (registries : ℕ → NacosRegistry) (hfresh : ∀ j, (registries j).registeredInstance = none)
    (hrun : run (step api) (new server registries) w = some F) (config : NacosConfig)
    (name : String) {list : List ServiceInstance}
    (hlist : config.listInstances (api.reply F.server) name = .ok list) {e : ServiceInstance}
    (he : e ∈ list) :
    Registered registries (fun j inst => .process j (.register inst) ∈ w) config name e :=
  (sourced_of_run hhonest hfresh hempty hrun).registered hhonest hlist he

/-! ## What is never taken back -/

/-- A site is listed, no process remembers it, and no deregistration of it is on its way. -/
structure Abandoned (api : NacosApi ν ε) (config : NacosConfig) (site : NacosSite)
    (F : NacosFleet ν) : Prop where
  listed : api.Lists config F.server site
  forgotten : ∀ j, ∀ inst ∈ (F.process j).registry.registeredInstance,
    (F.process j).registry.config.site inst ≠ site
  flying : ∀ j sent, .deregister sent ∈ (F.process j).flying → sent.form.site ≠ site

/-- No process registers at the site, and the server does not take it off its lists by itself. -/
def Elsewhere (api : NacosApi ν ε) (config : NacosConfig) (registries : ℕ → NacosRegistry)
    (site : NacosSite) : NacosFleetLabel ε → Prop
  | .process j (.register inst) => (registries j).config.site inst ≠ site
  | .process _ _ => True
  | .server e => ∀ server, api.Lists config server site → api.Lists config (api.act server e) site

variable {config : NacosConfig} {site : NacosSite} {u : List (NacosFleetLabel ε)}

/-- An abandoned site, for processes whose registries began as `registries`. -/
theorem Abandoned.bound (h : F.Abandoned api config site)
    (hfresh : ∀ j, (registries j).registeredInstance = none)
    (hrun : run (step api) (new server registries) u = some F) :
    F.Bound registries (fun j inst => (registries j).config.site inst ≠ site)
      (fun request => ∀ sent, request = .deregister sent → sent.form.site ≠ site)
      fun server => api.Lists config server site := by
  have hregistry : F.Bound registries (fun _ _ => True) (fun _ => True) fun _ => True :=
    preserved_run (I := fun F : NacosFleet ν =>
        F.Bound registries (fun _ _ => True) (fun _ => True) fun _ => True)
      (fun _ _ _ h hstep => h.step (by simp) (by simp) (by simp) (by simp) (by simp) hstep)
      ⟨fun j => ⟨⟨none, by rw [← hfresh j]; rfl, by simp⟩, by simp⟩, trivial⟩ hrun
  refine ⟨fun j => ⟨?_, fun request hrequest sent heq => h.flying j sent (heq ▸ hrequest)⟩,
    h.listed⟩
  obtain ⟨registered, heq, -⟩ := (hregistry.process j).registry
  have hforgotten := h.forgotten j
  rw [heq] at hforgotten
  exact ⟨registered, heq, hforgotten⟩

theorem elsewhere_step (hkeeps : api.Keeps config)
    (h : F.Bound registries (fun j inst => (registries j).config.site inst ≠ site)
      (fun request => ∀ sent, request = .deregister sent → sent.form.site ≠ site)
      fun server => api.Lists config server site)
    (hl : Elsewhere api config registries site l) (hstep : F.step api l = some F') :
    F'.Bound registries (fun j inst => (registries j).config.site inst ≠ site)
      (fun request => ∀ sent, request = .deregister sent → sent.form.site ≠ site)
      fun server => api.Lists config server site := by
  refine h.step (fun j inst heq => ?_) (by simp) (fun j inst hinst _ sent heq => ?_)
    (fun server request hrequest hlists => ?_) (fun server e heq hlists => ?_) hstep
  · subst heq
    exact hl
  · obtain rfl := NacosRequest.deregister.inj heq
    exact hinst
  · cases request with
    | register sent => exact hkeeps.register server sent site hlists
    | deregister sent => exact hkeeps.deregister server sent site (hrequest sent rfl) hlists
  · subst heq
    exact hl server hlists

/-- **What no process remembers, no process takes back**: from any state on in which a site is
listed, no process remembers it and no deregistration of it is on its way, it stays listed, whatever
processes register elsewhere and deregister, until the server takes it off by itself. -/
theorem abandoned_listed (hkeeps : api.Keeps config) (server : ν) (registries : ℕ → NacosRegistry)
    (hfresh : ∀ j, (registries j).registeredInstance = none)
    (hstart : run (step api) (new server registries) u = some F)
    (h : F.Abandoned api config site) (hw : ∀ l ∈ w, Elsewhere api config registries site l)
    (hrun : run (step api) F w = some F') : api.Lists config F'.server site :=
  (invariant_run (C := fun _ => Elsewhere api config registries site)
    (fun _ _ _ h hl hstep => elsewhere_step hkeeps h hl hstep) (h.bound hfresh hstart)
    (eachStep_of_forall_mem hw) hrun).server

/-! ## Two processes -/

def order : ServiceInstance := .simple "order-svc" "10.0.0.1" 8080

/-- The same service at another address. -/
def moved : ServiceInstance := .simple "order-svc" "10.0.0.3" 8080

def stock : ServiceInstance := .simple "stock-svc" "10.0.0.2" 8080

/-- Process 0 registers and moves, while process 1 registers another service. -/
def moving : List (NacosFleetLabel NacosSite) :=
  [.process 0 (.register order), .process 0 (.arrive 0), .process 1 (.register stock),
    .process 0 (.register moved), .process 0 (.arrive 0)]

/-- Process 0 deregisters; the request of process 1 comes late. -/
def leaving : List (NacosFleetLabel NacosSite) :=
  [.process 0 .deregister, .process 1 (.arrive 0), .process 0 (.arrive 0)]

def start : NacosFleet NacosServer :=
  new NacosRegistry.emptyServer fun _ => NacosRegistry.localNacos

def away : NacosFleet NacosServer :=
  (run (step NacosServer.api) start moving).get (by decide +kernel)

def ended : NacosFleet NacosServer :=
  (run (step NacosServer.api) away leaving).get (by decide +kernel)

/-- What `ended` lists of `order-svc`. -/
theorem list_ended : NacosRegistry.localNacos.config.listInstances
    (NacosServer.api.reply ended.server) "order-svc"
      = .ok [NacosRegistry.localNacos.listedAs order] := by decide +kernel

/-- `listed_posted` for what is listed in the end. -/
theorem listed_posted_ended : Registered (fun _ => NacosRegistry.localNacos)
    (fun j inst => .process j (.register inst) ∈ moving ++ leaving)
    NacosRegistry.localNacos.config "order-svc" (NacosRegistry.localNacos.listedAs order) :=
  listed_posted NacosServer.honest_api NacosRegistry.emptyServer
    (by simp [NacosServer.filed, NacosRegistry.emptyServer])
    (fun _ => NacosRegistry.localNacos) (fun _ => rfl)
    (run_append_eq_some.mpr ⟨away, (Option.some_get _).symm, (Option.some_get _).symm⟩) _ _
    list_ended (List.mem_singleton_self _)

/-- A process that takes no step stays as it is. -/
theorem process_of_run {j : ℕ} (hw : ∀ l ∈ w, ∀ l', l ≠ .process j l')
    (hrun : run (step api) F w = some F') : F'.process j = F.process j :=
  invariant_run (I := fun F₁ : NacosFleet ν => F₁.process j = F.process j)
    (C := fun _ l => ∀ l', l ≠ .process j l') (fun F₁ l F₂ h hl hstep => by
      cases l with
      | process i l =>
        obtain ⟨s, -, rfl⟩ := Option.map_eq_some_iff.mp hstep
        have hne : j ≠ i := fun heq => hl l (heq ▸ rfl)
        simpa [hne] using h
      | server e =>
        obtain rfl := Option.some.inj hstep
        exact h) rfl (eachStep_of_forall_mem hw) hrun

/-- Where process 0 was first, nobody comes back to. -/
theorem abandoned_away : away.Abandoned NacosServer.api NacosRegistry.localNacos.config
    (NacosRegistry.localNacos.config.site order) := by
  have hothers : ∀ j, away.process (j + 2) = start.process (j + 2) := fun j =>
    process_of_run (by simp [moving]) (Option.some_get _).symm
  refine ⟨NacosServer.lists_iff.mpr ?_, fun j => ?_, fun j => ?_⟩
  · decide +kernel
  · match j with
    | 0 | 1 => decide +kernel
    | j + 2 => simp [hothers, start, new, NacosRegistry.localNacos]
  · intro sent hsent
    let registers : NacosRequest → Bool
      | .register _ => true
      | .deregister _ => false
    have hall : (away.process j).flying.all registers := by
      match j with
      | 0 | 1 => decide +kernel
      | j + 2 => simp [hothers, start, new]
    exact absurd (List.all_eq_true.mp hall _ hsent) Bool.false_ne_true

/-- `abandoned_listed` for a process that leaves: its first address is still listed. -/
theorem abandoned_listed_leaving : NacosServer.api.Lists NacosRegistry.localNacos.config
    ended.server (NacosRegistry.localNacos.config.site order) :=
  abandoned_listed (NacosServer.keeps_api _) NacosRegistry.emptyServer
    (fun _ => NacosRegistry.localNacos) (fun _ => rfl) (Option.some_get _).symm abandoned_away
    (by simp [leaving, Elsewhere]) (Option.some_get _).symm

end NacosFleet

end PecsRegistry
