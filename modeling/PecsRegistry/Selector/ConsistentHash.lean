import PecsRegistry.Machinery.Transition
import PecsRegistry.Selector.Context
import Mathlib.Data.List.Sort

/-!
# Selector/ConsistentHash — consistent hashing with a ring cache

A selection hashes its routing key and walks clockwise to the next virtual node of the service's
ring.  The ring is cached by service, under a fingerprint of the list it was built from; the
fingerprint hashes the ids run together, so lists that split the same bytes differently share one.

`agrees_of_separated` says what the cache needs: successive lists of one service with the same
fingerprint must list the same ids.  Otherwise the ring of the earlier list answers for the later
one (`stale_ring`).
-/

open Transition

namespace PecsRegistry

/-! ## Hashing -/

/-- The FNV-1a loop over the bytes of a string. -/
def fnvBytes (hash : UInt64) (s : String) : UInt64 :=
  s.toUTF8.data.toList.foldl (fun h b => (h ^^^ b.toUInt64) * 0x100000001b3) hash

/-- FNV-1a, followed by a mixer. -/
def fnv1aHash (s : String) : UInt64 :=
  let hash := fnvBytes 0xcbf29ce484222325 s
  let hash := (hash ^^^ (hash >>> 33)) * 0xff51afd7ed558ccd
  let hash := (hash ^^^ (hash >>> 33)) * 0xc4ceb9fe1a85ec53
  hash ^^^ (hash >>> 33)

/-- The fingerprint of a list: FNV-1a over its ids, one after another. -/
def computeFingerprint (instances : List ServiceInstance) : UInt64 :=
  instances.foldl (fun h inst => fnvBytes h inst.serviceId) 0xcbf29ce484222325

/-! ## Rings -/

/-- A point of the ring, and the instance that owns it. -/
structure VirtualNode where
  hash : UInt64
  serviceId : String
deriving DecidableEq

/-- The ring of a service, with the fingerprint of the list it was built from. -/
structure RingCache where
  fingerprint : UInt64
  ring : List VirtualNode
deriving DecidableEq

/-- The virtual nodes of one instance. -/
def vnodesOf (count : ℕ) (serviceId : String) : List VirtualNode :=
  (List.range count).map fun v => ⟨fnv1aHash (serviceId ++ "#v" ++ toString v), serviceId⟩

/-- The virtual nodes of a list, sorted by hash; the sort is stable. -/
def buildRing (count : ℕ) (instances : List ServiceInstance) : List VirtualNode :=
  (instances.flatMap fun inst => vnodesOf count inst.serviceId).insertionSort
    fun a b => a.hash ≤ b.hash

/-- Binary search on a sorted ring: `ok` at the first node of that hash, `error` at the place where
one would be inserted. -/
def binarySearchByKey (ring : List VirtualNode) (target : UInt64) : Except ℕ ℕ :=
  let i := ring.findIdx fun n => target ≤ n.hash
  if (ring[i]?.map (·.hash)) = some target then .ok i else .error i

/-- The index of the clockwise successor of a hash; past the last node it is the first. -/
def clockwiseIdx (ring : List VirtualNode) (target : UInt64) : ℕ :=
  match binarySearchByKey ring target with
  | .ok i => i
  | .error i => if ring.length ≤ i then 0 else i

/-- The key a request is routed by: its key, else its client address, else the service name. -/
def routingKey (ctx : SelectContext) : String := (ctx.key.or ctx.clientIp).getD ctx.serviceName

/-! ## The selector -/

/-- The consistent-hash selector: the number of virtual nodes of an instance, and the ring caches
by service. -/
structure ConsistentHashSelector where
  virtualNodes : ℕ
  rings : HashMap String RingCache

namespace ConsistentHashSelector

def withVirtualNodes (virtualNodes : ℕ) : ConsistentHashSelector := ⟨max virtualNodes 1, ∅⟩

/-- The cached ring, if it has the list's fingerprint; else a ring built anew, and cached. -/
def getOrBuildRing (sel : ConsistentHashSelector) (serviceName : String)
    (instances : List ServiceInstance) : RingCache × ConsistentHashSelector :=
  let fingerprint := computeFingerprint instances
  match (sel.rings.lookup serviceName).filter fun cached => cached.fingerprint = fingerprint with
  | some cached => (cached, sel)
  | none =>
    let newCache := ⟨fingerprint, buildRing sel.virtualNodes instances⟩
    (newCache, { sel with rings := sel.rings.insert serviceName newCache })

/-- The instance a ring gives a request; `none` is an index out of range. -/
def route (ring : List VirtualNode) (ctx : SelectContext) (instances : List ServiceInstance) :
    Option (Option ServiceInstance) :=
  if ring.isEmpty then some instances.head?
  else (ring[clockwiseIdx ring (fnv1aHash (routingKey ctx))]?).map fun node =>
    (instances.find? fun inst => inst.serviceId = node.serviceId).or instances.head?

/-- One selection. -/
def select (sel : ConsistentHashSelector) (call : SelectCall) :
    Option (Option ServiceInstance × ConsistentHashSelector) :=
  match call.2 with
  | [] => some (none, sel)
  | [inst] => some (some inst, sel)
  | instances =>
    let r := sel.getOrBuildRing call.1.serviceName instances
    (route r.1.ring call.1 instances).map fun chosen => (chosen, r.2)

theorem select_of_two_le (sel : ConsistentHashSelector) (ctx : SelectContext)
    {l : List ServiceInstance} (hn : 2 ≤ l.length) :
    sel.select (ctx, l)
      = (route (sel.getOrBuildRing ctx.serviceName l).1.ring ctx l).map fun chosen =>
          (chosen, (sel.getOrBuildRing ctx.serviceName l).2) := by
  rcases l with _ | ⟨_, _ | ⟨_, _⟩⟩
  · rw [List.length_nil] at hn
    omega
  · rw [List.length_singleton] at hn
    omega
  · rfl

/-- A list too short for a ring leaves the selector alone. -/
theorem select_of_lt_two (sel : ConsistentHashSelector) (ctx : SelectContext)
    {l : List ServiceInstance} (hn : l.length < 2) : sel.select (ctx, l) = some (l.head?, sel) := by
  rcases l with _ | ⟨_, _ | ⟨_, _⟩⟩
  · rfl
  · rfl
  · rw [List.length_cons, List.length_cons] at hn
    omega

instance : Selector ConsistentHashSelector := ⟨fun sel _ call => sel.select call⟩

theorem mem_of_route {ring : List VirtualNode} {ctx : SelectContext} {l : List ServiceInstance}
    {inst : ServiceInstance} (h : route ring ctx l = some (some inst)) : inst ∈ l := by
  rw [route] at h
  split_ifs at h
  · exact List.mem_of_mem_head? (Option.some.inj h)
  · obtain ⟨node, -, hnode⟩ := Option.map_eq_some_iff.mp h
    rcases Option.or_eq_some_iff.mp hnode with hfind | ⟨-, hhead⟩
    · exact List.mem_of_find?_eq_some hfind
    · exact List.mem_of_mem_head? hhead

theorem mem_of_select {sel sel' : ConsistentHashSelector} {call : SelectCall}
    {inst : ServiceInstance} (h : sel.select call = some (some inst, sel')) : inst ∈ call.2 := by
  obtain ⟨ctx, l⟩ := call
  rcases lt_or_ge l.length 2 with hn | hn
  · rw [select_of_lt_two sel ctx hn] at h
    exact List.mem_of_mem_head? (congrArg Prod.fst (Option.some.inj h))
  · rw [select_of_two_le sel ctx hn] at h
    obtain ⟨chosen, hchosen, heq⟩ := Option.map_eq_some_iff.mp h
    obtain rfl : chosen = some inst := congrArg Prod.fst heq
    exact mem_of_route hchosen

/-! ## A selection is the routing on some ring -/

/-- A ring is decided by the ids of the list. -/
theorem buildRing_congr (count : ℕ) {l l' : List ServiceInstance}
    (h : l.map (·.serviceId) = l'.map (·.serviceId)) : buildRing count l = buildRing count l' := by
  have hf : ∀ l : List ServiceInstance, (l.flatMap fun inst => vnodesOf count inst.serviceId)
      = (l.map (·.serviceId)).flatMap (vnodesOf count) := fun l => by rw [List.flatMap_map]
  rw [buildRing, buildRing, hf, hf, h]

theorem clockwiseIdx_lt {ring : List VirtualNode} (hne : ring ≠ []) (target : UInt64) :
    clockwiseIdx ring target < ring.length := by
  have hpos : 0 < ring.length := List.length_pos_iff.mpr hne
  rw [clockwiseIdx]
  cases hs : binarySearchByKey ring target with
  | ok i =>
    rw [binarySearchByKey] at hs
    split_ifs at hs with h
    obtain ⟨n, hn, -⟩ := Option.map_eq_some_iff.mp h
    obtain rfl := Except.ok.inj hs
    exact (List.getElem?_eq_some_iff.mp hn).1
  | error i =>
    dsimp only
    split_ifs <;> omega

/-- Routing never leaves the ring. -/
theorem route_isSome (ring : List VirtualNode) (ctx : SelectContext)
    (instances : List ServiceInstance) : (route ring ctx instances).isSome := by
  rw [route]
  split_ifs with h
  · rfl
  · have hne : ring ≠ [] := fun h0 => h (by rw [h0]; rfl)
    rw [Option.isSome_map, List.getElem?_eq_getElem (clockwiseIdx_lt hne _)]
    rfl

/-- Everything `getOrBuildRing` does: the cached ring and no change, or a ring built anew. -/
theorem getOrBuildRing_cases (sel : ConsistentHashSelector) (svc : String)
    (l : List ServiceInstance) :
    (∃ cached, sel.rings.lookup svc = some cached ∧ cached.fingerprint = computeFingerprint l
        ∧ sel.getOrBuildRing svc l = (cached, sel))
      ∨ (∃ cache, cache = ⟨computeFingerprint l, buildRing sel.virtualNodes l⟩
        ∧ sel.getOrBuildRing svc l
          = (cache, { sel with rings := sel.rings.insert svc cache })) := by
  rw [getOrBuildRing]
  cases hf : (sel.rings.lookup svc).filter fun c => c.fingerprint = computeFingerprint l with
  | some cached =>
    obtain ⟨hl, hfp⟩ := Option.filter_eq_some_iff.mp hf
    exact Or.inl ⟨cached, hl, by simpa using hfp, rfl⟩
  | none => exact Or.inr ⟨_, rfl, rfl⟩

/-- What a selector with a cold cache answers to one call. -/
def freshId (count : ℕ) (call : SelectCall) : Option (Option String) :=
  ((withVirtualNodes count).select call).map fun r => r.1.map (·.serviceId)

/-- With a cold cache, the ring is the list's own. -/
theorem select_withVirtualNodes (count : ℕ) (ctx : SelectContext) {l : List ServiceInstance}
    (hn : 2 ≤ l.length) : ((withVirtualNodes count).select (ctx, l)).map Prod.fst
      = route (buildRing (max count 1) l) ctx l := by
  rw [select_of_two_le _ ctx hn, Option.map_map]
  obtain ⟨_, hl, -⟩ | ⟨cache, rfl, hr⟩ :=
    getOrBuildRing_cases (withVirtualNodes count) ctx.serviceName l
  · simp [withVirtualNodes] at hl
  · rw [hr]
    exact Option.map_id'

/-! ## The cache over a run -/

/-- The answers of a run, by id, against those of a fresh selector for each call alone. -/
def AgreesWithFresh (count : ℕ) (calls : List SelectCall) : Prop :=
  (serve select (withVirtualNodes count) calls).map
      (fun r => r.1.map fun answer => some (answer.map (·.serviceId)))
    = some (calls.map (freshId count))

instance (count : ℕ) (calls : List SelectCall) : Decidable (AgreesWithFresh count calls) :=
  inferInstanceAs (Decidable (_ = _))

/-- `c` and `d` are successive calls that ask for the ring of one service. -/
def Successive (c : SelectCall) (mid : List SelectCall) (d : SelectCall) : Prop :=
  c.1.serviceName = d.1.serviceName ∧ 2 ≤ c.2.length ∧ 2 ≤ d.2.length
    ∧ ∀ e ∈ mid, e.1.serviceName = d.1.serviceName → e.2.length < 2

/-- Successive lists of one service with the same fingerprint list the same ids. -/
def FingerprintsSeparate (calls : List SelectCall) : Prop :=
  ∀ pre c mid d post, calls = pre ++ c :: mid ++ d :: post → Successive c mid d →
    computeFingerprint c.2 = computeFingerprint d.2 →
      c.2.map (·.serviceId) = d.2.map (·.serviceId)

/-- Each cached ring is the ring of the last list the service was called with. -/
def CachesLast (count : ℕ) (past : List SelectCall) (sel : ConsistentHashSelector) : Prop :=
  sel.virtualNodes = count ∧ ∀ svc cached, sel.rings.lookup svc = some cached →
    ∃ pre c mid, past = pre ++ c :: mid ∧ c.1.serviceName = svc ∧ 2 ≤ c.2.length
      ∧ (∀ e ∈ mid, e.1.serviceName = svc → e.2.length < 2)
      ∧ cached = ⟨computeFingerprint c.2, buildRing count c.2⟩

theorem CachesLast.snoc_of_same {count : ℕ} {past : List SelectCall} {sel : ConsistentHashSelector}
    (h : CachesLast count past sel) {d : SelectCall} (hd : d.2.length < 2) :
    CachesLast count (past ++ [d]) sel := by
  refine ⟨h.1, fun svc cached hl => ?_⟩
  obtain ⟨pre, c, mid, rfl, hsvc, hc, hmid, hcache⟩ := h.2 svc cached hl
  refine ⟨pre, c, mid ++ [d], by simp, hsvc, hc, fun e he hes => ?_, hcache⟩
  rcases List.mem_append.mp he with he | he
  · exact hmid e he hes
  · rwa [List.mem_singleton.mp he]

/-- After a call that asks for a ring, that ring is the service's entry; the others are as
before. -/
theorem CachesLast.snoc_of_ring {count : ℕ} {past : List SelectCall}
    {sel sel' : ConsistentHashSelector} (h : CachesLast count past sel) {d : SelectCall}
    (hd : 2 ≤ d.2.length) (hv : sel'.virtualNodes = count)
    (hself : sel'.rings.lookup d.1.serviceName
      = some ⟨computeFingerprint d.2, buildRing count d.2⟩)
    (hother : ∀ svc, svc ≠ d.1.serviceName → sel'.rings.lookup svc = sel.rings.lookup svc) :
    CachesLast count (past ++ [d]) sel' := by
  refine ⟨hv, fun svc cached hl => ?_⟩
  rcases eq_or_ne svc d.1.serviceName with rfl | hne
  · rw [hself] at hl
    exact ⟨past, d, [], rfl, rfl, hd, fun e he => absurd he (by simp), (Option.some.inj hl).symm⟩
  · rw [hother svc hne] at hl
    obtain ⟨pre, c, mid, rfl, hsvc, hc, hmid, hcache⟩ := h.2 svc cached hl
    refine ⟨pre, c, mid ++ [d], by simp, hsvc, hc, fun e he hes => ?_, hcache⟩
    rcases List.mem_append.mp he with he | he
    · exact hmid e he hes
    · rw [List.mem_singleton.mp he] at hes
      exact absurd hes.symm hne

/-- **One call**: it answers as a fresh selector does, and leaves the ring of its own list cached.
A hit is harmless because the fingerprints of successive lists separate them. -/
theorem CachesLast.select {count : ℕ} {past : List SelectCall} {sel : ConsistentHashSelector}
    (h : CachesLast (max count 1) past sel) {d : SelectCall}
    (hsep : ∀ pre c mid, past = pre ++ c :: mid → Successive c mid d →
      computeFingerprint c.2 = computeFingerprint d.2 →
        c.2.map (·.serviceId) = d.2.map (·.serviceId)) :
    ∃ answer sel', sel.select d = some (answer, sel')
      ∧ freshId count d = some (answer.map (·.serviceId))
      ∧ CachesLast (max count 1) (past ++ [d]) sel' := by
  obtain ⟨ctx, l⟩ := d
  by_cases hd : l.length < 2
  · refine ⟨l.head?, sel, select_of_lt_two sel ctx hd, ?_, h.snoc_of_same hd⟩
    rw [freshId, select_of_lt_two _ ctx hd]
    rfl
  · have hn : 2 ≤ l.length := by omega
    obtain ⟨chosen, hchosen⟩ := Option.isSome_iff_exists.mp
      (route_isSome (buildRing (max count 1) l) ctx l)
    have hfresh : freshId count (ctx, l) = some (chosen.map (·.serviceId)) := by
      have hs := (select_withVirtualNodes count ctx hn).trans hchosen
      obtain ⟨r, hr, hr1⟩ := Option.map_eq_some_iff.mp hs
      rw [freshId, hr, Option.map_some, hr1]
    obtain ⟨cached, hl, hfp, hget⟩ | ⟨cache, rfl, hget⟩ :=
      getOrBuildRing_cases sel ctx.serviceName l
    · obtain ⟨pre, c, mid, hpast, hsvc, hc, hmid, rfl⟩ := h.2 _ _ hl
      have hring := buildRing_congr (max count 1)
        (hsep pre c mid hpast ⟨hsvc, hc, hn, hmid⟩ hfp)
      refine ⟨chosen, sel, ?_, hfresh, h.snoc_of_ring hn h.1 ?_ fun _ _ => rfl⟩
      · rw [select_of_two_le _ ctx hn, hget]
        dsimp only
        rw [hring, hchosen]
        rfl
      · rw [hl, hring]
        exact congrArg (fun fp => some (⟨fp, _⟩ : RingCache)) hfp
    · rw [h.1] at hget
      refine ⟨chosen, ⟨max count 1, sel.rings.insert ctx.serviceName _⟩, ?_, hfresh,
        h.snoc_of_ring hn rfl (Finmap.lookup_insert _)
          fun svc hne => Finmap.lookup_insert_of_ne _ hne⟩
      rw [select_of_two_le _ ctx hn, hget]
      dsimp only
      rw [hchosen]
      rfl

theorem serve_agrees {count : ℕ} {past calls : List SelectCall} {sel : ConsistentHashSelector}
    (h : CachesLast (max count 1) past sel) (hsep : FingerprintsSeparate (past ++ calls)) :
    (serve select sel calls).map (fun r => r.1.map fun answer => some (answer.map (·.serviceId)))
      = some (calls.map (freshId count)) := by
  induction calls generalizing past sel with
  | nil => rfl
  | cons d calls ih =>
    obtain ⟨answer, sel', hsel, hfresh, h'⟩ := h.select fun pre c mid hpast =>
      hsep pre c mid d calls (by rw [hpast])
    have hrest := ih h' (by rwa [List.append_assoc, List.singleton_append])
    obtain ⟨⟨answers, sel''⟩, hserve, hanswers⟩ := Option.map_eq_some_iff.mp hrest
    rw [serve_cons_eq_some.mpr ⟨answer, sel', answers, hsel, hserve, rfl⟩]
    rw [Option.map_some, List.map_cons, List.map_cons, hfresh]
    exact congrArg (fun as => some (_ :: as)) hanswers

/-- **Cached and plain consistent hashing agree**, on every run whose successive lists of one
service have their own fingerprints. -/
theorem agrees_of_separated {count : ℕ} {calls : List SelectCall}
    (hsep : FingerprintsSeparate calls) : AgreesWithFresh count calls :=
  serve_agrees (show CachesLast _ [] (withVirtualNodes count) from
    ⟨rfl, fun svc cached hl => by simp [withVirtualNodes] at hl⟩) hsep

/-- An instance of a cache service, by its id. -/
def node (serviceId : String) : ServiceInstance :=
  ServiceInstance.newHttp serviceId "test" "default" "cache-svc" (Endpoint.new "127.0.0.1" 7001)

/-- A request to the cache service. -/
def cacheCall (ids : List String) : SelectCall :=
  ((SelectContext.new "cache-svc").withKey "k3", ids.map node)

/-- `agrees_of_separated` on a list that grows by a fresh id. -/
theorem agrees_of_separated_scaling :
    AgreesWithFresh 1 [cacheCall ["ab", "c"], cacheCall ["ab", "c", "d"]] := by
  refine agrees_of_separated fun pre c mid d post h _ hfp => ?_
  have hlen := congrArg List.length h
  simp only [List.length_cons, List.length_nil, List.length_append] at hlen
  obtain rfl : pre = [] := List.length_eq_zero_iff.mp (by omega)
  obtain rfl : mid = [] := List.length_eq_zero_iff.mp (by omega)
  obtain ⟨rfl, h'⟩ := List.cons.inj h
  obtain ⟨rfl, -⟩ := List.cons.inj h'
  exact absurd hfp (by decide +kernel)

/-- **A stale ring.**  `ab, c` and `a, bc` share a fingerprint: the second call is routed on the
first call's ring, finds no owner of that id, and falls back to the first instance. -/
theorem stale_ring :
    (∀ call ∈ [cacheCall ["ab", "c"], cacheCall ["a", "bc"]],
        (call.2.map (·.serviceId)).Nodup)
      ∧ ¬ AgreesWithFresh 1 [cacheCall ["ab", "c"], cacheCall ["a", "bc"]] := by
  decide +kernel

end ConsistentHashSelector

end PecsRegistry
