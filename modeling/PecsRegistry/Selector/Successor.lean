import PecsRegistry.Selector.Scaling

/-!
# Selector/Successor — the nearest virtual node, whatever the order of the list

Told by arithmetic, a consistent-hash selection picks the instance that owns the virtual node whose
hash is the least far ahead of the key's, modulo `2^64` (`Owns`).  Nothing in that depends on the
order of the list; nor does the ring, where no two instances share a point (`buildRing_perm`), so a
cached ring serves every order of the list it was built from (`selects_successor`).
-/

open Circle Transition

namespace PecsRegistry

namespace ConsistentHashSelector

variable {count : ℕ} {l l' : List ServiceInstance} {ctx : SelectContext} {t : UInt64}
  {inst inst' : ServiceInstance} {svc : String} {sel sel' : ConsistentHashSelector}

/-- The instance owns a virtual node whose hash is the least far ahead of `t`. -/
def Owns (count : ℕ) (l : List ServiceInstance) (t : UInt64) (inst : ServiceInstance) : Prop :=
  inst ∈ l ∧ ∃ node ∈ vnodesOf count inst.serviceId,
    ∀ i ∈ l, ∀ n ∈ vnodesOf count i.serviceId, node.hash - t ≤ n.hash - t

instance (count : ℕ) (l : List ServiceInstance) (t : UInt64) (inst : ServiceInstance) :
    Decidable (Owns count l t inst) :=
  inferInstanceAs (Decidable (_ ∧ _))

/-- No two instances of the list share a point. -/
def NoSharedPoint (count : ℕ) (l : List ServiceInstance) : Prop :=
  ∀ i ∈ l, ∀ j ∈ l, ∀ n ∈ vnodesOf count i.serviceId, ∀ m ∈ vnodesOf count j.serviceId,
    n.hash = m.hash → i.serviceId = j.serviceId

instance (count : ℕ) (l : List ServiceInstance) : Decidable (NoSharedPoint count l) :=
  inferInstanceAs (Decidable (∀ i ∈ l, _))

/-- **One instance owns the nearest point.** -/
theorem Owns.unique (h : Owns count l t inst) (h' : Owns count l t inst')
    (hsep : NoSharedPoint count l) : inst.serviceId = inst'.serviceId := by
  obtain ⟨hmem, node, hnode, hleast⟩ := h
  obtain ⟨hmem', node', hnode', hleast'⟩ := h'
  have hsame : node.hash - t = node'.hash - t :=
    UInt64.le_antisymm (hleast inst' hmem' node' hnode') (hleast' inst hmem node hnode)
  refine hsep inst hmem inst' hmem' node hnode node' hnode' ?_
  rw [← UInt64.sub_add_cancel node.hash t, hsame, UInt64.sub_add_cancel]

/-- The clockwise successor on the ring is the nearest point. -/
theorem owns_of_clockwise {node : VirtualNode} (hnode : node ∈ buildRing count l)
    (hinst : inst ∈ l) (hown : inst.serviceId = node.serviceId)
    (hclock : Clockwise {a | ∃ n ∈ buildRing count l, place n = a} t.toNat (place node)) :
    Owns count l t inst := by
  refine ⟨hinst, node, ?_, fun i hi n hn => ?_⟩
  · obtain ⟨i, -, hv⟩ := mem_buildRing.mp hnode
    rwa [hown, serviceId_of_mem_vnodesOf hv]
  · have hle := hclock.ahead_le (UInt64.toNat_lt t) (fun m hm => by
      obtain ⟨n, -, rfl⟩ := hm
      exact UInt64.toNat_lt n.hash) ⟨n, mem_buildRing.mpr ⟨i, hi, hn⟩, rfl⟩
    rw [UInt64.le_iff_toNat_le, UInt64.toNat_sub, UInt64.toNat_sub]
    exact hle

/-! ## The order of the list -/

/-- **The ring does not depend on the order of the list**, where no two instances share a point. -/
theorem buildRing_perm (hsep : NoSharedPoint count l) (hperm : l'.Perm l) :
    buildRing count l' = buildRing count l := by
  refine List.Perm.eq_of_pairwise (fun n m hn hm hle hle' => ?_) (pairwise_buildRing count l')
    (pairwise_buildRing count l) ?_
  · obtain ⟨i, hi, hn⟩ := mem_buildRing.mp hn
    obtain ⟨j, hj, hm⟩ := mem_buildRing.mp hm
    have hhash : n.hash = m.hash := UInt64.toNat_inj.mp (le_antisymm hle hle')
    have hid := hsep i (hperm.mem_iff.mp hi) j hj n hn m hm hhash
    rw [← serviceId_of_mem_vnodesOf hn, ← serviceId_of_mem_vnodesOf hm] at hid
    obtain ⟨hash, id⟩ := n
    obtain ⟨hash', id'⟩ := m
    obtain rfl : hash = hash' := hhash
    obtain rfl : id = id' := hid
    rfl
  · exact (List.perm_insertionSort _ _).trans
      ((hperm.flatMap_right _).trans (List.perm_insertionSort _ _).symm)

/-! ## Runs -/

/-- The ring cached for the service, if there is one, is the ring of the list. -/
structure RingOf (count : ℕ) (svc : String) (l : List ServiceInstance)
    (sel : ConsistentHashSelector) : Prop where
  virtualNodes : sel.virtualNodes = count
  ring : ∀ cached, sel.rings.lookup svc = some cached → cached.ring = buildRing count l

theorem Cold.ringOf (h : sel.Cold count svc) : RingOf (max count 1) svc l sel :=
  ⟨h.1, fun cached hcached => by simp [h.2] at hcached⟩

theorem RingOf.getOrBuildRing (h : RingOf count svc l sel) (hsep : NoSharedPoint count l)
    (hperm : l'.Perm l) : (sel.getOrBuildRing svc l').1.ring = buildRing count l
      ∧ RingOf count svc l (sel.getOrBuildRing svc l').2 := by
  obtain ⟨cached, hcached, -, hget⟩ | ⟨cache, hcache, hget⟩ := getOrBuildRing_cases sel svc l'
  · rw [hget]
    exact ⟨h.ring cached hcached, h⟩
  · have hring : cache.ring = buildRing count l := by
      rw [hcache, h.virtualNodes]
      exact buildRing_perm hsep hperm
    rw [hget]
    refine ⟨hring, h.virtualNodes, fun cached hcached => ?_⟩
    rw [Finmap.lookup_insert] at hcached
    obtain rfl := Option.some.inj hcached
    exact hring

/-- A call for another service leaves the ring alone. -/
theorem RingOf.select_of_ne (h : RingOf count svc l sel) (hne : svc ≠ ctx.serviceName)
    {r : Option ServiceInstance} (hselect : sel.select (ctx, l') = some (r, sel')) :
    RingOf count svc l sel' := by
  rcases lt_or_ge l'.length 2 with hn | hn
  · rw [select_of_lt_two sel ctx hn] at hselect
    obtain ⟨-, rfl⟩ := Prod.mk.inj (Option.some.inj hselect)
    exact h
  · rw [select_of_two_le sel ctx hn] at hselect
    obtain ⟨chosen, -, heq⟩ := Option.map_eq_some_iff.mp hselect
    obtain ⟨-, rfl⟩ := Prod.mk.inj heq
    obtain ⟨cached, -, -, hget⟩ | ⟨cache, -, hget⟩ :=
      getOrBuildRing_cases sel ctx.serviceName l'
    · rw [hget]
      exact h
    · rw [hget]
      exact ⟨h.virtualNodes, fun cached hcached =>
        h.ring cached ((Finmap.lookup_insert_of_ne _ hne).symm.trans hcached)⟩

/-- **A selection on the ring of the list**, in whatever order it is passed. -/
theorem RingOf.select (h : RingOf (max count 1) ctx.serviceName l sel) (hl : l ≠ [])
    (hsep : NoSharedPoint (max count 1) l) (hperm : l'.Perm l) :
    ∃ inst sel', sel.select (ctx, l') = some (some inst, sel')
      ∧ Owns (max count 1) l (fnv1aHash (routingKey ctx)) inst
      ∧ RingOf (max count 1) ctx.serviceName l sel' := by
  obtain ⟨node, hnode, inst, hinst, hown, hclock, hroute⟩ :=
    @route_successor count l l' hl hperm ctx
  have howns := owns_of_clockwise hnode (hperm.mem_iff.mp hinst) hown hclock
  rcases lt_or_ge l'.length 2 with hn | hn
  · exact ⟨inst, sel, by rw [select_of_lt_two sel ctx hn, head?_of_mem hn hinst], howns, h⟩
  · obtain ⟨hring, h'⟩ := h.getOrBuildRing hsep hperm
    exact ⟨inst, _, by rw [select_of_two_le sel ctx hn, hring, hroute, Option.map_some], howns, h'⟩

theorem exists_select (sel : ConsistentHashSelector) (call : SelectCall) :
    ∃ r sel', sel.select call = some (r, sel') := by
  obtain ⟨ctx, l⟩ := call
  rcases lt_or_ge l.length 2 with hn | hn
  · exact ⟨_, _, select_of_lt_two sel ctx hn⟩
  · obtain ⟨chosen, hchosen⟩ := Option.isSome_iff_exists.mp
      (route_isSome (sel.getOrBuildRing ctx.serviceName l).1.ring ctx l)
    exact ⟨chosen, _, by rw [select_of_two_le sel ctx hn, hchosen, Option.map_some]⟩

theorem RingOf.serve (h : RingOf (max count 1) svc l sel) (hl : l ≠ [])
    (hsep : NoSharedPoint (max count 1) l) {calls : List SelectCall}
    (hcalls : ∀ call ∈ calls, call.1.serviceName = svc → call.2.Perm l) :
    ∃ answers sel', serve ConsistentHashSelector.select sel calls = some (answers, sel')
      ∧ ∀ p ∈ calls.zip answers, p.1.1.serviceName = svc →
        ∃ inst, p.2 = some inst ∧ Owns (max count 1) l (fnv1aHash (routingKey p.1.1)) inst := by
  induction calls generalizing sel with
  | nil => exact ⟨[], sel, rfl, by simp⟩
  | cons call calls ih =>
    obtain ⟨ctx, l'⟩ := call
    have hrest := fun c hc => hcalls c (List.mem_cons_of_mem _ hc)
    obtain ⟨r, sel₁, hr, h₁, hfirst⟩ : ∃ r sel₁, sel.select (ctx, l') = some (r, sel₁)
        ∧ RingOf (max count 1) svc l sel₁ ∧ (ctx.serviceName = svc →
          ∃ inst, r = some inst ∧ Owns (max count 1) l (fnv1aHash (routingKey ctx)) inst) := by
      by_cases hsvc : ctx.serviceName = svc
      · subst hsvc
        obtain ⟨inst, sel₁, hr, howns, h₁⟩ :=
          h.select hl hsep (hcalls _ List.mem_cons_self rfl)
        exact ⟨_, sel₁, hr, h₁, fun _ => ⟨inst, rfl, howns⟩⟩
      · obtain ⟨r, sel₁, hr⟩ := sel.exists_select (ctx, l')
        exact ⟨r, sel₁, hr, h.select_of_ne (Ne.symm hsvc) hr, fun hsvc' => absurd hsvc' hsvc⟩
    obtain ⟨rs, sel₂, hrs, howns⟩ := ih h₁ hrest
    refine ⟨r :: rs, sel₂, serve_cons_eq_some.mpr ⟨r, sel₁, rs, hr, hrs, rfl⟩, fun p hp => ?_⟩
    rcases List.mem_cons.mp hp with rfl | hp
    · exact hfirst
    · exact howns p hp

/-- **The clockwise successor, whatever the order of the list.**  On a selector whose cache is cold
for the service, each call for it, with its list in any order, is answered with the instance that
owns the virtual node least far ahead of the hash of the key; so calls with the same key are
answered with the same id. -/
theorem selects_successor (hl : l ≠ []) (hid : (l.map (·.serviceId)).Nodup)
    (hsep : NoSharedPoint (max count 1) l) (hcold : sel.Cold count svc) {calls : List SelectCall}
    (hcalls : ∀ call ∈ calls, call.1.serviceName = svc → call.2.Perm l) :
    ∃ answers sel', serve select sel calls = some (answers, sel')
      ∧ (∀ p ∈ calls.zip answers, p.1.1.serviceName = svc → ∃ inst, p.2 = some inst
        ∧ Owns (max count 1) l (fnv1aHash (routingKey p.1.1)) inst)
      ∧ ∀ p ∈ calls.zip answers, ∀ q ∈ calls.zip answers, p.1.1.serviceName = svc →
        q.1.1.serviceName = svc → routingKey p.1.1 = routingKey q.1.1 → p.2 = q.2 := by
  obtain ⟨answers, sel', hserve, howns⟩ := hcold.ringOf.serve hl hsep hcalls
  refine ⟨answers, sel', hserve, howns, fun p hp q hq hpsvc hqsvc hkey => ?_⟩
  obtain ⟨inst, hinst, ho⟩ := howns p hp hpsvc
  obtain ⟨inst', hinst', ho'⟩ := howns q hq hqsvc
  rw [← hkey] at ho'
  rw [hinst, hinst', List.inj_on_of_nodup_map hid ho.1 ho'.1 (ho.unique ho' hsep)]

/-- `selects_successor` on a cache service that is listed in two orders. -/
theorem selects_successor_reordered : ∃ answers sel',
    serve select (withVirtualNodes 2) [cacheCall ["a", "b"], cacheCall ["b", "a"]]
        = some (answers, sel')
      ∧ ∀ p ∈ [cacheCall ["a", "b"], cacheCall ["b", "a"]].zip answers,
        p.1.1.serviceName = "cache-svc" → ∃ inst, p.2 = some inst
          ∧ Owns 2 (cacheCall ["a", "b"]).2 (fnv1aHash (routingKey p.1.1)) inst := by
  obtain ⟨answers, sel', hserve, howns, -⟩ := @selects_successor 2 (cacheCall ["a", "b"]).2
    "cache-svc" (withVirtualNodes 2) (by simp [cacheCall]) (by decide +kernel) (by decide +kernel)
    (cold_withVirtualNodes 2 _) [cacheCall ["a", "b"], cacheCall ["b", "a"]] (by decide +kernel)
  exact ⟨answers, sel', hserve, howns⟩

end ConsistentHashSelector

end PecsRegistry
