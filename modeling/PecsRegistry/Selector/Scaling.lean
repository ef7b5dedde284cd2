import PecsRegistry.Machinery.Circle
import PecsRegistry.Selector.ConsistentHash

/-!
# Selector/Scaling — what a new instance re-routes

With a cold cache a selection is the clockwise successor of its hash on the ring of its list.  The
ring of a list with one more instance has the same points and those of the newcomer, so a request
goes to the newcomer or where it went before (`select_scaling`), as long as no two instances share a
point.
-/

open Circle

namespace PecsRegistry

namespace ConsistentHashSelector

variable {count : ℕ} {l : List ServiceInstance} {ctx : SelectContext} {t : UInt64}

/-- The ring of a service has to be built, with as many virtual nodes as asked for. -/
def Cold (sel : ConsistentHashSelector) (count : ℕ) (serviceName : String) : Prop :=
  sel.virtualNodes = max count 1 ∧ sel.rings.lookup serviceName = none

/-- No two instances of a ring share a point. -/
def NoCollision (ring : List VirtualNode) : Prop :=
  ∀ n ∈ ring, ∀ n' ∈ ring, n.hash = n'.hash → n.serviceId = n'.serviceId

instance (ring : List VirtualNode) : Decidable (NoCollision ring) :=
  inferInstanceAs (Decidable (∀ n ∈ ring, ∀ n' ∈ ring, _))

/-! ## The ring of a list -/

theorem mem_buildRing {node : VirtualNode} :
    node ∈ buildRing count l ↔ ∃ inst ∈ l, node ∈ vnodesOf count inst.serviceId := by
  rw [buildRing, List.mem_insertionSort, List.mem_flatMap]

/-- A point belongs to the instance it was made for. -/
theorem serviceId_of_mem_vnodesOf {id : String} {node : VirtualNode}
    (h : node ∈ vnodesOf count id) : node.serviceId = id := by
  obtain ⟨v, -, rfl⟩ := List.mem_map.mp h
  rfl

/-- Where a node stands on the circle of the hashes. -/
def place (node : VirtualNode) : ℕ := node.hash.toNat

theorem pairwise_buildRing (count : ℕ) (l : List ServiceInstance) :
    (buildRing count l).Pairwise fun n n' => place n ≤ place n' := by
  have : Std.Total fun a b : VirtualNode => a.hash ≤ b.hash :=
    ⟨fun a b => by
      simpa only [UInt64.le_iff_toNat_le] using le_total a.hash.toNat b.hash.toNat⟩
  have : IsTrans VirtualNode fun a b => a.hash ≤ b.hash :=
    ⟨fun a b c => by simpa only [UInt64.le_iff_toNat_le] using le_trans⟩
  exact (List.pairwise_insertionSort (fun a b : VirtualNode => a.hash ≤ b.hash) _).imp
    fun h => UInt64.le_iff_toNat_le.mp h

theorem buildRing_ne_nil (hl : l ≠ []) : buildRing (max count 1) l ≠ [] := by
  obtain ⟨inst, hmem⟩ := List.exists_mem_of_ne_nil l hl
  have hpos : 0 < max count 1 := by omega
  exact List.ne_nil_of_mem
    (mem_buildRing.mpr ⟨inst, hmem, List.mem_map_of_mem (List.mem_range.mpr hpos)⟩)

/-- The binary search finds the clockwise successor. -/
theorem getElem?_clockwiseIdx (ring : List VirtualNode) (t : UInt64) :
    ring[clockwiseIdx ring t]? = nextOn place ring t.toNat := by
  have hfind : (ring.find? fun n => t.toNat ≤ place n)
      = ring[ring.findIdx fun n => t ≤ n.hash]? := by
    simp only [place, ← UInt64.le_iff_toNat_le]
    exact List.find?_eq_getElem?_findIdx
  rw [nextOn, hfind, clockwiseIdx, binarySearchByKey]
  generalize (ring.findIdx fun n => t ≤ n.hash) = i
  split_ifs with hexact
  · obtain ⟨node, hnode, -⟩ := Option.map_eq_some_iff.mp hexact
    rw [hnode, Option.some_or]
  · dsimp only
    split_ifs with hend
    · rw [List.getElem?_eq_none hend, Option.none_or, List.head?_eq_getElem?]
    · rw [List.getElem?_eq_getElem (not_le.mp hend), Option.some_or]

/-! ## A cold selection -/

/-- A cold selector builds the ring of the list. -/
theorem select_eq_route {sel : ConsistentHashSelector} (hcold : sel.Cold count ctx.serviceName)
    (hn : 2 ≤ l.length) :
    (sel.select (ctx, l)).map Prod.fst = route (buildRing (max count 1) l) ctx l := by
  obtain ⟨cached, hcached, -⟩ | ⟨cache, rfl, hget⟩ := getOrBuildRing_cases sel ctx.serviceName l
  · simp [hcold.2] at hcached
  · rw [select_of_two_le _ ctx hn, Option.map_map, hget, hcold.1]
    exact Option.map_id'

/-- **Routing goes to a clockwise successor**: of the hash it routes by, on the ring of a list; the
owner of that point is found in the list at hand, which has the same instances. -/
theorem route_successor {l' : List ServiceInstance} (hl : l ≠ []) (hperm : l'.Perm l)
    (ctx : SelectContext) :
    ∃ node ∈ buildRing (max count 1) l, ∃ inst ∈ l', inst.serviceId = node.serviceId
      ∧ Clockwise {a | ∃ n ∈ buildRing (max count 1) l, place n = a}
          (fnv1aHash (routingKey ctx)).toNat (place node)
      ∧ route (buildRing (max count 1) l) ctx l' = some (some inst) := by
  have hne : buildRing (max count 1) l ≠ [] := buildRing_ne_nil hl
  obtain ⟨node, hnode⟩ : ∃ node, nextOn place (buildRing (max count 1) l)
      (fnv1aHash (routingKey ctx)).toNat = some node := by
    rw [← getElem?_clockwiseIdx]
    exact ⟨_, List.getElem?_eq_getElem (clockwiseIdx_lt hne _)⟩
  have hmem := mem_of_nextOn hnode
  obtain ⟨inst₀, hinst₀, hown⟩ := mem_buildRing.mp hmem
  obtain ⟨inst, hfind⟩ : ∃ inst, l'.find? (fun i => i.serviceId = node.serviceId) = some inst :=
    Option.isSome_iff_exists.mp (List.find?_isSome.mpr
      ⟨inst₀, hperm.mem_iff.mpr hinst₀, by simp [serviceId_of_mem_vnodesOf hown]⟩)
  refine ⟨node, hmem, inst, List.mem_of_find?_eq_some hfind, by simpa using List.find?_some hfind,
    clockwise_nextOn (pairwise_buildRing _ l) hnode, ?_⟩
  rw [route, if_neg (by simpa using hne), getElem?_clockwiseIdx, hnode, Option.map_some, hfind,
    Option.some_or]

/-- A list of one instance has no other. -/
theorem head?_of_mem {inst : ServiceInstance} (hn : l.length < 2) (h : inst ∈ l) :
    l.head? = some inst := by
  rcases l with _ | ⟨only, _ | ⟨_, _⟩⟩
  · cases h
  · rw [List.mem_singleton.mp h]
    rfl
  · rw [List.length_cons, List.length_cons] at hn
    omega

/-- **A cold selection is a clockwise successor**: of the hash it routes by, on the ring of its
list; the owner of that point is selected. -/
theorem select_of_cold {sel : ConsistentHashSelector} (hcold : sel.Cold count ctx.serviceName)
    (hl : l ≠ []) :
    ∃ node ∈ buildRing (max count 1) l, ∃ inst ∈ l, inst.serviceId = node.serviceId
      ∧ Clockwise {a | ∃ n ∈ buildRing (max count 1) l, place n = a}
          (fnv1aHash (routingKey ctx)).toNat (place node)
      ∧ (sel.select (ctx, l)).map Prod.fst = some (some inst) := by
  obtain ⟨node, hnode, inst, hinst, hown, hclock, hroute⟩ :=
    @route_successor count l l hl (.refl l) ctx
  refine ⟨node, hnode, inst, hinst, hown, hclock, ?_⟩
  rcases lt_or_ge l.length 2 with hn | hn
  · -- one instance owns every point
    rw [select_of_lt_two sel ctx hn, head?_of_mem hn hinst]
    rfl
  · rw [select_eq_route hcold hn, hroute]

/-- **A new instance re-routes only to itself.**  Where no two instances share a point, a selection
on the list with one more instance, wherever it is inserted, selects the newcomer or what is
selected without it. -/
theorem select_scaling {l₁ l₂ : List ServiceInstance} {x : ServiceInstance} (hne : l₁ ++ l₂ ≠ [])
    (hid : ((l₁ ++ l₂).map (·.serviceId)).Nodup)
    (hx : x.serviceId ∉ (l₁ ++ l₂).map (·.serviceId))
    (hsep : NoCollision (buildRing (max count 1) (l₁ ++ x :: l₂)))
    {sel sel' : ConsistentHashSelector} (hcold : sel.Cold count ctx.serviceName)
    (hcold' : sel'.Cold count ctx.serviceName) :
    (sel'.select (ctx, l₁ ++ x :: l₂)).map Prod.fst = some (some x)
      ∨ ∃ inst, (sel.select (ctx, l₁ ++ l₂)).map Prod.fst = some (some inst)
        ∧ (sel'.select (ctx, l₁ ++ x :: l₂)).map Prod.fst = some (some inst) := by
  obtain ⟨node, hnode, inst, hinst, hown, hclock, hselect⟩ := select_of_cold hcold hne
  obtain ⟨node', hnode', inst', hinst', hown', hclock', hselect'⟩ :=
    select_of_cold (l := l₁ ++ x :: l₂) hcold' (by simp)
  have hwider : ∀ {n}, n ∈ buildRing (max count 1) (l₁ ++ l₂) →
      n ∈ buildRing (max count 1) (l₁ ++ x :: l₂) := by
    intro n hn
    obtain ⟨i, hi, hv⟩ := mem_buildRing.mp hn
    exact mem_buildRing.mpr ⟨i, by simp only [List.mem_append, List.mem_cons] at hi ⊢; tauto, hv⟩
  have hsplit : inst' = x ∨ inst' ∈ l₁ ++ l₂ := by
    simp only [List.mem_append, List.mem_cons] at hinst' ⊢
    tauto
  rcases hsplit with rfl | hold
  · exact .inl hselect'
  -- the point belongs to an instance that was there before, so it was the successor before
  have hpoint : node' ∈ buildRing (max count 1) (l₁ ++ l₂) := by
    obtain ⟨i, -, hv⟩ := mem_buildRing.mp hnode'
    have hi : inst'.serviceId = i.serviceId := hown'.trans (serviceId_of_mem_vnodesOf hv)
    exact mem_buildRing.mpr ⟨inst', hold, hi ▸ hv⟩
  have hsub : {a | ∃ n ∈ buildRing (max count 1) (l₁ ++ l₂), place n = a}
      ⊆ {a | ∃ n ∈ buildRing (max count 1) (l₁ ++ x :: l₂), place n = a} := by
    rintro _ ⟨n, hn, rfl⟩
    exact ⟨n, hwider hn, rfl⟩
  have hsame : place node' = place node :=
    (hclock'.of_subset hsub ⟨node', hpoint, rfl⟩).unique hclock
  have howner := hsep node' hnode' node (hwider hnode) (UInt64.toNat_inj.mp hsame)
  obtain rfl : inst' = inst := List.inj_on_of_nodup_map hid hold hinst
    (hown'.trans (howner.trans hown.symm))
  exact .inr ⟨inst', hselect, hselect'⟩

theorem cold_withVirtualNodes (count : ℕ) (svc : String) :
    (withVirtualNodes count).Cold count svc := ⟨rfl, by simp [withVirtualNodes]⟩

/-- A cache service that grows from two instances to three. -/
theorem select_scaling_third :
    ((withVirtualNodes 2).select (cacheCall ["a", "c", "b"])).map Prod.fst = some (some (node "c"))
      ∨ ∃ inst, ((withVirtualNodes 2).select (cacheCall ["a", "b"])).map Prod.fst
            = some (some inst)
          ∧ ((withVirtualNodes 2).select (cacheCall ["a", "c", "b"])).map Prod.fst
            = some (some inst) :=
  @select_scaling 2 _ [node "a"] [node "b"] (node "c") (by simp) (by decide +kernel)
    (by decide +kernel) (by decide +kernel) _ _ (cold_withVirtualNodes 2 _)
    (cold_withVirtualNodes 2 _)

end ConsistentHashSelector

end PecsRegistry
