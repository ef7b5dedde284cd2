import PecsRegistry.Selector.Churn

/-!
# Selector/Overflow — when a weighted selection overflows

Nothing bounds the weights that come in, and the sums of a selection are checked: an overflow is a
panic under the write lock.  If a service's lists name at most `N` ids over a run, and no list pays
one id more than `M`, then every sum of every selection is within `N·M` of zero; and a list that
pays `N` ids `M` each has `N·M` for its total.  So no such run overflows, if and only if `N·M` is an
`isize` (`never_overflows_iff`).
-/

open Transition

namespace PecsRegistry

namespace WeightedRoundRobinSelector

variable {calls : List SelectCall} {svc : String}

/-- The ids that a service's lists name, over a run. -/
def idsOf (svc : String) (calls : List SelectCall) : Finset String :=
  ((calls.filter fun call => call.1.serviceName = svc).flatMap
    fun call => call.2.map (·.serviceId)).toFinset

/-- The lists of each service name at most `N` ids, and none pays an id more than `M`. -/
structure Drawn (N : String → ℕ) (M : String → ℤ) (calls : List SelectCall) : Prop where
  ids : ∀ svc, (idsOf svc calls).card ≤ N svc
  pay : ∀ call ∈ calls, ∀ id, payOf call.2 id ≤ M call.1.serviceName

/-- **A run that is drawn from few ids of little weight never overflows.** -/
theorem Drawn.isSome_serve {N : String → ℕ} {M : String → ℤ} (h : Drawn N M calls)
    (hM : ∀ svc, 0 ≤ M svc) (hfits : ∀ svc, N svc * M svc ≤ isizeMax) :
    (serve select new calls).isSome := by
  have hcalls : ∀ call ∈ calls,
      Within (idsOf call.1.serviceName calls) (M call.1.serviceName) call.2
        ∧ (idsOf call.1.serviceName calls).card * M call.1.serviceName ≤ isizeMax := by
    intro call hcall
    refine ⟨⟨fun id hid => ?_, h.pay call hcall⟩, ?_⟩
    · rw [idsOf, List.mem_toFinset, List.mem_flatMap]
      exact ⟨call, List.mem_filter.mpr ⟨hcall, by simp⟩, List.mem_toFinset.mp hid⟩
    · have hcard : ((idsOf call.1.serviceName calls).card : ℤ) ≤ N call.1.serviceName := by
        exact_mod_cast h.ids call.1.serviceName
      exact (mul_le_mul_of_nonneg_right hcard (hM _)).trans (hfits call.1.serviceName)
  obtain ⟨answers, hserve⟩ :=
    (kept_new (fun svc => idsOf svc calls) hM).serve_eq_unbounded hM hcalls
  exact Option.isSome_iff_exists.mpr ⟨_, hserve⟩

/-! ## A list of the greatest total -/

/-- The instance under another id. -/
def withId (id : String) (inst : ServiceInstance) : ServiceInstance := { inst with serviceId := id }

def nthId (k : ℕ) : String := String.ofList (List.replicate k 'x')

theorem nthId_injective : Function.Injective nthId := fun i j h => by
  have hlength := congrArg (fun s : String => s.toList.length) h
  simpa [nthId] using hlength

/-- The same instances under `n` ids. -/
def repeated (copies : List ServiceInstance) (n : ℕ) : List ServiceInstance :=
  (List.range n).flatMap fun k => copies.map (withId (nthId k))

theorem repeated_succ (copies : List ServiceInstance) (n : ℕ) :
    repeated copies (n + 1) = repeated copies n ++ copies.map (withId (nthId n)) := by
  rw [repeated, List.range_succ, List.flatMap_append, List.flatMap_singleton, repeated]

theorem sum_map_withId (copies : List ServiceInstance) (id : String) :
    ((copies.map (withId id)).map quantisedWeight).sum = (copies.map quantisedWeight).sum := by
  rw [List.map_map]
  rfl

theorem sum_repeated (copies : List ServiceInstance) (n : ℕ) :
    ((repeated copies n).map quantisedWeight).sum = n * (copies.map quantisedWeight).sum := by
  induction n with
  | zero => simp [repeated]
  | succ n ih =>
    rw [repeated_succ, List.map_append, List.sum_append, ih, sum_map_withId]
    push_cast
    ring

theorem mem_ids_repeated {copies : List ServiceInstance} {n : ℕ} {id : String}
    (h : id ∈ (repeated copies n).map (·.serviceId)) : ∃ k < n, nthId k = id := by
  obtain ⟨inst, hinst, rfl⟩ := List.mem_map.mp h
  obtain ⟨k, hk, hinst⟩ := List.mem_flatMap.mp hinst
  obtain ⟨i, -, rfl⟩ := List.mem_map.mp hinst
  exact ⟨k, List.mem_range.mp hk, rfl⟩

theorem payOf_repeated_le (copies : List ServiceInstance) (n : ℕ) (id : String) :
    payOf (repeated copies n) id ≤ (copies.map quantisedWeight).sum := by
  induction n with
  | zero => exact sum_quantisedWeight_nonneg copies
  | succ n ih =>
    rw [repeated_succ, payOf_append]
    by_cases hid : id = nthId n
    · -- the ids before the last are others
      have hbefore : payOf (repeated copies n) id = 0 := payOf_of_notMem fun hmem => by
        obtain ⟨k, hk, hkid⟩ := mem_ids_repeated hmem
        exact hk.ne (nthId_injective (hkid.trans hid))
      rw [hbefore, zero_add, ← sum_map_withId copies (nthId n), payOf]
      exact (List.filter_sublist.map quantisedWeight).sum_le_sum fun q hq => by
        obtain ⟨i, -, rfl⟩ := List.mem_map.mp hq
        exact (by norm_num : (0 : ℤ) ≤ 100).trans (hundred_le_quantisedWeight i)
    · have hlast : payOf (copies.map (withId (nthId n))) id = 0 := payOf_of_notMem fun hmem => by
        obtain ⟨i, hi, rfl⟩ := List.mem_map.mp hmem
        obtain ⟨j, -, rfl⟩ := List.mem_map.mp hi
        exact hid rfl
      rw [hlast, add_zero]
      exact ih

/-- A run of one selection on it. -/
def heavyCall (svc : String) (copies : List ServiceInstance) (n : ℕ) : List SelectCall :=
  [(SelectContext.new svc, repeated copies n)]

theorem card_idsOf_heavyCall_le (svc svc' : String) (copies : List ServiceInstance) (n : ℕ) :
    (idsOf svc' (heavyCall svc copies n)).card ≤ if svc = svc' then n else 0 := by
  by_cases hsvc : svc = svc'
  · rw [if_pos hsvc, ← Finset.card_range n]
    refine (Finset.card_le_card fun id hid => ?_).trans
      (Finset.card_image_le (s := Finset.range n) (f := nthId))
    have hmem : id ∈ (repeated copies n).map (·.serviceId) := by
      simpa [idsOf, heavyCall, SelectContext.new, hsvc] using hid
    obtain ⟨k, hk, rfl⟩ := mem_ids_repeated hmem
    exact Finset.mem_image_of_mem nthId (Finset.mem_range.mpr hk)
  · simp [idsOf, heavyCall, SelectContext.new, hsvc]

/-- A selection that does not overflow has an `isize` for its total. -/
theorem sum_le_of_isSome_select {sel : WeightedRoundRobinSelector} {ctx : SelectContext}
    {l : List ServiceInstance} (hn : 2 ≤ l.length) (h : (sel.select (ctx, l)).isSome) :
    (l.map quantisedWeight).sum ≤ isizeMax := by
  obtain ⟨out, hout⟩ := Option.isSome_iff_exists.mp h
  rw [select_of_two_le sel ctx hn, zipIdx_eq_map_finRange] at hout
  obtain ⟨t, ht, -⟩ := Option.bind_eq_some_iff.mp hout
  obtain ⟨htotal, hle⟩ := foldlM_weigh_total ht (by norm_num [tally, isizeMax])
  have hsum : t.totalWeight = (l.map quantisedWeight).sum := by
    rw [htotal, ← Fin.sum_univ_def]
    exact (zero_add _).trans (listWeight_eq_total l).symm
  exact hsum ▸ hle

theorem quantisedWeight_le (inst : ServiceInstance) : quantisedWeight inst ≤ isizeMax := by
  rw [quantisedWeight, asIsize]
  exact max_le (by norm_num [isizeMin, isizeMax]) (min_le_left _ _)

/-- **Weighted selection never overflows, exactly where `N·M` fits.**  Over every run whose lists
name at most `N` ids of each service, and pay one id at most as much as some instances listed under
one id do, no sum of any selection overflows, if and only if `N` times that is an `isize`. -/
theorem never_overflows_iff (N : String → ℕ) (copies : String → List ServiceInstance) :
    (∀ calls, Drawn N (fun svc => ((copies svc).map quantisedWeight).sum) calls →
        (serve select new calls).isSome)
      ↔ ∀ svc, N svc * ((copies svc).map quantisedWeight).sum ≤ isizeMax := by
  constructor
  · intro h svc
    have hdrawn : Drawn N (fun svc => ((copies svc).map quantisedWeight).sum)
        (heavyCall svc (copies svc) (N svc)) := by
      refine ⟨fun svc' => ?_, fun call hcall id => ?_⟩
      · refine (card_idsOf_heavyCall_le svc svc' (copies svc) (N svc)).trans ?_
        split_ifs with hsvc
        · rw [hsvc]
        · exact Nat.zero_le _
      · obtain rfl := List.mem_singleton.mp hcall
        exact payOf_repeated_le (copies svc) (N svc) id
    rw [← sum_repeated]
    rcases hlist : repeated (copies svc) (N svc) with - | ⟨i, - | ⟨j, rest⟩⟩
    · norm_num [isizeMax]
    · rw [List.map_singleton, List.sum_singleton]
      exact quantisedWeight_le i
    · obtain ⟨⟨answers, sel⟩, hserve⟩ := Option.isSome_iff_exists.mp (h _ hdrawn)
      obtain ⟨r, sel', rs, hr, -, -⟩ := serve_cons_eq_some.mp hserve
      rw [hlist] at hr
      exact sum_le_of_isSome_select (by simp) (Option.isSome_iff_exists.mpr ⟨_, hr⟩)
  · exact fun hfits calls hdrawn =>
      hdrawn.isSome_serve (fun svc => sum_quantisedWeight_nonneg (copies svc)) hfits

/-- **Two instances that claim an enormous weight** overflow the total at the first selection. -/
theorem heavy_pair_overflows : ¬ ∀ calls : List SelectCall, (serve select new calls).isSome := by
  intro h
  exact absurd (h [(SelectContext.new "svc",
    [(ServiceInstance.simple "svc" "a" 80).withWeight (10 ^ 18),
      (ServiceInstance.simple "svc" "b" 80).withWeight (10 ^ 18)])]) (by decide +kernel)

end WeightedRoundRobinSelector

end PecsRegistry
