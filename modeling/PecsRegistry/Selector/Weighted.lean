import PecsRegistry.Foundations.Numeric
import PecsRegistry.Machinery.Rotation
import PecsRegistry.Machinery.Transition
import PecsRegistry.Selector.Context
import Mathlib.Algebra.BigOperators.Fin

/-!
# Selector/Weighted — the smooth weighted round-robin selector

`WeightedRoundRobinSelector` keeps, for each service, a current weight for each instance id.  A
selection raises the current weight of every instance of the list by its quantised weight, takes the
first greatest, and charges it the total.  All arithmetic is on `isize`: an overflow is a panic, the
outer `none` of `select`.

On a fixed list the stored weights are the credits of a `Rotation` (`Follows`), so its period is
the schedule of the service (`window_fair`).
-/

open Transition Rotation

namespace PecsRegistry

/-- The smooth weighted round-robin selector: current weights, by service and instance id. -/
structure WeightedRoundRobinSelector where
  state : HashMap String (HashMap String ℤ)

namespace WeightedRoundRobinSelector

def new : WeightedRoundRobinSelector := ⟨∅⟩

/-- The weight of an instance in a selection: `(weight.max(1.0) * 100.0) as isize`. -/
def quantisedWeight (inst : ServiceInstance) : ℤ := asIsize (mulF64 (max inst.weight 1) 100)

/-- What the loop over the instances accumulates. -/
structure Tally where
  serviceWeights : HashMap String ℤ
  totalWeight : ℤ
  bestIdx : Option ℕ
  maxCurrentWeight : ℤ

namespace Tally

/-- The current weight stored for an id, zero if there is none. -/
def current (t : Tally) (serviceId : String) : ℤ := (t.serviceWeights.lookup serviceId).getD 0

/-- One turn of the loop: raise the instance's current weight, and keep the first greatest. -/
def weigh (t : Tally) (p : ServiceInstance × ℕ) : Option Tally := do
  let totalWeight ← isizeAdd t.totalWeight (quantisedWeight p.1)
  let cur ← isizeAdd (t.current p.1.serviceId) (quantisedWeight p.1)
  let serviceWeights := t.serviceWeights.insert p.1.serviceId cur
  if t.maxCurrentWeight < cur then
    some ⟨serviceWeights, totalWeight, some p.2, cur⟩
  else
    some ⟨serviceWeights, totalWeight, t.bestIdx, t.maxCurrentWeight⟩

/-- Charge the chosen instance the total weight. -/
def charge (t : Tally) (serviceId : String) : Option (HashMap String ℤ) :=
  match t.serviceWeights.lookup serviceId with
  | some cur => (isizeSub cur t.totalWeight).map (t.serviceWeights.insert serviceId)
  | none => some t.serviceWeights

end Tally

/-- The tally a selection starts from. -/
def tally (sel : WeightedRoundRobinSelector) (serviceName : String) : Tally :=
  ⟨(sel.state.lookup serviceName).getD ∅, 0, none, isizeMin⟩

/-- After the loop: take the instance at the best index and charge it. -/
def settle (sel : WeightedRoundRobinSelector) (serviceName : String)
    (instances : List ServiceInstance) (t : Tally) :
    Option (Option ServiceInstance × WeightedRoundRobinSelector) :=
  match t.bestIdx with
  | some idx => do
    let chosen ← instances[idx]?
    let serviceWeights ← t.charge chosen.serviceId
    some (some chosen, ⟨sel.state.insert serviceName serviceWeights⟩)
  | none => some (instances.head?, ⟨sel.state.insert serviceName t.serviceWeights⟩)

/-- One selection. -/
def select (sel : WeightedRoundRobinSelector) (call : SelectCall) :
    Option (Option ServiceInstance × WeightedRoundRobinSelector) :=
  match call.2 with
  | [] => some (none, sel)
  | [inst] => some (some inst, sel)
  | instances =>
    (instances.zipIdx.foldlM Tally.weigh (sel.tally call.1.serviceName)).bind
      (sel.settle call.1.serviceName instances)

instance : Selector WeightedRoundRobinSelector := ⟨fun sel _ call => sel.select call⟩

theorem mem_of_settle {sel sel' : WeightedRoundRobinSelector} {svc : String}
    {l : List ServiceInstance} {t : Tally} {inst : ServiceInstance}
    (h : sel.settle svc l t = some (some inst, sel')) : inst ∈ l := by
  rw [settle] at h
  split at h
  case h_1 idx _ =>
    obtain ⟨chosen, hchosen, h⟩ := Option.bind_eq_some_iff.mp h
    obtain ⟨serviceWeights, -, h⟩ := Option.bind_eq_some_iff.mp h
    obtain rfl : chosen = inst := Option.some.inj (congrArg Prod.fst (Option.some.inj h))
    exact List.mem_of_getElem? hchosen
  case h_2 => exact List.mem_of_mem_head? (congrArg Prod.fst (Option.some.inj h))

theorem mem_of_select {sel sel' : WeightedRoundRobinSelector} {call : SelectCall}
    {inst : ServiceInstance} (h : sel.select call = some (some inst, sel')) : inst ∈ call.2 := by
  obtain ⟨ctx, l⟩ := call
  match l with
  | [] => simp [select] at h
  | [i] =>
    obtain ⟨rfl, -⟩ : i = inst ∧ sel = sel' := by simpa [select] using h
    exact List.mem_singleton.mpr rfl
  | i :: j :: rest =>
    obtain ⟨t, -, h⟩ := Option.bind_eq_some_iff.mp h
    exact mem_of_settle h

/-! ## Quantised weights -/

/-- **A quantised weight is at least a hundred.** -/
theorem hundred_le_quantisedWeight (inst : ServiceInstance) : 100 ≤ quantisedWeight inst := by
  refine le_asIsize (by norm_num) (by norm_num [isizeMax]) ?_
  have : (1 : ℚ) ≤ max inst.weight 1 := le_max_right _ _
  exact_mod_cast hundred_le_mulF64 (by linarith)

example : quantisedWeight (ServiceInstance.simple "svc" "h" 80) = 100 := by decide +kernel

/-! ## The loop over the instances -/

namespace Tally

/-- Everything one turn of the loop does. -/
theorem weigh_eq_some {t t' : Tally} {p : ServiceInstance × ℕ} (h : t.weigh p = some t') :
    t'.totalWeight = t.totalWeight + quantisedWeight p.1 ∧ t'.totalWeight ≤ isizeMax
      ∧ t'.serviceWeights = t.serviceWeights.insert p.1.serviceId
          (t.current p.1.serviceId + quantisedWeight p.1)
      ∧ (t'.bestIdx, t'.maxCurrentWeight)
          = if t.maxCurrentWeight < t.current p.1.serviceId + quantisedWeight p.1
            then (some p.2, t.current p.1.serviceId + quantisedWeight p.1)
            else (t.bestIdx, t.maxCurrentWeight) := by
  obtain ⟨tw, htw, h⟩ := Option.bind_eq_some_iff.mp h
  obtain ⟨cur, hcur, h⟩ := Option.bind_eq_some_iff.mp h
  obtain ⟨rfl, -, hmax⟩ := isizeAdd_eq_some htw
  obtain ⟨rfl, -, -⟩ := isizeAdd_eq_some hcur
  split at h
  · rename_i hlt
    obtain rfl := Option.some.inj h
    exact ⟨rfl, hmax, rfl, (if_pos hlt).symm⟩
  · rename_i hlt
    obtain rfl := Option.some.inj h
    exact ⟨rfl, hmax, rfl, (if_neg hlt).symm⟩

theorem current_insert (t : Tally) (serviceId : String) (cur : ℤ) {t' : Tally}
    (h : t'.serviceWeights = t.serviceWeights.insert serviceId cur) (id : String) :
    t'.current id = if id = serviceId then cur else t.current id := by
  rw [current, h]
  by_cases hid : id = serviceId
  · rw [if_pos hid, hid, Finmap.lookup_insert, Option.getD_some]
  · rw [if_neg hid, Finmap.lookup_insert_of_ne _ hid, current]

end Tally

section Loop

variable {l : List ServiceInstance}

/-- The quantised weights of a list, by position. -/
def weights (l : List ServiceInstance) (j : Fin l.length) : ℤ := quantisedWeight (l.get j)

theorem weights_pos (j : Fin l.length) : 0 < weights l j :=
  lt_of_lt_of_le (by norm_num) (hundred_le_quantisedWeight (l.get j))

/-- The id at a position. -/
def idAt (l : List ServiceInstance) (j : Fin l.length) : String := (l.get j).serviceId

theorem idAt_injective (hid : (l.map (·.serviceId)).Nodup) : Function.Injective (idAt l) := by
  intro i j hij
  have hget : l.get i = l.get j := List.inj_on_of_nodup_map hid (l.get_mem i) (l.get_mem j) hij
  exact (List.Nodup.get_inj_iff (List.Nodup.of_map _ hid)).mp hget

/-- The loop sums the weights, and the sum it ends with is an `isize`. -/
theorem foldlM_weigh_total {js : List (Fin l.length)} {t t' : Tally}
    (h : (js.map fun j => (l.get j, j.1)).foldlM Tally.weigh t = some t')
    (hmax : t.totalWeight ≤ isizeMax) :
    t'.totalWeight = t.totalWeight + (js.map (weights l)).sum ∧ t'.totalWeight ≤ isizeMax := by
  induction js generalizing t with
  | nil =>
    obtain rfl := Option.some.inj h
    simpa using hmax
  | cons j js ih =>
    obtain ⟨t₁, ht₁, h⟩ := Option.bind_eq_some_iff.mp h
    obtain ⟨htw, hmax₁, -, -⟩ := Tally.weigh_eq_some ht₁
    obtain ⟨hsum, hle⟩ := ih h hmax₁
    refine ⟨?_, hle⟩
    rw [hsum, htw, List.map_cons, List.sum_cons, add_assoc]
    rfl

/-- The scan has seen some of the vector `v`, and `b` is the first greatest entry so far. -/
def Scanned (v : Fin l.length → ℤ) (t : Tally) (b : Option (Fin l.length)) : Prop :=
  t.bestIdx = b.map Fin.val ∧ t.maxCurrentWeight = (b.map v).getD isizeMin

/-- A turn of the loop is a step of `List.argmax`, as long as the entry is above the start value. -/
theorem Scanned.weigh {v : Fin l.length → ℤ} {t t' : Tally} {b : Option (Fin l.length)}
    (hb : Scanned v t b) {j : Fin l.length} (hv : t.current (idAt l j) + weights l j = v j)
    (hlow : isizeMin < v j) (h : t.weigh (l.get j, j.1) = some t') :
    Scanned v t' (List.argAux (fun x y => v y < v x) b j) := by
  obtain ⟨-, -, -, hbest⟩ := Tally.weigh_eq_some h
  have hcur : t.current (l.get j, j.1).1.serviceId + quantisedWeight (l.get j, j.1).1 = v j := hv
  rw [hcur, hb.1, hb.2] at hbest
  cases b with
  | none => exact Prod.mk.inj (hbest.trans (if_pos hlow))
  | some c =>
    by_cases hc : v c < v j
    · have hstep : List.argAux (fun x y => v y < v x) (some c) j = some j := if_pos hc
      rw [hstep]
      exact Prod.mk.inj (hbest.trans (if_pos hc))
    · have hstep : List.argAux (fun x y => v y < v x) (some c) j = some c := if_neg hc
      rw [hstep]
      exact Prod.mk.inj (hbest.trans (if_neg hc))

/-- **What the loop leaves**, read against the vector `v` of raised current weights: each position
holds its entry, other ids are untouched, and the best index is the first greatest entry. -/
theorem foldlM_weigh (hid : (l.map (·.serviceId)).Nodup) {v : Fin l.length → ℤ}
    {js : List (Fin l.length)} (hnd : js.Nodup) {t t' : Tally} {b : Option (Fin l.length)}
    (hv : ∀ j ∈ js, t.current (idAt l j) + weights l j = v j)
    (hlow : ∀ j ∈ js, isizeMin < v j) (hb : Scanned v t b)
    (h : (js.map fun j => (l.get j, j.1)).foldlM Tally.weigh t = some t') :
    (∀ j ∈ js, t'.serviceWeights.lookup (idAt l j) = some (v j))
      ∧ (∀ id, id ∉ js.map (idAt l) → t'.serviceWeights.lookup id = t.serviceWeights.lookup id)
      ∧ Scanned v t' (js.foldl (List.argAux fun x y => v y < v x) b) := by
  induction js generalizing t b with
  | nil =>
    obtain rfl := Option.some.inj h
    exact ⟨fun j hj => absurd hj (by simp), fun _ _ => rfl, hb⟩
  | cons j js ih =>
    obtain ⟨t₁, ht₁, h⟩ := Option.bind_eq_some_iff.mp h
    obtain ⟨hj, hnd⟩ := List.nodup_cons.mp hnd
    have hw : t₁.serviceWeights = t.serviceWeights.insert (idAt l j) (v j) := by
      rw [← hv j List.mem_cons_self]
      exact (Tally.weigh_eq_some ht₁).2.2.1
    -- Distinct ids: the positions still to come read what they would have read before this turn.
    have hne : ∀ j' ∈ js, idAt l j' ≠ idAt l j := fun j' hj' he =>
      hj (idAt_injective hid he ▸ hj')
    have hv₁ : ∀ j' ∈ js, t₁.current (idAt l j') + weights l j' = v j' := fun j' hj' => by
      rw [Tally.current_insert t _ _ hw, if_neg (hne j' hj')]
      exact hv j' (List.mem_cons_of_mem j hj')
    have hb₁ := hb.weigh (hv j List.mem_cons_self) (hlow j List.mem_cons_self) ht₁
    obtain ⟨hin, hout, hscan⟩ := ih hnd hv₁ (fun j' hj' => hlow j' (List.mem_cons_of_mem j hj'))
      hb₁ h
    refine ⟨fun j' hj' => ?_, fun id hid' => ?_, hscan⟩
    · rcases List.mem_cons.mp hj' with rfl | hmem
      · have hnot : idAt l j' ∉ js.map (idAt l) := fun hm => by
          obtain ⟨k, hk, he⟩ := List.mem_map.mp hm
          exact hne k hk he
        rw [hout _ hnot, hw, Finmap.lookup_insert]
      · exact hin j' hmem
    · rw [List.map_cons, List.mem_cons, not_or] at hid'
      rw [hout id hid'.2, hw, Finmap.lookup_insert_of_ne _ hid'.1]

end Loop

/-! ## One selection on a fixed list -/

theorem select_of_two_le (sel : WeightedRoundRobinSelector) (ctx : SelectContext)
    {l : List ServiceInstance} (hn : 2 ≤ l.length) :
    sel.select (ctx, l) = (l.zipIdx.foldlM Tally.weigh (sel.tally ctx.serviceName)).bind
      (sel.settle ctx.serviceName l) := by
  rcases l with _ | ⟨_, _ | ⟨_, _⟩⟩
  · rw [List.length_nil] at hn
    omega
  · rw [List.length_singleton] at hn
    omega
  · rfl

/-- A list too short for a contest leaves the selector alone. -/
theorem select_of_lt_two (sel : WeightedRoundRobinSelector) (ctx : SelectContext)
    {l : List ServiceInstance} (hn : l.length < 2) : sel.select (ctx, l) = some (l.head?, sel) := by
  rcases l with _ | ⟨_, _ | ⟨_, _⟩⟩
  · rfl
  · rfl
  · rw [List.length_cons, List.length_cons] at hn
    omega

theorem zipIdx_eq_map_finRange (l : List ServiceInstance) :
    l.zipIdx = (List.finRange l.length).map fun j => (l.get j, j.1) := by
  refine List.ext_getElem (by simp) fun i h1 h2 => ?_
  simp

theorem tally_insert_self (sel : WeightedRoundRobinSelector) (svc : String)
    (ws : HashMap String ℤ) (id : String) :
    (tally ⟨sel.state.insert svc ws⟩ svc).current id = (ws.lookup id).getD 0 := by
  rw [Tally.current, tally, Finmap.lookup_insert, Option.getD_some]

/-- A selection for another service leaves this one's weights alone. -/
theorem select_lookup_of_ne {sel sel' : WeightedRoundRobinSelector} {call : SelectCall}
    {r : Option ServiceInstance} {svc : String} (hne : svc ≠ call.1.serviceName)
    (h : sel.select call = some (r, sel')) : sel'.state.lookup svc = sel.state.lookup svc := by
  obtain ⟨ctx, l⟩ := call
  match l with
  | [] => obtain ⟨-, rfl⟩ := Prod.mk.inj (Option.some.inj h); rfl
  | [_] => obtain ⟨-, rfl⟩ := Prod.mk.inj (Option.some.inj h); rfl
  | a :: b :: l =>
    rw [select_of_two_le sel ctx (by simp)] at h
    obtain ⟨t, -, h⟩ := Option.bind_eq_some_iff.mp h
    rw [settle] at h
    split at h
    · obtain ⟨chosen, -, h⟩ := Option.bind_eq_some_iff.mp h
      obtain ⟨ws, -, h⟩ := Option.bind_eq_some_iff.mp h
      obtain ⟨-, rfl⟩ := Prod.mk.inj (Option.some.inj h)
      exact Finmap.lookup_insert_of_ne _ hne
    · obtain ⟨-, rfl⟩ := Prod.mk.inj (Option.some.inj h)
      exact Finmap.lookup_insert_of_ne _ hne

section Fixed

variable {l : List ServiceInstance} (hn : 2 ≤ l.length)

/-- The rotation a selector performs on a list. -/
abbrev turnPick (t : ℕ) : Fin l.length :=
  pickAt (weights l) (firstGreatest (by omega : 0 < l.length)) t

/-- After `k` selections on the list, the weights stored for the service are the credits of the
rotation, and no other id has one. -/
structure Follows (svc : String) (k : ℕ) (sel : WeightedRoundRobinSelector) : Prop where
  stored : ∀ j, (sel.tally svc).current (idAt l j)
    = credit (weights l) (firstGreatest (by omega : 0 < l.length)) k j
  keys : ∀ id c, (sel.tally svc).serviceWeights.lookup id = some c → ∃ j, id = idAt l j

theorem follows_new (svc : String) : Follows hn svc 0 new :=
  ⟨fun _ => rfl, fun _ _ h => by simp [new, tally] at h⟩

include hn in
theorem weights_total_pos : 0 < total (weights l) :=
  Finset.sum_pos (fun j _ => weights_pos j) ⟨⟨0, by omega⟩, Finset.mem_univ _⟩

/-- **What the loop makes of the credits**: each is raised by its weight, and the best index is that
of the turn. -/
theorem Follows.weighed (hid : (l.map (·.serviceId)).Nodup) {svc : String} {k : ℕ}
    {sel : WeightedRoundRobinSelector} (hf : Follows hn svc k sel) {t : Tally}
    (ht : ((List.finRange l.length).map fun j => (l.get j, j.1)).foldlM Tally.weigh (sel.tally svc)
      = some t) :
    t.totalWeight = total (weights l) ∧ t.bestIdx = some (turnPick hn k).1
      ∧ (∀ j, t.serviceWeights.lookup (idAt l j) = some (raise (weights l)
        (credit (weights l) (firstGreatest (by omega : 0 < l.length)) k) j))
      ∧ ∀ id ∉ (List.finRange l.length).map (idAt l),
        t.serviceWeights.lookup id = (sel.tally svc).serviceWeights.lookup id := by
  obtain ⟨htotal, hmax⟩ := foldlM_weigh_total ht (by norm_num [tally, isizeMax])
  have hW : t.totalWeight = total (weights l) := by
    rw [htotal, total, Fin.sum_univ_def]
    exact zero_add _
  -- Every stored weight is above minus the total, so every raised one is above the start value.
  obtain ⟨c, hc⟩ : ∃ c, credit (weights l) (firstGreatest (by omega : 0 < l.length)) k = c :=
    ⟨_, rfl⟩
  have hlow : ∀ j, isizeMin < raise (weights l) c j := fun j => by
    have hcr := neg_total_lt_credit (greatest_firstGreatest (by omega : 0 < l.length))
      weights_pos (weights_total_pos hn) k j
    have hw : 100 ≤ weights l j := hundred_le_quantisedWeight (l.get j)
    rw [hc] at hcr
    rw [hW] at hmax
    simp only [raise, isizeMin, isizeMax] at hmax ⊢
    omega
  obtain ⟨hin, hout, hscan⟩ := foldlM_weigh hid (List.nodup_finRange l.length)
    (fun j _ => (congrArg (· + weights l j) (hf.stored j)).trans (by rw [hc]; rfl))
    (fun j _ => hlow j) (show Scanned _ _ none from ⟨rfl, rfl⟩) ht
  refine ⟨hW, ?_, fun j => hc ▸ hin j (List.mem_finRange j), hout⟩
  have hargmax := argmax_eq_firstGreatest (by omega : 0 < l.length) (raise (weights l) c)
  rw [hscan.1]
  change ((List.finRange l.length).argmax (raise (weights l) c)).map Fin.val = _
  rw [hargmax, ← hc]
  rfl

/-- **One selection is one turn of the rotation.** -/
theorem Follows.select (hid : (l.map (·.serviceId)).Nodup) {ctx : SelectContext} {k : ℕ}
    {sel sel' : WeightedRoundRobinSelector} {r : Option ServiceInstance}
    (hf : Follows hn ctx.serviceName k sel) (h : sel.select (ctx, l) = some (r, sel')) :
    r = some (l.get (turnPick hn k)) ∧ Follows hn ctx.serviceName (k + 1) sel' := by
  rw [select_of_two_le sel ctx hn, zipIdx_eq_map_finRange] at h
  obtain ⟨t, ht, h⟩ := Option.bind_eq_some_iff.mp h
  obtain ⟨hW, hbest, hin, hout⟩ := hf.weighed hn hid ht
  rw [settle, hbest] at h
  obtain ⟨chosen, hchosen, h⟩ := Option.bind_eq_some_iff.mp h
  obtain ⟨ws, hws, h⟩ := Option.bind_eq_some_iff.mp h
  obtain ⟨hr, rfl⟩ := Prod.mk.inj (Option.some.inj h)
  obtain rfl : l.get (turnPick hn k) = chosen := by
    rw [List.getElem?_eq_getElem (turnPick hn k).2] at hchosen
    exact Option.some.inj hchosen
  have hcharge : ws = t.serviceWeights.insert (idAt l (turnPick hn k)) (raise (weights l)
      (credit (weights l) (firstGreatest (by omega : 0 < l.length)) k) (turnPick hn k)
      - total (weights l)) := by
    rw [Tally.charge, show t.serviceWeights.lookup (l.get (turnPick hn k)).serviceId = _ from
      hin (turnPick hn k)] at hws
    obtain ⟨cur, hcur, rfl⟩ := Option.map_eq_some_iff.mp hws
    rw [(isizeAdd_eq_some hcur).1, hW]
    rfl
  refine ⟨hr.symm, fun j => ?_, fun id c' h => ?_⟩
  · rw [tally_insert_self, hcharge, credit, turn]
    change _ = if j = turnPick hn k then _ else _
    by_cases hj : j = turnPick hn k
    · rw [if_pos hj, hj, Finmap.lookup_insert, Option.getD_some]
    · rw [if_neg hj, Finmap.lookup_insert_of_ne _ fun he => hj (idAt_injective hid he), hin j,
        Option.getD_some]
  · rw [tally, Finmap.lookup_insert, Option.getD_some, hcharge] at h
    by_cases hmem : id ∈ (List.finRange l.length).map (idAt l)
    · obtain ⟨j, -, rfl⟩ := List.mem_map.mp hmem
      exact ⟨j, rfl⟩
    · have hne : id ≠ idAt l (turnPick hn k) := fun he =>
        hmem (List.mem_map.mpr ⟨turnPick hn k, List.mem_finRange _, he.symm⟩)
      rw [Finmap.lookup_insert_of_ne _ hne, hout id hmem] at h
      exact hf.keys id c' h

end Fixed

/-! ## The schedule of a service -/

/-- What the selector answered to the calls for one service, in order. -/
def selections (svc : String) (calls : List SelectCall) (answers : List (Option ServiceInstance)) :
    List (Option ServiceInstance) :=
  ((calls.zip answers).filter fun p => p.1.1.serviceName = svc).map Prod.snd

/-- **A run is the rotation**, whatever calls for other services come between. -/
theorem serve_follows {l : List ServiceInstance} (hn : 2 ≤ l.length)
    (hid : (l.map (·.serviceId)).Nodup) {svc : String} {calls : List SelectCall} {k : ℕ}
    {sel sel' : WeightedRoundRobinSelector} {answers : List (Option ServiceInstance)}
    (hf : Follows hn svc k sel) (hfix : ∀ call ∈ calls, call.1.serviceName = svc → call.2 = l)
    (h : serve select sel calls = some (answers, sel')) :
    ∃ n, selections svc calls answers
        = (List.range' k n).map (fun t => some (l.get (turnPick hn t)))
      ∧ Follows hn svc (k + n) sel' := by
  induction calls generalizing k sel answers with
  | nil =>
    obtain ⟨rfl, rfl⟩ := Prod.mk.inj (Option.some.inj h)
    exact ⟨0, rfl, hf⟩
  | cons call calls ih =>
    obtain ⟨r, sel₁, rs, hr, hrs, rfl⟩ := serve_cons_eq_some.mp h
    have hfix' := fun c hc => hfix c (List.mem_cons_of_mem call hc)
    by_cases hsvc : call.1.serviceName = svc
    · obtain ⟨ctx, l'⟩ := call
      obtain rfl : l' = l := hfix _ List.mem_cons_self hsvc
      subst hsvc
      obtain ⟨rfl, hf₁⟩ := hf.select hn hid hr
      obtain ⟨n, hsel, hf'⟩ := ih hf₁ hfix' hrs
      refine ⟨n + 1, ?_, by rwa [Nat.add_right_comm, Nat.add_assoc] at hf'⟩
      rw [List.range'_succ, List.map_cons, ← hsel]
      simp [selections]
    · have hst := select_lookup_of_ne (Ne.symm hsvc) hr
      have hf₁ : Follows hn svc k sel₁ := by
        have htally : sel₁.tally svc = sel.tally svc := by rw [tally, tally, hst]
        exact ⟨fun j => htally ▸ hf.stored j, fun id c hc => hf.keys id c (htally ▸ hc)⟩
      obtain ⟨n, hsel, hf'⟩ := ih hf₁ hfix' hrs
      refine ⟨n, ?_, hf'⟩
      rw [← hsel]
      simp [selections, hsvc]

/-- The sum of the quantised weights of a list. -/
def listWeight (l : List ServiceInstance) : ℤ := (l.map quantisedWeight).sum

/-- The greatest common divisor of the quantised weights of a list. -/
def weightGcd (l : List ServiceInstance) : ℕ :=
  (l.map fun inst => (quantisedWeight inst).natAbs).foldr Nat.gcd 0

/-- The length of the schedule of a list. -/
def period (l : List ServiceInstance) : ℕ := (listWeight l).toNat / weightGcd l

theorem weightGcd_dvd {l : List ServiceInstance} {inst : ServiceInstance} (h : inst ∈ l) :
    (weightGcd l : ℤ) ∣ quantisedWeight inst := by
  rw [Int.natCast_dvd]
  induction l with
  | nil => exact absurd h (by simp)
  | cons a l ih =>
    rcases List.mem_cons.mp h with rfl | hmem
    · exact Nat.gcd_dvd_left _ _
    · exact (Nat.gcd_dvd_right _ _).trans (ih hmem)

theorem weightGcd_pos {l : List ServiceInstance} (hne : l ≠ []) : 0 < weightGcd l := by
  obtain ⟨inst, hmem⟩ := List.exists_mem_of_ne_nil l hne
  have hdvd := weightGcd_dvd hmem
  rcases Nat.eq_zero_or_pos (weightGcd l) with h0 | hpos
  · rw [h0, Nat.cast_zero, zero_dvd_iff] at hdvd
    have := hundred_le_quantisedWeight inst
    omega
  · exact hpos

theorem listWeight_eq_total (l : List ServiceInstance) : listWeight l = total (weights l) := by
  have hl : l.map quantisedWeight = (List.finRange l.length).map (weights l) := by
    conv_lhs => rw [← List.map_get_finRange l, List.map_map]
    rfl
  rw [listWeight, hl, total, Fin.sum_univ_def]

theorem listWeight_eq_period_mul (l : List ServiceInstance) (hn : 2 ≤ l.length) :
    total (weights l) = period l * (weightGcd l : ℤ) := by
  have hpos := weights_total_pos hn
  have hdvd : weightGcd l ∣ (total (weights l)).toNat := by
    rw [← Int.natCast_dvd_natCast, Int.toNat_of_nonneg hpos.le]
    exact Finset.dvd_sum fun j _ => weightGcd_dvd (l.get_mem j)
  rw [period, listWeight_eq_total, ← Nat.cast_mul, Nat.div_mul_cancel hdvd,
    Int.toNat_of_nonneg hpos.le]

theorem period_pos {l : List ServiceInstance} (hn : 2 ≤ l.length) : 0 < period l := by
  have hpos := weights_total_pos hn
  rw [listWeight_eq_period_mul l hn] at hpos
  rcases Nat.eq_zero_or_pos (period l) with h0 | h
  · rw [h0, Nat.cast_zero, zero_mul] at hpos
    omega
  · exact h

section Schedule

variable {svc : String} {l : List ServiceInstance} (hn : 2 ≤ l.length)
  (hid : (l.map (·.serviceId)).Nodup) {calls : List SelectCall}
  (hfix : ∀ call ∈ calls, call.1.serviceName = svc → call.2 = l)
  {answers : List (Option ServiceInstance)} {sel : WeightedRoundRobinSelector}
  (hrun : serve select new calls = some (answers, sel))

include hn in
theorem weightGcd_cast_pos : (0 : ℤ) < weightGcd l := by
  have hne : l ≠ [] := fun h0 => by simp [h0] at hn
  exact_mod_cast weightGcd_pos hne

include hn hid hfix hrun in
/-- A window of one period selects each instance its weight over the common divisor. -/
theorem count_period {t : ℕ} (ht : t + period l ≤ (selections svc calls answers).length)
    {inst : ServiceInstance} (hinst : inst ∈ l) :
    ((((selections svc calls answers).drop t).take (period l)).count (some inst) : ℤ)
      = quantisedWeight inst / weightGcd l := by
  obtain ⟨n, hsel, -⟩ := serve_follows hn hid (follows_new hn svc) hfix hrun
  have hlen : (selections svc calls answers).length = n := by
    rw [hsel, List.length_map, List.length_range']
  obtain ⟨j, rfl⟩ := List.get_of_mem hinst
  have hwin : ((selections svc calls answers).drop t).take (period l)
      = ((List.range' t (period l)).map (turnPick hn)).map fun i => some (l.get i) := by
    rw [hsel, ← List.map_drop, ← List.map_take, List.drop_range',
      List.take_range'_of_length_ge (by omega), List.map_map, Nat.zero_add, Nat.mul_one]
    rfl
  have hinj : Function.Injective fun i => some (l.get i) := fun i i' h =>
    idAt_injective hid (congrArg (·.serviceId) (Option.some.inj h))
  rw [hwin, List.count_map_of_injective _ _ hinj]
  exact count_window (greatest_firstGreatest (by omega)) weights_pos (weightGcd_cast_pos hn)
    (fun j => weightGcd_dvd (l.get_mem j)) (listWeight_eq_period_mul l hn) (period_pos hn) t j

end Schedule

/-- **Smooth weighted fairness.**  A service whose list of at least two instances stays fixed, on a
selector that starts fresh and never overflows: every window of one period selects each instance
its weight over the common divisor, and after a whole number of periods no weight is left over. -/
theorem window_fair {svc : String} {l : List ServiceInstance} (hn : 2 ≤ l.length)
    (hid : (l.map (·.serviceId)).Nodup) {calls : List SelectCall}
    (hfix : ∀ call ∈ calls, call.1.serviceName = svc → call.2 = l)
    {answers : List (Option ServiceInstance)} {sel : WeightedRoundRobinSelector}
    (hrun : serve select new calls = some (answers, sel)) :
    (∀ t, t + period l ≤ (selections svc calls answers).length → ∀ inst ∈ l,
        ((((selections svc calls answers).drop t).take (period l)).count (some inst) : ℤ)
          = quantisedWeight inst / weightGcd l)
      ∧ (∀ k, (selections svc calls answers).length = k * period l →
        ∀ id c, ((sel.state.lookup svc).getD ∅).lookup id = some c → c = 0) := by
  refine ⟨fun t ht inst hinst => count_period hn hid hfix hrun ht hinst, fun k hk id c hc => ?_⟩
  obtain ⟨n, hsel, hf⟩ := serve_follows hn hid (follows_new hn svc) hfix hrun
  have hlen : (selections svc calls answers).length = n := by
    rw [hsel, List.length_map, List.length_range']
  obtain ⟨j, rfl⟩ := hf.keys id c hc
  have hst := hf.stored j
  have hz := credit_mul_period (credit_period (greatest_firstGreatest (by omega)) weights_pos
    (weightGcd_cast_pos hn) (fun j => weightGcd_dvd (l.get_mem j)) (listWeight_eq_period_mul l hn)
    (period_pos hn)) k
  rw [Nat.zero_add, ← hlen, hk, hz] at hst
  change (((sel.state.lookup svc).getD ∅).lookup (idAt l j)).getD 0 = 0 at hst
  rwa [hc, Option.getD_some] at hst

/-- Two instances, one of twice the other's weight. -/
def pair : List ServiceInstance :=
  [(ServiceInstance.simple "svc" "a" 80).withWeight 2, ServiceInstance.simple "svc" "b" 80]

/-- One period of `svc`, with a call for another service in between. -/
def pairCalls : List SelectCall :=
  [(SelectContext.new "svc", pair), (SelectContext.new "other", pair),
    (SelectContext.new "svc", pair), (SelectContext.new "svc", pair)]

/-- `window_fair` on a concrete run: its hypotheses are met there. -/
theorem window_fair_pair : ∃ answers sel, serve select new pairCalls = some (answers, sel)
    ∧ (∀ t, t + period pair ≤ (selections "svc" pairCalls answers).length → ∀ inst ∈ pair,
        ((((selections "svc" pairCalls answers).drop t).take (period pair)).count (some inst) : ℤ)
          = quantisedWeight inst / weightGcd pair)
    ∧ (∀ k, (selections "svc" pairCalls answers).length = k * period pair →
        ∀ id c, ((sel.state.lookup "svc").getD ∅).lookup id = some c → c = 0) := by
  obtain ⟨⟨answers, sel⟩, h⟩ := Option.isSome_iff_exists.mp
    (by decide +kernel : (serve select new pairCalls).isSome)
  exact ⟨answers, sel, h, window_fair (by decide) (by decide +kernel) (by decide +kernel) h⟩

end WeightedRoundRobinSelector

end PecsRegistry
