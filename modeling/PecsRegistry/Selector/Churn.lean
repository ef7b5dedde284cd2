import PecsRegistry.Machinery.Contest
import PecsRegistry.Selector.Weighted

/-!
# Selector/Churn — smooth weighted round-robin under changing lists

The selector never forgets an id, so a call competes with whatever weights earlier lists have left
behind.  Computed over unbounded integers (`selectUnbounded`), a selection is a contest among the
ids of its list, and the level of a contest bounds every stored weight, whatever the lists and the
weights of their ids do from call to call (`stored_bounded`).  Where that bound fits in an `isize`,
the checked selection is the unbounded one.
-/

open Contest Transition

namespace PecsRegistry

namespace HashMap

variable {α : Type} [DecidableEq α]

/-- The sum of a map's values, read off its keys. -/
theorem sum_values {m : HashMap α ℤ} {s : Finset α} (hs : ∀ a ∈ m, a ∈ s) :
    m.values.sum = ∑ a ∈ s, (m.lookup a).getD 0 := by
  have hkeys : m.keys ⊆ s := fun a ha => hs a (Finmap.mem_keys.mp ha)
  have hvalues : m.values = m.keys.val.map fun a => (m.lookup a).getD 0 := by
    have hval : m.keys.val = m.entries.map Sigma.fst := rfl
    rw [values, hval, Multiset.map_map]
    refine Multiset.map_congr rfl fun e he => ?_
    rw [Function.comp_apply, Finmap.mem_lookup_iff.mpr he, Option.getD_some]
  rw [hvalues]
  refine Finset.sum_subset hkeys fun a _ ha => ?_
  rw [Finmap.lookup_eq_none.mpr (mt Finmap.mem_keys.mpr ha), Option.getD_none]

end HashMap

namespace WeightedRoundRobinSelector

/-! ## The selection over unbounded integers -/

/-- What the loop over the instances accumulates; a best entry of `none` is below every weight. -/
structure UnboundedTally where
  serviceWeights : HashMap String ℤ
  totalWeight : ℤ
  best : Option (ℕ × ℤ)

namespace UnboundedTally

def current (t : UnboundedTally) (serviceId : String) : ℤ :=
  (t.serviceWeights.lookup serviceId).getD 0

def weigh (t : UnboundedTally) (p : ServiceInstance × ℕ) : UnboundedTally :=
  let totalWeight := t.totalWeight + quantisedWeight p.1
  let cur := t.current p.1.serviceId + quantisedWeight p.1
  let serviceWeights := t.serviceWeights.insert p.1.serviceId cur
  if ∀ b ∈ t.best, b.2 < cur then ⟨serviceWeights, totalWeight, some (p.2, cur)⟩
  else ⟨serviceWeights, totalWeight, t.best⟩

def charge (t : UnboundedTally) (serviceId : String) : HashMap String ℤ :=
  match t.serviceWeights.lookup serviceId with
  | some cur => t.serviceWeights.insert serviceId (cur - t.totalWeight)
  | none => t.serviceWeights

/-- The same tally, as the checked loop holds it. -/
def toTally (t : UnboundedTally) : Tally :=
  ⟨t.serviceWeights, t.totalWeight, t.best.map Prod.fst, (t.best.map Prod.snd).getD isizeMin⟩

end UnboundedTally

/-- The weights stored for a service. -/
def stored (sel : WeightedRoundRobinSelector) (serviceName : String) : HashMap String ℤ :=
  (sel.state.lookup serviceName).getD ∅

def settleUnbounded (sel : WeightedRoundRobinSelector) (serviceName : String)
    (instances : List ServiceInstance) (t : UnboundedTally) :
    Option ServiceInstance × WeightedRoundRobinSelector :=
  match t.best.bind fun b => instances[b.1]? with
  | some chosen => (some chosen, ⟨sel.state.insert serviceName (t.charge chosen.serviceId)⟩)
  | none => (instances.head?, ⟨sel.state.insert serviceName t.serviceWeights⟩)

/-- One selection, over unbounded integers. -/
def selectUnbounded (sel : WeightedRoundRobinSelector) (call : SelectCall) :
    Option ServiceInstance × WeightedRoundRobinSelector :=
  match call.2 with
  | [] => (none, sel)
  | [inst] => (some inst, sel)
  | instances =>
    sel.settleUnbounded call.1.serviceName instances
      (instances.zipIdx.foldl UnboundedTally.weigh ⟨sel.stored call.1.serviceName, 0, none⟩)

/-- The selector after a run of calls, over unbounded integers. -/
def runUnbounded (sel : WeightedRoundRobinSelector) (calls : List SelectCall) :
    WeightedRoundRobinSelector :=
  calls.foldl (fun sel call => (sel.selectUnbounded call).2) sel

/-! ## What a list pays -/

/-- The current weight of an id, zero if none is stored. -/
def weightOf (m : HashMap String ℤ) (id : String) : ℤ := (m.lookup id).getD 0

/-- What a list pays an id; one that it lists twice is paid twice. -/
def payOf (l : List ServiceInstance) (id : String) : ℤ :=
  ((l.filter fun inst => inst.serviceId = id).map quantisedWeight).sum

section Pay

variable {l : List ServiceInstance} {inst : ServiceInstance} {id : String}

theorem sum_quantisedWeight_nonneg (l : List ServiceInstance) :
    0 ≤ (l.map quantisedWeight).sum := by
  refine List.sum_nonneg fun q hq => ?_
  obtain ⟨i, -, rfl⟩ := List.mem_map.mp hq
  exact (by norm_num : (0 : ℤ) ≤ 100).trans (hundred_le_quantisedWeight i)

theorem payOf_nonneg (l : List ServiceInstance) (id : String) : 0 ≤ payOf l id :=
  sum_quantisedWeight_nonneg _

theorem payOf_append (l l' : List ServiceInstance) (id : String) :
    payOf (l ++ l') id = payOf l id + payOf l' id := by
  rw [payOf, List.filter_append, List.map_append, List.sum_append, payOf, payOf]

theorem payOf_singleton (inst : ServiceInstance) (id : String) :
    payOf [inst] id = if inst.serviceId = id then quantisedWeight inst else 0 := by
  by_cases h : inst.serviceId = id <;> simp [payOf, h]

theorem payOf_concat_self (l : List ServiceInstance) (inst : ServiceInstance) :
    payOf (l ++ [inst]) inst.serviceId = payOf l inst.serviceId + quantisedWeight inst := by
  rw [payOf_append, payOf_singleton, if_pos rfl]

theorem payOf_concat_of_ne (h : inst.serviceId ≠ id) : payOf (l ++ [inst]) id = payOf l id := by
  rw [payOf_append, payOf_singleton, if_neg h, add_zero]

theorem payOf_of_notMem (h : id ∉ l.map (·.serviceId)) : payOf l id = 0 := by
  have hnil : l.filter (fun inst => inst.serviceId = id) = [] := by
    refine List.filter_eq_nil_iff.mpr fun i hi hid => h ?_
    exact of_decide_eq_true hid ▸ List.mem_map_of_mem hi
  rw [payOf, hnil, List.map_nil, List.sum_nil]

theorem payOf_of_mem (hid : (l.map (·.serviceId)).Nodup) (h : inst ∈ l) :
    payOf l inst.serviceId = quantisedWeight inst := by
  induction l with
  | nil => simp at h
  | cons i l ih =>
    obtain ⟨hi, hid⟩ := List.nodup_cons.mp hid
    rw [← List.singleton_append, payOf_append, payOf_singleton]
    rcases List.mem_cons.mp h with rfl | hmem
    · rw [if_pos rfl, payOf_of_notMem hi, add_zero]
    · have hne : i.serviceId ≠ inst.serviceId := fun he =>
        hi (List.mem_map.mpr ⟨inst, hmem, he.symm⟩)
      rw [if_neg hne, zero_add, ih hid hmem]

/-- With distinct ids, no id is paid more than the greatest quantised weight. -/
theorem payOf_le (hid : (l.map (·.serviceId)).Nodup) {M : ℤ} (hM : 0 ≤ M)
    (h : ∀ inst ∈ l, quantisedWeight inst ≤ M) (id : String) : payOf l id ≤ M := by
  by_cases hmem : id ∈ l.map (·.serviceId)
  · obtain ⟨inst, hinst, rfl⟩ := List.mem_map.mp hmem
    exact (payOf_of_mem hid hinst).trans_le (h inst hinst)
  · exact (payOf_of_notMem hmem).trans_le hM

theorem sum_payOf {S : Finset String} (h : serviceIds l ⊆ S) :
    ∑ id ∈ S, payOf l id = (l.map quantisedWeight).sum := by
  induction l with
  | nil => exact Finset.sum_const_zero
  | cons i l ih =>
    have hi : i.serviceId ∈ S := h (mem_serviceIds.mpr ⟨i, List.mem_cons_self, rfl⟩)
    have hrest : serviceIds l ⊆ S := fun id hid => by
      obtain ⟨j, hj, rfl⟩ := mem_serviceIds.mp hid
      exact h (mem_serviceIds.mpr ⟨j, List.mem_cons_of_mem i hj, rfl⟩)
    rw [← List.singleton_append]
    simp only [payOf_append, payOf_singleton, Finset.sum_add_distrib, Finset.sum_ite_eq, if_pos hi,
      ih hrest, List.map_append, List.sum_append, List.map_singleton, List.sum_singleton]

end Pay

/-! ## The loop -/

/-- The loop has seen some instances of the list: it has raised them over the weights `m`, and holds
the first greatest of them. -/
structure Weighed (m : HashMap String ℤ) (seen : List ServiceInstance) (t : UnboundedTally) :
    Prop where
  total : t.totalWeight = (seen.map quantisedWeight).sum
  raised : ∀ inst ∈ seen, t.serviceWeights.lookup inst.serviceId
    = some (weightOf m inst.serviceId + payOf seen inst.serviceId)
  other : ∀ id ∉ seen.map (·.serviceId), t.serviceWeights.lookup id = m.lookup id
  unset : seen = [] → t.best = none
  best : seen ≠ [] → ∃ idx inst, seen[idx]? = some inst
    ∧ t.best = some (idx, weightOf m inst.serviceId + payOf seen inst.serviceId)
    ∧ ∀ i ∈ seen, weightOf m i.serviceId + payOf seen i.serviceId
        ≤ weightOf m inst.serviceId + payOf seen inst.serviceId

theorem weighed_nil (m : HashMap String ℤ) : Weighed m [] ⟨m, 0, none⟩ :=
  ⟨rfl, by simp, fun _ _ => rfl, fun _ => rfl, fun h => absurd rfl h⟩

/-- The loop has paid every id so far. -/
theorem Weighed.weightOf_eq {m : HashMap String ℤ} {seen : List ServiceInstance}
    {t : UnboundedTally} (h : Weighed m seen t) (id : String) :
    weightOf t.serviceWeights id = weightOf m id + payOf seen id := by
  by_cases hmem : id ∈ seen.map (·.serviceId)
  · obtain ⟨i, hi, rfl⟩ := List.mem_map.mp hmem
    rw [weightOf, h.raised i hi, Option.getD_some]
  · rw [weightOf, h.other id hmem, payOf_of_notMem hmem, add_zero, weightOf]

theorem weigh_serviceWeights (t : UnboundedTally) (inst : ServiceInstance) (idx : ℕ) :
    (t.weigh (inst, idx)).serviceWeights
      = t.serviceWeights.insert inst.serviceId
        (t.current inst.serviceId + quantisedWeight inst) := by
  rw [UnboundedTally.weigh]
  split_ifs <;> rfl

theorem weigh_totalWeight (t : UnboundedTally) (inst : ServiceInstance) (idx : ℕ) :
    (t.weigh (inst, idx)).totalWeight = t.totalWeight + quantisedWeight inst := by
  rw [UnboundedTally.weigh]
  split_ifs <;> rfl

/-- An entry has the id of the last one, or comes before it. -/
theorem eq_or_mem_of_mem_concat {seen : List ServiceInstance} {inst i : ServiceInstance}
    (hi : i ∈ seen ++ [inst]) :
    inst.serviceId = i.serviceId ∨ inst.serviceId ≠ i.serviceId ∧ i ∈ seen := by
  rcases List.mem_append.mp hi with hseen | hlast
  · exact (eq_or_ne _ _).imp_right fun hne => ⟨hne, hseen⟩
  · exact .inl (congrArg (·.serviceId) (List.mem_singleton.mp hlast)).symm

section Turn

variable {m : HashMap String ℤ} {seen : List ServiceInstance} {t : UnboundedTally}
  {inst : ServiceInstance}

/-- What a turn raises its instance to. -/
theorem Weighed.current_add (h : Weighed m seen t) (inst : ServiceInstance) :
    t.current inst.serviceId + quantisedWeight inst
      = weightOf m inst.serviceId + payOf (seen ++ [inst]) inst.serviceId := by
  rw [payOf_concat_self, ← add_assoc, ← h.weightOf_eq]
  rfl

/-- An entry that beats the best so far leads, as that led all before. -/
theorem Weighed.leads_of_beats (h : Weighed m seen t)
    (hbeats : ∀ b ∈ t.best, b.2 < t.current inst.serviceId + quantisedWeight inst) :
    ∀ i ∈ seen ++ [inst], weightOf m i.serviceId + payOf (seen ++ [inst]) i.serviceId
      ≤ weightOf m inst.serviceId + payOf (seen ++ [inst]) inst.serviceId := by
  intro i hi
  rcases eq_or_mem_of_mem_concat hi with heq | ⟨hne, hseen⟩
  · rw [heq]
  · obtain ⟨idx, b, -, hb, hlead⟩ := h.best (List.ne_nil_of_mem hseen)
    rw [payOf_concat_of_ne hne, ← h.current_add]
    exact (hlead i hseen).trans (hbeats _ hb).le

/-- An entry that does not beat the best so far has another id, and is led by it too. -/
theorem Weighed.leads_of_not_beats (h : Weighed m seen t)
    (hbeats : ¬ ∀ b ∈ t.best, b.2 < t.current inst.serviceId + quantisedWeight inst) :
    ∃ idx b, seen[idx]? = some b
      ∧ t.best = some (idx, weightOf m b.serviceId + payOf (seen ++ [inst]) b.serviceId)
      ∧ ∀ i ∈ seen ++ [inst], weightOf m i.serviceId + payOf (seen ++ [inst]) i.serviceId
        ≤ weightOf m b.serviceId + payOf (seen ++ [inst]) b.serviceId := by
  have hne : seen ≠ [] := fun hnil => hbeats (by simp [h.unset hnil])
  obtain ⟨idx, b, hidx, hb, hlead⟩ := h.best hne
  have hle : weightOf m inst.serviceId + payOf (seen ++ [inst]) inst.serviceId
      ≤ weightOf m b.serviceId + payOf seen b.serviceId := by
    rw [← h.current_add]
    simpa [hb] using hbeats
  -- another entry for the id of the best would beat it
  have hother : inst.serviceId ≠ b.serviceId := fun hid => by
    have hpos := hundred_le_quantisedWeight inst
    rw [← hid, payOf_concat_self] at hle
    linarith
  rw [← payOf_concat_of_ne hother] at hb hle
  refine ⟨idx, b, hidx, hb, fun i hi => ?_⟩
  rcases eq_or_mem_of_mem_concat hi with heq | ⟨hne, hseen⟩
  · exact heq ▸ hle
  · rw [payOf_concat_of_ne hne, payOf_concat_of_ne hother]
    exact hlead i hseen

/-- **One turn of the loop.** -/
theorem Weighed.weigh (h : Weighed m seen t) (inst : ServiceInstance) :
    Weighed m (seen ++ [inst]) (t.weigh (inst, seen.length)) := by
  refine ⟨?_, fun i hi => ?_, fun id hid => ?_, fun hnil => by simp at hnil, fun _ => ?_⟩
  · rw [weigh_totalWeight, h.total, List.map_append, List.sum_append, List.map_singleton,
      List.sum_singleton]
  · rw [weigh_serviceWeights, HashMap.lookup_insert, h.current_add]
    rcases eq_or_mem_of_mem_concat hi with heq | ⟨hne, hseen⟩
    · rw [if_pos heq.symm, heq]
    · rw [if_neg (Ne.symm hne), h.raised i hseen, payOf_concat_of_ne hne]
  · rw [List.map_append, List.mem_append, not_or] at hid
    rw [weigh_serviceWeights, HashMap.lookup_insert, if_neg (by simpa using hid.2),
      h.other id hid.1]
  · by_cases hbeats : ∀ b ∈ t.best, b.2 < t.current inst.serviceId + quantisedWeight inst
    · refine ⟨seen.length, inst, by simp, ?_, h.leads_of_beats hbeats⟩
      rw [UnboundedTally.weigh, if_pos hbeats, h.current_add]
    · obtain ⟨idx, b, hidx, hb, hlead⟩ := h.leads_of_not_beats hbeats
      refine ⟨idx, b, ?_, ?_, hlead⟩
      · rw [List.getElem?_append_left (List.getElem?_eq_some_iff.mp hidx).1, hidx]
      · rw [UnboundedTally.weigh, if_neg hbeats, hb]

end Turn

theorem Weighed.foldl {m : HashMap String ℤ} {seen rest : List ServiceInstance}
    {t : UnboundedTally} (h : Weighed m seen t) :
    Weighed m (seen ++ rest) ((rest.zipIdx seen.length).foldl UnboundedTally.weigh t) := by
  induction rest generalizing seen t with
  | nil => simpa using h
  | cons inst rest ih =>
    have hrest := ih (h.weigh inst)
    rw [List.append_cons]
    rwa [List.length_append, List.length_singleton] at hrest

/-! ## A selection is a contest -/

section Contest

variable {l : List ServiceInstance} {inst : ServiceInstance}

/-- The tally that the loop over a list ends with. -/
def tallied (sel : WeightedRoundRobinSelector) (serviceName : String) (l : List ServiceInstance) :
    UnboundedTally :=
  l.zipIdx.foldl UnboundedTally.weigh ⟨sel.stored serviceName, 0, none⟩

theorem weighed_tallied (sel : WeightedRoundRobinSelector) (svc : String) :
    Weighed (sel.stored svc) l (sel.tallied svc l) :=
  (weighed_nil (sel.stored svc)).foldl

theorem weightOf_charge (sel : WeightedRoundRobinSelector) (svc : String) (h : inst ∈ l) :
    weightOf ((sel.tallied svc l).charge inst.serviceId)
      = Contest.settle (weightOf (sel.stored svc)) (payOf l) (serviceIds l) inst.serviceId := by
  ext id
  have hw := weighed_tallied sel svc (l := l)
  have hpaid : weightOf (sel.tallied svc l).serviceWeights id
      = weightOf (sel.stored svc) id + if id ∈ serviceIds l then payOf l id else 0 := by
    rw [hw.weightOf_eq]
    split_ifs with hmem
    · rfl
    · rw [payOf_of_notMem fun hm => hmem (List.mem_toFinset.mpr hm)]
  rw [UnboundedTally.charge, hw.raised inst h]
  rw [Contest.settle, ← hpaid, sum_payOf subset_rfl, ← hw.total, weightOf, HashMap.lookup_insert]
  split_ifs with hi
  · rw [hi, Option.getD_some, hw.weightOf_eq, weightOf]
  · rw [sub_zero, weightOf]

theorem selectUnbounded_of_lt_two (sel : WeightedRoundRobinSelector) (ctx : SelectContext)
    (hn : l.length < 2) : sel.selectUnbounded (ctx, l) = (l.head?, sel) := by
  rcases l with _ | ⟨_, _ | ⟨_, _⟩⟩
  · rfl
  · rfl
  · rw [List.length_cons, List.length_cons] at hn
    omega

theorem selectUnbounded_of_two_le (sel : WeightedRoundRobinSelector) (ctx : SelectContext)
    (hn : 2 ≤ l.length) : sel.selectUnbounded (ctx, l)
      = sel.settleUnbounded ctx.serviceName l (sel.tallied ctx.serviceName l) := by
  rcases l with _ | ⟨_, _ | ⟨_, _⟩⟩
  · rw [List.length_nil] at hn
    omega
  · rw [List.length_singleton] at hn
    omega
  · rfl

/-- No instance of the list has a greater raised weight. -/
def Leads (m : HashMap String ℤ) (l : List ServiceInstance) (inst : ServiceInstance) : Prop :=
  ∀ i ∈ l, weightOf m i.serviceId + payOf l i.serviceId
    ≤ weightOf m inst.serviceId + payOf l inst.serviceId

/-- **A selection is a contest among the ids of its list**, won by the instance selected. -/
theorem selectUnbounded_spec (sel : WeightedRoundRobinSelector) (ctx : SelectContext)
    (hn : 2 ≤ l.length) :
    ∃ inst ∈ l, Leads (sel.stored ctx.serviceName) l inst
      ∧ (∃ idx cur, (sel.tallied ctx.serviceName l).best = some (idx, cur)
        ∧ l[idx]? = some inst)
      ∧ sel.selectUnbounded (ctx, l) = (some inst, ⟨sel.state.insert ctx.serviceName
        ((sel.tallied ctx.serviceName l).charge inst.serviceId)⟩) := by
  have hw := weighed_tallied sel ctx.serviceName (l := l)
  obtain ⟨idx, inst, hidx, hbest, hlead⟩ :=
    hw.best (List.ne_nil_of_length_pos (by omega))
  refine ⟨inst, List.mem_of_getElem? hidx, hlead, ⟨idx, _, hbest, hidx⟩, ?_⟩
  rw [selectUnbounded_of_two_le sel ctx hn, settleUnbounded, hbest, Option.bind_some, hidx]

end Contest

/-! ## What is stored for a service -/

/-- The stored weights are level over a universe of ids. -/
structure Balanced (U : Finset String) (M : ℤ) (m : HashMap String ℤ) : Prop where
  keys : ∀ id ∉ U, m.lookup id = none
  level : Level U M (weightOf m)

theorem balanced_empty (U : Finset String) {M : ℤ} (hM : 0 ≤ M) : Balanced U M ∅ where
  keys _ _ := Finmap.lookup_empty _
  level := level_zero U hM

/-- The list draws on the universe, and pays each id at most `M`. -/
structure Within (U : Finset String) (M : ℤ) (l : List ServiceInstance) : Prop where
  ids : serviceIds l ⊆ U
  pay : ∀ id, payOf l id ≤ M

section OneCall

variable {U : Finset String} {M : ℤ} {m : HashMap String ℤ} {l : List ServiceInstance}
  {inst : ServiceInstance}

/-- The contest keeps the level. -/
theorem Balanced.settle (h : Balanced U M m) (hl : Within U M l) (hmem : inst ∈ l)
    (hlead : Leads m l inst) :
    Level U M (Contest.settle (weightOf m) (payOf l) (serviceIds l) inst.serviceId) := by
  refine h.level.settle hl.ids (mem_serviceIds.mpr ⟨inst, hmem, rfl⟩)
    (fun id _ => payOf_nonneg l id) (fun id _ => hl.pay id) fun id hid => ?_
  obtain ⟨i, hi, rfl⟩ := mem_serviceIds.mp hid
  exact hlead i hi

theorem Balanced.selectUnbounded {sel : WeightedRoundRobinSelector} {ctx : SelectContext}
    (h : Balanced U M (sel.stored ctx.serviceName)) (hl : Within U M l) :
    Balanced U M ((sel.selectUnbounded (ctx, l)).2.stored ctx.serviceName) := by
  rcases lt_or_ge l.length 2 with hn | hn
  · rw [selectUnbounded_of_lt_two sel ctx hn]
    exact h
  obtain ⟨inst, hmem, hlead, -, hsel⟩ := selectUnbounded_spec sel ctx hn
  rw [hsel, stored, Finmap.lookup_insert, Option.getD_some]
  constructor
  · intro id hout
    have hw := weighed_tallied sel ctx.serviceName (l := l)
    have hne : id ∉ l.map (·.serviceId) := fun hm => hout (hl.ids (List.mem_toFinset.mpr hm))
    have hid' : id ≠ inst.serviceId := fun he => hne (he ▸ List.mem_map_of_mem hmem)
    rw [UnboundedTally.charge, hw.raised inst hmem]
    exact (Finmap.lookup_insert_of_ne _ hid').trans ((hw.other id hne).trans (h.keys id hout))
  · rw [weightOf_charge sel ctx.serviceName hmem]
    exact h.settle hl hmem hlead

/-- A selection for another service leaves this one's weights alone. -/
theorem stored_selectUnbounded_of_ne (sel : WeightedRoundRobinSelector) {ctx : SelectContext}
    {svc : String} (hne : svc ≠ ctx.serviceName) :
    (sel.selectUnbounded (ctx, l)).2.stored svc = sel.stored svc := by
  rcases lt_or_ge l.length 2 with hn | hn
  · rw [selectUnbounded_of_lt_two sel ctx hn]
  · obtain ⟨inst, -, -, -, hsel⟩ := selectUnbounded_spec (l := l) sel ctx hn
    rw [hsel, stored, Finmap.lookup_insert_of_ne _ hne, stored]

end OneCall

/-! ## The checked selection -/

/-- A turn whose sums fit is the unbounded one. -/
theorem weigh_toTally {t : UnboundedTally} {p : ServiceInstance × ℕ}
    (htotal : isizeMin ≤ t.totalWeight + quantisedWeight p.1
      ∧ t.totalWeight + quantisedWeight p.1 ≤ isizeMax)
    (hcur : isizeMin < t.current p.1.serviceId + quantisedWeight p.1
      ∧ t.current p.1.serviceId + quantisedWeight p.1 ≤ isizeMax) :
    t.toTally.weigh p = some (t.weigh p).toTally := by
  have hbeats : t.toTally.maxCurrentWeight < t.current p.1.serviceId + quantisedWeight p.1
      ↔ ∀ b ∈ t.best, b.2 < t.current p.1.serviceId + quantisedWeight p.1 := by
    rw [UnboundedTally.toTally]
    cases t.best with
    | none => simpa using hcur.1
    | some b => simp
  have hcurrent : t.toTally.current p.1.serviceId = t.current p.1.serviceId := rfl
  have htotal' : isizeAdd t.toTally.totalWeight (quantisedWeight p.1)
      = some (t.totalWeight + quantisedWeight p.1) := if_pos htotal
  have hcur' : isizeAdd (t.current p.1.serviceId) (quantisedWeight p.1)
      = some (t.current p.1.serviceId + quantisedWeight p.1) := if_pos ⟨hcur.1.le, hcur.2⟩
  rw [Tally.weigh, hcurrent, htotal', hcur']
  simp only [Option.bind_eq_bind, Option.bind_some]
  by_cases h : ∀ b ∈ t.best, b.2 < t.current p.1.serviceId + quantisedWeight p.1
  · rw [if_pos (hbeats.mpr h), UnboundedTally.weigh, if_pos h]
    rfl
  · rw [if_neg (mt hbeats.mp h), UnboundedTally.weigh, if_neg h]
    rfl

theorem foldlM_toTally {m : HashMap String ℤ} {seen rest : List ServiceInstance}
    {t : UnboundedTally} (h : Weighed m seen t)
    (hlow : ∀ inst ∈ rest, isizeMin ≤ weightOf m inst.serviceId)
    (hhigh : ∀ inst ∈ rest,
      weightOf m inst.serviceId + payOf (seen ++ rest) inst.serviceId ≤ isizeMax)
    (htotal : ((seen ++ rest).map quantisedWeight).sum ≤ isizeMax) :
    (rest.zipIdx seen.length).foldlM Tally.weigh t.toTally
      = some ((rest.zipIdx seen.length).foldl UnboundedTally.weigh t).toTally := by
  induction rest generalizing seen t with
  | nil => rfl
  | cons inst rest ih =>
    have hpos := hundred_le_quantisedWeight inst
    have hcur : t.current inst.serviceId = weightOf m inst.serviceId + payOf seen inst.serviceId :=
      h.weightOf_eq inst.serviceId
    have hturn : t.toTally.weigh (inst, seen.length)
        = some (t.weigh (inst, seen.length)).toTally := by
      have hseen := payOf_nonneg seen inst.serviceId
      refine weigh_toTally ⟨?_, ?_⟩ ⟨?_, ?_⟩
      · have := sum_quantisedWeight_nonneg seen
        rw [h.total, isizeMin]
        linarith
      · have := sum_quantisedWeight_nonneg rest
        rw [List.map_append, List.sum_append, List.map_cons, List.sum_cons] at htotal
        rw [h.total]
        linarith
      · have := hlow inst List.mem_cons_self
        rw [hcur]
        linarith
      · have hpaid := hhigh inst List.mem_cons_self
        have hrest := payOf_nonneg rest inst.serviceId
        rw [List.append_cons, payOf_append, payOf_append, payOf_singleton, if_pos rfl] at hpaid
        rw [hcur]
        linarith
    rw [List.append_cons] at hhigh htotal
    have hrest := ih (h.weigh inst) (fun i hi => hlow i (List.mem_cons_of_mem inst hi))
      (fun i hi => hhigh i (List.mem_cons_of_mem inst hi)) htotal
    rw [List.length_append, List.length_singleton] at hrest
    rw [List.zipIdx_cons, List.foldlM_cons, hturn]
    exact hrest

/-- **A selection whose sums fit is the unbounded one.** -/
theorem select_eq_unbounded {sel : WeightedRoundRobinSelector} {ctx : SelectContext}
    {l : List ServiceInstance}
    (hlow : ∀ inst ∈ l, isizeMin ≤ weightOf (sel.stored ctx.serviceName) inst.serviceId)
    (hhigh : ∀ inst ∈ l, weightOf (sel.stored ctx.serviceName) inst.serviceId
      + payOf l inst.serviceId ≤ isizeMax)
    (htotal : (l.map quantisedWeight).sum ≤ isizeMax)
    (hcharge : ∀ inst ∈ l, Leads (sel.stored ctx.serviceName) l inst →
      isizeMin ≤ weightOf (sel.stored ctx.serviceName) inst.serviceId + payOf l inst.serviceId
        - (l.map quantisedWeight).sum) :
    sel.select (ctx, l) = some (sel.selectUnbounded (ctx, l)) := by
  rcases lt_or_ge l.length 2 with hn | hn
  · rw [selectUnbounded_of_lt_two sel ctx hn, select_of_lt_two sel ctx hn]
  have hw := weighed_tallied sel ctx.serviceName (l := l)
  obtain ⟨inst, hmem, hlead, ⟨idx, cur, hbest, hidx⟩, hsel⟩ := selectUnbounded_spec sel ctx hn
  have hloop : l.zipIdx.foldlM Tally.weigh (sel.tally ctx.serviceName)
      = some (sel.tallied ctx.serviceName l).toTally :=
    foldlM_toTally (weighed_nil (sel.stored ctx.serviceName)) hlow hhigh htotal
  rw [select_of_two_le sel ctx hn, hloop, Option.bind_some, hsel]
  have hraised := hw.raised inst hmem
  have hfits : isizeSub (weightOf (sel.stored ctx.serviceName) inst.serviceId
      + payOf l inst.serviceId) (sel.tallied ctx.serviceName l).totalWeight
      = some (weightOf (sel.stored ctx.serviceName) inst.serviceId + payOf l inst.serviceId
        - (sel.tallied ctx.serviceName l).totalWeight) := by
    have hmax := hhigh inst hmem
    have hpos := sum_quantisedWeight_nonneg l
    rw [hw.total]
    refine if_pos ⟨hcharge inst hmem hlead, ?_⟩
    linarith
  have hcharged : (sel.tallied ctx.serviceName l).toTally.charge inst.serviceId
      = some ((sel.tallied ctx.serviceName l).charge inst.serviceId) := by
    rw [Tally.charge, UnboundedTally.charge, hraised]
    rw [show (sel.tallied ctx.serviceName l).toTally.serviceWeights
      = (sel.tallied ctx.serviceName l).serviceWeights from rfl, hraised]
    exact congrArg (Option.map _) hfits
  rw [settle, UnboundedTally.toTally, hbest]
  simp only [Option.map_some, hidx, Option.bind_eq_bind, Option.bind_some]
  exact congrArg (fun o => Option.bind o _) hcharged

/-- Where the level fits, so do the sums of a selection. -/
theorem Balanced.select_eq_unbounded {U : Finset String} {M : ℤ} {sel : WeightedRoundRobinSelector}
    {ctx : SelectContext} {l : List ServiceInstance}
    (h : Balanced U M (sel.stored ctx.serviceName)) (hM : 0 ≤ M) (hfits : U.card * M ≤ isizeMax)
    (hl : Within U M l) : sel.select (ctx, l) = some (sel.selectUnbounded (ctx, l)) := by
  have hmem : ∀ inst ∈ l, inst.serviceId ∈ U :=
    fun inst hi => hl.ids (mem_serviceIds.mpr ⟨inst, hi, rfl⟩)
  have hmin : isizeMin = -isizeMax - 1 := by norm_num [isizeMin, isizeMax]
  have htotal : (l.map quantisedWeight).sum ≤ U.card * M := by
    have hsum := Finset.sum_le_card_nsmul U (payOf l) M fun id _ => hl.pay id
    rwa [sum_payOf hl.ids, nsmul_eq_mul] at hsum
  refine WeightedRoundRobinSelector.select_eq_unbounded (fun inst hi => ?_) (fun inst hi => ?_)
    (htotal.trans hfits) fun inst hi hlead => ?_
  · have hlow := h.level.neg_le (hmem inst hi)
    linarith
  · have hhigh := h.level.le (hmem inst hi)
    linarith [hl.pay inst.serviceId]
  · -- what is left to the winner is level again
    have hlow := (h.settle hl hi hlead).neg_le (hmem inst hi)
    have hpaid : inst.serviceId ∈ serviceIds l := mem_serviceIds.mpr ⟨inst, hi, rfl⟩
    rw [Contest.settle, if_pos hpaid, if_pos rfl, sum_payOf subset_rfl] at hlow
    linarith

/-! ## Runs -/

section Runs

variable {U : String → Finset String} {M : String → ℤ} {sel : WeightedRoundRobinSelector}
  {calls : List SelectCall}

/-- The weights stored for every service are level, each over a universe of its own. -/
def Kept (U : String → Finset String) (M : String → ℤ) (sel : WeightedRoundRobinSelector) : Prop :=
  ∀ svc, Balanced (U svc) (M svc) (sel.stored svc)

theorem kept_new (U : String → Finset String) (hM : ∀ svc, 0 ≤ M svc) : Kept U M new :=
  fun svc => balanced_empty (U svc) (hM svc)

theorem Kept.selectUnbounded (h : Kept U M sel) {call : SelectCall}
    (hcall : Within (U call.1.serviceName) (M call.1.serviceName) call.2) :
    Kept U M (sel.selectUnbounded call).2 := by
  intro svc
  by_cases hsvc : svc = call.1.serviceName
  · exact hsvc ▸ (h call.1.serviceName).selectUnbounded hcall
  · rw [stored_selectUnbounded_of_ne sel hsvc]
    exact h svc

theorem Kept.runUnbounded (h : Kept U M sel)
    (hcalls : ∀ call ∈ calls, Within (U call.1.serviceName) (M call.1.serviceName) call.2) :
    Kept U M (sel.runUnbounded calls) := by
  induction calls generalizing sel with
  | nil => exact h
  | cons call calls ih =>
    exact ih (h.selectUnbounded (hcalls call List.mem_cons_self))
      fun c hc => hcalls c (List.mem_cons_of_mem _ hc)

/-- **A run whose level fits is the unbounded one**: no selection of it overflows. -/
theorem Kept.serve_eq_unbounded (h : Kept U M sel) (hM : ∀ svc, 0 ≤ M svc)
    (hcalls : ∀ call ∈ calls, Within (U call.1.serviceName) (M call.1.serviceName) call.2
      ∧ (U call.1.serviceName).card * M call.1.serviceName ≤ isizeMax) :
    ∃ answers, serve select sel calls = some (answers, sel.runUnbounded calls) := by
  induction calls generalizing sel with
  | nil => exact ⟨[], rfl⟩
  | cons call calls ih =>
    obtain ⟨hwithin, hfits⟩ := hcalls call List.mem_cons_self
    have hfirst := (h call.1.serviceName).select_eq_unbounded (hM _) hfits hwithin
    obtain ⟨answers, hrest⟩ := ih (h.selectUnbounded hwithin)
      fun c hc => hcalls c (List.mem_cons_of_mem _ hc)
    exact ⟨_, serve_cons_eq_some.mpr ⟨_, _, _, hfirst, hrest, rfl⟩⟩

end Runs

/-- **Stored weights stay bounded under churn.**  A service whose calls pass any lists of distinct
ids, at most `N` ids in all, with quantised weights of at most `M`: over unbounded integers every
weight stored, for the ids of the last list and for those that have left, is within `2·N²·M` of
zero, and they sum to zero; where `(2·N² + N + 1)·M` fits in an `isize`, no selection overflows. -/
theorem stored_bounded {svc : String} {N M : ℕ} {calls : List SelectCall}
    (hsvc : ∀ call ∈ calls, call.1.serviceName = svc)
    (hid : ∀ call ∈ calls, (call.2.map (·.serviceId)).Nodup)
    (hN : (calls.flatMap fun call => call.2.map (·.serviceId)).toFinset.card ≤ N)
    (hM : ∀ call ∈ calls, ∀ inst ∈ call.2, quantisedWeight inst ≤ M) :
    (∀ id c, ((new.runUnbounded calls).stored svc).lookup id = some c →
        -(2 * N ^ 2 * M : ℤ) ≤ c ∧ c ≤ 2 * N ^ 2 * M)
      ∧ ((new.runUnbounded calls).stored svc).values.sum = 0
      ∧ ((2 * N ^ 2 + N + 1) * M ≤ isizeMax →
        ∃ answers, serve select new calls = some (answers, new.runUnbounded calls)) := by
  obtain ⟨U, hUdef⟩ : ∃ U, (calls.flatMap fun call => call.2.map (·.serviceId)).toFinset = U :=
    ⟨_, rfl⟩
  rw [hUdef] at hN
  have hM0 : (0 : ℤ) ≤ M := Int.natCast_nonneg M
  -- the universe of the only service that is called
  obtain ⟨ids, hids⟩ : ∃ ids : String → Finset String, ids svc = U := ⟨fun _ => U, rfl⟩
  have hwithin : ∀ call ∈ calls, Within (ids call.1.serviceName) M call.2 := by
    intro call hcall
    rw [hsvc call hcall, hids]
    refine ⟨fun id hid' => ?_, fun id => ?_⟩
    · rw [← hUdef, List.mem_toFinset, List.mem_flatMap]
      exact ⟨call, hcall, List.mem_toFinset.mp hid'⟩
    · exact payOf_le (hid call hcall) hM0 (hM call hcall) id
  have hkept : Kept ids (fun _ => M) new := kept_new _ fun _ => hM0
  have h := hkept.runUnbounded hwithin svc
  rw [hids] at h
  have hcard : (U.card : ℤ) * M ≤ N * M :=
    mul_le_mul_of_nonneg_right (by exact_mod_cast hN) hM0
  refine ⟨fun id c hc => ?_, ?_, fun hfits => ?_⟩
  · have hid' : id ∈ U := by_contra fun hout => by simp [h.keys id hout] at hc
    have hval : weightOf ((new.runUnbounded calls).stored svc) id = c := by
      rw [weightOf, hc, Option.getD_some]
    have hlow := h.level.neg_le hid'
    have hhigh := h.level.le hid'
    rw [hval] at hlow hhigh
    have hsq : (N : ℤ) * M ≤ N ^ 2 * M :=
      mul_le_mul_of_nonneg_right (by exact_mod_cast Nat.le_self_pow two_ne_zero N) hM0
    constructor <;> linarith
  · rw [HashMap.sum_values (s := U) fun id hid' => by_contra fun hout =>
      Finmap.lookup_eq_none.mp (h.keys id hout) hid']
    exact h.level.sum
  · refine hkept.serve_eq_unbounded (fun _ => hM0) fun call hcall => ⟨hwithin call hcall, ?_⟩
    rw [hsvc call hcall, hids]
    have hsq : (0 : ℤ) ≤ N ^ 2 * M := mul_nonneg (by positivity) hM0
    linarith

/-- The second instance of the pair leaves and comes back, and its partner changes weight. -/
def churnCalls : List SelectCall :=
  [(SelectContext.new "svc", pair),
    (SelectContext.new "svc", [(ServiceInstance.simple "svc" "a" 80).withWeight 3]),
    (SelectContext.new "svc", [(ServiceInstance.simple "svc" "a" 80).withWeight 3,
      ServiceInstance.simple "svc" "c" 80]), (SelectContext.new "svc", pair)]

theorem stored_bounded_churnCalls :
    ((new.runUnbounded churnCalls).stored "svc").values.sum = 0
      ∧ ∃ answers, serve select new churnCalls = some (answers, new.runUnbounded churnCalls) := by
  obtain ⟨-, hsum, hfits⟩ := @stored_bounded "svc" 3 300 churnCalls (by decide +kernel)
    (by decide +kernel) (by decide +kernel) (by decide +kernel)
  exact ⟨hsum, hfits (by decide +kernel)⟩

end WeightedRoundRobinSelector

end PecsRegistry
