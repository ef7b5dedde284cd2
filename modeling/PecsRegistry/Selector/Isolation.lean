import PecsRegistry.Selector.Inflight

/-!
# Selector/Isolation — what one service sees of a selector that several share

The counters of a `P2CSelector` are keyed by the instance id alone, and two services may have an
instance with the same id.  A `ServiceSelector` is the selector a service would have to itself: it
counts the service's own guards.  As long as no selection of the service reads a counter while
another service has a guard for the same id, the shared selector is that selector to the service
(`forService_step`), and the other services' calls may be left out of the run: `isolated`.
-/

namespace PecsRegistry

open Census Transition

/-- What a service sees of a call: not whether its counter was there already, nor where it is. -/
def P2CCall.seen : P2CCall → P2CCall
  | .inserting serviceId | .adding serviceId _ => .looking serviceId
  | .guarding serviceId _ => .guarding serviceId 0
  | c => c

/-- The call is not between looking its counter up and taking its guard. -/
def P2CCall.Settled : P2CCall → Prop
  | .inserting _ | .adding _ _ => False
  | _ => True

/-- A settled call without a guard is as the service sees it. -/
theorem P2CCall.eq_of_seen {c c₀ : P2CCall} (hsettled : c.Settled) (hseen : c.seen = c₀)
    (hfree : c₀.Free) : c = c₀ := by
  obtain rfl := hseen
  cases c with
  | inserting | adding | guarding => first | exact hsettled.elim | exact hfree.elim
  | _ => rfl

theorem P2CCall.guarding_of_seen {c : P2CCall} {serviceId : String} {b : ℕ}
    (hseen : c.seen = .guarding serviceId b) : ∃ a, c = .guarding serviceId a := by
  cases c with
  | guarding serviceId' a =>
    obtain ⟨rfl, -⟩ := P2CCall.guarding.inj hseen
    exact ⟨a, rfl⟩
  | _ => cases hseen

theorem P2CCall.settled_answered (withGuard : Bool) (r : Option ServiceInstance) :
    (answered withGuard r).Settled := by
  cases withGuard <;> cases r <;> trivial

/-- A step that a service sees: every step but the two of `get_inflight_counter`. -/
def P2CLabel.seen : P2CLabel → Bool
  | .lookUp _ | .insert _ => false
  | _ => true

/-- The selector a service would have to itself: the number of its guards by id, and its calls. -/
@[ext]
structure ServiceSelector where
  inflight : String → ℕ
  calls : ℕ → P2CCall
  selected : ℕ → Option (Option ServiceInstance)

namespace ServiceSelector

@[simps]
def setCall (v : ServiceSelector) (i : ℕ) (c : P2CCall) : ServiceSelector :=
  { v with calls := Function.update v.calls i c }

def computeLoadScore (v : ServiceSelector) (inst : ServiceInstance) : ℚ :=
  (v.inflight inst.serviceId + 1) / max inst.weight (1 / 10)

def answer (v : ServiceSelector) (i : ℕ) (withGuard : Bool) (r : Option ServiceInstance) :
    ServiceSelector :=
  { v with selected := Function.update v.selected i (some r) }.setCall i (.answered withGuard r)

@[simp] theorem answer_selected (v : ServiceSelector) (i : ℕ) (withGuard : Bool)
    (r : Option ServiceInstance) :
    (v.answer i withGuard r).selected = Function.update v.selected i (some r) := rfl

def beginSelect (v : ServiceSelector) (i : ℕ) (withGuard : Bool) :
    List ServiceInstance → ServiceSelector
  | [] => v.answer i withGuard none
  | [inst] => v.answer i withGuard (some inst)
  | [inst1, inst2] => v.setCall i (.scoring withGuard inst1 inst2)
  | instances => v.setCall i (.drawing withGuard instances)

/-- One step of the service's calls. -/
def step (v : ServiceSelector) : P2CLabel → Option ServiceSelector
  | .acquire i serviceId =>
      match v.calls i with
      | .idle => some (v.setCall i (.looking serviceId))
      | _ => none
  | .select i withGuard instances =>
      match v.calls i with
      | .idle => some (v.beginSelect i withGuard instances)
      | _ => none
  | .draw i seed =>
      match v.calls i with
      | .drawing withGuard instances => do
          let (idx1, idx2) := P2CSelector.indices seed instances.length
          let inst1 ← instances[idx1]?
          let inst2 ← instances[idx2]?
          some (v.setCall i (.scoring withGuard inst1 inst2))
      | _ => none
  | .score i =>
      match v.calls i with
      | .scoring withGuard inst1 inst2 =>
          some (v.setCall i (.comparing withGuard (v.computeLoadScore inst1) inst1 inst2))
      | .comparing withGuard score1 inst1 inst2 =>
          some (v.answer i withGuard
            (some (if score1 ≤ v.computeLoadScore inst2 then inst1 else inst2)))
      | _ => none
  | .lookUp _ | .insert _ => none
  | .fetchAdd i =>
      match v.calls i with
      | .looking serviceId =>
          if (v.inflight serviceId : ℤ) < isizeMax then
            some ({ v with
              inflight := Function.update v.inflight serviceId (v.inflight serviceId + 1)
              }.setCall i (.guarding serviceId 0))
          else none
      | _ => none
  | .drop i =>
      match v.calls i with
      | .guarding serviceId _ =>
          some ({ v with
            inflight := Function.update v.inflight serviceId (v.inflight serviceId - 1)
            }.setCall i .finished)
      | _ => none

end ServiceSelector

namespace P2CSystem

variable {service : ℕ → String} {name : String} {s s' t : P2CSystem} {l : P2CLabel}
  {u w : List P2CLabel} {serviceId : String} {a i : ℕ} {c : P2CCall}

/-- The live guards of a service for an id. -/
def ownGuards (service : ℕ → String) (name : String) (s : P2CSystem) (serviceId : String) : Set ℕ :=
  census s.calls fun i c => service i = name ∧ c.Guards serviceId

/-- What a service sees of the selector, where call `i` is for `service i`. -/
@[simps -isSimp]
noncomputable def forService (service : ℕ → String) (name : String) (s : P2CSystem) :
    ServiceSelector where
  inflight serviceId := (s.ownGuards service name serviceId).ncard
  calls i := if service i = name then (s.calls i).seen else .idle
  selected i := if service i = name then s.selected i else none

/-- A selection of the service reads the counters of ids for which no other service has a guard. -/
def Undisturbed (service : ℕ → String) (name : String) (s : P2CSystem) : P2CLabel → Prop
  | .score i => service i = name → ∀ j,
      match s.calls i with
      | .scoring _ inst _ | .comparing _ _ _ inst =>
          (s.calls j).Guards inst.serviceId → service j = name
      | _ => True
  | _ => True

/-! ## Its own guards -/

theorem ownGuards_subset (service : ℕ → String) (name : String) (s : P2CSystem)
    (serviceId : String) : s.ownGuards service name serviceId ⊆ s.guards serviceId :=
  census_mono fun _ _ h => h.2

theorem Counted.finite_guards (h : s.Counted) (serviceId : String) :
    (s.guards serviceId).Finite := by
  refine Set.encard_ne_top_iff.mp ?_
  rw [h.encard_guards serviceId]
  exact ENat.natCast_ne_top _

theorem Counted.encard_ownGuards (h : s.Counted) (service : ℕ → String) (name : String)
    (serviceId : String) : (s.ownGuards service name serviceId).encard
      = (s.forService service name).inflight serviceId := by
  have hfinite := (h.finite_guards serviceId).subset (ownGuards_subset service name s serviceId)
  exact hfinite.cast_ncard_eq.symm

/-- Where no other service has a guard the counter is the number of the service's own. -/
theorem Counted.load_eq (h : s.Counted)
    (hfree : ∀ j, (s.calls j).Guards serviceId → service j = name) :
    (s.load serviceId).toNat = (s.forService service name).inflight serviceId := by
  have hall : s.ownGuards service name serviceId = s.guards serviceId :=
    Set.Subset.antisymm (ownGuards_subset service name s serviceId) fun j hj => ⟨hfree j hj, hj⟩
  have hcount := h.encard_guards serviceId
  rw [← hall, h.encard_ownGuards service name] at hcount
  exact_mod_cast hcount.symm

/-! ## What the service sees of a step -/

theorem Effect.calls_eq (h : Effect s i s') : ∃ c, s'.calls = Function.update s.calls i c := by
  cases h <;> exact ⟨_, rfl⟩

theorem Effect.selected_of_ne (h : Effect s i s') {j : ℕ} (hj : j ≠ i) :
    s'.selected j = s.selected j := by
  cases h with
  | quiet _ _ _ _ _ others => exact others j hj
  | _ => rfl

/-- A step for another service is not seen. -/
theorem forService_other (h : Effect s i s') (hi : service i ≠ name) :
    s'.forService service name = s.forService service name := by
  obtain ⟨c, hcalls⟩ := h.calls_eq
  ext1
  · funext serviceId
    refine congrArg Set.ncard ?_
    rw [ownGuards, hcalls]
    exact census_stay (iff_of_false (fun hc => hi hc.1) fun hc => hi hc.1)
  · funext j
    rw [forService_calls, forService_calls, hcalls, Function.update_apply]
    rcases eq_or_ne j i with rfl | hji
    · rw [if_neg hi, if_neg hi]
    · rw [if_neg hji]
  · funext j
    rw [forService_selected, forService_selected]
    rcases eq_or_ne j i with rfl | hji
    · rw [if_neg hi, if_neg hi]
    · rw [h.selected_of_ne hji]

theorem seen_self (hi : service i = name) :
    (s.forService service name).calls i = (s.calls i).seen := if_pos hi

theorem seen_of {c₀ : P2CCall} (hi : s.calls i = c₀) (hown : service i = name) :
    (s.forService service name).calls i = c₀.seen := hi ▸ seen_self hown

theorem calls_forService (hi : service i = name) (hcalls : s'.calls = Function.update s.calls i c) :
    (s'.forService service name).calls
      = Function.update (s.forService service name).calls i c.seen := by
  funext j
  rw [Function.update_apply, forService_calls, forService_calls, hcalls, Function.update_apply]
  rcases eq_or_ne j i with rfl | hji
  · rw [if_pos rfl, if_pos rfl, if_pos hi]
  · rw [if_neg hji, if_neg hji]

theorem inflight_forService (hcalls : s'.calls = Function.update s.calls i c)
    (hc : c.Guards serviceId ↔ (s.calls i).Guards serviceId) :
    (s'.forService service name).inflight serviceId
      = (s.forService service name).inflight serviceId := by
  refine congrArg Set.ncard ?_
  rw [ownGuards, hcalls]
  exact census_stay (and_congr_right fun _ => hc)

/-- A call of the service moves on, and takes or drops no guard. -/
theorem forService_setCall (hi : service i = name)
    (hc : ∀ serviceId, c.Guards serviceId ↔ (s.calls i).Guards serviceId) :
    (s.setCall i c).forService service name = (s.forService service name).setCall i c.seen := by
  ext1
  · funext serviceId
    exact inflight_forService rfl (hc serviceId)
  · exact calls_forService hi rfl
  · rfl

theorem seen_answered (withGuard : Bool) (r : Option ServiceInstance) :
    (P2CCall.answered withGuard r).seen = .answered withGuard r := by
  cases withGuard <;> cases r <;> rfl

/-- A selection of the service returns. -/
theorem forService_answer (hi : service i = name) (hfree : (s.calls i).Free) (withGuard : Bool)
    (r : Option ServiceInstance) :
    (s.answer i withGuard r).forService service name
      = (s.forService service name).answer i withGuard r := by
  ext1
  · funext serviceId
    exact inflight_forService rfl
      (iff_of_false ((P2CCall.free_answered withGuard r).not_guards serviceId)
        (hfree.not_guards serviceId))
  · rw [answer, calls_forService (s := s) hi rfl, seen_answered]
    rfl
  · funext j
    rw [ServiceSelector.answer_selected, forService_selected, answer_selected]
    rw [Function.update_apply, Function.update_apply, forService_selected]
    rcases eq_or_ne j i with rfl | hji
    · rw [if_pos rfl, if_pos rfl, if_pos hi]
    · rw [if_neg hji, if_neg hji]

/-- A guard of the service is taken: one more of its own. -/
theorem inflight_enter (h : s.Counted) (hi : service i = name)
    (hcalls : s'.calls = Function.update s.calls i c) (hbefore : ¬ (s.calls i).Guards serviceId)
    (hafter : c.Guards serviceId) :
    (s'.forService service name).inflight serviceId
      = (s.forService service name).inflight serviceId + 1 := by
  have henter := census_enter (f := s.calls) (P := fun j c => service j = name ∧ c.Guards serviceId)
    (fun hc => hbefore hc.2) ⟨hi, hafter⟩
  rw [← hcalls] at henter
  have hcast : ((s'.ownGuards service name serviceId).encard : ℕ∞)
      = ((s.forService service name).inflight serviceId + 1 : ℕ) := by
    rw [Nat.cast_add, ← h.encard_ownGuards]
    exact henter
  rw [forService_inflight, Set.ncard, hcast]
  rfl

/-- A guard of the service is dropped. -/
theorem inflight_leave (h : s.Counted) (hi : service i = name)
    (hcalls : s'.calls = Function.update s.calls i c) (hbefore : (s.calls i).Guards serviceId)
    (hafter : ¬ c.Guards serviceId) :
    (s'.forService service name).inflight serviceId
      = (s.forService service name).inflight serviceId - 1 := by
  have hleave := census_leave (f := s.calls) (P := fun j c => service j = name ∧ c.Guards serviceId)
    ⟨hi, hbefore⟩ (fun hc => hafter hc.2)
  rw [← hcalls] at hleave
  have hcast := (eq_pred_of_add_one (hleave.trans (h.encard_ownGuards service name serviceId))).2
  rw [forService_inflight, Set.ncard]
  exact (congrArg ENat.toNat hcast).trans rfl

/-- The service's own guards are fewer than a counter can be shared. -/
theorem Counted.inflight_lt (h : s.Counted) (hi : s.calls i = .adding serviceId a)
    (service : ℕ → String) (name : String) :
    ((s.forService service name).inflight serviceId : ℤ) < isizeMax := by
  have found := h.kept i serviceId a (Or.inl hi)
  have hle : (s.forService service name).inflight serviceId ≤ (s.counter a).toNat := by
    have hsubset := Set.encard_le_encard (ownGuards_subset service name s serviceId)
    rw [h.encard_ownGuards, h.count serviceId a found] at hsubset
    exact_mod_cast hsubset
  have hlt := h.toNat_lt hi
  have hroom := h.room serviceId a found
  omega

/-- A score of the service is the one it would read by itself. -/
theorem Counted.computeLoadScore_eq (h : s.Counted) {inst : ServiceInstance}
    (hfree : ∀ j, (s.calls j).Guards inst.serviceId → service j = name) :
    s.computeLoadScore inst = (s.forService service name).computeLoadScore inst := by
  rw [computeLoadScore, ServiceSelector.computeLoadScore, h.load_eq hfree]

/-- A call of the service moves on without a counter. -/
theorem forService_quiet {c₀ : P2CCall} (hi : s.calls i = c₀) (hown : service i = name)
    (before : c₀.Free) (hstep : some (s.setCall i c) = some s') (after : c.Free) :
    s'.forService service name = (s.forService service name).setCall i c.seen := by
  obtain rfl := Option.some.inj hstep
  exact forService_setCall hown fun serviceId =>
    iff_of_false (after.not_guards serviceId) (hi.symm ▸ before.not_guards serviceId)

/-- A selection of the service returns. -/
theorem forService_returns {c₀ : P2CCall} {withGuard : Bool} {r : Option ServiceInstance}
    (hi : s.calls i = c₀) (hown : service i = name) (before : c₀.Free)
    (hstep : some (s.answer i withGuard r) = some s') :
    s'.forService service name = (s.forService service name).answer i withGuard r := by
  obtain rfl := Option.some.inj hstep
  exact forService_answer hown (hi.symm ▸ before) withGuard r

/-- A selection of the service begins. -/
theorem forService_begins {withGuard : Bool} {instances : List ServiceInstance}
    (hi : s.calls i = .idle) (hown : service i = name)
    (hstep : some (s.beginSelect i withGuard instances) = some s') :
    s'.forService service name
      = (s.forService service name).beginSelect i withGuard instances := by
  rcases instances with _ | ⟨inst1, _ | ⟨inst2, _ | ⟨inst3, rest⟩⟩⟩
  · exact forService_returns hi hown trivial hstep
  · exact forService_returns hi hown trivial hstep
  · exact forService_quiet hi hown trivial hstep trivial
  · exact forService_quiet hi hown trivial hstep trivial

/-- A call of the service looks its counter up, or inserts it: nothing that the service sees. -/
theorem forService_unseen {c₀ : P2CCall} (hi : s.calls i = c₀) (hown : service i = name)
    (before : c₀.seen = .looking serviceId) (hcalls : s'.calls = Function.update s.calls i c)
    (hselected : s'.selected = s.selected) (after : c.seen = .looking serviceId) :
    s'.forService service name = s.forService service name := by
  have hnot : ∀ {c : P2CCall}, c.seen = .looking serviceId →
      ∀ serviceId', ¬ c.Guards serviceId' := by
    rintro c hc serviceId' ⟨a, rfl⟩
    cases hc
  ext1
  · funext serviceId'
    exact inflight_forService hcalls (iff_of_false (hnot after serviceId')
      (hi.symm ▸ hnot before serviceId'))
  · rw [calls_forService hown hcalls, after, ← before, ← seen_of hi hown, Function.update_eq_self]
  · funext j
    rw [forService_selected, forService_selected, hselected]

theorem forService_share {c₀ : P2CCall} (hi : s.calls i = c₀) (hown : service i = name)
    (before : c₀.seen = .looking serviceId) (hshare : s.share i serviceId a = some s') :
    s'.forService service name = s.forService service name := by
  rw [share] at hshare
  split_ifs at hshare
  obtain rfl := Option.some.inj hshare
  exact forService_unseen hi hown before rfl rfl rfl

/-- A call of the service takes or drops its guard: one count changes. -/
theorem forService_count {n : ℕ} (hown : service i = name)
    (hcalls : s'.calls = Function.update s.calls i c) (hselected : s'.selected = s.selected)
    (hself : (s'.forService service name).inflight serviceId = n)
    (hother : ∀ serviceId' ≠ serviceId, c.Guards serviceId' ↔ (s.calls i).Guards serviceId') :
    s'.forService service name = { s.forService service name with
      inflight := Function.update (s.forService service name).inflight serviceId n }.setCall i
        c.seen := by
  ext1
  · funext serviceId'
    change _ = Function.update (s.forService service name).inflight serviceId n serviceId'
    rw [Function.update_apply]
    split_ifs with heq
    · rw [heq, hself]
    · exact inflight_forService hcalls (hother serviceId' heq)
  · exact calls_forService hown hcalls
  · funext j
    rw [forService_selected, hselected]
    rfl

theorem forService_fetchAdd (h : s.Counted) (hi : s.calls i = .adding serviceId a)
    (hown : service i = name) :
    (s.forService service name).step (.fetchAdd i)
      = some (({ s with counter := Function.update s.counter a (s.counter a + 1) }.setCall i
        (.guarding serviceId a)).forService service name) := by
  have hlt := h.inflight_lt hi service name
  simp only [ServiceSelector.step, seen_of hi hown, P2CCall.seen, if_pos hlt, Option.some.injEq]
  have hnot : ∀ serviceId', ¬ (s.calls i).Guards serviceId' := fun _ ⟨b, hb⟩ => by
    cases hi.symm.trans hb
  symm
  refine forService_count (s := s) (c := .guarding serviceId a) hown rfl rfl ?_
    fun serviceId' hne => iff_of_false ?_ (hnot serviceId')
  · exact inflight_enter h hown rfl (hnot serviceId) ⟨a, rfl⟩
  · rintro ⟨b, hb⟩
    exact hne (P2CCall.guarding.inj hb).1.symm

theorem forService_drop (h : s.Counted) (hi : s.calls i = .guarding serviceId a)
    (hown : service i = name) :
    (s.forService service name).step (.drop i)
      = some (({ s with
          counter := Function.update s.counter a (s.counter a - 1)
          strong := Function.update s.strong a (s.strong a - 1) }.setCall i .finished).forService
            service name) := by
  simp only [ServiceSelector.step, seen_of hi hown, P2CCall.seen, Option.some.injEq]
  have hnot : ∀ serviceId', ¬ P2CCall.finished.Guards serviceId' := fun _ ⟨b, hb⟩ => by cases hb
  symm
  refine forService_count (s := s) (c := .finished) hown rfl rfl ?_
    fun serviceId' hne => iff_of_false (hnot serviceId') ?_
  · exact inflight_leave h hown rfl ⟨a, hi⟩ (hnot serviceId)
  · rintro ⟨b, hb⟩
    exact hne (P2CCall.guarding.inj (hi.symm.trans hb)).1.symm

/-- **To a service that is not disturbed the selector is its own.** -/
theorem forService_own (h : s.Counted) (hown : service l.call = name)
    (hl : Undisturbed service name s l) (hstep : s.step l = some s') :
    if l.seen then (s.forService service name).step l = some (s'.forService service name)
    else s'.forService service name = s.forService service name := by
  revert hstep hown hl
  fun_cases P2CSystem.step s l <;> intro hown hl hstep
  case case1 i serviceId hi =>
    rw [forService_quiet hi hown trivial hstep trivial]
    simp [P2CLabel.seen, ServiceSelector.step, seen_of hi hown, P2CCall.seen]
  case case3 i withGuard instances hi =>
    rw [forService_begins hi hown hstep]
    simp [P2CLabel.seen, ServiceSelector.step, seen_of hi hown, P2CCall.seen]
  case case5 i seed withGuard instances hi idx1 idx2 hindices =>
    obtain ⟨inst1, hinst1, hstep⟩ := Option.bind_eq_some_iff.mp hstep
    obtain ⟨inst2, hinst2, hstep⟩ := Option.bind_eq_some_iff.mp hstep
    rw [show s'.forService service name = (s.forService service name).setCall i
      (.scoring withGuard inst1 inst2) from
        forService_quiet (s := { s with seedCounter := s.seedCounter + 1 }) hi hown trivial hstep
          trivial]
    simp [P2CLabel.seen, ServiceSelector.step, seen_of hi hown, P2CCall.seen, hindices, hinst1,
      hinst2]
  case case7 i withGuard inst1 inst2 hi =>
    have hscore : s.computeLoadScore inst1
        = (s.forService service name).computeLoadScore inst1 :=
      h.computeLoadScore_eq fun j => by simpa [Undisturbed, hi] using hl hown j
    rw [forService_quiet hi hown trivial hstep trivial, hscore]
    simp [P2CLabel.seen, ServiceSelector.step, seen_of hi hown, P2CCall.seen]
  case case8 i withGuard score1 inst1 inst2 hi =>
    have hscore : s.computeLoadScore inst2
        = (s.forService service name).computeLoadScore inst2 :=
      h.computeLoadScore_eq fun j => by simpa [Undisturbed, hi] using hl hown j
    rw [forService_returns hi hown trivial hstep, hscore]
    simp [P2CLabel.seen, ServiceSelector.step, seen_of hi hown, P2CCall.seen]
  case case10 i serviceId hi a found => exact forService_share hi hown rfl hstep
  case case11 i serviceId hi _ =>
    obtain rfl := Option.some.inj hstep
    exact forService_unseen hi hown rfl rfl rfl rfl
  case case13 i serviceId hi a found => exact forService_share hi hown rfl hstep
  case case14 i serviceId hi _ =>
    obtain rfl := Option.some.inj hstep
    exact forService_unseen hi hown rfl rfl rfl rfl
  case case16 i serviceId a hi =>
    obtain rfl := Option.some.inj hstep
    exact forService_fetchAdd h hi hown
  case case18 i serviceId a hi =>
    obtain rfl := Option.some.inj hstep
    exact forService_drop h hi hown
  all_goals cases hstep

/-! ## Runs -/

/-- The steps of a run that the service sees. -/
def sights (service : ℕ → String) (name : String) (w : List P2CLabel) : List P2CLabel :=
  w.filter fun l => decide (service l.call = name) && l.seen

/-- **`u` is the run `w` without the other services**: it takes the same steps, save that a call of
the service looks its counter up, and inserts it, as it finds it then. -/
structure Erased (service : ℕ → String) (name : String) (w u : List P2CLabel) : Prop where
  own : ∀ l ∈ u, service l.call = name
  sights_eq : sights service name u = sights service name w

theorem forService_step (h : s.Counted) (hl : Undisturbed service name s l)
    (hstep : s.step l = some s') :
    run ServiceSelector.step (s.forService service name) (sights service name [l])
      = some (s'.forService service name) := by
  rcases eq_or_ne (service l.call) name with hown | hown
  · have hcases := forService_own h hown hl hstep
    rcases hseen : l.seen with _ | _
    · rw [hseen, if_neg Bool.false_ne_true] at hcases
      simp [sights, hown, hseen, hcases]
    · rw [hseen, if_pos rfl] at hcases
      simp [sights, hown, hseen, hcases]
  · simp [sights, hown, forService_other (effect_of_step hstep) hown]

theorem flatMap_sights (w : List P2CLabel) :
    w.flatMap (fun l => sights service name [l]) = sights service name w := by
  induction w with
  | nil => rfl
  | cons l w ih =>
    rw [List.flatMap_cons, ih, sights, sights, ← List.filter_append]
    rfl

/-- **What an undisturbed service sees of a run is a run of its own selector.** -/
theorem forService_run (h : s.Counted) (hw : EachStep step (Undisturbed service name) s w)
    (hrun : run step s w = some t) :
    t.Counted ∧ run ServiceSelector.step (s.forService service name) (sights service name w)
      = some (t.forService service name) := by
  rw [← flatMap_sights]
  exact run_shadow (forService service name) (fun l => sights service name [l])
    (fun s l s' h hl hstep => ⟨h.step hstep, forService_step h hl hstep⟩) h hw hrun

/-- Only calls of the service keep counters. -/
def Own (service : ℕ → String) (name : String) (s : P2CSystem) : Prop :=
  ∀ i, service i ≠ name → (s.calls i).Free

theorem Own.step (h : s.Own service name) (hown : service l.call = name)
    (hstep : s.step l = some s') : s'.Own service name := by
  obtain ⟨c, hcalls⟩ := (effect_of_step hstep).calls_eq
  intro i hi
  have hne : i ≠ l.call := by
    rintro rfl
    exact hi hown
  rw [hcalls, Function.update_of_ne hne]
  exact h i hi

theorem Own.undisturbed (h : s.Own service name) (l : P2CLabel) : Undisturbed service name s l := by
  have hguards : ∀ j serviceId, (s.calls j).Guards serviceId → service j = name := by
    intro j serviceId hj
    by_contra hne
    exact (h j hne).not_guards serviceId hj
  cases l with
  | score i =>
    intro _ j
    split
    · exact hguards j _
    · exact hguards j _
    · trivial
  | _ => trivial

theorem own_new : new.Own service name := fun _ _ => trivial

/-- By itself a service is not disturbed. -/
theorem Own.eachStep (h : s.Own service name) (hu : ∀ l ∈ u, service l.call = name) :
    EachStep P2CSystem.step (Undisturbed service name) s u :=
  EachStep.imp_of_invariant (C := fun _ l => service l.call = name)
    (fun _ _ _ h hown hstep => h.step hown hstep) (fun _ l h _ => h.undisturbed l) h
    (eachStep_of_forall_mem hu)

/-! ## The run of the service alone -/

/-- The service's calls have the counters to themselves, and all are settled. -/
structure Alone (service : ℕ → String) (name : String) (s : P2CSystem) : Prop where
  counted : s.Counted
  own : s.Own service name
  settled : ∀ i, (s.calls i).Settled

/-- A call of the service goes on to a settled state. -/
theorem Alone.next (h : s.Alone service name) (hown : service l.call = name)
    (hstep : s.step l = some s') (hsettled : (s'.calls l.call).Settled) :
    s'.Alone service name := by
  obtain ⟨c, hcalls⟩ := (effect_of_step hstep).calls_eq
  refine ⟨h.counted.step hstep, h.own.step hown hstep, fun i => ?_⟩
  rcases eq_or_ne i l.call with rfl | hi
  · exact hsettled
  · rw [hcalls, Function.update_of_ne hi]
    exact h.settled i

theorem settled_setCall (hc : c.Settled) : ((s.setCall i c).calls i).Settled := by
  rw [setCall_calls, Function.update_self]
  exact hc

theorem settled_beginSelect {withGuard : Bool} {instances : List ServiceInstance} :
    ((s.beginSelect i withGuard instances).calls i).Settled := by
  rcases instances with _ | ⟨inst1, _ | ⟨inst2, _ | ⟨inst3, rest⟩⟩⟩
  · exact settled_setCall (P2CCall.settled_answered _ _)
  · exact settled_setCall (P2CCall.settled_answered _ _)
  · exact settled_setCall (c := .scoring withGuard inst1 inst2) trivial
  · exact settled_setCall (c := .drawing withGuard (inst1 :: inst2 :: inst3 :: rest)) trivial

theorem Alone.calls_eq {c₀ : P2CCall} (h : s.Alone service name)
    (hi : (s.forService service name).calls i = c₀) (hown : service i = name) (hfree : c₀.Free) :
    s.calls i = c₀ :=
  P2CCall.eq_of_seen (h.settled i) ((seen_self hown).symm.trans hi) hfree

/-- What the service's own selector does in a step other than taking a guard, the shared one does
as well. -/
theorem Alone.enabled {v : ServiceSelector} (h : s.Alone service name)
    (hown : service l.call = name) (hl : ∀ i, l ≠ .fetchAdd i)
    (hv : (s.forService service name).step l = some v) :
    ∃ s', s.step l = some s' ∧ (s'.calls l.call).Settled := by
  revert hown hl hv
  fun_cases ServiceSelector.step (s.forService service name) l <;> intro hown hl hv
  case case1 i serviceId hi =>
    exact ⟨s.setCall i (.looking serviceId), by simp [step, h.calls_eq hi hown trivial],
      settled_setCall trivial⟩
  case case3 i withGuard instances hi =>
    exact ⟨s.beginSelect i withGuard instances, by simp [step, h.calls_eq hi hown trivial],
      settled_beginSelect⟩
  case case5 i seed withGuard instances hi idx1 idx2 hindices =>
    obtain ⟨inst1, hinst1, hv⟩ := Option.bind_eq_some_iff.mp hv
    obtain ⟨inst2, hinst2, hv⟩ := Option.bind_eq_some_iff.mp hv
    refine ⟨{ s with seedCounter := s.seedCounter + 1 }.setCall i (.scoring withGuard inst1 inst2),
      ?_, settled_setCall (c := .scoring withGuard inst1 inst2) trivial⟩
    simp [step, h.calls_eq hi hown trivial, hindices, hinst1, hinst2]
  case case7 i withGuard inst1 inst2 hi =>
    exact ⟨s.setCall i (.comparing withGuard (s.computeLoadScore inst1) inst1 inst2),
      by simp [step, h.calls_eq hi hown trivial], settled_setCall trivial⟩
  case case8 i withGuard score1 inst1 inst2 hi =>
    exact ⟨s.answer i withGuard (some (if score1 ≤ s.computeLoadScore inst2 then inst1 else inst2)),
      by simp [step, h.calls_eq hi hown trivial], settled_setCall (P2CCall.settled_answered _ _)⟩
  case case12 i _ _ _ => exact absurd rfl (hl i)
  case case15 i serviceId b hi =>
    obtain ⟨a, hi'⟩ := P2CCall.guarding_of_seen ((seen_self (i := i) hown).symm.trans hi)
    refine ⟨{ s with
      counter := Function.update s.counter a (s.counter a - 1)
      strong := Function.update s.strong a (s.strong a - 1) }.setCall i .finished, ?_,
      settled_setCall (c := .finished) trivial⟩
    simp [step, hi']
  all_goals cases hv

/-- While no call has looked its counter up, only the guards keep it. -/
theorem Alone.shares (h : s.Alone service name) (found : s.inflight.lookup serviceId = some a) :
    s.strong a = (s.forService service name).inflight serviceId + 1 := by
  have hkeepers : s.keepers serviceId = s.ownGuards service name serviceId := by
    ext i
    constructor
    · rintro ⟨b, hb | hb⟩
      · exact absurd (h.settled i) (by rw [hb]; exact id)
      · exact ⟨by_contra fun hne => (h.own i hne).not_guards serviceId ⟨b, hb⟩, b, hb⟩
    · rintro ⟨-, b, hb⟩
      exact ⟨b, Or.inr hb⟩
  have hshares := h.counted.shares serviceId a found
  rw [hkeepers, h.counted.encard_ownGuards] at hshares
  exact_mod_cast hshares.symm

/-- A call of the service gets the counter of its id, which is there or not. -/
theorem Alone.get (h : s.Alone service name) (hi : s.calls i = .looking serviceId)
    (hroom : ((s.forService service name).inflight serviceId : ℤ) < isizeMax) :
    ∃ (u : List P2CLabel) (t : P2CSystem) (a : ℕ),
      (∀ l ∈ u, l.call = i ∧ l.seen = false) ∧ run step s u = some t
      ∧ t.calls = Function.update s.calls i (.adding serviceId a) := by
  rcases hfound : s.inflight.lookup serviceId with _ | a
  · have hlook : s.step (.lookUp i) = some (s.setCall i (.inserting serviceId)) := by
      simp [step, hi, hfound]
    have hinsert : (s.setCall i (.inserting serviceId)).step (.insert i)
        = some ((s.setCall i (.inserting serviceId)).create i serviceId) := by
      simp [step, hfound]
    refine ⟨[.lookUp i, .insert i], _, s.next, by simp [P2CLabel.call, P2CLabel.seen],
      run_cons_eq_some.mpr ⟨_, hlook, run_cons_eq_some.mpr ⟨_, hinsert, rfl⟩⟩, ?_⟩
    exact Function.update_idem ..
  · have hstrong : (s.strong a : ℤ) ≤ isizeMax := by
      rw [h.shares hfound]
      push_cast
      omega
    have hlook : s.step (.lookUp i)
        = some ({ s with strong := Function.update s.strong a (s.strong a + 1) }.setCall i
          (.adding serviceId a)) := by
      simp [step, hi, hfound, share, hstrong]
    exact ⟨[.lookUp i], _, a, by simp [P2CLabel.call, P2CLabel.seen],
      run_cons_eq_some.mpr ⟨_, hlook, rfl⟩, rfl⟩

theorem Alone.realize_fetchAdd {v : ServiceSelector} (h : s.Alone service name)
    (hown : service i = name) (hv : (s.forService service name).step (.fetchAdd i) = some v) :
    ∃ u t, (∀ l ∈ u, service l.call = name) ∧ sights service name u = [.fetchAdd i]
      ∧ run step s u = some t ∧ t.Alone service name ∧ t.forService service name = v := by
  obtain ⟨serviceId, hi, hroom⟩ : ∃ serviceId, s.calls i = .looking serviceId
      ∧ ((s.forService service name).inflight serviceId : ℤ) < isizeMax := by
    rcases hseen : (s.forService service name).calls i with _ | _ | _ | _ | serviceId
    case looking =>
      refine ⟨serviceId, h.calls_eq hseen hown trivial, by_contra fun hroom => ?_⟩
      simp [ServiceSelector.step, hseen, hroom] at hv
    all_goals simp [ServiceSelector.step, hseen] at hv
  obtain ⟨u, t, a, hu, hrun, hcalls⟩ := h.get hi hroom
  have hown' : ∀ l ∈ u, service l.call = name := fun l hl => (hu l hl).1 ▸ hown
  have hnone : sights service name u = [] :=
    List.filter_eq_nil_iff.mpr fun l hl => by simp [(hu l hl).2]
  obtain ⟨hcounted, hview⟩ := forService_run h.counted (h.own.eachStep hown') hrun
  rw [hnone, run_nil, Option.some.injEq] at hview
  have hself : t.calls i = .adding serviceId a := by rw [hcalls, Function.update_self]
  have hview' := forService_fetchAdd hcounted hself hown
  rw [← hview, hv] at hview'
  have hstep : t.step (.fetchAdd i)
      = some ({ t with counter := Function.update t.counter a (t.counter a + 1) }.setCall i
        (.guarding serviceId a)) := by
    simp [step, hself]
  have hset : Function.update t.calls i (.guarding serviceId a)
      = Function.update s.calls i (.guarding serviceId a) := by
    rw [hcalls, Function.update_idem]
  have hlast : run step t [.fetchAdd i] = _ := run_cons_eq_some.mpr ⟨_, hstep, rfl⟩
  refine ⟨u ++ [.fetchAdd i], _, ?_, ?_, run_append_eq_some.mpr ⟨t, hrun, hlast⟩,
    ⟨hcounted.step hstep, fun j hj => ?_, fun j => ?_⟩, (Option.some.inj hview').symm⟩
  · intro l hl
    rcases List.mem_append.mp hl with hl | hl
    · exact hown' l hl
    · rw [List.mem_singleton.mp hl]
      exact hown
  · have hone : sights service name [.fetchAdd i] = [.fetchAdd i] := by
      simp [sights, P2CLabel.seen, P2CLabel.call, hown]
    rw [sights, List.filter_append]
    exact congrArg₂ (· ++ ·) hnone hone
  · rw [setCall_calls]
    change (Function.update t.calls i _ j).Free
    have hji : j ≠ i := by
      rintro rfl
      exact hj hown
    rw [hset, Function.update_of_ne hji]
    exact h.own j hj
  · rw [setCall_calls]
    change (Function.update t.calls i _ j).Settled
    rw [hset, Function.update_apply]
    split_ifs
    · trivial
    · exact h.settled j

/-- **What the service's own selector does, the shared one does for it alone.** -/
theorem Alone.realize {v : ServiceSelector} (h : s.Alone service name)
    (hown : service l.call = name) (hseen : l.seen = true)
    (hv : (s.forService service name).step l = some v) :
    ∃ u t, (∀ l ∈ u, service l.call = name) ∧ sights service name u = [l]
      ∧ run step s u = some t ∧ t.Alone service name ∧ t.forService service name = v := by
  by_cases hl : ∀ i, l ≠ .fetchAdd i
  · obtain ⟨s', hstep, hsettled⟩ := h.enabled hown hl hv
    have hview := forService_own h.counted hown (h.own.undisturbed l) hstep
    rw [hseen, if_pos rfl, hv] at hview
    exact ⟨[l], s', by simpa using hown, by simp [sights, hown, hseen],
      run_cons_eq_some.mpr ⟨s', hstep, rfl⟩, h.next hown hstep hsettled,
      (Option.some.inj hview).symm⟩
  · obtain ⟨i, rfl⟩ : ∃ i, l = .fetchAdd i := by simpa using hl
    exact h.realize_fetchAdd hown hv

theorem Alone.realize_run {v : ServiceSelector} (h : s.Alone service name)
    (hw : ∀ l ∈ w, service l.call = name ∧ l.seen = true)
    (hv : run ServiceSelector.step (s.forService service name) w = some v) :
    ∃ u t, (∀ l ∈ u, service l.call = name) ∧ sights service name u = w
      ∧ run step s u = some t := by
  induction w generalizing s with
  | nil => exact ⟨[], s, by simp, rfl, rfl⟩
  | cons l w ih =>
    obtain ⟨mid, hmid, hrest⟩ := run_cons_eq_some.mp hv
    obtain ⟨hl, hw'⟩ := List.forall_mem_cons.mp hw
    obtain ⟨u₁, s₁, hu₁, hsights₁, hrun₁, halone, rfl⟩ := h.realize hl.1 hl.2 hmid
    obtain ⟨u₂, t, hu₂, hsights₂, hrun₂⟩ := ih halone hw' hrest
    refine ⟨u₁ ++ u₂, t, ?_, ?_, run_append_eq_some.mpr ⟨s₁, hrun₁, hrun₂⟩⟩
    · intro l hl
      exact (List.mem_append.mp hl).elim (hu₁ l) (hu₂ l)
    · rw [sights, List.filter_append]
      exact congrArg₂ (· ++ ·) hsights₁ hsights₂

theorem alone_new : new.Alone service name := ⟨counted_new, own_new, fun _ => trivial⟩

/-- **Services do not interfere, while they are not disturbed.**  In every run in which no selection
of the service reads a counter while another service has a guard for the same id, the service's
calls select what they select without the other services. -/
theorem isolated (hw : EachStep step (Undisturbed service name) new w)
    (hrun : run step new w = some s) :
    (∃ u t, Erased service name w u ∧ run step new u = some t)
      ∧ ∀ u t, Erased service name w u → run step new u = some t →
        ∀ i, service i = name → t.selected i = s.selected i := by
  obtain ⟨-, hview⟩ := forService_run counted_new hw hrun
  constructor
  · obtain ⟨u, t, hu, hsights, hrun'⟩ := alone_new.realize_run
      (fun l hl => by simpa [sights] using (List.mem_filter.mp hl).2) hview
    exact ⟨u, t, ⟨hu, hsights⟩, hrun'⟩
  · intro u t hu hrun' i hi
    obtain ⟨-, hview'⟩ := forService_run counted_new (own_new.eachStep hu.own) hrun'
    rw [hu.sights_eq, hview, Option.some.injEq] at hview'
    have hselected := congrArg (fun v => v.selected i) hview'
    simpa [forService_selected, hi] using hselected.symm

/-- Call `0` is for one service, all others for another. -/
def twoServices (i : ℕ) : String := if i = 0 then "billing-svc" else "order-svc"

/-- An instance of a service; ids are the service's own. -/
def numbered (name serviceId : String) : ServiceInstance :=
  .new serviceId "public" "DEFAULT_GROUP" name none none

/-- `billing-svc` selects its instance `1`, with a guard. -/
def billing : List P2CLabel :=
  [.select 0 true [numbered "billing-svc" "1"], .lookUp 0, .insert 0, .fetchAdd 0]

/-- `order-svc` selects one of its instances `1` and `2`. -/
def ordering : List P2CLabel :=
  [.select 1 false [numbered "order-svc" "1", numbered "order-svc" "2"], .score 1, .score 1]

/-- `isolated` where the guard is dropped before. -/
theorem isolated_dropped :
    ∃ s, run step new (billing ++ [.drop 0] ++ ordering) = some s
      ∧ ((∃ u t, Erased twoServices "order-svc" (billing ++ [.drop 0] ++ ordering) u
          ∧ run step new u = some t)
        ∧ ∀ u t, Erased twoServices "order-svc" (billing ++ [.drop 0] ++ ordering) u →
          run step new u = some t →
            ∀ i, twoServices i = "order-svc" → t.selected i = s.selected i) := by
  obtain ⟨s, hrun⟩ : ∃ s, run step new (billing ++ [.drop 0] ++ ordering) = some s := ⟨_, rfl⟩
  refine ⟨s, hrun, isolated (eachStep_append.mpr ⟨?_, fun m hm => ?_⟩) hrun⟩
  · exact ⟨trivial, fun _ _ => ⟨trivial, fun _ _ => ⟨trivial, fun _ _ => ⟨trivial, fun _ _ =>
      ⟨trivial, fun _ _ => trivial⟩⟩⟩⟩⟩
  · obtain rfl := Option.some.inj hm
    refine Own.eachStep (fun i hi => ?_) (by decide)
    rcases i with _ | i
    · trivial
    · exact absurd rfl hi

/-- **One service's guard steers another's selection.** -/
theorem guard_of_another : ¬ ∀ (service : ℕ → String) (name : String) (w u : List P2CLabel)
    (s t : P2CSystem), run step new w = some s → Erased service name w u →
    run step new u = some t → ∀ i, service i = name → t.selected i = s.selected i := by
  intro h
  obtain ⟨s, hrun⟩ : ∃ s, run step new (billing ++ ordering) = some s := ⟨_, rfl⟩
  obtain ⟨t, hrun'⟩ : ∃ t, run step new ordering = some t := ⟨_, rfl⟩
  have herased : Erased twoServices "order-svc" (billing ++ ordering) ordering :=
    ⟨by decide, by rfl⟩
  have heq := h twoServices "order-svc" _ _ s t hrun herased hrun' 1 rfl
  obtain rfl := Option.some.inj hrun
  obtain rfl := Option.some.inj hrun'
  exact absurd heq (by decide +kernel)

end P2CSystem

end PecsRegistry
