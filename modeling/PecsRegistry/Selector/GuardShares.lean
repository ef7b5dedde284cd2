import PecsRegistry.Machinery.Apportionment
import PecsRegistry.Machinery.Transition
import PecsRegistry.Selector.P2C

/-!
# Selector/GuardShares — the live guards of two instances, while none is dropped

Of two instances `select_with_guard` takes the one with the lesser load score, which is the price of
its next guard: the guards are seats given by highest averages, so each instance's are within one of
its share of the effective weights (`guards_track_weights`).
-/

open Apportionment Transition

namespace PecsRegistry

namespace P2CSelector

variable {x : Fin 2 → ServiceInstance} {sel sel' : P2CSelector} {n : Fin 2 → ℕ}

/-- The weight that a load score divides by. -/
def effectiveWeight (inst : ServiceInstance) : ℚ := max inst.weight (1 / 10)

theorem effectiveWeight_pos (inst : ServiceInstance) : 0 < effectiveWeight inst :=
  lt_max_of_lt_right (by norm_num)

theorem computeLoadScore_eq (sel : P2CSelector) (inst : ServiceInstance) :
    sel.computeLoadScore inst = (sel.load inst.serviceId + 1) / effectiveWeight inst := rfl

/-- The guards of the two instances are proportional to their weights. -/
structure Apportions (x : Fin 2 → ServiceInstance) (n : Fin 2 → ℕ) (sel : P2CSelector) : Prop where
  load : ∀ i, sel.load (x i).serviceId = n i
  proportional : Proportional (fun i => effectiveWeight (x i)) n

/-- Of two instances, one whose load score is least is selected. -/
theorem select_pair (sel : P2CSelector) (clock : Clock) (ctx : SelectContext)
    (x : Fin 2 → ServiceInstance) : ∃ p, sel.select clock (ctx, [x 0, x 1]) = some (some (x p), sel)
      ∧ ∀ i, sel.computeLoadScore (x p) ≤ sel.computeLoadScore (x i) := by
  simp only [Fin.forall_fin_two]
  rcases sel.better_spec (x 0) (x 1) with ⟨h0, hle⟩ | ⟨h1, hle⟩
  · exact ⟨0, congrArg (fun inst => some (some inst, sel)) h0, le_rfl, hle⟩
  · exact ⟨1, congrArg (fun inst => some (some inst, sel)) h1, hle, le_rfl⟩

/-- **One more guard**, for the instance whose next guard is the cheaper. -/
theorem Apportions.selectWithGuard (h : Apportions x n sel)
    (hid : (x 0).serviceId ≠ (x 1).serviceId) {clock : Clock} {ctx : SelectContext}
    {r : Option ServiceInstance}
    (hselect : sel.selectWithGuard clock (ctx, [x 0, x 1]) = some (r, sel')) :
    ∃ p, r = some (x p) ∧ Apportions x (Function.update n p (n p + 1)) sel' := by
  have hinj : ∀ i p, (x i).serviceId = (x p).serviceId ↔ i = p := by
    simpa [Fin.forall_fin_two, hid] using hid.symm
  obtain ⟨p, hpick, hcheap⟩ := sel.select_pair clock ctx x
  rw [P2CSelector.selectWithGuard, hpick, Option.bind_some] at hselect
  obtain ⟨sel'', hacquire, heq⟩ := Option.map_eq_some_iff.mp hselect
  obtain ⟨rfl, rfl⟩ := Prod.mk.inj heq
  refine ⟨p, rfl, fun i => ?_, h.proportional.award (fun i => effectiveWeight_pos _) fun i => ?_⟩
  · rw [load_acquire hacquire, h.load, Function.update_apply]
    simp only [hinj]
    split_ifs with hip
    · rw [hip]
    · rfl
  · have hp := hcheap i
    rwa [computeLoadScore_eq, computeLoadScore_eq, h.load, h.load] at hp

/-- The calls are all for the two instances. -/
def pairRequests (x : Fin 2 → ServiceInstance) (requests : List (Clock × SelectContext)) :
    List (Clock × SelectCall) := requests.map fun r => (r.1, r.2, [x 0, x 1])

/-- What a run of `select_with_guard` answers. -/
def serveWithGuard (sel : P2CSelector) (requests : List (Clock × SelectCall)) :
    Option (List (Option ServiceInstance) × P2CSelector) :=
  serve (fun sel r => sel.selectWithGuard r.1 r.2) sel requests

theorem Apportions.serve (h : Apportions x n sel) (hid : (x 0).serviceId ≠ (x 1).serviceId)
    {requests : List (Clock × SelectContext)} {answers : List (Option ServiceInstance)}
    (hrun : sel.serveWithGuard (pairRequests x requests) = some (answers, sel')) :
    ∃ n', Apportions x n' sel' ∧ (∀ i, n' i = n i + answers.count (some (x i)))
      ∧ ∑ i, n' i = ∑ i, n i + requests.length := by
  induction requests generalizing sel n answers with
  | nil =>
    obtain ⟨rfl, rfl⟩ := Prod.mk.inj (Option.some.inj hrun)
    exact ⟨n, h, fun i => rfl, rfl⟩
  | cons request requests ih =>
    obtain ⟨r, sel₁, rs, hr, hrs, rfl⟩ := serve_cons_eq_some.mp hrun
    obtain ⟨p, rfl, h₁⟩ := h.selectWithGuard hid hr
    obtain ⟨n', h', hcount, hsum⟩ := ih h₁ hrs
    have hinj : ∀ i, some (x p) = some (x i) ↔ i = p := fun i =>
      ⟨fun he => by_contra fun hne => by
        have hsame := congrArg ServiceInstance.serviceId (Option.some.inj he)
        revert hne hsame
        revert i p
        simp [Fin.forall_fin_two, hid, hid.symm], fun he => by rw [he]⟩
    refine ⟨n', h', fun i => ?_, ?_⟩
    · rw [hcount, List.count_cons, Function.update_apply]
      simp only [beq_iff_eq, hinj]
      split_ifs with hip
      · rw [hip]
        omega
      · omega
    · rw [hsum, sum_award, List.length_cons]
      omega

/-- A run that takes no more than `isize::MAX` guards completes. -/
theorem Apportions.serve_isSome (h : Apportions x n sel)
    (hid : (x 0).serviceId ≠ (x 1).serviceId) {requests : List (Clock × SelectContext)}
    (hroom : ((∑ i, n i + requests.length : ℕ) : ℤ) ≤ isizeMax) :
    (sel.serveWithGuard (pairRequests x requests)).isSome := by
  induction requests generalizing sel n with
  | nil => rfl
  | cons request requests ih =>
    rw [List.length_cons] at hroom
    obtain ⟨p, hpick, -⟩ := sel.select_pair request.1 request.2 x
    have hp : (sel.load (x p).serviceId : ℤ) < isizeMax := by
      have hle : n p ≤ ∑ i, n i :=
        Finset.single_le_sum (fun _ _ => Nat.zero_le _) (Finset.mem_univ p)
      rw [h.load]
      omega
    obtain ⟨sel₁, hacquire⟩ : ∃ sel₁, sel.acquire (x p).serviceId = some sel₁ := ⟨_, if_pos hp⟩
    have hr := selectWithGuard_eq_some.mpr ⟨sel, hpick, hacquire⟩
    obtain ⟨q, -, h₁⟩ := h.selectWithGuard hid hr
    obtain ⟨⟨rs, sel'⟩, hrs⟩ := Option.isSome_iff_exists.mp
      (ih h₁ (by rw [sum_award]; omega))
    exact Option.isSome_iff_exists.mpr ⟨_, serve_cons_eq_some.mpr ⟨_, _, _, hr, hrs, rfl⟩⟩

/-- **Two instances share the guards by their weights.**  From no live guards on, after any number
of `select_with_guard` calls with no guard dropped, each instance's live guards are the calls that
selected it, and are less than one away from its share of the effective weights. -/
theorem guards_track_weights (hid : (x 0).serviceId ≠ (x 1).serviceId)
    (hfree : ∀ i, sel.load (x i).serviceId = 0) {requests : List (Clock × SelectContext)}
    {answers : List (Option ServiceInstance)}
    (hrun : sel.serveWithGuard (pairRequests x requests) = some (answers, sel')) (i : Fin 2) :
    sel'.load (x i).serviceId = answers.count (some (x i))
      ∧ |(sel'.load (x i).serviceId : ℚ) - requests.length
          * (effectiveWeight (x i) / (effectiveWeight (x 0) + effectiveWeight (x 1)))| < 1 := by
  have hstart : Apportions x 0 sel :=
    ⟨hfree, proportional_zero fun i => effectiveWeight_pos _⟩
  obtain ⟨n, h, hcount, hsum⟩ := hstart.serve hid hrun
  have hquota := h.proportional.abs_sub_quota_lt (fun i => effectiveWeight_pos _) i
  rw [hsum, Fin.sum_univ_two] at hquota
  rw [h.load]
  exact ⟨by simpa using hcount i, by simpa using hquota⟩

/-- A weak node and one of three times its weight. -/
def weakAndStrong : Fin 2 → ServiceInstance
  | 0 => .simple "calc-svc" "weak" 80
  | 1 => (ServiceInstance.simple "calc-svc" "strong" 80).withWeight 3

/-- `guards_track_weights` on five calls: two of them, or one, select the weak node. -/
theorem guards_track_weights_five : ∃ answers sel', new.serveWithGuard
      (pairRequests weakAndStrong (List.replicate 5 (fun _ => 0, .new "calc-svc")))
        = some (answers, sel')
    ∧ sel'.load (weakAndStrong 0).serviceId = answers.count (some (weakAndStrong 0))
    ∧ |(sel'.load (weakAndStrong 0).serviceId : ℚ) - (List.replicate 5
          ((fun _ => 0, .new "calc-svc") : Clock × SelectContext)).length
        * (effectiveWeight (weakAndStrong 0) / (effectiveWeight (weakAndStrong 0)
          + effectiveWeight (weakAndStrong 1)))| < 1 := by
  obtain ⟨⟨answers, sel'⟩, hrun⟩ := Option.isSome_iff_exists.mp
    (by decide +kernel : (new.serveWithGuard (pairRequests weakAndStrong
      (List.replicate 5 (fun _ => 0, .new "calc-svc")))).isSome)
  exact ⟨answers, sel', hrun, guards_track_weights (by decide) (by decide) hrun 0⟩

end P2CSelector

end PecsRegistry
