import Mathlib.Algebra.Order.Group.MinMax
import PecsRegistry.Selector.Churn

/-!
# Selector/DeclaredWeights — the shares that declared weights lead to

A selection weighs an instance in whole hundredths, and as one at least.  So an instance is favoured
over another, in every window of some length, if and only if its quantised weight is the greater
(`favoured_iff`); declared weights that are two hundredths apart, once raised to one, are such
(`declared_weights_favour`).  Weights below one count the same, and so may neighbouring hundredths,
as the product with a hundred is rounded before it is cut off.
-/

open Transition

namespace PecsRegistry

/-- The first `k` windows of length `p` make up the first `k * p` entries. -/
theorem count_take_mul {α : Type} [BEq α] (l : List α) (p k : ℕ) (x : α) :
    (l.take (k * p)).count x = ∑ j ∈ Finset.range k, ((l.drop (j * p)).take p).count x := by
  induction k with
  | zero => simp
  | succ k ih =>
    rw [Finset.sum_range_succ, ← ih, Nat.succ_mul, List.take_add, List.count_append]

namespace WeightedRoundRobinSelector

variable {l : List ServiceInstance} {a b : ServiceInstance} {P : ℕ}

/-- Every window of `P` consecutive selections from the list, on a selector that starts fresh,
selects `a` strictly more often than `b`. -/
def Favours (l : List ServiceInstance) (a b : ServiceInstance) (P : ℕ) : Prop :=
  ∀ (svc : String) (calls : List SelectCall) (answers : List (Option ServiceInstance))
    (sel : WeightedRoundRobinSelector),
    (∀ call ∈ calls, call.1.serviceName = svc → call.2 = l) →
    serve select new calls = some (answers, sel) →
    ∀ t, t + P ≤ (selections svc calls answers).length →
      (((selections svc calls answers).drop t).take P).count (some b)
        < (((selections svc calls answers).drop t).take P).count (some a)

/-! ## Quantised weights -/

/-- **The greater quantised weight is favoured**, over a period. -/
theorem exists_favours (hn : 2 ≤ l.length) (hid : (l.map (·.serviceId)).Nodup) (ha : a ∈ l)
    (hb : b ∈ l) (hlt : quantisedWeight b < quantisedWeight a) : ∃ P, Favours l a b P := by
  refine ⟨period l, fun svc calls answers sel hfix hrun t ht => ?_⟩
  have hcounta := count_period hn hid hfix hrun ht ha
  have hcountb := count_period hn hid hfix hrun ht hb
  have hless : quantisedWeight b / weightGcd l < quantisedWeight a / weightGcd l := by
    obtain ⟨x, hx⟩ := weightGcd_dvd ha
    obtain ⟨y, hy⟩ := weightGcd_dvd hb
    have hg := weightGcd_cast_pos hn
    rw [hx, hy] at hlt ⊢
    rw [Int.mul_ediv_cancel_left x hg.ne', Int.mul_ediv_cancel_left y hg.ne']
    exact lt_of_mul_lt_mul_left hlt hg.le
  omega

/-- A list whose sums fit is served any number of times. -/
theorem serve_replicate (hn : 2 ≤ l.length) (hid : (l.map (·.serviceId)).Nodup)
    (hfits : ∀ inst ∈ l, l.length * quantisedWeight inst ≤ isizeMax) (svc : String) (n : ℕ) :
    ∃ answers sel,
      serve select new (List.replicate n (SelectContext.new svc, l)) = some (answers, sel) := by
  have hmax : (0 : ℤ) ≤ isizeMax := by norm_num [isizeMax]
  have hcard : (serviceIds l).card = l.length := by
    rw [serviceIds, List.toFinset_card_of_nodup hid, List.length_map]
  have hM : (0 : ℤ) ≤ isizeMax / l.length := Int.ediv_nonneg hmax (Int.natCast_nonneg _)
  have hwithin : Within (serviceIds l) (isizeMax / l.length) l := by
    refine ⟨subset_rfl, payOf_le hid hM fun inst hinst => ?_⟩
    have hpos : (0 : ℤ) < l.length := by exact_mod_cast List.length_pos_of_mem hinst
    rw [Int.le_ediv_iff_mul_le hpos, mul_comm]
    exact hfits inst hinst
  have hcalls : ∀ call ∈ List.replicate n (SelectContext.new svc, l),
      Within (serviceIds l) (isizeMax / l.length) call.2
        ∧ (serviceIds l).card * (isizeMax / l.length) ≤ isizeMax := by
    intro call hcall
    obtain rfl := List.eq_of_mem_replicate hcall
    refine ⟨hwithin, ?_⟩
    rw [hcard]
    exact Int.mul_ediv_self_le (by omega)
  obtain ⟨answers, hserve⟩ := (kept_new (fun _ => serviceIds l) fun _ => hM).serve_eq_unbounded
    (fun _ => hM) hcalls
  exact ⟨answers, _, hserve⟩

theorem length_selections_replicate {svc : String} {n : ℕ} {sel sel' : WeightedRoundRobinSelector}
    {answers : List (Option ServiceInstance)}
    (h : serve select sel (List.replicate n (SelectContext.new svc, l)) = some (answers, sel')) :
    (selections svc (List.replicate n (SelectContext.new svc, l)) answers).length = n := by
  have hall : ∀ p ∈ (List.replicate n (SelectContext.new svc, l)).zip answers,
      decide (p.1.1.serviceName = svc) = true := fun p hp => by
    obtain ⟨ctx, call⟩ := p
    rw [List.eq_of_mem_replicate (List.of_mem_zip hp).1]
    exact decide_eq_true rfl
  rw [selections, List.filter_eq_self.mpr hall, List.length_map, List.length_zip,
    length_of_serve h, List.length_replicate, Nat.min_self]

section Windows

variable {svc : String} {calls : List SelectCall} {answers : List (Option ServiceInstance)}
  {sel : WeightedRoundRobinSelector} {k : ℕ}

/-- A number of periods selects an instance as many times its share. -/
theorem count_periods (hn : 2 ≤ l.length) (hid : (l.map (·.serviceId)).Nodup)
    (hfix : ∀ call ∈ calls, call.1.serviceName = svc → call.2 = l)
    (hrun : serve select new calls = some (answers, sel))
    (hk : k * period l ≤ (selections svc calls answers).length) (ha : a ∈ l) :
    (((selections svc calls answers).take (k * period l)).count (some a) : ℤ)
      = k * (quantisedWeight a / weightGcd l) := by
  rw [count_take_mul, Nat.cast_sum, Finset.sum_congr rfl fun j hj => ?_, Finset.sum_const,
    Finset.card_range, nsmul_eq_mul]
  refine count_period hn hid hfix hrun ?_ ha
  have hle := Nat.mul_le_mul_right (period l) (Finset.mem_range.mp hj)
  linarith [Nat.succ_mul j (period l)]

/-- Over a number of windows the favoured instance is ahead, as it is over each. -/
theorem Favours.take (h : Favours l a b P)
    (hfix : ∀ call ∈ calls, call.1.serviceName = svc → call.2 = l)
    (hrun : serve select new calls = some (answers, sel)) (hpos : 0 < k)
    (hk : k * P ≤ (selections svc calls answers).length) :
    ((selections svc calls answers).take (k * P)).count (some b)
      < ((selections svc calls answers).take (k * P)).count (some a) := by
  rw [count_take_mul, count_take_mul]
  refine Finset.sum_lt_sum_of_nonempty ⟨0, Finset.mem_range.mpr hpos⟩ fun j hj => ?_
  refine h svc calls answers sel hfix hrun (j * P) ?_
  have hle := Nat.mul_le_mul_right P (Finset.mem_range.mp hj)
  linarith [Nat.succ_mul j P]

end Windows

/-- **Favoured over any length is greater in weight**: a number of windows makes up a number of
periods. -/
theorem lt_of_favours (hn : 2 ≤ l.length) (hid : (l.map (·.serviceId)).Nodup) (ha : a ∈ l)
    (hb : b ∈ l) (hfits : ∀ inst ∈ l, l.length * quantisedWeight inst ≤ isizeMax)
    (h : Favours l a b P) : quantisedWeight b < quantisedWeight a := by
  obtain ⟨answers, sel, hrun⟩ := serve_replicate hn hid hfits "svc" (P * period l)
  have hlength := length_selections_replicate hrun
  have hfix : ∀ call ∈ List.replicate (P * period l) (SelectContext.new "svc", l),
      call.1.serviceName = "svc" → call.2 = l := fun call hcall _ => by
    rw [List.eq_of_mem_replicate hcall]
  have hless := h.take hfix hrun (period_pos hn) ((Nat.mul_comm _ _).trans_le hlength.ge)
  rw [Nat.mul_comm (period l) P] at hless
  have hshares : (P : ℤ) * (quantisedWeight b / weightGcd l)
      < P * (quantisedWeight a / weightGcd l) := by
    rw [← count_periods hn hid hfix hrun hlength.ge hb,
      ← count_periods hn hid hfix hrun hlength.ge ha]
    exact_mod_cast hless
  have hquotient := lt_of_mul_lt_mul_left hshares (Int.natCast_nonneg P)
  exact lt_of_not_ge fun hle => absurd hquotient
    (not_lt.mpr (Int.ediv_le_ediv (weightGcd_cast_pos hn) hle))

/-- **Who is favoured, exactly**: the instance of the greater quantised weight. -/
theorem favoured_iff (hn : 2 ≤ l.length) (hid : (l.map (·.serviceId)).Nodup) (ha : a ∈ l)
    (hb : b ∈ l) (hfits : ∀ inst ∈ l, l.length * quantisedWeight inst ≤ isizeMax) :
    (∃ P, Favours l a b P) ↔ quantisedWeight b < quantisedWeight a :=
  ⟨fun ⟨_, h⟩ => lt_of_favours hn hid ha hb hfits h, exists_favours hn hid ha hb⟩

/-! ## Declared weights -/

/-- The instance declares `k` hundredths, up to the rounding of its double. -/
def Declares (inst : ServiceInstance) (k : ℕ) : Prop := |inst.weight - k / 100| ≤ 1 / 256

instance (inst : ServiceInstance) (k : ℕ) : Decidable (Declares inst k) :=
  inferInstanceAs (Decidable (|inst.weight - k / 100| ≤ 1 / 256))

/-- The nearest double is a declared weight, wherever the multiples of a 128th are all doubles:
below `2 ^ 46`, and so below `2 ^ 52` hundredths. -/
theorem declares_of_nearest {inst : ServiceInstance} {k : ℕ}
    (h : ∀ m : ℤ, |inst.weight - k / 100| ≤ |(m : ℚ) / 128 - k / 100|) : Declares inst k := by
  have hround := abs_sub_round ((k : ℚ) / 100 * 128)
  calc |inst.weight - k / 100|
      ≤ |(round ((k : ℚ) / 100 * 128) : ℚ) / 128 - k / 100| := h _
    _ = |(k : ℚ) / 100 * 128 - round ((k : ℚ) / 100 * 128)| / 128 := by
      rw [abs_sub_comm, ← abs_of_pos (by norm_num : (0 : ℚ) < 128), ← abs_div, sub_div,
        abs_of_pos (by norm_num : (0 : ℚ) < 128), mul_div_cancel_right₀ _ (by norm_num)]
    _ ≤ 1 / 256 := by linarith

/-- What is weighed of a declared weight: it is raised to one. -/
theorem Declares.abs_max_sub_le {inst : ServiceInstance} {k : ℕ} (h : Declares inst k) :
    |max inst.weight 1 * 100 - (max k 100 : ℕ)| ≤ 25 / 64 := by
  have hraised : ((max k 100 : ℕ) : ℚ) = max ((k : ℚ) / 100) 1 * 100 := by
    rw [max_mul_of_nonneg _ _ (by norm_num : (0 : ℚ) ≤ 100), div_mul_cancel₀ _ (by norm_num),
      one_mul]
    push_cast
    rfl
  have hmax := (abs_max_sub_max_le_abs inst.weight ((k : ℚ) / 100) 1).trans h
  rw [hraised, ← sub_mul, abs_mul, abs_of_pos (by norm_num : (0 : ℚ) < 100)]
  linarith

/-- The rounded product is off by at most a quarter more than the declared weight: by less than one
in all. -/
theorem Declares.abs_mulF64_sub_lt {inst : ServiceInstance} {k : ℕ} (h : Declares inst k)
    (hk : max k 100 < 2 ^ 52) : |mulF64 (max inst.weight 1) 100 - (max k 100 : ℕ)| < 1 := by
  have hclose := h.abs_max_sub_le
  have hsmall : max inst.weight 1 * 100 < 2 ^ 52 := by
    have hle : ((max k 100 : ℕ) : ℚ) ≤ 2 ^ 52 - 1 := by
      have hsucc : ((max k 100 + 1 : ℕ) : ℚ) ≤ (2 ^ 52 : ℕ) := by exact_mod_cast hk
      push_cast at hsucc ⊢
      linarith
    have := (abs_le.mp hclose).2
    linarith
  have hround := PecsRegistry.abs_mulF64_sub_le (max inst.weight 1) 100
  have hulp := ulp_le_half hsmall
  calc |mulF64 (max inst.weight 1) 100 - (max k 100 : ℕ)|
      ≤ |mulF64 (max inst.weight 1) 100 - max inst.weight 1 * 100|
        + |max inst.weight 1 * 100 - (max k 100 : ℕ)| := abs_sub_le _ _ _
    _ ≤ 1 / 4 + 25 / 64 := add_le_add (by linarith) hclose
    _ < 1 := by norm_num

/-- **Two hundredths apart stay apart**: cut off, the one is its hundredths at most, the other one
less at least. -/
theorem quantisedWeight_lt {i j : ℕ} (ha : Declares a i) (hb : Declares b j) (hi : i < 2 ^ 52)
    (hapart : max j 100 + 2 ≤ max i 100) : quantisedWeight b < quantisedWeight a := by
  have hsmall : max i 100 < 2 ^ 52 := max_lt hi (by norm_num)
  have hcutb := abs_lt.mp (hb.abs_mulF64_sub_lt (by omega))
  have hcuta := abs_lt.mp (ha.abs_mulF64_sub_lt hsmall)
  have hhundred : (100 : ℚ) ≤ (max j 100 : ℕ) := by exact_mod_cast le_max_right j 100
  have hless : quantisedWeight b < (max j 100 : ℕ) + 1 := by
    refine asIsize_lt (by linarith) ?_
    push_cast at hcutb ⊢
    linarith
  have hmore : ((max i 100 : ℕ) : ℤ) - 1 ≤ quantisedWeight a := by
    refine le_asIsize (by omega) (by norm_num [isizeMax]; omega) ?_
    push_cast at hcuta ⊢
    linarith
  omega

/-- **Declared weights order the shares**, once they are raised to one and as far as they are two
hundredths apart: some length has each of its windows select the heavier instance more often. -/
theorem declared_weights_favour (hn : 2 ≤ l.length) (hid : (l.map (·.serviceId)).Nodup)
    (ha : a ∈ l) (hb : b ∈ l) {i j : ℕ} (hai : Declares a i) (hbj : Declares b j)
    (hi : i < 2 ^ 52) (hapart : max j 100 + 2 ≤ max i 100) : ∃ P, Favours l a b P :=
  exists_favours hn hid ha hb (quantisedWeight_lt hai hbj hi hapart)

/-- Two instances of one service. -/
def first (w : ℚ) : ServiceInstance := (ServiceInstance.simple "svc" "a" 80).withWeight w

def second (w : ℚ) : ServiceInstance := (ServiceInstance.simple "svc" "b" 80).withWeight w

/-- The double nearest to 35184372088832.02. -/
example : Declares (first (2 ^ 45 + 3 / 128)) 3518437208883202 := by decide +kernel

theorem declared_weights_favour_pair : ∃ P, Favours [first (5 / 2), second (1 / 2)] (first (5 / 2))
    (second (1 / 2)) P :=
  declared_weights_favour (by decide) (by decide +kernel) (by simp) (by simp)
    (i := 250) (j := 50) (by decide +kernel) (by decide +kernel) (by decide) (by decide)

/-- The greater of two declared weights is favoured. -/
def Ordered (w w' : ℚ) : Prop :=
  w' < w → ∃ P, Favours [first w, second w'] (first w) (second w') P

theorem not_ordered {w w' : ℚ} (hlt : w' < w)
    (hid : ([first w, second w'].map (·.serviceId)).Nodup)
    (hfits : ∀ inst ∈ [first w, second w'], 2 * quantisedWeight inst ≤ isizeMax)
    (heq : quantisedWeight (second w') = quantisedWeight (first w)) : ¬ Ordered w w' := by
  intro h
  have hfavours := h hlt
  rw [favoured_iff le_rfl hid (by simp) (by simp) hfits] at hfavours
  exact hfavours.ne heq

/-- **Declared weights need not order the shares**: a half and a quarter both count as one, the
doubles nearest to 1.13 and 1.12 both as 112 hundredths, and beyond `2 ^ 51` neighbouring doubles
may have the same product with a hundred. -/
theorem order_lost : ¬ Ordered (1 / 2) (1 / 4)
    ∧ ¬ Ordered (1272266894732165 / 2 ^ 50) (1261007895663739 / 2 ^ 50)
    ∧ ¬ Ordered (6755399441055747 / 2) 3377699720527873 :=
  ⟨not_ordered (by decide +kernel) (by decide +kernel) (by decide +kernel) (by decide +kernel),
    not_ordered (by decide +kernel) (by decide +kernel) (by decide +kernel) (by decide +kernel),
    not_ordered (by decide +kernel) (by decide +kernel) (by decide +kernel) (by decide +kernel)⟩

end WeightedRoundRobinSelector

end PecsRegistry
