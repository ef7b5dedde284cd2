import Mathlib.Algebra.BigOperators.Group.Finset.Piecewise
import Mathlib.Algebra.Order.BigOperators.Group.Finset
import Mathlib.Data.Finset.Card
import Mathlib.Tactic.Linarith
import Mathlib.Tactic.Ring

/-!
# Machinery/Contest — credits under contests of changing fields

Every candidate of a universe `U` carries an integer credit.  A contest is held among some of them,
its field: each candidate of the field is paid its weight, and one whose raised credit is greatest
pays the total.  An adversary chooses the field and the weights, each at most `M`.

No bound on one credit survives a contest by itself.  What survives is a bound on every set of
candidates at once (`Level`): the credits of `k` candidates sum to at most `M·k·(n - k)`.  The
bound is concave in `k`, and that is just enough: what the losers of a contest gain is paid for by
the sets with the winner and without the losers.  At `k = 1` and `k = n - 1` it confines each single
credit (`Level.le`, `Level.neg_le`).
-/

open Finset

namespace Contest

variable {ι : Type*}

/-- The credits of `n` candidates sum to zero, those of `k` of them to at most `M·k·(n - k)`. -/
structure Level (U : Finset ι) (M : ℤ) (c : ι → ℤ) : Prop where
  sum : ∑ i ∈ U, c i = 0
  top : ∀ A ⊆ U, ∑ i ∈ A, c i ≤ M * #A * (#U - #A)

theorem level_zero (U : Finset ι) {M : ℤ} (hM : 0 ≤ M) : Level U M fun _ => 0 where
  sum := sum_const_zero
  top A hA := by
    have hcard : (#A : ℤ) ≤ #U := by exact_mod_cast card_le_card hA
    rw [sum_const_zero]
    exact mul_nonneg (mul_nonneg hM (by positivity)) (by linarith)

/-- **No credit rises above `M·(n - 1)`…** -/
theorem Level.le {U : Finset ι} {M : ℤ} {c : ι → ℤ} (h : Level U M c) {i : ι} (hi : i ∈ U) :
    c i ≤ M * (#U - 1) := by
  simpa using h.top {i} (singleton_subset_iff.mpr hi)

variable [DecidableEq ι] {U S A : Finset ι} {M : ℤ} {c w : ι → ℤ} {p : ι}

/-- **…and none falls below `-M·(n - 1)`.** -/
theorem Level.neg_le (h : Level U M c) {i : ι} (hi : i ∈ U) : -(M * (#U - 1)) ≤ c i := by
  have hrest := h.top (U.erase i) (erase_subset i U)
  have hsum := h.sum
  rw [← add_sum_erase U c hi] at hsum
  rw [card_erase_of_mem hi, Nat.cast_sub (card_pos.mpr ⟨i, hi⟩), Nat.cast_one] at hrest
  linarith

/-! ## One contest -/

/-- The credits after a contest among `S`, won by `p`. -/
def settle (c w : ι → ℤ) (S : Finset ι) (p : ι) : ι → ℤ := fun i =>
  c i + (if i ∈ S then w i else 0) - if i = p then ∑ j ∈ S, w j else 0

theorem sum_settle (c w : ι → ℤ) (S : Finset ι) (p : ι) (A : Finset ι) :
    ∑ i ∈ A, settle c w S p i
      = ∑ i ∈ A, c i + ∑ i ∈ A ∩ S, w i - if p ∈ A then ∑ j ∈ S, w j else 0 := by
  simp only [settle, sum_sub_distrib, sum_add_distrib]
  rw [sum_ite_mem, sum_ite_eq']

/-- A set with the winner only pays. -/
theorem sum_settle_le_of_mem (hw : ∀ i ∈ S, 0 ≤ w i) (hp : p ∈ A) :
    ∑ i ∈ A, settle c w S p i ≤ ∑ i ∈ A, c i := by
  have hsub : ∑ i ∈ A ∩ S, w i ≤ ∑ i ∈ S, w i :=
    sum_le_sum_of_subset_of_nonneg inter_subset_right fun i hi _ => hw i hi
  rw [sum_settle, if_pos hp]
  linarith

/-- **A set without the winner** keeps its bound.  Its losers, `m` in number, end at most where the
winner stood, so `m + 1` times its sum is at most `m` times the bound with the winner, plus the
bound without the losers, plus what the contest paid out. -/
theorem Level.sum_settle_le_of_not_mem (h : Level U M c) (hS : S ⊆ U) (hp : p ∈ S)
    (hw : ∀ i ∈ S, w i ≤ M) (hbest : ∀ i ∈ S, c i + w i ≤ c p + w p) (hA : A ⊆ U) (hpA : p ∉ A) :
    ∑ i ∈ A, settle c w S p i ≤ M * #A * (#U - #A) := by
  have hwith := h.top (insert p A) (insert_subset (hS hp) hA)
  have hwithout := h.top (A \ S) (sdiff_subset.trans hA)
  have hsplit : ∑ i ∈ A \ S, c i + ∑ i ∈ A ∩ S, c i = ∑ i ∈ A, c i := by
    rw [add_comm]
    exact sum_inter_add_sum_sdiff A S c
  have hcard : (#(A \ S) : ℤ) = #A - #(A ∩ S) := by
    have := card_inter_add_card_sdiff A S
    omega
  have hlosers : ∑ i ∈ A ∩ S, (c i + w i) ≤ #(A ∩ S) * (c p + w p) := by
    have := sum_le_card_nsmul (A ∩ S) (fun i => c i + w i) (c p + w p)
      fun i hi => hbest i (mem_inter.mp hi).2
    simpa using this
  have hpaid : ∑ i ∈ A ∩ S, w i ≤ #(A ∩ S) * M := by
    have := sum_le_card_nsmul (A ∩ S) w M fun i hi => hw i (mem_inter.mp hi).2
    simpa using this
  rw [sum_settle, if_neg hpA, sub_zero]
  rw [sum_insert hpA, card_insert_of_notMem hpA] at hwith
  rw [hcard] at hwithout
  rw [sum_add_distrib] at hlosers
  have hwp := hw p hp
  push_cast at hwith
  have hm : (0 : ℤ) ≤ #(A ∩ S) := by positivity
  have hwith' := mul_le_mul_of_nonneg_left hwith hm
  have hpaid' := mul_le_mul_of_nonneg_left (add_le_add hpaid hwp) hm
  refine le_of_mul_le_mul_left (a := (#(A ∩ S) : ℤ) + 1) ?_ (by linarith)
  linarith

/-- **A contest keeps the level.** -/
theorem Level.settle (h : Level U M c) (hS : S ⊆ U) (hp : p ∈ S) (hpos : ∀ i ∈ S, 0 ≤ w i)
    (hw : ∀ i ∈ S, w i ≤ M) (hbest : ∀ i ∈ S, c i + w i ≤ c p + w p) :
    Level U M (settle c w S p) where
  sum := by
    rw [sum_settle, h.sum, inter_eq_right.mpr hS, if_pos (hS hp)]
    ring
  top A hA := by
    by_cases hpA : p ∈ A
    · exact (sum_settle_le_of_mem hpos hpA).trans (h.top A hA)
    · exact h.sum_settle_le_of_not_mem hS hp hw hbest hA hpA

end Contest
