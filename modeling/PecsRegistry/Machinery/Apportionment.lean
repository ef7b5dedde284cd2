import Mathlib.Algebra.BigOperators.Fin
import Mathlib.Algebra.BigOperators.Ring.Finset
import Mathlib.Algebra.Order.BigOperators.Group.Finset
import Mathlib.Algebra.Order.Field.Basic
import Mathlib.Data.Fintype.BigOperators
import Mathlib.Tactic.FieldSimp
import Mathlib.Tactic.Linarith
import Mathlib.Tactic.Ring

/-!
# Machinery/Apportionment — seats by highest averages

Seats go one by one to a candidate whose next seat is the cheapest, `(n i + 1) / w i` least, for
positive weights `w`.  One invariant decides the shares: no seat given was dearer than any seat
still to give (`Proportional`).  Summed over the candidates it says that each is less than one seat
below its exact quota (`Proportional.quota_lt`); of two candidates, each is then less than one seat
above it too (`Proportional.abs_sub_quota_lt`).
-/

open Finset

namespace Apportionment

variable {ι K : Type*} [Field K] [LinearOrder K]

/-- The last seat of each candidate was no dearer than the next seat of any. -/
def Proportional (w : ι → K) (n : ι → ℕ) : Prop := ∀ i j, n i * w j ≤ (n j + 1) * w i

variable {w : ι → K} {n : ι → ℕ} {i p : ι}

theorem proportional_zero (hw : ∀ i, 0 < w i) : Proportional w 0 := fun i j => by
  simpa using (hw i).le

variable [IsStrictOrderedRing K]

/-- **A seat for a candidate whose next seat is the cheapest** keeps the shares proportional. -/
theorem Proportional.award [DecidableEq ι] (h : Proportional w n) (hw : ∀ i, 0 < w i)
    (hp : ∀ i, (n p + 1) / w p ≤ (n i + 1) / w i) :
    Proportional w (Function.update n p (n p + 1)) := by
  intro i j
  have hnext : ((n j : K) + 1) * w i ≤ (Function.update n p (n p + 1) j + 1) * w i := by
    refine mul_le_mul_of_nonneg_right ?_ (hw i).le
    rw [Function.update_apply]
    split_ifs with hj
    · rw [hj]
      push_cast
      linarith
    · exact le_rfl
  refine le_trans ?_ hnext
  rw [Function.update_apply]
  split_ifs with hi
  · have hcheap := (div_le_div_iff₀ (hw p) (hw j)).mp (hp j)
    rw [hi]
    push_cast
    exact hcheap
  · exact h i j

/-- Every award is one seat. -/
theorem sum_award [Fintype ι] [DecidableEq ι] (n : ι → ℕ) (p : ι) :
    ∑ i, Function.update n p (n p + 1) i = ∑ i, n i + 1 := by
  rw [sum_update_of_mem (mem_univ p), ← sum_erase_add _ _ (mem_univ p), sdiff_singleton_eq_erase]
  omega

/-- **Less than one seat below the quota.** -/
theorem Proportional.quota_lt [Fintype ι] (h : Proportional w n) (hw : ∀ i, 0 < w i) (i : ι) :
    (∑ j, n j : ℕ) * (w i / ∑ j, w j) < n i + 1 := by
  have htotal : 0 < ∑ j, w j := sum_pos (fun j _ => hw j) ⟨i, mem_univ i⟩
  rw [mul_div_assoc', div_lt_iff₀ htotal, Nat.cast_sum, sum_mul, mul_sum]
  refine sum_lt_sum (fun j _ => h j i) ⟨i, mem_univ i, ?_⟩
  linarith [hw i]

/-- **Of two candidates, each is within one seat of its quota**: what one is above, the other is
below. -/
theorem Proportional.abs_sub_quota_lt {w : Fin 2 → K} {n : Fin 2 → ℕ} (h : Proportional w n)
    (hw : ∀ i, 0 < w i) (i : Fin 2) :
    |(n i : K) - (∑ j, n j : ℕ) * (w i / ∑ j, w j)| < 1 := by
  have htotal : (0 : K) < ∑ j, w j := sum_pos (fun j _ => hw j) ⟨i, mem_univ i⟩
  have hquotas : ((∑ j, n j : ℕ) : K) * (w 0 / ∑ j, w j) + (∑ j, n j : ℕ) * (w 1 / ∑ j, w j)
      = n 0 + n 1 := by
    rw [← mul_add, ← add_div, ← Fin.sum_univ_two (f := w), div_self htotal.ne', mul_one,
      Fin.sum_univ_two]
    push_cast
    rfl
  have h0 := h.quota_lt hw 0
  have h1 := h.quota_lt hw 1
  rw [abs_lt]
  match i with
  | 0 => constructor <;> linarith
  | 1 => constructor <;> linarith

end Apportionment
