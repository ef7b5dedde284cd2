import Mathlib.Algebra.BigOperators.Group.Finset.Basic
import Mathlib.Algebra.BigOperators.Ring.Finset
import Mathlib.Algebra.Order.BigOperators.Group.Finset
import Mathlib.Data.List.MinMax
import Mathlib.Tactic.Linarith
import Mathlib.Tactic.Ring

/-!
# Machinery/Rotation — smooth weighted rotation

Every candidate `i` carries an integer weight `w i > 0` and a running credit.  A turn raises every
credit by its weight, picks a candidate whose raised credit is greatest, and charges the pick the
total weight `W = ∑ w i`.

Two invariants decide the whole schedule: the credits sum to zero (`sum_credit`), and each stays
above `-W` (`neg_total_lt_credit`) — the pick is charged from a positive credit, the others only
rise.  The first gives `credit t i = t·w i - W·share t i`; at `t = W/g`, for a common divisor `g` of
the weights, the second then leaves no choice but `share t i = w i / g` for every `i`
(`share_period`), so all credits are back at zero and the rotation repeats (`count_window`).
-/

open Finset

namespace Rotation

variable {ι : Type*} [Fintype ι] [DecidableEq ι] (w : ι → ℤ) (choose : (ι → ℤ) → ι)

/-- The total weight, charged to the candidate picked. -/
def total : ℤ := ∑ i, w i

/-- The credits after every candidate has been paid its weight. -/
def raise (c : ι → ℤ) : ι → ℤ := fun i => c i + w i

/-- The credits after one turn. -/
def turn (c : ι → ℤ) : ι → ℤ := fun i =>
  if i = choose (raise w c) then raise w c i - total w else raise w c i

/-- The credits after `t` turns of a rotation that starts with no credit. -/
def credit : ℕ → ι → ℤ
  | 0 => fun _ => 0
  | t + 1 => turn w choose (credit t)

/-- The candidate picked in turn `t`. -/
def pickAt (t : ℕ) : ι := choose (raise w (credit w choose t))

/-- How often a candidate is picked in the first `t` turns. -/
def share (t : ℕ) (i : ι) : ℕ := ((List.range t).map (pickAt w choose)).count i

/-- The choice made in a turn is a greatest raised credit. -/
def Greatest : Prop := ∀ (v : ι → ℤ) (i : ι), v i ≤ v (choose v)

variable {w choose}

theorem credit_succ (t : ℕ) (i : ι) :
    credit w choose (t + 1) i
      = credit w choose t i + w i - if pickAt w choose t = i then total w else 0 := by
  change (if i = pickAt w choose t then _ else _) = _
  by_cases h : pickAt w choose t = i
  · rw [if_pos h.symm, if_pos h, raise]
  · rw [if_neg (Ne.symm h), if_neg h, raise, sub_zero]

theorem share_succ (t : ℕ) (i : ι) :
    share w choose (t + 1) i = share w choose t i + if pickAt w choose t = i then 1 else 0 := by
  rw [share, List.range_succ, List.map_append, List.count_append]
  by_cases h : pickAt w choose t = i <;> simp [share, h]

/-- **A credit is what the candidate was paid less what it was charged.** -/
theorem credit_eq (t : ℕ) (i : ι) :
    credit w choose t i = t * w i - total w * share w choose t i := by
  induction t with
  | zero => simp [credit, share]
  | succ t ih =>
    rw [credit_succ, share_succ, ih]
    by_cases h : pickAt w choose t = i
    · rw [if_pos h, if_pos h]
      push_cast
      ring
    · rw [if_neg h, if_neg h]
      push_cast
      ring

/-- Every turn picks exactly one candidate. -/
theorem sum_share (t : ℕ) : ∑ i, share w choose t i = t := by
  induction t with
  | zero => simp [share]
  | succ t ih =>
    simp only [share_succ, sum_add_distrib, ih]
    simp

/-- **The credits sum to zero.** -/
theorem sum_credit (t : ℕ) : ∑ i, credit w choose t i = 0 := by
  have hs : ∑ i, (share w choose t i : ℤ) = t := by rw [← Nat.cast_sum, sum_share]
  simp only [credit_eq, sum_sub_distrib, ← mul_sum, hs]
  rw [total]
  ring

/-- The pick is charged from a positive credit: the raised credits sum to the total weight. -/
theorem raise_pickAt_pos (hc : Greatest choose) (hW : 0 < total w) (t : ℕ) :
    0 < raise w (credit w choose t) (pickAt w choose t) := by
  by_contra hle
  have hall : ∀ i, raise w (credit w choose t) i ≤ 0 := fun i =>
    (hc (raise w (credit w choose t)) i).trans (not_lt.mp hle)
  have hsum : ∑ i, raise w (credit w choose t) i = total w := by
    simp only [raise, sum_add_distrib, sum_credit, zero_add, total]
  have := sum_nonpos fun i (_ : i ∈ univ) => hall i
  omega

/-- **No credit falls to minus the total weight.** -/
theorem neg_total_lt_credit (hc : Greatest choose) (hw : ∀ i, 0 < w i) (hW : 0 < total w)
    (t : ℕ) (i : ι) : - total w < credit w choose t i := by
  induction t with
  | zero => simpa [credit] using hW
  | succ t ih =>
    rw [credit_succ]
    by_cases h : pickAt w choose t = i
    · have hpos := raise_pickAt_pos hc hW t
      rw [h, raise] at hpos
      rw [if_pos h]
      omega
    · have := hw i
      rw [if_neg h]
      omega

/-! ## One period -/

section Period

variable {g : ℤ} {P : ℕ}

/-- **A period gives every candidate its weight over the common divisor.**  No credit is below
`-W`, so no candidate is picked more often than that; the picks add up, so none is picked less. -/
theorem share_period (hc : Greatest choose) (hw : ∀ i, 0 < w i) (hg : 0 < g)
    (hdvd : ∀ i, g ∣ w i) (hP : total w = P * g) (hP0 : 0 < P) (i : ι) :
    (share w choose P i : ℤ) = w i / g := by
  have hPz : (0 : ℤ) < P := by exact_mod_cast hP0
  have hW : 0 < total w := hP ▸ mul_pos hPz hg
  have hle : ∀ j, (share w choose P j : ℤ) ≤ w j / g := by
    intro j
    obtain ⟨q, hq⟩ := hdvd j
    have hcr := neg_total_lt_credit hc hw hW P j
    rw [credit_eq, hq, hP] at hcr
    have hlt : (P * g : ℤ) * (share w choose P j - q) < P * g * 1 := by linarith
    have := lt_of_mul_lt_mul_left hlt (mul_pos hPz hg).le
    rw [hq, Int.mul_ediv_cancel_left q hg.ne']
    omega
  have hsum : ∑ j, (share w choose P j : ℤ) = ∑ j, w j / g := by
    have hq : g * ∑ j, w j / g = g * P := by
      rw [mul_sum, mul_comm g (P : ℤ), ← hP, total]
      exact sum_congr rfl fun j _ => Int.mul_ediv_cancel' (hdvd j)
    have hs : ∑ j, (share w choose P j : ℤ) = P := by rw [← Nat.cast_sum, sum_share]
    rw [hs, Int.eq_of_mul_eq_mul_left hg.ne' hq]
  exact (sum_eq_sum_iff_of_le fun j _ => hle j).mp hsum i (mem_univ i)

/-- …so a period ends where it began, with no credit anywhere. -/
theorem credit_period (hc : Greatest choose) (hw : ∀ i, 0 < w i) (hg : 0 < g)
    (hdvd : ∀ i, g ∣ w i) (hP : total w = P * g) (hP0 : 0 < P) :
    credit w choose P = fun _ => 0 := by
  funext i
  rw [credit_eq, share_period hc hw hg hdvd hP hP0 i, hP, mul_assoc,
    Int.mul_ediv_cancel' (hdvd i), sub_self]

/-- **The rotation repeats**: the choice is a function of the credits. -/
theorem credit_add_period (h : credit w choose P = fun _ => 0) (t : ℕ) :
    credit w choose (t + P) = credit w choose t := by
  induction t with
  | zero => rw [Nat.zero_add, h]; rfl
  | succ t ih => rw [Nat.add_right_comm, credit, ih]; rfl

theorem credit_mul_period (h : credit w choose P = fun _ => 0) (k : ℕ) :
    credit w choose (k * P) = fun _ => 0 := by
  induction k with
  | zero => rw [Nat.zero_mul]; rfl
  | succ k ih => rw [Nat.succ_mul, credit_add_period h, ih]

/-- **Every window of one period is fair**, wherever it starts. -/
theorem count_window (hc : Greatest choose) (hw : ∀ i, 0 < w i) (hg : 0 < g)
    (hdvd : ∀ i, g ∣ w i) (hP : total w = P * g) (hP0 : 0 < P) (t : ℕ) (i : ι) :
    (((List.range' t P).map (pickAt w choose)).count i : ℤ) = w i / g := by
  have hPz : (0 : ℤ) < P := by exact_mod_cast hP0
  have hW : 0 < total w := hP ▸ mul_pos hPz hg
  have hsplit : share w choose (t + P) i
      = share w choose t i + ((List.range' t P).map (pickAt w choose)).count i := by
    have hr : List.range (t + P) = List.range t ++ List.range' t P := by
      have := @List.range'_append_1 0 t P
      rwa [Nat.zero_add, ← List.range_eq_range', ← List.range_eq_range', eq_comm] at this
    rw [share, share, hr, List.map_append, List.count_append]
  -- The credits at the two ends of the window agree, so the charges inside it match the pay.
  have hcr := congrFun (credit_add_period (credit_period hc hw hg hdvd hP hP0) t) i
  rw [credit_eq, credit_eq, hsplit] at hcr
  push_cast at hcr
  obtain ⟨q, hq⟩ := hdvd i
  rw [hq, Int.mul_ediv_cancel_left q hg.ne']
  refine Int.eq_of_mul_eq_mul_left hW.ne' ?_
  rw [hq] at hcr
  rw [hP] at hcr ⊢
  linarith

end Period

/-! ## The first greatest entry -/

/-- The first index at which a vector is greatest — the choice a strict scan from the left makes. -/
def firstGreatest {α : Type*} [LinearOrder α] {n : ℕ} (hn : 0 < n) (v : Fin n → α) : Fin n :=
  ((List.finRange n).argmax v).getD ⟨0, hn⟩

theorem argmax_eq_firstGreatest {α : Type*} [LinearOrder α] {n : ℕ} (hn : 0 < n) (v : Fin n → α) :
    (List.finRange n).argmax v = some (firstGreatest hn v) := by
  have hne : (List.finRange n).argmax v ≠ none := fun h => by
    have hl := congrArg List.length (List.argmax_eq_none.mp h)
    rw [List.length_finRange, List.length_nil] at hl
    omega
  obtain ⟨i, hi⟩ := Option.ne_none_iff_exists'.mp hne
  rw [firstGreatest, hi, Option.getD_some]

theorem greatest_firstGreatest {n : ℕ} (hn : 0 < n) : Greatest (firstGreatest hn) :=
  fun v i => List.le_of_mem_argmax (List.mem_finRange i) (argmax_eq_firstGreatest hn v)

end Rotation
