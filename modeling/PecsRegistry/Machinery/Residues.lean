import Mathlib.Algebra.Order.Floor.Div
import Mathlib.Data.Int.CardIntervalMod
import Mathlib.Data.List.Chain

/-!
# Machinery/Residues — taking turns by a counter

Where `n` candidates are picked by the remainders of a counter modulo `n`, a run of `m` consecutive
values picks each of them `m / n` times, rounded down or up (`FairShare`).
-/

namespace Residues

/-- `x` is the `n`-th part of `m`, rounded down or up. -/
def FairShare (n m x : ℕ) : Prop := x = m / n ∨ x = m ⌈/⌉ n

instance (n m x : ℕ) : Decidable (FairShare n m x) :=
  inferInstanceAs (Decidable (_ ∨ _))

variable {n m j : ℕ}

theorem ceilDiv_of_pos_mod (hn : 0 < n) (h : 0 < m % n) : m ⌈/⌉ n = m / n + 1 := by
  have hm := Nat.div_add_mod m n
  have hmul : n * (m / n + 1) = n * (m / n) + n := Nat.mul_succ _ _
  rw [Nat.ceilDiv_eq_add_pred_div]
  refine Nat.div_eq_of_lt_le ?_ ?_
  · rw [Nat.mul_comm, hmul]
    omega
  · rw [Nat.mul_comm, Nat.mul_succ, hmul]
    have := Nat.mod_lt m hn
    omega

theorem add_mod_eq_iff (hn : 0 < n) (hj : j < n) (a i : ℕ) :
    (a + i) % n = j ↔ i ≡ j + (n - a % n) [MOD n] := by
  have hturn : a % n + (j + (n - a % n)) = j + n := by
    have := Nat.mod_lt a hn
    omega
  have hcancel : i ≡ j + (n - a % n) [MOD n] ↔ a % n + i ≡ j + n [MOD n] := by
    rw [← hturn]
    exact ⟨fun h => h.add_left _, fun h => h.add_left_cancel' _⟩
  rw [hcancel, Nat.ModEq, Nat.mod_add_mod, Nat.add_mod_right, Nat.mod_eq_of_lt hj]

/-- **Consecutive values take turns.** -/
theorem count_add_mod (hn : 0 < n) (hj : j < n) (a m : ℕ) :
    FairShare n m (m.count fun i => (a + i) % n = j) := by
  simp only [add_mod_eq_iff hn hj]
  rw [Nat.count_modEq_card m hn, FairShare]
  split_ifs with h
  · exact .inr (ceilDiv_of_pos_mod hn (Nat.zero_lt_of_lt h)).symm
  · exact .inl rfl

/-- Numbers that go up by one, modulo `n`, are consecutive from the first on. -/
theorem getElem_of_isChain {vs : List ℕ} (h : vs.IsChain fun v w => w ≡ v + 1 [MOD n]) {i : ℕ}
    (hi : i < vs.length) : vs[i] ≡ vs[0] + i [MOD n] := by
  induction i with
  | zero => exact Nat.ModEq.refl _
  | succ i ih => exact (h.getElem i hi).trans ((ih (Nat.lt_of_succ_lt hi)).add_right 1)

/-- **Values that go up by one, modulo `n`, take turns.** -/
theorem countP_of_isChain (hn : 0 < n) (hj : j < n) {vs : List ℕ}
    (h : vs.IsChain fun v w => w ≡ v + 1 [MOD n]) :
    FairShare n vs.length (vs.countP fun v => v % n = j) := by
  cases vs with
  | nil => exact .inl (Nat.zero_div n).symm
  | cons v vs =>
    have hvs : (v :: vs).map (· % n)
        = (List.range (v :: vs).length).map fun i => (v + i) % n := by
      refine List.ext_getElem (by simp) fun i hi _ => ?_
      rw [List.getElem_map, List.getElem_map, List.getElem_range]
      exact getElem_of_isChain h (by simpa using hi)
    have hcount : (v :: vs).countP (fun v => v % n = j)
        = (v :: vs).length.count fun i => (v + i) % n = j := by
      have h := congrArg (List.countP fun r => r = j) hvs
      rwa [List.countP_map, List.countP_map] at h
    rw [hcount]
    exact count_add_mod hn hj v _

end Residues
