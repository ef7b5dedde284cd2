import Mathlib.Data.Finset.Card
import Mathlib.Data.Finset.Prod
import Mathlib.Data.Nat.ModEq
import Mathlib.Order.Interval.Finset.Nat

/-!
# Machinery/OrderedPairs — two distinct numbers drawn with one seed

The remainder of a seed modulo `n` is the first number, and its quotient, modulo `n - 1`, says how
far ahead of that the second is.  So the pair is the seed modulo `n * (n - 1)` (`draw_eq_iff`), and
that many consecutive seeds draw every ordered pair of distinct numbers below `n` once
(`bijOn_draw`).
-/

namespace OrderedPairs

/-- The two numbers that a seed draws. -/
def draw (n s : ℕ) : ℕ × ℕ := (s % n, (s % n + (1 + s / n % (n - 1))) % n)

variable {n s t : ℕ}

/-- **Both are below `n`, and distinct**: the offset is neither zero nor a full turn. -/
theorem draw_mem_offDiag (hn : 2 ≤ n) (s : ℕ) : draw n s ∈ (Finset.range n).offDiag := by
  have hfirst : s % n < n := Nat.mod_lt _ (by omega)
  have hoffset : s / n % (n - 1) < n - 1 := Nat.mod_lt _ (by omega)
  refine Finset.mem_offDiag.mpr
    ⟨Finset.mem_range.mpr hfirst, Finset.mem_range.mpr (Nat.mod_lt _ (by omega)), ?_⟩
  change s % n ≠ (s % n + (1 + s / n % (n - 1))) % n
  generalize s % n = i at hfirst
  generalize s / n % (n - 1) = a at hoffset
  rcases lt_or_ge (i + (1 + a)) n with hin | hout
  · rw [Nat.mod_eq_of_lt hin]
    omega
  · rw [Nat.mod_eq_sub_mod hout, Nat.mod_eq_of_lt (by omega)]
    omega

/-- **A pair is a remainder**: two seeds draw the same exactly if they agree modulo
`n * (n - 1)`. -/
theorem draw_eq_iff (hn : 2 ≤ n) : draw n s = draw n t ↔ s ≡ t [MOD n * (n - 1)] := by
  constructor
  · intro h
    obtain ⟨hfirst, hsecond⟩ := Prod.mk.inj h
    -- the first numbers cancel, and both offsets are below `n`
    rw [hfirst] at hsecond
    have hoffset : 1 + s / n % (n - 1) ≡ 1 + t / n % (n - 1) [MOD n] :=
      Nat.ModEq.add_left_cancel' (t % n) hsecond
    have hs : s / n % (n - 1) < n - 1 := Nat.mod_lt _ (by omega)
    have ht : t / n % (n - 1) < n - 1 := Nat.mod_lt _ (by omega)
    have hquotient := hoffset.eq_of_lt_of_lt (by omega) (by omega)
    rw [Nat.ModEq, Nat.mod_mul, Nat.mod_mul, hfirst, Nat.add_left_cancel hquotient]
  · intro h
    have hfirst : s % n = t % n := Nat.ModEq.of_mul_right (n - 1) h
    have hquotient : s / n % (n - 1) = t / n % (n - 1) := by
      rw [← Nat.mod_mul_right_div_self, ← Nat.mod_mul_right_div_self]
      exact congrArg (· / n) h
    rw [draw, draw, hfirst, hquotient]

/-- Two seeds of one window draw different pairs. -/
theorem injOn_draw (hn : 2 ≤ n) (start : ℕ) :
    Set.InjOn (draw n) (Finset.Ico start (start + n * (n - 1))) := by
  intro s hs t ht h
  obtain ⟨hs₁, hs₂⟩ := Finset.mem_Ico.mp (Finset.mem_coe.mp hs)
  obtain ⟨ht₁, ht₂⟩ := Finset.mem_Ico.mp (Finset.mem_coe.mp ht)
  obtain ⟨a, rfl⟩ := Nat.exists_eq_add_of_le hs₁
  obtain ⟨b, rfl⟩ := Nat.exists_eq_add_of_le ht₁
  have hab : a ≡ b [MOD n * (n - 1)] := ((draw_eq_iff hn).mp h).add_left_cancel' start
  rw [hab.eq_of_lt_of_lt (by omega) (by omega)]

/-- **A window of `n * (n - 1)` seeds draws every pair once.** -/
theorem bijOn_draw (hn : 2 ≤ n) (start : ℕ) :
    Set.BijOn (draw n) (Finset.Ico start (start + n * (n - 1))) (Finset.range n).offDiag := by
  have hmaps : Set.MapsTo (draw n) (Finset.Ico start (start + n * (n - 1)))
      (Finset.range n).offDiag := fun s _ => draw_mem_offDiag hn s
  refine ⟨hmaps, injOn_draw hn start, ?_⟩
  refine Finset.surjOn_of_injOn_of_card_le _ hmaps (injOn_draw hn start) ?_
  rw [Finset.offDiag_card, Finset.card_range, Nat.card_Ico, Nat.add_sub_cancel_left,
    Nat.mul_sub_one]

end OrderedPairs
