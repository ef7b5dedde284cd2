import Mathlib.Data.Set.Card

/-!
# Machinery/Census — how many parties are in a state, as one of them moves on

Each party `i` is in the state `f i`; the census of a predicate is the number of parties it holds
of.  When one party moves, the census grows by one where the party enters the predicate, shrinks by
one where it leaves, and stays where it does neither.
-/

namespace Census

variable {ι σ : Type*}

/-- The parties whose state satisfies `P`. -/
def census (f : ι → σ) (P : ι → σ → Prop) : Set ι := {i | P i (f i)}

variable {f : ι → σ} {P Q : ι → σ → Prop} {i : ι} {c : σ}

@[simp] theorem mem_census : i ∈ census f P ↔ P i (f i) := Iff.rfl

theorem census_mono (h : ∀ i c, P i c → Q i c) : census f P ⊆ census f Q := fun i hi => h i _ hi

variable [DecidableEq ι]

/-- A party that neither enters nor leaves. -/
theorem census_stay (h : P i c ↔ P i (f i)) : census (Function.update f i c) P = census f P := by
  ext j
  rw [mem_census, mem_census, Function.update_apply]
  split_ifs with hji
  · rw [hji, h]
  · rfl

theorem census_enter (hbefore : ¬ P i (f i)) (hafter : P i c) :
    (census (Function.update f i c) P).encard = (census f P).encard + 1 := by
  have hinsert : census (Function.update f i c) P = insert i (census f P) := by
    ext j
    rw [Set.mem_insert_iff, mem_census, mem_census, Function.update_apply]
    split_ifs with hji
    · rw [hji]
      exact iff_of_true hafter (Or.inl rfl)
    · exact (or_iff_right hji).symm
  have hnot : i ∉ census f P := hbefore
  rw [hinsert, Set.encard_insert_of_notMem hnot]

/-- To leave is to enter, read backwards. -/
theorem census_leave (hbefore : P i (f i)) (hafter : ¬ P i c) :
    (census (Function.update f i c) P).encard + 1 = (census f P).encard := by
  have henter := census_enter (f := Function.update f i c) (c := f i)
    (by rwa [Function.update_self]) hbefore
  rw [Function.update_idem, Function.update_eq_self] at henter
  exact henter.symm

/-- One less of finitely many. -/
theorem eq_pred_of_add_one {x : ℕ∞} {n : ℕ} (h : x + 1 = n) : 0 < n ∧ x = (n - 1 : ℕ) := by
  induction x using ENat.recTopCoe with
  | top => exact absurd h (by simp)
  | coe m =>
    obtain rfl : m + 1 = n := by exact_mod_cast h
    exact ⟨m.succ_pos, rfl⟩

end Census
