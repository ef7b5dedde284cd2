import Mathlib.Data.List.Basic
import Mathlib.Logic.Function.Basic

/-!
# Machinery/Transition — runs of a partial step function, and what holds along them

A system is a step function `step : σ → α → Option σ`: the label carries every choice of the
environment, so a step is deterministic and `none` says that the label is not enabled.  A run is a
word of labels (`run`).  Two readings of a word are kept apart:

* `EachStep C` — every step is taken in a state, under a label, that meets the condition `C`;
* `EachState P` — every state the word passes through, the last one included, satisfies `P`.

`invariant_run` and `eachState_of_invariant` are the two forms of the invariant rule.
-/

namespace Transition

variable {σ α : Type*} (step : σ → α → Option σ)

/-- The state a word of labels leads to, if every label is enabled when its turn comes. -/
def run : σ → List α → Option σ
  | s, [] => some s
  | s, a :: w => (step s a).bind fun s' => run s' w

/-- Every step of the word is taken in a state, under a label, that meets `C`. -/
def EachStep (C : σ → α → Prop) : σ → List α → Prop
  | _, [] => True
  | s, a :: w => C s a ∧ ∀ s' ∈ step s a, EachStep C s' w

/-- Every state the word passes through satisfies `P`. -/
def EachState (P : σ → Prop) : σ → List α → Prop
  | s, [] => P s
  | s, a :: w => P s ∧ ∀ s' ∈ step s a, EachState P s' w

variable {step}

/-! ## Runs -/

@[simp] theorem run_nil (s : σ) : run step s [] = some s := rfl

@[simp] theorem run_cons (s : σ) (a : α) (w : List α) :
    run step s (a :: w) = (step s a).bind fun s' => run step s' w := rfl

theorem run_singleton (s : σ) (a : α) : run step s [a] = step s a := by
  rw [run_cons]
  exact Option.bind_fun_some _

theorem run_append (s : σ) (u v : List α) :
    run step s (u ++ v) = (run step s u).bind fun t => run step t v := by
  induction u generalizing s with
  | nil => rfl
  | cons a u ih =>
    rw [List.cons_append, run_cons, run_cons, Option.bind_assoc]
    exact congrArg _ (funext ih)

/-- A run of a nonempty word takes its first step, then runs the rest. -/
theorem run_cons_eq_some {s t : σ} {a : α} {w : List α} :
    run step s (a :: w) = some t ↔ ∃ s', step s a = some s' ∧ run step s' w = some t := by
  rw [run_cons, Option.bind_eq_some_iff]

/-- A run of a concatenation passes through the state between the two words. -/
theorem run_append_eq_some {s t : σ} {u v : List α} :
    run step s (u ++ v) = some t ↔ ∃ m, run step s u = some m ∧ run step m v = some t := by
  rw [run_append, Option.bind_eq_some_iff]

/-! ## Conditions on the steps of a word -/

theorem EachStep.imp {C D : σ → α → Prop} (h : ∀ s a, C s a → D s a) {s : σ} {w : List α} :
    EachStep step C s w → EachStep step D s w := by
  induction w generalizing s with
  | nil => exact fun _ => trivial
  | cons a w ih => exact fun hw => ⟨h s a hw.1, fun s' hs' => ih (hw.2 s' hs')⟩

theorem EachStep.and {C D : σ → α → Prop} {s : σ} {w : List α} (hC : EachStep step C s w)
    (hD : EachStep step D s w) : EachStep step (fun s a => C s a ∧ D s a) s w := by
  induction w generalizing s with
  | nil => trivial
  | cons a w ih => exact ⟨⟨hC.1, hD.1⟩, fun s' hs' => ih (hC.2 s' hs') (hD.2 s' hs')⟩

/-- The steps of a word are its first step and those of the rest. -/
theorem eachStep_cons {C : σ → α → Prop} {s s' : σ} {a : α} (h : step s a = some s') {w : List α} :
    EachStep step C s (a :: w) ↔ C s a ∧ EachStep step C s' w := by
  refine and_congr_right fun _ => ⟨fun hall => hall s' h, fun hw m hm => ?_⟩
  obtain rfl := Option.some.inj (hm.symm.trans h)
  exact hw

/-- The steps of a concatenation are those of the two words. -/
theorem eachStep_append {C : σ → α → Prop} {s : σ} {u v : List α} :
    EachStep step C s (u ++ v)
      ↔ EachStep step C s u ∧ ∀ t, run step s u = some t → EachStep step C t v := by
  induction u generalizing s with
  | nil => exact ⟨fun h => ⟨trivial, fun t ht => Option.some.inj ht ▸ h⟩, fun h => h.2 s rfl⟩
  | cons a u ih =>
    constructor
    · refine fun h => ⟨⟨h.1, fun s' hs' => (ih.mp (h.2 s' hs')).1⟩, fun t ht => ?_⟩
      obtain ⟨s', hs', ht⟩ := run_cons_eq_some.mp ht
      exact (ih.mp (h.2 s' hs')).2 t ht
    · refine fun h => ⟨h.1.1, fun s' hs' => ih.mpr ⟨h.1.2 s' hs', fun t ht => ?_⟩⟩
      exact h.2 t (run_cons_eq_some.mpr ⟨s', hs', ht⟩)

/-- A condition on the labels alone is a condition on the letters of the word. -/
theorem eachStep_of_forall_mem {C : α → Prop} {s : σ} {w : List α} (h : ∀ a ∈ w, C a) :
    EachStep step (fun _ a => C a) s w := by
  induction w generalizing s with
  | nil => trivial
  | cons a w ih =>
    exact ⟨h a List.mem_cons_self, fun s' _ => ih fun b hb => h b (List.mem_cons_of_mem a hb)⟩

/-- A word without a step that meets `p`, or the last one of them: `p` in the state it is taken in,
and not any more after it. -/
theorem last_step_of_run (p : σ → α → Prop) {s t : σ} {w : List α} (hrun : run step s w = some t) :
    EachStep step (fun s a => ¬p s a) s w
      ∨ ∃ u a v m m', w = u ++ a :: v ∧ run step s u = some m ∧ p m a ∧ step m a = some m'
        ∧ run step m' v = some t ∧ EachStep step (fun s a => ¬p s a) m' v := by
  induction w generalizing s with
  | nil => exact .inl trivial
  | cons a w ih =>
    obtain ⟨s', hs', hrest⟩ := run_cons_eq_some.mp hrun
    rcases ih hrest with hnone | ⟨u, b, v, m, m', rfl, hu, hlast⟩
    · by_cases hp : p s a
      · exact .inr ⟨[], a, w, s, s', rfl, rfl, hp, hs', hrest, hnone⟩
      · exact .inl ((eachStep_cons hs').mpr ⟨hp, hnone⟩)
    · exact .inr ⟨a :: u, b, v, m, m', rfl, run_cons_eq_some.mpr ⟨s', hs', hu⟩, hlast⟩

/-- What holds at the end and not at the start has come with a step. -/
theorem entrance_of_run {Q : σ → Prop} {s t : σ} {w : List α} (hs : ¬Q s) (ht : Q t)
    (hrun : run step s w = some t) :
    ∃ u a v m m', w = u ++ a :: v ∧ run step s u = some m ∧ ¬Q m ∧ step m a = some m' ∧ Q m' := by
  induction w generalizing s with
  | nil => exact absurd (Option.some.inj hrun ▸ ht) hs
  | cons a w ih =>
    obtain ⟨s', hs', hrest⟩ := run_cons_eq_some.mp hrun
    by_cases hQ : Q s'
    · exact ⟨[], a, w, s, s', rfl, rfl, hs, hs', hQ⟩
    · obtain ⟨u, b, v, m, m', rfl, hu, hlast⟩ := ih hQ hrest
      exact ⟨a :: u, b, v, m, m', rfl, run_cons_eq_some.mpr ⟨s', hs', hu⟩, hlast⟩

/-! ## What holds in the states of a word -/

theorem EachState.head {P : σ → Prop} {s : σ} {w : List α} (h : EachState step P s w) : P s := by
  cases w with
  | nil => exact h
  | cons a w => exact h.1

/-- `EachState` read off the definition: every prefix that runs ends in a state satisfying `P`. -/
theorem eachState_iff {P : σ → Prop} {s : σ} {w : List α} :
    EachState step P s w ↔ ∀ u v t, w = u ++ v → run step s u = some t → P t := by
  constructor
  · intro h u
    induction u generalizing s w with
    | nil =>
      rintro v t rfl ht
      obtain rfl : s = t := Option.some.inj ht
      exact h.head
    | cons a u ih =>
      rintro v t rfl ht
      obtain ⟨s', hs', hu⟩ := run_cons_eq_some.mp ht
      exact ih (h.2 s' hs') v t rfl hu
  · intro h
    induction w generalizing s with
    | nil => exact h [] [] s rfl rfl
    | cons a w ih =>
      refine ⟨h [] (a :: w) s rfl rfl, fun s' hs' => ih fun u v t hw ht => ?_⟩
      exact h (a :: u) v t (congrArg (a :: ·) hw) (run_cons_eq_some.mpr ⟨s', hs', ht⟩)

theorem EachState.last {P : σ → Prop} {s t : σ} {w : List α} (h : EachState step P s w)
    (hw : run step s w = some t) : P t :=
  eachState_iff.mp h w [] t (List.append_nil w).symm hw

instance decidableEachStep (C : σ → α → Prop) [∀ s a, Decidable (C s a)] :
    ∀ s w, Decidable (EachStep step C s w)
  | _, [] => .isTrue trivial
  | s, a :: w =>
      have := fun s' => decidableEachStep C s' w
      inferInstanceAs (Decidable (C s a ∧ ∀ s' ∈ step s a, EachStep step C s' w))

instance decidableEachState (P : σ → Prop) [DecidablePred P] :
    ∀ s w, Decidable (EachState step P s w)
  | s, [] => inferInstanceAs (Decidable (P s))
  | s, a :: w =>
      have := fun s' => decidableEachState P s' w
      inferInstanceAs (Decidable (P s ∧ ∀ s' ∈ step s a, EachState step P s' w))

/-- A system that refuses the steps outside `C` runs where the system runs and all steps are in
`C`. -/
theorem run_restrict {C : σ → α → Prop} [∀ s a, Decidable (C s a)] {s t : σ} {w : List α} :
    run (fun s a => if C s a then step s a else none) s w = some t
      ↔ run step s w = some t ∧ EachStep step C s w := by
  induction w generalizing s with
  | nil => simp [EachStep]
  | cons a w ih =>
    rw [run_cons_eq_some, run_cons_eq_some]
    constructor
    · rintro ⟨s', hs', hrest⟩
      split_ifs at hs' with hC
      obtain ⟨hrun, hw⟩ := ih.mp hrest
      exact ⟨⟨s', hs', hrun⟩, (eachStep_cons hs').mpr ⟨hC, hw⟩⟩
    · rintro ⟨⟨s', hs', hrun⟩, hw⟩
      obtain ⟨hC, hw⟩ := (eachStep_cons hs').mp hw
      exact ⟨s', (if_pos hC).trans hs', ih.mpr ⟨hrun, hw⟩⟩

/-! ## The invariant rule -/

/-- **An invariant of the steps that meet `C` holds throughout a word whose steps all meet `C`.** -/
theorem eachState_of_invariant {I : σ → Prop} {C : σ → α → Prop}
    (hstep : ∀ s a s', I s → C s a → step s a = some s' → I s') {s : σ} {w : List α} (hs : I s)
    (hw : EachStep step C s w) : EachState step I s w := by
  induction w generalizing s with
  | nil => exact hs
  | cons a w ih => exact ⟨hs, fun s' hs' => ih (hstep s a s' hs hw.1 hs') (hw.2 s' hs')⟩

/-- …hence in the state the word leads to. -/
theorem invariant_run {I : σ → Prop} {C : σ → α → Prop}
    (hstep : ∀ s a s', I s → C s a → step s a = some s' → I s') {s t : σ} {w : List α} (hs : I s)
    (hw : EachStep step C s w) (ht : run step s w = some t) : I t :=
  (eachState_of_invariant hstep hs hw).last ht

/-- An invariant of every step needs no conditions. -/
theorem preserved_run {I : σ → Prop} (hstep : ∀ s a s', I s → step s a = some s' → I s')
    {s t : σ} {w : List α} (hs : I s) (ht : run step s w = some t) : I t :=
  invariant_run (C := fun _ _ => True) (fun s a s' h _ => hstep s a s' h) hs
    (eachStep_of_forall_mem fun _ _ => trivial) ht

/-- What every step shows of its label, where the invariant holds, is so of every letter of a
run. -/
theorem forall_mem_of_run {I : σ → Prop} {C : σ → α → Prop} {D : α → Prop}
    (hstep : ∀ s a s', I s → C s a → step s a = some s' → I s' ∧ D a) {s t : σ} {w : List α}
    (hs : I s) (hw : EachStep step C s w) (ht : run step s w = some t) : ∀ a ∈ w, D a := by
  induction w generalizing s with
  | nil => exact fun a ha => absurd ha List.not_mem_nil
  | cons a w ih =>
    obtain ⟨s', hs', hrun⟩ := run_cons_eq_some.mp ht
    obtain ⟨hI, hD⟩ := hstep s a s' hs hw.1 hs'
    exact List.forall_mem_cons.mpr ⟨hD, ih hI (hw.2 s' hs') hrun⟩

/-- Where a condition `C` keeps an invariant under which it implies `D`, a word whose steps meet `C`
meets `D`. -/
theorem EachStep.imp_of_invariant {I : σ → Prop} {C D : σ → α → Prop}
    (hstep : ∀ s a s', I s → C s a → step s a = some s' → I s')
    (himp : ∀ s a, I s → C s a → D s a) {s : σ} {w : List α} (hs : I s)
    (hw : EachStep step C s w) : EachStep step D s w := by
  induction w generalizing s with
  | nil => trivial
  | cons a w ih =>
    exact ⟨himp s a hs hw.1, fun s' hs' => ih (hstep s a s' hs hw.1 hs') (hw.2 s' hs')⟩

/-- Conversely, where every step outside `C` leads out of `P`, a word that stays in `P` takes only
steps in `C`. -/
theorem eachStep_of_eachState {I P : σ → Prop} {C D : σ → α → Prop}
    (hstep : ∀ s a s', I s → D s a → step s a = some s' → I s')
    (hout : ∀ s a, I s → D s a → ¬ C s a → ∃ s', step s a = some s' ∧ ¬ P s') {s : σ} {w : List α}
    (hs : I s) (hD : EachStep step D s w) (hw : EachState step P s w) : EachStep step C s w := by
  induction w generalizing s with
  | nil => trivial
  | cons a w ih =>
    refine ⟨by_contra fun hC => ?_, fun s' hs' =>
      ih (hstep s a s' hs hD.1 hs') (hD.2 s' hs') (hw.2 s' hs')⟩
    obtain ⟨s', hs', hP⟩ := hout s a hs hD.1 hC
    exact hP (hw.2 s' hs').head

theorem EachState.imp {P Q : σ → Prop} (h : ∀ s, P s → Q s) {s : σ} {w : List α}
    (hw : EachState step P s w) : EachState step Q s w :=
  eachState_iff.mpr fun u v t huv ht => h t (eachState_iff.mp hw u v t huv ht)

theorem EachState.and {P Q : σ → Prop} {s : σ} {w : List α} (hP : EachState step P s w)
    (hQ : EachState step Q s w) : EachState step (fun s => P s ∧ Q s) s w :=
  eachState_iff.mpr fun u v t huv ht =>
    ⟨eachState_iff.mp hP u v t huv ht, eachState_iff.mp hQ u v t huv ht⟩

/-- Every step of a word that stays in `P` is taken in `P`. -/
theorem EachState.eachStep {P : σ → Prop} {s : σ} {w : List α} (h : EachState step P s w) :
    EachStep step (fun s _ => P s) s w := by
  induction w generalizing s with
  | nil => trivial
  | cons a w ih => exact ⟨h.1, fun s' hs' => ih (h.2 s' hs')⟩

/-- Every step of a word that stays in `P` leads into `P`. -/
theorem EachState.next {P : σ → Prop} {s : σ} {w : List α} (h : EachState step P s w) :
    EachStep step (fun s a => ∀ s' ∈ step s a, P s') s w := by
  induction w generalizing s with
  | nil => trivial
  | cons a w ih => exact ⟨fun s' hs' => (h.2 s' hs').head, fun s' hs' => ih (h.2 s' hs')⟩

/-- **Where a step keeps `P` exactly when it meets `C`**, a run stays in `P` if and only if its
steps all meet `C`. -/
theorem eachState_iff_eachStep {P : σ → Prop} {C D : σ → α → Prop}
    (hstep : ∀ s a s', P s → D s a → step s a = some s' → (P s' ↔ C s a))
    (hdisabled : ∀ s a, step s a = none → C s a) {s : σ} {w : List α} (hs : P s)
    (hD : EachStep step D s w) : EachState step P s w ↔ EachStep step C s w := by
  constructor
  · intro hw
    induction w generalizing s with
    | nil => trivial
    | cons a w ih =>
      refine ⟨?_, fun s' hs' => ih (hw.2 s' hs').head (hD.2 s' hs') (hw.2 s' hs')⟩
      cases h : step s a with
      | none => exact hdisabled s a h
      | some s' => exact (hstep s a s' hs hD.1 h).mp (hw.2 s' h).head
  · exact fun hw => eachState_of_invariant
      (fun s a s' hP h hs' => (hstep s a s' hP h.2 hs').mpr h.1) hs (hw.and hD)

/-- **What no step leaves has not held before**, if it does not hold at the end. -/
theorem eachState_of_last {B : σ → Prop} (hstay : ∀ s a s', B s → step s a = some s' → B s')
    {s t : σ} {w : List α} (hrun : run step s w = some t) (ht : ¬ B t) :
    EachState step (fun s => ¬ B s) s w := by
  rw [eachState_iff]
  intro u v m huv hm hB
  obtain ⟨m', hm', hv⟩ := run_append_eq_some.mp (huv ▸ hrun)
  obtain rfl := Option.some.inj (hm.symm.trans hm')
  exact ht (preserved_run hstay hB hv)

/-- Two conditions on a step that differ only in what they make of `P` differ along a run only in
what becomes of `P`. -/
theorem EachState.eachStep_iff {I P : σ → Prop} {C D : σ → α → Prop}
    (h : ∀ s a s', I s → I s' → step s a = some s' → (C s a ∧ P s' ↔ D s a ∧ P s)) {s t : σ}
    {w : List α} (hI : EachState step I s w) (hrun : run step s w = some t) :
    EachStep step C s w ∧ P t ↔ EachStep step D s w ∧ P s := by
  induction w generalizing s with
  | nil =>
    obtain rfl := Option.some.inj hrun
    exact Iff.rfl
  | cons a w ih =>
    obtain ⟨s', hs', hrest⟩ := run_cons_eq_some.mp hrun
    have hI' := hI.2 s' hs'
    rw [eachStep_cons hs', eachStep_cons hs', and_assoc, ih hI' hrest, and_left_comm,
      h s a s' hI.1 hI'.head hs', and_left_comm, and_assoc]

/-! ## Faults that show later -/

section Observed

variable {I A O : σ → Prop} {C D : σ → α → Prop}

/-- A fault that no step hides before it is observed spoils every run that ends observed. -/
theorem not_eachState_of_fault (hI : ∀ s a s', I s → D s a → step s a = some s' → I s')
    (hstay : ∀ s a s', I s → D s a → step s a = some s' → ¬ O s → ¬ A s → ¬ A s') {s t : σ}
    {w : List α} (hs : I s) (hw : EachStep step D s w) (hrun : run step s w = some t) (ht : O t)
    (hA : ¬ A s) : ¬ EachState step (fun s => O s → A s) s w := by
  intro hall
  induction w generalizing s with
  | nil =>
    obtain rfl : s = t := Option.some.inj hrun
    exact hA (hall ht)
  | cons a w ih =>
    obtain ⟨s', hs', hrun⟩ := run_cons_eq_some.mp hrun
    have hA' := hstay s a s' hs hw.1 hs' (fun hO => hA (hall.1 hO)) hA
    exact ih (hI s a s' hs hw.1 hs') (hw.2 s' hs') hrun hA' (hall.2 s' hs')

/-- **Where a step breaks `A` exactly when it is outside `C`**, a run shows `A` whenever it is
observed if and only if its steps are all in `C`. -/
theorem eachState_observed_iff (hI : ∀ s a s', I s → D s a → step s a = some s' → I s')
    (hC : ∀ s a s', I s → D s a → step s a = some s' → A s → (A s' ↔ C s a))
    (hstay : ∀ s a s', I s → D s a → step s a = some s' → ¬ O s → ¬ A s → ¬ A s') {s t : σ}
    {w : List α} (hs : I s) (hA : A s) (hw : EachStep step D s w) (hrun : run step s w = some t)
    (ht : O t) : EachState step (fun s => O s → A s) s w ↔ EachStep step C s w := by
  induction w generalizing s with
  | nil => exact iff_of_true (fun _ => hA) trivial
  | cons a w ih =>
    obtain ⟨s', hs', hrun⟩ := run_cons_eq_some.mp hrun
    have hI' := hI s a s' hs hw.1 hs'
    constructor
    · intro hall
      have hA' : A s' := by_contra fun hA' =>
        not_eachState_of_fault hI hstay hI' (hw.2 s' hs') hrun ht hA' (hall.2 s' hs')
      exact (eachStep_cons hs').mpr
        ⟨(hC s a s' hs hw.1 hs' hA).mp hA', (ih hI' hA' (hw.2 s' hs') hrun).mp (hall.2 s' hs')⟩
    · intro hall
      have hA' := (hC s a s' hs hw.1 hs' hA).mpr hall.1
      refine ⟨fun _ => hA, fun t hstep => ?_⟩
      obtain rfl := Option.some.inj (hstep.symm.trans hs')
      exact (ih hI' hA' (hw.2 _ hs') hrun).mpr (hall.2 _ hs')

end Observed

/-! ## Harm that is mended -/

section Mended

variable (step) (harm mend : σ → α → Prop)

/-- Every step that does harm is followed by a step that mends it. -/
def Mended : σ → List α → Prop
  | _, [] => True
  | s, a :: w => ∀ s' ∈ step s a,
      (harm s a → ¬ EachStep step (fun s a => ¬ mend s a) s' w) ∧ Mended s' w

variable {step harm mend} {I P : σ → Prop} {C : σ → α → Prop}

/-- What harm brings about and only mending ends is there at the end of a run if it was there all
along, or some harm was not mended. -/
theorem harmed_iff (hI : ∀ s a s', I s → C s a → step s a = some s' → I s')
    (hP : ∀ s a s', I s → C s a → step s a = some s' → (P s' ↔ harm s a ∨ P s ∧ ¬ mend s a))
    {s t : σ} {w : List α} (hs : I s) (hw : EachStep step C s w) (hrun : run step s w = some t) :
    P t ↔ P s ∧ EachStep step (fun s a => ¬ mend s a) s w ∨ ¬ Mended step harm mend s w := by
  induction w generalizing s with
  | nil =>
    obtain rfl := Option.some.inj hrun
    simp [EachStep, Mended]
  | cons a w ih =>
    obtain ⟨s', hs', hrest⟩ := run_cons_eq_some.mp hrun
    have hmended : Mended step harm mend s (a :: w)
        ↔ (harm s a → ¬ EachStep step (fun s a => ¬ mend s a) s' w)
          ∧ Mended step harm mend s' w := by
      simp [Mended, hs']
    rw [ih (hI s a s' hs hw.1 hs') (hw.2 s' hs') hrest, hP s a s' hs hw.1 hs', eachStep_cons hs',
      hmended]
    tauto

/-- **A run ends unharmed exactly if all harm done on the way is mended.** -/
theorem unharmed_iff (hI : ∀ s a s', I s → C s a → step s a = some s' → I s')
    (hP : ∀ s a s', I s → C s a → step s a = some s' → (P s' ↔ harm s a ∨ P s ∧ ¬ mend s a))
    {s t : σ} {w : List α} (hs : I s) (hw : EachStep step C s w) (hrun : run step s w = some t)
    (hfirst : ¬ P s) : ¬ P t ↔ Mended step harm mend s w := by
  rw [harmed_iff hI hP hs hw hrun]
  tauto

end Mended

/-! ## Logs -/

section Log

variable {β : Type*} (step) (note : σ → α → List β)

/-- What the steps of a run note down, oldest first. -/
def log : σ → List α → List β
  | _, [] => []
  | s, a :: w => note s a ++ ((step s a).map fun s' => log s' w).getD []

variable {step note}

@[simp] theorem log_nil (s : σ) : log step note s [] = [] := rfl

theorem log_cons {s s' : σ} {a : α} (w : List α) (h : step s a = some s') :
    log step note s (a :: w) = note s a ++ log step note s' w := by
  rw [log, h]
  rfl

end Log

/-! ## Simulation -/

/-- **A run casts a shadow**: where every step is matched by a run of the abstract system, under
labels read off its own, so is every word. -/
theorem run_shadow {τ β : Type*} {step' : τ → β → Option τ} {I : σ → Prop} {C : σ → α → Prop}
    (abstract : σ → τ) (shadow : α → List β)
    (hstep : ∀ s a s', I s → C s a → step s a = some s' →
      I s' ∧ run step' (abstract s) (shadow a) = some (abstract s')) {s t : σ} {w : List α}
    (hs : I s) (hw : EachStep step C s w) (ht : run step s w = some t) :
    I t ∧ run step' (abstract s) (w.flatMap shadow) = some (abstract t) := by
  induction w generalizing s with
  | nil =>
    obtain rfl : s = t := Option.some.inj ht
    exact ⟨hs, rfl⟩
  | cons a w ih =>
    obtain ⟨s', hs', hrun⟩ := run_cons_eq_some.mp ht
    obtain ⟨hI, hfirst⟩ := hstep s a s' hs hw.1 hs'
    obtain ⟨hIt, hrest⟩ := ih hI (hw.2 s' hs') hrun
    rw [List.flatMap_cons]
    exact ⟨hIt, run_append_eq_some.mpr ⟨_, hfirst, hrest⟩⟩

/-! ## Machines that answer -/

section Serve

variable {β : Type*} (answer : σ → α → Option (β × σ))

/-- The answers a machine gives to a word of requests, and the state it is left in. -/
def serve : σ → List α → Option (List β × σ)
  | s, [] => some ([], s)
  | s, a :: w => (answer s a).bind fun r => (serve r.2 w).map fun rs => (r.1 :: rs.1, rs.2)

variable {answer}

@[simp] theorem serve_nil (s : σ) : serve answer s [] = some ([], s) := rfl

theorem serve_cons_eq_some {s t : σ} {a : α} {w : List α} {bs : List β} :
    serve answer s (a :: w) = some (bs, t)
      ↔ ∃ b s' bs', answer s a = some (b, s') ∧ serve answer s' w = some (bs', t)
          ∧ bs = b :: bs' := by
  rw [serve, Option.bind_eq_some_iff]
  constructor
  · rintro ⟨⟨b, s'⟩, hb, h⟩
    obtain ⟨⟨bs', t'⟩, hbs, heq⟩ := Option.map_eq_some_iff.mp h
    obtain ⟨rfl, rfl⟩ := Prod.mk.inj heq
    exact ⟨b, s', bs', hb, hbs, rfl⟩
  · rintro ⟨b, s', bs', hb, hbs, rfl⟩
    exact ⟨(b, s'), hb, by rw [hbs]; rfl⟩

theorem length_of_serve {s t : σ} {w : List α} {bs : List β}
    (h : serve answer s w = some (bs, t)) : bs.length = w.length := by
  induction w generalizing s bs with
  | nil =>
    obtain ⟨rfl, -⟩ := Prod.mk.inj (Option.some.inj h)
    rfl
  | cons a w ih =>
    obtain ⟨b, s', bs', -, hrest, rfl⟩ := serve_cons_eq_some.mp h
    rw [List.length_cons, ih hrest, List.length_cons]

/-- One more request. -/
theorem serve_concat {s m t : σ} {a : α} {b : β} {w : List α} {bs : List β}
    (h : serve answer s w = some (bs, m)) (ha : answer m a = some (b, t)) :
    serve answer s (w ++ [a]) = some (bs ++ [b], t) := by
  induction w generalizing s bs with
  | nil =>
    obtain ⟨rfl, rfl⟩ := Prod.mk.inj (Option.some.inj h)
    exact serve_cons_eq_some.mpr ⟨b, t, [], ha, rfl, rfl⟩
  | cons a' w ih =>
    obtain ⟨b', s', bs', hb', hbs', rfl⟩ := serve_cons_eq_some.mp h
    exact serve_cons_eq_some.mpr ⟨b', s', bs' ++ [b], hb', ih hbs', rfl⟩

end Serve

/-! ## One party of many

A state may keep a party for each index, those that are there, and a step replace one of them. -/

section Parties

variable {ι π : Type*} [DecidableEq ι] {parties : ι → Option π} {i j : ι} {p q : π}

/-- Who is there afterwards: the new one in its place, and the others. -/
theorem update_eq_some : Function.update parties i (some p) j = some q
    ↔ j = i ∧ q = p ∨ j ≠ i ∧ parties j = some q := by
  rw [Function.update_apply]
  split_ifs with hji
  · rw [Option.some_inj, eq_comm]
    exact ⟨fun hq => .inl ⟨hji, hq⟩, fun h => (h.resolve_right fun hne => hne.1 hji).2⟩
  · exact ⟨fun hq => .inr ⟨hji, hq⟩, fun h => (h.resolve_left fun heq => hji heq.1).2⟩

end Parties

end Transition
