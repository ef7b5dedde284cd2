import Mathlib.Data.List.Basic

/-!
# Machinery/Aliases — names with several spellings

Values are filed under names, the later in the place of the earlier (`lastOf`).  A function `f` of
names says which of them are spellings of one.  A store that keeps every name as it was spelled and
a cell that takes each value filed under a spelling of `c` are two views of one list; they agree
exactly if `c` is spelled in one way only (`agrees_lastOf_iff`).
-/

namespace Aliases

variable {κ κ' ν : Type*}

/-- The values of `m` under spellings of `c`, against a cell that is to hold the one for `c`. -/
structure Agrees (f : κ → κ') (m : κ → Option ν) (c : κ') (cell : Option ν) : Prop where
  /-- At most one spelling holds a value… -/
  unique : ∀ {k k'}, f k = c → f k' = c → (m k).isSome → (m k').isSome → k = k'
  /-- …which is the cell's… -/
  value : ∀ {k v}, f k = c → m k = some v → cell = some v
  /-- …and the cell is empty if none does. -/
  absent : (∀ k, f k = c → m k = none) → cell = none

/-- The names of the list that are spellings of `c` are one. -/
def SpelledAlike (f : κ → κ') (ps : List (κ × ν)) (c : κ') : Prop :=
  ∀ p ∈ ps, ∀ p' ∈ ps, f p.1 = c → f p'.1 = c → p.1 = p'.1

instance [DecidableEq κ] [DecidableEq κ'] (f : κ → κ') (ps : List (κ × ν)) (c : κ') :
    Decidable (SpelledAlike f ps c) :=
  inferInstanceAs (Decidable (∀ p ∈ ps, ∀ p' ∈ ps, f p.1 = c → f p'.1 = c → p.1 = p'.1))

/-- The list with its names read through `f`. -/
def folded (f : κ → κ') (ps : List (κ × ν)) : List (κ' × ν) := ps.map (Prod.map f id)

@[simp] theorem folded_append (f : κ → κ') (ps ps' : List (κ × ν)) :
    folded f (ps ++ ps') = folded f ps ++ folded f ps' := List.map_append

variable [DecidableEq κ] [DecidableEq κ'] {f : κ → κ'} {ps : List (κ × ν)} {k : κ} {c : κ'}

/-- The value last filed under a name. -/
def lastOf (ps : List (κ × ν)) (k : κ) : Option ν :=
  ((ps.filter fun p => p.1 = k).map Prod.snd).getLast?

/-- **The last one filed decides**, for its own name. -/
theorem lastOf_concat (ps : List (κ × ν)) (p : κ × ν) (k : κ) :
    lastOf (ps ++ [p]) k = if k = p.1 then some p.2 else lastOf ps k := by
  rcases eq_or_ne k p.1 with rfl | h
  · simp [lastOf]
  · simp [lastOf, h, h.symm]

omit [DecidableEq κ] in
theorem lastOf_folded_concat (f : κ → κ') (ps : List (κ × ν)) (p : κ × ν) (c : κ') :
    lastOf (folded f (ps ++ [p])) c
      = if c = f p.1 then some p.2 else lastOf (folded f ps) c := by
  rw [folded_append]
  exact lastOf_concat (folded f ps) (f p.1, p.2) c

theorem lastOf_eq_none_iff : lastOf ps k = none ↔ ∀ p ∈ ps, p.1 ≠ k := by
  simp only [lastOf, List.getLast?_eq_none_iff, List.map_eq_nil_iff, List.filter_eq_nil_iff,
    decide_eq_true_eq, ne_eq]

/-- A name holds a value if one was filed under it. -/
theorem isSome_lastOf_iff : (lastOf ps k).isSome ↔ ∃ p ∈ ps, p.1 = k := by
  rw [← not_iff_not, Option.not_isSome_iff_eq_none, lastOf_eq_none_iff]
  push Not
  rfl

/-- Where all spellings of a name are that name, it may as well be read through `f`. -/
theorem lastOf_folded (h : ∀ p ∈ ps, f p.1 = f k → p.1 = k) :
    lastOf (folded f ps) (f k) = lastOf ps k := by
  have hfilter : (ps.filter fun p => f p.1 = f k) = ps.filter fun p => p.1 = k :=
    List.filter_congr fun p hp => decide_eq_decide.mpr ⟨h p hp, congrArg f⟩
  rw [lastOf, lastOf, folded, List.filter_map, List.map_map, ← hfilter]
  rfl

theorem lastOf_folded_eq_none (h : ∀ k, f k = c → lastOf ps k = none) :
    lastOf (folded f ps) c = none := by
  rw [lastOf_eq_none_iff]
  intro q hq hqc
  obtain ⟨p, hp, rfl⟩ := List.mem_map.mp hq
  exact lastOf_eq_none_iff.mp (h p.1 hqc) p hp rfl

/-- **The views agree exactly if one spelling is in use.** -/
theorem agrees_lastOf_iff :
    Agrees f (lastOf ps) c (lastOf (folded f ps) c) ↔ SpelledAlike f ps c := by
  constructor
  · intro h p hp p' hp' hc hc'
    have hsome : (lastOf ps p.1).isSome := isSome_lastOf_iff.mpr ⟨p, hp, rfl⟩
    have hsome' : (lastOf ps p'.1).isSome := isSome_lastOf_iff.mpr ⟨p', hp', rfl⟩
    exact h.unique hc hc' hsome hsome'
  · intro h
    refine ⟨?_, ?_, lastOf_folded_eq_none⟩
    · intro k k' hk hk' hsome hsome'
      obtain ⟨p, hp, rfl⟩ := isSome_lastOf_iff.mp hsome
      obtain ⟨p', hp', rfl⟩ := isSome_lastOf_iff.mp hsome'
      exact h p hp p' hp' hk hk'
    · rintro k v rfl hv
      -- `k` is in use, so every spelling in the list is `k`
      obtain ⟨p, hp, rfl⟩ := isSome_lastOf_iff.mp (Option.isSome_iff_exists.mpr ⟨v, hv⟩)
      rw [lastOf_folded fun p' hp' hfold => h p' hp' p hp hfold rfl, hv]

end Aliases
