import Mathlib.Data.Finmap
import Mathlib.Tactic.Simps.Basic
import PecsRegistry.Machinery.Transition

/-!
# Machinery/DoubleChecked — a cache that is looked up twice

Callers share a cache under a readers-writer lock.  A caller looks under the read lock for an entry
that fits its request; if there is none it takes the write lock, looks again, and only then builds
an entry and stores it.  Between the two others may have stored what they built.

* A run is as good as its requests one by one, in the order they are served (`serve_of_run`).
* Where what is built for a key fits every request for it, **the key is not built twice**
  (`count_building`): callers that miss together wait for the lock together, and the second look
  tells all but the first.
-/

open Transition

namespace DoubleChecked

variable {ρ κ ν β : Type*}

/-- What a request asks of the cache: nothing, if it has a `direct` answer; else an entry under its
key that fits it, from which the answer is made. -/
structure Cache (ρ κ ν β : Type*) where
  direct : ρ → Option β
  key : ρ → κ
  fits : ρ → ν → Bool
  build : ρ → ν
  answer : ρ → ν → β

/-- Where a caller stands: about to take the read lock, about to take the write lock, or done. -/
inductive Phase (ρ β : Type*)
  | idle
  | looking (request : ρ)
  | building (request : ρ)
  | served (request : ρ) (answer : β)

/-- The request of a caller that waits for a lock. -/
def Phase.pending : Phase ρ β → Option ρ
  | looking request | building request => some request
  | _ => none

/-- What a caller has been answered. -/
def Phase.done : Phase ρ β → Option (ρ × β)
  | served request answer => some (request, answer)
  | _ => none

theorem Phase.done_of_pending {p : Phase ρ β} {q : ρ} (h : p.pending = some q) : p.done = none := by
  cases p with
  | served _ _ => cases h
  | _ => rfl

structure State (ρ κ ν β : Type*) where
  entries : Finmap fun _ : κ => ν
  phase : ℕ → Phase ρ β

@[simps]
def State.setPhase (s : State ρ κ ν β) (i : ℕ) (p : Phase ρ β) : State ρ κ ν β where
  entries := s.entries
  phase := Function.update s.phase i p

/-- A caller makes its request, looks under the read lock, or looks and builds under the write
lock. -/
inductive Label (ρ : Type*)
  | ask (i : ℕ) (request : ρ)
  | look (i : ℕ)
  | build (i : ℕ)

def Label.caller : Label ρ → ℕ
  | ask i _ | look i | build i => i

/-- Nobody has made a request. -/
def State.start : State ρ κ ν β := ⟨∅, fun _ => .idle⟩

namespace Cache

variable (C : Cache ρ κ ν β) {s s' t : State ρ κ ν β} {l : Label ρ} {w : List (Label ρ)}

/-- Callers that wait for a lock need the cache. -/
def Due (s : State ρ κ ν β) : Prop :=
  ∀ i q, (s.phase i).pending = some q → C.direct q = none

theorem due_start : C.Due .start := fun _ _ h => by cases h

variable [DecidableEq κ]

/-- The entry for a request, if there is one that fits it. -/
def found (entries : Finmap fun _ : κ => ν) (q : ρ) : Option ν :=
  (entries.lookup (C.key q)).filter (C.fits q)

/-- The entry for a request, built if need be, and the cache with it. -/
def get (entries : Finmap fun _ : κ => ν) (q : ρ) : ν × Finmap fun _ : κ => ν :=
  match C.found entries q with
  | some entry => (entry, entries)
  | none => (C.build q, entries.insert (C.key q) (C.build q))

/-- A request with the cache to itself. -/
def handle (entries : Finmap fun _ : κ => ν) (q : ρ) : β × Finmap fun _ : κ => ν :=
  match C.direct q with
  | some b => (b, entries)
  | none => (C.answer q (C.get entries q).1, (C.get entries q).2)

theorem handle_of_direct {q : ρ} {b : β} (h : C.direct q = some b)
    (entries : Finmap fun _ : κ => ν) : C.handle entries q = (b, entries) := by
  rw [handle, h]

theorem handle_of_needed {q : ρ} (h : C.direct q = none) (entries : Finmap fun _ : κ => ν) :
    C.handle entries q = (C.answer q (C.get entries q).1, (C.get entries q).2) := by
  rw [handle, h]

def step (s : State ρ κ ν β) : Label ρ → Option (State ρ κ ν β)
  | .ask i q =>
      match s.phase i with
      | .idle => some (s.setPhase i ((C.direct q).elim (.looking q) (.served q)))
      | _ => none
  | .look i =>
      match s.phase i with
      | .looking q => some (s.setPhase i
          ((C.found s.entries q).elim (.building q) fun entry => .served q (C.answer q entry)))
      | _ => none
  | .build i =>
      match s.phase i with
      | .building q =>
          let r := C.get s.entries q
          some ({ s with entries := r.2 }.setPhase i (.served q (C.answer q r.1)))
      | _ => none

/-- The request a step serves, with its caller and its answer. -/
def serving (s : State ρ κ ν β) (l : Label ρ) : List (ℕ × ρ × β) :=
  (((C.step s l).bind fun s' => (s'.phase l.caller).done).map fun r => (l.caller, r)).toList

/-- The key a step builds an entry for. -/
def building (s : State ρ κ ν β) : Label ρ → List κ
  | .build i =>
      match s.phase i with
      | .building q => if (C.found s.entries q).isNone then [C.key q] else []
      | _ => []
  | _ => []

/-! ## Steps -/

/-- Where a step takes its caller: on to a lock, with the cache as it is; or it is served as it
would be with the cache to itself. -/
inductive Move (s : State ρ κ ν β) (l : Label ρ) (entries : Finmap fun _ : κ => ν) :
    Phase ρ β → Prop
  | wait {p : Phase ρ β} {q : ρ} (waits : p.pending = some q) (needs : C.direct q = none)
      (asked : (∃ i, l = .ask i q) ∨ (s.phase l.caller).pending = some q)
      (same : entries = s.entries) : Move s l entries p
  | serve {q : ρ} {b : β} (handled : C.handle s.entries q = (b, entries)) :
      Move s l entries (.served q b)

/-- **Everything a step does.** -/
theorem move_of_step (hdue : C.Due s) (h : C.step s l = some s') :
    (s.phase l.caller).done = none
      ∧ ∃ p, s'.phase = Function.update s.phase l.caller p ∧ C.Move s l s'.entries p := by
  cases l with
  | ask i q =>
    rw [step] at h
    cases hp : s.phase i with
    | idle =>
      rw [hp] at h
      obtain rfl := Option.some.inj h
      refine ⟨by rw [Label.caller, hp]; rfl, _, rfl, ?_⟩
      cases hdirect : C.direct q with
      | none => exact .wait (q := q) rfl hdirect (.inl ⟨i, rfl⟩) rfl
      | some b => exact .serve (C.handle_of_direct hdirect _)
    | _ => simp [hp] at h
  | look i =>
    rw [step] at h
    cases hp : s.phase i with
    | looking q =>
      rw [hp] at h
      obtain rfl := Option.some.inj h
      have hdirect := hdue i q (by rw [hp]; rfl)
      refine ⟨by rw [Label.caller, hp]; rfl, _, rfl, ?_⟩
      cases hfound : C.found s.entries q with
      | none =>
        exact .wait (q := q) rfl hdirect (.inr (by rw [Label.caller, hp]; rfl)) rfl
      | some entry => exact .serve (by rw [C.handle_of_needed hdirect, get, hfound]; rfl)
    | _ => simp [hp] at h
  | build i =>
    rw [step] at h
    cases hp : s.phase i with
    | building q =>
      rw [hp] at h
      obtain rfl := Option.some.inj h
      have hdirect := hdue i q (by rw [hp]; rfl)
      exact ⟨by rw [Label.caller, hp]; rfl, _, rfl, .serve (C.handle_of_needed hdirect _)⟩
    | _ => simp [hp] at h

theorem Due.step (hdue : C.Due s) (h : C.step s l = some s') : C.Due s' := by
  obtain ⟨-, p, hphase, move⟩ := C.move_of_step hdue h
  intro i q hq
  rw [hphase, Function.update_apply] at hq
  split_ifs at hq
  · cases move with
    | wait waits needs asked same =>
      obtain rfl := Option.some.inj (waits.symm.trans hq)
      exact needs
    | serve handled => cases hq
  · exact hdue i q hq

/-- What a step serves shows in the phase of its caller, and nowhere else. -/
theorem serving_eq (h : C.step s l = some s') :
    C.serving s l = (((s'.phase l.caller).done).map fun r => (l.caller, r)).toList := by
  rw [serving, h]
  rfl

/-! ## One by one -/

/-- **A run is as good as its requests one by one**, in the order they are served. -/
theorem serve_of_run (hdue : C.Due s) (hrun : run C.step s w = some t) :
    serve (fun entries q => some (C.handle entries q)) s.entries
        ((log C.step C.serving s w).map fun e => e.2.1)
      = some ((log C.step C.serving s w).map fun e => e.2.2, t.entries) := by
  induction w generalizing s with
  | nil =>
    obtain rfl := Option.some.inj hrun
    rfl
  | cons l w ih =>
    obtain ⟨s', hs', hrest⟩ := run_cons_eq_some.mp hrun
    obtain ⟨-, p, hphase, move⟩ := C.move_of_step hdue hs'
    have hcaller : s'.phase l.caller = p := by rw [hphase, Function.update_self]
    rw [log_cons w hs', C.serving_eq hs', hcaller]
    have hrest' := ih (hdue.step C hs') hrest
    cases move with
    | wait waits needs asked same =>
      rw [Phase.done_of_pending waits, ← same]
      exact hrest'
    | @serve q b handled =>
      exact serve_cons_eq_some.mpr ⟨b, s'.entries, _, congrArg some handled, hrest', rfl⟩

/-- Each caller is served once, and what it is answered is in the log. -/
theorem done_of_run (hdue : C.Due s) (hrun : run C.step s w = some t) :
    ((log C.step C.serving s w).map Prod.fst).Nodup
      ∧ (∀ e ∈ log C.step C.serving s w, (s.phase e.1).done = none)
      ∧ ∀ i r, (t.phase i).done = some r
        ↔ (s.phase i).done = some r ∨ (i, r) ∈ log C.step C.serving s w := by
  induction w generalizing s with
  | nil =>
    obtain rfl := Option.some.inj hrun
    simp
  | cons l w ih =>
    obtain ⟨s', hs', hrest⟩ := run_cons_eq_some.mp hrun
    obtain ⟨hfirst, p, hphase, -⟩ := C.move_of_step hdue hs'
    obtain ⟨hnodup, hbefore, hafter⟩ := ih (hdue.step C hs') hrest
    have hcaller : s'.phase l.caller = p := by rw [hphase, Function.update_self]
    have hdone : ∀ i r, (s'.phase i).done = some r
        ↔ (s.phase i).done = some r ∨ i = l.caller ∧ p.done = some r := by
      intro i r
      rcases eq_or_ne i l.caller with rfl | hne
      · simp [hcaller, hfirst]
      · rw [hphase, Function.update_of_ne hne]
        simp [hne]
    have hfresh : ∀ e ∈ log C.step C.serving s' w, (s.phase e.1).done = none := fun e he => by
      refine Option.eq_none_iff_forall_ne_some.mpr fun r hr => ?_
      have hlater := (hdone e.1 r).mpr (.inl hr)
      rw [hbefore e he] at hlater
      cases hlater
    rw [log_cons w hs', C.serving_eq hs', hcaller]
    cases hp : p.done with
    | none =>
      refine ⟨hnodup, hfresh, fun i r => ?_⟩
      rw [hafter, hdone, hp]
      simp
    | some r =>
      have hnew : l.caller ∉ (log C.step C.serving s' w).map Prod.fst := fun hmem => by
        obtain ⟨e, he, heq⟩ := List.mem_map.mp hmem
        have hnone := hbefore e he
        rw [heq, hcaller, hp] at hnone
        cases hnone
      refine ⟨List.nodup_cons.mpr ⟨hnew, hnodup⟩, List.forall_mem_cons.mpr ⟨hfirst, hfresh⟩,
        fun i r' => ?_⟩
      rw [hafter, hdone, hp]
      simp [or_assoc, eq_comm]

/-! ## What is built -/

/-- The callers that wait, and the one that built what is in the cache for the key, made requests in
`R`. -/
structure Stocked (R : ρ → Prop) (k : κ) (s : State ρ κ ν β) : Prop where
  pending : ∀ i q, (s.phase i).pending = some q → R q
  entry : ∀ entry, s.entries.lookup k = some entry → ∃ q, R q ∧ C.key q = k ∧ C.build q = entry

/-- A request that the step makes is in `R`, if it needs the cache. -/
def Asks (R : ρ → Prop) : Label ρ → Prop
  | .ask _ q => C.direct q = none → R q
  | _ => True

/-- What is built for the key fits every request for it. -/
def Suits (R : ρ → Prop) (k : κ) : Prop :=
  ∀ q q', R q → R q' → C.key q = k → C.key q' = k → C.fits q (C.build q')

variable {R : ρ → Prop} {k : κ}

/-- **What a step builds for a key**: nothing, or an entry where there was none. -/
theorem entry_of_step (hR : C.Suits R k) (hs : C.Stocked R k s) (h : C.step s l = some s') :
    k ∉ C.building s l ∧ s'.entries.lookup k = s.entries.lookup k
      ∨ ∃ q, R q ∧ C.key q = k ∧ C.building s l = [k] ∧ s.entries.lookup k = none
        ∧ s'.entries.lookup k = some (C.build q) := by
  cases l with
  | ask i q =>
    rw [step] at h
    split at h
    · exact .inl ⟨List.not_mem_nil, by rw [← Option.some.inj h]; rfl⟩
    · cases h
  | look i =>
    rw [step] at h
    split at h
    · exact .inl ⟨List.not_mem_nil, by rw [← Option.some.inj h]; rfl⟩
    · cases h
  | build i =>
    rw [step] at h
    cases hp : s.phase i with
    | building q =>
      rw [hp] at h
      obtain rfl := Option.some.inj h
      have hq : R q := hs.pending i q (by rw [hp]; rfl)
      rw [building, hp]
      cases hfound : C.found s.entries q with
      | some entry => exact .inl ⟨by simp [hfound], by simp [get, hfound]⟩
      | none =>
        rcases eq_or_ne k (C.key q) with rfl | hne
        · refine .inr ⟨q, hq, rfl, by simp [hfound], ?_, by simp [get, hfound]⟩
          -- what is there was built for the key, and would have been found
          refine Option.eq_none_iff_forall_ne_some.mpr fun entry hentry => ?_
          obtain ⟨q', hq', hkey, rfl⟩ := hs.entry _ hentry
          rw [found, hentry, Option.filter_some, if_pos (hR q q' hq hq' rfl hkey)] at hfound
          cases hfound
        · exact .inl ⟨by simp [hfound, hne],
            by simp [get, hfound, Finmap.lookup_insert_of_ne _ hne]⟩
    | _ => simp [hp] at h

theorem Stocked.step (hR : C.Suits R k) (hs : C.Stocked R k s) (hdue : C.Due s) (hl : C.Asks R l)
    (h : C.step s l = some s') : C.Stocked R k s' := by
  constructor
  · intro i q hq
    obtain ⟨-, p, hphase, move⟩ := C.move_of_step hdue h
    rw [hphase, Function.update_apply] at hq
    split_ifs at hq
    · cases move with
      | wait waits needs asked same =>
        obtain rfl := Option.some.inj (waits.symm.trans hq)
        rcases asked with ⟨i, rfl⟩ | hpending
        · exact hl needs
        · exact hs.pending _ _ hpending
      | serve handled => cases hq
    · exact hs.pending i q hq
  · intro entry hentry
    rcases C.entry_of_step hR hs h with ⟨-, hsame⟩ | ⟨q, hq, hkey, -, -, hbuilt⟩
    · exact hs.entry entry (hsame ▸ hentry)
    · exact ⟨q, hq, hkey, Option.some.inj (hbuilt.symm.trans hentry)⟩

theorem stocked_start : C.Stocked R k .start :=
  ⟨fun _ _ h => (by cases h), fun _ h => (by cases h)⟩

/-- **A key is not built twice**, where what is built for it fits every request for it; nor where
there is an entry already. -/
theorem count_building (hR : C.Suits R k) (hs : C.Stocked R k s) (hdue : C.Due s)
    (hw : ∀ l ∈ w, C.Asks R l) (hrun : run C.step s w = some t) :
    (log C.step C.building s w).count k ≤ 1
      ∧ (k ∈ log C.step C.building s w → s.entries.lookup k = none) := by
  induction w generalizing s with
  | nil => simp
  | cons l w ih =>
    obtain ⟨s', hs', hrest⟩ := run_cons_eq_some.mp hrun
    obtain ⟨hl, hw⟩ := List.forall_mem_cons.mp hw
    obtain ⟨hcount, hnone⟩ := ih (hs.step C hR hdue hl hs') (hdue.step C hs') hw hrest
    rw [log_cons w hs', List.count_append, List.mem_append]
    rcases C.entry_of_step hR hs hs' with ⟨hother, hsame⟩ | ⟨q, -, -, hbuilding, habsent, hbuilt⟩
    · rw [List.count_eq_zero_of_not_mem hother, Nat.zero_add]
      exact ⟨hcount, fun hmem => hsame ▸ hnone (hmem.resolve_left hother)⟩
    · -- from here on there is an entry
      have hnot : k ∉ log C.step C.building s' w := fun hmem => by
        rw [hnone hmem] at hbuilt
        cases hbuilt
      rw [hbuilding, List.count_eq_zero_of_not_mem hnot]
      exact ⟨by simp, fun _ => habsent⟩

end Cache

end DoubleChecked
