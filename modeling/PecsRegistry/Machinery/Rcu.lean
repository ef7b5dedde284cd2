import Mathlib.Data.Finset.Basic
import Mathlib.Tactic.Simps.Basic
import PecsRegistry.Machinery.Transition

/-!
# Machinery/Rcu — read, copy, update

A cell holds an immutable value behind a pointer.  A caller updates it in a loop: it loads the
pointer, computes a new value from the one behind it, puts that behind a fresh pointer, and swaps
the two if the cell still holds what it has loaded; if not, it starts over.  What the computation
yields besides the new value is captured anew on each attempt.

Addresses are reused, but not while the cell or a caller holds them; so a swap that finds its
address in the cell finds the very value it has computed from (`Coherent`).  Hence a run is as good
as the updates one by one, in the order of their swaps (`linear_of_run`).
-/

namespace Rcu

open Transition

variable {ι α β : Type*}

/-- A pointer and the value behind it. -/
structure Pointer (α : Type*) where
  addr : ℕ
  val : α

/-- Where a caller stands in its loop. -/
inductive Phase (α : Type*)
  | idle
  | loading
  | loaded (current : Pointer α)
  | computed (current next : Pointer α)
  | swapped

/-- The pointers a caller holds. -/
def Phase.held : Phase α → List (Pointer α)
  | loaded current => [current]
  | computed current next => [current, next]
  | _ => []

structure Caller (α β : Type*) where
  phase : Phase α
  captured : β

/-- The cell, its callers, and those of them that have begun. -/
structure State (ι α β : Type*) where
  cell : Pointer α
  callers : ι → Caller α β
  begun : Finset ι

/-- What a caller does next; a fresh pointer comes with its address. -/
inductive Label (ι : Type*)
  | call (i : ι)
  | load (i : ι)
  | compute (i : ι) (addr : ℕ)
  | swap (i : ι)
  | retry (i : ι)
deriving DecidableEq

def init (a : α) (blank : β) : State ι α β := ⟨⟨0, a⟩, fun _ => ⟨.idle, blank⟩, ∅⟩

namespace State

/-- The cell or a caller holds the address. -/
def Live (s : State ι α β) (addr : ℕ) : Prop :=
  addr = s.cell.addr ∨ ∃ i ∈ s.begun, ∃ p ∈ (s.callers i).phase.held, addr = p.addr

instance (s : State ι α β) (addr : ℕ) : Decidable (s.Live addr) :=
  inferInstanceAs (Decidable (_ ∨ ∃ i ∈ s.begun, ∃ p ∈ (s.callers i).phase.held, addr = p.addr))

variable [DecidableEq ι]

@[simps]
def setCaller (s : State ι α β) (i : ι) (c : Caller α β) : State ι α β :=
  { s with callers := Function.update s.callers i c }

def setPhase (s : State ι α β) (i : ι) (phase : Phase α) : State ι α β :=
  s.setCaller i { s.callers i with phase }

theorem phase_setPhase (s : State ι α β) (i j : ι) (phase : Phase α) :
    ((s.setPhase i phase).callers j).phase = if j = i then phase else (s.callers j).phase := by
  rw [setPhase, setCaller_callers, Function.update_apply]
  split_ifs <;> rfl

@[simp] theorem captured_setPhase (s : State ι α β) (i j : ι) (phase : Phase α) :
    ((s.setPhase i phase).callers j).captured = (s.callers j).captured := by
  rw [setPhase, setCaller_callers, Function.update_apply]
  split_ifs with hji
  · rw [hji]
  · rfl

/-- The cell takes over a pointer. -/
@[simps]
def point (s : State ι α β) (p : Pointer α) : State ι α β := { s with cell := p }

end State

section Step

variable [DecidableEq ι] (act : ι → α → α × β)

/-- One step of a caller, whose computation is `act`. -/
def step (s : State ι α β) : Label ι → Option (State ι α β)
  | .call i =>
      match (s.callers i).phase with
      | .idle => some { s.setPhase i .loading with begun := insert i s.begun }
      | _ => none
  | .load i =>
      match (s.callers i).phase with
      | .loading => some (s.setPhase i (.loaded s.cell))
      | _ => none
  | .compute i addr =>
      match (s.callers i).phase with
      | .loaded current =>
          if s.Live addr then none
          else some (s.setCaller i
            ⟨.computed current ⟨addr, (act i current.val).1⟩, (act i current.val).2⟩)
      | _ => none
  | .swap i =>
      match (s.callers i).phase with
      | .computed current next =>
          if current.addr = s.cell.addr then some ((s.setPhase i .swapped).point next)
          else none
      | _ => none
  | .retry i =>
      match (s.callers i).phase with
      | .computed current _ =>
          if current.addr = s.cell.addr then none else some (s.setPhase i .loading)
      | _ => none

end Step

/-- The callers whose swaps a word takes, in order. -/
def swaps (w : List (Label ι)) : List ι :=
  w.filterMap fun l =>
    match l with
    | .swap i => some i
    | _ => none

/-- The updates one by one. -/
def sequential (act : ι → α → α × β) (a : α) (order : List ι) : α :=
  order.foldl (fun a i => (act i a).1) a

theorem sequential_snoc (act : ι → α → α × β) (a : α) (order : List ι) (i : ι) :
    sequential act a (order ++ [i]) = (act i (sequential act a order)).1 := by
  rw [sequential, List.foldl_append]
  rfl

variable {act : ι → α → α × β} {s s' : State ι α β} {a : α} {order : List ι} {i : ι}

/-! ## Pointers -/

/-- The cell or a caller holds the pointer. -/
def State.Points (s : State ι α β) (p : Pointer α) : Prop :=
  p = s.cell ∨ ∃ i, p ∈ (s.callers i).phase.held

/-- Pointers in use with the same address are the same pointer. -/
def State.Coherent (s : State ι α β) : Prop :=
  ∀ p q, s.Points p → s.Points q → p.addr = q.addr → p.val = q.val

theorem State.Coherent.mono (h : s.Coherent) (hpoints : ∀ p, s'.Points p → s.Points p) :
    s'.Coherent := fun p q hp hq => h p q (hpoints p hp) (hpoints q hq)

/-- A fresh pointer is put to use. -/
theorem State.Coherent.alloc (h : s.Coherent) (new : Pointer α)
    (hnew : ∀ p, s.Points p → p.addr ≠ new.addr)
    (hpoints : ∀ p, s'.Points p → s.Points p ∨ p = new) : s'.Coherent := by
  intro p q hp hq haddr
  rcases hpoints p hp with hp | rfl
  · rcases hpoints q hq with hq | rfl
    · exact h p q hp hq haddr
    · exact absurd haddr (hnew p hp)
  · rcases hpoints q hq with hq | rfl
    · exact absurd haddr.symm (hnew q hq)
    · rfl

/-! ## The swaps of a run, one by one -/

/-- The cell and its callers after some swaps, as if the updates had been made one by one. -/
structure Linear (act : ι → α → α × β) (a : α) (order : List ι) (s : State ι α β) : Prop where
  value : s.cell.val = sequential act a order
  coherent : s.Coherent
  begun : ∀ i, (s.callers i).phase ≠ .idle → i ∈ s.begun
  attempt : ∀ i current next, (s.callers i).phase = .computed current next →
    act i current.val = (next.val, (s.callers i).captured)
  nodup : order.Nodup
  swapped : ∀ i, i ∈ order ↔ (s.callers i).phase = .swapped
  captured : ∀ before i after, order = before ++ i :: after →
    (s.callers i).captured = (act i (sequential act a before)).2

theorem linear_init (a : α) (blank : β) : Linear act a [] (init a blank : State ι α β) where
  value := rfl
  coherent p q hp hq _ := by
    rcases hp with rfl | ⟨j, hj⟩
    · rcases hq with rfl | ⟨j, hj⟩
      · rfl
      · cases hj
    · cases hj
  begun i h := absurd rfl h
  attempt i current next h := by cases h
  nodup := List.nodup_nil
  swapped i := by simp [init]
  captured before i after h := by simp at h

/-- A pointer in use has a live address. -/
theorem Linear.live (h : Linear act a order s) {p : Pointer α} (hp : s.Points p) :
    s.Live p.addr := by
  rcases hp with rfl | ⟨j, hj⟩
  · exact .inl rfl
  · refine .inr ⟨j, h.begun j (fun hidle => ?_), p, hj, rfl⟩
    rw [hidle] at hj
    cases hj

variable [DecidableEq ι]

theorem points_of_update {c : Caller α β} (hcell : s'.cell = s.cell)
    (hcallers : s'.callers = Function.update s.callers i c) {p : Pointer α} (h : s'.Points p) :
    s.Points p ∨ p ∈ c.phase.held := by
  rcases h with rfl | ⟨j, hj⟩
  · exact .inl (.inl hcell)
  · rw [hcallers, Function.update_apply] at hj
    split_ifs at hj
    · exact .inr hj
    · exact .inl (.inr ⟨j, hj⟩)

/-- A caller moves on short of its swap. -/
theorem Linear.update (h : Linear act a order s) {c : Caller α β} (hcell : s'.cell = s.cell)
    (hcallers : s'.callers = Function.update s.callers i c) (hbegun : s.begun ⊆ s'.begun)
    (hi : i ∈ s'.begun) (hcoherent : s'.Coherent)
    (hattempt : ∀ current next, c.phase = .computed current next →
      act i current.val = (next.val, c.captured))
    (hbefore : (s.callers i).phase ≠ .swapped) (hafter : c.phase ≠ .swapped) :
    Linear act a order s' := by
  refine ⟨by rw [hcell, h.value], hcoherent, fun j hj => ?_, fun j current next hj => ?_, h.nodup,
    fun j => ?_, fun before j after horder => ?_⟩
  · rw [hcallers, Function.update_apply] at hj
    split_ifs at hj with hji
    · exact hji ▸ hi
    · exact hbegun (h.begun j hj)
  · rw [hcallers] at hj ⊢
    rcases eq_or_ne j i with rfl | hji
    · rw [Function.update_self] at hj ⊢
      exact hattempt current next hj
    · rw [Function.update_of_ne hji] at hj ⊢
      exact h.attempt j current next hj
  · rw [h.swapped, hcallers]
    rcases eq_or_ne j i with rfl | hji
    · rw [Function.update_self]
      exact iff_of_false hbefore hafter
    · rw [Function.update_of_ne hji]
  · have hji : j ≠ i := by
      rintro rfl
      exact hbefore ((h.swapped j).mp (by simp [horder]))
    rw [hcallers, Function.update_of_ne hji]
    exact h.captured before j after horder

theorem Linear.setPhase (h : Linear act a order s) {phase : Phase α}
    (hheld : ∀ p ∈ phase.held, p = s.cell) (hi : i ∈ s.begun)
    (hcomputed : ∀ current next, phase ≠ .computed current next)
    (hbefore : (s.callers i).phase ≠ .swapped) (hafter : phase ≠ .swapped) :
    Linear act a order (s.setPhase i phase) := by
  refine h.update rfl rfl subset_rfl hi (h.coherent.mono fun p hp => ?_)
    (fun current next hphase => absurd hphase (hcomputed current next)) hbefore hafter
  rcases points_of_update (s := s) (by rfl) (by rfl) hp with hp | hp
  · exact hp
  · exact .inl (hheld p hp)

/-- **A swap takes effect on what the cell holds.** -/
theorem Linear.swap (h : Linear act a order s) {current next : Pointer α}
    (hphase : (s.callers i).phase = .computed current next) (haddr : current.addr = s.cell.addr) :
    Linear act a (order ++ [i]) ((s.setPhase i .swapped).point next) := by
  have hval : current.val = sequential act a order := by
    rw [← h.value]
    exact h.coherent _ _ (.inr ⟨i, by simp [hphase, Phase.held]⟩) (.inl rfl) haddr
  have hact := h.attempt i current next hphase
  have hi : i ∉ order := fun hi => by simp [(h.swapped i).mp hi] at hphase
  have hpoints : ∀ p, State.Points ((s.setPhase i .swapped).point next) p → s.Points p := by
    rintro p (rfl | ⟨j, hj⟩)
    · exact .inr ⟨i, by simp [hphase, Phase.held]⟩
    · rw [State.point_callers, State.phase_setPhase] at hj
      split_ifs at hj
      · cases hj
      · exact .inr ⟨j, hj⟩
  refine ⟨?_, h.coherent.mono hpoints, fun j hj => ?_, fun j current' next' hj => ?_, ?_,
    fun j => ?_, fun before j after horder => ?_⟩
  · rw [sequential_snoc, ← hval, hact]
    rfl
  · rw [State.point_callers, State.phase_setPhase] at hj
    split_ifs at hj with hji
    · exact hji ▸ h.begun i (by simp [hphase])
    · exact h.begun j hj
  · rw [State.point_callers, State.phase_setPhase] at hj
    split_ifs at hj
    rw [State.point_callers, State.captured_setPhase]
    exact h.attempt j current' next' hj
  · rw [← List.concat_eq_append]
    exact h.nodup.concat hi
  · rw [List.mem_append, List.mem_singleton, h.swapped, State.point_callers, State.phase_setPhase]
    split_ifs with hji
    · exact iff_of_true (.inr hji) rfl
    · exact or_iff_left hji
  · rw [State.point_callers, State.captured_setPhase]
    rcases List.eq_nil_or_concat after with rfl | ⟨after, k, rfl⟩
    · obtain ⟨rfl, hji⟩ := List.append_inj' horder rfl
      obtain rfl := List.singleton_inj.mp hji
      rw [← hval, hact]
    · rw [List.concat_eq_append, ← List.cons_append, ← List.append_assoc] at horder
      exact h.captured before j after (List.append_inj' horder rfl).1

/-- **Every step is one of the updates one by one, or none.** -/
theorem Linear.step (h : Linear act a order s) {l : Label ι} (hstep : step act s l = some s') :
    Linear act a (order ++ swaps [l]) s' := by
  revert hstep
  fun_cases Rcu.step act s l <;> intro hstep <;>
    simp only [reduceCtorEq, Option.some.injEq] at hstep <;> subst hstep
  case case1 i idle =>
    rw [swaps, List.filterMap_cons_none rfl, List.filterMap_nil, List.append_nil]
    exact h.update rfl rfl (Finset.subset_insert i s.begun) (Finset.mem_insert_self i s.begun)
      (h.coherent.mono fun p hp => (points_of_update (s := s) (by rfl) (by rfl) hp).resolve_right
        List.not_mem_nil) (by simp) (by simp [idle]) (by simp)
  case case3 i loading =>
    rw [swaps, List.filterMap_cons_none rfl, List.filterMap_nil, List.append_nil]
    exact h.setPhase (by simp [Phase.held]) (h.begun i (by simp [loading])) (by simp)
      (by simp [loading]) (by simp)
  case case6 i addr current loaded fresh =>
    rw [swaps, List.filterMap_cons_none rfl, List.filterMap_nil, List.append_nil]
    have hcoherent : (s.setCaller i ⟨.computed current ⟨addr, (act i current.val).1⟩,
        (act i current.val).2⟩).Coherent := by
      refine h.coherent.alloc ⟨addr, (act i current.val).1⟩ (fun p hp haddr => ?_) fun p hp => ?_
      · exact fresh ((congrArg s.Live haddr).mp (h.live hp))
      rcases points_of_update (s := s) (by rfl) (by rfl) hp with hp | hp
      · exact .inl hp
      · rcases List.mem_pair.mp hp with rfl | rfl
        · exact .inl (.inr ⟨i, by simp [loaded, Phase.held]⟩)
        · exact .inr rfl
    exact h.update rfl rfl subset_rfl (h.begun i (by simp [loaded])) hcoherent
      (by rintro _ _ ⟨⟩; rfl) (by simp [loaded]) (by simp)
  case case8 i current next computed holds => exact h.swap computed holds
  case case12 i current next computed lost =>
    rw [swaps, List.filterMap_cons_none rfl, List.filterMap_nil, List.append_nil]
    exact h.setPhase (by simp [Phase.held]) (h.begun i (by simp [computed])) (by simp)
      (by simp [computed]) (by simp)

/-- A caller past its swap is left alone. -/
theorem callers_of_swapped (hswapped : (s.callers i).phase = .swapped) {l : Label ι}
    (hstep : step act s l = some s') : s'.callers i = s.callers i := by
  have hother (j : ι) (c : Caller α β) (hj : (s.callers j).phase ≠ .swapped) :
      Function.update s.callers j c i = s.callers i := by
    have hne : i ≠ j := by
      rintro rfl
      exact hj hswapped
    rw [Function.update_of_ne hne]
  revert hstep
  fun_cases Rcu.step act s l <;> intro hstep <;>
    simp only [reduceCtorEq, Option.some.injEq] at hstep <;> subst hstep <;>
    exact hother _ _ (by simp [*])

/-- **A run is linear**: after it the cell holds what the updates make of the initial value one by
one, in the order of their swaps; each caller past its swap stands in that order once, and has
captured what its update yields there. -/
theorem linear_of_run {w : List (Label ι)} {t : State ι α β} (h : Linear act a order s)
    (hrun : run (Rcu.step act) s w = some t) : Linear act a (order ++ swaps w) t := by
  induction w generalizing order s with
  | nil =>
    obtain rfl := Option.some.inj hrun
    rwa [swaps, List.filterMap_nil, List.append_nil]
  | cons l w ih =>
    obtain ⟨s', hs', hrun⟩ := run_cons_eq_some.mp hrun
    have hrest := ih (h.step hs') hrun
    rwa [List.append_assoc, swaps, swaps, ← List.filterMap_append] at hrest

end Rcu
