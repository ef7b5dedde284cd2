import PecsRegistry.Machinery.Transition
import PecsRegistry.Machinery.Writes

/-!
# Machinery/Follower — a copy kept by a feed of writes and by occasional listings

A follower keeps a copy of an origin that others write to.  While its feed is open every write of
the origin joins the backlog of the feed, in order; the follower delivers the backlog to its copy,
write by write, and now and then lists the origin and, before it delivers anything else, replaces
its copy by the listing.

The origin may be written between a listing and its application, and the backlog may hold writes
older than the listing: neither does harm.  `agree_iff` says what a drained follower has: a key of
the copy is right if and only if it was right when the feed was opened, or has been written or reset
since.
-/

namespace Writes

open Transition

variable {κ ν : Type*} [DecidableEq κ]

/-- The state of a follower with an open feed. -/
structure Follower (κ ν : Type*) where
  origin : κ → Option ν
  copy : κ → Option ν
  backlog : List (Write κ ν)
  listing : Option (κ → Option ν)

/-- The origin is written, the feed delivers, the origin is listed, the listing is applied. -/
inductive FollowerLabel (κ ν : Type*)
  | update (w : Write κ ν)
  | deliver
  | list
  | reset

namespace Follower

variable {f f' : Follower κ ν} {k : κ}

def step (f : Follower κ ν) : FollowerLabel κ ν → Option (Follower κ ν)
  | .update w => some { f with origin := w.apply f.origin, backlog := f.backlog ++ [w] }
  | .deliver =>
      match f.backlog, f.listing with
      | w :: rest, none => some { f with copy := w.apply f.copy, backlog := rest }
      | _, _ => none
  | .list => some { f with listing := some f.origin }
  | .reset => f.listing.map fun m => { f with copy := m, listing := none }

/-- The moves of a follower. -/
inductive Move (f : Follower κ ν) : FollowerLabel κ ν → Follower κ ν → Prop
  | update (w : Write κ ν) :
      Move f (.update w) { f with origin := w.apply f.origin, backlog := f.backlog ++ [w] }
  | deliver {w : Write κ ν} {rest : List (Write κ ν)} (head : f.backlog = w :: rest)
      (unlisted : f.listing = none) :
      Move f .deliver { f with copy := w.apply f.copy, backlog := rest }
  | list : Move f .list { f with listing := some f.origin }
  | reset {m : κ → Option ν} (listed : f.listing = some m) :
      Move f .reset { f with copy := m, listing := none }

theorem move_of_step {l : FollowerLabel κ ν} (h : f.step l = some f') : Move f l f' := by
  cases l with
  | update w =>
    obtain rfl := Option.some.inj h
    exact .update w
  | deliver =>
    rw [step] at h
    split at h
    · obtain rfl := Option.some.inj h
      exact .deliver ‹_› ‹_›
    · exact absurd h (by simp)
  | list =>
    obtain rfl := Option.some.inj h
    exact .list
  | reset =>
    obtain ⟨m, hm, rfl⟩ := Option.map_eq_some_iff.mp h
    exact .reset hm

/-! ## Invariants -/

/-- At key `k`, the backlog is old news to the origin, and a listing still to be applied will be
caught up. -/
structure Sound (k : κ) (f : Follower κ ν) : Prop where
  absorbed : Absorbed f.backlog f.origin k
  listed : ∀ m ∈ f.listing, CaughtUp f.backlog m f.origin k

/-- A feed is opened empty. -/
theorem sound_of_opened (hbacklog : f.backlog = []) (hlisting : f.listing = none) : Sound k f :=
  ⟨by rw [hbacklog]; rfl, fun m hm => by simp [hlisting] at hm⟩

theorem Sound.step (h : Sound k f) {l : FollowerLabel κ ν} (hstep : f.step l = some f') :
    Sound k f' := by
  cases move_of_step hstep with
  | update w => exact ⟨h.absorbed.snoc w, fun m hm => (h.listed m hm).snoc w⟩
  | deliver head unlisted =>
    exact ⟨(head ▸ h.absorbed).tail, fun m hm => by simp [unlisted] at hm⟩
  | list =>
    refine ⟨h.absorbed, fun m hm => ?_⟩
    obtain rfl := Option.some.inj hm
    exact h.absorbed.caughtUp
  | reset listed => exact ⟨h.absorbed, fun m hm => by simp at hm⟩

/-- At key `k`, the copy needs nothing but the backlog. -/
def Synced (k : κ) (f : Follower κ ν) : Prop := CaughtUp f.backlog f.copy f.origin k

theorem Synced.step (h : Synced k f) (hf : Sound k f) {l : FollowerLabel κ ν}
    (hstep : f.step l = some f') : Synced k f' := by
  cases move_of_step hstep with
  | update w => exact h.snoc w
  | deliver head unlisted => exact (show CaughtUp (_ :: _) _ _ _ from head ▸ h).tail
  | list => exact h
  | reset listed => exact hf.listed _ listed

/-- The label brings key `k` up to date, sooner or later. -/
def Renews (k : κ) : FollowerLabel κ ν → Prop
  | .update w => w.Touches k
  | .reset => True
  | _ => False

theorem synced_of_renews (hf : Sound k f) {l : FollowerLabel κ ν} (hl : Renews k l)
    (hstep : f.step l = some f') : Synced k f' := by
  cases move_of_step hstep with
  | update w => exact caughtUp_snoc_of_touches hl
  | deliver => exact hl.elim
  | list => exact hl.elim
  | reset listed => exact hf.listed _ listed

/-- At key `k` nothing has happened since the feed was opened on `f₀`. -/
structure Untouched (k : κ) (f₀ f : Follower κ ν) : Prop where
  origin : f.origin k = f₀.origin k
  copy : f.copy k = f₀.copy k
  backlog : ∀ w ∈ f.backlog, ¬ w.Touches k

theorem Untouched.step {f₀ : Follower κ ν} (h : Untouched k f₀ f) {l : FollowerLabel κ ν}
    (hl : ¬ Renews k l) (hstep : f.step l = some f') : Untouched k f₀ f' := by
  cases move_of_step hstep with
  | update w =>
    refine ⟨(Write.apply_of_not_touches hl _).trans h.origin, h.copy, fun w' hw' => ?_⟩
    rcases List.mem_append.mp hw' with hw' | hw'
    · exact h.backlog w' hw'
    · exact List.mem_singleton.mp hw' ▸ hl
  | @deliver w rest head unlisted =>
    have hb := h.backlog
    rw [head] at hb
    exact ⟨h.origin, (Write.apply_of_not_touches (hb w List.mem_cons_self) _).trans h.copy,
      fun w' hw' => hb w' (List.mem_cons_of_mem w hw')⟩
  | list => exact ⟨h.origin, h.copy, h.backlog⟩
  | reset => exact absurd trivial hl

/-! ## Runs -/

/-- A burst of writes. -/
theorem run_updates (f : Follower κ ν) (ws : List (Write κ ν)) :
    run step f (ws.map .update)
      = some { f with origin := replay ws f.origin, backlog := f.backlog ++ ws } := by
  induction ws generalizing f with
  | nil => simp
  | cons w ws ih =>
    rw [List.map_cons, run_cons_eq_some]
    refine ⟨_, rfl, ?_⟩
    rw [ih, replay_cons, List.append_assoc, List.singleton_append]

theorem sound_run (h : Sound k f) {w : List (FollowerLabel κ ν)} (hw : run step f w = some f') :
    Sound k f' :=
  preserved_run (fun _ _ _ hf hstep => hf.step hstep) h hw

theorem synced_run (h : Synced k f) (hf : Sound k f) {w : List (FollowerLabel κ ν)}
    (hw : run step f w = some f') : Synced k f' := by
  have hstep : ∀ (g : Follower κ ν) l g', Sound k g ∧ Synced k g → step g l = some g' →
      Sound k g' ∧ Synced k g' :=
    fun _ _ _ hg hstep => ⟨hg.1.step hstep, hg.2.step hg.1 hstep⟩
  exact (preserved_run hstep ⟨hf, h⟩ hw).2

/-- A word that renews a key leaves it synced. -/
theorem synced_of_run (hf : Sound k f) {w : List (FollowerLabel κ ν)} (hl : ∃ l ∈ w, Renews k l)
    (hw : run step f w = some f') : Synced k f' := by
  obtain ⟨l, hmem, hl⟩ := hl
  obtain ⟨u, v, rfl⟩ := List.append_of_mem hmem
  obtain ⟨g, hu, hv⟩ := run_append_eq_some.mp hw
  obtain ⟨g', hstep, hv⟩ := run_cons_eq_some.mp hv
  have hg := sound_run hf hu
  exact synced_run (synced_of_renews hg hl hstep) (hg.step hstep) hv

/-- A word that renews it nowhere leaves it untouched. -/
theorem untouched_of_run (hbacklog : f.backlog = []) {w : List (FollowerLabel κ ν)}
    (hl : ¬ ∃ l ∈ w, Renews k l) (hw : run step f w = some f') : Untouched k f f' :=
  invariant_run (fun _ _ _ hf hC hstep => hf.step hC hstep)
    ⟨rfl, rfl, fun w hw => by simp [hbacklog] at hw⟩
    (eachStep_of_forall_mem fun l hmem hr => hl ⟨l, hmem, hr⟩) hw

/-- **What a drained follower has.**  A key is right if and only if it was right when the feed was
opened, or the origin has written it since, or a listing has been applied since. -/
theorem agree_iff (hbacklog : f.backlog = []) (hlisting : f.listing = none)
    {w : List (FollowerLabel κ ν)} (hw : run step f w = some f') (hdrained : f'.backlog = [])
    (k : κ) : f'.copy k = f'.origin k ↔ f.copy k = f.origin k ∨ ∃ l ∈ w, Renews k l := by
  have hf : Sound k f := sound_of_opened hbacklog hlisting
  have hagree : Synced k f' → f'.copy k = f'.origin k := fun h => by
    rw [Synced, hdrained] at h
    exact h
  by_cases hl : ∃ l ∈ w, Renews k l
  · exact ⟨fun _ => .inr hl, fun _ => hagree (synced_of_run hf hl hw)⟩
  · have huntouched := untouched_of_run hbacklog hl hw
    rw [huntouched.origin, huntouched.copy]
    exact ⟨.inl, fun h => h.resolve_right hl⟩

end Follower

end Writes
