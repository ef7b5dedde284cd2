import PecsRegistry.Machinery.Follower

/-!
# Machinery/Bypass — a follower whose copy is also written past the feed

A value is put under a key three times: into the origin (`store`), into the backlog of the feed
(`send`), and straight into the copy (`bypass`).  Nothing keeps the three together, so the key may
be dropped in between, and the value comes back: it is a `Ghost` if the drained copy is going to
show it while the origin does not hold it.

Exactly two things raise a ghost, a send and a bypass that find the origin without the value, the
second only if the backlog is silent on the key; and what lays it is a store, a drop, or a listing
applied with a silent backlog.
-/

namespace Writes.Follower

open Transition

variable {κ ν : Type*} [DecidableEq κ] {f f' : Follower κ ν} {k : κ} {v : ν}

/-- The origin is written, and the feed is not told yet. -/
def store (f : Follower κ ν) (w : Write κ ν) : Follower κ ν := { f with origin := w.apply f.origin }

/-- The feed is told. -/
def send (f : Follower κ ν) (w : Write κ ν) : Follower κ ν := { f with backlog := f.backlog ++ [w] }

/-- The copy is written directly. -/
def bypass (f : Follower κ ν) (w : Write κ ν) : Follower κ ν := { f with copy := w.apply f.copy }

/-- The backlog has nothing to say on the key. -/
def Silent (k : κ) (f : Follower κ ν) : Prop := ∀ w ∈ f.backlog, ¬ w.Touches k

/-- Once drained, the copy shows the value, which the origin does not hold. -/
def Ghost (k : κ) (v : ν) (f : Follower κ ν) : Prop :=
  replay f.backlog f.copy k = some v ∧ f.origin k ≠ some v

/-- Conversely, the copy is going to show a value that the origin holds, unless a send is owed; and
a listing at hand can be applied without harm. -/
structure Backed (k : κ) (v : ν) (owed : Prop) (f : Follower κ ν) : Prop where
  held : f.origin k = some v → owed ∨ replay f.backlog f.copy k = some v
  listed : ∀ m ∈ f.listing, Silent k f →
    (m k = some v → f.origin k = some v) ∧ (f.origin k = some v → owed ∨ m k = some v)

/-- **A drained copy shows the value exactly if the origin holds it**, or it is a ghost. -/
theorem Backed.agree_iff (h : Backed k v False f) (hdrained : f.backlog = []) :
    (f.copy k = some v ↔ f.origin k = some v) ↔ ¬ Ghost k v f := by
  have hheld := h.held
  rw [hdrained, false_or] at hheld
  rw [Ghost, hdrained, replay_nil]
  tauto

theorem Backed.imp {owed owed' : Prop} (h : Backed k v owed f) (howed : owed → owed') :
    Backed k v owed' f where
  held ho := (h.held ho).imp_left howed
  listed m hm hs := ⟨(h.listed m hm hs).1, fun ho => ((h.listed m hm hs).2 ho).imp_left howed⟩

theorem touches_put : (Write.put k v).Touches k := by simp [Write.Touches, Write.effect]

theorem touches_drop : (Write.drop k : Write κ ν).Touches k := by
  simp [Write.Touches, Write.effect]

theorem not_silent_snoc {w : Write κ ν} {ws : List (Write κ ν)} (hw : w.Touches k)
    (h : f.backlog = ws ++ [w]) : ¬ Silent k f := fun hs => hs w (h ▸ by simp) hw

/-! ## The three writes -/

theorem not_ghost_store : ¬ Ghost k v (f.store (.put k v)) := by
  simp [Ghost, store, Write.apply_put]

/-- A store is backed by the send it owes. -/
theorem backed_store {owed : Prop} (h : owed) : Backed k v owed (f.store (.put k v)) where
  held _ := .inl h
  listed _ _ _ := ⟨fun _ => by simp [store, Write.apply_put], fun _ => .inl h⟩

theorem ghost_send : Ghost k v (f.send (.put k v)) ↔ f.origin k ≠ some v := by
  simp [Ghost, send, replay_snoc, Write.apply_put]

theorem backed_send (owed : Prop) : Backed k v owed (f.send (.put k v)) where
  held _ := .inr (by simp [send, replay_snoc, Write.apply_put])
  listed _ _ hs := (not_silent_snoc touches_put rfl hs).elim

theorem replay_bypass : replay f.backlog (f.bypass (.put k v)).copy k = some v
    ↔ Silent k f ∨ replay f.backlog f.copy k = some v := by
  by_cases hs : Silent k f
  · rw [replay_of_untouched hs]
    simp [hs, bypass, Write.apply_put]
  · have htouched : ∃ w ∈ f.backlog, w.Touches k := by simpa [Silent] using hs
    rw [replay_of_touched htouched _ f.copy]
    simp [hs]

theorem ghost_bypass : Ghost k v (f.bypass (.put k v))
    ↔ (f.origin k ≠ some v ∧ Silent k f) ∨ Ghost k v f := by
  have hreplay : replay (f.bypass (.put k v)).backlog (f.bypass (.put k v)).copy k = some v
      ↔ _ := replay_bypass
  rw [Ghost, hreplay, Ghost]
  change _ ∧ f.origin k ≠ some v ↔ _
  tauto

theorem Backed.bypass {owed : Prop} (h : Backed k v owed f) :
    Backed k v owed (f.bypass (.put k v)) where
  held ho := (h.held ho).imp_right fun hr => replay_bypass.mpr (.inr hr)
  listed := h.listed

/-! ## The steps of the follower -/

/-- A drop lays a ghost. -/
theorem not_ghost_drop (hstep : f.step (.update (.drop k)) = some f') : ¬ Ghost k v f' := by
  obtain rfl := Option.some.inj hstep
  simp [Ghost, replay_snoc, Write.apply_drop]

theorem backed_drop (owed : Prop) (hstep : f.step (.update (.drop k)) = some f') :
    Backed k v owed f' := by
  obtain rfl := Option.some.inj hstep
  refine ⟨fun ho => ?_, fun _ _ hs => (not_silent_snoc touches_drop rfl hs).elim⟩
  simp [Write.apply_drop] at ho

/-- A step of the watcher: a delivery, a listing, or the application of one. -/
def Watches (l : FollowerLabel κ ν) : Prop := ∀ w, l ≠ .update w

/-- **A ghost outlives everything the watcher does** but a listing applied with a silent backlog. -/
theorem ghost_step {owed : Prop} (h : Backed k v owed f) {l : FollowerLabel κ ν} (hl : Watches l)
    (hstep : f.step l = some f') : Ghost k v f' ↔ Ghost k v f ∧ ¬ (l = .reset ∧ Silent k f) := by
  cases move_of_step hstep with
  | update w => exact absurd rfl (hl w)
  | deliver head unlisted => simp [Ghost, head]
  | list => simp [Ghost]
  | @reset m listed =>
    by_cases hs : Silent k f
    · have hm := (h.listed m listed hs).1
      simp only [Ghost, replay_of_untouched hs, hs, and_true, not_true, and_false, iff_false]
      exact fun hg => hg.2 (hm hg.1)
    · have htouched : ∃ w ∈ f.backlog, w.Touches k := by simpa [Silent] using hs
      simp [Ghost, hs, replay_of_touched htouched m f.copy]

theorem Backed.step {owed : Prop} (h : Backed k v owed f) {l : FollowerLabel κ ν} (hl : Watches l)
    (hstep : f.step l = some f') : Backed k v owed f' := by
  cases move_of_step hstep with
  | update w => exact absurd rfl (hl w)
  | deliver head unlisted =>
    refine ⟨fun ho => (h.held ho).imp_right fun hr => by simpa [head] using hr, fun m hm => ?_⟩
    simp [unlisted] at hm
  | list =>
    refine ⟨h.held, fun m hm _ => ?_⟩
    obtain rfl := Option.some.inj hm
    exact ⟨id, .inr⟩
  | @reset m listed =>
    refine ⟨fun ho => ?_, fun m hm => by simp at hm⟩
    by_cases hs : Silent k f
    · exact ((h.listed m listed hs).2 ho).imp_right fun hm => (replay_of_untouched hs m).trans hm
    · have htouched : ∃ w ∈ f.backlog, w.Touches k := by simpa [Silent] using hs
      exact (h.held ho).imp_right fun hr => (replay_of_touched htouched m f.copy).trans hr

end Writes.Follower
