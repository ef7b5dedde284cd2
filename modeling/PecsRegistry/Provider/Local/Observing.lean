import PecsRegistry.Provider.Local.Lag

/-!
# Provider/Local/Observing — what a stream that never lags sees of the store

Every operation on the registry broadcasts what it does, except `clear`: it empties the store and
tells nobody.  So what a stream has received since it was subscribed, replayed on the map of its
service at that time, is the stored map all along, if and only if every `clear` finds the service
without instances (`observes_iff`).
-/

namespace PecsRegistry

open Transition Writes

namespace Subscriber

variable {name : String} {r : ℕ} {s s' : Subscriber} {w : List SubscriberLabel}

/-- The stream has not fallen behind. -/
def InStep (r : ℕ) (s : Subscriber) : Prop := s.system.registry.InStep r

instance (r : ℕ) : DecidablePred (InStep r) := fun s =>
  inferInstanceAs (Decidable (s.system.registry.InStep r))

/-- A `clear` has nothing of the service to remove. -/
def ClearsNothing (name : String) (s : Subscriber) (l : SubscriberLabel) : Prop :=
  l = .update .clear → s.system.view name = fun _ => none

/-- **A broadcast reaches a stream in step**, so its subscriber keeps tracking. -/
theorem Tracks.update_inStep (h : Tracks name r s) {u : LocalUpdate} (hu : u ≠ .clear)
    (hstep : step r s (.update u) = some s') (hlag : InStep r s') : Tracks name r s' := by
  obtain rfl := Option.some.inj hstep
  obtain ⟨rx, hrx, rfl, htracks⟩ := h
  have hreceivers := s.system.receivers_update u
  have hview := s.system.view_update hu rx.service
  cases hannounced : s.system.announced u with
  | none =>
    simp only [hannounced] at hreceivers hview
    exact ⟨rx, by rw [hreceivers, hrx], rfl, htracks.trans hview.symm⟩
  | some event =>
    simp only [hannounced] at hreceivers hview
    have hrx' : (s.system.update u).registry.receivers[r]? = some (rx.send event) := by
      rw [hreceivers, List.getElem?_map, hrx]
      rfl
    have hmissed := hlag _ hrx'
    refine ⟨_, hrx', by rw [Receiver.send_of_missed_eq_zero hmissed], ?_⟩
    rw [Receiver.backlog_send hmissed, replay_append, htracks, hview, Option.toList_some,
      LocalSystem.writesTo_singleton]

/-- **A `clear` reaches no stream**, and empties the map of every service. -/
theorem Tracks.clear_iff (h : Tracks name r s) (hstep : step r s (.update .clear) = some s') :
    Tracks name r s' ↔ s.system.view name = fun _ => none := by
  obtain rfl := Option.some.inj hstep
  obtain ⟨rx, hrx, rfl, htracks⟩ := h
  have hempty : (s.system.update .clear).view rx.service = fun _ => none := by
    funext id
    simp [LocalSystem.view, LocalSystem.update, LocalRegistry.clear, LocalRegistry.view,
      InstanceStore.view, InstanceStore.empty, svcMap]
  rw [← htracks, ← hempty]
  exact tracks_iff hrx rfl

/-- **One step of a subscriber in step.** -/
theorem Tracks.step_iff (h : Tracks name r s) {l : SubscriberLabel} (hstep : step r s l = some s')
    (hlag : InStep r s') : Tracks name r s' ↔ ClearsNothing name s l := by
  cases l with
  | poll =>
    exact iff_of_true ((step_poll h.listens hstep).2.mpr h) fun hl => by cases hl
  | update u =>
    by_cases hu : u = .clear
    · obtain rfl := hu
      rw [h.clear_iff hstep, ClearsNothing, imp_iff_right rfl]
    · exact iff_of_true (h.update_inStep hu hstep hlag)
        fun hl => absurd (SubscriberLabel.update.inj hl) hu

/-- **What watchers see, exactly.**  For a stream that never lags, subscribed at any point: after
each operation, replaying the events it has received on the map of its service at subscription gives
the stored map, if and only if every `clear` since then has found the service without instances. -/
theorem observes_iff (hrx : s.system.registry.receivers[r]? = some ⟨name, [], 0⟩)
    (hcopy : s.copy = s.system.view name) (hlag : EachState (step r) (InStep r) s w) :
    EachState (step r) (Tracks name r) s w ↔ EachStep (step r) (ClearsNothing name) s w := by
  refine eachState_iff_eachStep (fun s l s' h hlag hstep => h.step_iff hstep (hlag s' hstep))
    (fun s l hnone hl => ?_) ⟨_, hrx, rfl, hcopy⟩ hlag.next
  cases (hl ▸ hnone : step r s (.update .clear) = none)

/-- An instance is added, delivered, and cleared away. -/
def addThenClear : List SubscriberLabel :=
  [.update (.addInstance (.simple "order-svc" "127.0.0.1" 8080)), .poll, .update .clear]

theorem inStep_addThenClear : EachState (step 0) (InStep 0) subscribed addThenClear := by
  decide +kernel

theorem observes_iff_addThenClear :
    EachState (step 0) (Tracks "order-svc" 0) subscribed addThenClear
      ↔ EachStep (step 0) (ClearsNothing "order-svc") subscribed addThenClear :=
  observes_iff rfl rfl inStep_addThenClear

/-- **A `clear` goes unseen**: the watcher goes on showing what it removed. -/
theorem clear_unseen : ¬ ∀ (name : String) (r : ℕ) (s : Subscriber) (w : List SubscriberLabel),
    s.system.registry.receivers[r]? = some ⟨name, [], 0⟩ → s.copy = s.system.view name →
    EachState (step r) (InStep r) s w → EachState (step r) (Tracks name r) s w := by
  intro h
  obtain ⟨s', hrun, hrx, hghost⟩ : ∃ s' ∈ run (step 0) subscribed addThenClear,
      s'.system.registry.receivers[0]? = some ⟨"order-svc", [], 0⟩
        ∧ s'.copy "order-svc-127.0.0.1-8080"
          ≠ s'.system.view "order-svc" "order-svc-127.0.0.1-8080" := by decide +kernel
  have htracks := (h "order-svc" 0 subscribed addThenClear rfl rfl inStep_addThenClear).last hrun
  exact hghost (congrFun ((tracks_iff hrx rfl).mp htracks) _)

end Subscriber

end PecsRegistry
