import PecsRegistry.Provider.Local.Updates

/-!
# Provider/Local/Lag — what a watch stream loses when it falls behind

A receiver that is full skips its oldest message at the next broadcast, of whatever service; the
stream learns of it as one error item, which its `filter_map` swallows.  A `Subscriber` replays what
its stream yields on the map of the service at subscription.  `settles_iff` says which broadcasts
leave it right: those that skip nothing it needs.
-/

namespace PecsRegistry

open Transition Writes

/-- The registry, and the map a subscriber has replayed so far. -/
structure Subscriber where
  system : LocalSystem
  copy : String → Option ServiceInstance

/-- An operation on the registry, or the stream is polled. -/
inductive SubscriberLabel
  | update (u : LocalUpdate)
  | poll
deriving DecidableEq

namespace Subscriber

variable {name : String} {r : ℕ} {s s' : Subscriber} {w : List SubscriberLabel}

/-- What the subscriber makes of an item of its stream. -/
def replayItem (copy : String → Option ServiceInstance) :
    Option ServiceEvent → String → Option ServiceInstance
  | some event => event.write.apply copy
  | none => copy

def step (r : ℕ) (s : Subscriber) : SubscriberLabel → Option Subscriber
  | .update u => some { s with system := s.system.update u }
  | .poll => (s.system.registry.poll r).map fun out =>
      ⟨{ s.system with registry := out.2 }, replayItem s.copy out.1⟩

/-- The stream has nothing to deliver, and no lag to report. -/
def Drained (r : ℕ) (s : Subscriber) : Prop :=
  ∃ svcName, s.system.registry.receivers[r]? = some ⟨svcName, [], 0⟩

/-- If the operations stop here, the subscriber ends with the stored map once its stream is
drained. -/
def Settles (name : String) (r : ℕ) (s : Subscriber) : Prop :=
  ∀ n s', run (step r) s (List.replicate n .poll) = some s' → s'.Drained r →
    s'.copy = s'.system.view name

/-- The messages that a broadcast leaves to a full receiver still write the id, or the message it
skips says what the subscriber already shows. -/
def Expendable (name : String) (copy : String → Option ServiceInstance) (skipped : ServiceEvent)
    (left : List ServiceEvent) : Prop :=
  skipped.concerns name → ∀ id, skipped.write.Touches id →
    (∃ event ∈ left, event.concerns name ∧ event.write.Touches id)
      ∨ skipped.write.effect id = some (copy id)

/-- **No loss that shows**: where the operation's broadcast finds the receiver full, the message it
makes it skip is expendable. -/
def Harmless (name : String) (r : ℕ) (s : Subscriber) : SubscriberLabel → Prop
  | .update u => ∀ event ∈ s.system.announced u, ∀ rx ∈ s.system.registry.receivers[r]?,
      channelCapacity ≤ rx.queue.length → ∀ skipped ∈ rx.queue.head?,
        Expendable name s.copy skipped (rx.queue.tail ++ [event])
  | .poll => True

/-! ## A stream that tracks its service -/

/-- The stream belongs to the service. -/
def Listens (name : String) (r : ℕ) (s : Subscriber) : Prop :=
  ∃ rx, s.system.registry.receivers[r]? = some rx ∧ rx.service = name

/-- Replaying what the stream has yet to deliver gives the stored map. -/
def Tracks (name : String) (r : ℕ) (s : Subscriber) : Prop :=
  ∃ rx, s.system.registry.receivers[r]? = some rx ∧ rx.service = name
    ∧ replay rx.backlog s.copy = s.system.view name

theorem Tracks.listens (h : Tracks name r s) : Listens name r s := by
  obtain ⟨rx, hrx, hservice, -⟩ := h
  exact ⟨rx, hrx, hservice⟩

theorem tracks_iff {rx : Receiver} (hrx : s.system.registry.receivers[r]? = some rx)
    (hservice : rx.service = name) :
    Tracks name r s ↔ replay rx.backlog s.copy = s.system.view name := by
  constructor
  · rintro ⟨rx', hrx', -, htracks⟩
    obtain rfl := Option.some.inj (hrx.symm.trans hrx')
    exact htracks
  · exact fun htracks => ⟨rx, hrx, hservice, htracks⟩

/-- **A poll neither loses nor gains**: the subscriber is handed what the stream gives up. -/
theorem step_poll (h : Listens name r s) (hstep : step r s .poll = some s') :
    Listens name r s' ∧ (Tracks name r s' ↔ Tracks name r s) := by
  obtain ⟨rx, hrx, hservice⟩ := h
  obtain ⟨⟨item, registry⟩, hpoll, rfl⟩ := Option.map_eq_some_iff.mp hstep
  have hlt : r < s.system.registry.receivers.length := (List.getElem?_eq_some_iff.mp hrx).1
  rw [tracks_iff hrx hservice]
  cases item with
  | some event =>
    obtain ⟨svcName, queue, hrx', hconcerns, rfl⟩ := LocalRegistry.poll_some hpoll
    obtain rfl := Option.some.inj (hrx.symm.trans hrx')
    have hset := List.getElem?_set_self (a := (⟨svcName, queue, 0⟩ : Receiver)) hlt
    have hname : Receiver.service ⟨svcName, queue, 0⟩ = name := hservice
    refine ⟨⟨_, hset, hname⟩, (tracks_iff hset hname).trans ?_⟩
    rw [show Receiver.backlog ⟨svcName, event :: queue, 0⟩
      = event.write :: Receiver.backlog ⟨svcName, queue, 0⟩ by
        simp [Receiver.backlog, Receiver.pending, hconcerns], replay_cons]
    rfl
  | none =>
    obtain ⟨rx', rx'', hrx', hbacklog, hservice', -, rfl⟩ := LocalRegistry.poll_none hpoll
    obtain rfl := Option.some.inj (hrx.symm.trans hrx')
    have hset := List.getElem?_set_self (a := rx'') hlt
    have hname := hservice'.trans hservice
    refine ⟨⟨_, hset, hname⟩, (tracks_iff hset hname).trans ?_⟩
    rw [hbacklog]
    rfl

theorem exists_drained_of_inStep {svcName : String} {queue : List ServiceEvent}
    (hrx : s.system.registry.receivers[r]? = some ⟨svcName, queue, 0⟩) :
    ∃ n s', run (step r) s (List.replicate n .poll) = some s' ∧ s'.Drained r := by
  induction queue generalizing s with
  | nil => exact ⟨0, s, rfl, svcName, hrx⟩
  | cons event queue ih =>
    obtain ⟨mid, hmid, hrx'⟩ : ∃ mid, step r s .poll = some mid
        ∧ mid.system.registry.receivers[r]? = some ⟨svcName, queue, 0⟩ := by
      refine ⟨_, congrArg (Option.map _) (LocalRegistry.poll_inStep hrx), ?_⟩
      exact List.getElem?_set_self (List.getElem?_eq_some_iff.mp hrx).1
    obtain ⟨n, s', hrun, hdrained⟩ := ih hrx'
    exact ⟨n + 1, s', run_cons_eq_some.mpr ⟨mid, hmid, hrun⟩, hdrained⟩

/-- A stream that is polled on is drained in the end. -/
theorem exists_drained (h : Listens name r s) :
    ∃ n s', run (step r) s (List.replicate n .poll) = some s' ∧ s'.Drained r := by
  obtain ⟨⟨svcName, queue, missed⟩, hrx, -⟩ := h
  cases missed with
  | zero => exact exists_drained_of_inStep hrx
  | succ m =>
    obtain ⟨mid, hmid, hrx'⟩ : ∃ mid, step r s .poll = some mid
        ∧ mid.system.registry.receivers[r]? = some ⟨svcName, queue, 0⟩ := by
      refine ⟨_, congrArg (Option.map _) (LocalRegistry.poll_lagging hrx), ?_⟩
      exact List.getElem?_set_self (List.getElem?_eq_some_iff.mp hrx).1
    obtain ⟨n, s', hrun, hdrained⟩ := exists_drained_of_inStep hrx'
    exact ⟨n + 1, s', run_cons_eq_some.mpr ⟨mid, hmid, hrun⟩, hdrained⟩

theorem run_polls (h : Listens name r s) {n : ℕ}
    (hrun : run (step r) s (List.replicate n .poll) = some s') :
    Listens name r s' ∧ (Tracks name r s' ↔ Tracks name r s) := by
  induction n generalizing s with
  | zero =>
    obtain rfl := Option.some.inj hrun
    exact ⟨h, Iff.rfl⟩
  | succ n ih =>
    obtain ⟨mid, hmid, hrest⟩ := run_cons_eq_some.mp hrun
    obtain ⟨hlistens, htracks⟩ := step_poll h hmid
    obtain ⟨hend, hiff⟩ := ih hlistens hrest
    exact ⟨hend, hiff.trans htracks⟩

theorem Drained.tracks_iff (hdrained : s.Drained r) (h : Listens name r s) :
    Tracks name r s ↔ s.copy = s.system.view name := by
  obtain ⟨svcName, hrx⟩ := hdrained
  obtain ⟨rx, hrx', hservice⟩ := h
  obtain rfl := Option.some.inj (hrx.symm.trans hrx')
  exact Subscriber.tracks_iff hrx hservice

/-- **A subscriber settles exactly if it tracks.** -/
theorem settles_iff_tracks (h : Listens name r s) : Settles name r s ↔ Tracks name r s := by
  constructor
  · intro hsettles
    obtain ⟨n, s', hrun, hdrained⟩ := exists_drained h
    obtain ⟨hend, hiff⟩ := run_polls h hrun
    exact hiff.mp ((hdrained.tracks_iff hend).mpr (hsettles n s' hrun hdrained))
  · intro htracks n s' hrun hdrained
    obtain ⟨hend, hiff⟩ := run_polls h hrun
    exact (hdrained.tracks_iff hend).mp (hiff.mpr htracks)

/-! ## What a broadcast does -/

/-- Leaving the oldest message out of a backlog changes nothing, exactly where it is expendable. -/
theorem replay_tail_iff {skipped : ServiceEvent} {left : List ServiceEvent}
    {copy : String → Option ServiceInstance} :
    replay (LocalSystem.writesTo name left) copy
        = replay (LocalSystem.writesTo name (skipped :: left)) copy
      ↔ Expendable name copy skipped left := by
  by_cases hconcerns : skipped.concerns name
  · have hcons : LocalSystem.writesTo name (skipped :: left)
        = skipped.write :: LocalSystem.writesTo name left := by
      simp [LocalSystem.writesTo, hconcerns]
    rw [hcons, replay_cons, funext_iff, Expendable, imp_iff_right hconcerns]
    refine forall_congr' fun id => replay_eq_replay_apply_iff.trans ?_
    simp [LocalSystem.writesTo, and_assoc]
  · have hcons : LocalSystem.writesTo name (skipped :: left) = LocalSystem.writesTo name left := by
      simp [LocalSystem.writesTo, hconcerns]
    rw [hcons]
    exact iff_of_true rfl fun h => absurd h hconcerns

/-- **An operation keeps a subscriber tracking, exactly if it is harmless.** -/
theorem Tracks.update_iff (h : Tracks name r s) {u : LocalUpdate} (hu : u ≠ .clear)
    (hstep : step r s (.update u) = some s') :
    Tracks name r s' ↔ Harmless name r s (.update u) := by
  obtain rfl := Option.some.inj hstep
  obtain ⟨⟨svcName, queue, missed⟩, hrx, rfl, htracks⟩ := h
  have hreceivers := s.system.receivers_update u
  have hview := s.system.view_update hu svcName
  cases hannounced : s.system.announced u with
  | none =>
    simp only [hannounced] at hreceivers hview
    have hrx' := hrx
    rw [← hreceivers] at hrx'
    refine iff_of_true ⟨_, hrx', rfl, htracks.trans hview.symm⟩ ?_
    simp [Harmless, hannounced]
  | some event =>
    simp only [hannounced] at hreceivers hview
    have hrx' : (s.system.update u).registry.receivers[r]?
        = some (Receiver.send event ⟨svcName, queue, missed⟩) := by
      rw [hreceivers, List.getElem?_map, hrx]
      rfl
    have hwhole : (s.system.update u).view svcName
        = replay (LocalSystem.writesTo svcName (queue ++ [event])) s.copy := by
      rw [hview, LocalSystem.writesTo_append, replay_append]
      exact congrArg _ htracks.symm
    by_cases hroom : queue.length < channelCapacity
    · rw [Receiver.send, if_pos hroom] at hrx'
      refine iff_of_true ⟨_, hrx', rfl, hwhole.symm⟩ ?_
      simp [Harmless, hannounced, hrx, hroom.not_ge]
    · rw [Receiver.send, if_neg hroom] at hrx'
      cases queue with
      | nil => exact absurd (by decide) hroom
      | cons skipped queue =>
        have hskip : (s.system.update u).registry.receivers[r]?
          = some ⟨svcName, queue ++ [event], missed + 1⟩ := hrx'
        refine (tracks_iff hskip (by rfl)).trans ?_
        change replay (LocalSystem.writesTo svcName (queue ++ [event])) s.copy
          = (s.system.update u).view svcName ↔ _
        have hfull : channelCapacity ≤ queue.length + 1 := not_lt.mp hroom
        rw [hwhole, List.cons_append, replay_tail_iff]
        simp [Harmless, hannounced, hrx, hfull]

/-- A step keeps a subscriber tracking, exactly if it is harmless. -/
theorem Tracks.step_iff_harmless (h : Tracks name r s) {l : SubscriberLabel}
    (hl : l ≠ .update .clear) (hstep : step r s l = some s') :
    Tracks name r s' ↔ Harmless name r s l := by
  cases l with
  | poll => exact iff_of_true ((step_poll h.listens hstep).2.mpr h) trivial
  | update u => exact h.update_iff (fun hu => hl (congrArg _ hu)) hstep

/-! ## Runs -/

theorem listens_step (h : Listens name r s) {l : SubscriberLabel} (hstep : step r s l = some s') :
    Listens name r s' := by
  cases l with
  | poll => exact (step_poll h hstep).1
  | update u =>
    obtain rfl := Option.some.inj hstep
    obtain ⟨rx, hrx, hservice⟩ := h
    have hreceivers := s.system.receivers_update u
    cases hannounced : s.system.announced u with
    | none =>
      simp only [hannounced] at hreceivers
      exact ⟨rx, by rw [hreceivers, hrx], hservice⟩
    | some event =>
      simp only [hannounced] at hreceivers
      refine ⟨rx.send event, by rw [hreceivers, List.getElem?_map, hrx]; rfl, ?_⟩
      rw [Receiver.send]
      split_ifs <;> exact hservice

/-- **What a stream loses, exactly.**  From the subscription on, wherever the operations stop the
drained stream has brought its subscriber to the stored map, if and only if every message that a
broadcast makes the receiver skip is expendable. -/
theorem settles_iff (hrx : s.system.registry.receivers[r]? = some ⟨name, [], 0⟩)
    (hcopy : s.copy = s.system.view name) (hclear : .update .clear ∉ w) :
    EachState (step r) (Settles name r) s w ↔ EachStep (step r) (Harmless name r) s w := by
  have hlistens : Listens name r s := ⟨_, hrx, rfl⟩
  have htracks : Tracks name r s := ⟨_, hrx, rfl, hcopy⟩
  have hsteps : EachStep (step r) (fun _ l => l ≠ .update .clear) s w :=
    eachStep_of_forall_mem fun l hl hc => hclear (hc ▸ hl)
  have hlisten : EachState (step r) (Listens name r) s w :=
    eachState_of_invariant (C := fun _ _ => True) (fun _ _ _ h _ => listens_step h) hlistens
      (eachStep_of_forall_mem fun _ _ => trivial)
  have htracking : EachState (step r) (Tracks name r) s w
      ↔ EachStep (step r) (Harmless name r) s w :=
    eachState_iff_eachStep (fun _ _ _ h hl => h.step_iff_harmless hl) (fun s l hnone => by
      cases l with
      | poll => trivial
      | update u => cases hnone) htracks hsteps
  rw [← htracking]
  constructor
  · exact fun h => (hlisten.and h).imp fun s h => (settles_iff_tracks h.1).mp h.2
  · exact fun h => h.imp fun s h => (settles_iff_tracks h.listens).mpr h

/-- A fresh registry, and a subscriber to its order service. -/
def subscribed : Subscriber where
  system := { LocalSystem.new with registry := ⟨.empty, [⟨"order-svc", [], 0⟩]⟩ }
  copy := fun _ => none

/-- One order service comes up, and a pay service is registered over and over, while the stream is
not polled; then the stream is polled until it is drained. -/
def burst (n : ℕ) : List SubscriberLabel :=
  .update (.addInstance (.simple "order-svc" "127.0.0.1" 8080))
    :: List.replicate n (.update (.addInstance (.simple "pay-svc" "127.0.0.1" 8081)))
    ++ List.replicate (n + 1) .poll

theorem burst_clear (n : ℕ) : .update .clear ∉ burst n := by simp [burst]

/-- A pay service is registered over and over; then the order service comes up, and the stream is
polled. -/
def flood (n : ℕ) : List SubscriberLabel :=
  List.replicate n (.update (.addInstance (.simple "pay-svc" "127.0.0.1" 8081)))
    ++ .update (.addInstance (.simple "order-svc" "127.0.0.1" 8080)) :: List.replicate n .poll

/-- What a broadcast makes a full receiver skip is of another service. -/
def SkipsOthers (name : String) (r : ℕ) (s : Subscriber) : SubscriberLabel → Prop
  | .update u => ∀ event ∈ s.system.announced u, ∀ rx ∈ s.system.registry.receivers[r]?,
      channelCapacity ≤ rx.queue.length → ∀ skipped ∈ rx.queue.head?, skipped.concerns name = false
  | .poll => True

instance (s : Subscriber) : ∀ l, Decidable (SkipsOthers name r s l)
  | .update u => inferInstanceAs (Decidable (∀ event ∈ s.system.announced u,
      ∀ rx ∈ s.system.registry.receivers[r]?, channelCapacity ≤ rx.queue.length →
        ∀ skipped ∈ rx.queue.head?, skipped.concerns name = false))
  | .poll => inferInstanceAs (Decidable True)

theorem SkipsOthers.harmless {l : SubscriberLabel} (h : SkipsOthers name r s l) :
    Harmless name r s l := by
  cases l with
  | poll => trivial
  | update u =>
    intro event hevent rx hrx hfull skipped hskipped hconcerns
    rw [h event hevent rx hrx hfull skipped hskipped] at hconcerns
    cases hconcerns

theorem flood_clear (n : ℕ) : .update .clear ∉ flood n := by simp [flood]

/-- `settles_iff` for a receiver that is overrun. -/
theorem settles_iff_flood :
    EachState (step 0) (Settles "order-svc" 0) subscribed (flood 129) := by
  have hskips : EachStep (step 0) (SkipsOthers "order-svc" 0) subscribed (flood 129) := by
    decide +kernel
  exact (settles_iff rfl rfl (flood_clear 129)).mpr (hskips.imp fun _ _ => SkipsOthers.harmless)

/-- **A silent loss.**  A burst of a pay service makes the stream of the order service lose its only
event. -/
theorem burst_loses : ¬ ∀ (name : String) (r : ℕ) (s s' : Subscriber) (w : List SubscriberLabel),
    s.system.registry.receivers[r]? = some ⟨name, [], 0⟩ → s.copy = s.system.view name →
    .update .clear ∉ w → run (step r) s w = some s' → s'.Drained r →
    s'.copy = s'.system.view name := by
  intro h
  obtain ⟨s', hrun, hdrained, hlost⟩ : ∃ s' ∈ run (step 0) subscribed (burst 128),
      s'.system.registry.receivers[0]? = some ⟨"order-svc", [], 0⟩
        ∧ s'.copy "order-svc-127.0.0.1-8080"
          ≠ s'.system.view "order-svc" "order-svc-127.0.0.1-8080" := by decide +kernel
  exact hlost (congrFun (h "order-svc" 0 subscribed s' (burst 128) rfl rfl (burst_clear 128) hrun
    ⟨_, hdrained⟩) _)

end Subscriber

end PecsRegistry
