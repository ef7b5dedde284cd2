import PecsRegistry.Directory.CancelSafety
import PecsRegistry.Machinery.Channel
import PecsRegistry.Provider.Etcd.WatchEvents

/-!
# Provider/Etcd/Forwarding — the tasks that forward etcd events

`EtcdRegistry::watch` spawns a task that reads responses off an etcd stream and sends their events
into the channel behind the `EventStream` it returns.  A watch task of the directory owns the
receiver until it is cancelled or reconnects; from then on every send fails, and the forwarding task
ignores it.  So it ends with the etcd stream only: a released watch is cleaned up if and only if
etcd has nothing more to say on it (`released_iff`).
-/

namespace PecsRegistry

open Transition

/-- The capacity of the channel behind an `EventStream`. -/
def watchCapacity : ℕ := 64

/-! ## State -/

/-- Where a forwarding task stands: it waits for a response, forwards the events of one, or has
ended and dropped its sender. -/
inductive ForwarderState
  | reading
  | forwarding (event : EtcdEvent) (rest : List EtcdEvent)
  | stopped
deriving DecidableEq

/-- With the rest of a response still to be forwarded. -/
def ForwarderState.handling : List EtcdEvent → ForwarderState
  | [] => .reading
  | event :: rest => .forwarding event rest

/-- A forwarding task, and the channel it sends into. -/
structure Forwarder where
  service : String
  state : ForwarderState
  channel : Channel ServiceEvent
deriving DecidableEq

/-- An etcd registry as far as its watches go; an event stream is the position of its task. -/
structure EtcdWatches where
  config : RegistryConfig
  forwarders : List Forwarder

/-- What a forwarding task does next: `stream.message()` answers with a response, the end of the
stream or an error, or the next event is forwarded. -/
inductive ForwarderLabel
  | message (events : List EtcdEvent)
  | closed
  | failed
  | forward
deriving DecidableEq

/-! ## Steps -/

/-- The event that the task is about to send, if it is at one that decodes. -/
def Forwarder.offer (config : RegistryConfig) (fw : Forwarder) : Option ServiceEvent :=
  match fw.state with
  | .forwarding event _ => config.watchEvent fw.service event
  | _ => none

/-- A step of a forwarding task.  `tx.send` waits for room as long as the receiver is `owned`; else
it fails at once, and `let _ =` drops the failure. -/
def Forwarder.step (config : RegistryConfig) (owned : Bool) (fw : Forwarder) :
    ForwarderState → ForwarderLabel → Option Forwarder
  | .reading, .message events => some { fw with state := .handling events }
  | .reading, .closed | .reading, .failed => some { fw with state := .stopped }
  | .forwarding _ rest, .forward =>
      match fw.offer config with
      | none => some { fw with state := .handling rest }
      | some event =>
          if !owned then some { fw with state := .handling rest }
          else if fw.channel.HasRoom watchCapacity then
            some { fw with state := .handling rest, channel := fw.channel.push event }
          else none
  | _, _ => none

/-- An event that cannot be sent is dropped: the task goes on to what comes next. -/
theorem Forwarder.step_dropped {config : RegistryConfig} {fw : Forwarder}
    (h : (fw.offer config).isSome) : ∃ rest,
      fw.step config false fw.state .forward = some { fw with state := .handling rest } := by
  obtain ⟨event, hevent⟩ := Option.isSome_iff_exists.mp h
  cases hstate : fw.state with
  | forwarding etcdEvent rest =>
    refine ⟨rest, ?_⟩
    rw [Forwarder.step, hevent]
    rfl
  | _ => simp [Forwarder.offer, hstate] at h

namespace EtcdWatches

/-- The answers of `list_instances`, of `watch`, and of an event stream, which ends when its task
has ended and its channel is empty. -/
def answer (reg : EtcdWatches) : Query → Option EtcdWatches
  | .list _ (.ok []) => some reg
  | .list _ _ | .watch _ (.error _) => if reg.config.active then some reg else none
  | .watch name (.ok stream) =>
      if stream = reg.forwarders.length then
        some { reg with forwarders := reg.forwarders
          ++ [⟨name, if reg.config.active then .reading else .stopped, .empty⟩] }
      else none
  | .next stream (some event) =>
      (reg.forwarders[stream]?).bind fun fw =>
        if fw.channel.queue.head? = some event then
          fw.channel.receive.map fun channel =>
            { reg with forwarders := reg.forwarders.set stream { fw with channel } }
        else none
  | .next stream none =>
      if ∃ fw ∈ reg.forwarders[stream]?, fw.state = .stopped ∧ fw.channel.queue = [] then some reg
      else none

def provider : Provider EtcdWatches Empty := ⟨fun _ op => op.elim, answer⟩

/-- The tasks that have not ended. -/
def running (reg : EtcdWatches) : Finset ℕ :=
  (Finset.range reg.forwarders.length).filter
    fun f => ∃ fw ∈ reg.forwarders[f]?, fw.state ≠ .stopped

end EtcdWatches

/-- A watch task owns the receiver of the stream. -/
def ServiceDirectory.Owns (d : ServiceDirectory) (stream : ℕ) : Prop :=
  ∃ k < d.nextTask, ∃ t ∈ d.tasks k, t.stream = some stream

instance (d : ServiceDirectory) : DecidablePred d.Owns := fun stream =>
  inferInstanceAs (Decidable (∃ k < d.nextTask, ∃ t ∈ d.tasks k, t.stream = some stream))

namespace EtcdWatches

/-- One step: of the directory, with the registry's answer, or of a forwarding task. -/
def step (s : Deployment EtcdWatches) :
    DirectoryLabel ⊕ ℕ × ForwarderLabel → Option (Deployment EtcdWatches)
  | .inl l => provider.step s (.inl l)
  | .inr (f, l) =>
      (s.registry.forwarders[f]?).bind fun fw =>
        (fw.step s.registry.config (s.directory.Owns f) fw.state l).map fun fw' =>
          { s with registry.forwarders := s.registry.forwarders.set f fw' }

/-- The receivers that have not been dropped. -/
def receivers (s : Deployment EtcdWatches) : Finset ℕ :=
  (Finset.range s.registry.forwarders.length).filter s.directory.Owns

/-- The task tries to forward an event. -/
def Tries (f : ℕ) (s : Deployment EtcdWatches) (l : DirectoryLabel ⊕ ℕ × ForwarderLabel) : Prop :=
  l = .inr (f, .forward) ∧ ∃ fw ∈ s.registry.forwarders[f]?, (fw.offer s.registry.config).isSome

/-- A task that tries to forward an event to a receiver that was dropped has ended with it. -/
def Terminates (s : Deployment EtcdWatches) (l : DirectoryLabel ⊕ ℕ × ForwarderLabel) : Prop :=
  ∀ f, Tries f s l → f ∉ receivers s → ∀ s' ∈ step s l, f ∉ s'.registry.running

/-- No receiver is dropped. -/
def Keeps (s : Deployment EtcdWatches) (l : DirectoryLabel ⊕ ℕ × ForwarderLabel) : Prop :=
  ∀ s' ∈ step s l, receivers s ⊆ receivers s'

/-- **No task outlives its receiver**: once every task that has not ended has tried to forward one
more event, with no receiver dropped meanwhile, there are no more tasks than receivers. -/
def Bounded (s : Deployment EtcdWatches) (w : List (DirectoryLabel ⊕ ℕ × ForwarderLabel)) : Prop :=
  ∀ u v m t, w = u ++ v → run step s u = some m → run step m v = some t → EachStep step Keeps m v →
    (∀ f ∈ m.registry.running, ¬ EachStep step (fun s l => ¬ Tries f s l) m v) →
    t.registry.running.card ≤ (receivers t).card

/-- **Etcd is silent on what was released**: events are only forwarded to receivers still owned. -/
def Heard (s : Deployment EtcdWatches) (l : DirectoryLabel ⊕ ℕ × ForwarderLabel) : Prop :=
  ∀ f, Tries f s l → f ∈ receivers s

/-! ## Tasks and receivers -/

theorem mem_running {reg : EtcdWatches} {f : ℕ} :
    f ∈ reg.running ↔ ∃ fw ∈ reg.forwarders[f]?, fw.state ≠ .stopped := by
  rw [running, Finset.mem_filter, Finset.mem_range, and_iff_right_iff_imp]
  rintro ⟨fw, hfw, -⟩
  exact (List.getElem?_eq_some_iff.mp hfw).1

theorem mem_receivers {s : Deployment EtcdWatches} {f : ℕ} :
    f ∈ receivers s ↔ f < s.registry.forwarders.length ∧ s.directory.Owns f := by
  rw [receivers, Finset.mem_filter, Finset.mem_range]

/-- No task comes to life where one is changed that was alive already, or ends. -/
theorem mem_running_set {reg : EtcdWatches} {fw fw' : Forwarder} {f g : ℕ}
    (hfw : reg.forwarders[f]? = some fw) (hstate : fw'.state ≠ .stopped → fw.state ≠ .stopped)
    (hg : g ∈ ({ reg with forwarders := reg.forwarders.set f fw' } : EtcdWatches).running) :
    g ∈ reg.running := by
  obtain ⟨fw'', hfw'', hlive⟩ := mem_running.mp hg
  rcases eq_or_ne f g with rfl | hne
  · have hlt := (List.getElem?_eq_some_iff.mp hfw).1
    rw [List.getElem?_set_self hlt] at hfw''
    obtain rfl := Option.some.inj hfw''
    exact mem_running.mpr ⟨fw, hfw, hstate hlive⟩
  · rw [List.getElem?_set_ne hne] at hfw''
    exact mem_running.mpr ⟨fw'', hfw'', hlive⟩

/-- An answer starts no task but the one behind the stream it returns. -/
theorem running_of_answer {reg reg' : EtcdWatches} {q : Query} (h : reg.answer q = some reg')
    {f : ℕ} (hf : f ∈ reg'.running) (hnew : f ∉ reg.running) : ∃ name, q = .watch name (.ok f) := by
  revert h
  fun_cases answer reg q <;> intro h
  case case6 name =>
    obtain rfl := Option.some.inj h
    refine ⟨name, congrArg _ (congrArg _ ?_)⟩
    obtain ⟨fw, hfw, hlive⟩ := mem_running.mp hf
    have hlt := (List.getElem?_eq_some_iff.mp hfw).1
    rw [List.length_append, List.length_singleton] at hlt
    refine (Nat.lt_succ_iff.mp hlt).antisymm' (not_lt.mp fun hold => hnew ?_)
    rw [List.getElem?_append_left hold] at hfw
    exact mem_running.mpr ⟨fw, hfw, hlive⟩
  case case8 stream event =>
    obtain ⟨fw, hfw, h⟩ := Option.bind_eq_some_iff.mp h
    split_ifs at h
    obtain ⟨channel, -, rfl⟩ := Option.map_eq_some_iff.mp h
    have hstate : (⟨fw.service, fw.state, channel⟩ : Forwarder).state ≠ .stopped →
        fw.state ≠ .stopped := id
    exact absurd (mem_running_set hfw hstate hf) hnew
  -- the other answers leave the tasks alone
  all_goals
    cases h
    try exact absurd hf hnew

/-- A task that has ended takes no step. -/
theorem live_of_step {config : RegistryConfig} {owned : Bool} {fw fw' : Forwarder}
    {l : ForwarderLabel} (h : fw.step config owned fw.state l = some fw') :
    fw.state ≠ .stopped := by
  intro hstop
  rw [hstop] at h
  cases l <;> cases h

/-- A step of a task is a move of that task alone. -/
theorem step_inr_eq_some {s s' : Deployment EtcdWatches} {f : ℕ} {l : ForwarderLabel} :
    step s (.inr (f, l)) = some s' ↔ ∃ fw fw', s.registry.forwarders[f]? = some fw
      ∧ fw.step s.registry.config (s.directory.Owns f) fw.state l = some fw'
      ∧ s' = { s with registry.forwarders := s.registry.forwarders.set f fw' } := by
  rw [step, Option.bind_eq_some_iff]
  refine exists_congr fun fw => ⟨fun ⟨hfw, h⟩ => ?_, ?_⟩
  · obtain ⟨fw', hstep, rfl⟩ := Option.map_eq_some_iff.mp h
    exact ⟨fw', hfw, hstep, rfl⟩
  · rintro ⟨fw', hfw, hstep, rfl⟩
    exact ⟨hfw, Option.map_eq_some_iff.mpr ⟨fw', hstep, rfl⟩⟩

end EtcdWatches

/-- **Whoever asks for a watch comes to own the stream.** -/
theorem ServiceDirectory.Guarded.owns_of_watch {d d' : ServiceDirectory} (h : d.Guarded)
    {l : DirectoryLabel} (hstep : d.step l = some d') {name : String} {stream : ℕ}
    (hq : d.query l = some (.watch name (.ok stream))) : d'.Owns stream := by
  cases move_of_step hstep with
  | @call i l _ move =>
    cases move with
    | subscribed result at_ =>
      rw [query, at_] at hq
      obtain ⟨-, rfl⟩ := Query.watch.inj (Option.some.inj hq)
      exact ⟨d.nextTask, Nat.lt_succ_self _, _, Function.update_self .., rfl⟩
    | _ => simp [query, CallState.query, *] at hq
  | @task k t l _ ht move =>
    cases move with
    | watched stream' at_ =>
      rw [query, ht] at hq
      obtain ⟨-, hstream⟩ := Query.watch.inj (Option.some.inj hq)
      obtain rfl := Except.ok.inj hstream
      exact ⟨k, (h.held k t ht).2, _, Function.update_self .., rfl⟩
    | _ => simp [query, WatchTask.query, *] at hq
  | _ => cases hq

namespace EtcdWatches

/-- **A task is started together with its receiver.** -/
theorem started_owned {s s' : Deployment EtcdWatches} (h : s.directory.Guarded)
    {x : DirectoryLabel ⊕ ℕ × ForwarderLabel} (hstep : step s x = some s') {f : ℕ}
    (hf : f ∈ s'.registry.running) (hnew : f ∉ s.registry.running) : f ∈ receivers s' := by
  cases x with
  | inl l =>
    obtain ⟨hreply, hdir⟩ := Provider.step_inl_eq_some.mp hstep
    have hlt : f < s'.registry.forwarders.length :=
      Finset.mem_range.mp (Finset.mem_filter.mp hf).1
    cases hq : s.directory.query l with
    | none =>
      rw [hq] at hreply
      exact absurd ((Option.some.inj hreply).symm ▸ hf) hnew
    | some q =>
      rw [hq] at hreply
      obtain ⟨name, rfl⟩ := running_of_answer hreply hf hnew
      exact mem_receivers.mpr ⟨hlt, h.owns_of_watch hdir hq⟩
  | inr x =>
    obtain ⟨fw, fw', hfw, hmove, rfl⟩ := step_inr_eq_some.mp hstep
    exact absurd (mem_running_set hfw (fun _ => live_of_step hmove) hf) hnew

theorem guarded_of_step {s s' : Deployment EtcdWatches} (h : s.directory.Guarded)
    {x : DirectoryLabel ⊕ ℕ × ForwarderLabel} (hstep : step s x = some s') :
    s'.directory.Guarded := by
  cases x with
  | inl l => exact h.step (Provider.step_inl_eq_some.mp hstep).2
  | inr x =>
    obtain ⟨-, -, -, -, rfl⟩ := step_inr_eq_some.mp hstep
    exact h

/-! ## What a failed send does -/

/-- **A failed send ends nothing**: the task lives on. -/
theorem step_of_tries {s : Deployment EtcdWatches} {f : ℕ}
    {x : DirectoryLabel ⊕ ℕ × ForwarderLabel} (h : Tries f s x) (hdropped : f ∉ receivers s) :
    ∃ s', step s x = some s' ∧ f ∈ s'.registry.running := by
  obtain ⟨rfl, fw, hfw, hoffer⟩ := h
  obtain ⟨hlt, -⟩ := List.getElem?_eq_some_iff.mp hfw
  have howned : ¬ s.directory.Owns f := fun how => hdropped (mem_receivers.mpr ⟨hlt, how⟩)
  obtain ⟨rest, hmove⟩ := Forwarder.step_dropped hoffer
  rw [← decide_eq_false howned] at hmove
  refine ⟨_, step_inr_eq_some.mpr ⟨fw, _, hfw, hmove, rfl⟩, mem_running.mpr ?_⟩
  refine ⟨{ fw with state := .handling rest }, List.getElem?_set_self hlt, ?_⟩
  cases rest <;> exact ForwarderState.noConfusion

/-- The tasks end with their receivers exactly where etcd is silent on what was released. -/
theorem terminates_iff_heard {s : Deployment EtcdWatches}
    {x : DirectoryLabel ⊕ ℕ × ForwarderLabel} : Terminates s x ↔ Heard s x := by
  refine forall_congr' fun f => ?_
  constructor
  · refine fun h htries => by_contra fun hdropped => ?_
    obtain ⟨s', hstep, hrunning⟩ := step_of_tries htries hdropped
    exact h htries hdropped s' hstep hrunning
  · exact fun h htries hdropped => absurd (h htries) hdropped

/-! ## Runs -/

section Runs

variable {s t : Deployment EtcdWatches} {v : List (DirectoryLabel ⊕ ℕ × ForwarderLabel)} {f : ℕ}

/-- Receivers that are kept are there in the end. -/
theorem receivers_subset (hkeeps : EachStep step Keeps s v) (hv : run step s v = some t) :
    receivers s ⊆ receivers t :=
  invariant_run (I := fun m => receivers s ⊆ receivers m)
    (fun _ _ s' hm hstep hs' => hm.trans (hstep s' hs')) (Finset.Subset.refl _) hkeeps hv

/-- A task that tries to forward an event, all such events being heard, has a receiver. -/
theorem mem_receivers_of_tries (hkeeps : EachStep step Keeps s v) (hheard : EachStep step Heard s v)
    (hv : run step s v = some t) (htries : ¬ EachStep step (fun s x => ¬ Tries f s x) s v) :
    f ∈ receivers t := by
  induction v generalizing s with
  | nil => exact absurd trivial htries
  | cons x v ih =>
    obtain ⟨s', hstep, hv'⟩ := run_cons_eq_some.mp hv
    rw [eachStep_cons hstep, not_and_or, not_not] at htries
    rcases htries with hnow | hlater
    · exact receivers_subset hkeeps hv (hheard.1 f hnow)
    · exact ih (hkeeps.2 s' hstep) (hheard.2 s' hstep) hv' hlater

/-- A task that was started on the way has a receiver. -/
theorem mem_receivers_of_started (h : s.directory.Guarded) (hkeeps : EachStep step Keeps s v)
    (hv : run step s v = some t) (hf : f ∈ t.registry.running) (hnew : f ∉ s.registry.running) :
    f ∈ receivers t := by
  have hlast : t.directory.Guarded ∧ (f ∈ t.registry.running → f ∈ receivers t) := by
    refine invariant_run (I := fun m : Deployment EtcdWatches =>
      m.directory.Guarded ∧ (f ∈ m.registry.running → f ∈ receivers m))
      (fun m x m' hm hkeep hstep => ⟨guarded_of_step hm.1 hstep, fun hf' => ?_⟩)
      ⟨h, fun hf' => absurd hf' hnew⟩ hkeeps hv
    by_cases hm' : f ∈ m.registry.running
    · exact hkeep m' hstep (hm.2 hm')
    · exact started_owned hm.1 hstep hf' hm'
  exact hlast.2 hf

/-- **Where all is heard, no task outlives its receiver.** -/
theorem bounded_of_heard (h : s.directory.Guarded) {w : List (DirectoryLabel ⊕ ℕ × ForwarderLabel)}
    (hheard : EachStep step Heard s w) : Bounded s w := by
  rintro u v m t rfl hu hv hkeeps htries
  refine Finset.card_le_card fun f hf => ?_
  have hm : m.directory.Guarded := preserved_run (I := fun m => m.directory.Guarded)
    (fun _ _ _ hm hstep => guarded_of_step hm hstep) h hu
  by_cases hnew : f ∈ m.registry.running
  · exact mem_receivers_of_tries hkeeps ((eachStep_append.mp hheard).2 m hu) hv (htries f hnew)
  · exact mem_receivers_of_started hm hkeeps hv hf hnew

end Runs

/-- A fresh directory over an etcd registry. -/
def deploy (config : RegistryConfig) (diskCache : Bool)
    (disk : Disk) : Deployment EtcdWatches :=
  ⟨.withOptions diskCache disk, ⟨config, []⟩⟩

/-- **When forwarding tasks are released, exactly.**  Along a run every task ends with the first
event it cannot hand over, and no task outlives its receiver, if and only if etcd has no event for
what was released. -/
theorem released_iff (config : RegistryConfig) (diskCache : Bool)
    (disk : Disk)
    (w : List (DirectoryLabel ⊕ ℕ × ForwarderLabel)) :
    EachStep step Terminates (deploy config diskCache disk) w
        ∧ Bounded (deploy config diskCache disk) w
      ↔ EachStep step Heard (deploy config diskCache disk) w := by
  refine ⟨fun h => h.1.imp fun _ _ => terminates_iff_heard.mp, fun h => ⟨?_, ?_⟩⟩
  · exact h.imp fun _ _ => terminates_iff_heard.mpr
  · exact bounded_of_heard (ServiceDirectory.guarded_withOptions diskCache disk) h

/-- A service is watched and unwatched, its watch task has stopped, and etcd reports a deletion. -/
def unwatched : List (DirectoryLabel ⊕ ℕ × ForwarderLabel) :=
  [.inl (.call 0 (.loadOrWatch "order-svc")), .inl (.call 0 .read), .inl (.call 0 .lock),
    .inl (.call 0 (.listed (.ok []))), .inl (.call 0 .insert), .inl (.call 0 .lock),
    .inl (.call 0 (.subscribed (.ok 0))), .inl (.task 0 .enter), .inl (.task 0 .primed),
    .inl (.call 1 (.unwatch "order-svc")), .inl (.call 1 .lock), .inl (.call 1 (.cancel 0)),
    .inl (.task 0 .cancelled), .inr (0, .message [.delete "/pecs/dev/order-svc/order-1"])]

/-- **A task that is never released**: the event cannot be sent, and the task reads on. -/
theorem unwatched_lives : ¬ ∀ w, EachStep step Terminates (deploy .default false ∅) w
    ∧ Bounded (deploy .default false ∅) w := by
  intro h
  have hlast := (eachStep_append.mp (h (unwatched ++ [.inr (0, .forward)])).1).2 _ rfl
  have howned := terminates_iff_heard.mp hlast.1 0 ⟨rfl, _, rfl, by decide +kernel⟩
  exact absurd (mem_receivers.mp howned).2 (by decide +kernel)

end EtcdWatches

end PecsRegistry
