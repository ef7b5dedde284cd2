import PecsRegistry.Directory.System
import PecsRegistry.Machinery.Channel

/-!
# Discover/Binding — a change stream bound to the snapshot of a service

`discover_stream` and `tonic_channel_with_config` share one shape: they load the service, send its
instances into a bounded channel, and install a listener that turns every later list into changes,
against what it knows of the list before.  A `Binding` is what the two do differently; `step` moves
the whole from one send, or one receive, to the next:

* the initial sends are awaited; a balancer receives meanwhile, while nobody can receive from a
  discover stream before the function has returned (`handsOver`);
* the listener runs inside `apply_event`, and its sends do not wait: without room a change is lost;
* the consumer receives at its own pace, also between two sends of one notification.

Events that the directory applies before the listener is installed reach no listener, and are left
out.

What the consumer will hold once it has received all that is accepted or still to be sent is the
`outlook`.  As long as no send is refused, only an applied event changes it (`steady_of_step`), so
what holds of a run follows from what one notification keeps (`eachState_tracks`).
-/

namespace PecsRegistry

open Transition Writes

/-- A change of the endpoints behind a balancer. -/
inductive Change (ν : Type)
  | insert (key : String) (value : ν)
  | remove (key : String)
deriving DecidableEq

variable {K ν : Type}

/-- The write a change stands for. -/
def Change.write : Change ν → Write String ν
  | insert key value => .put key value
  | remove key => .drop key

/-- What changes make of a map. -/
def applyChanges (changes : List (Change ν)) (m : String → Option ν) : String → Option ν :=
  replay (changes.map Change.write) m

/-- The map that changes lead to from nothing. -/
def fold (changes : List (Change ν)) : String → Option ν := applyChanges changes fun _ => none

theorem applyChanges_append (cs cs' : List (Change ν)) (m : String → Option ν) :
    applyChanges (cs ++ cs') m = applyChanges cs' (applyChanges cs m) := by
  rw [applyChanges, List.map_append, replay_append]
  rfl

@[simp] theorem applyChanges_nil (m : String → Option ν) :
    applyChanges ([] : List (Change ν)) m = m := rfl

@[simp] theorem applyChanges_insert (key : String) (value : ν) (cs : List (Change ν))
    (m : String → Option ν) : applyChanges (.insert key value :: cs) m
      = applyChanges cs (Function.update m key (some value)) := by
  rw [← Write.apply_put]
  rfl

@[simp] theorem applyChanges_remove (key : String) (cs : List (Change ν))
    (m : String → Option ν) :
    applyChanges (.remove key :: cs) m = applyChanges cs (Function.update m key none) := by
  rw [← Write.apply_drop]
  rfl

/-- The key a change is about. -/
def Change.key : Change ν → String
  | insert key _ | remove key => key

theorem Change.not_touches {change : Change ν} {id : String} (h : change.key ≠ id) :
    ¬ change.write.Touches id := by
  cases change <;> simpa [Write.Touches, Write.effect, Change.write, Change.key] using Ne.symm h

/-- Changes of other keys leave a key alone. -/
theorem applyChanges_of_forall_ne {changes : List (Change ν)} {id : String}
    (h : ∀ change ∈ changes, change.key ≠ id) (m : String → Option ν) :
    applyChanges changes m id = m id := by
  refine replay_of_untouched (fun write hwrite => ?_) m
  obtain ⟨change, hchange, rfl⟩ := List.mem_map.mp hwrite
  exact Change.not_touches (h change hchange)

/-- What changes make of a key depends only on what the key held. -/
theorem applyChanges_congr {changes : List (Change ν)} {m m' : String → Option ν} {id : String}
    (h : m id = m' id) : applyChanges changes m id = applyChanges changes m' id := replay_congr h

/-- **Each instance of a list sends changes of its own id**: an id sees those of its instance. -/
theorem applyChanges_flatMap {changes : ServiceInstance → List (Change ν)}
    (hown : ∀ inst, ∀ change ∈ changes inst, change.key = inst.serviceId)
    {l : List ServiceInstance} (hl : Distinct l) (m : String → Option ν) (id : String) :
    applyChanges (l.flatMap changes) m id
      = (byId l id).elim (m id) fun inst => applyChanges (changes inst) m id := by
  induction l generalizing m with
  | nil => rfl
  | cons inst l ih =>
    obtain ⟨hnew, hl⟩ := List.nodup_cons.mp hl
    rw [List.flatMap_cons, applyChanges_append, byId_cons]
    by_cases hid : inst.serviceId = id
    · rw [if_pos hid]
      refine applyChanges_of_forall_ne (fun change hchange heq => hnew ?_) _
      obtain ⟨inst', hinst', hmem⟩ := List.mem_flatMap.mp hchange
      exact List.mem_map.mpr
        ⟨inst', hinst', ((hown inst' change hmem).symm.trans heq).trans hid.symm⟩
    · have hfirst : applyChanges (changes inst) m id = m id :=
        applyChanges_of_forall_ne
          (fun change hchange heq => hid ((hown _ _ hchange).symm.trans heq)) m
      rw [if_neg hid, ih hl, hfirst]
      cases byId l id with
      | none => rfl
      | some inst' => exact applyChanges_congr hfirst

/-- Removals clear their keys. -/
theorem applyChanges_removals (ids : List String) (m : String → Option ν) (id : String) :
    applyChanges (ids.map .remove) m id = if id ∈ ids then none else m id := by
  induction ids generalizing m with
  | nil => rfl
  | cons k ids ih =>
    rw [List.map_cons, applyChanges_remove, ih, Function.update_apply]
    by_cases hk : id = k <;> simp [hk]

/-- The capacity of a discover channel. -/
def discoverCapacity : ℕ := 64

/-- What a kind of change stream sends first, what it keeps to compare the next list with, and what
it sends then; the keys it knows are traversed in some order.  Its receiver may be handed over
before the function returns. -/
structure Binding (K ν : Type) where
  handsOver : Bool
  initial : List ServiceInstance → List (Change ν)
  known : List ServiceInstance → K
  keys : K → Finset String
  changes : K → List String → List ServiceInstance → List (Change ν)
  next : List ServiceInstance → K

/-- Where the stream stands: sending the initial instances, waiting for an event, or in the middle
of a notification. -/
inductive DiscoverState (K ν : Type)
  | sending (rest : List (Change ν))
  | listening
  | notifying (rest : List (Change ν)) (next : K)
deriving DecidableEq

/-- What is still to be sent. -/
def DiscoverState.rest : DiscoverState K ν → List (Change ν)
  | .sending rest | .notifying rest _ => rest
  | .listening => []

/-- A change stream over the directory. -/
structure Discovery (K ν : Type) where
  directory : ServiceDirectory
  svcName : String
  state : DiscoverState K ν
  channel : Channel (Change ν)
  known : K

/-- What happens next; an applied event carries the order in which the listener traverses what it
knows. -/
inductive DiscoverLabel
  | send
  | install
  | apply (name : String) (event : ServiceEvent) (order : List String)
  | offer
  | done
  | receive
deriving DecidableEq

namespace Discovery

/-- The stream after `load_or_watch` has returned the snapshot of the service. -/
def start (B : Binding K ν) (directory : ServiceDirectory) (svcName : String) :
    Discovery K ν where
  directory := directory
  svcName := svcName
  state := .sending (B.initial (directory.getInstances svcName))
  channel := .empty
  known := B.known (directory.getInstances svcName)

/-- The snapshot of the service. -/
def snapshot (s : Discovery K ν) : List ServiceInstance := s.directory.getInstances s.svcName

/-- The directory applies an event. -/
def applied (s : Discovery K ν) (name : String) (event : ServiceEvent) : Discovery K ν :=
  { s with directory := s.directory.applyEvent name event }

/-- The listener, called with the list that `apply_event` has stored. -/
def notify (B : Binding K ν) (s : Discovery K ν) (order : List String)
    (instances : List ServiceInstance) : Discovery K ν :=
  { s with state := .notifying (B.changes s.known order instances) (B.next instances) }

def step (B : Binding K ν) (s : Discovery K ν) : DiscoverLabel → Option (Discovery K ν)
  | .send =>
      match s.state with
      | .sending (change :: rest) =>
          if s.channel.HasRoom discoverCapacity then
            some { s with state := .sending rest, channel := s.channel.push change }
          else none
      | _ => none
  | .install =>
      match s.state with
      | .sending [] => some { s with state := .listening }
      | _ => none
  | .apply name event order =>
      match s.state with
      | .listening =>
          if name = s.svcName then
            if order.Nodup ∧ order.toFinset = B.keys s.known then
              some ((s.applied name event).notify B order (s.applied name event).snapshot)
            else none
          else some (s.applied name event)
      | _ => none
  | .offer =>
      match s.state with
      | .notifying (change :: rest) next =>
          some { s with
            state := .notifying rest next
            channel := s.channel.trySend discoverCapacity change }
      | _ => none
  | .done =>
      match s.state with
      | .notifying [] next => some { s with state := .listening, known := next }
      | _ => none
  | .receive =>
      match s.state, B.handsOver with
      | .sending _, false => none
      | _, _ => s.channel.receive.map fun channel => { s with channel }

/-- No send finds the channel full. -/
def Roomy (s : Discovery K ν) (l : DiscoverLabel) : Prop :=
  l = .offer → s.channel.HasRoom discoverCapacity

instance (s : Discovery K ν) (l : DiscoverLabel) : Decidable (s.Roomy l) :=
  inferInstanceAs (Decidable (_ → _))

variable {B : Binding K ν} {s s' : Discovery K ν}

/-! ## What one step can do -/

/-- The moves of a change stream. -/
inductive Move (B : Binding K ν) (s : Discovery K ν) : DiscoverLabel → Discovery K ν → Prop
  | send {change : Change ν} {rest : List (Change ν)} (at_ : s.state = .sending (change :: rest))
      (room : s.channel.HasRoom discoverCapacity) :
      Move B s .send { s with state := .sending rest, channel := s.channel.push change }
  | install (at_ : s.state = .sending []) : Move B s .install { s with state := .listening }
  | notify {event : ServiceEvent} {order : List String} (at_ : s.state = .listening)
      (nodup : order.Nodup) (all : order.toFinset = B.keys s.known) :
      Move B s (.apply s.svcName event order)
        ((s.applied s.svcName event).notify B order (newList s.snapshot event))
  | other {name : String} {event : ServiceEvent} {order : List String} (at_ : s.state = .listening)
      (ne : name ≠ s.svcName) : Move B s (.apply name event order) (s.applied name event)
  | offer {change : Change ν} {rest : List (Change ν)} {next : K}
      (at_ : s.state = .notifying (change :: rest) next) :
      Move B s .offer { s with
        state := .notifying rest next
        channel := s.channel.trySend discoverCapacity change }
  | done {next : K} (at_ : s.state = .notifying [] next) :
      Move B s .done { s with state := .listening, known := next }
  | receive {channel : Channel (Change ν)}
      (at_ : ∀ rest, s.state = .sending rest → B.handsOver = true)
      (received : s.channel.receive = some channel) :
      Move B s .receive { s with channel := channel }

theorem snapshot_applied (s : Discovery K ν) (name : String) (event : ServiceEvent) :
    (s.applied name event).snapshot
      = if s.svcName = name then newList s.snapshot event else s.snapshot := by
  refine (s.directory.getInstances_applyEvent name s.svcName event).trans ?_
  split_ifs with hname
  · rw [snapshot, hname]
  · rfl

theorem move_of_step {l : DiscoverLabel} (h : s.step B l = some s') : Move B s l s' := by
  revert h
  fun_cases step B s l <;> intro h <;> try simp only [reduceCtorEq, Option.some.injEq] at h
  case case1 at_ room => exact h ▸ .send at_ room
  case case4 at_ => exact h ▸ .install at_
  case case6 at_ all =>
    subst h
    rw [snapshot_applied, if_pos rfl]
    exact .notify at_ all.1 all.2
  case case8 at_ ne => exact h ▸ .other at_ ne
  case case10 at_ => exact h ▸ .offer at_
  case case12 at_ => exact h ▸ .done at_
  case case15 at_ =>
    obtain ⟨channel, hchannel, rfl⟩ := Option.map_eq_some_iff.mp h
    exact .receive (fun rest hrest => Bool.eq_true_of_not_eq_false (at_ rest hrest)) hchannel

/-! ## What the consumer will hold -/

/-- The map the consumer will hold once it has received everything accepted or still to be sent. -/
def outlook (s : Discovery K ν) : String → Option ν := fold (s.channel.sent ++ s.state.rest)

/-- What the listener will know once the notification is over. -/
def base (s : Discovery K ν) : K :=
  match s.state with
  | .notifying _ next => next
  | _ => s.known

theorem outlook_of_listening (h : s.state = .listening) : s.outlook = fold s.channel.sent := by
  rw [outlook, h, DiscoverState.rest, List.append_nil]

theorem base_of_listening (h : s.state = .listening) : s.base = s.known := by rw [base, h]

/-- **Only an applied event changes the outlook**, as long as no send is refused. -/
theorem steady_of_step {l : DiscoverLabel} (hroom : s.Roomy l)
    (hl : ∀ event order, l ≠ .apply s.svcName event order) (hstep : s.step B l = some s') :
    s'.snapshot = s.snapshot ∧ s'.base = s.base ∧ s'.outlook = s.outlook := by
  cases move_of_step hstep with
  | send at_ room =>
    refine ⟨rfl, by rw [base, base, at_], ?_⟩
    rw [outlook, outlook, at_, Channel.sent_push, List.append_assoc]
    rfl
  | install at_ =>
    refine ⟨rfl, by rw [base, base, at_], ?_⟩
    rw [outlook, outlook, at_]
    rfl
  | notify at_ nodup all => exact absurd rfl (hl _ _)
  | other at_ ne =>
    refine ⟨?_, rfl, rfl⟩
    rw [snapshot_applied, if_neg (Ne.symm ne)]
  | offer at_ =>
    refine ⟨rfl, by rw [base, base, at_], ?_⟩
    rw [outlook, outlook, at_, Channel.sent_trySend (hroom rfl), List.append_assoc]
    rfl
  | done at_ =>
    refine ⟨rfl, by rw [base, base, at_], ?_⟩
    rw [outlook, outlook, at_]
    rfl
  | receive at_ received =>
    refine ⟨rfl, rfl, ?_⟩
    rw [outlook, outlook, Channel.sent_receive received]

/-- **What a notification does to the outlook.** -/
theorem notified_of_step {event : ServiceEvent} {order : List String}
    (hstep : s.step B (.apply s.svcName event order) = some s') :
    s.state = .listening ∧ order.toFinset = B.keys s.base ∧ s'.snapshot = newList s.snapshot event
      ∧ s'.base = B.next (newList s.snapshot event)
      ∧ s'.outlook
        = applyChanges (B.changes s.base order (newList s.snapshot event)) s.outlook := by
  cases move_of_step hstep with
  | notify at_ nodup all =>
    have hbase := base_of_listening at_
    refine ⟨at_, hbase ▸ all, ?_, rfl, ?_⟩
    · exact (snapshot_applied s s.svcName event).trans (if_pos rfl)
    · rw [outlook_of_listening at_, hbase]
      exact applyChanges_append _ _ _
  | other at_ ne => exact absurd rfl ne

/-- What is known of the snapshot, the listener and the outlook. -/
def Tracks (P : List ServiceInstance → K → (String → Option ν) → Prop) (s : Discovery K ν) : Prop :=
  P s.snapshot s.base s.outlook

/-- The one thing to check of a binding: a notification keeps what is tracked. -/
def KeptByNotification (B : Binding K ν) (P : List ServiceInstance → K → (String → Option ν) → Prop)
    (C : List ServiceInstance → ServiceEvent → Prop) : Prop :=
  ∀ instances event known order m, P instances known m → C instances event →
    order.toFinset = B.keys known →
      P (newList instances event) (B.next (newList instances event))
        (applyChanges (B.changes known order (newList instances event)) m)

/-- The events applied to the service meet a condition. -/
def Applies (C : List ServiceInstance → ServiceEvent → Prop) (s : Discovery K ν) :
    DiscoverLabel → Prop
  | .apply name event _ => name = s.svcName → C s.snapshot event
  | _ => True

instance (C : List ServiceInstance → ServiceEvent → Prop) [∀ list event, Decidable (C list event)]
    (s : Discovery K ν) : DecidablePred (s.Applies C) := fun l => by
  cases l <;> simp only [Applies] <;> infer_instance

variable {P : List ServiceInstance → K → (String → Option ν) → Prop}
  {C : List ServiceInstance → ServiceEvent → Prop}

theorem applies_of_forall (h : ∀ list event, C list event) (l : DiscoverLabel) : s.Applies C l := by
  cases l with
  | apply name event order => exact fun _ => h _ _
  | _ => trivial

theorem Tracks.step (h : s.Tracks P) (hkept : KeptByNotification B P C) {l : DiscoverLabel}
    (hroom : s.Roomy l) (hC : s.Applies C l) (hstep : s.step B l = some s') : s'.Tracks P := by
  by_cases hl : ∃ event order, l = .apply s.svcName event order
  · obtain ⟨event, order, rfl⟩ := hl
    obtain ⟨-, horder, hsnapshot, hbase, houtlook⟩ := notified_of_step hstep
    rw [Tracks, hsnapshot, hbase, houtlook]
    exact hkept _ _ _ _ _ h (hC rfl) horder
  · obtain ⟨hsnapshot, hbase, houtlook⟩ :=
      steady_of_step hroom (fun event order he => hl ⟨event, order, he⟩) hstep
    rw [Tracks, hsnapshot, hbase, houtlook]
    exact h

/-- **What every notification keeps holds throughout a run** in which no send is refused. -/
theorem eachState_tracks (hkept : KeptByNotification B P C) {directory : ServiceDirectory}
    {svcName : String}
    (hstart : P (directory.getInstances svcName) (B.known (directory.getInstances svcName))
      (fold (B.initial (directory.getInstances svcName)))) {w : List DiscoverLabel}
    (hw : EachStep (step B) (fun s l => s.Roomy l ∧ s.Applies C l) (start B directory svcName) w) :
    EachState (step B) (Tracks P) (start B directory svcName) w :=
  eachState_of_invariant (fun _ _ _ h hl hstep => h.step hkept hl.1 hl.2 hstep) hstart hw

/-- The listener knows the ids that the consumer will hold. -/
def Knows (B : Binding K ν) (_ : List ServiceInstance) (known : K) (m : String → Option ν) : Prop :=
  ∀ id, (m id).isSome ↔ id ∈ B.keys known

/-- Whenever the channel is drained, the consumer holds the ids the listener knows. -/
def KeepsIds (B : Binding K ν) (s : Discovery K ν) : Prop :=
  s.state = .listening → s.channel.queue = [] → ∀ id,
    (fold s.channel.received id).isSome ↔ id ∈ B.keys s.known

theorem Tracks.keepsIds (h : s.Tracks (Knows B)) : s.KeepsIds B := by
  intro hlistening hdrained id
  rw [← Channel.sent_of_drained hdrained, ← outlook_of_listening hlistening,
    ← base_of_listening hlistening]
  exact h id

/-! ## The initial sends -/

/-- The initial changes have been sent first, or are still being sent. -/
def Opens (first : List (Change ν)) (s : Discovery K ν) : Prop :=
  match s.state with
  | .sending rest => s.channel.sent ++ rest = first
  | _ => first <+: s.channel.sent

theorem opens_start (B : Binding K ν) (directory : ServiceDirectory) (svcName : String) :
    (start B directory svcName).Opens (B.initial (directory.getInstances svcName)) := rfl

theorem Opens.step {first : List (Change ν)} (h : s.Opens first) {l : DiscoverLabel}
    (hstep : s.step B l = some s') : s'.Opens first := by
  cases move_of_step hstep with
  | @send change rest at_ room =>
    have hsent : s.channel.sent ++ change :: rest = first := by rwa [Opens, at_] at h
    show (s.channel.push change).sent ++ rest = first
    rw [Channel.sent_push, List.append_assoc]
    exact hsent
  | install at_ =>
    have hsent : s.channel.sent ++ [] = first := by rwa [Opens, at_] at h
    show first <+: s.channel.sent
    rw [← hsent, List.append_nil]
  | notify at_ nodup all =>
    rw [Opens, at_] at h
    exact h
  | other at_ ne => exact h
  | offer at_ =>
    rw [Opens, at_] at h
    rw [Opens, Channel.trySend]
    split_ifs
    · rw [Channel.sent_push]
      exact h.trans (List.prefix_append _ _)
    · exact h
  | done at_ =>
    rw [Opens, at_] at h
    exact h
  | receive at_ received =>
    rwa [Opens, Channel.sent_receive received]

/-- **What is received begins with the initial changes.** -/
theorem Opens.received {first : List (Change ν)} (h : s.Opens first) :
    s.channel.received <+: first ∨ first <+: s.channel.received := by
  rw [Opens] at h
  split at h
  · exact .inl ((List.prefix_append _ _).trans (h ▸ List.prefix_append _ _))
  · exact Channel.prefix_of_sent h

/-- The function's own steps fill the channel. -/
def Filling (first : List (Change ν)) (s : Discovery K ν) : Prop :=
  s.channel.queue ++ s.state.rest = first ∧ s.channel.queue.length ≤ discoverCapacity

theorem Filling.step {first : List (Change ν)} (h : s.Filling first) {l : DiscoverLabel}
    (hl : l = .send ∨ l = .install) (hstep : s.step B l = some s') : s'.Filling first := by
  obtain ⟨hqueue, hcap⟩ := h
  cases move_of_step hstep with
  | send at_ room =>
    rw [at_] at hqueue
    refine ⟨(List.append_assoc ..).trans hqueue, ?_⟩
    rw [Channel.push, List.length_append]
    exact room
  | install at_ =>
    rw [at_] at hqueue
    exact ⟨hqueue, hcap⟩
  | _ => simp at hl

/-- **The function returns on its own only if its changes fit into the channel.** -/
theorem length_le_of_run {directory : ServiceDirectory} {svcName : String} {w : List DiscoverLabel}
    (hw : ∀ l ∈ w, l = .send ∨ l = .install)
    (hrun : run (Discovery.step B) (start B directory svcName) w = some s)
    (hend : s.state = .listening) :
    (B.initial (directory.getInstances svcName)).length ≤ discoverCapacity := by
  have hinit : (start B directory svcName).Filling (B.initial (directory.getInstances svcName)) :=
    ⟨rfl, Nat.zero_le _⟩
  obtain ⟨hqueue, hcap⟩ := invariant_run (fun _ _ _ h hl hstep => h.step hl hstep) hinit
    (eachStep_of_forall_mem hw) hrun
  rw [hend, DiscoverState.rest, List.append_nil] at hqueue
  rwa [← hqueue]

/-- **…and if they fit, it returns.** -/
theorem exists_run_of_length_le {rest : List (Change ν)} (hs : s.state = .sending rest)
    (hfits : s.channel.queue.length + rest.length ≤ discoverCapacity) :
    ∃ w t, (∀ l ∈ w, l = .send ∨ l = .install) ∧ run (Discovery.step B) s w = some t
      ∧ t.state = .listening := by
  induction rest generalizing s with
  | nil =>
    refine ⟨[.install], { s with state := .listening }, by simp, ?_, rfl⟩
    rw [run_cons, Discovery.step, hs]
    rfl
  | cons change rest ih =>
    rw [List.length_cons] at hfits
    have hroom : s.channel.HasRoom discoverCapacity := by
      rw [Channel.HasRoom]
      omega
    obtain ⟨w, t, hw, hrun, ht⟩ := ih
      (s := { s with state := .sending rest, channel := s.channel.push change }) rfl
      (by rw [Channel.push, List.length_append, List.length_singleton]; omega)
    refine ⟨.send :: w, t, ?_, ?_, ht⟩
    · rintro l (_ | ⟨_, hl⟩)
      · exact .inl rfl
      · exact hw l hl
    · rw [run_cons, Discovery.step, hs]
      simp only [if_pos hroom]
      exact hrun

end Discovery

end PecsRegistry
