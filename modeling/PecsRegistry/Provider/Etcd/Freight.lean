import PecsRegistry.Provider.Etcd.Hub

/-!
# Provider/Etcd/Freight — what is on its way through a watch

An event that etcd reports waits to be read by the forwarding task of a stream, is forwarded, and
waits in the channel.  Where what etcd reports is in `E`, and `watch` makes events in `S` of it,
**a stream yields only events in `S`** (`Carries.next`), whatever happens on the way.
-/

namespace PecsRegistry

open Transition LeaseStore

variable {E : EtcdEvent → Prop} {S : ServiceEvent → Prop}

/-- What `watch` sends on for events in `E` is in `S`. -/
def Forwards (config : RegistryConfig) (E : EtcdEvent → Prop) (S : ServiceEvent → Prop) : Prop :=
  ∀ service event sent, E event → config.watchEvent service event = some sent → S sent

/-- A forwarding task has read only events in `E`, and its channel holds only events in `S`. -/
structure Forwarder.Carries (E : EtcdEvent → Prop) (S : ServiceEvent → Prop) (fw : Forwarder) :
    Prop where
  events : ∀ event ∈ fw.state.events, E event
  queue : ∀ event ∈ fw.channel.queue, S event

/-- **A forwarding task passes on what it reads.** -/
theorem Forwarder.Carries.step {config : RegistryConfig} (hES : Forwards config E S)
    {fw fw' : Forwarder} {owned : Bool} {l : ForwarderLabel} (h : fw.Carries E S)
    (hl : ∀ events, l = .message events → ∀ event ∈ events, E event)
    (hstep : fw.step config owned fw.state l = some fw') : fw'.Carries E S := by
  cases l with
  | message events =>
    cases hstate : fw.state with
    | reading =>
      rw [hstate] at hstep
      obtain rfl := Option.some.inj hstep
      exact ⟨by simpa using hl events rfl, h.queue⟩
    | _ => simp [Forwarder.step, hstate] at hstep
  | closed | failed =>
    cases hstate : fw.state with
    | reading =>
      rw [hstate] at hstep
      obtain rfl := Option.some.inj hstep
      exact ⟨fun _ hevent => absurd hevent List.not_mem_nil, h.queue⟩
    | _ => simp [Forwarder.step, hstate] at hstep
  | forward =>
    cases hstate : fw.state with
    | forwarding event rest =>
      have hevents := h.events
      rw [hstate, ForwarderState.events_forwarding, List.forall_mem_cons] at hevents
      have hdropped : Carries E S { fw with state := .handling rest } :=
        ⟨by simpa using hevents.2, h.queue⟩
      rw [hstate, Forwarder.step] at hstep
      cases hoffer : fw.offer config with
      | none =>
        rw [hoffer] at hstep
        exact Option.some.inj hstep ▸ hdropped
      | some sent =>
        have hsent : S sent := hES fw.service event sent hevents.1
          (by simpa [Forwarder.offer, hstate] using hoffer)
        rw [hoffer] at hstep
        dsimp only at hstep
        split_ifs at hstep
        · exact Option.some.inj hstep ▸ hdropped
        · obtain rfl := Option.some.inj hstep
          refine ⟨hdropped.events, ?_⟩
          simpa [Channel.push, or_imp, forall_and] using ⟨h.queue, hsent⟩
    | _ => simp [Forwarder.step, hstate] at hstep

/-- An answer leaves the configuration as it is. -/
theorem EtcdWatches.config_of_answer {watches watches' : EtcdWatches} {q : Query}
    (h : watches.answer q = some watches') : watches'.config = watches.config := by
  have hguard : ∀ {c : Prop} [Decidable c], (if c then some watches else none) = some watches' →
      watches'.config = watches.config := by
    intro c _ hif
    split_ifs at hif
    exact Option.some.inj hif ▸ rfl
  match q with
  | .list _ (.ok []) => exact Option.some.inj h ▸ rfl
  | .list _ (.ok (_ :: _)) | .list _ (.error _) | .watch _ (.error _) | .next _ none =>
    exact hguard h
  | .watch name (.ok stream) =>
    rw [EtcdWatches.answer] at h
    split_ifs at h <;> exact Option.some.inj h ▸ rfl
  | .next stream (some event) =>
    obtain ⟨fw, -, hreceive⟩ := Option.bind_eq_some_iff.mp h
    split_ifs at hreceive
    obtain ⟨channel, -, rfl⟩ := Option.map_eq_some_iff.mp hreceive
    rfl

namespace EtcdHub

variable {reg reg' : EtcdHub} {r : ℕ}

theorem config_of_answer {q : Query} (hanswer : reg.answer q = some reg') :
    reg'.watches.config = reg.watches.config := by
  obtain ⟨watches, hwatches, hreg⟩ := Option.bind_eq_some_iff.mp hanswer
  split at hreg
  · split_ifs at hreg
    rw [← Option.some.inj hreg]
  · rw [← Option.some.inj hreg]
    exact EtcdWatches.config_of_answer hwatches
  · rw [← Option.some.inj hreg]
    exact EtcdWatches.config_of_answer hwatches

theorem config_of_act {op : EtcdHubOp} (hact : reg.act op = some reg') :
    reg'.watches.config = reg.watches.config := by
  cases op with
  | store op =>
    obtain ⟨etcd, -, rfl⟩ := Option.map_eq_some_iff.mp hact
    rfl
  | forwarder f owned l =>
    obtain ⟨fw, -, hact⟩ := Option.bind_eq_some_iff.mp hact
    obtain ⟨fw', -, hact⟩ := Option.bind_eq_some_iff.mp hact
    obtain ⟨unread, -, rfl⟩ := Option.map_eq_some_iff.mp hact
    rfl

/-- Stream `r` carries only events in `E`, up to its forwarding task, and in `S`, from there. -/
structure Carries (E : EtcdEvent → Prop) (S : ServiceEvent → Prop) (r : ℕ) (reg : EtcdHub) :
    Prop where
  unread : ∀ event ∈ reg.unread r, E event
  forwarder : ∀ fw, reg.watches.forwarders[r]? = some fw → fw.Carries E S

/-- An answer leaves the forwarding task of the stream as it is, but for an event that is received;
or it is the stream that is new. -/
theorem carries_of_answer {watches watches' : EtcdWatches} {q : Query}
    (h : ∀ fw, watches.forwarders[r]? = some fw → fw.Carries E S)
    (hanswer : watches.answer q = some watches') :
    ∀ fw, watches'.forwarders[r]? = some fw → fw.Carries E S := by
  have hguard : ∀ {c : Prop} [Decidable c], (if c then some watches else none) = some watches' →
      ∀ fw, watches'.forwarders[r]? = some fw → fw.Carries E S := by
    intro c _ hif
    split_ifs at hif
    exact Option.some.inj hif ▸ h
  match q with
  | .list _ (.ok []) => exact Option.some.inj hanswer ▸ h
  | .list _ (.ok (_ :: _)) | .list _ (.error _) | .watch _ (.error _) | .next _ none =>
    exact hguard hanswer
  | .watch name (.ok stream) =>
    by_cases hstream : stream = watches.forwarders.length
    · rw [EtcdWatches.answer, if_pos hstream] at hanswer
      obtain rfl := Option.some.inj hanswer
      intro fw hfw
      rcases lt_or_ge r watches.forwarders.length with hlt | hge
      · exact h fw ((List.getElem?_append_left hlt).symm.trans hfw)
      · rw [List.getElem?_append_right hge] at hfw
        obtain rfl := List.mem_singleton.mp (List.mem_of_getElem? hfw)
        refine ⟨?_, fun _ hevent => absurd hevent List.not_mem_nil⟩
        cases watches.config.active <;> exact fun _ hevent => absurd hevent List.not_mem_nil
    · rw [EtcdWatches.answer, if_neg hstream] at hanswer
      cases hanswer
  | .next stream (some event) =>
    obtain ⟨fw, hfw, hreceive⟩ := Option.bind_eq_some_iff.mp hanswer
    split_ifs at hreceive
    obtain ⟨channel, hchannel, rfl⟩ := Option.map_eq_some_iff.mp hreceive
    have hqueue : ∀ event ∈ channel.queue, event ∈ fw.channel.queue := by
      rw [Channel.receive] at hchannel
      split at hchannel
      · next event queue hqueue =>
        obtain rfl := Option.some.inj hchannel
        exact fun event' hevent' => hqueue ▸ List.mem_cons_of_mem _ hevent'
      · cases hchannel
    intro gw hgw
    by_cases hr : stream = r
    · subst hr
      obtain rfl := Option.some.inj ((List.getElem?_set_self
        (List.getElem?_eq_some_iff.mp hfw).1).symm.trans hgw)
      exact ⟨(h fw hfw).events, fun event hevent => (h fw hfw).queue event (hqueue event hevent)⟩
    · exact h gw ((List.getElem?_set_ne hr).symm.trans hgw)

theorem Carries.answer {q : Query} (h : reg.Carries E S r) (hanswer : reg.answer q = some reg') :
    reg'.Carries E S r := by
  obtain ⟨watches, hwatches, hreg⟩ := Option.bind_eq_some_iff.mp hanswer
  have hforwarder := carries_of_answer h.forwarder hwatches
  split at hreg
  · split_ifs at hreg
    exact Option.some.inj hreg ▸ h
  · obtain rfl := Option.some.inj hreg
    refine ⟨?_, hforwarder⟩
    dsimp only
    rw [Function.update_apply]
    split_ifs
    · exact fun _ hevent => absurd hevent List.not_mem_nil
    · exact h.unread
  · obtain rfl := Option.some.inj hreg
    exact ⟨h.unread, hforwarder⟩

theorem Carries.forward (hES : Forwards reg.watches.config E S) {f : ℕ} {owned : Bool}
    {l : ForwarderLabel} (h : reg.Carries E S r)
    (hact : reg.act (.forwarder f owned l) = some reg') : reg'.Carries E S r := by
  obtain ⟨fw, hfw, hact⟩ := Option.bind_eq_some_iff.mp hact
  obtain ⟨fw', hstep, hact⟩ := Option.bind_eq_some_iff.mp hact
  obtain ⟨unread, hread, rfl⟩ := Option.map_eq_some_iff.mp hact
  refine ⟨fun event hevent => h.unread event ?_, fun gw hgw => ?_⟩
  · cases l with
    | message events =>
      rw [read] at hread
      split_ifs at hread
      obtain rfl := Option.some.inj hread
      dsimp only at hevent
      rw [Function.update_apply] at hevent
      split_ifs at hevent with hr
      · exact hr ▸ List.mem_of_mem_drop hevent
      · exact hevent
    | _ => exact Option.some.inj hread ▸ hevent
  · by_cases hr : f = r
    · subst hr
      obtain rfl := Option.some.inj ((List.getElem?_set_self
        (List.getElem?_eq_some_iff.mp hfw).1).symm.trans hgw)
      refine (h.forwarder fw hfw).step hES (fun events hl event hevent => h.unread event ?_) hstep
      subst hl
      rw [read] at hread
      split_ifs at hread with hunder
      exact hunder.subset hevent
    · exact h.forwarder gw ((List.getElem?_set_ne hr).symm.trans hgw)

theorem Carries.store {op : Op String ServiceInstance} (h : reg.Carries E S r)
    (hput : ∀ key value id, op = .put key value id → E (.put key (some value)))
    (hdelete : ∀ key, E (.delete key)) (hact : reg.act (.store op) = some reg') :
    reg'.Carries E S r := by
  obtain ⟨etcd, happly, rfl⟩ := Option.map_eq_some_iff.mp hact
  refine ⟨fun event hevent => ?_, h.forwarder⟩
  rcases List.mem_append.mp hevent with hold | hnew
  · exact h.unread event hold
  · obtain ⟨write, hwrite, hof⟩ := List.mem_filterMap.mp hnew
    rcases Op.mem_writes happly hwrite with ⟨key, value, id, rfl, rfl⟩ | ⟨key, value, -, rfl⟩
    · exact Option.some.inj hof ▸ hput key value id rfl
    · exact Option.some.inj hof ▸ hdelete key

/-- **What a stream yields.** -/
theorem Carries.next {event : ServiceEvent} (h : reg.Carries E S r)
    (hanswer : reg.answer (.next r (some event)) = some reg') : S event := by
  obtain ⟨watches, hwatches, -⟩ := Option.bind_eq_some_iff.mp hanswer
  obtain ⟨fw, hfw, hreceive⟩ := Option.bind_eq_some_iff.mp hwatches
  split_ifs at hreceive with hhead
  exact (h.forwarder fw hfw).queue event (List.mem_of_mem_head? hhead)

end EtcdHub

end PecsRegistry
