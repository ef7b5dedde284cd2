import PecsRegistry.Directory.Moves
import PecsRegistry.Directory.Rcu

/-!
# Directory/Provenance — where the lists handed to `persist_to_disk` come from

`load_or_watch` persists the listing it gets, `apply_event` what its event makes of the list in the
snapshot, or of the empty list if there is none.  `Provenance` follows each snapshot back to the
full listing it began with.  A list that reaches the file is such a listing with events applied to
it, as long as an upsert or a delete finds a snapshot to apply to: `complete_iff`.
-/

namespace PecsRegistry

open Transition

/-- Where a list comes from: a full listing, and the events applied to it since. -/
structure Origin where
  listing : List ServiceInstance
  events : List ServiceEvent
deriving DecidableEq

namespace Origin

def list (o : Origin) : List ServiceInstance := listAfter o.listing o.events

/-- A list taken over as it is. -/
def full (listing : List ServiceInstance) : Origin := ⟨listing, []⟩

/-- One more event.  A reset brings a full listing; what another event makes of no listing is
none. -/
def applied (origin : Option Origin) : ServiceEvent → Option Origin
  | .reset all => some (full all)
  | event => origin.map fun o => { o with events := o.events ++ [event] }

/-- The origins after an update. -/
def follow (origin : String → Option Origin) : SnapshotUpdate → String → Option Origin
  | .insert name list => Function.update origin name (some (full list))
  | .applyEvent name event => Function.update origin name (applied (origin name) event)

theorem follow_of_ne {origin : String → Option Origin} {u : SnapshotUpdate} {name : String}
    (h : name ≠ u.name) : follow origin u name = origin name := by
  cases u <;> exact Function.update_of_ne h _ _

/-- The listing an origin begins with after an update: the one that has come with it, or the one
before. -/
theorem listing_of_follow {origin : String → Option Origin} {u : SnapshotUpdate} {o : Origin}
    (h : follow origin u u.name = some o) :
    u = .insert u.name o.listing ∨ u = .applyEvent u.name (.reset o.listing)
      ∨ ∃ o', origin u.name = some o' ∧ o'.listing = o.listing := by
  cases u with
  | insert name list =>
    rw [follow, SnapshotUpdate.name, Function.update_self] at h
    obtain rfl := Option.some.inj h
    exact .inl rfl
  | applyEvent name event =>
    rw [follow, SnapshotUpdate.name, Function.update_self] at h
    cases event with
    | reset all =>
      obtain rfl := Option.some.inj h
      exact .inr (.inl rfl)
    | _ =>
      obtain ⟨o', ho', rfl⟩ := Option.map_eq_some_iff.mp h
      exact .inr (.inr ⟨o', ho', rfl⟩)

end Origin

/-- The event replaces the list. -/
def ServiceEvent.Resets : ServiceEvent → Prop
  | .reset _ => True
  | _ => False

/-- The full listing an event brings. -/
def ServiceEvent.listing (name : String) : ServiceEvent → Option (String × List ServiceInstance)
  | .reset all => some (name, all)
  | _ => none

namespace ServiceDirectory

variable {d d' : ServiceDirectory} {l : DirectoryLabel} {name : String}
  {list : List ServiceInstance} {event : ServiceEvent}

/-! ## What a step makes of the snapshots -/

/-- The update of the snapshot map a step performs. -/
def update (d : ServiceDirectory) : DirectoryLabel → Option SnapshotUpdate
  | .call i .insert =>
      match d.calls i with
      | .inserting name list => some (.insert name list)
      | _ => none
  | .task k .apply =>
      (d.tasks k).bind fun t => t.taken.map fun event => .applyEvent t.name event
  | .task k .reset =>
      (d.tasks k).bind fun t => t.latest.map fun latest => .applyEvent t.name (.reset latest)
  | .apply name event => some (.applyEvent name event)
  | _ => none

/-- The full listing a step obtains: from the registry, from disk, or with a reset. -/
def obtains (d : ServiceDirectory) : DirectoryLabel → Option (String × List ServiceInstance)
  | .call i (.listed (.ok list)) =>
      match d.calls i with
      | .listing name => some (name, list)
      | _ => none
  | .call i (.recovered (some list)) =>
      match d.calls i with
      | .recovering name _ => some (name, list)
      | _ => none
  | .task k (.listed (.ok latest)) => (d.tasks k).map fun t => (t.name, latest)
  | .task k (.next (some event)) => (d.tasks k).bind fun t => event.listing t.name
  | .apply name event => event.listing name
  | _ => none

/-- The list a step hands to `persist_to_disk`. -/
def handsOver (d : ServiceDirectory) : DirectoryLabel → Option (String × List ServiceInstance)
  | .call i (.listed (.ok list)) => d.obtains (.call i (.listed (.ok list)))
  | l =>
      match d.update l with
      | some (.applyEvent name event) => some (name, newList (d.getInstances name) event)
      | _ => none

/-- The update of a step, and nothing else but the clearing of the map, changes the snapshots. -/
theorem snapshots_of_step (hstep : d.step l = some d') :
    (∃ u, d.update l = some u ∧ d'.snapshots = (d.perform u).snapshots)
      ∨ d.update l = none ∧ (∀ i, l ≠ .call i .clear) ∧ d'.snapshots = d.snapshots
      ∨ d.update l = none ∧ (∃ i, l = .call i .clear) ∧ d'.snapshots = ∅ := by
  cases move_of_step hstep with
  | @call i l _ move =>
    cases move with
    | @insert name list at_ => exact .inl ⟨.insert name list, by rw [update, at_], rfl⟩
    | clear at_ => exact .inr (.inr ⟨rfl, ⟨i, rfl⟩, rfl⟩)
    | _ => exact .inr (.inl ⟨rfl, by simp, rfl⟩)
  | @task k t l _ ht move =>
    cases move with
    | @apply stream event at_ =>
      exact .inl ⟨.applyEvent t.name event, by simp [update, ht, WatchTask.taken, at_], rfl⟩
    | @reset stream latest at_ =>
      exact .inl ⟨.applyEvent t.name (.reset latest), by simp [update, ht, WatchTask.latest, at_],
        rfl⟩
    | _ => exact .inr (.inl ⟨rfl, by simp, rfl⟩)
  | apply name event => exact .inl ⟨.applyEvent name event, rfl, rfl⟩
  | _ => exact .inr (.inl ⟨rfl, by simp, rfl⟩)

/-- A list on its way into the snapshots has been carried along, or has just been obtained. -/
theorem inserting_of_step (hstep : d.step l = some d') {i : ℕ}
    (hi : d'.calls i = .inserting name list) :
    d.calls i = .inserting name list ∨ d.obtains l = some (name, list) := by
  by_cases hown : ∃ l', l = .call i l'
  · obtain ⟨l, rfl⟩ := hown
    cases callMove_of_callStep hstep with
    | listed _ at_ | recovered at_ => exact .inr (by simpa [obtains, at_] using hi)
    | _ => simp at hi
  · rcases call_of_foreign_step hstep (not_exists.mp hown) with hsame | hdrop
    · exact .inl (hsame ▸ hi)
    · exact absurd (hi.symm.trans hdrop) (by simp)

theorem resetting_of_step (hstep : d.step l = some d') {k : ℕ} {t' : WatchTask}
    (ht' : d'.tasks k = some t') (hlist : t'.pending = some (.reset list)) :
    (∃ t, d.tasks k = some t ∧ t.name = t'.name ∧ t.pending = some (.reset list))
      ∨ d.obtains l = some (t'.name, list) := by
  by_cases hown : ∃ l', l = .task k l'
  · obtain ⟨l, rfl⟩ := hown
    obtain ⟨t, ht, hmove⟩ := Option.bind_eq_some_iff.mp hstep
    cases taskMove_of_taskStep hmove with
    | listed latest at_ =>
      obtain rfl : _ = t' := by simpa using ht'
      obtain rfl : latest = list := by simpa [WatchTask.pending] using hlist
      exact .inr (by simp [obtains, ht])
    | event event at_ =>
      obtain rfl : _ = t' := by simpa using ht'
      obtain rfl : event = .reset list := by simpa [WatchTask.pending] using hlist
      exact .inr (by simp [obtains, ht, ServiceEvent.listing])
    | _ =>
      obtain rfl : _ = t' := by simpa using ht'
      simp [WatchTask.pending] at hlist
  · rcases task_of_foreign_step hstep ht' (not_exists.mp hown) with ht | ⟨hentering, -⟩
    · exact .inl ⟨t', ht, rfl, hlist⟩
    · simp [WatchTask.pending, hentering] at hlist

/-- The updates: a load inserts the list it carries, a task applies the event or the listing it
carries, and anybody else applies an event. -/
inductive Updates (d : ServiceDirectory) : DirectoryLabel → SnapshotUpdate → Prop
  | insert {i : ℕ} {name : String} {list : List ServiceInstance}
      (at_ : d.calls i = .inserting name list) : Updates d (.call i .insert) (.insert name list)
  | taken {k : ℕ} {t : WatchTask} {event : ServiceEvent} (task : d.tasks k = some t)
      (taken_ : t.taken = some event) : Updates d (.task k .apply) (.applyEvent t.name event)
  | reset {k : ℕ} {t : WatchTask} {latest : List ServiceInstance} (task : d.tasks k = some t)
      (latest_ : t.latest = some latest) :
      Updates d (.task k .reset) (.applyEvent t.name (.reset latest))
  | apply (name : String) (event : ServiceEvent) :
      Updates d (.apply name event) (.applyEvent name event)

theorem updates_of_update {u : SnapshotUpdate} (h : d.update l = some u) : Updates d l u := by
  unfold update at h
  split at h
  case h_1 i =>
    split at h
    case h_1 at_ =>
      obtain rfl := Option.some.inj h
      exact .insert at_
    case h_2 => cases h
  case h_2 k =>
    obtain ⟨t, ht, h⟩ := Option.bind_eq_some_iff.mp h
    obtain ⟨event, htaken, rfl⟩ := Option.map_eq_some_iff.mp h
    exact .taken ht htaken
  case h_3 k =>
    obtain ⟨t, ht, h⟩ := Option.bind_eq_some_iff.mp h
    obtain ⟨latest, hlatest, rfl⟩ := Option.map_eq_some_iff.mp h
    exact .reset ht hlatest
  case h_4 name event =>
    obtain rfl := Option.some.inj h
    exact .apply name event
  case h_5 => cases h

/-- A step with an update is enabled. -/
theorem isSome_step_of_update {u : SnapshotUpdate} (h : d.update l = some u) :
    (d.step l).isSome := by
  cases updates_of_update h with
  | insert at_ => simp [step, at_, callStep]
  | taken task taken_ =>
    obtain ⟨stream, at_⟩ := WatchTask.taken_eq_some.mp taken_
    simp [step, task, at_, taskStep]
  | reset task latest_ =>
    obtain ⟨stream, at_⟩ := WatchTask.latest_eq_some.mp latest_
    simp [step, task, at_, taskStep]
  | apply name event => rfl

theorem not_call_of_update (h : d.update l = some (.applyEvent name event)) (i : ℕ)
    (l' : CallLabel) : l ≠ .call i l' := by
  rintro rfl
  cases updates_of_update h

/-- What an event makes of the list in the snapshot is handed over. -/
theorem handsOver_of_update (h : d.update l = some (.applyEvent name event)) :
    d.handsOver l = some (name, newList (d.getInstances name) event) := by
  unfold handsOver
  split
  case h_1 i list => exact absurd rfl (not_call_of_update h i _)
  case h_2 => rw [h]

/-- Nothing else is, but the listing of a load. -/
theorem handsOver_eq_some {p : String × List ServiceInstance} (h : d.handsOver l = some p) :
    (∃ i l', l = .call i l') ∧ d.obtains l = some p
      ∨ ∃ name event, d.update l = some (.applyEvent name event) := by
  unfold handsOver at h
  split at h
  case h_1 i list => exact .inl ⟨⟨i, _, rfl⟩, h⟩
  case h_2 =>
    split at h
    case h_1 name event hu => exact .inr ⟨name, event, hu⟩
    case h_2 => cases h

/-! ## Following the lists -/

/-- A list handed to `persist_to_disk`, and what is known of where it comes from. -/
structure Persisted where
  name : String
  list : List ServiceInstance
  origin : Option Origin
deriving DecidableEq

/-- The directory, the full listings obtained so far, the origin of each snapshot, and the lists
handed over so far. -/
structure Provenance where
  directory : ServiceDirectory
  listings : List (String × List ServiceInstance)
  origin : String → Option Origin
  persisted : List Persisted

namespace Provenance

variable {a b : Provenance}

def start (diskCache : Bool) (disk : Disk) : Provenance :=
  ⟨withOptions diskCache disk, [], fun _ => none, []⟩

/-- The origins after a step. -/
def trace (a : Provenance) (l : DirectoryLabel) : String → Option Origin :=
  match a.directory.update l with
  | some u => Origin.follow a.origin u
  | none =>
      match l with
      | .call _ .clear => fun _ => none
      | _ => a.origin

/-- The list a step hands over, with the origin it has then. -/
def handsOver (a : Provenance) (l : DirectoryLabel) : Option Persisted :=
  (a.directory.handsOver l).map fun p =>
    ⟨p.1, p.2,
      match l with
      | .call _ _ => some (.full p.2)
      | _ => a.trace l p.1⟩

def step (a : Provenance) (l : DirectoryLabel) : Option Provenance :=
  (a.directory.step l).map fun d =>
    ⟨d, a.listings ++ (a.directory.obtains l).toList, a.trace l,
      a.persisted ++ (a.handsOver l).toList⟩

/-- Every list handed over is a full listing of its service, obtained before, with the events
applied to it since. -/
def Complete (a : Provenance) : Prop :=
  ∀ p ∈ a.persisted, ∃ o, p.origin = some o ∧ (p.name, o.listing) ∈ a.listings ∧ p.list = o.list

/-- An upsert or a delete is applied to a service that has a snapshot. -/
def Grounded (a : Provenance) (l : DirectoryLabel) : Prop :=
  ∀ name event, a.directory.update l = some (.applyEvent name event) →
    event.Resets ∨ name ∈ a.directory.snapshots

theorem trace_of_update {event : ServiceEvent}
    (h : a.directory.update l = some (.applyEvent name event)) :
    a.trace l = Function.update a.origin name (Origin.applied (a.origin name) event) := by
  simp only [trace, h, Origin.follow]

theorem handsOver_of_update {event : ServiceEvent}
    (h : a.directory.update l = some (.applyEvent name event)) :
    a.handsOver l = some ⟨name, newList (a.directory.getInstances name) event,
      Origin.applied (a.origin name) event⟩ := by
  rw [handsOver, ServiceDirectory.handsOver_of_update h, Option.map_some]
  split
  case h_1 i l' => exact absurd rfl (not_call_of_update h i l')
  case h_2 => rw [trace_of_update h, Function.update_self]

/-! ## What is known of a provenance -/

/-- What is traced has a snapshot. -/
def Known (a : Provenance) : Prop := ∀ name, a.origin name ≠ none → name ∈ a.directory.snapshots

/-- Every list is traced: the snapshots to their origins, what is carried along to a listing. -/
structure Traced (a : Provenance) : Prop where
  snapshots : ∀ name, a.directory.snapshots.lookup name = (a.origin name).map Origin.list
  origin : ∀ name o, a.origin name = some o → (name, o.listing) ∈ a.listings
  calls : ∀ i name list, a.directory.calls i = .inserting name list → (name, list) ∈ a.listings
  tasks : ∀ k t list, a.directory.tasks k = some t → t.pending = some (.reset list) →
    (t.name, list) ∈ a.listings
  complete : Complete a

theorem step_eq_some : a.step l = some b ↔ a.directory.step l = some b.directory
    ∧ b.listings = a.listings ++ (a.directory.obtains l).toList ∧ b.origin = a.trace l
    ∧ b.persisted = a.persisted ++ (a.handsOver l).toList := by
  rw [step, Option.map_eq_some_iff]
  constructor
  · rintro ⟨d, hd, rfl⟩
    exact ⟨hd, rfl, rfl, rfl⟩
  · rintro ⟨hd, hlistings, horigin, hpersisted⟩
    exact ⟨b.directory, hd, by rw [← hlistings, ← horigin, ← hpersisted]⟩

/-- **A step updates a snapshot and its origin, or neither, or clears them all.** -/
theorem trace_of_step (hstep : a.step l = some b) :
    (∃ u, a.directory.update l = some u ∧ b.directory.snapshots = (a.directory.perform u).snapshots
        ∧ b.origin = Origin.follow a.origin u)
      ∨ a.directory.update l = none ∧ b.directory.snapshots = a.directory.snapshots
        ∧ b.origin = a.origin
      ∨ a.directory.update l = none ∧ b.directory.snapshots = ∅ ∧ b.origin = fun _ => none := by
  obtain ⟨hd, -, horigin, -⟩ := step_eq_some.mp hstep
  rcases snapshots_of_step hd with ⟨u, hu, hsnap⟩ | ⟨hu, hl, hsnap⟩ | ⟨hu, ⟨i, rfl⟩, hsnap⟩
  · exact .inl ⟨u, hu, hsnap, by simp only [horigin, trace, hu]⟩
  · refine .inr (.inl ⟨hu, hsnap, ?_⟩)
    rw [horigin, trace, hu]
    exact hl
  · exact .inr (.inr ⟨hu, hsnap, by rw [horigin, trace, hu]⟩)

theorem Known.step (h : Known a) (hstep : a.step l = some b) : Known b := by
  intro name hname
  rcases trace_of_step hstep with ⟨u, -, hsnap, horigin⟩ | ⟨-, hsnap, horigin⟩ | ⟨-, hsnap, horigin⟩
  · rw [hsnap, ← Finmap.lookup_isSome]
    by_cases heq : name = u.name
    · rw [heq, snapshots_perform, SnapshotUpdate.lookup_closure]
      rfl
    · rw [lookup_perform_of_ne _ heq, Finmap.lookup_isSome]
      rw [horigin, Origin.follow_of_ne heq] at hname
      exact h name hname
  · rw [horigin] at hname
    exact hsnap ▸ h name hname
  · exact absurd (by rw [horigin]) hname

/-- An event applied to a traced list, if it is a reset or there is a list. -/
theorem applied_map_list {o : Option Origin} {found : Option (List ServiceInstance)}
    (h : found = o.map Origin.list) {event : ServiceEvent} (hevent : event.Resets ∨ o.isSome) :
    some (newList (found.getD []) event) = (Origin.applied o event).map Origin.list := by
  cases event with
  | reset all => rfl
  | _ =>
    obtain ⟨o, rfl⟩ := Option.isSome_iff_exists.mp (hevent.resolve_left id)
    rw [h]
    exact congrArg some (listAfter_snoc _ _ _).symm

/-- An event that a grounded step applies finds an origin, or is a reset. -/
theorem Traced.grounded (h : Traced a) (hl : Grounded a l) {name : String} {event : ServiceEvent}
    (hu : a.directory.update l = some (.applyEvent name event)) :
    event.Resets ∨ (a.origin name).isSome := by
  refine (hl name event hu).imp_right fun hmem => ?_
  rwa [← Finmap.lookup_isSome, h.snapshots, Option.isSome_map] at hmem

/-- A grounded step keeps the snapshots traced. -/
theorem Traced.snapshots_step (h : Traced a) (hl : Grounded a l) (hstep : a.step l = some b)
    (name : String) : b.directory.snapshots.lookup name = (b.origin name).map Origin.list := by
  rcases trace_of_step hstep with
    ⟨u, hu, hsnap, horigin⟩ | ⟨-, hsnap, horigin⟩ | ⟨-, hsnap, horigin⟩
  · rw [hsnap, horigin]
    by_cases heq : name = u.name
    · subst heq
      rw [snapshots_perform, SnapshotUpdate.lookup_closure]
      cases u with
      | insert name list => simp [Origin.follow, SnapshotUpdate.name]; rfl
      | applyEvent name event =>
        rw [Origin.follow, SnapshotUpdate.name, Function.update_self]
        exact applied_map_list (h.snapshots name) (h.grounded hl hu)
    · rw [lookup_perform_of_ne _ heq, Origin.follow_of_ne heq, h.snapshots]
  · rw [hsnap, horigin, h.snapshots]
  · rw [hsnap, horigin]
    rfl

theorem mem_listings_of_step (hstep : a.step l = some b) {p : String × List ServiceInstance}
    (hp : p ∈ a.listings ∨ a.directory.obtains l = some p) : p ∈ b.listings := by
  obtain ⟨-, hlistings, -, -⟩ := step_eq_some.mp hstep
  rw [hlistings, List.mem_append, Option.mem_toList]
  exact hp

/-- A full listing that enters the snapshots has been obtained. -/
theorem Traced.mem_of_update (h : Traced a) (hstep : a.step l = some b) {name : String}
    {list : List ServiceInstance} (hu : a.directory.update l = some (.insert name list)
      ∨ a.directory.update l = some (.applyEvent name (.reset list))) :
    (name, list) ∈ b.listings := by
  refine mem_listings_of_step hstep ?_
  rcases hu with hu | hu
  · cases updates_of_update hu with
    | insert at_ => exact .inl (h.calls _ _ _ at_)
  · cases updates_of_update hu with
    | taken task taken_ =>
      obtain ⟨stream, at_⟩ := WatchTask.taken_eq_some.mp taken_
      exact .inl (h.tasks _ _ _ task (by rw [WatchTask.pending, at_]))
    | reset task latest_ =>
      obtain ⟨stream, at_⟩ := WatchTask.latest_eq_some.mp latest_
      exact .inl (h.tasks _ _ _ task (by rw [WatchTask.pending, at_]))
    | apply => exact .inr rfl

/-- A snapshot is traced to a listing obtained by now. -/
theorem Traced.origin_step (h : Traced a) (hstep : a.step l = some b) (name : String) (o : Origin)
    (ho : b.origin name = some o) : (name, o.listing) ∈ b.listings := by
  rcases trace_of_step hstep with ⟨u, hu, -, horigin⟩ | ⟨-, -, horigin⟩ | ⟨-, -, horigin⟩
  · rw [horigin] at ho
    by_cases heq : name = u.name
    · subst heq
      rcases Origin.listing_of_follow ho with hins | hreset | ⟨o', ho', hlisting⟩
      · exact h.mem_of_update hstep (.inl (hu.trans (congrArg some hins)))
      · exact h.mem_of_update hstep (.inr (hu.trans (congrArg some hreset)))
      · exact mem_listings_of_step hstep (.inl (hlisting ▸ h.origin _ o' ho'))
    · rw [Origin.follow_of_ne heq] at ho
      exact mem_listings_of_step hstep (.inl (h.origin name o ho))
  · exact mem_listings_of_step hstep (.inl (h.origin name o (horigin ▸ ho)))
  · cases horigin ▸ ho

/-- What a grounded step hands over is traced. -/
theorem Traced.handsOver_step (h : Traced a) (hl : Grounded a l) (hstep : a.step l = some b)
    {p : Persisted} (hp : a.handsOver l = some p) :
    ∃ o, p.origin = some o ∧ (p.name, o.listing) ∈ b.listings ∧ p.list = o.list := by
  obtain ⟨q, hover, hq⟩ := Option.map_eq_some_iff.mp hp
  rcases handsOver_eq_some hover with ⟨⟨i, l', rfl⟩, hobtains⟩ | ⟨name, event, hu⟩
  · obtain rfl := hq
    exact ⟨.full q.2, rfl, mem_listings_of_step hstep (.inr hobtains), rfl⟩
  · obtain rfl := Option.some.inj (hp.symm.trans (handsOver_of_update hu))
    obtain ⟨o, ho, hlist⟩ := Option.map_eq_some_iff.mp
      (applied_map_list (h.snapshots name) (h.grounded hl hu)).symm
    have horigin : b.origin name = some o := by
      rw [(step_eq_some.mp hstep).2.2.1, trace_of_update hu, Function.update_self, ho]
    exact ⟨o, ho, h.origin_step hstep name o horigin, hlist.symm⟩

/-- **A grounded step keeps everything traced.** -/
theorem Traced.step (h : Traced a) (hl : Grounded a l) (hstep : a.step l = some b) : Traced b where
  snapshots := h.snapshots_step hl hstep
  origin := h.origin_step hstep
  calls i name list hi := mem_listings_of_step hstep
    ((inserting_of_step (step_eq_some.mp hstep).1 hi).imp_left (h.calls i name list))
  tasks k t' list ht' hlist := mem_listings_of_step hstep <| by
    refine (resetting_of_step (step_eq_some.mp hstep).1 ht' hlist).imp_left ?_
    rintro ⟨t, ht, hname, hpending⟩
    exact hname ▸ h.tasks k t list ht hpending
  complete p hp := by
    rw [(step_eq_some.mp hstep).2.2.2, List.mem_append, Option.mem_toList] at hp
    rcases hp with hp | hp
    · obtain ⟨o, ho, hmem, hlist⟩ := h.complete p hp
      exact ⟨o, ho, mem_listings_of_step hstep (.inl hmem), hlist⟩
    · exact h.handsOver_step hl hstep hp

/-- An event that is not grounded is handed over without an origin. -/
theorem Known.incomplete (h : Known a) (hl : ¬ Grounded a l) :
    ∃ b, a.step l = some b ∧ ¬ Complete b := by
  simp only [Grounded, not_forall, not_or] at hl
  obtain ⟨name, event, hu, hresets, hmem⟩ := hl
  obtain ⟨d, hd⟩ := Option.isSome_iff_exists.mp (isSome_step_of_update hu)
  obtain ⟨b, hstep⟩ : ∃ b, a.step l = some b :=
    ⟨_, (congrArg (Option.map _) hd).trans (Option.map_some ..)⟩
  refine ⟨b, hstep, fun hcomplete => ?_⟩
  obtain ⟨o, ho, -⟩ := hcomplete _ <| by
    rw [(step_eq_some.mp hstep).2.2.2, handsOver_of_update hu]
    exact List.mem_append_right _ (List.mem_singleton_self _)
  have hnone : a.origin name = none := by_contra fun hne => hmem (h name hne)
  cases event with
  | reset all => exact hresets trivial
  | _ => simp [hnone, Origin.applied] at ho

theorem known_start (diskCache : Bool) (disk : Disk) : Known (start diskCache disk) :=
  fun _ h => absurd rfl h

theorem traced_start (diskCache : Bool) (disk : Disk) : Traced (start diskCache disk) := by
  constructor <;> simp [start, withOptions, Complete]

/-- **Only complete topologies are handed over, exactly**, in the runs in which every upsert and
every delete finds a snapshot. -/
theorem complete_iff (diskCache : Bool) (disk : Disk) (w : List DirectoryLabel) :
    EachState step Complete (start diskCache disk) w
      ↔ EachStep step Grounded (start diskCache disk) w := by
  constructor
  · exact eachStep_of_eachState (D := fun _ _ => True) (fun _ _ _ h _ hstep => h.step hstep)
      (fun _ _ h _ hl => h.incomplete hl) (known_start diskCache disk)
      (eachStep_of_forall_mem fun _ _ => trivial)
  · exact fun hw => (eachState_of_invariant (fun _ _ _ h hl hstep => h.step hl hstep)
      (traced_start diskCache disk) hw).imp fun _ h => h.complete

/-- The process itself, and another instance. -/
def itself : ServiceInstance := .simple "order-svc" "127.0.0.1" 8080

def other : ServiceInstance := .simple "order-svc" "127.0.0.2" 8080

/-- What an earlier process has left on disk. -/
def bothOnDisk : Disk := ⟨some, (∅ : HashMap String _).insert "order-svc" [itself, other]⟩

/-- The process registers before it has loaded the service, and its list is written. -/
def registering : List DirectoryLabel := [.apply "order-svc" (.upsert itself), .persist 0 true]

/-- **A topology lost.**  The two instances an earlier process has left on disk are replaced by
one. -/
theorem topology_lost : ¬ ∀ disk w, EachState step Complete (start true disk) w := by
  intro h
  obtain ⟨a, ha⟩ : ∃ a, run step (start true bothOnDisk) registering = some a := ⟨_, rfl⟩
  have hcomplete := (h _ registering).last ha
  obtain rfl := Option.some.inj ha
  obtain ⟨o, ho, -⟩ := hcomplete ⟨"order-svc", [itself], none⟩ (by decide)
  cases ho

example : (run step (start true bothOnDisk) registering).map (·.directory.disk.load "order-svc")
    = some (some [itself]) := by decide

end Provenance

end ServiceDirectory

end PecsRegistry
