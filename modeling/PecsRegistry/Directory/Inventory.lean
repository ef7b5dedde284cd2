import PecsRegistry.Directory.Moves

/-!
# Directory/Inventory — a property of every list the directory holds

A list reaches the snapshot of a service from a listing, from the disk, or as what an event makes of
the list before.  So a property `G` of lists, for each service, is kept by the directory (`Holds`)
where every step brings in only lists that have it and events that keep it (`Admits`).
-/

namespace PecsRegistry

namespace ServiceDirectory

variable {G : String → List ServiceInstance → Prop} {d d' : ServiceDirectory} {i k : ℕ}

/-- The event makes lists with `G` out of lists with `G`. -/
def Keeps (G : String → List ServiceInstance → Prop) (name : String) (event : ServiceEvent) :
    Prop := ∀ list, G name list → G name (newList list event)

/-- Every list stored, or about to be stored, has the property `G` of its service; the events about
to be applied keep it. -/
structure Holds (G : String → List ServiceInstance → Prop) (d : ServiceDirectory) : Prop where
  snapshots : ∀ name list, d.snapshots.lookup name = some list → G name list
  calls : ∀ i name list, d.calls i = .inserting name list → G name list
  tasks : ∀ k t event, d.tasks k = some t → t.pending = some event → Keeps G t.name event

/-- What a step brings in from outside has the property, or keeps it. -/
def Admits (G : String → List ServiceInstance → Prop) (d : ServiceDirectory) :
    DirectoryLabel → Prop
  | .call i (.listed (.ok list)) => ∀ name, d.calls i = .listing name → G name list
  | .call i (.recovered (some list)) => ∀ name err, d.calls i = .recovering name err → G name list
  | .task k (.listed (.ok latest)) => ∀ t ∈ d.tasks k, G t.name latest
  | .task k (.next (some event)) => ∀ t ∈ d.tasks k, Keeps G t.name event
  | .apply name event => Keeps G name event
  | _ => True

theorem holds_withOptions (diskCache : Bool) (disk : Disk) :
    Holds G (withOptions diskCache disk) := by
  constructor <;> simp [withOptions]

theorem Holds.getInstances (h : Holds G d) (hnil : ∀ name, G name []) (name : String) :
    G name (d.getInstances name) := by
  rw [ServiceDirectory.getInstances]
  cases hl : d.snapshots.lookup name with
  | none => exact hnil name
  | some list => exact h.snapshots name list hl

/-- A call moves, and nothing else that holds a list. -/
theorem Holds.move (h : Holds G d) {s : CallState} (hsnapshots : d'.snapshots = d.snapshots)
    (htasks : d'.tasks = d.tasks) (hcalls : d'.calls = Function.update d.calls i s)
    (hs : ∀ name list, s = .inserting name list → G name list) : Holds G d' := by
  refine ⟨hsnapshots ▸ h.snapshots, fun j name list hj => ?_, htasks ▸ h.tasks⟩
  rw [hcalls, Function.update_apply] at hj
  split_ifs at hj
  · exact hs name list hj
  · exact h.calls j name list hj

theorem Holds.setTask (h : Holds G d) {t : WatchTask}
    (ht : ∀ event, t.pending = some event → Keeps G t.name event) : Holds G (d.setTask k t) := by
  refine { h with tasks := fun k' t' event ht' hpending => ?_ }
  rcases Transition.update_eq_some.mp ht' with ⟨-, rfl⟩ | ⟨-, hold⟩
  · exact ht event hpending
  · exact h.tasks k' t' event hold hpending

theorem Holds.store (h : Holds G d) {name : String} {list : List ServiceInstance}
    (hl : G name list) : Holds G (d.store name list) := by
  refine { h with snapshots := fun name' list' hlist => ?_ }
  rw [store_snapshots, HashMap.lookup_insert] at hlist
  split_ifs at hlist with hname
  · obtain rfl := Option.some.inj hlist
    exact hname ▸ hl
  · exact h.snapshots name' list' hlist

theorem Holds.applyEvent (h : Holds G d) (hnil : ∀ name, G name []) {name : String}
    {event : ServiceEvent} (hevent : Keeps G name event) : Holds G (d.applyEvent name event) :=
  { h.store (hevent _ (h.getInstances hnil name)) with }

theorem Holds.callMove (h : Holds G d) {l : CallLabel} (hl : d.Admits G (.call i l))
    (move : CallMove d i l d') : Holds G d' := by
  cases move with
  | listed list at_ =>
    refine h.move rfl rfl rfl fun name' list' heq => ?_
    obtain ⟨rfl, rfl⟩ := CallState.inserting.inj heq
    exact hl _ at_
  | recovered at_ cached onDisk =>
    refine h.move rfl rfl rfl fun name' list' heq => ?_
    obtain ⟨rfl, rfl⟩ := CallState.inserting.inj heq
    exact hl _ _ at_
  | insert at_ => exact (h.store (h.calls i _ _ at_)).move rfl rfl rfl (by simp)
  | @subscribed name _ token result at_ =>
    have hspawned : Holds G (d.setTask d.nextTask ⟨name, token, result.toOption, 1, .entering⟩) :=
      h.setTask (by simp [WatchTask.pending])
    exact hspawned.move rfl rfl rfl (by simp)
  | clear at_ =>
    have hcleared : Holds G { d with snapshots := ∅ } :=
      { h with snapshots := fun _ _ hlist => by simp at hlist }
    exact hcleared.move rfl rfl rfl (by simp)
  | _ => exact h.move rfl rfl rfl (by simp)

theorem Holds.taskMove (h : Holds G d) (hnil : ∀ name, G name []) {t : WatchTask} {l : TaskLabel}
    (hl : d.Admits G (.task k l)) (ht : d.tasks k = some t) (move : TaskMove d k t l d') :
    Holds G d' := by
  cases move with
  | event event at_ =>
    refine h.setTask fun event' hpending => ?_
    obtain rfl : event = event' := Option.some.inj hpending
    exact hl t ht
  | listed latest at_ =>
    refine h.setTask fun event' hpending => ?_
    obtain rfl : .reset latest = event' := Option.some.inj hpending
    exact fun _ _ => hl t ht
  | @apply stream event at_ =>
    have hpending : Keeps G t.name event := h.tasks k t event ht (by rw [WatchTask.pending, at_])
    exact (h.applyEvent hnil hpending).setTask (by simp [WatchTask.pending])
  | @reset stream latest at_ =>
    have hpending : Keeps G t.name (.reset latest) :=
      h.tasks k t _ ht (by rw [WatchTask.pending, at_])
    exact (h.applyEvent hnil hpending).setTask (by simp [WatchTask.pending])
  | _ => exact h.setTask (by simp [WatchTask.pending])

/-- **The directory keeps what it is given.** -/
theorem Holds.step (h : Holds G d) (hnil : ∀ name, G name []) {l : DirectoryLabel}
    (hl : d.Admits G l) (hstep : d.step l = some d') : Holds G d' := by
  cases move_of_step hstep with
  | call move => exact h.callMove hl move
  | drop suspended => exact h.move rfl rfl rfl (by simp)
  | task ht move => exact h.taskMove hnil hl ht move
  | apply name event => exact h.applyEvent hnil hl
  | persist written pending => exact { h with }

end ServiceDirectory

end PecsRegistry
