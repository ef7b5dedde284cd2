import PecsRegistry.Discover.Binding
import PecsRegistry.Directory.Snapshot

/-!
# Discover/Tower — the change stream of `discover_stream`

The listener compares the ids of successive lists: it removes the ids that have gone and inserts the
instances whose ids are new.  An id that stays is left alone, whatever has become of its instance.

* `completes_iff` — the initial sends are awaited while the only receiver is still local: the
  function returns if and only if they fit into the channel.
* `replays_iff` — the changes replay to the snapshot as long as no event updates an instance in
  place.
-/

namespace PecsRegistry

open Transition Writes

/-- An instance as a change. -/
def insertChange (inst : ServiceInstance) : Change ServiceInstance := .insert inst.serviceId inst

/-- The binding of `discover_stream`: what it knows is a set of ids. -/
def tower : Binding (Finset String) ServiceInstance where
  handsOver := false
  initial instances := instances.map insertChange
  known := serviceIds
  keys known := known
  changes known order instances :=
    (order.filter (· ∉ serviceIds instances)).map .remove
      ++ (instances.filter (·.serviceId ∉ known)).map insertChange
  next := serviceIds

variable {l : List ServiceInstance} {m : String → Option ServiceInstance}

/-- Insertions of one id overwrite one another: the last one counts. -/
theorem applyChanges_insertions (l : List ServiceInstance) (m : String → Option ServiceInstance)
    (id : String) : applyChanges (l.map insertChange) m id = (byId l.reverse id).or (m id) := by
  induction l generalizing m with
  | nil => rfl
  | cons inst l ih =>
    rw [List.map_cons, insertChange, applyChanges_insert, ih, List.reverse_cons, byId_append,
      byId_cons, Option.or_assoc, Function.update_apply]
    by_cases h : id = inst.serviceId
    · rw [if_pos h, if_pos h.symm, Option.some_or]
    · rw [if_neg h, if_neg (Ne.symm h)]
      exact congrArg _ Option.none_or.symm

/-! ## One notification -/

/-- **What a notification makes of an id**: gone with its id, kept with what it has, new with the
last instance of its id. -/
theorem tower_changes {known : Finset String} {order : List String}
    (horder : order.toFinset = known) (hknown : ∀ id, (m id).isSome ↔ id ∈ known) (id : String) :
    applyChanges (tower.changes known order l) m id
      = if id ∈ serviceIds l then (m id).or (byId l.reverse id) else none := by
  rw [tower, applyChanges_append, applyChanges_insertions, applyChanges_removals,
    ← List.filter_reverse, byId_filter_ids (· ∉ known)]
  have hmem : id ∈ order ↔ id ∈ known := by rw [← horder, List.mem_toFinset]
  by_cases hid : id ∈ known
  · obtain ⟨inst, hm⟩ := Option.isSome_iff_exists.mp ((hknown id).mpr hid)
    by_cases hl : id ∈ serviceIds l <;> simp [hmem, hid, hl, hm]
  · have hm : m id = none := Option.not_isSome_iff_eq_none.mp (mt (hknown id).mp hid)
    by_cases hl : id ∈ serviceIds l
    · simp [hid, hl, hm]
    · have hnone : byId l.reverse id = none := by
        rwa [← Option.not_isSome_iff_eq_none, isSome_byId, serviceIds_reverse]
      simp [hid, hl, hm, hnone]

theorem tower_knows_initial (l : List ServiceInstance) :
    Discovery.Knows tower l (tower.known l) (fold (tower.initial l)) := by
  intro id
  have hfold : fold (tower.initial l) id = byId l.reverse id :=
    (applyChanges_insertions l _ id).trans Option.or_none
  rw [hfold, isSome_byId, serviceIds_reverse]
  rfl

theorem tower_knows_kept :
    Discovery.KeptByNotification tower (Discovery.Knows tower) fun _ _ => True := by
  intro instances event known order m hknown _ horder id
  have horder' : order.toFinset = known := horder
  rw [tower_changes horder' hknown]
  split_ifs with hid
  · have hsome : (byId (newList instances event).reverse id).isSome := by
      rwa [isSome_byId, serviceIds_reverse]
    rw [Option.isSome_or, hsome, Bool.or_true]
    exact iff_of_true rfl hid
  · exact iff_of_false (by simp) hid

/-! ## The initial sends -/

/-- The steps of `discover_stream` itself, before anybody receives, lead to its return. -/
def Completes (directory : ServiceDirectory) (svcName : String) : Prop :=
  ∃ w s, (∀ l ∈ w, l = .send ∨ l = .install)
    ∧ run (Discovery.step tower) (.start tower directory svcName) w = some s ∧ s.state = .listening

/-- What is received is the initial instances in list order, then later changes. -/
def InitialFirst (directory : ServiceDirectory) (svcName : String) : Prop :=
  ∀ w s, run (Discovery.step tower) (.start tower directory svcName) w = some s →
    s.channel.received <+: (directory.getInstances svcName).map insertChange
      ∨ (directory.getInstances svcName).map insertChange <+: s.channel.received

theorem initialFirst (directory : ServiceDirectory) (svcName : String) :
    InitialFirst directory svcName := by
  intro w s hrun
  have hopens : s.Opens (tower.initial (directory.getInstances svcName)) :=
    preserved_run (fun _ _ _ h hstep => h.step hstep)
      (Discovery.opens_start tower directory svcName) hrun
  exact hopens.received

theorem length_le_of_completes {directory : ServiceDirectory} {svcName : String}
    (h : Completes directory svcName) :
    (directory.getInstances svcName).length ≤ discoverCapacity := by
  obtain ⟨w, s, hw, hrun, hend⟩ := h
  simpa [tower] using Discovery.length_le_of_run hw hrun hend

/-- **`discover_stream` returns, exactly**, when its initial instances fit into the channel; what
its receiver then yields begins with them, in list order. -/
theorem completes_iff (directory : ServiceDirectory) (svcName : String) :
    Completes directory svcName ∧ InitialFirst directory svcName
      ↔ (directory.getInstances svcName).length ≤ discoverCapacity := by
  refine ⟨fun h => length_le_of_completes h.1, fun h => ⟨?_, initialFirst directory svcName⟩⟩
  refine Discovery.exists_run_of_length_le rfl ?_
  simpa [Discovery.start, tower, Channel.empty] using h

/-- A directory whose snapshot lists `n` order services. -/
def crowd (n : ℕ) : ServiceDirectory :=
  (ServiceDirectory.withOptions false ∅).store "order-svc"
    ((List.range n).map fun k => .simple "order-svc" ("10.0.0." ++ toString k) 8080)

/-- **A crowded service.**  With sixty-five instances the last send waits for a receiver that
nobody can reach yet. -/
theorem crowd_never_returns :
    ¬ ∀ directory svcName, Completes directory svcName ∧ InitialFirst directory svcName := by
  intro h
  have hlen := length_le_of_completes (h (crowd 65) "order-svc").1
  simp [crowd, ServiceDirectory.getInstances, discoverCapacity] at hlen

/-! ## Replaying the changes -/

/-- The instances an event brings. -/
def ServiceEvent.brings : ServiceEvent → List ServiceInstance
  | .upsert inst => [inst]
  | .delete .. => []
  | .reset all => all

/-- The event brings another instance for an id of the list. -/
def ServiceEvent.Alters (event : ServiceEvent) (list : List ServiceInstance) : Prop :=
  ∃ inst ∈ event.brings, ∃ i ∈ list, i.serviceId = inst.serviceId ∧ i ≠ inst

instance (event : ServiceEvent) (list : List ServiceInstance) : Decidable (event.Alters list) :=
  inferInstanceAs (Decidable (∃ inst ∈ event.brings, ∃ i ∈ list, _))

/-- Read on maps: an id keeps its place with another instance. -/
theorem alters_iff (hl : Distinct l) {event : ServiceEvent} (hevent : event.Distinct) :
    event.Alters l ↔ ∃ id i j, byId l id = some i ∧ byId (newList l event) id = some j ∧ i ≠ j := by
  constructor
  · rintro ⟨inst, hinst, i, hi, hid, hne⟩
    refine ⟨inst.serviceId, i, inst, hl.byId_eq_some.mpr ⟨hi, hid⟩, ?_, hne⟩
    cases event with
    | upsert inst' =>
      obtain rfl := List.mem_singleton.mp hinst
      rw [newList_byId, ServiceEvent.write, Write.apply_put, Function.update_self]
    | delete name id => simp [ServiceEvent.brings] at hinst
    | reset all => exact Distinct.byId_eq_some hevent |>.mpr ⟨hinst, rfl⟩
  · rintro ⟨id, i, j, hi, hj, hne⟩
    have hj' := hj
    obtain ⟨hmem, rfl⟩ := hl.byId_eq_some.mp hi
    rw [newList_byId] at hj
    cases event with
    | upsert inst =>
      rw [ServiceEvent.write, Write.apply_put, Function.update_apply] at hj
      split_ifs at hj with hid
      · obtain rfl := Option.some.inj hj
        exact ⟨_, List.mem_singleton_self _, i, hmem, hid, hne⟩
      · exact absurd (Option.some.inj (hi.symm.trans hj)) hne
    | delete name id =>
      rw [ServiceEvent.write, Write.apply_drop, Function.update_apply] at hj
      split_ifs at hj
      exact absurd (Option.some.inj (hi.symm.trans hj)) hne
    | reset all =>
      obtain ⟨hbrought, hid⟩ := (Distinct.byId_eq_some hevent).mp hj'
      exact ⟨j, hbrought, i, hmem, hid.symm, hne⟩

/-- The ids of the snapshot are distinct, and the listener knows those the consumer will hold. -/
def Keyed (list : List ServiceInstance) (known : Finset String)
    (m : String → Option ServiceInstance) : Prop :=
  Distinct list ∧ Discovery.Knows tower list known m

theorem keyed_kept :
    Discovery.KeptByNotification tower Keyed fun _ event => event.Distinct := by
  intro instances event known order m h hevent horder
  exact ⟨h.1.newList hevent, tower_knows_kept instances event known order m h.2 trivial horder⟩

namespace Discovery

variable {s s' : Discovery (Finset String) ServiceInstance}

/-- The changes emitted so far lead to the snapshot, whenever no notification is under way. -/
def Replays (s : Discovery (Finset String) ServiceInstance) : Prop :=
  s.state = .listening → fold s.channel.sent = byId s.snapshot

/-- The step updates an instance of the service in place. -/
def UpdatesInPlace (s : Discovery (Finset String) ServiceInstance) : DiscoverLabel → Prop
  | .apply name event _ => name = s.svcName ∧ event.Alters s.snapshot
  | _ => False

instance (s : Discovery (Finset String) ServiceInstance) : DecidablePred s.UpdatesInPlace
  | .apply name event _ =>
      inferInstanceAs (Decidable (name = s.svcName ∧ event.Alters s.snapshot))
  | .send | .install | .offer | .done | .receive => inferInstanceAs (Decidable False)

/-- **One notification replays, exactly**, when its event alters no instance that stays. -/
theorem outlook_notified_iff (hs : s.Tracks Keyed) {event : ServiceEvent} {order : List String}
    (hevent : event.Distinct) (hstep : s.step tower (.apply s.svcName event order) = some s')
    (hagree : s.outlook = byId s.snapshot) :
    s'.outlook = byId s'.snapshot ↔ ¬ event.Alters s.snapshot := by
  obtain ⟨-, horder, hsnapshot, -, houtlook⟩ := notified_of_step hstep
  replace horder : order.toFinset = s.base := horder
  obtain ⟨hdistinct, hknows⟩ := hs
  rw [alters_iff hdistinct hevent, hsnapshot]
  generalize hl' : newList s.snapshot event = l' at *
  have houtlook' (id : String) : s'.outlook id
      = if id ∈ serviceIds l' then (byId s.snapshot id).or (byId l' id) else none := by
    rw [houtlook, tower_changes horder hknows, hagree,
      byId_reverse (hl' ▸ hdistinct.newList hevent)]
  constructor
  · rintro heq ⟨id, i, j, hi, hj, hne⟩
    have hid : id ∈ serviceIds l' := isSome_byId.mp (by rw [hj]; rfl)
    have := (houtlook' id).symm.trans (congrFun heq id)
    rw [if_pos hid, hi, hj] at this
    exact hne (Option.some.inj this)
  · intro hkept
    funext id
    rw [houtlook']
    split_ifs with hid
    · obtain ⟨j, hj⟩ := Option.isSome_iff_exists.mp (isSome_byId.mpr hid)
      rw [hj]
      cases hi : byId s.snapshot id with
      | none => rfl
      | some i => exact congrArg some (by_contra fun hne => hkept ⟨id, i, j, hi, hj, hne⟩)
    · exact (Option.not_isSome_iff_eq_none.mp (mt isSome_byId.mp hid)).symm

theorem outlook_step_iff (hs : s.Tracks Keyed) {l : DiscoverLabel} (hroom : s.Roomy l)
    (hevent : s.Applies (fun _ event => event.Distinct) l) (hstep : s.step tower l = some s')
    (hagree : s.outlook = byId s.snapshot) :
    s'.outlook = byId s'.snapshot ↔ ¬ s.UpdatesInPlace l := by
  by_cases hl : ∃ event order, l = .apply s.svcName event order
  · obtain ⟨event, order, rfl⟩ := hl
    rw [outlook_notified_iff hs (hevent rfl) hstep hagree, UpdatesInPlace, and_iff_right rfl]
  · have hne : ∀ event order, l ≠ .apply s.svcName event order :=
      fun event order he => hl ⟨event, order, he⟩
    obtain ⟨hsnapshot, -, houtlook⟩ := steady_of_step hroom hne hstep
    refine iff_of_true (by rw [hsnapshot, houtlook, hagree]) ?_
    cases l with
    | apply name event order => exact fun h => hne event order (h.1 ▸ rfl)
    | _ => exact id

/-- **The stream replays to the snapshot, exactly**, in the runs whose events alter no instance that
stays: an id the listener knows is never looked at again. -/
theorem replays_iff {directory : ServiceDirectory} {svcName : String} {w : List DiscoverLabel}
    {t : Discovery (Finset String) ServiceInstance}
    (hdistinct : Distinct (directory.getInstances svcName))
    (hw : EachStep (step tower) (fun s l => s.Roomy l ∧ s.Applies (fun _ event => event.Distinct) l)
      (start tower directory svcName) w)
    (hrun : run (step tower) (start tower directory svcName) w = some t)
    (hend : t.state = .listening) :
    EachState (step tower) Replays (start tower directory svcName) w
      ↔ EachStep (step tower) (fun s l => ¬ s.UpdatesInPlace l) (start tower directory svcName)
        w := by
  have hkeyed : (start tower directory svcName).Tracks Keyed := ⟨hdistinct, tower_knows_initial _⟩
  have hagree :
      (start tower directory svcName).outlook = byId (directory.getInstances svcName) := by
    rw [← byId_reverse hdistinct]
    exact funext fun id => (applyChanges_insertions _ _ id).trans Option.or_none
  have hobserved := eachState_observed_iff (O := fun s => s.state = .listening)
    (A := fun s : Discovery (Finset String) ServiceInstance => s.outlook = byId s.snapshot)
    (fun s l s' hs hl hstep => hs.step keyed_kept hl.1 hl.2 hstep)
    (fun s l s' hs hl hstep hA => outlook_step_iff hs hl.1 hl.2 hstep hA)
    (fun s l s' hs hl hstep hO hA => ?_) hkeyed hagree hw hrun hend
  · refine Iff.trans ⟨fun h => h.imp fun s hs hO => ?_, fun h => h.imp fun s hs hO => ?_⟩ hobserved
    · rw [outlook_of_listening hO, hs hO]
    · rw [← outlook_of_listening hO, hs hO]
  · -- an event is applied only while the listener waits
    have hne : ∀ event order, l ≠ .apply s.svcName event order := by
      rintro event order rfl
      exact hO (notified_of_step hstep).1
    obtain ⟨hsnapshot, -, houtlook⟩ := steady_of_step hl.1 hne hstep
    rwa [hsnapshot, houtlook]

end Discovery

/-- An order service of a given id, at a port of the local host. -/
def atPort (id : String) (port : UInt16) : ServiceInstance :=
  .newHttp id "default" "default" "order-svc" (.new "127.0.0.1" port)

/-- A directory that lists one order service. -/
def loneInstance : ServiceDirectory :=
  (ServiceDirectory.withOptions false ∅).store "order-svc" [atPort "a" 8080]

/-- The instance leaves, and comes back at another port. -/
def leaveAndReturn : List DiscoverLabel :=
  [.send, .install, .apply "order-svc" (.delete "order-svc" "a") ["a"], .offer, .done, .receive,
    .apply "order-svc" (.upsert (atPort "a" 9090)) [], .offer, .receive, .done]

theorem Discovery.replays_iff_leaveAndReturn :
    EachState (step tower) Replays (start tower loneInstance "order-svc") leaveAndReturn :=
  (replays_iff (by decide +kernel) (by decide +kernel) rfl rfl).mpr (by decide +kernel)

/-- **A stale endpoint.**  The instance moves to another port without leaving, and the stream says
nothing. -/
theorem stale_endpoint : ¬ ∀ directory svcName w t, Distinct (directory.getInstances svcName) →
    EachStep (Discovery.step tower)
      (fun s l => s.Roomy l ∧ s.Applies (fun _ event => event.Distinct) l)
      (.start tower directory svcName) w →
    run (Discovery.step tower) (.start tower directory svcName) w = some t →
    t.state = .listening →
    EachState (Discovery.step tower) Discovery.Replays (.start tower directory svcName) w := by
  intro h
  have hlast := (h loneInstance "order-svc"
    [.send, .install, .apply "order-svc" (.upsert (atPort "a" 9090)) ["a"], .done] _
    (by decide +kernel) (by decide +kernel) rfl rfl).last rfl
  exact absurd (congrFun (hlast rfl) "a") (by decide +kernel)

end PecsRegistry
