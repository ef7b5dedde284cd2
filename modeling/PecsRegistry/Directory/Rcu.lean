import PecsRegistry.Directory.System
import PecsRegistry.Machinery.Rcu

/-!
# Directory/Rcu — the snapshot map under concurrent updates

`ServiceDirectory.applyEvent` and `store` swap the snapshot map in one step.  The code does it in
the loop of `ArcSwap::rcu`, whose closure may run any number of times, and writes the list that
`apply_event` goes on to persist and announce each time it does.  `snapshots_linear` justifies the
one step: concurrent updates end up as the same updates performed one by one, in the order of their
successful swaps, and each announces what its own swap has stored.
-/

namespace PecsRegistry

open Transition

/-- What is done to the snapshot map: `apply_event`, or the insert of `load_or_watch`. -/
inductive SnapshotUpdate
  | applyEvent (name : String) (event : ServiceEvent)
  | insert (name : String) (instances : List ServiceInstance)

namespace SnapshotUpdate

/-- The service an update is about. -/
def name : SnapshotUpdate → String
  | applyEvent svc _ => svc
  | insert svc _ => svc

/-- The closure given to `rcu`: the next map, and the list it holds for the service. -/
def closure (u : SnapshotUpdate) (current : HashMap String (List ServiceInstance)) :
    HashMap String (List ServiceInstance) × List ServiceInstance :=
  match u with
  | applyEvent svc event =>
      let finalList := newList ((current.lookup svc).getD []) event
      (current.insert svc finalList, finalList)
  | insert svc instances => (current.insert svc instances, instances)

/-- What a closure leaves at its own service is what it yields. -/
theorem lookup_closure (u : SnapshotUpdate) (current : HashMap String (List ServiceInstance)) :
    (u.closure current).1.lookup u.name = some (u.closure current).2 := by
  cases u <;> exact Finmap.lookup_insert _

end SnapshotUpdate

namespace ServiceDirectory

/-- The update in one step. -/
def perform (d : ServiceDirectory) : SnapshotUpdate → ServiceDirectory
  | .applyEvent name event => d.applyEvent name event
  | .insert name instances => d.store name instances

theorem snapshots_perform (d : ServiceDirectory) (u : SnapshotUpdate) :
    (d.perform u).snapshots = (u.closure d.snapshots).1 := by cases u <;> rfl

/-- **An update leaves the other services alone.** -/
theorem lookup_perform_of_ne (d : ServiceDirectory) {u : SnapshotUpdate} {name : String}
    (h : name ≠ u.name) : (d.perform u).snapshots.lookup name = d.snapshots.lookup name := by
  cases u <;> exact Finmap.lookup_insert_of_ne _ h

/-- The updates of some callers, one by one. -/
def performAll (d : ServiceDirectory) (update : ℕ → SnapshotUpdate) (order : List ℕ) :
    ServiceDirectory := order.foldl (fun d i => d.perform (update i)) d

theorem performAll_snoc (d : ServiceDirectory) (update : ℕ → SnapshotUpdate) (order : List ℕ)
    (i : ℕ) :
    d.performAll update (order ++ [i]) = (d.performAll update order).perform (update i) := by
  rw [performAll, List.foldl_append]
  rfl

theorem snapshots_performAll (d : ServiceDirectory) (update : ℕ → SnapshotUpdate)
    (order : List ℕ) : (d.performAll update order).snapshots
      = Rcu.sequential (fun i => (update i).closure) d.snapshots order := by
  induction order using List.reverseRecOn with
  | nil => rfl
  | append_singleton order i ih =>
    rw [performAll_snoc, snapshots_perform, Rcu.sequential_snoc, ih]

end ServiceDirectory

/-! ## The loop, and what follows it -/

/-- The shared map with its callers, and the lists passed on so far, each with its caller and
service; one entry of `announced` stands for the call of every listener. -/
structure RcuDirectory where
  rcu : Rcu.State ℕ (HashMap String (List ServiceInstance)) (List ServiceInstance)
  persisted : List (ℕ × String × List ServiceInstance)
  announced : List (ℕ × String × List ServiceInstance)

inductive RcuLabel
  | rcu (l : Rcu.Label ℕ)
  | persist (i : ℕ)
  | announce (i : ℕ)
deriving DecidableEq

namespace RcuDirectory

/-- The callers' `final_list` starts out empty. -/
def start (d : ServiceDirectory) : RcuDirectory := ⟨Rcu.init d.snapshots [], [], []⟩

/-- A step of a caller: inside `rcu`, or, for an `apply_event`, past it: it persists its list, then
calls the listeners. -/
def step (update : ℕ → SnapshotUpdate) (s : RcuDirectory) : RcuLabel → Option RcuDirectory
  | .rcu l => (Rcu.step (fun i => (update i).closure) s.rcu l).map fun rcu => { s with rcu }
  | .persist i =>
      match update i, s.rcu.callers i with
      | .applyEvent name _, ⟨.swapped, finalList⟩ =>
          if i ∈ s.persisted.map (·.1) then none
          else some { s with persisted := s.persisted ++ [(i, name, finalList)] }
      | _, _ => none
  | .announce i =>
      match update i, s.rcu.callers i with
      | .applyEvent name _, ⟨.swapped, finalList⟩ =>
          if i ∈ s.persisted.map (·.1) ∧ i ∉ s.announced.map (·.1) then
            some { s with announced := s.announced ++ [(i, name, finalList)] }
          else none
      | _, _ => none

/-- The callers whose swaps a word takes, in order. -/
def swaps (w : List RcuLabel) : List ℕ :=
  Rcu.swaps (w.filterMap fun l =>
    match l with
    | .rcu l => some l
    | _ => none)

variable {update : ℕ → SnapshotUpdate} {d : ServiceDirectory} {s s' t : RcuDirectory}
  {w : List RcuLabel}

/-- A list passed on is its caller's, and stays so. -/
def Passed (update : ℕ → SnapshotUpdate) (s : RcuDirectory)
    (entry : ℕ × String × List ServiceInstance) : Prop :=
  s.rcu.callers entry.1 = ⟨.swapped, entry.2.2⟩ ∧ entry.2.1 = (update entry.1).name

/-- What has been passed on is what its callers have captured. -/
def Sound (update : ℕ → SnapshotUpdate) (s : RcuDirectory) : Prop :=
  ∀ entry ∈ s.persisted ++ s.announced, s.Passed update entry

theorem sound_start (update : ℕ → SnapshotUpdate) (d : ServiceDirectory) :
    Sound update (start d) := by simp [Sound, start]

/-- A caller past its swap passes its list on. -/
theorem Sound.pass (h : Sound update s) {i : ℕ} {name : String} {event : ServiceEvent}
    {finalList : List ServiceInstance} (hupdate : update i = .applyEvent name event)
    (hcaller : s.rcu.callers i = ⟨.swapped, finalList⟩) (hrcu : s'.rcu = s.rcu)
    (hpassed : ∀ entry ∈ s'.persisted ++ s'.announced,
      entry ∈ s.persisted ++ s.announced ∨ entry = (i, name, finalList)) :
    Sound update s' := by
  intro entry hentry
  rw [Passed, hrcu]
  rcases hpassed entry hentry with hold | rfl
  · exact h entry hold
  · exact ⟨hcaller, by rw [hupdate, SnapshotUpdate.name]⟩

/-- What a step does inside `rcu`. -/
def shadow : RcuLabel → List (Rcu.Label ℕ)
  | .rcu l => [l]
  | _ => []

theorem swaps_eq (w : List RcuLabel) : swaps w = Rcu.swaps (w.flatMap shadow) := by
  rw [swaps, List.filterMap_eq_flatMap_toList]
  congr 2
  ext1 l
  cases l <;> rfl

/-- **A step is a step of the loop, or none**, and passes on what has been captured. -/
theorem Sound.step (h : Sound update s) {l : RcuLabel} (hstep : s.step update l = some s') :
    Sound update s'
      ∧ run (Rcu.step fun i => (update i).closure) s.rcu (shadow l) = some s'.rcu := by
  cases l with
  | rcu l =>
    obtain ⟨rcu, hrcu, rfl⟩ := Option.map_eq_some_iff.mp hstep
    refine ⟨fun entry hentry => ?_, run_cons_eq_some.mpr ⟨rcu, hrcu, rfl⟩⟩
    obtain ⟨hcaller, hname⟩ := h entry hentry
    have hswapped : (s.rcu.callers entry.1).phase = .swapped := by rw [hcaller]
    exact ⟨(Rcu.callers_of_swapped hswapped hrcu).trans hcaller, hname⟩
  | persist i =>
    rw [RcuDirectory.step] at hstep
    split at hstep
    · split_ifs at hstep
      obtain rfl := Option.some.inj hstep
      refine ⟨h.pass ‹_› ‹_› rfl ?_, rfl⟩
      simp only [List.mem_append, List.mem_singleton]
      tauto
    · cases hstep
  | announce i =>
    rw [RcuDirectory.step] at hstep
    split at hstep
    · split_ifs at hstep
      obtain rfl := Option.some.inj hstep
      refine ⟨h.pass ‹_› ‹_› rfl ?_, rfl⟩
      simp only [List.mem_append, List.mem_singleton]
      tauto
    · cases hstep

/-- A run of the callers is linear in its loop, and sound in what it passes on. -/
theorem sound_of_run (hrun : run (RcuDirectory.step update) (start d) w = some t) :
    Rcu.Linear (fun i => (update i).closure) d.snapshots (swaps w) t.rcu ∧ Sound update t := by
  obtain ⟨hsound, hloop⟩ := run_shadow (C := fun _ _ => True) RcuDirectory.rcu shadow
    (fun _ _ _ hs _ hstep => hs.step hstep) (sound_start update d)
    (eachStep_of_forall_mem fun _ _ => trivial) hrun
  have hlinear := Rcu.linear_of_run (Rcu.linear_init d.snapshots []) hloop
  rw [List.nil_append, ← swaps_eq] at hlinear
  exact ⟨hlinear, hsound⟩

/-- **The snapshot map is linearisable.**  However the callers interleave and retry: the map is what
the updates make of it one by one, in the order of their swaps, in which each caller past its swap
stands once; each update leaves the other services alone; and each list passed on is the one that
its caller's swap has stored. -/
theorem snapshots_linear (update : ℕ → SnapshotUpdate) (d : ServiceDirectory) (w : List RcuLabel)
    (t : RcuDirectory) (hrun : Transition.run (step update) (start d) w = some t) :
    t.rcu.cell.val = (d.performAll update (swaps w)).snapshots
    ∧ (swaps w).Nodup ∧ (∀ i, i ∈ swaps w ↔ (t.rcu.callers i).phase = .swapped)
    ∧ (∀ before i after, swaps w = before ++ i :: after → ∀ name, name ≠ (update i).name →
      (d.performAll update (before ++ [i])).snapshots.lookup name
        = (d.performAll update before).snapshots.lookup name)
    ∧ ∀ i name list, (i, name, list) ∈ t.persisted ++ t.announced →
      ∃ before after, swaps w = before ++ i :: after ∧ name = (update i).name
        ∧ (d.performAll update (before ++ [i])).snapshots.lookup name = some list := by
  obtain ⟨hlinear, hpassed⟩ := sound_of_run hrun
  refine ⟨?_, hlinear.nodup, hlinear.swapped, fun before i after _ name hname => ?_,
    fun i name list hentry => ?_⟩
  · rw [hlinear.value, ServiceDirectory.snapshots_performAll]
  · rw [ServiceDirectory.performAll_snoc, ServiceDirectory.lookup_perform_of_ne _ hname]
  · obtain ⟨hcaller, hname⟩ := hpassed _ hentry
    replace hname : name = (update i).name := hname
    have hmem : i ∈ swaps w := (hlinear.swapped i).mpr (by rw [hcaller])
    obtain ⟨before, after, horder⟩ := List.append_of_mem hmem
    refine ⟨before, after, horder, hname, ?_⟩
    have hcaptured := hlinear.captured before i after horder
    rw [hcaller] at hcaptured
    rw [ServiceDirectory.performAll_snoc, ServiceDirectory.snapshots_perform, hname,
      SnapshotUpdate.lookup_closure, ServiceDirectory.snapshots_performAll]
    exact congrArg some hcaptured.symm

/-- Caller 1 inserts a listing, the others upsert one instance. -/
def loadAndUpsert (i : ℕ) : SnapshotUpdate :=
  if i = 1 then .insert "order-svc" []
  else .applyEvent "order-svc" (.upsert (.simple "order-svc" "127.0.0.1" 8080))

/-- The insert wins the first round; the upsert starts over, at an address given back meanwhile. -/
def upsertRetries : List RcuLabel :=
  [.rcu (.call 0), .rcu (.load 0), .rcu (.compute 0 1), .rcu (.call 1), .rcu (.load 1),
    .rcu (.compute 1 2), .rcu (.swap 1), .rcu (.retry 0), .rcu (.load 0), .rcu (.compute 0 1),
    .rcu (.swap 0), .persist 0, .announce 0]

theorem snapshots_linear_upsertRetries :
    ∃ t, Transition.run (step loadAndUpsert) (start (.withOptions false ∅)) upsertRetries = some t
      ∧ t.rcu.cell.val
        = ((ServiceDirectory.withOptions false ∅).performAll loadAndUpsert [1, 0]).snapshots := by
  obtain ⟨t, ht⟩ := Option.isSome_iff_exists.mp
    (by decide +kernel : (Transition.run (step loadAndUpsert) (start (.withOptions false ∅))
      upsertRetries).isSome)
  exact ⟨t, ht, (snapshots_linear loadAndUpsert _ _ t ht).1⟩

end RcuDirectory

end PecsRegistry
