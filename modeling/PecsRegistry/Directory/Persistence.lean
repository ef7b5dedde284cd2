import PecsRegistry.Directory.Moves

/-!
# Directory/Persistence — which list the disk snapshot ends up with

Every `apply_event` spawns a task that writes the list it has made; the runtime executes the spawned
tasks in any order.  So the file ends up with the text of the list of the task executed last, and
that need not be the list of the event applied last, nor read back as it: `disk_current_iff`.
-/

namespace PecsRegistry

open Transition

namespace ServiceDirectory

variable {d d' : ServiceDirectory} {name : String} {w : List DirectoryLabel}
  {reread : ServiceInstance → Option ServiceInstance}

/-- The disk snapshot of a service. -/
def loadFromDisk (d : ServiceDirectory) (name : String) : Option (List ServiceInstance) :=
  if d.diskCache then d.disk.load name else none

/-- The list in memory, if there is one, is the one on disk. -/
def DiskCurrent (name : String) (d : ServiceDirectory) : Prop :=
  ∀ list, d.snapshots.lookup name = some list → d.loadFromDisk name = some list

/-- The steps of `apply_event` calls for the service, and of the tasks they spawn, all of which
succeed. -/
def Persisting (name : String) : DirectoryLabel → Prop
  | .apply name' _ => name' = name
  | .persist _ written => written = true
  | _ => False

instance (name : String) : DecidablePred (Persisting name)
  | .apply name' _ => inferInstanceAs (Decidable (name' = name))
  | .persist _ written => inferInstanceAs (Decidable (written = true))
  | .call .. | .drop .. | .task .. => .isFalse id

/-! ## Whose task is executed when -/

/-- The events of the `apply_event` calls, in the order they are made. -/
def applied (w : List DirectoryLabel) : List ServiceEvent :=
  w.filterMap fun
    | .apply _ event => some event
    | _ => none

/-- The tasks spawned so far, numbered from `0`: how many, which are pending, in the order they were
spawned, and which have been executed, in that order. -/
structure Ledger where
  spawned : ℕ
  pending : List ℕ
  executed : List ℕ

/-- An `apply_event` spawns a task; the `n`-th pending task is executed. -/
def Ledger.next (b : Ledger) : DirectoryLabel → Ledger
  | .apply _ _ => { b with spawned := b.spawned + 1, pending := b.pending ++ [b.spawned] }
  | .persist n _ =>
      match b.pending[n]? with
      | some j => { b with pending := b.pending.eraseIdx n, executed := b.executed ++ [j] }
      | none => b
  | _ => b

def ledger (w : List DirectoryLabel) : Ledger := w.foldl Ledger.next ⟨0, [], []⟩

/-- The task executed last, if any was. -/
def lastExecuted (w : List DirectoryLabel) : Option ℕ := (ledger w).executed.getLast?

/-- What the ledger `b` says of the directory, where `lists k` is the list after `k` events. -/
structure Booked (name : String) (reread : ServiceInstance → Option ServiceInstance)
    (lists : ℕ → List ServiceInstance) (b : Ledger) (d : ServiceDirectory) : Prop where
  cached : d.diskCache = true
  reread_eq : d.disk.reread = reread
  memory : d.getInstances name = lists b.spawned
  stored : b.spawned ≠ 0 → d.snapshots.lookup name = some (lists b.spawned)
  queue : d.persists = b.pending.map fun j => (name, lists (j + 1))
  disk : ∀ j ∈ b.executed.getLast?, d.disk.load name = (lists (j + 1)).mapM reread
  count : b.pending.length + b.executed.length = b.spawned

theorem Booked.apply {lists : ℕ → List ServiceInstance} {b : Ledger} {event : ServiceEvent}
    (h : Booked name reread lists b d)
    (hlists : lists (b.spawned + 1) = newList (lists b.spawned) event) :
    Booked name reread lists (b.next (.apply name event)) (d.applyEvent name event) := by
  have hlist : newList (d.getInstances name) event = lists (b.spawned + 1) := by
    rw [h.memory, hlists]
  refine ⟨h.cached, h.reread_eq, ?_, fun _ => ?_, ?_, h.disk, ?_⟩
  · rw [getInstances_applyEvent, if_pos rfl]
    exact hlist
  · rw [applyEvent, persistToDisk_snapshots, store_snapshots, Finmap.lookup_insert]
    exact congrArg some hlist
  · rw [applyEvent, persistToDisk_persists, store_diskCache, store_persists, if_pos h.cached,
      h.queue, hlist, Ledger.next, List.map_append, List.map_singleton]
  · have hcount := h.count
    simp only [Ledger.next, List.length_append, List.length_singleton]
    omega

theorem Booked.persist {lists : ℕ → List ServiceInstance} {b : Ledger} {n : ℕ} {name' : String}
    {instances : List ServiceInstance} (h : Booked name reread lists b d)
    (pending : d.persists[n]? = some (name', instances)) :
    Booked name reread lists (b.next (.persist n true)) { d with
      persists := d.persists.eraseIdx n
      disk := d.disk.write name' instances } := by
  rw [h.queue, List.getElem?_map] at pending
  obtain ⟨j, hj, heq⟩ := Option.map_eq_some_iff.mp pending
  obtain ⟨rfl, rfl⟩ := Prod.mk.inj heq
  have hnext : b.next (.persist n true)
      = { b with pending := b.pending.eraseIdx n, executed := b.executed ++ [j] } := by
    rw [Ledger.next, hj]
  rw [hnext]
  refine ⟨h.cached, h.reread_eq, h.memory, h.stored, ?_, fun i hi => ?_, ?_⟩
  · rw [h.queue, List.eraseIdx_map]
  · rw [List.getLast?_concat, Option.mem_some_iff] at hi
    rw [Disk.load_write, if_pos rfl, h.reread_eq, hi]
  · have hlt : n < b.pending.length := (List.getElem?_eq_some_iff.mp hj).1
    have hcount := h.count
    simp only [List.length_append, List.length_singleton, List.length_eraseIdx_of_lt hlt]
    omega

theorem Ledger.spawned_persist (b : Ledger) (n : ℕ) (written : Bool) :
    (b.next (.persist n written)).spawned = b.spawned := by
  rw [Ledger.next]
  split <;> rfl

/-- **The ledger keeps the books.** -/
theorem Booked.run {lists : ℕ → List ServiceInstance} {b : Ledger}
    (h : Booked name reread lists b d) (hw : ∀ l ∈ w, Persisting name l)
    (hlists : ∀ k event, (applied w)[k]? = some event →
      lists (b.spawned + k + 1) = newList (lists (b.spawned + k)) event)
    (hrun : run step d w = some d') :
    Booked name reread lists (w.foldl Ledger.next b) d'
      ∧ (w.foldl Ledger.next b).spawned = b.spawned + (applied w).length := by
  induction w generalizing d b with
  | nil =>
    obtain rfl := Option.some.inj hrun
    exact ⟨h, rfl⟩
  | cons l w ih =>
    obtain ⟨mid, hmid, hrest⟩ := run_cons_eq_some.mp hrun
    obtain ⟨hl, hw'⟩ := List.forall_mem_cons.mp hw
    rw [List.foldl_cons]
    cases move_of_step hmid with
    | apply name' event =>
      obtain rfl := hl
      have happlied : applied (.apply name' event :: w) = event :: applied w := rfl
      rw [happlied] at hlists ⊢
      obtain ⟨hbooked, hspawned⟩ := ih (h.apply (hlists 0 event rfl)) hw' (fun k event' hk => by
        have hnext := hlists (k + 1) event' hk
        rwa [← Nat.add_assoc, Nat.add_right_comm b.spawned k 1] at hnext) hrest
      refine ⟨hbooked, hspawned.trans ?_⟩
      simp only [Ledger.next, List.length_cons]
      omega
    | persist written pending =>
      obtain rfl := hl
      have happlied : ∀ n, applied (.persist n true :: w) = applied w := fun _ => rfl
      rw [happlied] at hlists ⊢
      obtain ⟨hbooked, hspawned⟩ := ih (h.persist pending) hw'
        (by rwa [Ledger.spawned_persist]) hrest
      exact ⟨hbooked, hspawned.trans (by rw [Ledger.spawned_persist])⟩
    | _ => exact hl.elim

/-- Without an event nothing is executed. -/
theorem eq_nil_of_applied (hnone : d.persists = []) (hw : ∀ l ∈ w, Persisting name l)
    (hrun : run step d w = some d') (happlied : applied w = []) : w = [] := by
  cases w with
  | nil => rfl
  | cons l w =>
    obtain ⟨mid, hmid, -⟩ := run_cons_eq_some.mp hrun
    cases move_of_step hmid with
    | apply name' event => cases happlied
    | persist written pending => simp [hnone] at pending
    | _ => exact (hw _ List.mem_cons_self).elim

/-- The task executed last has left the text of its list in the file, the last event its list in
memory. -/
theorem Booked.diskCurrent_iff {lists : ℕ → List ServiceInstance} {b : Ledger} {j : ℕ}
    (h : Booked name reread lists b d) (hspawned : b.spawned ≠ 0) (hj : j ∈ b.executed.getLast?) :
    DiskCurrent name d ↔ (lists (j + 1)).mapM reread = some (lists b.spawned) := by
  have hload : d.loadFromDisk name = (lists (j + 1)).mapM reread := by
    rw [loadFromDisk, if_pos h.cached, h.disk j hj]
  constructor
  · exact fun hcurrent => hload.symm.trans (hcurrent _ (h.stored hspawned))
  · intro heq list hlist
    rw [hload, heq, ← h.stored hspawned, hlist]

theorem booked_ledger (hcache : d.diskCache = true) (hnone : d.persists = [])
    (hw : ∀ l ∈ w, Persisting name l) (hrun : run step d w = some d') :
    Booked name d.disk.reread (fun k => listAfter (d.getInstances name) ((applied w).take k))
        (ledger w) d'
      ∧ (ledger w).spawned = (applied w).length := by
  have hbooked : Booked name d.disk.reread
      (fun k => listAfter (d.getInstances name) ((applied w).take k)) ⟨0, [], []⟩ d :=
    ⟨hcache, rfl, rfl, fun h => absurd rfl h, hnone, by simp, rfl⟩
  obtain ⟨hend, hspawned⟩ := hbooked.run hw (fun k event hk => by
    simp only [Nat.zero_add]
    exact listAfter_take_succ hk _) hrun
  exact ⟨hend, hspawned.trans (Nat.zero_add _)⟩

/-- **Which list the file ends up with, exactly.**  Once all spawned tasks have been executed, what
`load_from_disk` reads is the list in memory if and only if the list that the task executed last was
handed, as its text reads back, is the list that all events make; without an event, if and only if
it was before.  Where instances read back as they were written that is so if and only if the events
applied after that task's leave its list as it is. -/
theorem disk_current_iff (hcache : d.diskCache = true) (hnone : d.persists = [])
    (hw : ∀ l ∈ w, Persisting name l) (hrun : run step d w = some d') (hdone : d'.persists = []) :
    (DiskCurrent name d' ↔ match lastExecuted w with
      | some j => (listAfter (d.getInstances name) ((applied w).take (j + 1))).mapM d.disk.reread
          = some (listAfter (d.getInstances name) (applied w))
      | none => DiskCurrent name d)
    ∧ (d.disk.Exact → ∀ j ∈ lastExecuted w,
      (DiskCurrent name d' ↔ Unmoved (d.getInstances name) (applied w) (j + 1))) := by
  obtain ⟨hend, hspawned⟩ := booked_ledger hcache hnone hw hrun
  rcases eq_or_ne (applied w) [] with happlied | hne
  · obtain rfl := eq_nil_of_applied hnone hw hrun happlied
    obtain rfl := Option.some.inj hrun
    exact ⟨Iff.rfl, fun _ _ hj => by cases hj⟩
  · have hpending : (ledger w).pending = [] := by simpa [hdone] using hend.queue.symm
    have hlength : (applied w).length ≠ 0 := by simpa using hne
    have hexecuted : (ledger w).executed ≠ [] := by
      intro hnil
      have hcount := hend.count
      rw [hpending, hnil, hspawned] at hcount
      exact hlength hcount.symm
    obtain ⟨j, hj⟩ := Option.isSome_iff_exists.mp (List.getLast?_isSome.mpr hexecuted)
    have hlast : lastExecuted w = some j := hj
    have hiff := hend.diskCurrent_iff (hspawned ▸ hlength) hj
    rw [hspawned, List.take_length] at hiff
    rw [hlast]
    refine ⟨hiff, fun hexact j' hj' => ?_⟩
    obtain rfl := Option.some.inj hj'
    rw [hiff, hexact.mapM, Option.some_inj, unmoved_iff]

/-- Two instances come up one after the other; then the task of the first, or of the second, is
executed, and then the other. -/
def twoUp (first : ℕ) : List DirectoryLabel :=
  [.apply "order-svc" (.upsert (.simple "order-svc" "127.0.0.1" 8080)),
    .apply "order-svc" (.upsert (.simple "order-svc" "127.0.0.1" 8081)), .persist first true,
    .persist 0 true]

theorem twoUp_persisting (first : ℕ) : ∀ l ∈ twoUp first, Persisting "order-svc" l := by
  simp [twoUp, Persisting]

theorem diskCurrent_fresh (name : String) : DiskCurrent name (withOptions true ∅) := by
  simp [DiskCurrent, withOptions]

/-- Texts bring the double nearest to 907.3038322028689 back as its neighbour below. -/
def lossy : Disk where
  reread inst := some { inst with
    weight := if inst.weight = 7980728907462233 / 2 ^ 43 then 997591113432779 / 2 ^ 40
      else inst.weight }
  files := ∅

/-- An instance of that weight comes up, and the task is executed. -/
def weighted : List DirectoryLabel :=
  [.apply "order-svc" (.upsert ((ServiceInstance.simple "order-svc" "127.0.0.1" 8080).withWeight
    (7980728907462233 / 2 ^ 43))), .persist 0 true]

/-- `disk_current_iff` where the tasks are executed in order, and where a weight comes back as
another. -/
theorem disk_current_iff_twoUp :
    (∃ d', run step (withOptions true ∅) (twoUp 0) = some d' ∧ DiskCurrent "order-svc" d')
      ∧ ∃ d', run step (withOptions true lossy) weighted = some d'
        ∧ ¬ DiskCurrent "order-svc" d' := by
  obtain ⟨d₁, hrun₁⟩ : ∃ d', run step (withOptions true ∅) (twoUp 0) = some d' := ⟨_, rfl⟩
  obtain ⟨d₂, hrun₂⟩ : ∃ d', run step (withOptions true lossy) weighted = some d' := ⟨_, rfl⟩
  have hdone₁ : d₁.persists = [] := by
    obtain rfl := Option.some.inj hrun₁
    rfl
  have hdone₂ : d₂.persists = [] := by
    obtain rfl := Option.some.inj hrun₂
    rfl
  refine ⟨⟨d₁, hrun₁, ?_⟩, d₂, hrun₂, ?_⟩
  · exact ((disk_current_iff rfl rfl (twoUp_persisting 0) hrun₁ hdone₁).2 (fun _ => rfl) 1
      (by decide)).mpr (by decide +kernel)
  · have hlast : lastExecuted weighted = some 0 := by decide
    rw [(disk_current_iff rfl rfl (by simp [weighted, Persisting]) hrun₂ hdone₂).1, hlast]
    decide +kernel

/-- **A stale file.**  The task of the second event is executed first: the file ends up without the
instance that came up last. -/
theorem stale_file : ¬ ∀ (d d' : ServiceDirectory) (name : String) (w : List DirectoryLabel),
    d.diskCache = true → DiskCurrent name d → d.persists = [] → (∀ l ∈ w, Persisting name l) →
    run step d w = some d' → d'.persists = [] → DiskCurrent name d' := by
  intro h
  obtain ⟨d', hrun⟩ : ∃ d', run step (withOptions true ∅) (twoUp 1) = some d' := ⟨_, rfl⟩
  have hend := h _ d' "order-svc" _ rfl (diskCurrent_fresh _) rfl (twoUp_persisting 1) hrun
  obtain rfl := Option.some.inj hrun
  exact absurd (hend rfl _ rfl) (by decide +kernel)

end ServiceDirectory

end PecsRegistry
