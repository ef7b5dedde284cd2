import PecsRegistry.Directory.Moves

/-!
# Directory/Outage — what a load in an outage makes of the instances in memory

When `list_instances` fails, `load_or_watch` turns to the file on disk, and gives up if there is
none; what the snapshot of the service holds it does not look at.  So a service that is known in
memory is answered with an error, or goes back to an older list: `spared_iff`.
-/

namespace PecsRegistry

open Transition

namespace ServiceDirectory

variable {d d' : ServiceDirectory} {i : ℕ} {name : String} {known : List ServiceInstance}
  {w : List DirectoryLabel} {l : DirectoryLabel}

/-- A step of call `i` leaves the snapshot of the service as it is. -/
def LeavesSnapshot (i : ℕ) (name : String) (d : ServiceDirectory) (l : DirectoryLabel) : Prop :=
  (∃ l', l = .call i l') → ∀ d' ∈ d.step l, d'.snapshots.lookup name = d.snapshots.lookup name

/-- Call `i` leaves the snapshot of the service in place, and returns the list known. -/
def Spared (i : ℕ) (name : String) (known : List ServiceInstance) (d : ServiceDirectory)
    (w : List DirectoryLabel) (d' : ServiceDirectory) : Prop :=
  EachStep step (LeavesSnapshot i name) d w ∧ d'.calls i = .returned (.ok known)

/-- What call `i` reads from disk is the list known, and when it is stored it is the list in
memory. -/
def Recovers (i : ℕ) (name : String) (known : List ServiceInstance) (d : ServiceDirectory) :
    DirectoryLabel → Prop
  | .call j (.recovered contents) => j = i → contents = some known
  | .call j .insert => j = i → d.snapshots.lookup name = some known
  | _ => True

/-- The call is past its failed listing of the service. -/
def Failing (name : String) : CallState → Prop
  | .recovering name' _ | .inserting name' _ | .ensuring name' _ | .subscribing name' _ _ =>
      name' = name
  | .returned _ => True
  | _ => False

/-- If the call goes on with a list, it is the list known. -/
def OnCourse (known : List ServiceInstance) : CallState → Prop
  | .inserting _ list | .ensuring _ list | .subscribing _ list _ => list = known
  | .returned result => result = .ok known
  | _ => True

theorem leavesSnapshot_iff (hstep : d.step l = some d') :
    LeavesSnapshot i name d l
      ↔ ((∃ l', l = .call i l') → d'.snapshots.lookup name = d.snapshots.lookup name) := by
  simp [LeavesSnapshot, hstep]

/-- The call goes on, or is dropped. -/
theorem Failing.step (h : Failing name (d.calls i)) (hstep : d.step l = some d') :
    Failing name (d'.calls i) ∨ d'.calls i = .dropped := by
  by_cases hown : ∃ l', l = .call i l'
  · obtain ⟨l, rfl⟩ := hown
    cases callMove_of_callStep hstep with
    | recovered at_ | recoverFailed at_ | insert at_ | ensured at_ | enrol at_ | subscribed _ at_ =>
      rw [at_] at h
      simp only [Failing] at h
      simp [Failing, h]
    | _ => simp [*, Failing] at h
  · exact (call_of_foreign_step hstep (not_exists.mp hown)).imp_left fun hsame => by rwa [hsame]

/-- **A step of a failing call** spares the service, exactly if it recovers what is known. -/
theorem Failing.exchange (h : Failing name (d.calls i)) (h' : d'.calls i ≠ .dropped)
    (hstep : d.step l = some d') :
    LeavesSnapshot i name d l ∧ OnCourse known (d'.calls i)
      ↔ Recovers i name known d l ∧ OnCourse known (d.calls i) := by
  rw [leavesSnapshot_iff hstep]
  by_cases hown : ∃ l', l = .call i l'
  · obtain ⟨l, rfl⟩ := hown
    cases callMove_of_callStep hstep with
    | @insert name' list at_ =>
      rw [at_] at h
      obtain rfl : name' = name := h
      -- the list stored is the one in memory, and the one known
      have hstored : some list = d.snapshots.lookup name' ∧ list = known
          ↔ d.snapshots.lookup name' = some known ∧ list = known :=
        and_congr_left fun hlist => by rw [hlist, eq_comm]
      simpa [Recovers, OnCourse, at_] using hstored
    | recovered at_ | recoverFailed at_ | ensured at_ | enrol at_ | subscribed _ at_ =>
      simp [Recovers, OnCourse, at_]
    | _ => simp [*, Failing] at h
  · have hrecovers : Recovers i name known d l := by
      rcases l with ⟨j, l⟩ | _ | _ | _ | _
      · cases l <;> simp_all [Recovers]
      all_goals trivial
    rw [(call_of_foreign_step hstep (not_exists.mp hown)).resolve_right h']
    exact and_congr_left fun _ => iff_of_true (fun hex => absurd hex hown) hrecovers

/-- A dropped call stays dropped. -/
theorem dropped_step (h : d.calls i = .dropped) (hstep : d.step l = some d') :
    d'.calls i = .dropped := by
  by_cases hown : ∃ l', l = .call i l'
  · obtain ⟨l, rfl⟩ := hown
    cases callMove_of_callStep hstep <;> simp_all
  · exact (call_of_foreign_step hstep (not_exists.mp hown)).elim (fun hsame => hsame.trans h) id

/-- **What a load in an outage makes of what is known in memory, exactly.**  The call returns the
list that was in memory when its listing failed, and leaves the snapshot in place, if and only if it
reads this very list from disk, and memory still shows it when the call stores it. -/
theorem spared_iff {err : RegistryError} {result : RegistryResult (List ServiceInstance)}
    (hat : d.calls i = .listing name)
    (hrun : run step d (.call i (.listed (.error err)) :: w) = some d')
    (hreturned : d'.calls i = .returned result) :
    Spared i name (d.getInstances name) d (.call i (.listed (.error err)) :: w) d'
      ↔ EachStep step (Recovers i name (d.getInstances name)) d
        (.call i (.listed (.error err)) :: w) := by
  obtain ⟨d₁, hstep, hrest⟩ := run_cons_eq_some.mp hrun
  obtain rfl : d.setCall i (.recovering name err) = d₁ := by
    simpa [step, hat, callStep] using hstep
  set d₁ := d.setCall i (.recovering name err) with hd₁
  have hat₁ : d₁.calls i = .recovering name err := by simp [hd₁]
  have hkept : EachState step (fun d => ¬ d.calls i = .dropped) d₁ w :=
    eachState_of_last (fun _ _ _ => dropped_step) hrest (by simp [hreturned])
  have hfailing : EachState step (fun d => Failing name (d.calls i) ∨ d.calls i = .dropped) d₁ w :=
    eachState_of_invariant (C := fun _ _ => True)
      (fun e l e' he _ hstep => he.elim (·.step hstep) fun hdrop => .inr (dropped_step hdrop hstep))
      (.inl (by simp [hat₁, Failing])) (eachStep_of_forall_mem fun _ _ => trivial)
  have hexchange := (hfailing.and hkept).eachStep_iff
    (P := fun e => OnCourse (d.getInstances name) (e.calls i))
    (fun e l e' he he' hstep => (he.1.resolve_right he.2).exchange he'.2 hstep) hrest
  rw [hreturned, hat₁] at hexchange
  have hfirst : LeavesSnapshot i name d (.call i (.listed (.error err))) :=
    (leavesSnapshot_iff hstep).mpr fun _ => rfl
  have hret : CallState.returned result = .returned (.ok (d.getInstances name))
      ↔ result = .ok (d.getInstances name) := by simp
  rw [Spared, eachStep_cons hstep, eachStep_cons hstep, and_iff_right hfirst, hreturned, hret]
  exact hexchange.trans ((and_iff_left trivial).trans (and_iff_right trivial).symm)

/-- An instance. -/
def node : ServiceInstance := .simple "order-svc" "127.0.0.1" 8080

/-- A service is known from a direct upsert, and not watched; a caller asks for its listing. -/
def asking : List DirectoryLabel :=
  [.apply "order-svc" (.upsert node), .call 0 (.loadOrWatch "order-svc"), .call 0 .read,
    .call 0 .lock]

/-- The listing fails, the file on disk holds the list known, and the watcher is there already. -/
def recovering : List DirectoryLabel :=
  [.call 0 (.listed (.error (.timeout "etcd"))), .call 0 (.recovered (some [node])),
    .call 0 .insert, .call 0 .lock, .call 0 (.subscribed (.error (.timeout "etcd")))]

/-- The directory there: the cache holds the list known. -/
def cached : ServiceDirectory :=
  ((withOptions true ⟨some, (∅ : HashMap String _).insert "order-svc" [node]⟩).store "order-svc"
    [node]).setCall 0 (.listing "order-svc")

theorem spared_recovering : ∃ d', Spared 0 "order-svc" [node] cached recovering d' := by
  have hat : cached.calls 0 = .listing "order-svc" := rfl
  refine ⟨_, (spared_iff hat rfl rfl).mpr ?_⟩
  refine (eachStep_cons rfl).mpr ⟨trivial, (eachStep_cons rfl).mpr ⟨fun _ => rfl, ?_⟩⟩
  exact (eachStep_cons rfl).mpr ⟨fun _ => rfl, (eachStep_cons rfl).mpr ⟨trivial,
    (eachStep_cons rfl).mpr ⟨trivial, trivial⟩⟩⟩

/-- **A topology degraded.**  There is no cache, the listing fails, and the caller gets the
error. -/
theorem topology_degraded : ¬ ∀ diskCache disk (u : List DirectoryLabel) (i : ℕ) (name : String)
    (err : RegistryError) (w : List DirectoryLabel) (d d' : ServiceDirectory)
    (result : RegistryResult (List ServiceInstance)),
    (∀ j, .call j .shutdown ∉ u) → run step (withOptions diskCache disk) u = some d →
    d.getInstances name ≠ [] → d.calls i = .listing name →
    run step d (.call i (.listed (.error err)) :: w) = some d' →
    d'.calls i = .returned result →
    Spared i name (d.getInstances name) d (.call i (.listed (.error err)) :: w) d' := by
  intro h
  have hspared := h false ∅ asking 0 "order-svc" (.timeout "etcd") [.call 0 (.recovered none)] _ _ _
    (by simp [asking]) rfl (by decide) rfl rfl rfl
  exact absurd hspared.2 (by simp)

end ServiceDirectory

end PecsRegistry
