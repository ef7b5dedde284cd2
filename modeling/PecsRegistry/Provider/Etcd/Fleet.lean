import PecsRegistry.Machinery.LeaseOps
import PecsRegistry.Provider.Etcd.Ghosts
import PecsRegistry.Provider.Etcd.Listing
import PecsRegistry.Provider.Etcd.Moves

/-!
# Provider/Etcd/Fleet — many registries on one etcd

Every process of a deployment has a registry of its own, and all of them write to one etcd
(`Fleet`).  What a registry does to etcd comes down to an operation under a key it names or a lease
it holds (`EtcdMove.stored`), and no lease is held by two registries (`Separate`).  **Registries
whose instances have different keys do not meet**: whatever the others do, an entry stays as it is
until its own registry writes it or its lease runs out (`others_unchanged`).
-/

namespace PecsRegistry

open Transition LeaseStore

/-- The key a call deals with. -/
def EtcdCall.key (config : RegistryConfig) : EtcdCall → Option String
  | .replacing inst | .arming inst => some (config.keyOf inst)
  | .takingLease key | .connecting key _ => key
  | .deleting key _ => some key
  | _ => none

/-- The instance a call registers. -/
def EtcdCall.inst : EtcdCall → Option ServiceInstance
  | .replacing inst | .arming inst => some inst
  | _ => none

namespace EtcdRegistry

variable {r r' q : EtcdRegistry} {i k : ℕ} {key : String} {id : ℕ}

/-! ## What a registry names and holds -/

section Carries

variable {β : Type} {calls : ℕ → EtcdCall} {tasks : ℕ → Option Heartbeat} {slot slot' : Option β}
  {ofCall : EtcdCall → Option β} {ofTask : Heartbeat → Option β} {b : β}

/-- `b` is in the slot, or in the hands of a call or of a task. -/
inductive Carries (calls : ℕ → EtcdCall) (tasks : ℕ → Option Heartbeat) (slot : Option β)
    (ofCall : EtcdCall → Option β) (ofTask : Heartbeat → Option β) (b : β) : Prop
  | slot (stored : slot = some b)
  | call {i : ℕ} (inHand : ofCall (calls i) = some b)
  | task {k : ℕ} {t : Heartbeat} (ht : tasks k = some t) (inHand : ofTask t = some b)

/-- What is carried once a call has moved on was carried before, or the call brings it. -/
theorem Carries.setCall {c : EtcdCall}
    (h : Carries (Function.update calls i c) tasks slot' ofCall ofTask b)
    (hslot : slot' = some b → Carries calls tasks slot ofCall ofTask b)
    (hc : ofCall c = some b → Carries calls tasks slot ofCall ofTask b) :
    Carries calls tasks slot ofCall ofTask b := by
  cases h with
  | slot stored => exact hslot stored
  | @call j inHand =>
    rw [Function.update_apply] at inHand
    split_ifs at inHand
    · exact hc inHand
    · exact .call inHand
  | task ht inHand => exact .task ht inHand

theorem Carries.setTask {t : Heartbeat}
    (h : Carries calls (Function.update tasks k (some t)) slot' ofCall ofTask b)
    (hslot : slot' = some b → Carries calls tasks slot ofCall ofTask b)
    (ht : ofTask t = some b → Carries calls tasks slot ofCall ofTask b) :
    Carries calls tasks slot ofCall ofTask b := by
  cases h with
  | slot stored => exact hslot stored
  | call inHand => exact .call inHand
  | task hj inHand =>
    rcases update_eq_some.mp hj with ⟨-, rfl⟩ | ⟨-, hj⟩
    · exact ht inHand
    · exact .task hj inHand

end Carries

/-- A key the registry may yet write or delete. -/
def Names (r : EtcdRegistry) : String → Prop :=
  Carries r.calls r.tasks r.registeredKey (EtcdCall.key r.config)
    fun t => some (r.config.keyOf t.inst)

/-- A lease the registry may yet write under or revoke. -/
def Holds (r : EtcdRegistry) : ℕ → Prop :=
  Carries r.calls r.tasks r.leaseId EtcdCall.carried fun t => t.state.lease

/-- An instance the registry is registering. -/
def Bears (r : EtcdRegistry) : ServiceInstance → Prop :=
  Carries r.calls r.tasks none EtcdCall.inst fun t => some t.inst

/-- **A registry names only keys of the instances it registers.** -/
theorem EtcdMove.names {l : EtcdLabel} (move : EtcdMove r l r') (h : r'.Names key) :
    r.Names key ∨ ∃ i inst, l = .call i (.register inst) ∧ r.config.keyOf inst = key := by
  cases move with
  | @call i l r' move =>
    have hcall : (r.calls i).key r.config = some key → r.Names key := fun hkey => .call hkey
    cases move with
    | register inst at_ =>
      by_cases hkey : r.config.keyOf inst = key
      · exact .inr ⟨i, inst, rfl, hkey⟩
      · refine .inl (h.setCall .slot fun hc => ?_)
        split_ifs at hc
        · exact absurd (Option.some.inj hc) hkey
        · cases hc
    | replace at_ | takeLease at_ | connected at_ =>
      exact .inl (h.setCall .slot fun hc => hcall (by rw [at_]; exact hc))
    | @arm inst at_ =>
      have h' : (r.setTask i ⟨inst, .checking⟩).Names key :=
        h.setCall .slot fun hc => by cases hc
      exact .inl (h'.setTask .slot fun ht => hcall (by rw [at_]; exact ht))
    | takeKey at_ => exact .inl (h.setCall (fun hslot => by cases hslot) .slot)
    | @keyless lease at_ | @deleted key' lease reached at_ =>
      refine .inl (h.setCall .slot fun hc => ?_)
      cases lease <;> cases hc
    | deregister | cancel | connectFailed | revoked =>
      exact .inl (h.setCall .slot fun hc => by cases hc)
  | @task k t l r' ht move =>
    have hown : some (r.config.keyOf t.inst) = some key → r.Names key := fun hkey => .task ht hkey
    left
    cases move with
    | storeKey at_ => exact h.setTask hown hown
    | _ => exact h.setTask .slot hown
  | @answer k t lease requests replies consumed ht at_ =>
    have hown : some (r.config.keyOf t.inst) = some key → r.Names key := fun hkey => .task ht hkey
    exact .inl (h.setTask .slot hown)
  | expire lease => exact .inl h

/-- **A registry holds only leases it was granted**, each of them new when it was. -/
theorem EtcdMove.holds {l : EtcdLabel} (move : EtcdMove r l r') (h : r'.Holds id) :
    r.Holds id ∨ r.etcd.state id = none ∧ r'.etcd.state id = some .live := by
  cases move with
  | @call i l r' move =>
    have hcall : (r.calls i).carried = some id → r.Holds id := fun hid => .call hid
    left
    cases move with
    | register inst at_ =>
      refine h.setCall .slot fun hc => ?_
      split_ifs at hc <;> cases hc
    | @arm inst at_ =>
      have h' : (r.setTask i ⟨inst, .checking⟩).Holds id :=
        h.setCall .slot fun hc => by cases hc
      exact h'.setTask .slot fun ht => by cases ht
    | takeLease at_ => exact h.setCall (fun hslot => by cases hslot) .slot
    | connected at_ => exact h.setCall .slot fun hc => hcall (by rw [at_]; exact hc)
    | keyless at_ | deleted reached at_ =>
      exact h.setCall .slot fun hc => hcall (by rw [at_, ← hc, carried_releasing]; rfl)
    | replace | deregister | cancel | takeKey | connectFailed | revoked =>
      exact h.setCall .slot fun hc => by cases hc
  | @task k t l r' ht move =>
    have hown : t.state.lease = some id → r.Holds id := fun hid => .task ht hid
    cases move with
    | @granted lease ok at_ fresh =>
      rcases eq_or_ne id lease with rfl | hne
      · exact .inr ⟨fresh, by
          rw [setTask_etcd, withEtcd_etcd, LeaseStore.state_grant, if_pos rfl]⟩
      · refine .inl (h.setTask .slot fun ht' => ?_)
        cases ok
        · cases ht'
        · exact absurd (Option.some.inj ht').symm hne
    | put ok at_ live =>
      refine .inl (h.setTask .slot fun ht' => hown ?_)
      rw [at_]
      cases ok
      · cases ht'
      · exact ht'
    | storeLease at_ =>
      exact .inl (h.setTask (fun hslot => hown (by rw [at_]; exact hslot))
        fun ht' => hown (by rw [at_]; exact ht'))
    | storeKey at_ | established at_ live | beat at_ | renewed at_ =>
      exact .inl (h.setTask .slot fun ht' => hown (by rw [at_]; exact ht'))
    | leave | check | connected | connectFailed | failed | cancelled | broken | cancelledAsleep
    | slept | invalidated =>
      exact .inl (h.setTask .slot fun ht' => by cases ht')
  | @answer k t lease requests replies consumed ht at_ =>
    have hown : t.state.lease = some id → r.Holds id := fun hid => .task ht hid
    exact .inl (h.setTask .slot fun ht' => hown (by rw [at_]; exact ht'))
  | expire lease => exact .inl h

/-- **A registry registers only what it is told to**, and only where it is switched on. -/
theorem EtcdMove.bears {l : EtcdLabel} (move : EtcdMove r l r') {inst : ServiceInstance}
    (h : r'.Bears inst) : r.Bears inst ∨ ∃ i, l = .call i (.register inst) ∧ r.config.active := by
  have hslot : (none : Option ServiceInstance) = some inst → r.Bears inst := fun hs => by cases hs
  cases move with
  | @call i l r' move =>
    have hcall : (r.calls i).inst = some inst → r.Bears inst := fun hi => .call hi
    cases move with
    | register inst' at_ =>
      by_cases hinst : inst' = inst ∧ r.config.active
      · exact .inr ⟨i, by rw [hinst.1], hinst.2⟩
      · refine .inl (h.setCall hslot fun hc => ?_)
        split_ifs at hc with hactive
        · exact absurd ⟨Option.some.inj hc, hactive⟩ hinst
        · cases hc
    | @replace inst' at_ =>
      exact .inl (h.setCall hslot fun hc => hcall (by rw [at_]; exact hc))
    | @arm inst' at_ =>
      have h' : (r.setTask i ⟨inst', .checking⟩).Bears inst :=
        h.setCall (fun hs => by cases hs) fun hc => by cases hc
      exact .inl (h'.setTask hslot fun ht => hcall (by rw [at_]; exact ht))
    | @keyless lease at_ | @deleted key lease reached at_ =>
      refine .inl (h.setCall hslot fun hc => ?_)
      cases lease <;> cases hc
    | _ => exact .inl (h.setCall hslot fun hc => by cases hc)
  | @task k t l r' ht move =>
    have hown : some t.inst = some inst → r.Bears inst := fun hi => .task ht hi
    cases move <;> exact .inl (h.setTask hslot hown)
  | @answer k t lease requests replies consumed ht at_ =>
    exact .inl (h.setTask hslot fun hi => .task ht hi)
  | expire lease => exact .inl h

/-! ## What a registry does to etcd -/

/-- An operation under a key the registry names, or a lease it holds; or a lease runs out. -/
inductive Own (r : EtcdRegistry) (l : EtcdLabel) : Op String ServiceInstance → Prop
  | grant (id : ℕ) : Own r l (.grant id r.config.leaseTtl)
  | put {k id : ℕ} {t : Heartbeat} (ht : r.tasks k = some t) (at_ : t.state.lease = some id) :
      Own r l (.put (r.config.keyOf t.inst) (r.reread t.inst) id)
  | delete {key : String} (found : Bool) (names : r.Names key) : Own r l (.delete key found)
  | revoke {id : ℕ} (keys : List String) (holds : r.Holds id) : Own r l (.release id .revoked keys)
  | expire {id : ℕ} (keys : List String) (label : l = .expire id) :
      Own r l (.release id .expired keys)

/-- **Every step is at most one operation of the registry's own.** -/
theorem EtcdMove.stored {l : EtcdLabel} (move : EtcdMove r l r') :
    r'.etcd = r.etcd ∨ ∃ op, r.Own l op ∧ r.etcd.apply op = some r'.etcd := by
  cases move with
  | @call i l r' move =>
    cases move with
    | @deleted key lease reached at_ =>
      cases reached with
      | false => exact .inl rfl
      | true =>
        exact .inr ⟨.delete key (r.etcd.entries.lookup key).isSome,
          .delete _ (.call (i := i) (by rw [at_]; rfl)), if_pos rfl⟩
    | @revoked lease reached at_ =>
      cases reached with
      | false => exact .inl rfl
      | true =>
        obtain ⟨keys, hkeys⟩ := r.etcd.exists_lists lease
        exact .inr ⟨.release lease .revoked keys, .revoke _ (.call (i := i) (by rw [at_]; rfl)),
          if_pos hkeys⟩
    | _ => exact .inl rfl
  | @task k t l r' ht move =>
    cases move with
    | @granted lease ok at_ fresh => exact .inr ⟨_, .grant lease, dif_pos fresh⟩
    | put ok at_ live => exact .inr ⟨_, .put ht (by rw [at_]; rfl), dif_pos live⟩
    | _ => exact .inl rfl
  | answer ht at_ => exact .inl rfl
  | expire lease =>
    obtain ⟨keys, hkeys⟩ := r.etcd.exists_lists lease
    exact .inr ⟨.release lease .expired keys, .expire _ rfl, if_pos hkeys⟩

end EtcdRegistry

/-! ## The fleet -/

/-- Registries that share one etcd; what a registry has for its own is read off `registries`, what
etcd holds off `etcd`. -/
structure Fleet where
  etcd : Etcd
  registries : ℕ → EtcdRegistry

namespace Fleet

variable {F F' : Fleet} {w : List (ℕ × EtcdLabel)} {j j' : ℕ} {l : EtcdLabel} {key : String}
  {id : ℕ} {owner : String → ℕ} {reread : ServiceInstance → ServiceInstance}

/-- A registry, over what etcd holds now. -/
def registry (F : Fleet) (j : ℕ) : EtcdRegistry := (F.registries j).withEtcd F.etcd

/-- Registry `j` has become `r`, and what `r` did to etcd shows to all. -/
@[simps]
def setRegistry (F : Fleet) (j : ℕ) (r : EtcdRegistry) : Fleet where
  etcd := r.etcd
  registries := Function.update F.registries j r

@[simp] theorem registry_setRegistry_self (F : Fleet) (j : ℕ) (r : EtcdRegistry) :
    (F.setRegistry j r).registry j = r := by
  rw [registry, setRegistry_registries, Function.update_self]
  rfl

theorem registry_setRegistry_of_ne (F : Fleet) (r : EtcdRegistry) (h : j' ≠ j) :
    (F.setRegistry j r).registry j' = (F.registry j').withEtcd r.etcd := by
  rw [registry, setRegistry_registries, Function.update_of_ne h]
  rfl

/-- One of the registries takes a step. -/
def step (F : Fleet) : ℕ × EtcdLabel → Option Fleet
  | (j, l) => ((F.registry j).step l).map (F.setRegistry j)

/-- Registries nobody has called yet, over whatever etcd holds. -/
def new (configs : ℕ → RegistryConfig) (reread : ServiceInstance → ServiceInstance)
    (etcd : Etcd) : Fleet :=
  ⟨etcd, fun j => .new (configs j) reread etcd⟩

/-- Registry `j` registers only instances whose keys are its own. -/
def RegistersOwn (owner : String → ℕ) (F : Fleet) : ℕ × EtcdLabel → Prop
  | (j, .call _ (.register inst)) => owner ((F.registry j).config.keyOf inst) = j
  | _ => True

instance (owner : String → ℕ) (F : Fleet) : DecidablePred (F.RegistersOwn owner) := fun l => by
  unfold RegistersOwn
  split <;> infer_instance

/-! ## No lease is held by two registries -/

/-- Every registry names keys of its own and holds leases of its own, granted by etcd, and only keys
of its own are under them. -/
structure Separate (owner : String → ℕ) (F : Fleet) : Prop where
  names : ∀ j key, (F.registry j).Names key → owner key = j
  granted : ∀ j id, (F.registry j).Holds id → F.etcd.state id ≠ none
  under : ∀ j id, (F.registry j).Holds id → ∀ key value,
    F.etcd.entries.lookup key = some (value, id) → owner key = j
  disjoint : ∀ j j' id, (F.registry j).Holds id → (F.registry j').Holds id → j = j'

theorem separate_new (configs : ℕ → RegistryConfig) (reread : ServiceInstance → ServiceInstance)
    (etcd : Etcd) : (new configs reread etcd).Separate owner := by
  have hnames : ∀ j key, ¬ ((new configs reread etcd).registry j).Names key := by
    intro j key h
    cases h with
    | slot stored => cases stored
    | call inHand => cases inHand
    | task ht => cases ht
  have hholds : ∀ j id, ¬ ((new configs reread etcd).registry j).Holds id := by
    intro j id h
    cases h with
    | slot stored => cases stored
    | call inHand => cases inHand
    | task ht => cases ht
  exact ⟨fun j key h => absurd h (hnames j key), fun j id h => absurd h (hholds j id),
    fun j id h => absurd h (hholds j id), fun j _ id h => absurd h (hholds j id)⟩

/-- A lease held after a step was held before, by the same registry, or is new and held by the one
that took the step. -/
theorem holds_of_step {r : EtcdRegistry} (move : EtcdRegistry.EtcdMove (F.registry j) l r)
    (h : ((F.setRegistry j r).registry j').Holds id) :
    (F.registry j').Holds id ∨ j' = j ∧ F.etcd.state id = none ∧ r.etcd.state id = some .live := by
  rcases eq_or_ne j' j with rfl | hne
  · rw [registry_setRegistry_self] at h
    exact (move.holds h).imp (fun hold => hold) fun hnew => ⟨rfl, hnew⟩
  · rw [registry_setRegistry_of_ne F r hne] at h
    exact .inl h

/-- **An entry that is new after a step** is under a key and a lease of the registry's own. -/
theorem Separate.entry_of_step (h : F.Separate owner) {r : EtcdRegistry}
    (move : EtcdRegistry.EtcdMove (F.registry j) l r) {value : ServiceInstance}
    (hentry : r.etcd.entries.lookup key = some (value, id)) :
    F.etcd.entries.lookup key = some (value, id) ∨ owner key = j ∧ (F.registry j).Holds id := by
  rcases move.stored with hetcd | ⟨op, hown, happly⟩
  · rw [hetcd] at hentry
    exact .inl hentry
  · refine (lookup_of_apply happly hentry).imp (fun hold => hold) ?_
    rintro ⟨rfl, -⟩
    cases hown with
    | put ht at_ => exact ⟨h.names j _ (.task ht rfl), .task ht at_⟩

theorem Separate.step (h : F.Separate owner) (hl : F.RegistersOwn owner (j, l))
    (hstep : F.step (j, l) = some F') : F'.Separate owner := by
  obtain ⟨r, hr, rfl⟩ := Option.map_eq_some_iff.mp hstep
  have move := EtcdRegistry.move_of_step hr
  refine ⟨fun j' key hkey => ?_, fun j' id hid => ?_, fun j' id hid key value hentry => ?_,
    fun j' j'' id hid hid' => ?_⟩
  · rcases eq_or_ne j' j with rfl | hne
    · rw [registry_setRegistry_self] at hkey
      rcases move.names hkey with hkey | ⟨i, inst, rfl, rfl⟩
      · exact h.names j' key hkey
      · exact hl
    · rw [registry_setRegistry_of_ne F r hne] at hkey
      exact h.names j' key hkey
  · rcases holds_of_step move hid with hid | ⟨-, -, hlive⟩
    · exact fun hnone => h.granted j' id hid (move.evolves.granted id hnone)
    · rw [setRegistry_etcd, hlive]
      simp
  · rcases h.entry_of_step move hentry with hold | ⟨howner, hholds⟩ <;>
      rcases holds_of_step move hid with hid' | ⟨rfl, hnone, -⟩
    · exact h.under j' id hid' key value hold
    · exact absurd (hnone.symm.trans (F.etcd.attached key value id hold)) (by simp)
    · exact howner.trans (h.disjoint j j' id hholds hid')
    · exact howner
  · rcases holds_of_step move hid with hold | ⟨rfl, hnone, -⟩ <;>
      rcases holds_of_step move hid' with hold' | ⟨rfl, hnone', -⟩
    · exact h.disjoint j' j'' id hold hold'
    · exact absurd hnone' (h.granted j' id hold)
    · exact absurd hnone (h.granted j'' id hold')
    · rfl

/-! ## Where the entries come from -/

section Provenance

variable {configs : ℕ → RegistryConfig} {start : Etcd} {P : ℕ → ServiceInstance → Prop}

/-- Registry `j` registers only instances with `P j`, and every entry is one of theirs, as it reads
back, or was there at the start. -/
structure Sourced (configs : ℕ → RegistryConfig) (reread : ServiceInstance → ServiceInstance)
    (start : Etcd) (P : ℕ → ServiceInstance → Prop) (F : Fleet) : Prop where
  config : ∀ j, (F.registry j).config = configs j
  reread_eq : ∀ j, (F.registry j).reread = reread
  bears : ∀ j inst, (F.registry j).Bears inst → P j inst ∧ (configs j).active
  entries : ∀ key value id, F.etcd.entries.lookup key = some (value, id) →
    start.entries.lookup key = some (value, id)
      ∨ ∃ j inst, P j inst ∧ (configs j).active ∧ key = (configs j).keyOf inst
        ∧ value = reread inst

theorem sourced_new : (new configs reread start).Sourced configs reread start P where
  config _ := rfl
  reread_eq _ := rfl
  bears j inst h := by
    cases h with
    | slot stored => cases stored
    | call inHand => cases inHand
    | task ht => cases ht
  entries _ _ _ hentry := .inl hentry

theorem Sourced.step (h : F.Sourced configs reread start P)
    (hl : ∀ i inst, l = .call i (.register inst) → P j inst) (hstep : F.step (j, l) = some F') :
    F'.Sourced configs reread start P := by
  obtain ⟨r, hr, rfl⟩ := Option.map_eq_some_iff.mp hstep
  have move := EtcdRegistry.move_of_step hr
  refine ⟨fun j' => ?_, fun j' => ?_, fun j' inst hinst => ?_, fun key value id hentry => ?_⟩
  · rcases eq_or_ne j' j with rfl | hne
    · rw [registry_setRegistry_self, move.config, h.config]
    · rw [registry_setRegistry_of_ne F r hne]
      exact h.config j'
  · rcases eq_or_ne j' j with rfl | hne
    · rw [registry_setRegistry_self, move.reread, h.reread_eq]
    · rw [registry_setRegistry_of_ne F r hne]
      exact h.reread_eq j'
  · rcases eq_or_ne j' j with rfl | hne
    · rw [registry_setRegistry_self] at hinst
      rcases move.bears hinst with hinst | ⟨i, rfl, hactive⟩
      · exact h.bears j' inst hinst
      · exact ⟨hl i inst rfl, h.config j' ▸ hactive⟩
    · rw [registry_setRegistry_of_ne F r hne] at hinst
      exact h.bears j' inst hinst
  · rcases move.stored with hetcd | ⟨op, hown, happly⟩
    · rw [setRegistry_etcd, hetcd] at hentry
      exact h.entries key value id hentry
    · rcases lookup_of_apply happly hentry with hold | ⟨rfl, -⟩
      · exact h.entries key value id hold
      · cases hown with
        | @put k _ t ht at_ =>
          obtain ⟨hP, hactive⟩ := h.bears j t.inst (.task ht rfl)
          exact .inr ⟨j, t.inst, hP, hactive, by rw [h.config], by rw [h.reread_eq]⟩

/-- Every entry was put by a registry that was told to register it. -/
theorem sourced_of_run (hrun : run step (new configs reread .empty) w = some F) :
    F.Sourced configs reread .empty fun j inst => ∃ i, (j, EtcdLabel.call i (.register inst)) ∈ w :=
  invariant_run (C := fun _ l => l ∈ w)
    (fun _ _ _ h hl hstep => h.step (fun i _ heq => ⟨i, heq ▸ hl⟩) hstep) sourced_new
    (eachStep_of_forall_mem fun _ hl => hl) hrun

/-- **What is listed has been registered.**  However the steps of the fleet interleave, and whatever
fails or runs out, an instance that any registry lists is what one reads back as that was handed to
a `register` of the fleet, with a key under the prefix of the service, by a process whose registry
is switched on. -/
theorem listed_registered (hrun : run step (new configs reread .empty) w = some F)
    (config : RegistryConfig) (serviceName : String) {value : ServiceInstance}
    (hvalue : value ∈ listInstances config F.etcd serviceName) :
    ∃ j i inst, (j, EtcdLabel.call i (.register inst)) ∈ w ∧ (configs j).active
      ∧ (config.makeServicePrefix serviceName).toList <+: ((configs j).keyOf inst).toList
      ∧ value = reread inst := by
  obtain ⟨-, key, id, hentry, hprefix⟩ := entry_of_listed hvalue
  rcases (sourced_of_run hrun).entries key value id hentry with
    hstart | ⟨j, inst, ⟨i, hi⟩, hactive, rfl, hread⟩
  · cases hstart
  · exact ⟨j, i, inst, hi, hactive, hprefix, hread⟩

end Provenance

/-- Process `j` registers an instance and is granted a lease. -/
def joining (j : ℕ) (inst : ServiceInstance) (lease : ℕ) : List (ℕ × EtcdLabel) :=
  [.call 0 (.register inst), .call 0 .cancel, .call 0 .arm, .task 0 .check,
    .task 0 (.connected true), .task 0 (.granted lease true), .task 0 (.put true),
    .task 0 .storeKey, .task 0 .storeLease].map (j, ·)

def order : ServiceInstance := .simple "order-svc" "10.0.0.1" 8080

/-- `listed_registered` for one process. -/
theorem listed_registered_order :
    ∃ F, run step (new (fun _ => .default) (fun inst => inst) .empty) (joining 0 order 7) = some F
      ∧ ∃ j i inst, (j, EtcdLabel.call i (.register inst)) ∈ joining 0 order 7
        ∧ RegistryConfig.default.active
        ∧ (RegistryConfig.default.makeServicePrefix "order-svc").toList
          <+: (RegistryConfig.default.keyOf inst).toList
        ∧ order = inst := by
  obtain ⟨F, hrun⟩ : ∃ F, run step (new (fun _ => .default) (fun inst => inst) .empty)
    (joining 0 order 7) = some F := ⟨_, rfl⟩
  refine ⟨F, hrun, listed_registered hrun .default "order-svc" ?_⟩
  obtain rfl := Option.some.inj hrun
  rw [listInstances, if_pos (by decide +kernel), LeaseStore.mem_range]
  exact ⟨RegistryConfig.default.keyOf order, by decide +kernel, by decide +kernel⟩

/-! ## The others -/

/-- A step of registry `j` spares the keys of the others, but for those on a lease that runs out. -/
theorem Separate.spares (h : F.Separate owner) {op : Op String ServiceInstance}
    (hown : (F.registry j).Own l op) (hkey : owner key ≠ j)
    (hexpire : ∀ value id, F.etcd.entries.lookup key = some (value, id) → l ≠ .expire id) :
    op.Spares F.etcd key := by
  cases hown with
  | grant id => trivial
  | put ht at_ =>
    rintro rfl
    exact hkey (h.names j _ (.task ht rfl))
  | delete found names =>
    rintro rfl
    exact hkey (h.names j _ names)
  | revoke keys holds => exact fun value hentry => hkey (h.under j _ holds key value hentry)
  | expire keys label => exact fun value hentry => hexpire value _ hentry label

/-- A step of registry `j` leaves the leases of the others as they are, but for one that runs
out. -/
theorem Separate.state_eq (h : F.Separate owner) (hstep : F.step (j, l) = some F')
    (hheld : (F.registry j').Holds id) (hne : j' ≠ j) (hexpire : l ≠ .expire id) :
    F'.etcd.state id = F.etcd.state id := by
  obtain ⟨r, hr, rfl⟩ := Option.map_eq_some_iff.mp hstep
  rcases (EtcdRegistry.move_of_step hr).stored with hetcd | ⟨op, hown, happly⟩
  · rw [setRegistry_etcd, hetcd]
    rfl
  · refine state_apply happly ?_ ?_
    · rintro ttl rfl
      obtain ⟨fresh, -⟩ := eq_of_grant happly
      exact h.granted j' id hheld fresh
    · rintro outcome keys rfl
      cases hown with
      | revoke keys holds => exact hne (h.disjoint j' j id hheld holds)
      | expire keys label => exact hexpire label

/-- A step of registry `j` leaves the keys of the others as they are, but for those on a lease that
runs out. -/
theorem Separate.lookup_eq (h : F.Separate owner) (hstep : F.step (j, l) = some F')
    (hkey : owner key ≠ j)
    (hexpire : ∀ value id, F.etcd.entries.lookup key = some (value, id) → l ≠ .expire id) :
    F'.etcd.entries.lookup key = F.etcd.entries.lookup key := by
  obtain ⟨r, hr, rfl⟩ := Option.map_eq_some_iff.mp hstep
  rcases (EtcdRegistry.move_of_step hr).stored with hetcd | ⟨op, hown, happly⟩
  · exact congrArg (fun etcd : Etcd => etcd.entries.lookup key) hetcd
  · exact lookup_apply_of_spares happly (h.spares hown hkey hexpire)

/-- **Registries whose instances have different keys do not meet.**  However the steps of the fleet
interleave, a step of one registry leaves the keys and the leases of the others as they are, but for
a lease that runs out. -/
theorem others_unchanged (owner : String → ℕ) (configs : ℕ → RegistryConfig)
    (reread : ServiceInstance → ServiceInstance) (etcd : Etcd)
    (hw : EachStep step (RegistersOwn owner) (new configs reread etcd) w)
    (hrun : run step (new configs reread etcd) w = some F) (hstep : F.step (j, l) = some F') :
    (∀ key, owner key ≠ j →
      (∀ value id, F.etcd.entries.lookup key = some (value, id) → l ≠ .expire id) →
      F'.etcd.entries.lookup key = F.etcd.entries.lookup key)
    ∧ ∀ j' id, j' ≠ j → (F.registry j').Holds id → l ≠ .expire id →
      F'.etcd.state id = F.etcd.state id := by
  have hseparate : F.Separate owner :=
    invariant_run (fun _ _ _ h hl hstep => h.step hl hstep) (separate_new configs reread etcd)
      hw hrun
  exact ⟨fun key hkey hexpire => hseparate.lookup_eq hstep hkey hexpire,
    fun j' id hne hheld hexpire => hseparate.state_eq hstep hheld hne hexpire⟩

/-- Process `j` deregisters, and is about to delete its key. -/
def leaving (j : ℕ) : List (ℕ × EtcdLabel) :=
  [.call 1 .deregister, .call 1 .cancel, .call 1 .takeKey, .call 1 .takeLease,
    .call 1 (.connected true)].map (j, ·)

def stock : ServiceInstance := .simple "stock-svc" "10.0.0.2" 8080

/-- Process 0 registers `order`, everything else is of process 1. -/
def ownerOf (key : String) : ℕ := if key = RegistryConfig.default.keyOf order then 0 else 1

/-- `others_unchanged` for a process that leaves, beside one that stays. -/
theorem others_unchanged_leaving :
    ∃ F F', run step (new (fun _ => .default) (fun inst => inst) .empty)
        (joining 0 order 7 ++ joining 1 stock 8 ++ leaving 1) = some F
      ∧ F.step (1, .call 1 (.deleted true)) = some F'
      ∧ F'.etcd.entries.lookup (RegistryConfig.default.keyOf order) = some (order, 7) := by
  refine ⟨_, _, rfl, rfl, ?_⟩
  have hunchanged := (others_unchanged ownerOf (fun _ => .default) (fun inst => inst) .empty
    (j := 1) (l := .call 1 (.deleted true))
    (w := joining 0 order 7 ++ joining 1 stock 8 ++ leaving 1) (by decide +kernel) rfl rfl).1
    (RegistryConfig.default.keyOf order) (by decide +kernel) (fun _ _ _ h => by cases h)
  exact hunchanged.trans (by decide +kernel)

end Fleet

end PecsRegistry
