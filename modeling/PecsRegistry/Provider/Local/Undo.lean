import PecsRegistry.Provider.Local.Updates

/-!
# Provider/Local/Undo — what a `deregister` takes back

A handle stores every instance it registers, but remembers one of them, the last: `deregister`
removes that one and tells the watchers.  So it undoes every registration made since the previous
`deregister` if and only if they were all for one name and id (`undone_iff`); a registration of
another stays in the store, unannounced.  What was filed without registering always stays.
-/

namespace PecsRegistry

open Writes

/-- A name and id. -/
def ServiceInstance.key (inst : ServiceInstance) : String × String := (inst.name, inst.serviceId)

namespace LocalUpdate

/-- The name and id that a `register` is for. -/
def registers : LocalUpdate → Option (String × String)
  | .register inst => some inst.key
  | _ => none

/-- The name and id that an `add_instance` or a `remove_instance` is for. -/
def files : LocalUpdate → Option (String × String)
  | .addInstance inst => some inst.key
  | .removeInstance serviceName serviceId => some (serviceName, serviceId)
  | _ => none

end LocalUpdate

namespace LocalSystem

variable {s : LocalSystem} {u : LocalUpdate} {us : List LocalUpdate} {key : String × String}

/-- What is stored under a name and id. -/
def stored (s : LocalSystem) (key : String × String) : Option ServiceInstance := s.view key.1 key.2

/-- Operations made one after another. -/
def updates (s : LocalSystem) (us : List LocalUpdate) : LocalSystem := us.foldl update s

/-- The names and ids registered, in order. -/
def registered (us : List LocalUpdate) : List (String × String) :=
  us.filterMap LocalUpdate.registers

/-- Registrations, mixed with operations that file and remove other names and ids. -/
def Mixed (us : List LocalUpdate) : Prop :=
  ∀ u ∈ us, u ≠ .clear ∧ u ≠ .deregister ∧ ∀ key ∈ u.files, key ∉ registered us

instance : DecidablePred Mixed := fun us =>
  inferInstanceAs (Decidable (∀ u ∈ us, u ≠ .clear ∧ u ≠ .deregister ∧ ∀ key ∈ u.files, _))

/-- **Every registration is undone** by a `deregister` after the operations: nothing that was
registered is stored any more, the removal of what was stored is broadcast, and what was filed
since, and not removed, is still there. -/
structure Undone (s : LocalSystem) (us : List LocalUpdate) : Prop where
  removed : ∀ key ∈ registered us, ((s.updates us).update .deregister).stored key = none
  announced : ∀ key ∈ registered us, ((s.updates us).stored key).isSome →
    (s.updates us).announced .deregister = some (.delete key.1 key.2)
  kept : ∀ pre inst post, us = pre ++ .addInstance inst :: post →
    (∀ u ∈ post, u ≠ .removeInstance inst.name inst.serviceId) →
    (((s.updates us).update .deregister).stored inst.key).isSome

/-! ## One operation -/

theorem stored_file (reg : LocalRegistry) (inst : ServiceInstance) :
    (reg.file inst).view key.1 key.2
      = if inst.key = key then some inst else reg.view key.1 key.2 := by
  rw [LocalRegistry.view, LocalRegistry.file, InstanceStore.view_insert]
  by_cases hname : inst.name = key.1
  · simp [hname, Write.apply_put, Function.update_apply, ServiceInstance.key, Prod.ext_iff,
      eq_comm, LocalRegistry.view]
  · simp [hname, ServiceInstance.key, Prod.ext_iff, LocalRegistry.view]

theorem stored_unfile (reg : LocalRegistry) (serviceName serviceId : String) :
    (reg.unfile serviceName serviceId).view key.1 key.2
      = if (serviceName, serviceId) = key then none else reg.view key.1 key.2 := by
  rw [LocalRegistry.view, LocalRegistry.unfile, InstanceStore.view_remove]
  by_cases hname : serviceName = key.1
  · simp [hname, Write.apply_drop, Function.update_apply, Prod.ext_iff, eq_comm,
      LocalRegistry.view]
  · simp [hname, Prod.ext_iff, LocalRegistry.view]

/-- Only a `clear`, a `deregister` or a removal of the name and id takes something off the store. -/
theorem isSome_stored_update (h : (s.stored key).isSome) (hclear : u ≠ .clear)
    (hderegister : u ≠ .deregister) (hremove : u ≠ .removeInstance key.1 key.2) :
    ((s.update u).stored key).isSome := by
  cases u with
  | addInstance inst | register inst =>
    have hview : (s.registry.file inst).view key.1 key.2 = _ := stored_file s.registry inst
    change ((s.registry.file inst).view key.1 key.2).isSome
    rw [hview]
    split_ifs
    · rfl
    · exact h
  | removeInstance serviceName serviceId =>
    change ((s.registry.unfile serviceName serviceId).view key.1 key.2).isSome
    rw [stored_unfile, if_neg fun hkey => hremove (by rw [← hkey])]
    exact h
  | clear => exact absurd rfl hclear
  | deregister => exact absurd rfl hderegister

/-- **A `deregister` takes back the last registration**, and leaves every other name and id. -/
theorem stored_deregister (s : LocalSystem) :
    (s.update .deregister).stored key
      = if s.registeredKey = some key then none else s.stored key := by
  cases hkey : s.registeredKey with
  | none => simp [update, hkey]
  | some last =>
    simp only [stored, view, update, hkey, Option.some.injEq]
    exact stored_unfile s.registry last.1 last.2

/-! ## A sequence of them -/

/-- The slot holds the last registration. -/
theorem registeredKey_updates (hmixed : ∀ u ∈ us, u ≠ .deregister) :
    (s.updates us).registeredKey = (registered us).getLast?.or s.registeredKey := by
  induction us using List.reverseRecOn with
  | nil => rfl
  | append_singleton us u ih =>
    specialize ih fun v hv => hmixed v (List.mem_append_left [u] hv)
    rw [updates, List.foldl_concat, registered, List.filterMap_append, List.getLast?_append]
    cases u with
    | register inst => rfl
    | deregister => exact absurd rfl (hmixed _ (by simp))
    | _ => exact ih

theorem isSome_stored_updates (h : (s.stored key).isSome)
    (hkeep : ∀ u ∈ us, u ≠ .clear ∧ u ≠ .deregister ∧ u ≠ .removeInstance key.1 key.2) :
    ((s.updates us).stored key).isSome := by
  induction us generalizing s with
  | nil => exact h
  | cons u us ih =>
    obtain ⟨hclear, hderegister, hremove⟩ := hkeep u List.mem_cons_self
    exact ih (isSome_stored_update h hclear hderegister hremove)
      fun u hu => hkeep u (List.mem_cons_of_mem _ hu)

/-- What an operation files or registers, and no later one removes, is stored. -/
theorem isSome_stored_of_filed {inst : ServiceInstance} {pre post : List LocalUpdate}
    (hu : u = .addInstance inst ∨ u = .register inst)
    (hkeep : ∀ u ∈ post, u ≠ .clear ∧ u ≠ .deregister
      ∧ u ≠ .removeInstance inst.name inst.serviceId) :
    ((s.updates (pre ++ u :: post)).stored inst.key).isSome := by
  have hfiled : (((s.updates pre).update u).stored inst.key).isSome := by
    have hview : ((s.updates pre).registry.file inst).view inst.key.1 inst.key.2 = some inst :=
      (stored_file ..).trans (if_pos rfl)
    rcases hu with rfl | rfl <;> exact Option.isSome_iff_exists.mpr ⟨inst, hview⟩
  rw [updates, List.foldl_append, List.foldl_cons]
  exact isSome_stored_updates hfiled hkeep

/-- A registration is stored until the next `deregister`. -/
theorem isSome_stored_of_registered (hmixed : Mixed us) (hkey : key ∈ registered us) :
    ((s.updates us).stored key).isSome := by
  obtain ⟨u, hu, hregisters⟩ := List.mem_filterMap.mp hkey
  obtain ⟨inst, rfl, rfl⟩ : ∃ inst, u = .register inst ∧ inst.key = key := by
    cases u <;> simp_all [LocalUpdate.registers]
  obtain ⟨pre, post, rfl⟩ := List.append_of_mem hu
  refine isSome_stored_of_filed (.inr rfl) fun v hv => ?_
  obtain ⟨hclear, hderegister, hother⟩ :=
    hmixed v (List.mem_append_right _ (List.mem_cons_of_mem _ hv))
  refine ⟨hclear, hderegister, fun hremove => ?_⟩
  exact hother inst.key (by rw [hremove]; rfl) hkey

/-- The slot holds the last of the registrations made since it was empty. -/
theorem registeredKey_of_mixed (hslot : s.registeredKey = none) (hmixed : Mixed us) :
    (s.updates us).registeredKey = (registered us).getLast? := by
  rw [registeredKey_updates fun u hu => (hmixed u hu).2.1, hslot, Option.or_none]

/-- **Only the last registration is undone**: the `deregister` leaves any other stored. -/
theorem Undone.eq_last (h : Undone s us) (hslot : s.registeredKey = none) (hmixed : Mixed us)
    (hkey : key ∈ registered us) : (registered us).getLast? = some key := by
  by_contra hother
  have hsome := isSome_stored_of_registered (s := s) hmixed hkey
  have hnone := h.removed key hkey
  rw [stored_deregister, registeredKey_of_mixed hslot hmixed, if_neg hother] at hnone
  rw [hnone] at hsome
  exact absurd hsome (by simp)

/-- A last registration that all others agree with is the one the slot holds. -/
theorem registeredKey_of_agree (hslot : s.registeredKey = none) (hmixed : Mixed us)
    (hone : ∀ key ∈ registered us, ∀ key' ∈ registered us, key = key')
    (hkey : key ∈ registered us) : (s.updates us).registeredKey = some key := by
  obtain ⟨last, hgetLast⟩ := Option.isSome_iff_exists.mp
    (List.getLast?_isSome.mpr (List.ne_nil_of_mem hkey))
  rw [registeredKey_of_mixed hslot hmixed, hgetLast,
    hone key hkey last (List.mem_of_getLast? hgetLast)]

/-- **What a `deregister` undoes, exactly.**  After any registrations since the last one, mixed with
the filing and removal of other names and ids, every registration is undone, if and only if all of
them were for one name and id. -/
theorem undone_iff (hslot : s.registeredKey = none) (hmixed : Mixed us) :
    Undone s us ↔ ∀ key ∈ registered us, ∀ key' ∈ registered us, key = key' := by
  constructor
  · intro h key hkey key' hkey'
    exact Option.some.inj
      ((h.eq_last hslot hmixed hkey).symm.trans (h.eq_last hslot hmixed hkey'))
  · intro hone
    refine ⟨fun key hkey => ?_, fun key hkey _ => ?_, fun pre inst post hus hkeep => ?_⟩
    · rw [stored_deregister, if_pos (registeredKey_of_agree hslot hmixed hone hkey)]
    · rw [LocalSystem.announced, registeredKey_of_agree hslot hmixed hone hkey]
      rfl
    · -- another name and id than the slot's
      have hfree : inst.key ∉ registered us :=
        (hmixed (.addInstance inst) (by rw [hus]; simp)).2.2 inst.key rfl
      have hslot' : (s.updates us).registeredKey ≠ some inst.key := by
        rw [registeredKey_of_mixed hslot hmixed]
        exact fun hlast => hfree (List.mem_of_getLast? hlast)
      rw [stored_deregister, if_neg hslot', hus]
      refine isSome_stored_of_filed (.inl rfl) fun u hu => ?_
      obtain ⟨hclear, hderegister, -⟩ := hmixed u (by rw [hus]; simp [hu])
      exact ⟨hclear, hderegister, hkeep u hu⟩

/-- One instance registered twice, among others filed and removed. -/
def registeredTwice : List LocalUpdate :=
  [.register (.simple "order-svc" "127.0.0.1" 8080),
    .addInstance (.simple "order-svc" "127.0.0.1" 8081),
    .removeInstance "user-svc" "user-svc-127.0.0.1-9090",
    .register (.simple "order-svc" "127.0.0.1" 8080)]

theorem undone_iff_registeredTwice : Undone new registeredTwice
    ↔ ∀ key ∈ registered registeredTwice, ∀ key' ∈ registered registeredTwice, key = key' :=
  undone_iff rfl (by decide +kernel)

/-- Two instances of a service registered on one handle. -/
def registeredPair : List LocalUpdate :=
  [.register (.simple "payment-svc" "127.0.0.1" 8081),
    .register (.simple "payment-svc" "127.0.0.1" 8082)]

/-- **The first registration is not undone.** -/
theorem first_left_stored : ¬ ∀ (s : LocalSystem) (us : List LocalUpdate),
    s.registeredKey = none → Mixed us → Undone s us := by
  intro h
  have hremoved := (h new registeredPair rfl (by decide +kernel)).removed
    ("payment-svc", "payment-svc-127.0.0.1-8081") (by decide +kernel)
  exact absurd hremoved (by decide +kernel)

end LocalSystem

end PecsRegistry
