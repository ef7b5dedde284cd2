import PecsRegistry.Foundations.Instance
import PecsRegistry.Machinery.Writes

/-!
# Directory/Snapshot — one event applied to the list of a service

`newList` is the list surgery of `ServiceDirectory::apply_event`.  Read as a map from service id
to instance (`byId`), it is one write (`newList_byId`), also on lists that repeat an id: an
upsert replaces the first instance of its id, which is the one the map shows, and a delete removes
them all.
-/

namespace PecsRegistry

open Writes

/-- The list of a service after an event. -/
def newList (list : List ServiceInstance) : ServiceEvent → List ServiceInstance
  | .upsert inst =>
      match list.findIdx? (fun i => i.serviceId = inst.serviceId) with
      | some pos => list.set pos inst
      | none => list ++ [inst]
  | .delete _ serviceId => list.filter (fun i => i.serviceId ≠ serviceId)
  | .reset all => all

/-- A list read as a map from service id to instance: the first instance of the id. -/
def byId (list : List ServiceInstance) (id : String) : Option ServiceInstance :=
  list.find? (fun i => i.serviceId = id)

/-- The write an event stands for. -/
def ServiceEvent.write : ServiceEvent → Write String ServiceInstance
  | .upsert inst => .put inst.serviceId inst
  | .delete _ serviceId => .drop serviceId
  | .reset all => .reset (byId all)

/-- Replacing the first instance of an id. -/
theorem byId_set {list : List ServiceInstance} {inst : ServiceInstance} {pos : ℕ}
    (h : list.findIdx? (fun i => i.serviceId = inst.serviceId) = some pos) :
    byId (list.set pos inst) = Function.update (byId list) inst.serviceId (some inst) := by
  induction list generalizing pos with
  | nil => simp at h
  | cons i list ih =>
    funext id
    rw [List.findIdx?_cons] at h
    by_cases hi : i.serviceId = inst.serviceId
    · obtain rfl : 0 = pos := by simpa [hi] using h
      by_cases hid : id = inst.serviceId
      · simp [byId, hid]
      · simp [byId, hid, hi, Ne.symm hid]
    · obtain ⟨pos', hpos', rfl⟩ : ∃ p, list.findIdx? (fun i => i.serviceId = inst.serviceId)
          = some p ∧ p + 1 = pos := by simpa [hi] using h
      have hrest := congrFun (ih hpos') id
      rw [List.set_cons_succ]
      by_cases hid : i.serviceId = id
      · have hne : id ≠ inst.serviceId := fun h' => hi (hid.trans h')
        simp [byId, hid, hne]
      · simpa [byId, hid, Function.update_apply] using hrest

theorem byId_append_of_absent {list : List ServiceInstance} {inst : ServiceInstance}
    (h : list.findIdx? (fun i => i.serviceId = inst.serviceId) = none) :
    byId (list ++ [inst]) = Function.update (byId list) inst.serviceId (some inst) := by
  funext id
  have habsent : ∀ i ∈ list, i.serviceId ≠ inst.serviceId := by
    simpa [List.findIdx?_eq_none_iff] using h
  rcases eq_or_ne id inst.serviceId with rfl | hid
  · have hnone : list.find? (fun i => i.serviceId = inst.serviceId) = none := by
      simpa [List.find?_eq_none] using habsent
    simp [byId, List.find?_append, hnone]
  · simp [byId, List.find?_append, Function.update_of_ne hid, Ne.symm hid]

theorem byId_filter (list : List ServiceInstance) (id : String) :
    byId (list.filter (fun i => i.serviceId ≠ id)) = Function.update (byId list) id none := by
  funext id'
  rw [byId, List.find?_filter]
  rcases eq_or_ne id' id with rfl | hid
  · rw [Function.update_self, List.find?_eq_none]
    intro i _
    simp
  · rw [Function.update_of_ne hid]
    refine congrArg (fun p => list.find? p) (funext fun i => ?_)
    by_cases hi : i.serviceId = id'
    · simp [hi, hid]
    · simp [hi]

/-- **Applying an event is one write** to the map the list stands for. -/
theorem newList_byId (list : List ServiceInstance) (event : ServiceEvent) :
    byId (newList list event) = event.write.apply (byId list) := by
  cases event with
  | upsert inst =>
    rw [ServiceEvent.write, Write.apply_put, newList]
    split
    case h_1 pos hpos => exact byId_set hpos
    case h_2 hnone => exact byId_append_of_absent hnone
  | delete name id => rw [ServiceEvent.write, Write.apply_drop, newList, byId_filter]
  | reset all => rfl

/-- Whatever an event leaves in the list was there before, or came with the event. -/
theorem mem_newList {list : List ServiceInstance} {event : ServiceEvent} {i : ServiceInstance}
    (h : i ∈ newList list event) :
    i ∈ list ∨ event = .upsert i ∨ ∃ all, event = .reset all ∧ i ∈ all := by
  cases event with
  | upsert inst =>
    rw [newList] at h
    split at h
    · rcases List.mem_or_eq_of_mem_set h with hi | rfl
      · exact .inl hi
      · exact .inr (.inl rfl)
    · rcases List.mem_append.mp h with hi | hi
      · exact .inl hi
      · exact .inr (.inl (congrArg _ (List.mem_singleton.mp hi).symm))
  | delete name id => exact .inl (List.mem_filter.mp h).1
  | reset all => exact .inr (.inr ⟨all, rfl, h⟩)

/-! ## Event after event -/

/-- The list after a sequence of events, oldest first. -/
def listAfter (list : List ServiceInstance) (events : List ServiceEvent) : List ServiceInstance :=
  events.foldl newList list

theorem listAfter_snoc (list : List ServiceInstance) (events : List ServiceEvent)
    (event : ServiceEvent) :
    listAfter list (events ++ [event]) = newList (listAfter list events) event := List.foldl_append

theorem listAfter_take_succ {events : List ServiceEvent} {k : ℕ} {event : ServiceEvent}
    (h : events[k]? = some event) (list : List ServiceInstance) :
    listAfter list (events.take (k + 1)) = newList (listAfter list (events.take k)) event := by
  rw [List.take_add_one, h]
  exact listAfter_snoc _ _ _

/-- The events after the first `k` leave the list as the first `k` made it. -/
def Unmoved (list : List ServiceInstance) (events : List ServiceEvent) (k : ℕ) : Prop :=
  listAfter (listAfter list (events.take k)) (events.drop k) = listAfter list (events.take k)

instance (list : List ServiceInstance) (events : List ServiceEvent) (k : ℕ) :
    Decidable (Unmoved list events k) := inferInstanceAs (Decidable (_ = _))

theorem unmoved_iff {list : List ServiceInstance} {events : List ServiceEvent} {k : ℕ} :
    Unmoved list events k ↔ listAfter list (events.take k) = listAfter list events := by
  rw [Unmoved, eq_comm, listAfter, listAfter, ← List.foldl_append, List.take_append_drop, listAfter]

/-! ## The map and the ids -/

section

variable {l : List ServiceInstance} {id : String}

theorem isSome_byId : (byId l id).isSome ↔ id ∈ serviceIds l := by
  rw [byId, List.find?_isSome, mem_serviceIds]
  simp

theorem byId_eq_none (h : id ∉ l.map (·.serviceId)) : byId l id = none := by
  rw [← Option.not_isSome_iff_eq_none, isSome_byId, serviceIds, List.mem_toFinset]
  exact h

theorem serviceIds_reverse (l : List ServiceInstance) : serviceIds l.reverse = serviceIds l := by
  rw [serviceIds, List.map_reverse, List.toFinset_reverse, serviceIds]

theorem byId_append (l l' : List ServiceInstance) (id : String) :
    byId (l ++ l') id = (byId l id).or (byId l' id) := List.find?_append

theorem byId_cons (inst : ServiceInstance) (l : List ServiceInstance) (id : String) :
    byId (inst :: l) id = if inst.serviceId = id then some inst else byId l id := by
  rw [byId, List.find?_cons]
  split_ifs with h <;> simp [h, byId]

/-- A list stands for the map that shows exactly its instances. -/
theorem byId_eq_of_mem_iff {m : String → Option ServiceInstance}
    (hmem : ∀ inst, inst ∈ l ↔ m inst.serviceId = some inst)
    (hid : ∀ id inst, m id = some inst → inst.serviceId = id) : byId l = m := by
  funext id
  refine Option.ext fun inst => ⟨fun hfound => ?_, fun hinst => ?_⟩
  · obtain rfl : inst.serviceId = id := by simpa using List.find?_some hfound
    exact (hmem inst).mp (List.mem_of_find?_eq_some hfound)
  · obtain rfl := hid id inst hinst
    obtain ⟨found, hfound⟩ := Option.isSome_iff_exists.mp
      (isSome_byId.mpr (mem_serviceIds.mpr ⟨inst, (hmem inst).mpr hinst, rfl⟩))
    have hsame : found.serviceId = inst.serviceId := by simpa using List.find?_some hfound
    have hmap := (hmem found).mp (List.mem_of_find?_eq_some hfound)
    rwa [hsame, hinst, ← hfound, eq_comm] at hmap

/-- A filter by ids keeps or clears an id. -/
theorem byId_filter_ids (p : String → Prop) [DecidablePred p] (l : List ServiceInstance)
    (id : String) :
    byId (l.filter fun i => p i.serviceId) id = if p id then byId l id else none := by
  induction l with
  | nil => simp [byId]
  | cons inst l ih =>
    rw [List.filter_cons, byId_cons]
    by_cases hid : inst.serviceId = id
    · by_cases hp : p id <;> simp [hid, hp, byId_cons, ih]
    · by_cases hp : p inst.serviceId <;> simp [hid, hp, byId_cons, ih]

/-! ## Distinct ids -/

/-- The ids of a list are pairwise distinct. -/
def Distinct (l : List ServiceInstance) : Prop := (l.map (·.serviceId)).Nodup

instance : DecidablePred Distinct := fun l =>
  inferInstanceAs (Decidable (l.map (·.serviceId)).Nodup)

/-- With distinct ids the map shows every instance of the list. -/
theorem Distinct.byId_eq_some (h : Distinct l) {inst : ServiceInstance} :
    byId l id = some inst ↔ inst ∈ l ∧ inst.serviceId = id := by
  constructor
  · intro hfind
    exact ⟨List.mem_of_find?_eq_some hfind, by simpa using List.find?_some hfind⟩
  · rintro ⟨hmem, rfl⟩
    obtain ⟨found, hfound⟩ := Option.isSome_iff_exists.mp
      (isSome_byId.mpr (mem_serviceIds.mpr ⟨inst, hmem, rfl⟩))
    have hid : found.serviceId = inst.serviceId := by simpa using List.find?_some hfound
    rw [hfound, List.inj_on_of_nodup_map h (List.mem_of_find?_eq_some hfound) hmem hid]

/-- With distinct ids a delete removes one instance. -/
theorem Distinct.newList_delete (h : Distinct l) {inst : ServiceInstance} (hmem : inst ∈ l)
    (name : String) : newList l (.delete name inst.serviceId) = l.erase inst := by
  rw [(h.of_map _).erase_eq_filter, newList]
  refine List.filter_congr fun i hi => ?_
  by_cases heq : i = inst
  · simp [heq]
  · have hid : i.serviceId ≠ inst.serviceId := fun hid =>
      heq (List.inj_on_of_nodup_map h hi hmem hid)
    simp [heq, hid]

/-- Distinct ids: a list read backwards is the same map. -/
theorem byId_reverse (hid : Distinct l) : byId l.reverse = byId l := by
  induction l with
  | nil => rfl
  | cons inst l ih =>
    obtain ⟨hnew, hid⟩ := List.nodup_cons.mp hid
    ext1 id
    rw [List.reverse_cons, byId_append, ih hid, byId_cons, byId_cons]
    split_ifs with h
    · rw [byId_eq_none (h ▸ hnew), Option.none_or]
    · exact Option.or_none

/-- What an event brings has distinct ids. -/
def ServiceEvent.Distinct : ServiceEvent → Prop
  | .reset all => PecsRegistry.Distinct all
  | _ => True

instance : DecidablePred ServiceEvent.Distinct := fun event => by
  cases event <;> simp only [ServiceEvent.Distinct] <;> infer_instance

/-- **An event keeps ids distinct.** -/
theorem Distinct.newList (h : Distinct l) {event : ServiceEvent} (hevent : event.Distinct) :
    Distinct (newList l event) := by
  cases event with
  | upsert inst =>
    rw [PecsRegistry.newList]
    split
    case h_1 pos hpos =>
      obtain ⟨hlt, hid, -⟩ := List.findIdx?_eq_some_iff_getElem.mp hpos
      have hlt' : pos < (l.map (·.serviceId)).length := by rwa [List.length_map]
      have hid' : inst.serviceId = (l.map (·.serviceId))[pos] := by
        simpa using (of_decide_eq_true hid).symm
      rw [Distinct, List.map_set, hid', List.set_getElem_self]
      exact h
    case h_2 hnone =>
      have habsent : ∀ i ∈ l, i.serviceId ≠ inst.serviceId := by
        simpa [List.findIdx?_eq_none_iff] using hnone
      rw [Distinct, List.map_append, List.map_singleton, List.nodup_append]
      refine ⟨h, List.nodup_singleton _, ?_⟩
      rintro id hid _ hinst rfl
      obtain ⟨i, hi, rfl⟩ := List.mem_map.mp hid
      exact habsent i hi (List.mem_singleton.mp hinst)
  | delete name id => exact h.sublist (List.filter_sublist.map _)
  | reset all => exact hevent

end

end PecsRegistry
