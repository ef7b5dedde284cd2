import PecsRegistry.Machinery.LeaseStore
import PecsRegistry.Machinery.Writes

/-!
# Machinery/LeaseOps — what clients do to a store of leases, and what it reports

A client is granted a lease, writes or deletes a key, or a lease ends (`Op`).  The store reports to
its watchers the keys an operation wrote and dropped; a label carries what etcd alone can know:
whether there was a key to delete, and which keys went with a lease.  **The reports tell the whole
story**: replayed, they make of the old values the new ones (`values_apply`).
-/

open Writes

deriving instance DecidableEq for Lease

namespace LeaseStore

variable {κ ν : Type} [DecidableEq κ] {s s' : LeaseStore κ ν} {id : ℕ} {key : κ} {keys : List κ}

instance [DecidableEq ν] : DecidableEq (LeaseStore κ ν) := fun s t =>
  decidable_of_iff (s.leases = t.leases ∧ s.entries = t.entries)
    ⟨fun ⟨hleases, hentries⟩ => by cases s; cases t; congr, fun h => h ▸ ⟨rfl, rfl⟩⟩

/-- What the keys hold. -/
def values (s : LeaseStore κ ν) (key : κ) : Option ν := (s.entries.lookup key).map Prod.fst

/-- `keys` lists what is under the lease. -/
def Lists (s : LeaseStore κ ν) (id : ℕ) (keys : List κ) : Prop :=
  (keys : Multiset κ) = (Finmap.filter s.entries fun e => e.2 = id).keys.val

instance (s : LeaseStore κ ν) (id : ℕ) (keys : List κ) : Decidable (s.Lists id keys) :=
  inferInstanceAs (Decidable (_ = _))

theorem exists_lists (s : LeaseStore κ ν) (id : ℕ) : ∃ keys, s.Lists id keys :=
  Quot.exists_rep _

theorem Lists.mem_iff (h : s.Lists id keys) :
    key ∈ keys ↔ ∃ value, s.entries.lookup key = some (value, id) := by
  rw [← Multiset.mem_coe, h, Finset.mem_val, Finmap.mem_keys, ← Finmap.lookup_isSome,
    Option.isSome_iff_exists]
  constructor
  · rintro ⟨⟨value, id'⟩, hentry⟩
    obtain ⟨hold, hid⟩ := Finmap.lookup_filter_eq_some.mp hentry
    obtain rfl : id' = id := of_decide_eq_true hid
    exact ⟨value, hold⟩
  · rintro ⟨value, hentry⟩
    exact ⟨(value, id), Finmap.lookup_filter_eq_some.mpr ⟨hentry, decide_eq_true rfl⟩⟩

/-- An operation of a client, or the end of a lease. -/
inductive Op (κ ν : Type)
  | grant (id : ℕ) (ttl : ℕ+)
  | put (key : κ) (value : ν) (id : ℕ)
  | delete (key : κ) (found : Bool)
  | release (id : ℕ) (outcome : LeaseState) (keys : List κ)
deriving DecidableEq

/-- The store after an operation, if it is one that the store allows and the label reports right. -/
def apply (s : LeaseStore κ ν) : Op κ ν → Option (LeaseStore κ ν)
  | .grant id ttl => if fresh : s.state id = none then some (s.grant id ttl fresh) else none
  | .put key value id => if live : s.state id = some .live then some (s.put key value id live)
      else none
  | .delete key found => if found = (s.entries.lookup key).isSome then some (s.delete key) else none
  | .release id outcome keys => if s.Lists id keys then some (s.release id outcome) else none

theorem eq_of_grant {ttl : ℕ+} (h : s.apply (.grant id ttl) = some s') :
    ∃ fresh, s' = s.grant id ttl fresh := by
  rw [apply] at h
  split_ifs at h with fresh
  exact ⟨fresh, (Option.some.inj h).symm⟩

theorem eq_of_put {value : ν} (h : s.apply (.put key value id) = some s') :
    ∃ live, s' = s.put key value id live := by
  rw [apply] at h
  split_ifs at h with live
  exact ⟨live, (Option.some.inj h).symm⟩

theorem eq_of_delete {found : Bool} (h : s.apply (.delete key found) = some s') :
    found = (s.entries.lookup key).isSome ∧ s' = s.delete key := by
  rw [apply] at h
  split_ifs at h with hfound
  exact ⟨hfound, (Option.some.inj h).symm⟩

theorem eq_of_release {outcome : LeaseState} (h : s.apply (.release id outcome keys) = some s') :
    s.Lists id keys ∧ s' = s.release id outcome := by
  rw [apply] at h
  split_ifs at h with hkeys
  exact ⟨hkeys, (Option.some.inj h).symm⟩

/-- What the store reports of an operation. -/
def Op.writes : Op κ ν → List (Write κ ν)
  | grant _ _ => []
  | put key value _ => [.put key value]
  | delete key found => if found then [.drop key] else []
  | release _ _ keys => keys.map .drop

/-! ## What an operation leaves alone -/

/-- The operation leaves the entry of a key alone. -/
def Op.Spares (s : LeaseStore κ ν) (key : κ) : Op κ ν → Prop
  | grant _ _ => True
  | put key' _ _ | delete key' _ => key' ≠ key
  | release id _ _ => ∀ value, s.entries.lookup key ≠ some (value, id)

theorem lookup_apply_of_spares {op : Op κ ν} (h : s.apply op = some s') (hop : op.Spares s key) :
    s'.entries.lookup key = s.entries.lookup key := by
  cases op with
  | grant id ttl =>
    obtain ⟨_, rfl⟩ := eq_of_grant h
    rfl
  | put key' value id =>
    obtain ⟨_, rfl⟩ := eq_of_put h
    exact Finmap.lookup_insert_of_ne _ (Ne.symm hop)
  | delete key' found =>
    obtain ⟨-, rfl⟩ := eq_of_delete h
    exact Finmap.lookup_erase_ne (Ne.symm hop)
  | release id outcome keys =>
    obtain ⟨-, rfl⟩ := eq_of_release h
    refine Option.ext fun ⟨value, id'⟩ => ?_
    rw [lookup_release_eq_some, and_iff_left_iff_imp]
    rintro hentry rfl
    exact hop value hentry

/-- **An entry that is new was put**, under a live lease. -/
theorem lookup_of_apply {op : Op κ ν} {value : ν} (h : s.apply op = some s')
    (hentry : s'.entries.lookup key = some (value, id)) :
    s.entries.lookup key = some (value, id)
      ∨ op = .put key value id ∧ s.state id = some .live := by
  cases op with
  | grant id' ttl =>
    obtain ⟨_, rfl⟩ := eq_of_grant h
    exact .inl hentry
  | put key' value' id' =>
    obtain ⟨live, rfl⟩ := eq_of_put h
    rcases eq_or_ne key key' with rfl | hne
    · rw [LeaseStore.put, Finmap.lookup_insert] at hentry
      obtain ⟨rfl, rfl⟩ := Prod.mk.inj (Option.some.inj hentry)
      exact .inr ⟨rfl, live⟩
    · exact .inl ((Finmap.lookup_insert_of_ne _ hne).symm.trans hentry)
  | delete key' found =>
    obtain ⟨-, rfl⟩ := eq_of_delete h
    rcases eq_or_ne key key' with rfl | hne
    · exact absurd ((Finmap.lookup_erase _ _).symm.trans hentry) (by simp)
    · exact .inl ((Finmap.lookup_erase_ne hne).symm.trans hentry)
  | release id' outcome keys =>
    obtain ⟨-, rfl⟩ := eq_of_release h
    exact .inl ((s.lookup_release_eq_some outcome).mp hentry).1

/-- A lease that is neither granted nor released stays as it is. -/
theorem state_apply {op : Op κ ν} (h : s.apply op = some s') (hgrant : ∀ ttl, op ≠ .grant id ttl)
    (hrelease : ∀ outcome keys, op ≠ .release id outcome keys) : s'.state id = s.state id := by
  cases op with
  | grant id' ttl =>
    obtain ⟨_, rfl⟩ := eq_of_grant h
    rw [state_grant, if_neg]
    rintro rfl
    exact hgrant ttl rfl
  | put key' value id' =>
    obtain ⟨_, rfl⟩ := eq_of_put h
    rfl
  | delete key' found =>
    obtain ⟨-, rfl⟩ := eq_of_delete h
    rfl
  | release id' outcome keys =>
    obtain ⟨-, rfl⟩ := eq_of_release h
    rw [state_release, if_neg]
    rintro ⟨rfl, -⟩
    exact hrelease outcome keys rfl

/-! ## The reports -/

/-- What is reported was put, or was there and is gone. -/
theorem Op.mem_writes {op : Op κ ν} (h : s.apply op = some s') {w : Write κ ν}
    (hw : w ∈ op.writes) : (∃ key value id, op = .put key value id ∧ w = .put key value)
      ∨ ∃ key value, s.values key = some value ∧ w = .drop key := by
  cases op with
  | grant id ttl => cases hw
  | put key value id => exact .inl ⟨key, value, id, rfl, List.mem_singleton.mp hw⟩
  | delete key found =>
    obtain ⟨rfl, -⟩ := eq_of_delete h
    rw [writes] at hw
    split_ifs at hw with hfound
    · obtain ⟨entry, hentry⟩ := Option.isSome_iff_exists.mp hfound
      refine .inr ⟨key, entry.1, ?_, List.mem_singleton.mp hw⟩
      rw [values, hentry, Option.map_some]
    · cases hw
  | release id outcome keys =>
    obtain ⟨hkeys, -⟩ := eq_of_release h
    obtain ⟨key, hkey, rfl⟩ := List.mem_map.mp hw
    obtain ⟨value, hentry⟩ := hkeys.mem_iff.mp hkey
    exact .inr ⟨key, value, by rw [values, hentry, Option.map_some], rfl⟩

theorem replay_drops (keys : List κ) (m : κ → Option ν) (key : κ) :
    replay (keys.map .drop) m key = if key ∈ keys then none else m key := by
  induction keys generalizing m with
  | nil => simp
  | cons k keys ih =>
    rw [List.map_cons, replay_cons, ih, Write.apply_drop]
    by_cases hkeys : key ∈ keys
    · simp [hkeys]
    · rcases eq_or_ne key k with rfl | hne <;> simp [*]

theorem values_release (h : s.Lists id keys) (outcome : LeaseState) :
    (s.release id outcome).values = replay (keys.map .drop) s.values := by
  funext key
  rw [replay_drops]
  split_ifs with hkey
  · obtain ⟨value, hentry⟩ := h.mem_iff.mp hkey
    refine Option.map_eq_none_iff.mpr (Option.eq_none_iff_forall_ne_some.mpr ?_)
    rintro ⟨value', id'⟩ hentry'
    obtain ⟨hold, hne⟩ := (s.lookup_release_eq_some outcome).mp hentry'
    exact hne (congrArg Prod.snd (Option.some.inj (hold.symm.trans hentry)))
  · refine congrArg (Option.map Prod.fst) (Option.ext fun ⟨value, id'⟩ => ?_)
    rw [lookup_release_eq_some, and_iff_left_iff_imp]
    rintro hentry rfl
    exact hkey (h.mem_iff.mpr ⟨value, hentry⟩)

/-- **The reports tell the whole story.** -/
theorem values_apply {op : Op κ ν} (h : s.apply op = some s') :
    s'.values = replay op.writes s.values := by
  cases op with
  | grant id ttl =>
    obtain ⟨_, rfl⟩ := eq_of_grant h
    rfl
  | put key value id =>
    obtain ⟨_, rfl⟩ := eq_of_put h
    funext key'
    rcases eq_or_ne key' key with rfl | hne
    · simp [values, LeaseStore.put, Op.writes, Write.apply_put]
    · simp [values, LeaseStore.put, Op.writes, Write.apply_put, hne]
  | delete key found =>
    obtain ⟨hfound, rfl⟩ := eq_of_delete h
    funext key'
    cases found with
    | true =>
      rcases eq_or_ne key' key with rfl | hne
      · simp [values, LeaseStore.delete, Op.writes, Write.apply_drop]
      · simp [values, LeaseStore.delete, Op.writes, Write.apply_drop, hne]
    | false =>
      rcases eq_or_ne key' key with rfl | hne
      · simpa [values, LeaseStore.delete, Op.writes] using hfound.symm
      · simp [values, LeaseStore.delete, Op.writes, hne]
  | release id outcome keys =>
    obtain ⟨hkeys, rfl⟩ := eq_of_release h
    exact values_release hkeys outcome

end LeaseStore
