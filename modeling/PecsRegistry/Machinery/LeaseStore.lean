import Mathlib.Data.Finmap
import Mathlib.Data.Finset.Sort
import Mathlib.Data.PNat.Notation

/-!
# Machinery/LeaseStore — a key-value store whose keys hang on leases

A lease is granted for a time to live and is live until it expires or is revoked; both are final.
A key is put under a live lease, and goes with it: `attached` says that no key outlives its lease.
A keep-alive of a lease is answered with its time to live, or with zero once it is gone
(`keepAlive_eq_zero`).
-/

namespace Finmap

variable {κ β : Type*} [DecidableEq κ]

/-- The entries of a map that satisfy `p`. -/
def filter (m : Finmap fun _ : κ => β) (p : β → Bool) : Finmap fun _ : κ => β where
  entries := m.entries.filter fun e => p e.2
  nodupKeys := Multiset.nodup_keys.mp <| Multiset.nodup_of_le
    (Multiset.map_le_map (Multiset.filter_le _ m.entries)) (Multiset.nodup_keys.mpr m.nodupKeys)

theorem lookup_filter_eq_some {m : Finmap fun _ : κ => β} {p : β → Bool} {k : κ} {b : β} :
    (m.filter p).lookup k = some b ↔ m.lookup k = some b ∧ p b := by
  change b ∈ (m.filter p).lookup k ↔ b ∈ m.lookup k ∧ p b
  rw [mem_lookup_iff, mem_lookup_iff]
  exact Multiset.mem_filter

end Finmap

/-- Where a lease stands; one that is not live is gone for good. -/
inductive LeaseState
  | live
  | expired
  | revoked
deriving DecidableEq

structure Lease where
  ttl : ℕ+
  state : LeaseState

/-- Leases by their ids, and keys with their values, each under the id of a live lease. -/
structure LeaseStore (κ ν : Type) [DecidableEq κ] where
  leases : Finmap fun _ : ℕ => Lease
  entries : Finmap fun _ : κ => ν × ℕ
  attached : ∀ key value id, entries.lookup key = some (value, id) →
    (leases.lookup id).map Lease.state = some .live

namespace LeaseStore

variable {κ ν : Type} [DecidableEq κ] (s : LeaseStore κ ν) {id id' : ℕ}

/-- The state of a lease, if it was ever granted. -/
def state (id : ℕ) : Option LeaseState := (s.leases.lookup id).map Lease.state

def empty : LeaseStore κ ν := ⟨∅, ∅, by simp⟩

/-! ## Operations -/

/-- A new lease, under an id never used before. -/
def grant (id : ℕ) (ttl : ℕ+) (fresh : s.state id = none) : LeaseStore κ ν where
  leases := s.leases.insert id ⟨ttl, .live⟩
  entries := s.entries
  attached := by
    intro key value id' hentry
    have hlive := s.attached key value id' hentry
    rcases eq_or_ne id' id with rfl | hne
    · rw [Finmap.lookup_insert]
      rfl
    · rw [Finmap.lookup_insert_of_ne _ hne, hlive]

/-- A key is written under a live lease, and leaves the lease it was under. -/
def put (key : κ) (value : ν) (id : ℕ) (live : s.state id = some .live) : LeaseStore κ ν where
  leases := s.leases
  entries := s.entries.insert key (value, id)
  attached := by
    intro key' value' id' hentry
    rcases eq_or_ne key' key with rfl | hne
    · rw [Finmap.lookup_insert] at hentry
      obtain ⟨rfl, rfl⟩ := Prod.mk.inj (Option.some.inj hentry)
      exact live
    · rw [Finmap.lookup_insert_of_ne _ hne] at hentry
      exact s.attached key' value' id' hentry

def delete (key : κ) : LeaseStore κ ν where
  leases := s.leases
  entries := s.entries.erase key
  attached := by
    intro key' value id hentry
    rcases eq_or_ne key' key with rfl | hne
    · simp at hentry
    · rw [Finmap.lookup_erase_ne hne] at hentry
      exact s.attached key' value id hentry

/-- A live lease comes to an end, and its keys with it; one that is not live is left as it is. -/
def release (id : ℕ) (outcome : LeaseState) : LeaseStore κ ν :=
  match s.leases.lookup id with
  | some ⟨ttl, .live⟩ =>
      { leases := s.leases.insert id ⟨ttl, outcome⟩
        entries := s.entries.filter fun e => e.2 ≠ id
        attached := by
          intro key value id' hentry
          obtain ⟨hentry, hne⟩ := Finmap.lookup_filter_eq_some.mp hentry
          rw [Finmap.lookup_insert_of_ne _ (by simpa using hne)]
          exact s.attached key value id' hentry }
  | _ => s

/-- The lease runs out. -/
def expire (id : ℕ) : LeaseStore κ ν := s.release id .expired

def revoke (id : ℕ) : LeaseStore κ ν := s.release id .revoked

/-- The time to live a keep-alive is answered with. -/
def keepAlive (id : ℕ) : ℕ :=
  match s.leases.lookup id with
  | some ⟨ttl, .live⟩ => ttl
  | _ => 0

/-! ## What the operations leave -/

theorem state_grant {ttl : ℕ+} (fresh : s.state id = none) (id' : ℕ) :
    (s.grant id ttl fresh).state id' = if id' = id then some .live else s.state id' := by
  rw [state, grant]
  split_ifs with h
  · rw [h, Finmap.lookup_insert]
    rfl
  · rw [Finmap.lookup_insert_of_ne _ h]
    rfl

theorem state_release (outcome : LeaseState) (id' : ℕ) :
    (s.release id outcome).state id'
      = if id' = id ∧ s.state id = some .live then some outcome else s.state id' := by
  rw [release]
  split
  · next ttl hlease =>
    have hlive : s.state id = some .live := by rw [state, hlease]; rfl
    rw [state]
    split_ifs with h
    · rw [h.1, Finmap.lookup_insert]
      rfl
    · rw [Finmap.lookup_insert_of_ne _ fun hid => h ⟨hid, hlive⟩]
      rfl
  · next hgone =>
    rw [if_neg]
    rintro ⟨-, hlive⟩
    obtain ⟨⟨ttl, st⟩, hlease, rfl⟩ := Option.map_eq_some_iff.mp hlive
    exact hgone ttl hlease

/-- **Exactly the keys of the lease go with it.** -/
theorem lookup_release_eq_some (outcome : LeaseState) {key : κ} {value : ν} :
    (s.release id outcome).entries.lookup key = some (value, id')
      ↔ s.entries.lookup key = some (value, id') ∧ id' ≠ id := by
  rw [release]
  split
  · rw [Finmap.lookup_filter_eq_some]
    simp
  · next hgone =>
    refine ⟨fun hentry => ⟨hentry, ?_⟩, fun hentry => hentry.1⟩
    rintro rfl
    obtain ⟨⟨ttl, st⟩, hlease, rfl⟩ := Option.map_eq_some_iff.mp (s.attached _ _ _ hentry)
    exact hgone ttl hlease

/-- **A keep-alive is answered with zero exactly when the lease is gone.** -/
theorem keepAlive_eq_zero : s.keepAlive id = 0 ↔ s.state id ≠ some .live := by
  rw [keepAlive]
  split
  · next ttl hlease =>
    have hlive : s.state id = some .live := by rw [state, hlease]; rfl
    exact ⟨fun hzero => absurd hzero ttl.2.ne', fun hgone => absurd hlive hgone⟩
  · next hgone =>
    refine ⟨fun _ hlive => ?_, fun _ => rfl⟩
    obtain ⟨⟨ttl, st⟩, hlease, rfl⟩ := Option.map_eq_some_iff.mp hlive
    exact hgone ttl hlease

/-! ## What can become of a lease -/

/-- `s'` is later than `s`: no lease is forgotten, and one that is gone stays as it is. -/
structure Evolves (s s' : LeaseStore κ ν) : Prop where
  granted : ∀ id, s'.state id = none → s.state id = none
  gone : ∀ id outcome, s.state id = some outcome → outcome ≠ .live → s'.state id = some outcome

variable {s}

theorem Evolves.refl (s : LeaseStore κ ν) : Evolves s s := ⟨fun _ h => h, fun _ _ h _ => h⟩

theorem Evolves.trans {s' s'' : LeaseStore κ ν} (h : Evolves s s') (h' : Evolves s' s'') :
    Evolves s s'' :=
  ⟨fun id hid => h.granted id (h'.granted id hid),
    fun id outcome hid hne => h'.gone id outcome (h.gone id outcome hid hne) hne⟩

theorem evolves_of_state {s' : LeaseStore κ ν} (h : s'.state = s.state) : Evolves s s' :=
  ⟨fun id hid => h ▸ hid, fun id outcome hid _ => by rw [h, hid]⟩

theorem evolves_grant {ttl : ℕ+} (fresh : s.state id = none) :
    Evolves s (s.grant id ttl fresh) := by
  constructor
  · intro id' hid
    rw [state_grant] at hid
    split_ifs at hid
    exact hid
  · intro id' outcome hid _
    rw [state_grant, if_neg, hid]
    rintro rfl
    exact absurd (fresh.symm.trans hid) (by simp)

theorem evolves_release (outcome : LeaseState) : Evolves s (s.release id outcome) := by
  constructor
  · intro id' hid
    rw [state_release] at hid
    split_ifs at hid
    exact hid
  · intro id' outcome' hid hgone
    rw [state_release, if_neg, hid]
    rintro ⟨rfl, hlive⟩
    exact hgone (Option.some.inj (hid.symm.trans hlive))

/-! ## Ranges -/

section Range

variable {r : κ → κ → Prop} [DecidableRel r] [IsTrans κ r] [Std.Antisymm r] [Std.Total r]
  {p : κ → Bool} {value : ν}

/-- The values of the keys in a range, in the order `r` of the keys. -/
def range (s : LeaseStore κ ν) (r : κ → κ → Prop) [DecidableRel r] [IsTrans κ r]
    [Std.Antisymm r] [Std.Total r] (p : κ → Bool) : List ν :=
  ((s.entries.keys.filter fun key => p key).sort r).filterMap fun key =>
    (s.entries.lookup key).map Prod.fst

theorem mem_range : value ∈ s.range r p
    ↔ ∃ key, p key ∧ (s.entries.lookup key).map Prod.fst = some value := by
  rw [range, List.mem_filterMap]
  refine exists_congr fun key => ?_
  rw [Finset.mem_sort, Finset.mem_filter, Finmap.mem_keys, and_assoc]
  constructor
  · exact And.right
  · rintro ⟨hp, hvalue⟩
    obtain ⟨entry, hentry, -⟩ := Option.map_eq_some_iff.mp hvalue
    exact ⟨Finmap.lookup_isSome.mp (by rw [hentry]; rfl), hp, hvalue⟩

/-- What is read off the values of a range has no duplicates, if it tells their keys. -/
theorem nodup_map_range {β : Type*} {f : ν → β}
    (h : ∀ key key' value value', p key → p key' →
      (s.entries.lookup key).map Prod.fst = some value →
      (s.entries.lookup key').map Prod.fst = some value' → f value = f value' → key = key') :
    ((s.range r p).map f).Nodup := by
  rw [range, List.Nodup, List.pairwise_map, List.pairwise_filterMap]
  refine (Finset.sort_nodup _ r).imp_of_mem fun {key key'} hkey hkey' hne => ?_
  rw [Finset.mem_sort, Finset.mem_filter] at hkey hkey'
  exact fun value hvalue value' hvalue' heq =>
    hne (h key key' value value' hkey.2 hkey'.2 hvalue hvalue' heq)

/-- Where each value tells its key a range lists no value twice. -/
theorem nodup_range (keyOf : ν → κ)
    (hkey : ∀ key value, (s.entries.lookup key).map Prod.fst = some value → keyOf value = key) :
    (s.range r p).Nodup := by
  refine List.Nodup.filterMap (fun key key' value hvalue hvalue' => ?_) (Finset.sort_nodup _ _)
  rw [← hkey key value hvalue, ← hkey key' value hvalue']

end Range

end LeaseStore
