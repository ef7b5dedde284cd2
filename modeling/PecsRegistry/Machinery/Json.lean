import Mathlib.Data.Finmap
import Mathlib.Data.Rat.Defs

/-!
# Machinery/Json — JSON values, and the decoders of records

An object is the list of its members, in the order of the text.  A decoder of a record reads each
field by its name (`field`): a field that occurs twice is an error, one that is absent falls back on
its default, if it has one, and members the record does not know are passed over.  An array stands
for a record too, field by field (`members`).

The laws come in two families: what a decoder makes of members written one by one (`field` and
`values_cons`, `values_append`), and what it accepts (`isSome_field`).
-/

inductive Json
  | null
  | bool (b : Bool)
  | int (n : ℤ)
  | float (q : ℚ)
  | str (s : String)
  | arr (items : List Json)
  | obj (members : List (String × Json))

namespace Json

variable {α : Type*}

/-! ## Decoders -/

def asStr : Json → Option String
  | .str s => some s
  | _ => none

def asBool : Json → Option Bool
  | .bool b => some b
  | _ => none

/-- An unsigned integer below the bound; a float is none, even if it is integral. -/
def asNat (bound : ℕ) : Json → Option ℕ
  | .int n => if 0 ≤ n ∧ n < bound then some n.toNat else none
  | _ => none

theorem asNat_int {bound n : ℕ} (h : n < bound) : asNat bound (.int n) = some n := by
  rw [asNat, if_pos ⟨Int.natCast_nonneg n, Int.ofNat_lt.mpr h⟩, Int.toNat_natCast]

/-- A nullable value. -/
def asOption (d : Json → Option α) : Json → Option (Option α)
  | .null => some none
  | j => (d j).map some

def asList (d : Json → Option α) : Json → Option (List α)
  | .arr items => items.mapM d
  | _ => none

/-- The entries are inserted one by one: of two under one key the later stays. -/
def ofEntries (entries : List (String × α)) : Finmap fun _ : String => α :=
  entries.foldl (fun m e => m.insert e.1 e.2) ∅

def asMap (d : Json → Option α) : Json → Option (Finmap fun _ : String => α)
  | .obj members => (members.mapM fun e => (d e.2).map fun a => (e.1, a)).map ofEntries
  | _ => none

/-! ## Records -/

/-- The members of a record with the given fields. -/
def members (names : List String) : Json → Option (List (String × Json))
  | .obj members => some members
  | .arr items => if items.length ≤ names.length then some (names.zip items) else none
  | _ => none

/-- The values under a name. -/
def values (ms : List (String × Json)) (name : String) : List Json :=
  (ms.filter (·.1 = name)).map (·.2)

/-- One field of a record. -/
def field (ms : List (String × Json)) (name : String) (d : Json → Option α) (default : Option α) :
    Option α :=
  match values ms name with
  | [] => default
  | [j] => d j
  | _ => none

/-- A member that may be left out. -/
def optional (name : String) (j : Option Json) : List (String × Json) :=
  (j.map fun j => (name, j)).toList

@[simp] theorem values_nil (name : String) : values [] name = [] := rfl

@[simp] theorem values_cons (e : String × Json) (ms : List (String × Json)) (name : String) :
    values (e :: ms) name = if e.1 = name then e.2 :: values ms name else values ms name := by
  by_cases h : e.1 = name <;> simp [values, h]

@[simp] theorem values_append (ms ms' : List (String × Json)) (name : String) :
    values (ms ++ ms') name = values ms name ++ values ms' name := by
  rw [values, List.filter_append, List.map_append, values, values]

@[simp] theorem values_optional (name name' : String) (j : Option Json) :
    values (optional name' j) name = if name' = name then j.toList else [] := by
  cases j <;> simp [optional]

theorem field_nil {ms : List (String × Json)} {name : String} {d : Json → Option α}
    {default : Option α} (h : values ms name = []) : field ms name d default = default := by
  rw [field, h]

theorem field_singleton {ms : List (String × Json)} {name : String} {d : Json → Option α}
    {default : Option α} {j : Json} (h : values ms name = [j]) : field ms name d default = d j := by
  rw [field, h]

theorem field_optional {ms : List (String × Json)} {name : String} {d : Json → Option α}
    {default : Option α} {j : Option Json} (h : values ms name = j.toList) :
    field ms name d default = j.elim default d := by
  cases j with
  | none => exact field_nil h
  | some j => exact field_singleton h

theorem mem_values {ms : List (String × Json)} {name : String} {j : Json} :
    j ∈ values ms name ↔ (name, j) ∈ ms := by
  simp [values]

/-- Without repeated names there is at most one value under a name. -/
theorem length_values_le {ms : List (String × Json)} (h : (ms.map (·.1)).Nodup) (name : String) :
    (values ms name).length ≤ 1 := by
  induction ms with
  | nil => simp
  | cons e ms ih =>
    obtain ⟨hnew, hrest⟩ := List.nodup_cons.mp h
    rw [values_cons]
    split_ifs with he
    · have hnone : values ms name = [] := List.eq_nil_iff_forall_not_mem.mpr fun j hj =>
        hnew (List.mem_map.mpr ⟨_, mem_values.mp hj, he.symm⟩)
      rw [hnone, List.length_singleton]
    · exact ih hrest

/-- What is under the name, if anything, satisfies `p`. -/
def May (ms : List (String × Json)) (name : String) (p : Json → Prop) : Prop :=
  ∀ j, (name, j) ∈ ms → p j

/-- …and there is something. -/
def Has (ms : List (String × Json)) (name : String) (p : Json → Prop) : Prop :=
  (∃ j, (name, j) ∈ ms) ∧ May ms name p

/-- **A field is read**, if what is there can be decoded, and either there is something or there is
a default. -/
theorem isSome_field {ms : List (String × Json)} {name : String} {d : Json → Option α}
    {default : Option α} {p : Json → Prop} (h : (ms.map (·.1)).Nodup)
    (hp : ∀ j, p j → (d j).isSome) (hmay : May ms name p)
    (hsome : (∃ j, (name, j) ∈ ms) ∨ default.isSome) : (field ms name d default).isSome := by
  match hvalues : values ms name with
  | [] =>
    rw [field_nil hvalues]
    refine hsome.resolve_left fun ⟨j, hj⟩ => ?_
    have := mem_values.mpr hj
    simp [hvalues] at this
  | [j] =>
    rw [field_singleton hvalues]
    exact hp j (hmay j (mem_values.mp (by simp [hvalues])))
  | j :: j' :: rest =>
    have := length_values_le h name
    simp [hvalues] at this

theorem exists_of_has {ms : List (String × Json)} {name : String} {d : Json → Option α}
    {p : Json → Prop} (h : (ms.map (·.1)).Nodup) (hp : ∀ j, p j → (d j).isSome)
    (hhas : Has ms name p) : ∃ a, field ms name d none = some a :=
  Option.isSome_iff_exists.mp (isSome_field h hp hhas.2 (.inl hhas.1))

theorem exists_of_may {ms : List (String × Json)} {name : String} {d : Json → Option α}
    {p : Json → Prop} (default : α) (h : (ms.map (·.1)).Nodup) (hp : ∀ j, p j → (d j).isSome)
    (hmay : May ms name p) : ∃ a, field ms name d (some default) = some a :=
  Option.isSome_iff_exists.mp (isSome_field h hp hmay (.inr rfl))

/-- A field that is an encoding of `a`, if it is there. -/
theorem field_eq_ite {ms : List (String × Json)} {name : String} {d : Json → Option α} {e : Json}
    {a : α} (default : α) (hd : d e = some a) (honce : (values ms name).length ≤ 1)
    (hms : ∀ j ∈ values ms name, j = e) :
    field ms name d (some default) = some (if values ms name = [] then default else a) := by
  match hvalues : values ms name with
  | [] => rw [field_nil hvalues, if_pos rfl]
  | [j] =>
    obtain rfl : j = e := hms j (by rw [hvalues]; exact List.mem_singleton_self j)
    rw [field_singleton hvalues, hd, if_neg (List.cons_ne_nil _ _)]
  | j :: j' :: rest => simp [hvalues] at honce

/-! ## The types of values -/

def IsStr (j : Json) : Prop := ∃ s, j = .str s

def IsBool (j : Json) : Prop := ∃ b, j = .bool b

def IsNat (bound : ℕ) (j : Json) : Prop := ∃ n < bound, j = .int (n : ℕ)

def Nullable (p : Json → Prop) (j : Json) : Prop := j = .null ∨ p j

def MapOf (p : Json → Prop) (j : Json) : Prop := ∃ ms, j = .obj ms ∧ ∀ e ∈ ms, p e.2

theorem isSome_asStr {j : Json} (h : IsStr j) : (asStr j).isSome := by
  obtain ⟨s, rfl⟩ := h
  rfl

theorem isSome_asBool {j : Json} (h : IsBool j) : (asBool j).isSome := by
  obtain ⟨b, rfl⟩ := h
  rfl

theorem isSome_asNat {bound : ℕ} {j : Json} (h : IsNat bound j) : (asNat bound j).isSome := by
  obtain ⟨n, hn, rfl⟩ := h
  rw [asNat_int hn, Option.isSome_some]

theorem isSome_asOption {d : Json → Option α} {p : Json → Prop} (hp : ∀ j, p j → (d j).isSome)
    {j : Json} (h : Nullable p j) : (asOption d j).isSome := by
  rcases h with rfl | h
  · rfl
  · rw [asOption.eq_def]
    split
    · rfl
    · rw [Option.isSome_map]
      exact hp j h

/-! ## Lists and maps -/

/-- A list of encodings decodes to the list of what they encode. -/
theorem mapM_of_forall₂ {β : Type*} {d : β → Option α} {as : List α} {bs : List β}
    (h : List.Forall₂ (fun a b => d b = some a) as bs) : bs.mapM d = some as := by
  induction h with
  | nil => rfl
  | cons hhead _ ih => simp [hhead, ih]

theorem isSome_mapM {β : Type*} {d : β → Option α} {bs : List β}
    (h : ∀ b ∈ bs, (d b).isSome) : (bs.mapM d).isSome := by
  induction bs with
  | nil => rfl
  | cons b bs ih =>
    obtain ⟨a, ha⟩ := Option.isSome_iff_exists.mp (h b List.mem_cons_self)
    obtain ⟨as, has⟩ := Option.isSome_iff_exists.mp (ih fun b hb => h b (List.mem_cons_of_mem _ hb))
    simp [ha, has]

/-- `entries` lists the entries of `m`, in some order. -/
def Entries (m : Finmap fun _ : String => α) (entries : List (String × α)) : Prop :=
  ((entries.map fun e => (⟨e.1, e.2⟩ : Σ _ : String, α) : List _) : Multiset _) = m.entries

theorem exists_entries (m : Finmap fun _ : String => α) : ∃ entries, Entries m entries := by
  obtain ⟨l, hl⟩ := Quot.exists_rep m.entries
  refine ⟨l.map fun e => (e.1, e.2), ?_⟩
  rw [Entries, List.map_map, ← hl]
  exact congrArg _ (List.map_id l)

theorem lookup_ofEntries_of_notMem {entries : List (String × α)} {key : String}
    (h : key ∉ entries.map (·.1)) (m : Finmap fun _ : String => α) :
    (entries.foldl (fun m e => m.insert e.1 e.2) m).lookup key = m.lookup key := by
  induction entries generalizing m with
  | nil => rfl
  | cons e entries ih =>
    rw [List.map_cons, List.mem_cons, not_or] at h
    rw [List.foldl_cons, ih h.2, Finmap.lookup_insert_of_ne m h.1]

theorem lookup_ofEntries_of_mem {entries : List (String × α)} (h : (entries.map (·.1)).Nodup)
    {key : String} {a : α} (hmem : (key, a) ∈ entries) (m : Finmap fun _ : String => α) :
    (entries.foldl (fun m e => m.insert e.1 e.2) m).lookup key = some a := by
  induction entries generalizing m with
  | nil => simp at hmem
  | cons e entries ih =>
    obtain ⟨hnew, hrest⟩ := List.nodup_cons.mp h
    rw [List.foldl_cons]
    rcases List.mem_cons.mp hmem with rfl | hmem
    · rw [lookup_ofEntries_of_notMem hnew, Finmap.lookup_insert]
    · exact ih hrest hmem _

theorem Entries.mem_iff {m : Finmap fun _ : String => α} {entries : List (String × α)}
    (h : Entries m entries) {key : String} {a : α} :
    (key, a) ∈ entries ↔ m.lookup key = some a := by
  rw [← Option.mem_def, Finmap.mem_lookup_iff, ← h, Multiset.mem_coe, List.mem_map]
  refine ⟨fun hmem => ⟨_, hmem, rfl⟩, ?_⟩
  rintro ⟨⟨key', a'⟩, hmem, heq⟩
  cases heq
  exact hmem

theorem Entries.nodup {m : Finmap fun _ : String => α} {entries : List (String × α)}
    (h : Entries m entries) : (entries.map (·.1)).Nodup := by
  have hkeys := m.nodupKeys
  rw [← h, Multiset.coe_nodupKeys, List.NodupKeys, List.keys, List.map_map] at hkeys
  exact hkeys

/-- **A map is rebuilt from its entries**, in whatever order they come. -/
theorem Entries.ofEntries {m : Finmap fun _ : String => α} {entries : List (String × α)}
    (h : Entries m entries) : Json.ofEntries entries = m := by
  refine Finmap.ext_lookup fun key => ?_
  rcases hm : m.lookup key with - | a
  · refine (lookup_ofEntries_of_notMem (fun hmem => ?_) ∅).trans (Finmap.lookup_empty key)
    obtain ⟨⟨key, a⟩, hentry, rfl⟩ := List.mem_map.mp hmem
    simp [h.mem_iff.mp hentry] at hm
  · exact lookup_ofEntries_of_mem h.nodup (h.mem_iff.mpr hm) ∅

theorem asMap_obj {d : Json → Option α} {e : α → Json} (hde : ∀ a, d (e a) = some a)
    {m : Finmap fun _ : String => α} {entries : List (String × α)} (h : Entries m entries) :
    asMap d (.obj (entries.map fun p => (p.1, e p.2))) = some m := by
  have hentries : (entries.map fun p => (p.1, e p.2)).mapM
      (fun p => (d p.2).map fun a => (p.1, a)) = some entries := by
    refine mapM_of_forall₂ (List.forall₂_map_right_iff.mpr (List.forall₂_same.mpr fun p _ => ?_))
    rw [hde, Option.map_some]
  rw [asMap, hentries, Option.map_some, h.ofEntries]

theorem isSome_asMap {d : Json → Option α} {p : Json → Prop} (hp : ∀ j, p j → (d j).isSome)
    {j : Json} (h : MapOf p j) : (asMap d j).isSome := by
  obtain ⟨ms, rfl, hms⟩ := h
  rw [asMap, Option.isSome_map]
  refine isSome_mapM fun e he => ?_
  rw [Option.isSome_map]
  exact hp e.2 (hms e he)

end Json
