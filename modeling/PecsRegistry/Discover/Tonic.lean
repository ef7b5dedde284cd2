import PecsRegistry.Discover.Tower

/-!
# Discover/Tonic — the endpoints of `tonic_channel_with_config`

The listener compares URLs: an instance whose URL has changed is removed and mounted again, an
unknown one is mounted, and ids without an endpoint are removed.  Whether tonic accepts a URL
(`Endpoint::from_shared`) is a parameter, `valid`; what an `Insert` carries is the URL its endpoint
is made from.

The first map of known endpoints has only URLs that were mounted, every later one has all of them;
what the balancer holds is the valid part of either.

* `mounted_of_roomy` — without a refused send, the balancer ends up with exactly the valid endpoints
  of the last list.
* `keepsIds_of_roomy` — without a refused send, a drained receiver holds the ids the listener knows.
-/

namespace PecsRegistry

open Transition Writes

/-- The URL of an instance's gRPC endpoint. -/
def grpcUrl (inst : ServiceInstance) : Option String := inst.grpc.map (·.toUrl "http")

/-- An instance files its URL, if the URL is to be kept. -/
def record (keep : String → Bool) (m : HashMap String String) (inst : ServiceInstance) :
    HashMap String String :=
  match grpcUrl inst with
  | some url => if keep url then m.insert inst.serviceId url else m
  | none => m

/-- The endpoints of a list, later instances of an id overwriting earlier ones. -/
def endpointMap (keep : String → Bool) (instances : List ServiceInstance) :
    HashMap String String := instances.foldl (record keep) ∅

/-- The map that a notification builds: every URL is recorded. -/
def newMap : List ServiceInstance → HashMap String String := endpointMap fun _ => true

/-- The sends that mount an endpoint, if its URL is accepted. -/
def mount (valid : String → Bool) (id url : String) : List (Change String) :=
  if valid url then [.insert id url] else []

/-- What the listener sends for an instance of the new list. -/
def diff (valid : String → Bool) (known : HashMap String String) (inst : ServiceInstance) :
    List (Change String) :=
  match grpcUrl inst with
  | some url =>
      match known.lookup inst.serviceId with
      | some oldUrl =>
          if oldUrl = url then [] else .remove inst.serviceId :: mount valid inst.serviceId url
      | none => mount valid inst.serviceId url
  | none => []

/-- The binding of `tonic_channel_with_config`: what it knows is a map from id to URL. -/
def tonic (valid : String → Bool) : Binding (HashMap String String) String where
  handsOver := true
  initial instances := instances.flatMap fun inst =>
    match grpcUrl inst with
    | some url => mount valid inst.serviceId url
    | none => []
  known := endpointMap valid
  keys := Finmap.keys
  changes known order instances :=
    instances.flatMap (diff valid known)
      ++ (order.filter (· ∉ newMap instances)).map .remove
  next := newMap

variable {valid keep : String → Bool} {l : List ServiceInstance} {inst : ServiceInstance}
  {known : HashMap String String} {m : String → Option String} {id : String}

/-! ## The endpoint map -/

theorem lookup_record (known : HashMap String String) (inst : ServiceInstance) (id : String) :
    (record keep known inst).lookup id
      = if inst.serviceId = id then ((grpcUrl inst).filter keep).or (known.lookup id)
        else known.lookup id := by
  rw [record]
  cases grpcUrl inst with
  | none => simp
  | some url =>
    by_cases hkeep : keep url
    · simp [hkeep, HashMap.lookup_insert, Option.filter_some, eq_comm]
    · simp [hkeep, Option.filter_some]

theorem lookup_foldl_record (hl : Distinct l) (known : HashMap String String) (id : String) :
    (l.foldl (record keep) known).lookup id
      = (((byId l id).bind grpcUrl).filter keep).or (known.lookup id) := by
  induction l generalizing known with
  | nil => rfl
  | cons inst l ih =>
    obtain ⟨hnew, hl⟩ := List.nodup_cons.mp hl
    rw [List.foldl_cons, ih hl, lookup_record, byId_cons]
    split_ifs with hid
    · rw [byId_eq_none (hid ▸ hnew)]
      rfl
    · rfl

/-- With distinct ids the map shows the URL of each instance, where it is to be kept. -/
theorem lookup_endpointMap (hl : Distinct l) (id : String) :
    (endpointMap keep l).lookup id = ((byId l id).bind grpcUrl).filter keep :=
  (lookup_foldl_record hl ∅ id).trans Option.or_none

/-- The instance files an endpoint under an id. -/
def Files (keep : String → Bool) (id : String) (inst : ServiceInstance) : Prop :=
  inst.serviceId = id ∧ ∃ url, grpcUrl inst = some url ∧ keep url

theorem isSome_lookup_foldl_record (known : HashMap String String) :
    ((l.foldl (record keep) known).lookup id).isSome
      ↔ (known.lookup id).isSome ∨ ∃ inst ∈ l, Files keep id inst := by
  induction l generalizing known with
  | nil => simp
  | cons inst l ih =>
    rw [List.foldl_cons, ih, lookup_record, List.exists_mem_cons_iff, ← or_assoc]
    refine or_congr_left ?_
    split_ifs with hid
    · rw [Option.isSome_or, Bool.or_eq_true, or_comm, Option.isSome_filter, Files,
        and_iff_right hid, Option.any_eq_true]
    · simp [Files, hid]

theorem mem_endpointMap : id ∈ endpointMap keep l ↔ ∃ inst ∈ l, Files keep id inst := by
  rw [← Finmap.lookup_isSome, endpointMap, isSome_lookup_foldl_record]
  simp

/-! ## One notification -/

theorem key_of_mem_mount {url : String} {change : Change String} (h : change ∈ mount valid id url) :
    change.key = id := by
  rw [mount] at h
  split_ifs at h
  · rw [List.mem_singleton.mp h]
    rfl
  · cases h

theorem key_of_mem_diff {change : Change String} (h : change ∈ diff valid known inst) :
    change.key = inst.serviceId := by
  rw [diff] at h
  split at h
  · split at h
    · split_ifs at h
      · cases h
      · rcases List.mem_cons.mp h with rfl | h
        · rfl
        · exact key_of_mem_mount h
    · exact key_of_mem_mount h
  · cases h

theorem applyChanges_mount (url : String) (m : String → Option String) :
    applyChanges (mount valid id url) m id = if valid url then some url else m id := by
  rw [mount]
  split_ifs <;> simp

/-- **What the listener makes of an instance with an endpoint**: its URL, if it is valid. -/
theorem applyChanges_diff {url : String} (hurl : grpcUrl inst = some url)
    (hm : m inst.serviceId = (known.lookup inst.serviceId).filter valid) :
    applyChanges (diff valid known inst) m inst.serviceId = (some url).filter valid := by
  rw [diff, hurl]
  cases hknown : known.lookup inst.serviceId with
  | none =>
    rw [hknown] at hm
    simp only [applyChanges_mount, hm, Option.filter]
  | some oldUrl =>
    rw [hknown] at hm
    by_cases hsame : oldUrl = url
    · subst hsame
      simpa using hm
    · simp only [if_neg hsame, applyChanges_remove, applyChanges_mount, Function.update_self,
        Option.filter]

theorem mem_newMap (hl : Distinct l) :
    id ∈ newMap l ↔ ∃ url, (byId l id).bind grpcUrl = some url := by
  rw [← Finmap.lookup_isSome, newMap, lookup_endpointMap hl, Option.isSome_iff_exists]
  simp

/-- What the balancer holds is the valid part of what the listener knows, and of the list. -/
structure Mounted (valid : String → Bool) (list : List ServiceInstance)
    (known : HashMap String String) (m : String → Option String) : Prop where
  distinct : Distinct list
  ofKnown : ∀ id, m id = (known.lookup id).filter valid
  ofList : ∀ id, m id = ((byId list id).bind grpcUrl).filter valid

theorem mounted_initial (hl : Distinct l) :
    Mounted valid l ((tonic valid).known l) (fold ((tonic valid).initial l)) := by
  have hlist (id : String) : fold ((tonic valid).initial l) id
      = ((byId l id).bind grpcUrl).filter valid := by
    rw [fold, tonic, applyChanges_flatMap _ hl]
    · cases hinst : byId l id with
      | none => rfl
      | some inst =>
        obtain ⟨-, rfl⟩ := hl.byId_eq_some.mp hinst
        cases hurl : grpcUrl inst with
        | none => simp [hurl]
        | some url => simp [hurl, applyChanges_mount, Option.filter_some]
    · intro inst change hchange
      split at hchange
      · exact key_of_mem_mount hchange
      · cases hchange
  exact ⟨hl, fun id => (hlist id).trans (by rw [tonic, lookup_endpointMap hl]; simp), hlist⟩

/-- **A notification leaves the valid endpoints of its list.** -/
theorem tonic_changes {order : List String} (horder : order.toFinset = known.keys)
    (hm : ∀ id, m id = (known.lookup id).filter valid) (hl : Distinct l) (id : String) :
    applyChanges ((tonic valid).changes known order l) m id
      = ((byId l id).bind grpcUrl).filter valid := by
  rw [tonic, applyChanges_append, applyChanges_removals,
    applyChanges_flatMap (fun _ _ => key_of_mem_diff) hl]
  have hgone : id ∉ newMap l →
      (if id ∈ order.filter (· ∉ newMap l) then none else m id) = none := by
    intro hnew
    split_ifs with hmem
    · rfl
    · have hknown : id ∉ known := by
        rw [← Finmap.mem_keys, ← horder, List.mem_toFinset]
        simpa [hnew] using hmem
      rw [hm, Finmap.lookup_eq_none.mpr hknown]
      rfl
  cases hinst : byId l id with
  | none => exact hgone (by simp [mem_newMap hl, hinst])
  | some inst =>
    obtain ⟨-, rfl⟩ := hl.byId_eq_some.mp hinst
    cases hurl : grpcUrl inst with
    | none =>
      have hnothing : diff valid known inst = [] := by rw [diff, hurl]
      simpa [hnothing, hurl] using hgone (by simp [mem_newMap hl, hinst, hurl])
    | some url =>
      have hnew : inst.serviceId ∈ newMap l := (mem_newMap hl).mpr ⟨url, by rw [hinst]; exact hurl⟩
      simp [hnew, hurl, applyChanges_diff hurl (hm _)]

theorem mounted_kept : Discovery.KeptByNotification (tonic valid) (Mounted valid)
    fun _ event => event.Distinct := by
  intro instances event known order m h hevent horder
  have hl := h.distinct.newList hevent
  have hlist := tonic_changes horder h.ofKnown hl
  exact ⟨hl, fun id => (hlist id).trans (by rw [tonic, newMap, lookup_endpointMap hl]; simp), hlist⟩

/-- **The change diff is exact**: once a notification is through, what has been emitted leads to the
valid gRPC endpoints of the last list. -/
theorem mounted_of_roomy {directory : ServiceDirectory} {svcName : String} {w : List DiscoverLabel}
    (hdistinct : Distinct (directory.getInstances svcName))
    (hw : EachStep (Discovery.step (tonic valid))
      (fun s l => s.Roomy l ∧ s.Applies (fun _ event => event.Distinct) l)
      (.start (tonic valid) directory svcName) w) :
    EachState (Discovery.step (tonic valid)) (fun s => s.state = .listening → ∀ id,
      fold s.channel.sent id = ((byId s.snapshot id).bind grpcUrl).filter valid)
      (.start (tonic valid) directory svcName) w := by
  refine (Discovery.eachState_tracks mounted_kept (mounted_initial hdistinct) hw).imp
    fun s hs hlistening id => ?_
  rw [← Discovery.outlook_of_listening hlistening]
  exact hs.ofList id

/-- An order service of a given id that serves gRPC at a host. -/
def atHost (id host : String) : ServiceInstance :=
  { atPort id 8080 with grpc := some (.new host 9090) }

/-- A URL without blanks. -/
def unbroken (url : String) : Bool := url.toList.all fun c => !isWhitespace c

/-- The endpoint of `a` goes astray and comes back, while `b` has none to begin with; the balancer
receives the first change before the listener is installed. -/
def astray : List DiscoverLabel :=
  [.send, .receive, .install, .apply "order-svc" (.upsert (atHost "a" "no such host")) ["a"],
    .offer, .done, .receive,
    .apply "order-svc" (.reset [atHost "b" "10.0.0.2", atHost "a" "10.0.0.1"]) ["a"],
    .offer, .offer, .offer, .receive, .done]

/-- A directory that lists an instance with an endpoint and one without. -/
def halfMounted : ServiceDirectory :=
  (ServiceDirectory.withOptions false ∅).store "order-svc" [atHost "a" "10.0.0.1", atPort "b" 8080]

example : (run (Discovery.step (tonic unbroken)) (.start (tonic unbroken) halfMounted "order-svc")
    astray).map (·.channel.sent) = some [.insert "a" "http://10.0.0.1:9090", .remove "a",
      .insert "b" "http://10.0.0.2:9090", .remove "a", .insert "a" "http://10.0.0.1:9090"] := by
  decide +kernel

theorem mounted_of_roomy_astray :
    EachState (Discovery.step (tonic unbroken)) (fun s => s.state = .listening → ∀ id,
      fold s.channel.sent id = ((byId s.snapshot id).bind grpcUrl).filter unbroken)
      (.start (tonic unbroken) halfMounted "order-svc") astray :=
  mounted_of_roomy (by decide +kernel) (by decide +kernel)

/-! ## The ids the balancer holds -/

/-- The ids a list adds, where each instance adds its own or none. -/
theorem isSome_applyChanges_flatMap {changes : ServiceInstance → List (Change String)}
    {Q : ServiceInstance → Prop} (held : Prop)
    (h : ∀ inst ∈ l, ∀ m : String → Option String, (held → (m id).isSome) →
      ((applyChanges (changes inst) m id).isSome ↔ (m id).isSome ∨ Q inst))
    (hm : held → (m id).isSome) :
    (applyChanges (l.flatMap changes) m id).isSome ↔ (m id).isSome ∨ ∃ inst ∈ l, Q inst := by
  induction l generalizing m with
  | nil => simp
  | cons inst l ih =>
    have hfirst := h inst List.mem_cons_self m hm
    rw [List.flatMap_cons, applyChanges_append,
      ih (fun inst' hinst' => h inst' (List.mem_cons_of_mem _ hinst'))
        (fun hheld => hfirst.mpr (.inl (hm hheld))),
      hfirst, List.exists_mem_cons_iff, or_assoc]

theorem isSome_mount {url : String} (m : String → Option String) (hid : inst.serviceId = id)
    (hurl : grpcUrl inst = some url) :
    (applyChanges (mount valid inst.serviceId url) m id).isSome
      ↔ (m id).isSome ∨ Files valid id inst := by
  subst hid
  rw [applyChanges_mount]
  by_cases hvalid : valid url <;> simp [hvalid, Files, hurl]

theorem tonic_knows_initial (l : List ServiceInstance) :
    Discovery.Knows (tonic valid) l ((tonic valid).known l) (fold ((tonic valid).initial l)) := by
  intro id
  have hkeys : id ∈ (tonic valid).keys ((tonic valid).known l) ↔ ∃ inst ∈ l, Files valid id inst :=
    Finmap.mem_keys.trans mem_endpointMap
  rw [hkeys, fold, tonic, isSome_applyChanges_flatMap (Q := Files valid id) False]
  · simp
  · intro inst _ m _
    cases hurl : grpcUrl inst with
    | none => simp [Files, hurl]
    | some url =>
      by_cases hid : inst.serviceId = id
      · exact isSome_mount m hid hurl
      · rw [applyChanges_of_forall_ne fun change hchange heq =>
          hid ((key_of_mem_mount hchange).symm.trans heq)]
        simp [Files, hid]
  · exact False.elim

/-- Every endpoint of the list has a valid URL. -/
def AllValid (valid : String → Bool) (list : List ServiceInstance) : Prop :=
  ∀ inst ∈ list, (grpcUrl inst).all valid

instance : DecidablePred (AllValid valid) := fun list =>
  inferInstanceAs (Decidable (∀ inst ∈ list, (grpcUrl inst).all valid = true))

theorem isSome_diff (hvalid : (grpcUrl inst).all valid) (m : String → Option String)
    (hm : id ∈ known → (m id).isSome) :
    (applyChanges (diff valid known inst) m id).isSome
      ↔ (m id).isSome ∨ Files (fun _ => true) id inst := by
  by_cases hid : inst.serviceId = id
  · subst hid
    rw [diff]
    cases hurl : grpcUrl inst with
    | none => simp [Files, hurl]
    | some url =>
      have hvalid : valid url := by simpa [hurl] using hvalid
      cases hknown : known.lookup inst.serviceId with
      | none => simp [Files, hurl, applyChanges_mount, hvalid]
      | some oldUrl =>
        have hheld := hm (Finmap.lookup_isSome.mp (by rw [hknown]; rfl))
        by_cases hsame : oldUrl = url
        · simp [Files, hurl, hsame, hheld]
        · simp [Files, hurl, hsame, applyChanges_mount, hvalid]
  · rw [applyChanges_of_forall_ne fun change hchange heq =>
      hid ((key_of_mem_diff hchange).symm.trans heq)]
    simp [Files, hid]

theorem tonic_knows_kept : Discovery.KeptByNotification (tonic valid)
    (Discovery.Knows (tonic valid)) fun list event => AllValid valid (newList list event) := by
  intro instances event known order m hknown hvalid horder id
  set list := newList instances event
  have hkeys : id ∈ (tonic valid).keys ((tonic valid).next list) ↔ id ∈ newMap list :=
    Finmap.mem_keys
  have horder : id ∈ order ↔ (m id).isSome := by rw [hknown, ← horder, List.mem_toFinset]
  have hsome : (applyChanges (list.flatMap (diff valid known)) m id).isSome
      ↔ (m id).isSome ∨ id ∈ newMap list := by
    rw [newMap, mem_endpointMap]
    exact isSome_applyChanges_flatMap (id ∈ known)
      (fun inst hinst m hm => isSome_diff (hvalid inst hinst) m hm)
      fun hid => (hknown id).mpr (Finmap.mem_keys.mpr hid)
  rw [hkeys, tonic, applyChanges_append, applyChanges_removals]
  split_ifs with hgone
  · have hnew : id ∉ newMap list := by simpa using (List.mem_filter.mp hgone).2
    exact iff_of_false (by simp) hnew
  · rw [hsome]
    refine or_iff_right_of_imp fun hheld => by_contra fun hnew => hgone ?_
    exact List.mem_filter.mpr ⟨horder.mpr hheld, by simpa using hnew⟩

/-- **Without a refused send no change is lost**: in both bindings, a drained consumer holds the ids
the listener knows; that of tonic needs every endpoint it is told of to have a valid URL, since it
records the others as well. -/
theorem keepsIds_of_roomy (directory : ServiceDirectory) (svcName : String)
    (w : List DiscoverLabel) :
    (EachStep (Discovery.step tower) Discovery.Roomy (.start tower directory svcName) w →
      EachState (Discovery.step tower) (Discovery.KeepsIds tower) (.start tower directory svcName)
        w)
    ∧ ∀ valid, EachStep (Discovery.step (tonic valid)) (fun s l => s.Roomy l
        ∧ s.Applies (fun list event => AllValid valid (newList list event)) l)
        (.start (tonic valid) directory svcName) w →
      EachState (Discovery.step (tonic valid)) (Discovery.KeepsIds (tonic valid))
        (.start (tonic valid) directory svcName) w := by
  constructor
  · intro hw
    have htracks := Discovery.eachState_tracks tower_knows_kept (tower_knows_initial _)
      (hw.imp fun s l hroom => ⟨hroom, Discovery.applies_of_forall (fun _ _ => trivial) l⟩)
    exact htracks.imp fun s hs => hs.keepsIds
  · intro valid hw
    exact (Discovery.eachState_tracks tonic_knows_kept (tonic_knows_initial _) hw).imp
      fun s hs => hs.keepsIds

theorem keepsIds_of_roomy_moves :
    EachState (Discovery.step tower) (Discovery.KeepsIds tower)
        (.start tower loneInstance "order-svc") leaveAndReturn
      ∧ EachState (Discovery.step (tonic unbroken)) (Discovery.KeepsIds (tonic unbroken))
        (.start (tonic unbroken) halfMounted "order-svc")
        [.send, .install, .apply "order-svc" (.upsert (atHost "b" "10.0.0.2")) ["a"], .receive,
          .offer, .done, .receive] :=
  ⟨(keepsIds_of_roomy _ _ _).1 (by decide +kernel),
    (keepsIds_of_roomy _ _ _).2 unbroken (by decide +kernel)⟩

/-- A reset lists `n` instances at once, and nobody receives until the listener is done. -/
def burst (n : ℕ) : List DiscoverLabel :=
  [.install, .apply "order-svc" (.reset ((List.range n).map fun k => atPort (toString k) 8080)) []]
    ++ List.replicate n .offer ++ [.done] ++ List.replicate discoverCapacity .receive

/-- **A burst overruns the channel.**  The sixty-fifth insertion is refused, and the listener counts
its id among those it has told of. -/
theorem burst_loses_one : ¬ ∀ directory svcName w,
    (ServiceDirectory.getInstances directory svcName).length ≤ discoverCapacity →
      EachState (Discovery.step tower) (Discovery.KeepsIds tower) (.start tower directory svcName) w
      ∧ ∀ valid, EachState (Discovery.step (tonic valid)) (Discovery.KeepsIds (tonic valid))
        (.start (tonic valid) directory svcName) w := by
  intro h
  have hall := (h (.withOptions false ∅) "order-svc" (burst 65) (Nat.zero_le _)).1
  exact absurd (hall.imp fun s hs hlistening hdrained => hs hlistening hdrained "64")
    (by decide +kernel)

end PecsRegistry
