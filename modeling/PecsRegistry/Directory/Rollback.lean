import PecsRegistry.Provider.Chronicle

/-!
# Directory/Rollback — a late insert hides what the watch task has applied

`load_or_watch` lists a service and stores the list in a later step, without a look at the snapshot
it replaces.  A second caller may pass the first check as well, list early and insert late; what the
watch task of the first has applied in between is then gone.  `keepsEffects_iff` says exactly when
nothing is lost: the update must have left its ids as they were at the listing.
-/

namespace PecsRegistry

open Transition Writes Chronicle

variable {sys₀ sys sys' c d : Deployment Chronicle} {name : String} {i n m : ℕ}
  {event : ServiceEvent} {id : String}

/-- **An event overtakes a load**: in a word, call `i` reads its listing of a service when the log
has length `n`, and then the watch task of the service takes update `m`, which came later, and
applies it. -/
inductive Overtaken (sys₀ : Deployment Chronicle) (name : String) (i : ℕ) :
    ℕ → ℕ → ServiceEvent → List (DirectoryLabel ⊕ ChronicleOp) → Prop
  | intro (u v v' v'' : List (DirectoryLabel ⊕ ChronicleOp)) (list : List ServiceInstance) (k : ℕ)
      (event : ServiceEvent) (a b : Deployment Chronicle) (t : WatchTask) (r n m : ℕ)
      (before : run provider.step sys₀ u = some a) (at_ : a.directory.calls i = .listing name)
      (listed : (a.registry.log name).length = n)
      (between : run provider.step sys₀ (u ++ .inl (.call i (.listed (.ok list))) :: v) = some b)
      (task : b.directory.tasks k = some t) (serves : t.name = name)
      (selecting : t.state = .selecting r) (next : b.registry.streams.lookup r = some (name, m))
      (later : n ≤ m) (unapplied : .inl (.task k .apply) ∉ v') :
      Overtaken sys₀ name i n m event
        (u ++ .inl (.call i (.listed (.ok list)))
          :: (v ++ .inl (.task k (.next (some event))) :: (v' ++ .inl (.task k .apply) :: v'')))

/-- The list shows what the event makes of the id. -/
def Shows (event : ServiceEvent) (list : List ServiceInstance) (id : String) : Prop :=
  event.write.effect id = some (byId list id)

instance (event : ServiceEvent) (list : List ServiceInstance) (id : String) :
    Decidable (Shows event list id) := inferInstanceAs (Decidable (_ = _))

/-- What is said of every insert of the word, each event that has overtaken it, and each id whose
effect shows before it. -/
def AtLateInserts (sys₀ : Deployment Chronicle) (w : List (DirectoryLabel ⊕ ChronicleOp))
    (Q : (c d : Deployment Chronicle) → (name : String) → (n m : ℕ) → ServiceEvent → String →
      Prop) : Prop :=
  ∀ u v i name c d, w = u ++ .inl (.call i .insert) :: v → run provider.step sys₀ u = some c →
    provider.step c (.inl (.call i .insert)) = some d →
      ∀ n m event, Overtaken sys₀ name i n m event u →
        ∀ id, Shows event (c.directory.getInstances name) id → Q c d name n m event id

/-- No insert discards the effect of an event that has overtaken its load. -/
def KeepsEffects (sys₀ : Deployment Chronicle) (w : List (DirectoryLabel ⊕ ChronicleOp)) : Prop :=
  AtLateInserts sys₀ w fun _ d name _ _ event id => Shows event (d.directory.getInstances name) id

/-- Each such event has left the id as it was at the listing. -/
def LeavesIds (sys₀ : Deployment Chronicle) (w : List (DirectoryLabel ⊕ ChronicleOp)) : Prop :=
  AtLateInserts sys₀ w fun c _ name n m _ id =>
    mapAfter ((c.registry.log name).take (m + 1)) id = mapAfter ((c.registry.log name).take n) id

/-! ## A call that holds a listing -/

/-- The call is past its insert. -/
def Past : CallState → Prop
  | .ensuring .. | .subscribing .. | .returned _ | .dropped => True
  | _ => False

/-- Call `i` is about to insert the list, or past that. -/
def Holding (i : ℕ) (name : String) (list : List ServiceInstance) (d : ServiceDirectory) : Prop :=
  d.calls i = .inserting name list ∨ Past (d.calls i)

theorem Holding.step {list : List ServiceInstance} {d d' : ServiceDirectory}
    (h : Holding i name list d) {l : DirectoryLabel} (hstep : d.step l = some d') :
    Holding i name list d' := by
  by_cases hl : ∃ l', l = .call i l'
  · obtain ⟨l', rfl⟩ := hl
    cases ServiceDirectory.callMove_of_callStep hstep with
    | insert at_ => exact .inr (by simp [Past])
    | ensured at_ => exact .inr (by simp [Past])
    | enrol at_ => exact .inr (by simp [Past])
    | subscribed result at_ => exact .inr (by simp [Past])
    | _ => rcases h with h | h <;> simp [Past, *] at h
  · rcases ServiceDirectory.call_of_foreign_step hstep (not_exists.mp hl) with hsame | hdropped
    · rw [Holding, hsame]
      exact h
    · exact .inr (by simp [hdropped, Past])

theorem Holding.run {list : List ServiceInstance} {w : List (DirectoryLabel ⊕ ChronicleOp)}
    (h : Holding i name list sys.directory) (hrun : run provider.step sys w = some sys') :
    Holding i name list sys'.directory := by
  refine preserved_run (I := fun s => Holding i name list s.directory)
    (fun s l s' hs hstep => ?_) h hrun
  rcases l with l | op
  · exact hs.step (Provider.step_inl_eq_some.mp hstep).2
  · rw [(Provider.step_inr_eq_some.mp hstep).2]
    exact hs

/-- A load holds the listing it has read. -/
theorem listed_of_step {list : List ServiceInstance} (hat : sys.directory.calls i = .listing name)
    (hstep : provider.step sys (.inl (.call i (.listed (.ok list)))) = some sys') :
    byId list = mapAfter (sys.registry.log name) ∧ Holding i name list sys'.directory := by
  obtain ⟨hreply, hdir⟩ := Provider.step_inl_eq_some.mp hstep
  simp only [ServiceDirectory.query, CallState.query, hat] at hreply
  refine ⟨listed_of_answer hreply, ?_⟩
  simp only [ServiceDirectory.step, ServiceDirectory.callStep, hat] at hdir
  rw [← Option.some.inj hdir]
  exact .inl (by simp)

/-- An insert stores the listing that the load holds. -/
theorem insert_of_step {list : List ServiceInstance} (h : Holding i name list sys.directory)
    (hstep : provider.step sys (.inl (.call i .insert)) = some sys') :
    sys'.directory.getInstances name = list := by
  have move := ServiceDirectory.callMove_of_callStep (Provider.step_inl_eq_some.mp hstep).2
  generalize sys'.directory = d' at move
  cases move with
  | insert at_ =>
    rcases h with h | h
    · obtain ⟨rfl, rfl⟩ := CallState.inserting.inj (at_.symm.trans h)
      exact (sys.directory.getInstances_store _ _ _).trans (if_pos rfl)
    · simp [at_, Past] at h

/-! ## One insert -/

/-- **An insert keeps an effect, exactly**, if the update has left the id as it was at the
listing. -/
theorem shows_insert_iff {u : List (DirectoryLabel ⊕ ChronicleOp)}
    (hrun : run provider.step sys₀ u = some c)
    (hstep : provider.step c (.inl (.call i .insert)) = some d)
    (h : Overtaken sys₀ name i n m event u)
    (hshows : Shows event (c.directory.getInstances name) id) :
    Shows event (d.directory.getInstances name) id
      ↔ mapAfter ((c.registry.log name).take (m + 1)) id
        = mapAfter ((c.registry.log name).take n) id := by
  obtain ⟨u, v, v', v'', list, k, event, a, b, t, r, n, m, before, at_, rfl, between, task, serves,
    selecting, next, later, -⟩ := h
  -- the run, cut at the listing and at the event
  obtain ⟨_, ha, hrest⟩ := run_append_eq_some.mp hrun
  obtain rfl := Option.some.inj (before.symm.trans ha)
  obtain ⟨a', hlist, hac⟩ := run_cons_eq_some.mp hrest
  obtain ⟨_, ha, hrest'⟩ := run_append_eq_some.mp between
  obtain rfl := Option.some.inj (before.symm.trans ha)
  obtain ⟨_, ha', hab⟩ := run_cons_eq_some.mp hrest'
  obtain rfl := Option.some.inj (hlist.symm.trans ha')
  obtain ⟨_, hb, hbc⟩ := run_append_eq_some.mp hac
  obtain rfl := Option.some.inj (hab.symm.trans hb)
  obtain ⟨b', hnext, -⟩ := run_cons_eq_some.mp hbc
  -- what the log says of both
  obtain ⟨hmap, hholds⟩ := listed_of_step at_ hlist
  have hlog : a.registry.log name <+: c.registry.log name := log_of_run hrest
  have hinsert := insert_of_step (hholds.run hac) hstep
  have hevent : (b.registry.log name)[m]? = some event := by
    obtain ⟨hreply, -⟩ := Provider.step_inl_eq_some.mp hnext
    simp only [ServiceDirectory.query, task, Option.bind_some, WatchTask.query, selecting] at hreply
    exact next_of_answer next hreply
  have hat : (c.registry.log name)[m]? = some event := by
    obtain ⟨rest, hrest⟩ : b.registry.log name <+: c.registry.log name := log_of_run hbc
    obtain ⟨hlt, -⟩ := List.getElem?_eq_some_iff.mp hevent
    rw [← hrest, List.getElem?_append_left hlt, hevent]
  have hafter : mapAfter ((c.registry.log name).take (m + 1)) id
      = (event.write.effect id).getD (mapAfter ((c.registry.log name).take m) id) := by
    rw [List.take_add_one, hat, Option.toList_some, mapAfter_snoc]
    rfl
  rw [hafter, ← List.prefix_iff_eq_take.mp hlog, ← hmap, Shows, hinsert]
  rw [Shows] at hshows
  rw [hshows, Option.getD_some, Option.some_inj]

/-! ## Runs -/

/-- **Late loaders roll nothing back, exactly**, in the runs in which every event that overtakes a
load, and still shows at its insert, has left its ids as they were at the listing. -/
theorem keepsEffects_iff (sys₀ : Deployment Chronicle) (w : List (DirectoryLabel ⊕ ChronicleOp)) :
    KeepsEffects sys₀ w ↔ LeavesIds sys₀ w := by
  constructor
  · intro h u v i name c d hw hc hd n m event hover id hshows
    exact (shows_insert_iff hc hd hover hshows).mp
      (h u v i name c d hw hc hd n m event hover id hshows)
  · intro h u v i name c d hw hc hd n m event hover id hshows
    exact (shows_insert_iff hc hd hover hshows).mpr
      (h u v i name c d hw hc hd n m event hover id hshows)

/-- Two callers list a service without instances, and the second of them gets as far as its watch
task. -/
def twoLoaders : List (DirectoryLabel ⊕ ChronicleOp) :=
  [.inl (.call 0 (.loadOrWatch "order-svc")), .inl (.call 1 (.loadOrWatch "order-svc")),
    .inl (.call 0 .read), .inl (.call 0 .lock), .inl (.call 1 .read), .inl (.call 1 .lock),
    .inl (.call 1 (.listed (.ok []))), .inl (.call 1 .insert), .inl (.call 1 .lock),
    .inl (.call 1 (.subscribed (.ok 0))), .inl (.task 0 .enter), .inl (.task 0 .primed)]

/-- An instance registers. -/
def registers : ServiceEvent := .upsert (.simple "order-svc" "127.0.0.1" 8080)

/-- The first caller reads its listing, an instance registers, and the watch task applies it. -/
def overtaking : List (DirectoryLabel ⊕ ChronicleOp) :=
  twoLoaders ++ .inl (.call 0 (.listed (.ok [])))
    :: ([.inr (.update "order-svc" registers)]
      ++ .inl (.task 0 (.next (some registers))) :: ([] ++ .inl (.task 0 .apply) :: []))

/-- **An instance hidden.**  Then the first caller inserts its listing. -/
theorem instance_hidden : ¬ ∀ diskCache disk w,
    KeepsEffects ⟨.withOptions diskCache disk, .empty⟩ w := by
  intro h
  have hover : Overtaken ⟨.withOptions false ∅, .empty⟩ "order-svc" 0 0 0 registers overtaking :=
    .intro twoLoaders [.inr (.update "order-svc" registers)] [] [] [] 0 registers _ _
      ⟨"order-svc", 0, none, 1, .selecting 0⟩ 0 0 0 rfl rfl rfl rfl rfl rfl rfl rfl le_rfl
      List.not_mem_nil
  have hlate := h false ∅ (overtaking ++ .inl (.call 0 .insert) :: []) overtaking [] 0 "order-svc"
    _ _ rfl rfl rfl 0 0 registers hover "order-svc-127.0.0.1-8080" (by decide +kernel)
  exact absurd hlate (by decide +kernel)

end PecsRegistry
