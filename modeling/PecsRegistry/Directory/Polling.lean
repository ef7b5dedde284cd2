import PecsRegistry.Directory.Provenance

/-!
# Directory/Polling — a directory that has to ask

Over a registry that answers every listing, but whose streams never bring an event
(`Provider.Polled`), the directory never reads its disk, and knows of a service what it has asked
for: **its snapshot is one whole listing**, taken over by a load or a reconcile, with the events
that have been applied by hand since (`Polled.told`).  From a point on where no listing of the
service is in hand, only listings given later are taken over (`Polled.told_since`).
-/

namespace PecsRegistry

open Transition

variable {σ ω : Type} {P : Provider σ ω} {name : String} {list : List ServiceInstance}

/-- The registry answers every listing, and its streams bring no event. -/
structure Provider.Polled (P : Provider σ ω) : Prop where
  answers : ∀ reg name err, P.answer reg (.list name (.error err)) = none
  quiet : ∀ reg stream event, P.answer reg (.next stream (some event)) = none

/-- A listing of the service may be answered with the list. -/
def Provider.Lists (P : Provider σ ω) (reg : σ) (name : String) (list : List ServiceInstance) :
    Prop :=
  ∃ reg', P.answer reg (.list name (.ok list)) = some reg'

/-- The events that a step applies to a service by hand. -/
def byHand (name : String) : DirectoryLabel ⊕ ω → List ServiceEvent
  | .inl (.apply name' event) => if name = name' then [event] else []
  | _ => []

namespace ServiceDirectory

variable {d d' : ServiceDirectory} {l : DirectoryLabel}

/-- A listing of a service is on its way into the snapshots, with a load or with a reconcile. -/
inductive InHand (d : ServiceDirectory) (name : String) (list : List ServiceInstance) : Prop
  | load {i : ℕ} (at_ : d.calls i = .inserting name list)
  | reconcile {k : ℕ} {t : WatchTask} (task : d.tasks k = some t) (name_ : t.name = name)
      (latest_ : t.latest = some list)

/-- No load falls back on the disk, and no task has taken an event. -/
structure OnlyAsks (d : ServiceDirectory) : Prop where
  calls : ∀ i name err, d.calls i ≠ .recovering name err
  tasks : ∀ k t, d.tasks k = some t → t.taken = none

/-- A step replaces the snapshot of a service by a list, whatever it was. -/
inductive Replaces (d : ServiceDirectory) (name : String) :
    DirectoryLabel ⊕ ω → List ServiceInstance → Prop
  | insert {i : ℕ} {list : List ServiceInstance} (at_ : d.calls i = .inserting name list) :
      Replaces d name (.inl (.call i .insert)) list
  | reset {k : ℕ} {t : WatchTask} {latest : List ServiceInstance} (task : d.tasks k = some t)
      (name_ : t.name = name) (latest_ : t.latest = some latest) :
      Replaces d name (.inl (.task k .reset)) latest
  | clear (i : ℕ) : Replaces d name (.inl (.call i .clear)) []

/-- Where a directory only asks, a listing in hand was there before, or has just been answered. -/
theorem inHand_of_step (h : d.OnlyAsks) (hstep : d.step l = some d')
    (hin : d'.InHand name list) :
    d.InHand name list ∨ d.query l = some (.list name (.ok list)) := by
  cases hin with
  | @load i at_ =>
    by_cases hown : ∃ l', l = .call i l'
    · obtain ⟨l, rfl⟩ := hown
      cases callMove_of_callStep hstep with
      | listed instances hlisting =>
        exact .inr (by simpa [query, hlisting, CallState.query] using at_)
      | recovered hrecovering => exact absurd hrecovering (h.calls _ _ _)
      | _ => simp at at_
    · rcases call_of_foreign_step hstep (not_exists.mp hown) with hsame | hdrop
      · exact .inl (.load (hsame ▸ at_))
      · exact absurd (at_.symm.trans hdrop) (by simp)
  | @reconcile k t' ht' name_ latest_ =>
    by_cases hown : ∃ l', l = .task k l'
    · obtain ⟨l, rfl⟩ := hown
      obtain ⟨t, ht, hmove⟩ := Option.bind_eq_some_iff.mp hstep
      cases taskMove_of_taskStep hmove with
      | listed latest at_ =>
        obtain rfl : _ = t' := by simpa using ht'
        obtain rfl : latest = list := by simpa [WatchTask.latest] using latest_
        exact .inr (by simp [query, ht, WatchTask.query, ← name_])
      | _ =>
        obtain rfl : _ = t' := by simpa using ht'
        simp [WatchTask.latest] at latest_
    · rcases task_of_foreign_step hstep ht' (not_exists.mp hown) with ht | ⟨hentering, -⟩
      · exact .inl (.reconcile ht name_ latest_)
      · simp [WatchTask.latest, hentering] at latest_

theorem Replaces.getInstances (h : d.Replaces name (ω := ω) (.inl l) list)
    (hstep : d.step l = some d') : d'.getInstances name = list := by
  cases h with
  | insert at_ =>
    cases callMove_of_callStep hstep with
    | insert at_' =>
      obtain ⟨rfl, rfl⟩ := CallState.inserting.inj (at_.symm.trans at_')
      exact (getInstances_store d _ _ _).trans (if_pos rfl)
  | reset task name_ latest_ =>
    cases move_of_step hstep with
    | task task' move =>
      obtain rfl := Option.some.inj (task.symm.trans task')
      cases move with
      | @reset stream latest at_ =>
        obtain rfl : latest = list := by simpa [WatchTask.latest, at_] using latest_
        exact (getInstances_applyEvent d _ _ _).trans (if_pos name_.symm)
  | clear =>
    cases callMove_of_callStep hstep with
    | clear at_ => rfl

/-- Where a directory only asks, a step that does not replace the snapshot of a service leaves it,
but for the events it applies by hand. -/
theorem getInstances_of_step (h : d.OnlyAsks) (hstep : d.step l = some d')
    (hkept : ∀ list, ¬ d.Replaces name (ω := ω) (.inl l) list) :
    d'.getInstances name = listAfter (d.getInstances name) (byHand name (ω := ω) (.inl l)) := by
  rcases snapshots_of_step hstep with ⟨u, hu, hsnap⟩ | ⟨hu, -, hsnap⟩ | ⟨-, ⟨i, rfl⟩, hsnap⟩
  · have hperform : d'.getInstances name = (d.perform u).getInstances name := by
      rw [getInstances, hsnap, getInstances]
    rw [hperform]
    cases updates_of_update hu with
    | @insert i name' list at_ =>
      have hne : name ≠ name' := fun hname => hkept list (.insert (hname ▸ at_))
      exact (getInstances_store d _ _ _).trans (if_neg hne)
    | taken task taken_ => simp [h.tasks _ _ task] at taken_
    | @reset k t latest task latest_ =>
      have hne : name ≠ t.name := fun hname => hkept latest (.reset task hname.symm latest_)
      exact (getInstances_applyEvent d _ _ _).trans (if_neg hne)
    | apply name' event =>
      rw [perform, getInstances_applyEvent, byHand]
      split_ifs with hname
      · rw [hname]
        rfl
      · rfl
  · have hsame : d'.getInstances name = d.getInstances name := by
      rw [getInstances, hsnap, getInstances]
    rw [hsame]
    cases l with
    | apply name' event => cases hu
    | _ => rfl
  · exact absurd (.clear i) (hkept [])

end ServiceDirectory

/-! ## What the directory knows -/

namespace Provider.Polled

open ServiceDirectory

variable {sys sys' : Deployment σ} {l : DirectoryLabel ⊕ ω} {w : List (DirectoryLabel ⊕ ω)}

/-- No event arrives. -/
theorem quiet_of_step (hP : P.Polled) {l : DirectoryLabel} (hstep : P.step sys (.inl l) = some sys')
    (k : ℕ) (event : ServiceEvent) : l ≠ .task k (.next (some event)) := by
  rintro rfl
  obtain ⟨d', reg'⟩ := sys'
  obtain ⟨hreply, hdir⟩ := step_inl_eq_some.mp hstep
  cases move_of_step hdir with
  | task task move =>
    cases move with
    | event event at_ =>
      rw [query, task, Option.bind_some, WatchTask.query, at_] at hreply
      exact absurd hreply (by simp [reply, hP.quiet])

theorem onlyAsks_step (hP : P.Polled) (h : sys.directory.OnlyAsks)
    (hstep : P.step sys l = some sys') : sys'.directory.OnlyAsks := by
  cases l with
  | inr op =>
    obtain ⟨-, hdir⟩ := step_inr_eq_some.mp hstep
    rwa [hdir]
  | inl l =>
    have hquiet := hP.quiet_of_step hstep
    obtain ⟨d', reg'⟩ := sys'
    obtain ⟨hreply, hdir⟩ := step_inl_eq_some.mp hstep
    refine ⟨fun i name err at_ => ?_, fun k t' ht' => ?_⟩
    · by_cases hown : ∃ l', l = .call i l'
      · obtain ⟨l, rfl⟩ := hown
        cases callMove_of_callStep hdir with
        | listFailed err hlisting =>
          rw [query, hlisting, CallState.query] at hreply
          exact absurd hreply (by simp [reply, hP.answers])
        | _ => simp at at_
      · rcases call_of_foreign_step hdir (not_exists.mp hown) with hsame | hdrop
        · exact h.calls i name err (hsame ▸ at_)
        · exact absurd (at_.symm.trans hdrop) (by simp)
    · by_cases hown : ∃ l', l = .task k l'
      · obtain ⟨l, rfl⟩ := hown
        obtain ⟨t, ht, hmove⟩ := Option.bind_eq_some_iff.mp hdir
        cases taskMove_of_taskStep hmove with
        | event event at_ => exact absurd rfl (hquiet k event)
        | _ =>
          obtain rfl : _ = t' := by simpa using ht'
          rfl
      · rcases task_of_foreign_step hdir ht' (not_exists.mp hown) with ht | ⟨hentering, -⟩
        · exact h.tasks k t' ht
        · rw [WatchTask.taken, hentering]

theorem inHand_step (h : sys.directory.OnlyAsks) (hstep : P.step sys l = some sys')
    (hin : sys'.directory.InHand name list) :
    sys.directory.InHand name list ∨ P.Lists sys.registry name list := by
  cases l with
  | inl l =>
    obtain ⟨hreply, hdir⟩ := step_inl_eq_some.mp hstep
    refine (inHand_of_step h hdir hin).imp_right fun hquery => ?_
    rw [hquery] at hreply
    exact ⟨_, hreply⟩
  | inr op =>
    rw [(step_inr_eq_some.mp hstep).2] at hin
    exact .inl hin

/-- What is in hand at the end of a run, and was not at its start, was listed on the way. -/
theorem listed_of_inHand (hP : P.Polled) (h : sys.directory.OnlyAsks)
    (hhand : ¬sys.directory.InHand name list) (hrun : run P.step sys w = some sys')
    (hin : sys'.directory.InHand name list) :
    ∃ u v s, w = u ++ v ∧ run P.step sys u = some s ∧ P.Lists s.registry name list := by
  obtain ⟨u, a, v, s, s', rfl, hu, hnone, hs', hin'⟩ :=
    entrance_of_run (Q := fun s => s.directory.InHand name list) hhand hin hrun
  have hasks : s.directory.OnlyAsks :=
    preserved_run (fun _ _ _ h hstep => hP.onlyAsks_step h hstep) h hu
  exact ⟨u, a :: v, s, rfl, hu, (inHand_step hasks hs' hin').resolve_left hnone⟩

/-- Without a replacement the snapshot stays as it is, but for what is applied by hand. -/
theorem kept_of_run (hP : P.Polled) (hasks : sys.directory.OnlyAsks)
    (hkept : EachStep P.step (fun s l => ¬∃ list, s.directory.Replaces name l list) sys w)
    (hrun : run P.step sys w = some sys') : sys'.directory.getInstances name
      = listAfter (sys.directory.getInstances name) (w.flatMap (byHand name)) := by
  induction w generalizing sys with
  | nil =>
    obtain rfl := Option.some.inj hrun
    rfl
  | cons l w ih =>
    obtain ⟨s, hs, hrest⟩ := run_cons_eq_some.mp hrun
    have hstep : s.directory.getInstances name
        = listAfter (sys.directory.getInstances name) (byHand name l) := by
      cases l with
      | inl l =>
        exact getInstances_of_step hasks (step_inl_eq_some.mp hs).2 (not_exists.mp hkept.1)
      | inr op =>
        rw [(step_inr_eq_some.mp hs).2]
        rfl
    rw [ih (hP.onlyAsks_step hasks hs) (hkept.2 s hs) hrest, hstep, List.flatMap_cons, listAfter,
      listAfter, listAfter, List.foldl_append]

/-- **What the directory knows of a service is one listing**, if nothing of the service was in hand
at the start of the run: what it knew then, or nothing since a `shutdown`, or a whole listing that
was given in the run; and what has been applied by hand since. -/
theorem told (hP : P.Polled) (hasks : sys.directory.OnlyAsks)
    (hhand : ∀ list, ¬sys.directory.InHand name list) (hrun : run P.step sys w = some sys') :
    EachStep P.step (fun s l => ¬∃ list, s.directory.Replaces name l list) sys w
        ∧ sys'.directory.getInstances name
          = listAfter (sys.directory.getInstances name) (w.flatMap (byHand name))
      ∨ ∃ u m v s base, w = u ++ m ++ v ∧ run P.step sys u = some s
        ∧ (P.Lists s.registry name base ∨ base = [] ∧ ∃ i, .inl (.call i .clear) ∈ m)
        ∧ sys'.directory.getInstances name = listAfter base (v.flatMap (byHand name)) := by
  rcases last_step_of_run (fun s l => ∃ list, s.directory.Replaces name l list) hrun with
    hkept | ⟨u, l, v, s, s', rfl, hu, ⟨list, hreplaces⟩, hs', hv, hkept⟩
  · exact .inl ⟨hkept, hP.kept_of_run hasks hkept hrun⟩
  · refine .inr ?_
    have hasks' : s'.directory.OnlyAsks :=
      hP.onlyAsks_step (preserved_run (fun _ _ _ h hstep => hP.onlyAsks_step h hstep) hasks hu) hs'
    have hend := hP.kept_of_run hasks' hkept hv
    have hlist : s'.directory.getInstances name = list := by
      cases l with
      | inl l => exact hreplaces.getInstances (step_inl_eq_some.mp hs').2
      | inr op => cases hreplaces
    rw [hlist] at hend
    -- the list was in hand, and so it was listed before, or the map is cleared
    have hin : s.directory.InHand name list ∨ list = [] ∧ ∃ i, l = .inl (.call i .clear) := by
      cases hreplaces with
      | insert at_ => exact .inl (.load at_)
      | reset task name_ latest_ => exact .inl (.reconcile task name_ latest_)
      | clear i => exact .inr ⟨rfl, i, rfl⟩
    rcases hin with hin | ⟨rfl, i, rfl⟩
    · obtain ⟨u, m, s₀, rfl, hu₀, hlists⟩ := hP.listed_of_inHand hasks (hhand list) hu hin
      exact ⟨u, m ++ [l], v, s₀, list, by simp, hu₀, .inl hlists, hend⟩
    · exact ⟨u, [.inl (.call i .clear)], v, s, [], by simp, hu, .inr ⟨rfl, i, by simp⟩, hend⟩

/-- **A replacement makes up for the past**: once a load or a reconcile has been taken over, the
directory knows what it was told in the run. -/
theorem told_since (hP : P.Polled) (hasks : sys.directory.OnlyAsks)
    (hhand : ∀ list, ¬sys.directory.InHand name list) {u₁ v₁ : List (DirectoryLabel ⊕ ω)}
    {s₁ : Deployment σ} (hu₁ : run P.step sys u₁ = some s₁)
    (hreplaces : s₁.directory.Replaces name l list)
    (hrun : run P.step sys (u₁ ++ l :: v₁) = some sys')
    (hclear : ∀ i, .inl (.call i .clear) ∉ u₁ ++ l :: v₁) :
    ∃ u m v s base, u₁ ++ l :: v₁ = u ++ m ++ v ∧ run P.step sys u = some s
      ∧ P.Lists s.registry name base
      ∧ sys'.directory.getInstances name = listAfter base (v.flatMap (byHand name)) := by
  rcases hP.told hasks hhand hrun with
    ⟨hkept, -⟩ | ⟨u, m, v, s, base, heq, hu, hlists | ⟨-, i, hi⟩, hend⟩
  · exact absurd ⟨list, hreplaces⟩ ((eachStep_append.mp hkept).2 s₁ hu₁).1
  · exact ⟨u, m, v, s, base, heq, hu, hlists, hend⟩
  · refine absurd ?_ (hclear i)
    rw [heq]
    exact List.mem_append_left _ (List.mem_append_right _ hi)

end Provider.Polled

end PecsRegistry
