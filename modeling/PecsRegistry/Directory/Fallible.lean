import PecsRegistry.Directory.CancelSafety
import PecsRegistry.Directory.Following

/-!
# Directory/Fallible — a source whose listings may fail

A `Source` answers every listing.  A registry behind a network does not; but the watch task drops a
reconcile whose listing failed, and so a registry that is a source while its listings succeed keeps
the snapshot a follower of its map all the same (`Subscribed.step_fallible`, `agree_iff_fallible`).
-/

namespace PecsRegistry

open Transition Writes

variable {σ ω : Type} {P : Provider σ ω} {name : String} {r k : ℕ} {sys sys' : Deployment σ}
  {w : List (DirectoryLabel ⊕ ω)}

/-- A listing that failed. -/
def Query.Fails : Query → Prop
  | .list _ (.error _) => True
  | _ => False

instance : DecidablePred Query.Fails := fun q => by
  unfold Query.Fails
  split <;> infer_instance

/-- The registry, as long as its listings succeed. -/
def Provider.unfailing (P : Provider σ ω) : Provider σ ω where
  act := P.act
  answer reg q := if q.Fails then none else P.answer reg q

/-- A failed listing leaves the registry as it is. -/
def Provider.FailsSilently (P : Provider σ ω) : Prop :=
  ∀ {reg reg' q}, q.Fails → P.answer reg q = some reg' → reg' = reg

/-- Where no listing fails, a step is a step of the unfailing registry. -/
theorem Provider.step_unfailing {l : DirectoryLabel}
    (hq : ∀ q ∈ sys.directory.query l, ¬ q.Fails) :
    P.unfailing.step sys (.inl l) = P.step sys (.inl l) := by
  have hreply : P.unfailing.reply sys.registry (sys.directory.query l)
      = P.reply sys.registry (sys.directory.query l) := by
    cases hquery : sys.directory.query l with
    | none => rfl
    | some q => exact if_neg (hq q hquery)
  rw [Provider.step, hreply, Provider.step]

/-- Of the steps of a follower only a reconcile can fail to list. -/
theorem Following.fails {l : DirectoryLabel} (hl : Following (ω := ω) k (.inl l)) {q : Query}
    (hq : sys.directory.query l = some q) (hfails : q.Fails) :
    ∃ err, l = .task k (.listed (.error err)) := by
  cases l with
  | task k' l =>
    obtain ⟨rfl, -⟩ := hl
    obtain ⟨t, -, hq⟩ := Option.bind_eq_some_iff.mp hq
    cases l with
    | listed result =>
      obtain rfl := Option.some.inj hq
      cases result with
      | ok list => exact hfails.elim
      | error err => exact ⟨err, rfl⟩
    | watched result =>
      obtain rfl := Option.some.inj hq
      exact hfails.elim
    | next event =>
      rw [WatchTask.query] at hq
      split at hq
      · obtain rfl := Option.some.inj hq
        exact hfails.elim
      · cases hq
    | enter | cancelled | slept | primed | tick | reset | apply => cases hq
  | persist n written => cases hq
  | call i l | drop i | apply name event => exact hl.elim

/-- **A watch task that has stopped takes no step any more.** -/
theorem ServiceDirectory.Guarded.stays_stopped {d d' : ServiceDirectory} (h : d.Guarded)
    {t : WatchTask} (ht : d.tasks k = some t) (hstopped : t.state = .stopped) {l : DirectoryLabel}
    (hstep : d.step l = some d') : d'.tasks k = some t := by
  cases move_of_step hstep with
  | @call i l _ move =>
    cases move with
    | subscribed result at_ =>
      exact (Function.update_of_ne (h.held k t ht).2.ne _ _).trans ht
    | _ => exact ht
  | @task j t' l _ ht' move =>
    rcases eq_or_ne k j with rfl | hne
    · obtain rfl := Option.some.inj (ht.symm.trans ht')
      cases move <;> simp [hstopped] at *
    · obtain ⟨t'', htasks, -⟩ := move.frame
      rw [htasks, Function.update_of_ne hne, ht]
  | _ => exact ht

namespace Source

variable {S : Source P.unfailing name r}

/-- A reconcile that failed to list changes nothing for the follower. -/
theorem Subscribed.listFailed (h : S.Subscribed k sys) (hsilent : P.FailsSilently)
    {err : RegistryError} (hstep : P.step sys (.inl (.task k (.listed (.error err)))) = some sys') :
    S.Subscribed k sys' ∧ S.follower k sys' = S.follower k sys := by
  obtain ⟨d', reg'⟩ := sys'
  obtain ⟨hreply, hdir⟩ := Provider.step_inl_eq_some.mp hstep
  obtain ⟨t, ht, -, hstream⟩ := h.task
  have hreg : reg' = sys.registry := by
    rw [ServiceDirectory.query, ht] at hreply
    exact hsilent (q := .list t.name (.error err)) trivial hreply
  obtain rfl := hreg
  cases ServiceDirectory.move_of_step hdir with
  | task ht' move =>
    obtain rfl := Option.some.inj (ht.symm.trans ht')
    cases move with
    | listFailed err at_ =>
      exact h.setTask ht rfl (.inl (by simpa [WatchTask.stream, at_] using hstream))
        (by rw [WatchTask.pending, at_]) rfl

/-- **The simulation, for a registry whose listings may fail.** -/
theorem Subscribed.step_fallible (h : S.Subscribed k sys) (hsilent : P.FailsSilently)
    {l : DirectoryLabel ⊕ ω} (hl : Following k l) (hfair : S.Fairly sys l)
    (hstep : P.step sys l = some sys') :
    S.Subscribed k sys' ∧ Transition.run Follower.step (S.follower k sys) (S.shadow l)
      = some (S.follower k sys') := by
  match l with
  | .inr op => exact h.step hl hfair hstep
  | .inl l =>
    by_cases hq : ∀ q ∈ sys.directory.query l, ¬ q.Fails
    · exact h.step hl hfair ((Provider.step_unfailing hq).trans hstep)
    · simp only [not_forall, not_not] at hq
      obtain ⟨q, hq, hfails⟩ := hq
      obtain ⟨err, rfl⟩ := hl.fails hq hfails
      obtain ⟨hsub, hsame⟩ := h.listFailed hsilent hstep
      exact ⟨hsub, congrArg some hsame.symm⟩

/-- **What a drained stream has brought**, where reconciles may fail. -/
theorem Established.agree_iff_fallible (h : S.Established k sys) (hsilent : P.FailsSilently)
    (hw : ∀ l ∈ w, Following k l) (hfair : EachStep P.step S.Fairly sys w)
    (hrun : Transition.run P.step sys w = some sys') (hdrained : S.undelivered k sys' = [])
    (id : String) :
    byId (sys'.directory.getInstances name) id = S.origin sys'.registry id
      ↔ byId (sys.directory.getInstances name) id = S.origin sys.registry id
        ∨ ∃ l ∈ w.flatMap S.shadow, Follower.Renews id l := by
  obtain ⟨-, hshadow⟩ := run_shadow (S.follower k) S.shadow
    (fun _ _ _ hsub hl hstep => hsub.step_fallible hsilent hl.1 hl.2 hstep) h.subscribed
    ((eachStep_of_forall_mem hw).and hfair) hrun
  exact Follower.agree_iff h.opened.1 h.opened.2 hshadow hdrained id

end Source

end PecsRegistry
