import PecsRegistry.Provider.Feed

/-!
# Directory/Reconnect — what a re-established stream knows of the gap

When a stream ends, `run_watch_loop` watches again and goes back to its `select!`; nothing brings
the snapshot up to date with what happened while no stream was up.  `resynced_iff` says what a
drained, waiting task has: a key of the snapshot is right if and only if it was right when the
stream was re-established, or the registry has written it since, or a reconcile has completed since.
-/

namespace PecsRegistry

open Transition Writes

namespace Feed

variable {name : String} {k r : ℕ} {sys sys' : Deployment Feed}
  {w post : List (DirectoryLabel ⊕ FeedOp)}

/-- The steps of the watch task, of the registry and of the disk writers. -/
def Looping (k : ℕ) : DirectoryLabel ⊕ FeedOp → Prop
  | .inl (.task k' _) => k' = k
  | .inl (.persist _ _) => True
  | .inl _ => False
  | .inr _ => True

/-- The step of task `k` that gets stream `r` from `registry.watch`. -/
def established (k r : ℕ) : DirectoryLabel ⊕ FeedOp := .inl (.task k (.watched (.ok r)))

/-- Task `k` waits for input on a live stream that has nothing to deliver. -/
def Waiting (k : ℕ) (sys : Deployment Feed) : Prop :=
  ∃ t r, sys.directory.tasks k = some t ∧ t.state = .selecting r
    ∧ sys.registry.stream = some ⟨r, [], true⟩

/-- The step brings key `id` up to date: the registry writes it, or a reconcile completes. -/
def Renewing (id : String) : DirectoryLabel ⊕ FeedOp → Prop
  | .inl (.task _ .reset) => True
  | .inr (.update event) => event.write.Touches id
  | _ => False

theorem renewing_iff {id : String} {l : DirectoryLabel ⊕ FeedOp} :
    (∃ l' ∈ (source name r).shadow l, Follower.Renews id l') ↔ Renewing id l := by
  rcases l with l | op
  · rcases l with _ | _ | ⟨k', l⟩ | _ | _
    case task =>
      rcases l with _ | _ | _ | _ | _ | _ | ⟨_ | _⟩ | _ | ⟨_ | _⟩ | _ <;>
        simp [Source.shadow, Renewing, Follower.Renews]
    all_goals simp [Source.shadow, Renewing]
  · cases op <;> simp [Source.shadow, Renewing, source, Follower.Renews]

/-! ## A stream that is lost stays lost until the next watch -/

/-- The step ends or severs the stream. -/
def Losing : DirectoryLabel ⊕ FeedOp → Prop
  | .inl (.task _ (.next none)) => True
  | .inr .sever => True
  | _ => False

theorem act_live {reg reg' : Feed} {op : FeedOp} (hact : reg.act op = some reg')
    (hlive : Live reg') : Live reg ∧ op ≠ .sever := by
  obtain ⟨id, queue, hstream⟩ := hlive
  cases op with
  | update event =>
    obtain rfl := Option.some.inj hact
    obtain ⟨⟨id', queue', live⟩, hs, heq⟩ := Option.map_eq_some_iff.mp hstream
    cases live with
    | true => exact ⟨⟨id', queue', hs⟩, by simp⟩
    | false => simp at heq
  | sever =>
    obtain rfl := Option.some.inj hact
    obtain ⟨s, hs, heq⟩ := Option.map_eq_some_iff.mp hstream
    simp at heq

theorem answer_live {reg reg' : Feed} {q : Query} (hanswer : reg.answer q = some reg')
    (hlive : Live reg') :
    (∃ svc stream, q = .watch svc (.ok stream)) ∨ Live reg ∧ ∀ stream, q ≠ .next stream none := by
  obtain ⟨id, queue, hstream⟩ := hlive
  match q with
  | .list _ (.ok list) =>
    replace hanswer : (if SameMap list reg.instances then some reg else none) = some reg' := hanswer
    split_ifs at hanswer
    obtain rfl := Option.some.inj hanswer
    exact .inr ⟨⟨id, queue, hstream⟩, by simp⟩
  | .watch svc (.ok stream) => exact .inl ⟨svc, stream, rfl⟩
  | .watch _ (.error _) =>
    obtain rfl := Option.some.inj hanswer
    exact .inr ⟨⟨id, queue, hstream⟩, by simp⟩
  | .next stream (some event) =>
    rw [answer] at hanswer
    split at hanswer
    case h_1 id' head queue' live hs =>
      split_ifs at hanswer
      obtain rfl := Option.some.inj hanswer
      obtain rfl : live = true := by simpa using congrArg (Option.map FeedStream.live) hstream
      exact .inr ⟨⟨id', head :: queue', hs⟩, by simp⟩
    case h_2 => simp at hanswer
  | .next _ none =>
    obtain rfl := Option.some.inj hanswer
    simp at hstream

/-- A task that is told its stream has ended has asked the stream. -/
theorem query_of_losing {t : WatchTask} {l : TaskLabel} {d d' : ServiceDirectory}
    (hl : Losing (.inl (.task k l))) (hstep : d.taskStep k t t.state l = some d') :
    ∃ stream, t.query l = some (.next stream none) := by
  cases l with
  | next event =>
    cases event with
    | some event => exact hl.elim
    | none =>
      cases hs : t.state with
      | selecting stream => exact ⟨stream, by rw [WatchTask.query, hs]⟩
      | _ => simp [hs, ServiceDirectory.taskStep] at hstep
  | _ => exact hl.elim

/-- A task that asks for a stream is watching. -/
theorem watched_of_query {t : WatchTask} {l : TaskLabel} {svc : String} {stream : ℕ}
    (h : t.query l = some (.watch svc (.ok stream))) : l = .watched (.ok stream) := by
  cases l with
  | watched result => exact congrArg _ (Query.watch.inj (Option.some.inj h)).2
  | next event => cases hs : t.state <;> simp [WatchTask.query, hs] at h
  | _ => simp [WatchTask.query] at h

/-- **A stream comes up only with a watch**, and is not up after a step that loses it. -/
theorem live_step {l : DirectoryLabel ⊕ FeedOp} (hl : Looping k l)
    (hstep : provider.step sys l = some sys') (hlive : Live sys'.registry) :
    (∃ r, l = established k r) ∨ Live sys.registry ∧ ¬ Losing l := by
  match l with
  | .inr op =>
    obtain ⟨hlive', hop⟩ := act_live (Provider.step_inr_eq_some.mp hstep).1 hlive
    exact .inr ⟨hlive', by cases op <;> simp_all [Losing]⟩
  | .inl (.persist n written) =>
    obtain ⟨hreply, -⟩ := Provider.step_inl_eq_some.mp hstep
    rw [← show sys.registry = sys'.registry from Option.some.inj hreply] at hlive
    exact .inr ⟨hlive, id⟩
  | .inl (.task k' l) =>
    obtain rfl : k' = k := hl
    obtain ⟨hreply, hdir⟩ := Provider.step_inl_eq_some.mp hstep
    obtain ⟨t, ht, htask⟩ := Option.bind_eq_some_iff.mp hdir
    rw [ServiceDirectory.query, ht, Option.bind_some] at hreply
    cases hq : t.query l with
    | none =>
      rw [hq] at hreply
      rw [← show sys.registry = sys'.registry from Option.some.inj hreply] at hlive
      refine .inr ⟨hlive, fun hlosing => ?_⟩
      obtain ⟨stream, hnext⟩ := query_of_losing hlosing htask
      exact absurd (hq.symm.trans hnext) (by simp)
    | some q =>
      rw [hq] at hreply
      rcases answer_live hreply hlive with ⟨svc, stream, rfl⟩ | ⟨hlive', hnext⟩
      · exact .inl ⟨stream, by rw [watched_of_query hq]; rfl⟩
      · refine .inr ⟨hlive', fun hlosing => ?_⟩
        obtain ⟨stream, hq'⟩ := query_of_losing hlosing htask
        exact hnext stream (Option.some.inj (hq.symm.trans hq'))

/-- Where no stream is established on the way, a stream that is up at the end was up throughout. -/
theorem live_run (hw : ∀ l ∈ w, Looping k l ∧ ¬ ∃ r, l = established k r)
    (hrun : run provider.step sys w = some sys') (hlive : Live sys'.registry) :
    Live sys.registry ∧ ∀ l ∈ w, ¬ Losing l := by
  induction w generalizing sys with
  | nil =>
    obtain rfl := Option.some.inj hrun
    exact ⟨hlive, by simp⟩
  | cons l w ih =>
    obtain ⟨s, hs, hrun⟩ := run_cons_eq_some.mp hrun
    obtain ⟨hlive', hrest⟩ := ih (fun l' hl' => hw l' (List.mem_cons_of_mem l hl')) hrun
    obtain ⟨hlooping, hest⟩ := hw l List.mem_cons_self
    obtain ⟨hlive₀, hl⟩ := (live_step hlooping hs hlive').resolve_left hest
    exact ⟨hlive₀, List.forall_mem_cons.mpr ⟨hl, hrest⟩⟩

/-! ## Re-establishment -/

/-- The task keeps its service. -/
theorem task_run (hw : ∀ l ∈ w, Looping k l) (hrun : run provider.step sys w = some sys')
    (htask : ∃ t, sys.directory.tasks k = some t ∧ t.name = name) :
    ∃ t, sys'.directory.tasks k = some t ∧ t.name = name := by
  refine invariant_run
    (I := fun sys : Deployment Feed => ∃ t, sys.directory.tasks k = some t ∧ t.name = name)
    (fun s l s' ⟨t, ht, hname⟩ hl hstep => ?_) htask (eachStep_of_forall_mem hw) hrun
  match l with
  | .inr op => exact ⟨t, (Provider.step_inr_eq_some.mp hstep).2 ▸ ht, hname⟩
  | .inl l =>
    obtain ⟨d', reg'⟩ := s'
    obtain ⟨-, hdir⟩ := Provider.step_inl_eq_some.mp hstep
    cases ServiceDirectory.move_of_step hdir with
    | call => exact hl.elim
    | drop => exact hl.elim
    | apply => exact hl.elim
    | persist => exact ⟨t, ht, hname⟩
    | task ht' move =>
      obtain rfl := hl
      obtain rfl := Option.some.inj (ht.symm.trans ht')
      obtain ⟨t', htasks, hname', -⟩ := move.frame
      exact ⟨t', by rw [htasks, Function.update_self], hname'.trans hname⟩

/-- The step that gets the stream establishes it, and leaves the snapshot and the registry's
instances alone. -/
theorem established_step (htask : ∃ t, sys.directory.tasks k = some t ∧ t.name = name)
    (hstep : provider.step sys (established k r) = some sys') :
    (source name r).Established k sys' ∧ sys'.registry.instances = sys.registry.instances
      ∧ sys'.directory.getInstances name = sys.directory.getInstances name := by
  obtain ⟨d', reg'⟩ := sys'
  obtain ⟨t, ht, hname⟩ := htask
  obtain ⟨hreply, hdir⟩ := Provider.step_inl_eq_some.mp hstep
  rw [ServiceDirectory.query, ht, Option.bind_some] at hreply
  replace hreply : (if r = sys.registry.nextStream then some { sys.registry with
      stream := some ⟨r, [], true⟩, nextStream := r + 1 } else none) = some reg' := hreply
  split_ifs at hreply
  obtain rfl := Option.some.inj hreply
  cases ServiceDirectory.move_of_step hdir with
  | task ht' move =>
    obtain rfl := Option.some.inj (ht.symm.trans ht')
    cases move with
    | watched stream at_ =>
      exact ⟨⟨⟨_, Function.update_self .., hname, rfl, rfl⟩, ⟨[], rfl⟩, rfl⟩, rfl, rfl⟩

/-- **What a re-established stream knows of the gap, exactly.**  In a run whose last stream is
established after `w`, the waiting task's snapshot equals the registry's map if and only if each key
was right when the stream was established, or has been brought up to date since. -/
theorem resynced_iff {sys₀ sys₁ sys₂ : Deployment Feed}
    (htask : ∃ t, sys₀.directory.tasks k = some t ∧ t.name = name)
    (hrun : run provider.step sys₀ w = some sys₁)
    (hest : provider.step sys₁ (established k r) = some sys₂)
    (hpost : run provider.step sys₂ post = some sys) (hw : ∀ l ∈ w ++ post, Looping k l)
    (hlast : ∀ l ∈ post, ¬ ∃ r, l = established k r) (hwait : Waiting k sys) :
    byId (sys.directory.getInstances name) = byId sys.registry.instances
      ↔ ∀ id, byId (sys₁.directory.getInstances name) id = byId sys₁.registry.instances id
        ∨ ∃ l ∈ post, Renewing id l := by
  have hlooping : ∀ l ∈ post, Looping k l := fun l hl => hw l (List.mem_append_right w hl)
  have htask₁ := task_run (fun l hl => hw l (List.mem_append_left post hl)) hrun htask
  obtain ⟨hestablished, hinstances, hsnapshot⟩ := established_step htask₁ hest
  obtain ⟨t, r', ht, hselecting, hstream⟩ := hwait
  obtain ⟨-, hkept⟩ := live_run (fun l hl => ⟨hlooping l hl, hlast l hl⟩) hpost ⟨r', [], hstream⟩
  have hfollowing : ∀ l ∈ post, Following k l := by
    intro l hl
    have hlo := hlooping l hl
    match l with
    | .inr op => trivial
    | .inl (.persist _ _) => trivial
    | .inl (.task k' l') =>
      refine ⟨hlo, ?_⟩
      rintro rfl
      exact hkept _ hl trivial
  have hfair : EachStep provider.step (source name r).Fairly sys₂ post :=
    (eachStep_of_forall_mem hkept).imp fun _ _ hl _ hop _ _ hsever => by
      subst hop hsever
      exact hl trivial
  have hdrained : (source name r).undelivered k sys = [] := by
    refine Source.undelivered_eq_nil.mpr ⟨?_, ?_⟩
    · rw [ht, Option.bind_some, WatchTask.taken, hselecting]
    · change Feed.backlog sys.registry = []
      rw [Feed.backlog, hstream]
      rfl
  rw [funext_iff]
  refine forall_congr' fun id => ?_
  rw [← hsnapshot, ← hinstances]
  refine (hestablished.agree_iff hfollowing hfair hpost hdrained id).trans (or_congr Iff.rfl ?_)
  constructor
  · rintro ⟨l', hl', hrenews⟩
    obtain ⟨l, hl, hmem⟩ := List.mem_flatMap.mp hl'
    exact ⟨l, hl, renewing_iff.mp ⟨l', hmem, hrenews⟩⟩
  · rintro ⟨l, hl, hrenews⟩
    obtain ⟨l', hmem, hl'⟩ := renewing_iff.mpr hrenews
    exact ⟨l', List.mem_flatMap.mpr ⟨l, hl, hmem⟩, hl'⟩

/-! ## An update in the gap -/

/-- A watch task with its first stream, in step with an empty registry. -/
def inStep : Deployment Feed where
  directory := ((ServiceDirectory.withOptions false ∅).store "order-svc" []).setTask 0
    ⟨"order-svc", 0, some 0, 1, .entering⟩
  registry := ⟨[], some ⟨0, [], true⟩, 1⟩

/-- The stream is severed and ends, and an instance comes up before the task watches again. -/
def gap : List (DirectoryLabel ⊕ FeedOp) :=
  [.inl (.task 0 .enter), .inl (.task 0 .primed), .inr .sever, .inl (.task 0 (.next none)),
    .inl (.task 0 .enter),
    .inr (.update (.upsert (ServiceInstance.simple "order-svc" "127.0.0.1" 8080)))]

theorem looping_gap : ∀ l ∈ gap ++ [.inl (.task 0 .primed)], Looping 0 l := by
  simp [gap, Looping]

/-- `resynced_iff` on the gap. -/
theorem resynced_iff_gap :
    ∃ sys₁ sys₂ sys, run provider.step inStep gap = some sys₁
      ∧ provider.step sys₁ (established 0 1) = some sys₂
      ∧ run provider.step sys₂ [.inl (.task 0 .primed)] = some sys
      ∧ (byId (sys.directory.getInstances "order-svc") = byId sys.registry.instances
        ↔ ∀ id, byId (sys₁.directory.getInstances "order-svc") id = byId sys₁.registry.instances id
          ∨ ∃ l ∈ [.inl (.task 0 .primed)], Renewing id l) := by
  obtain ⟨sys₁, h₁⟩ : ∃ sys₁, run provider.step inStep gap = some sys₁ := ⟨_, rfl⟩
  obtain ⟨sys₂, h₂⟩ : ∃ sys₂, provider.step sys₁ (established 0 1) = some sys₂ := by
    obtain rfl := Option.some.inj h₁
    exact ⟨_, rfl⟩
  obtain ⟨sys, h₃⟩ : ∃ sys, run provider.step sys₂ [.inl (.task 0 .primed)] = some sys := by
    obtain rfl := Option.some.inj h₁
    obtain rfl := Option.some.inj h₂
    exact ⟨_, rfl⟩
  refine ⟨sys₁, sys₂, sys, h₁, h₂, h₃, resynced_iff ⟨_, rfl, rfl⟩ h₁ h₂ h₃ looping_gap
    (by simp [established]) ?_⟩
  obtain rfl := Option.some.inj h₁
  obtain rfl := Option.some.inj h₂
  obtain rfl := Option.some.inj h₃
  exact ⟨_, _, rfl, rfl, rfl⟩

/-- **An update in the gap is lost**: a second stream is up, nothing is pending, the task waits, and
the snapshot has not heard of the instance. -/
theorem gap_lost :
    ∃ sys, run provider.step inStep
        (gap ++ [established 0 1, .inl (.task 0 .primed)]) = some sys
      ∧ (∀ l ∈ gap ++ [established 0 1, .inl (.task 0 .primed)], Looping 0 l) ∧ Waiting 0 sys
      ∧ byId (sys.directory.getInstances "order-svc") ≠ byId sys.registry.instances := by
  refine ⟨_, rfl, ?_, ⟨_, _, rfl, rfl, rfl⟩, fun h => ?_⟩
  · simp [gap, established, Looping]
  · exact absurd (congrFun h "order-svc-127.0.0.1-8080") (by decide +kernel)

end Feed

end PecsRegistry
