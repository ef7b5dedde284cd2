import PecsRegistry.Directory.SelfHealing
import PecsRegistry.Machinery.Bypass
import PecsRegistry.Service.Local

/-!
# Service/Resurrection — a removed instance comes back through its own registration

A `register` of the service files the instance in the store, sends its upsert to the watchers, and
at the end applies the upsert to the directory itself; a removal of the instance may come between
any two of these.  Read at the id of the instance, the snapshot of its service and the stream of the
watch task are a follower of the store that is written past its feed (`LocalService.follower`), and
what comes back is a ghost of that follower.

`agrees_iff_mended` says exactly when a registration leaves nothing behind: every send, and every
direct upsert with nothing about the instance under way, that comes after a removal must be followed
by another removal or registration, or by a reconcile.
-/

namespace PecsRegistry

open Transition Writes

/-- A stream is a source, as far as the operations in one step go. -/
def LocalSystem.source (name : String) (r : ℕ) : Source LocalSystem.provider name r where
  Open s := LocalRegistry.Open name r s.registry
  origin s := s.view name
  backlog s := s.registry.backlog r
  writes
    | .op op => LocalRegistry.writes name op
    | .call _ _ => []
  Fair l s := (∃ op, l = .op op ∧ op ≠ .clear) ∧ s.registry.InStep r
  act h hact hfair := by
    obtain ⟨⟨op, rfl, hclear⟩, hlag⟩ := hfair
    obtain ⟨registry, hreg, rfl⟩ := Option.map_eq_some_iff.mp hact
    exact LocalRegistry.act_spec h hreg hclear hlag
  deliver h hnext := by
    obtain ⟨registry, hreg, rfl⟩ := Option.map_eq_some_iff.mp hnext
    exact LocalRegistry.deliver_spec h hreg
  listed {s s' list} hlist := by
    obtain ⟨registry, hreg, rfl⟩ := Option.map_eq_some_iff.mp hlist
    obtain ⟨rfl, horigin⟩ := (LocalRegistry.source name r).listed hreg
    exact ⟨rfl, horigin⟩
  unlisted _ _ := rfl

namespace LocalService

variable {x : ServiceInstance} {k r : ℕ} {s s' : LocalService} {w : List LocalServiceLabel}

/-! ## The runs -/

/-- Registrations and removals of `x`, step by step, and whatever task `k` does. -/
inductive Interleaved (x : ServiceInstance) (k : ℕ) : LocalServiceLabel → Prop
  | register (i : ℕ) : Interleaved x k (.register i x)
  | setKey (i : ℕ) : Interleaved x k (.deployment (.inr (.call i .setKey)))
  | send (i : ℕ) : Interleaved x k (.deployment (.inr (.call i .send)))
  | announce (i : ℕ) : Interleaved x k (.announce i)
  | remove : Interleaved x k (.deployment (.inr (.op (.removeInstance x.name x.serviceId))))
  | skip (stream : ℕ) : Interleaved x k (.deployment (.inr (.op (.skip stream))))
  | watch {l : DirectoryLabel} (follows : Following k (.inl l : DirectoryLabel ⊕ LocalLabel)) :
      Interleaved x k (.deployment (.inl l))

/-- All calls have returned. -/
def Returned (s : LocalService) : Prop :=
  (∀ i, s.calls i = .idle ∨ s.calls i = .announced) ∧
    ∀ i, s.deployment.registry.calls i = .idle ∨ s.deployment.registry.calls i = .returned

/-- The store has `x`. -/
def Stores (x : ServiceInstance) (s : LocalService) : Prop :=
  s.deployment.registry.view x.name x.serviceId = some x

/-- The snapshot has `x`. -/
def Caches (x : ServiceInstance) (s : LocalService) : Prop :=
  byId (s.deployment.directory.getInstances x.name) x.serviceId = some x

instance (x : ServiceInstance) (s : LocalService) : Decidable (s.Stores x) :=
  inferInstanceAs (Decidable (_ = _))

instance (x : ServiceInstance) (s : LocalService) : Decidable (s.Caches x) :=
  inferInstanceAs (Decidable (_ = _))

/-- What the stream and task `k` have yet to bring to the snapshot. -/
def undelivered (x : ServiceInstance) (k r : ℕ) (s : LocalService) :
    List (Write String ServiceInstance) :=
  (LocalSystem.source x.name r).undelivered k s.deployment

/-- Nothing more is to come about `x`. -/
def Silent (x : ServiceInstance) (k r : ℕ) (s : LocalService) : Prop :=
  ∀ w ∈ s.undelivered x k r, ¬ w.Touches x.serviceId

/-- A registration of `x` reports what is not so: its send, or its direct upsert. -/
def Resurrects (x : ServiceInstance) (k r : ℕ) (s : LocalService) : LocalServiceLabel → Prop
  | .deployment (.inr (.call _ .send)) => ¬ s.Stores x
  | .announce _ => ¬ s.Stores x ∧ s.Silent x k r
  | _ => False

/-- `x` is registered again, or removed; or a reconcile is applied that nothing overtakes. -/
def Settles (x : ServiceInstance) (k r : ℕ) (s : LocalService) : LocalServiceLabel → Prop
  | .register _ _ => True
  | .deployment (.inr (.op (.removeInstance _ _))) => True
  | .deployment (.inl (.task _ .reset)) => s.Silent x k r
  | _ => False

/-! ## The follower -/

/-- The store and the snapshot of the service, and the stream of task `k`. -/
def follower (x : ServiceInstance) (k r : ℕ) (s : LocalService) :
    Follower String ServiceInstance := (LocalSystem.source x.name r).follower k s.deployment

/-- A registration of `x` has yet to send. -/
def Owed (x : ServiceInstance) (s : LocalService) : Prop :=
  ∃ i, (s.deployment.registry.calls i).owes = some (.upsert x)

/-- A call of the registry registers `x`, or does nothing. -/
def OfRegister (x : ServiceInstance) : LocalCall → Prop
  | .stored inst | .keyed inst => inst = x
  | .taken _ _ | .removed _ _ => False
  | _ => True

/-- What the interleavings keep. -/
structure Tracked (x : ServiceInstance) (k r : ℕ) (s : LocalService) : Prop where
  subscribed : (LocalSystem.source x.name r).Subscribed k s.deployment
  calls : ∀ i, OfRegister x (s.deployment.registry.calls i)
  registering : ∀ i inst, s.calls i = .registering inst → inst = x
  backed : Follower.Backed x.serviceId x (s.Owed x) (s.follower x k r)

/-- What becomes of a ghost in one step. -/
def Haunts (x : ServiceInstance) (k r : ℕ) (s : LocalService) (l : LocalServiceLabel)
    (s' : LocalService) : Prop :=
  Follower.Ghost x.serviceId x (s'.follower x k r)
    ↔ s.Resurrects x k r l ∨ Follower.Ghost x.serviceId x (s.follower x k r) ∧ ¬ s.Settles x k r l

/-! ## One step -/

theorem owed_of_calls (h : s'.deployment.registry.calls = s.deployment.registry.calls) :
    s'.Owed x ↔ s.Owed x := by rw [Owed, Owed, h]

/-- Only a step of a call moves the calls of the registry. -/
theorem registry_calls_of_step {sys sys' : Deployment LocalSystem} {l : DirectoryLabel ⊕ LocalLabel}
    (hl : ∀ i l', l ≠ .inr (.call i l')) (hstep : LocalSystem.provider.step sys l = some sys') :
    sys'.registry.calls = sys.registry.calls := by
  rcases l with l | op | ⟨i, l'⟩
  · have hreply := (Provider.step_inl_eq_some.mp hstep).1
    rcases hq : sys.directory.query l with - | q
    · rw [hq] at hreply
      rw [← Option.some.inj hreply]
    · rw [hq] at hreply
      obtain ⟨registry, -, hregistry⟩ := Option.map_eq_some_iff.mp hreply
      rw [← hregistry]
  · obtain ⟨registry, -, hregistry⟩ :=
      Option.map_eq_some_iff.mp (Provider.step_inr_eq_some.mp hstep).1
    rw [← hregistry]
  · exact absurd rfl (hl i l')

/-- **A step of the watch task, or an operation in one step**: the calls stay where they are, and
the follower moves as the step says. -/
theorem Tracked.deployment_step (h : Tracked x k r s) {l : DirectoryLabel ⊕ LocalLabel}
    (hl : Following k l) (hfair : (LocalSystem.source x.name r).Fairly s.deployment l)
    (hcall : ∀ i l', l ≠ .inr (.call i l')) (hstep : s.step (.deployment l) = some s') :
    run Follower.step (s.follower x k r) ((LocalSystem.source x.name r).shadow l)
        = some (s'.follower x k r)
      ∧ (Follower.Backed x.serviceId x (s.Owed x) (s'.follower x k r) → Tracked x k r s') := by
  have hmap : (LocalSystem.provider.step s.deployment l).map
      (fun deployment => { s with deployment := deployment }) = some s' := by
    rcases l with (_ | _ | _ | _ | _) | _
    case inl.apply => exact hl.elim
    all_goals exact hstep
  obtain ⟨deployment, hdep, rfl⟩ := Option.map_eq_some_iff.mp hmap
  obtain ⟨hsub, hrun⟩ := h.subscribed.step hl hfair hdep
  have hcalls := registry_calls_of_step hcall hdep
  refine ⟨hrun, fun hbacked => ⟨hsub, fun i => ?_, h.registering, ?_⟩⟩
  · change OfRegister x (deployment.registry.calls i)
    rw [hcalls]
    exact h.calls i
  · rw [owed_of_calls (s := s) hcalls]
    exact hbacked

/-- What the watch task does to the follower. -/
theorem shadow_watch (name : String) (l : DirectoryLabel) :
    (LocalSystem.source name r).shadow (.inl l) = [] ∧ ¬ s.Settles x k r (.deployment (.inl l))
      ∨ ∃ fl, (LocalSystem.source name r).shadow (.inl l) = [fl] ∧ Follower.Watches fl
        ∧ (s.Settles x k r (.deployment (.inl l)) ↔ fl = .reset ∧ s.Silent x k r) := by
  rcases l with _ | _ | ⟨k', l⟩ | _ | _
  case task =>
    rcases l with _ | _ | _ | _ | _ | _ | result | _ | event | _
    case listed =>
      rcases result with _ | _
      · exact .inl ⟨rfl, id⟩
      · exact .inr ⟨.list, rfl, by simp [Follower.Watches], by simp [Settles]⟩
    case reset => exact .inr ⟨.reset, rfl, by simp [Follower.Watches], by simp [Settles]⟩
    case apply => exact .inr ⟨.deliver, rfl, by simp [Follower.Watches], by simp [Settles]⟩
    all_goals exact .inl ⟨rfl, id⟩
  all_goals exact .inl ⟨rfl, id⟩

theorem Tracked.watch (h : Tracked x k r s) {l : DirectoryLabel}
    (hl : Following k (.inl l : DirectoryLabel ⊕ LocalLabel))
    (hstep : s.step (.deployment (.inl l)) = some s') :
    Tracked x k r s' ∧ Haunts x k r s (.deployment (.inl l)) s' := by
  have hfair : (LocalSystem.source x.name r).Fairly s.deployment (.inl l) := fun op hop => by
    simp at hop
  obtain ⟨hrun, htracked⟩ := h.deployment_step hl hfair (by simp) hstep
  obtain ⟨hshadow, hsettles⟩ | ⟨fl, hshadow, hwatches, hsettles⟩ :=
    shadow_watch (s := s) (x := x) (k := k) (r := r) x.name l
  · rw [hshadow] at hrun
    have hsame := Option.some.inj hrun
    refine ⟨htracked (hsame ▸ h.backed), ?_⟩
    rw [Haunts, ← hsame]
    simp [Resurrects, hsettles]
  · rw [hshadow, run_singleton] at hrun
    refine ⟨htracked (h.backed.step hwatches hrun), ?_⟩
    rw [Haunts, Follower.ghost_step h.backed hwatches hrun, hsettles]
    simp only [Resurrects, false_or]
    rfl

/-- The operations of the interleavings are fair. -/
theorem fairly_op (name : String) {op : LocalOp} (hclear : op ≠ .clear)
    (hlag : s'.deployment.registry.registry.InStep r)
    (hstep : s.step (.deployment (.inr (.op op))) = some s') :
    (LocalSystem.source name r).Fairly s.deployment (.inr (.op op)) := by
  intro op' hop sys' hsys'
  obtain rfl := Sum.inr.inj hop
  obtain ⟨deployment, hdep, rfl⟩ := Option.map_eq_some_iff.mp hstep
  obtain rfl := Option.some.inj (hsys'.symm.trans hdep)
  exact ⟨⟨op, rfl, hclear⟩, hlag⟩

theorem Tracked.remove (h : Tracked x k r s) (hlag : s'.deployment.registry.registry.InStep r)
    (hstep : s.step (.deployment (.inr (.op (.removeInstance x.name x.serviceId)))) = some s') :
    Tracked x k r s'
      ∧ Haunts x k r s (.deployment (.inr (.op (.removeInstance x.name x.serviceId)))) s' := by
  have hshadow : (LocalSystem.source x.name r).shadow
      (.inr (.op (.removeInstance x.name x.serviceId))) = [.update (.drop x.serviceId)] := by
    simp [Source.shadow, LocalSystem.source, LocalRegistry.writes, LocalRegistry.broadcast,
      ServiceEvent.concerns, ServiceEvent.write]
  obtain ⟨hrun, htracked⟩ := h.deployment_step (show Following k (.inr _) from trivial)
    (fairly_op x.name (by simp) hlag hstep) (by simp) hstep
  rw [hshadow, run_singleton] at hrun
  have hghost := Follower.not_ghost_drop (v := x) hrun
  exact ⟨htracked (Follower.backed_drop _ hrun), by simp [Haunts, Resurrects, Settles, hghost]⟩

theorem Tracked.skip (h : Tracked x k r s) {stream : ℕ}
    (hlag : s'.deployment.registry.registry.InStep r)
    (hstep : s.step (.deployment (.inr (.op (.skip stream)))) = some s') :
    Tracked x k r s' ∧ Haunts x k r s (.deployment (.inr (.op (.skip stream)))) s' := by
  obtain ⟨hrun, htracked⟩ := h.deployment_step (show Following k (.inr _) from trivial)
    (fairly_op x.name (by simp) hlag hstep) (by simp) hstep
  have hsame : s.follower x k r = s'.follower x k r := Option.some.inj hrun
  refine ⟨htracked (hsame ▸ h.backed), ?_⟩
  rw [Haunts, ← hsame]
  simp [Resurrects, Settles]

/-! ## One step of a registration -/

theorem ofRegister_update {calls : ℕ → LocalCall} (h : ∀ i, OfRegister x (calls i)) (i : ℕ)
    {c : LocalCall} (hc : OfRegister x c) (j : ℕ) : OfRegister x (Function.update calls i c j) := by
  rcases eq_or_ne j i with rfl | hne
  · rw [Function.update_self]
    exact hc
  · rw [Function.update_of_ne hne]
    exact h j

/-- A call of the registry moves on, and takes what the service knows of it along. -/
theorem Tracked.call_step (h : Tracked x k r s) {i : ℕ} {c : LocalCall} {call : ServiceCall}
    {f : Follower String ServiceInstance} (registry : LocalRegistry)
    (key : Option (String × String)) (hs' : s' = ⟨⟨s.deployment.directory,
      ⟨registry, key, Function.update s.deployment.registry.calls i c⟩⟩,
      Function.update s.calls i call⟩)
    (hc : OfRegister x c) (hcall : ∀ inst, call = .registering inst → inst = x)
    (hopen : LocalRegistry.Open x.name r registry)
    (hf : { s.follower x k r with
      origin := registry.view x.name
      backlog := (((s.deployment.directory.tasks k).bind WatchTask.taken).map
        ServiceEvent.write).toList ++ registry.backlog r } = f)
    (hbacked : Follower.Backed x.serviceId x (s'.Owed x) f) :
    Tracked x k r s' ∧ s'.follower x k r = f := by
  subst hs' hf
  refine ⟨⟨⟨h.subscribed.task, hopen⟩, ofRegister_update h.calls i hc, fun j inst hj => ?_,
    hbacked⟩, rfl⟩
  rcases eq_or_ne j i with rfl | hne
  · exact hcall inst (by simpa using hj)
  · exact h.registering j inst (by simpa [hne] using hj)

/-- The store has filed the instance. -/
theorem view_file_self (reg : LocalRegistry) : (reg.file x).view x.name
    = (Write.put x.serviceId x).apply (reg.view x.name) := by
  rw [LocalSystem.view_file, LocalSystem.writesTo_singleton]
  simp [ServiceEvent.concerns, ServiceEvent.write]

theorem Tracked.register (h : Tracked x k r s) {i : ℕ} (hstep : s.step (.register i x) = some s') :
    Tracked x k r s' ∧ Haunts x k r s (.register i x) s' := by
  rw [step] at hstep
  split at hstep
  case h_2 => simp at hstep
  obtain ⟨⟨d', reg'⟩, hdep, rfl⟩ := Option.map_eq_some_iff.mp hstep
  obtain ⟨hact, rfl⟩ := Provider.step_inr_eq_some.mp hdep
  cases LocalSystem.callMove_of_callStep hact with
  | register inst at_ =>
    obtain ⟨htracked, hfollower⟩ := h.call_step (i := i) (c := .stored x)
      (f := (s.follower x k r).store (.put x.serviceId x)) (s.deployment.registry.registry.file x)
      _ rfl rfl (fun inst hinst => (ServiceCall.registering.inj hinst).symm) h.subscribed.isOpen
      (by rw [view_file_self]; rfl)
      (Follower.backed_store ⟨i, by simp [LocalCall.owes]⟩)
    refine ⟨htracked, ?_⟩
    rw [Haunts, hfollower]
    simp [Follower.not_ghost_store, Resurrects, Settles]

theorem Tracked.setKey (h : Tracked x k r s) {i : ℕ}
    (hstep : s.step (.deployment (.inr (.call i .setKey))) = some s') :
    Tracked x k r s' ∧ Haunts x k r s (.deployment (.inr (.call i .setKey))) s' := by
  obtain ⟨⟨d', reg'⟩, hdep, rfl⟩ := Option.map_eq_some_iff.mp hstep
  obtain ⟨hact, rfl⟩ := Provider.step_inr_eq_some.mp hdep
  cases LocalSystem.callMove_of_callStep hact with
  | @setKey inst at_ =>
    obtain rfl : inst = x := by simpa [at_, OfRegister] using h.calls i
    obtain ⟨htracked, hfollower⟩ := h.call_step (i := i) (c := .keyed inst)
      (f := s.follower inst k r) s.deployment.registry.registry _
      (by rw [Function.update_eq_self]) rfl (h.registering i) h.subscribed.isOpen rfl
      (h.backed.imp fun _ => ⟨i, by simp [LocalCall.owes]⟩)
    refine ⟨htracked, ?_⟩
    rw [Haunts, hfollower]
    simp [Resurrects, Settles]

theorem Tracked.send (h : Tracked x k r s) {i : ℕ} (hlag : s'.deployment.registry.registry.InStep r)
    (hstep : s.step (.deployment (.inr (.call i .send))) = some s') :
    Tracked x k r s' ∧ Haunts x k r s (.deployment (.inr (.call i .send))) s' := by
  obtain ⟨⟨d', reg'⟩, hdep, rfl⟩ := Option.map_eq_some_iff.mp hstep
  obtain ⟨hact, rfl⟩ := Provider.step_inr_eq_some.mp hdep
  cases LocalSystem.callMove_of_callStep hact with
  | @announce inst at_ =>
    obtain rfl : inst = x := by simpa [at_, OfRegister] using h.calls i
    obtain ⟨hopen, hbacklog⟩ := LocalRegistry.open_of_broadcast h.subscribed.isOpen
      (show (s.deployment.registry.registry.send (.upsert inst)).receivers = _ from rfl) hlag
    obtain ⟨htracked, hfollower⟩ := h.call_step (i := i) (c := .returned)
      (f := (s.follower inst k r).send (.put inst.serviceId inst))
      (s.deployment.registry.registry.send (.upsert inst)) _ (by rw [Function.update_eq_self])
      trivial (h.registering i) hopen
      (by rw [hbacklog, if_pos (by simp [ServiceEvent.concerns]), ← List.append_assoc]; rfl)
      (Follower.backed_send _)
    refine ⟨htracked, ?_⟩
    rw [Haunts, hfollower, Follower.ghost_send]
    change ¬ s.Stores inst ↔ ¬ s.Stores inst ∨ Follower.Ghost _ _ (s.follower inst k r) ∧ ¬ False
    exact ⟨.inl, fun hghost => hghost.elim id fun hghost => hghost.1.2⟩
  | withdraw at_ =>
    have hnone := h.calls i
    simp [at_, OfRegister] at hnone

/-- The direct upsert. -/
theorem Tracked.announce (h : Tracked x k r s) {i : ℕ} (hstep : s.step (.announce i) = some s') :
    Tracked x k r s' ∧ Haunts x k r s (.announce i) s' := by
  rw [step] at hstep
  split at hstep
  case h_2 => simp at hstep
  case h_1 inst hcall hreturned =>
    obtain rfl := h.registering i inst hcall
    obtain ⟨⟨d', reg'⟩, hdep, rfl⟩ := Option.map_eq_some_iff.mp hstep
    obtain ⟨hreply, hdir⟩ := Provider.step_inl_eq_some.mp hdep
    obtain rfl : s.deployment.registry = reg' := Option.some.inj hreply
    obtain rfl : s.deployment.directory.applyEvent inst.name (.upsert inst) = d' :=
      Option.some.inj hdir
    have hcopy : byId ((s.deployment.directory.applyEvent inst.name (.upsert inst)).getInstances
        inst.name) = (Write.put inst.serviceId inst).apply
          (byId (s.deployment.directory.getInstances inst.name)) := by
      rw [ServiceDirectory.getInstances_applyEvent, if_pos rfl, newList_byId]
      rfl
    have hfollower : follower inst k r ⟨⟨s.deployment.directory.applyEvent inst.name (.upsert inst),
        s.deployment.registry⟩, Function.update s.calls i .announced⟩
        = (s.follower inst k r).bypass (.put inst.serviceId inst) := by
      rw [follower, Source.follower, hcopy]
      rfl
    refine ⟨⟨⟨h.subscribed.task, h.subscribed.isOpen⟩, h.calls, fun j inst' hj => ?_, ?_⟩, ?_⟩
    · rcases eq_or_ne j i with rfl | hne
      · simp at hj
      · exact h.registering j inst' (by simpa [hne] using hj)
    · rw [hfollower]
      exact h.backed.bypass
    · rw [Haunts, hfollower, Follower.ghost_bypass]
      change ¬ s.Stores inst ∧ s.Silent inst k r ∨ _
        ↔ ¬ s.Stores inst ∧ s.Silent inst k r ∨ _ ∧ ¬ False
      rw [not_false_eq_true, and_true]

/-- **One step of an interleaving.** -/
theorem Tracked.step (h : Tracked x k r s) {l : LocalServiceLabel} (hl : Interleaved x k l)
    (hlag : s'.deployment.registry.registry.InStep r) (hstep : s.step l = some s') :
    Tracked x k r s' ∧ Haunts x k r s l s' := by
  cases hl with
  | register i => exact h.register hstep
  | setKey i => exact h.setKey hstep
  | send i => exact h.send hlag hstep
  | announce i => exact h.announce hstep
  | remove => exact h.remove hlag hstep
  | skip stream => exact h.skip hlag hstep
  | watch hfollows => exact h.watch hfollows hstep

/-! ## Runs -/

/-- **What a registration leaves behind, exactly.**  Where the snapshot and the store agree on an
instance, they agree on it again once all calls have returned and the stream is drained, if and only
if every step that resurrects the instance is followed by one that settles the matter. -/
theorem agrees_iff_mended (hstart : (LocalSystem.source x.name r).Established k s.deployment)
    (hreturned : s.Returned) (hagrees : s.Caches x ↔ s.Stores x) (hw : ∀ l ∈ w, Interleaved x k l)
    (hlag : EachState step (fun s => s.deployment.registry.registry.InStep r) s w)
    (hrun : run step s w = some s') (hreturned' : s'.Returned)
    (hdrained : s'.undelivered x k r = []) :
    (s'.Caches x ↔ s'.Stores x) ↔ Mended step (Resurrects x k r) (Settles x k r) s w := by
  obtain ⟨hbacklog, hlisting⟩ :
      (s.follower x k r).backlog = [] ∧ (s.follower x k r).listing = none := hstart.opened
  have hnotOwed : ∀ {s : LocalService}, s.Returned → ¬ s.Owed x := by
    rintro s hs ⟨i, hi⟩
    rcases hs.2 i with hcall | hcall <;> simp [hcall, LocalCall.owes] at hi
  have hbacked : Follower.Backed x.serviceId x (s.Owed x) (s.follower x k r) := by
    refine ⟨fun ho => .inr ?_, fun m hm => by simp [hlisting] at hm⟩
    rw [hbacklog]
    exact hagrees.mpr ho
  have htracked : Tracked x k r s := by
    refine ⟨hstart.subscribed, fun i => ?_, fun i inst hi => ?_, hbacked⟩
    · rcases hreturned.2 i with hcall | hcall <;> rw [hcall] <;> trivial
    · rcases hreturned.1 i with hcall | hcall <;> simp [hcall] at hi
  have hsteps : EachStep step (fun s l => Interleaved x k l
      ∧ ∀ s' ∈ s.step l, s'.deployment.registry.registry.InStep r) s w :=
    (eachStep_of_forall_mem hw).and hlag.next
  have hghost : ¬ Follower.Ghost x.serviceId x (s.follower x k r) := by
    rw [Follower.Ghost, hbacklog, replay_nil]
    exact fun hg => hg.2 (hagrees.mp hg.1)
  have htracked' : Tracked x k r s' := invariant_run
    (fun _ _ _ h hl hstep => (h.step hl.1 (hl.2 _ hstep) hstep).1) htracked hsteps hrun
  have hbacked' := htracked'.backed.imp (hnotOwed hreturned')
  refine (hbacked'.agree_iff hdrained).trans ?_
  exact unharmed_iff (I := Tracked x k r)
    (fun _ _ _ h hl hstep => (h.step hl.1 (hl.2 _ hstep) hstep).1)
    (fun _ _ _ h hl hstep => (h.step hl.1 (hl.2 _ hstep) hstep).2) htracked hsteps hrun hghost

/-- A service whose watch task follows an empty order service. -/
def watching : List LocalServiceLabel :=
  [.deployment (.inl (.call 0 (.loadOrWatch "order-svc"))), .deployment (.inl (.call 0 .read)),
    .deployment (.inl (.call 0 .lock)), .deployment (.inl (.call 0 (.listed (.ok [])))),
    .deployment (.inl (.call 0 .insert)), .deployment (.inl (.call 0 .lock)),
    .deployment (.inl (.call 0 (.subscribed (.ok 0)))), .deployment (.inl (.task 0 .enter)),
    .deployment (.inl (.task 0 .primed))]

def orderInstance : ServiceInstance := .simple "order-svc" "127.0.0.1" 8080

/-- An instance registers, is removed, the watch task applies both events, and then the registration
applies its upsert. -/
def removedBeforeAnnounce : List LocalServiceLabel :=
  [.register 0 orderInstance, .deployment (.inr (.call 0 .setKey)),
    .deployment (.inr (.call 0 .send)),
    .deployment (.inr (.op (.removeInstance orderInstance.name orderInstance.serviceId))),
    .deployment (.inl (.task 0 (.next (some (.upsert orderInstance))))),
    .deployment (.inl (.task 0 .apply)),
    .deployment (.inl (.task 0 (.next (some
      (.delete orderInstance.name orderInstance.serviceId))))),
    .deployment (.inl (.task 0 .apply)), .announce 0]

theorem interleaved_removedBeforeAnnounce :
    ∀ l ∈ removedBeforeAnnounce, Interleaved orderInstance 0 l := by
  intro l hl
  simp only [removedBeforeAnnounce, List.mem_cons, List.not_mem_nil, or_false] at hl
  rcases hl with rfl | rfl | rfl | rfl | rfl | rfl | rfl | rfl | rfl
  · exact .register 0
  · exact .setKey 0
  · exact .send 0
  · exact .remove
  · exact .watch ⟨rfl, by simp⟩
  · exact .watch ⟨rfl, by simp⟩
  · exact .watch ⟨rfl, by simp⟩
  · exact .watch ⟨rfl, by simp⟩
  · exact .announce 0

/-- That run, from the fresh service on. -/
theorem run_removedBeforeAnnounce : ∃ s s', run step (start false ∅) watching = some s
    ∧ (LocalSystem.source orderInstance.name 0).Established 0 s.deployment ∧ s.Returned
    ∧ (s.Caches orderInstance ↔ s.Stores orderInstance)
    ∧ EachState step (fun s => s.deployment.registry.registry.InStep 0) s removedBeforeAnnounce
    ∧ run step s removedBeforeAnnounce = some s' ∧ s'.Returned
    ∧ s'.undelivered orderInstance 0 0 = []
    ∧ ¬ (s'.Caches orderInstance ↔ s'.Stores orderInstance) := by
  obtain ⟨s, s', hs, hstart, hreturned, hagrees, hlag, hs', hcalls, hregistry, hdrained, hghost⟩ :
      ∃ s s', run step (start false ∅) watching = some s
        ∧ (LocalSystem.source orderInstance.name 0).Established 0 s.deployment ∧ s.Returned
        ∧ (s.Caches orderInstance ↔ s.Stores orderInstance)
        ∧ EachState step (fun s => s.deployment.registry.registry.InStep 0) s removedBeforeAnnounce
        ∧ run step s removedBeforeAnnounce = some s'
        ∧ s'.calls = Function.update (Function.update (fun _ => .idle) 0
          (.registering orderInstance)) 0 .announced
        ∧ s'.deployment.registry.calls = Function.update (Function.update (Function.update
          (fun _ => .idle) 0 (.stored orderInstance)) 0 (.keyed orderInstance)) 0 .returned
        ∧ s'.undelivered orderInstance 0 0 = []
        ∧ ¬ (s'.Caches orderInstance ↔ s'.Stores orderInstance) := by
    exact ⟨_, _, rfl, ⟨⟨_, rfl, rfl, rfl, rfl⟩, ⟨_, rfl, rfl, rfl⟩, rfl⟩,
      ⟨fun i => .inl rfl, fun i => .inl rfl⟩, by decide +kernel, by decide +kernel, rfl, rfl, rfl,
      rfl, by decide +kernel⟩
  refine ⟨s, s', hs, hstart, hreturned, hagrees, hlag, hs', ⟨fun i => ?_, fun i => ?_⟩, hdrained,
    hghost⟩
  · rcases eq_or_ne i 0 with rfl | hne
    · exact .inr (by rw [hcalls, Function.update_self])
    · exact .inl (by simp [hcalls, hne])
  · rcases eq_or_ne i 0 with rfl | hne
    · exact .inr (by rw [hregistry, Function.update_self])
    · exact .inl (by simp [hregistry, hne])

/-- `agrees_iff_mended` on that run. -/
theorem agrees_iff_mended_removed : ∃ s s', run step s removedBeforeAnnounce = some s'
    ∧ ((s'.Caches orderInstance ↔ s'.Stores orderInstance) ↔ Mended step
      (Resurrects orderInstance 0 0) (Settles orderInstance 0 0) s removedBeforeAnnounce) := by
  obtain ⟨s, s', -, hstart, hreturned, hagrees, hlag, hrun, hreturned', hdrained, -⟩ :=
    run_removedBeforeAnnounce
  exact ⟨s, s', hrun, agrees_iff_mended hstart hreturned hagrees
    interleaved_removedBeforeAnnounce hlag hrun hreturned' hdrained⟩

/-- **A removed instance is back.**  Its removal is applied before its own registration's upsert. -/
theorem removed_instance_back : ¬ ∀ (diskCache : Bool)
    (disk : Disk) (u w : List LocalServiceLabel)
    (s s' : LocalService) (x : ServiceInstance) (k r : ℕ),
    run step (start diskCache disk) u = some s →
    (LocalSystem.source x.name r).Established k s.deployment → s.Returned →
    (s.Caches x ↔ s.Stores x) → (∀ l ∈ w, Interleaved x k l) →
    EachState step (fun s => s.deployment.registry.registry.InStep r) s w →
    run step s w = some s' → s'.Returned → s'.undelivered x k r = [] →
    (s'.Caches x ↔ s'.Stores x) := by
  intro h
  obtain ⟨s, s', hs, hstart, hreturned, hagrees, hlag, hrun, hreturned', hdrained, hghost⟩ :=
    run_removedBeforeAnnounce
  exact hghost (h false ∅ watching removedBeforeAnnounce s s' orderInstance 0 0 hs hstart hreturned
    hagrees interleaved_removedBeforeAnnounce hlag hrun hreturned' hdrained)

end LocalService

end PecsRegistry
