import PecsRegistry.Machinery.Transition
import PecsRegistry.Provider.Local.Calls

/-!
# Provider/Local/Ordering — do the broadcasts come in the order of the store changes?

A `register` or `deregister` changes the store and broadcasts the change after it has released the
lock, so another operation on the same id may do both in between.  Whoever replays the broadcasts
then ends at the write that was sent last, and the store at the one that was made last:
`broadcasts_match_iff`.
-/

namespace PecsRegistry

open Transition Writes

namespace LocalSystem

variable {s s' : LocalSystem} {stored sent : List ServiceEvent} {w : List LocalLabel}

/-- The store changes of a run, and its broadcasts. -/
def storeLog (s : LocalSystem) (w : List LocalLabel) : List ServiceEvent := log act stores s w

def sendLog (s : LocalSystem) (w : List LocalLabel) : List ServiceEvent := log act sends s w

/-- **The store is the replay of its changes**, along a run that does not clear it. -/
theorem view_run (hrun : run act s w = some s') (hclear : .op .clear ∉ w) (name : String) :
    s'.view name = replay (writesTo name (s.storeLog w)) (s.view name) := by
  induction w generalizing s with
  | nil =>
    obtain rfl := Option.some.inj hrun
    rfl
  | cons l w ih =>
    obtain ⟨mid, hmid, hrest⟩ := run_cons_eq_some.mp hrun
    obtain ⟨hl, hw⟩ := List.ne_and_not_mem_of_not_mem_cons hclear
    rw [ih hrest hw, view_act hmid hl.symm, storeLog, storeLog, log_cons w hmid,
      writesTo_append, replay_append]

/-- Every broadcast reports a change that was made, and every change has been broadcast, or a call
has it yet to send. -/
structure Accounted (stored sent : List ServiceEvent) (s : LocalSystem) : Prop where
  made : ∀ event ∈ sent, event ∈ stored
  due : ∀ i event, (s.calls i).owes = some event → event ∈ stored
  sent : ∀ event ∈ stored, event ∈ sent ∨ ∃ i, (s.calls i).owes = some event

/-- A call moves: what it has changed it owes, and what it owed it still owes or has sent. -/
theorem Accounted.setCall (h : Accounted stored sent s) {i : ℕ} {c : LocalCall}
    {changes broadcasts : List ServiceEvent} (hcalls : s'.calls = Function.update s.calls i c)
    (hmade : ∀ event ∈ broadcasts, (s.calls i).owes = some event)
    (hdue : ∀ event, c.owes = some event → event ∈ changes ∨ (s.calls i).owes = some event)
    (hchanges : ∀ event ∈ changes, c.owes = some event)
    (howed : ∀ event, (s.calls i).owes = some event →
      event ∈ broadcasts ∨ c.owes = some event) :
    Accounted (stored ++ changes) (sent ++ broadcasts) s' := by
  refine ⟨fun event hevent => ?_, fun j event hj => ?_, fun event hevent => ?_⟩
  · refine List.mem_append_left _ ((List.mem_append.mp hevent).elim (h.made event) fun hnew => ?_)
    exact h.due i event (hmade event hnew)
  · rw [hcalls, Function.update_apply] at hj
    split_ifs at hj
    · rcases hdue event hj with hnew | hold
      · exact List.mem_append_right _ hnew
      · exact List.mem_append_left _ (h.due i event hold)
    · exact List.mem_append_left _ (h.due j event hj)
  · have howner : c.owes = some event → event ∈ sent ++ broadcasts
        ∨ ∃ j, (s'.calls j).owes = some event :=
      fun hc => .inr ⟨i, by rw [hcalls, Function.update_self, hc]⟩
    rcases List.mem_append.mp hevent with hold | hnew
    · rcases h.sent event hold with hsent | ⟨j, hj⟩
      · exact .inl (List.mem_append_left _ hsent)
      · rcases eq_or_ne j i with rfl | hne
        · exact (howed event hj).elim (fun hb => .inl (List.mem_append_right _ hb)) howner
        · exact .inr ⟨j, by rwa [hcalls, Function.update_of_ne hne]⟩
    · exact howner (hchanges event hnew)

theorem Accounted.move (h : Accounted stored sent s) {l : LocalLabel} (hact : s.act l = some s') :
    Accounted (stored ++ s.stores l) (sent ++ s.sends l) s' := by
  cases l with
  | op op =>
    obtain ⟨registry, -, rfl⟩ := Option.map_eq_some_iff.mp hact
    have hsame : s.stores (.op op) = s.sends (.op op) := by cases op <;> rfl
    rw [hsame]
    refine ⟨fun event hevent => ?_, fun i event hi => ?_, fun event hevent => ?_⟩
    · exact List.mem_append.mpr ((List.mem_append.mp hevent).imp_left (h.made event))
    · exact List.mem_append_left _ (h.due i event hi)
    · rcases List.mem_append.mp hevent with hold | hnew
      · exact (h.sent event hold).imp_left (List.mem_append_left _)
      · exact .inl (List.mem_append_right _ hnew)
  | call i l =>
    cases callMove_of_callStep hact with
    | register inst at_ | setKey at_ | announce at_ | take at_ key | unregistered at_ key
    | remove at_ | withdraw at_ =>
      refine h.setCall (i := i) rfl ?_ ?_ ?_ ?_ <;>
        simp [stores, sends, at_, LocalCall.owes, eq_comm]

theorem Accounted.of_run (h : Accounted stored sent s) (hrun : run act s w = some s') :
    Accounted (stored ++ s.storeLog w) (sent ++ s.sendLog w) s' := by
  induction w generalizing s stored sent with
  | nil =>
    obtain rfl := Option.some.inj hrun
    simpa [storeLog, sendLog] using h
  | cons l w ih =>
    obtain ⟨mid, hmid, hrest⟩ := run_cons_eq_some.mp hrun
    rw [storeLog, sendLog, log_cons w hmid, log_cons w hmid, ← List.append_assoc,
      ← List.append_assoc]
    exact ih (h.move hmid) hrest

/-- Once all calls have returned, what was changed is what was broadcast. -/
theorem mem_storeLog_iff (hidle : ∀ i, s.calls i = .idle) (hrun : run act s w = some s')
    (hdone : ∀ i, (s'.calls i).owes = none) {event : ServiceEvent} :
    event ∈ s.storeLog w ↔ event ∈ s.sendLog w := by
  have hstart : Accounted [] [] s :=
    ⟨by simp, fun i event hi => by simp [hidle i, LocalCall.owes] at hi, by simp⟩
  have hend := hstart.of_run hrun
  refine ⟨fun hstored => (hend.sent event hstored).resolve_right ?_, hend.made event⟩
  rintro ⟨i, hi⟩
  simp [hdone i] at hi

/-- No call is under way. -/
def Quiet (s : LocalSystem) : Prop := ∀ i, s.calls i = .idle ∨ s.calls i = .returned

theorem Quiet.owes (h : s.Quiet) (i : ℕ) : (s.calls i).owes = none := by
  rcases h i with hi | hi <;> rw [hi] <;> rfl

/-- **Broadcast order against store order, exactly.**  Once all calls of a run have returned,
replaying its broadcasts of a service in the order they were sent gives the stored map if and only
if, for every id, the write sent last is the write made last. -/
theorem broadcasts_match_iff (hidle : ∀ i, s.calls i = .idle) (hrun : run act s w = some s')
    (hclear : .op .clear ∉ w) (hdone : s'.Quiet) (name : String) :
    replay (writesTo name (s.sendLog w)) (s.view name) = s'.view name
      ↔ ∀ id, lastWord (writesTo name (s.sendLog w)) id
        = lastWord (writesTo name (s.storeLog w)) id := by
  rw [view_run hrun hclear, funext_iff]
  refine forall_congr' fun id => replay_eq_iff_lastWord ?_
  simp only [writesTo, List.mem_map, List.mem_filter, mem_storeLog_iff hidle hrun hdone.owes]

/-- An instance is removed between the two steps of its registration. -/
def removedWhileRegistering : List LocalLabel :=
  [.call 0 (.register (.simple "order-svc" "127.0.0.1" 8080)),
    .op (.removeInstance "order-svc" "order-svc-127.0.0.1-8080"), .call 0 .setKey, .call 0 .send]

theorem run_removed : ∃ s', run act new removedWhileRegistering = some s' ∧ s'.Quiet := by
  refine ⟨_, rfl, fun i => ?_⟩
  rcases eq_or_ne i 0 with rfl | hne
  · exact .inr rfl
  · exact .inl (by simp [setCall, new, hne])

theorem broadcasts_match_iff_removed : ∃ s', run act new removedWhileRegistering = some s'
    ∧ (replay (writesTo "order-svc" (new.sendLog removedWhileRegistering)) (new.view "order-svc")
        = s'.view "order-svc"
      ↔ ∀ id, lastWord (writesTo "order-svc" (new.sendLog removedWhileRegistering)) id
        = lastWord (writesTo "order-svc" (new.storeLog removedWhileRegistering)) id) := by
  obtain ⟨s', hrun, hquiet⟩ := run_removed
  exact ⟨s', hrun, broadcasts_match_iff (fun _ => rfl) hrun (by simp [removedWhileRegistering])
    hquiet _⟩

/-- **A ghost for every watcher.**  The removal is broadcast before the registration. -/
theorem ghost_broadcast : ¬ ∀ (s s' : LocalSystem) (w : List LocalLabel),
    (∀ i, s.calls i = .idle) → run act s w = some s' → .op .clear ∉ w → s'.Quiet →
    ∀ name, replay (writesTo name (s.sendLog w)) (s.view name) = s'.view name := by
  intro h
  obtain ⟨s', hrun, hquiet⟩ := run_removed
  have hghost := congrFun (h new s' _ (fun _ => rfl) hrun (by simp [removedWhileRegistering]) hquiet
    "order-svc") "order-svc-127.0.0.1-8080"
  obtain rfl := Option.some.inj hrun
  exact absurd hghost (by decide +kernel)

end LocalSystem

end PecsRegistry
