import PecsRegistry.Directory.System

/-!
# Directory/Listeners — which list a listener is told last

`apply_event` swaps the snapshot, reads the list of listeners, and calls them one by one with the
list it has stored.  Two calls for a service may swap in one order and notify in the other: a
listener ends with the list of the call that told it last (`informed_iff`).
-/

namespace PecsRegistry

open Transition

/-- Where an `apply_event` stands: it has swapped in its list, and then calls the listeners left. -/
inductive ApplyCall
  | idle
  | swapped (finalList : List ServiceInstance)
  | notifying (finalList : List ServiceInstance) (left : List ℕ)
deriving DecidableEq

/-- The list a call has stored. -/
def ApplyCall.finalList : ApplyCall → Option (List ServiceInstance)
  | .idle => none
  | .swapped finalList | .notifying finalList _ => some finalList

/-- The directory, its listeners, the calls of `apply_event`, and what each listener was told
last. -/
structure ListenedDirectory where
  directory : ServiceDirectory
  listeners : List ℕ
  calls : ℕ → ApplyCall
  told : ℕ → Option (List ServiceInstance)

/-- A listener is added; a call swaps the snapshot, reads the listeners, or calls the next one. -/
inductive ListenLabel
  | addListener (m : ℕ)
  | swap (i : ℕ) (event : ServiceEvent)
  | read (i : ℕ)
  | onChange (i m : ℕ)

namespace ListenedDirectory

variable {name : String} {s s' : ListenedDirectory} {l : ListenLabel} {u w : List ListenLabel}
  {lists : ℕ → List ServiceInstance}

@[simps]
def setCall (s : ListenedDirectory) (i : ℕ) (c : ApplyCall) : ListenedDirectory :=
  { s with calls := Function.update s.calls i c }

/-- One step of the `apply_event` calls for a service. -/
def step (name : String) (s : ListenedDirectory) : ListenLabel → Option ListenedDirectory
  | .addListener m => some { s with listeners := s.listeners ++ [m] }
  | .swap i event =>
      match s.calls i with
      | .idle =>
          some ({ s with directory := s.directory.applyEvent name event }.setCall i
            (.swapped (newList (s.directory.getInstances name) event)))
      | _ => none
  | .read i =>
      match s.calls i with
      | .swapped finalList => some (s.setCall i (.notifying finalList s.listeners))
      | _ => none
  | .onChange i m =>
      match s.calls i with
      | .notifying finalList (next :: left) =>
          if next = m then
            some ({ s with told := Function.update s.told m (some finalList) }.setCall i
              (.notifying finalList left))
          else none
      | _ => none

/-- No call is under way. -/
def Quiet (s : ListenedDirectory) : Prop :=
  ∀ i, s.calls i = .idle ∨ ∃ finalList, s.calls i = .notifying finalList []

/-- What each listener was told last is the snapshot. -/
def Informed (name : String) (s : ListenedDirectory) : Prop :=
  ∀ m list, s.told m = some list → list = s.directory.getInstances name

/-! ## Who came when -/

/-- The calls in the order in which they swap, and their events. -/
def swappers (w : List ListenLabel) : List ℕ :=
  w.filterMap fun
    | .swap i _ => some i
    | _ => none

def swapped (w : List ListenLabel) : List ServiceEvent :=
  w.filterMap fun
    | .swap _ event => some event
    | _ => none

/-- The calls that tell listener `m`, in that order. -/
def tellers (m : ℕ) (w : List ListenLabel) : List ℕ :=
  w.filterMap fun
    | .onChange i m' => if m' = m then some i else none
    | _ => none

/-- The call that tells listener `m` last. -/
def lastTeller (m : ℕ) (w : List ListenLabel) : Option ℕ := (tellers m w).getLast?

/-! ## Every list has its turn -/

/-- After the steps `u` the snapshot is the list after all their swaps, where `lists k` is the list
after `k` of them, and each call holds the list of its own turn. -/
structure Ordered (name : String) (lists : ℕ → List ServiceInstance) (u : List ListenLabel)
    (s : ListenedDirectory) : Prop where
  memory : s.directory.getInstances name = lists (swappers u).length
  started : ∀ i, s.calls i = .idle ↔ i ∉ swappers u
  nodup : (swappers u).Nodup
  turn : ∀ i list, (s.calls i).finalList = some list →
    ∃ j : ℕ, (swappers u)[j]? = some i ∧ list = lists (j + 1)

/-- A call moves on with its list. -/
theorem Ordered.advance (h : Ordered name lists u s) {i : ℕ} {c : ApplyCall}
    (hswappers : swappers (u ++ [l]) = swappers u) (hdirectory : s'.directory = s.directory)
    (hcalls : s'.calls = Function.update s.calls i c)
    (hstarted : s.calls i ≠ .idle ∧ c ≠ .idle) (hlist : c.finalList = (s.calls i).finalList) :
    Ordered name lists (u ++ [l]) s' := by
  refine ⟨?_, fun j => ?_, ?_, fun j list hj => ?_⟩
  · rw [hswappers, hdirectory]
    exact h.memory
  · rw [hswappers, ← h.started j, hcalls, Function.update_apply]
    split_ifs with hji
    · exact iff_of_false hstarted.2 (hji ▸ hstarted.1)
    · rfl
  · rw [hswappers]
    exact h.nodup
  · rw [hswappers]
    refine h.turn j list ?_
    rw [hcalls, Function.update_apply] at hj
    split_ifs at hj with hji
    · rw [hji, ← hlist, hj]
    · exact hj

theorem getElem?_swappers_snoc {j k : ℕ} (hj : (swappers u)[j]? = some k) :
    (swappers (u ++ [l]))[j]? = some k := by
  rw [swappers, List.filterMap_append]
  exact (List.getElem?_append_left (List.getElem?_eq_some_iff.mp hj).1).trans hj

/-- The next call swaps: its turn is the next. -/
theorem Ordered.swap (h : Ordered name lists u s) {i : ℕ} {event : ServiceEvent}
    (hidle : s.calls i = .idle)
    (hlists : lists ((swappers u).length + 1) = newList (lists (swappers u).length) event) :
    Ordered name lists (u ++ [.swap i event])
      ({ s with directory := s.directory.applyEvent name event }.setCall i
        (.swapped (newList (s.directory.getInstances name) event))) := by
  have hswappers : swappers (u ++ [.swap i event]) = swappers u ++ [i] := by simp [swappers]
  have hnew : i ∉ swappers u := (h.started i).mp hidle
  refine ⟨?_, fun j => ?_, ?_, fun j list hj => ?_⟩
  · rw [hswappers, List.length_append, List.length_singleton, hlists, ← h.memory]
    exact (ServiceDirectory.getInstances_applyEvent _ _ _ _).trans (if_pos rfl)
  · rw [hswappers, List.mem_append, List.mem_singleton, not_or, ← h.started j, setCall_calls,
      Function.update_apply]
    split_ifs with hji
    · exact iff_of_false (by simp) fun hand => hand.2 hji
    · exact ⟨fun hj => ⟨hj, hji⟩, And.left⟩
  · rw [hswappers]
    refine List.nodup_append.mpr ⟨h.nodup, List.nodup_singleton i, ?_⟩
    rintro a ha b hb rfl
    exact hnew (List.mem_singleton.mp hb ▸ ha)
  · rw [setCall_calls, Function.update_apply] at hj
    split_ifs at hj with hji
    · refine ⟨(swappers u).length, by rw [hswappers, hji]; simp, ?_⟩
      rw [hlists, ← h.memory]
      exact (Option.some.inj hj).symm
    · obtain ⟨k, hk, hlist⟩ := h.turn j list hj
      exact ⟨k, getElem?_swappers_snoc hk, hlist⟩

theorem Ordered.step (h : Ordered name lists u s)
    (hlists : ∀ i event, l = .swap i event →
      lists ((swappers u).length + 1) = newList (lists (swappers u).length) event)
    (hstep : s.step name l = some s') : Ordered name lists (u ++ [l]) s' := by
  revert hstep
  fun_cases ListenedDirectory.step name s l <;> intro hstep <;>
    simp only [reduceCtorEq, Option.some.injEq] at hstep <;> subst hstep
  case case1 m =>
    have hswappers : swappers (u ++ [.addListener m]) = swappers u := by simp [swappers]
    exact ⟨hswappers ▸ h.memory, hswappers ▸ h.started, hswappers ▸ h.nodup, hswappers ▸ h.turn⟩
  case case2 i event hidle => exact h.swap hidle (hlists i event rfl)
  case case4 i finalList hi =>
    exact h.advance (by simp [swappers]) rfl rfl (by simp [hi]) (by simp [hi, ApplyCall.finalList])
  case case6 i finalList next left hi =>
    exact h.advance (by simp [swappers]) rfl rfl (by simp [hi]) (by simp [hi, ApplyCall.finalList])

/-- A listener was told the list of the call that told it last. -/
structure Told (lists : ℕ → List ServiceInstance) (u : List ListenLabel)
    (s : ListenedDirectory) : Prop where
  untold : ∀ m, lastTeller m u = none → s.told m = none
  told : ∀ m, ∀ i ∈ lastTeller m u,
    ∃ j : ℕ, (swappers u)[j]? = some i ∧ s.told m = some (lists (j + 1))

theorem lastTeller_snoc (m : ℕ) (u : List ListenLabel) (l : ListenLabel) :
    lastTeller m (u ++ [l]) = (tellers m [l]).getLast?.or (lastTeller m u) := by
  rw [lastTeller, tellers, List.filterMap_append, List.getLast?_append]
  rfl

/-- A listener that is not told keeps what it was told. -/
theorem Told.kept (h : Told lists u s) {m : ℕ} (hnone : tellers m [l] = [])
    (htold : s'.told m = s.told m) :
    (lastTeller m (u ++ [l]) = none → s'.told m = none) ∧ ∀ i ∈ lastTeller m (u ++ [l]),
      ∃ j : ℕ, (swappers (u ++ [l]))[j]? = some i ∧ s'.told m = some (lists (j + 1)) := by
  have hlast : lastTeller m (u ++ [l]) = lastTeller m u := by rw [lastTeller_snoc, hnone]; rfl
  rw [hlast, htold]
  refine ⟨h.untold m, fun i hi => ?_⟩
  obtain ⟨j, hj, hlist⟩ := h.told m i hi
  exact ⟨j, getElem?_swappers_snoc hj, hlist⟩

theorem Told.step (h : Told lists u s) (hordered : Ordered name lists u s)
    (hstep : s.step name l = some s') : Told lists (u ++ [l]) s' := by
  suffices hm : ∀ m, (lastTeller m (u ++ [l]) = none → s'.told m = none)
      ∧ ∀ i ∈ lastTeller m (u ++ [l]),
        ∃ j : ℕ, (swappers (u ++ [l]))[j]? = some i ∧ s'.told m = some (lists (j + 1)) from
    ⟨fun m => (hm m).1, fun m => (hm m).2⟩
  intro m
  revert hstep
  fun_cases ListenedDirectory.step name s l <;> intro hstep <;>
    simp only [reduceCtorEq, Option.some.injEq] at hstep <;> subst hstep
  case case6 i finalList next left hi =>
    rcases eq_or_ne m next with rfl | hne
    · have hlast : lastTeller m (u ++ [.onChange i m]) = some i := by
        simp [lastTeller_snoc, tellers]
      obtain ⟨j, hj, hlist⟩ := hordered.turn i finalList (by rw [hi]; rfl)
      rw [hlast]
      refine ⟨by simp, fun i' hi' => ⟨j, ?_, ?_⟩⟩
      · rw [← Option.mem_some_iff.mp hi']
        exact getElem?_swappers_snoc hj
      · rw [← hlist]
        exact Function.update_self ..
    · exact h.kept (by simp [tellers, hne.symm]) (Function.update_of_ne hne _ _)
  all_goals exact h.kept rfl rfl

/-! ## Runs -/

theorem swapped_cons (l : ListenLabel) (w : List ListenLabel) :
    swapped (l :: w) = swapped [l] ++ swapped w := by
  rw [swapped, ← List.singleton_append, List.filterMap_append]
  rfl

theorem length_swappers (w : List ListenLabel) : (swappers w).length = (swapped w).length := by
  induction w with
  | nil => rfl
  | cons l w ih =>
    cases l with
    | swap i event => exact congrArg Nat.succ ih
    | _ => exact ih

/-- **Every list has its turn, in every run.** -/
theorem told_run (hordered : Ordered name lists u s) (htold : Told lists u s)
    (hlists : ∀ k event, (swapped w)[k]? = some event →
      lists ((swappers u).length + k + 1) = newList (lists ((swappers u).length + k)) event)
    (hrun : run (step name) s w = some s') :
    Ordered name lists (u ++ w) s' ∧ Told lists (u ++ w) s' := by
  induction w generalizing s u with
  | nil =>
    obtain rfl := Option.some.inj hrun
    rw [List.append_nil]
    exact ⟨hordered, htold⟩
  | cons l w ih =>
    obtain ⟨mid, hmid, hrest⟩ := run_cons_eq_some.mp hrun
    rw [← List.singleton_append, ← List.append_assoc]
    refine ih (hordered.step (fun i event hl => ?_) hmid) (htold.step hordered hmid)
      (fun k event hk => ?_) hrest
    · subst hl
      exact hlists 0 event rfl
    · have hlength : (swappers (u ++ [l])).length = (swappers u).length + (swapped [l]).length := by
        rw [← length_swappers, swappers, List.filterMap_append, List.length_append]
        rfl
      rw [hlength, Nat.add_assoc _ _ k]
      refine hlists _ event ?_
      rw [swapped_cons, List.getElem?_append_right (Nat.le_add_right _ _), Nat.add_sub_cancel_left]
      exact hk

/-- The calls and the listeners before the first call. -/
structure Fresh (s : ListenedDirectory) : Prop where
  idle : ∀ i, s.calls i = .idle
  untold : ∀ m, s.told m = none

theorem told_of_fresh (hfresh : s.Fresh) (hrun : run (step name) s w = some s') :
    Ordered name (fun k => listAfter (s.directory.getInstances name) ((swapped w).take k)) w s'
      ∧ Told (fun k => listAfter (s.directory.getInstances name) ((swapped w).take k)) w s' := by
  have hordered : Ordered name
      (fun k => listAfter (s.directory.getInstances name) ((swapped w).take k)) [] s :=
    ⟨rfl, fun i => iff_of_true (hfresh.idle i) (List.not_mem_nil), List.nodup_nil,
      fun i list hlist => by rw [hfresh.idle i] at hlist; cases hlist⟩
  refine told_run hordered ⟨fun m _ => hfresh.untold m, fun m i hi => by cases hi⟩ ?_ hrun
  intro k event hk
  simp only [swappers, List.filterMap_nil, List.length_nil, Nat.zero_add]
  exact listAfter_take_succ hk _

/-- **Which list a listener is told last, exactly.**  In every run the listeners were told the
snapshot last if and only if, for each of them, the events swapped in after that of the call which
told it last leave that call's list as it is. -/
theorem informed_iff (hfresh : s.Fresh) (hrun : run (step name) s w = some s') :
    s'.Informed name ↔ ∀ m, ∀ i ∈ lastTeller m w, ∀ j : ℕ, (swappers w)[j]? = some i →
      Unmoved (s.directory.getInstances name) (swapped w) (j + 1) := by
  obtain ⟨hordered, htold⟩ := told_of_fresh hfresh hrun
  have hmemory : s'.directory.getInstances name
      = listAfter (s.directory.getInstances name) (swapped w) := by
    rw [hordered.memory, length_swappers, List.take_length]
  constructor
  · intro h m i hi j hj
    obtain ⟨k, hk, hlist⟩ := htold.told m i hi
    obtain rfl : j = k :=
      (List.getElem?_inj (List.getElem?_eq_some_iff.mp hj).1 hordered.nodup).mp (hj.trans hk.symm)
    exact unmoved_iff.mpr ((h m _ hlist).trans hmemory)
  · intro h m list hlist
    rcases hlast : lastTeller m w with _ | i
    · rw [htold.untold m hlast] at hlist
      cases hlist
    · obtain ⟨j, hj, htold'⟩ := htold.told m i hlast
      rw [hmemory, ← unmoved_iff.mp (h m i hlast j hj)]
      exact Option.some.inj (hlist.symm.trans htold')

/-- A directory without listeners. -/
def start (d : ServiceDirectory) : ListenedDirectory := ⟨d, [], fun _ => .idle, fun _ => none⟩

theorem fresh_start (d : ServiceDirectory) : (start d).Fresh := ⟨fun _ => rfl, fun _ => rfl⟩

/-- Two calls, one after the other, swap in their instances and read the listener; then the call
`first` notifies it, and then the call `second`. -/
def twoCalls (first second : ℕ) : List ListenLabel :=
  [.addListener 0, .swap 0 (.upsert (.simple "order-svc" "127.0.0.1" 8080)),
    .swap 1 (.upsert (.simple "order-svc" "127.0.0.1" 8081)), .read 0, .read 1, .onChange first 0,
    .onChange second 0]

/-- `informed_iff` where the calls notify in the order in which they swapped. -/
theorem informed_iff_twoCalls :
    ∃ s', run (step "order-svc") (start (.withOptions false ∅)) (twoCalls 0 1) = some s'
      ∧ (s'.Informed "order-svc" ↔ ∀ m, ∀ i ∈ lastTeller m (twoCalls 0 1), ∀ j : ℕ,
        (swappers (twoCalls 0 1))[j]? = some i →
          Unmoved ((start (.withOptions false ∅)).directory.getInstances "order-svc")
            (swapped (twoCalls 0 1)) (j + 1)) := by
  obtain ⟨s', hrun⟩ : ∃ s', run (step "order-svc") (start (.withOptions false ∅)) (twoCalls 0 1)
    = some s' := ⟨_, rfl⟩
  exact ⟨s', hrun, informed_iff (fresh_start _) hrun⟩

/-- **A stale listener.**  The call that swapped last notifies first: the listener ends up with the
list without the instance that came up last. -/
theorem stale_listener : ¬ ∀ (s s' : ListenedDirectory) (name : String) (w : List ListenLabel),
    s.Fresh → run (step name) s w = some s' → s'.Quiet → s'.Informed name := by
  intro h
  obtain ⟨s', hrun⟩ : ∃ s', run (step "order-svc") (start (.withOptions false ∅)) (twoCalls 1 0)
    = some s' := ⟨_, rfl⟩
  have hend := h _ s' "order-svc" _ (fresh_start _) hrun
  obtain rfl := Option.some.inj hrun
  refine absurd (hend (fun i => ?_) 0 _ rfl) (by decide +kernel)
  rcases i with _ | _ | i
  · exact Or.inr ⟨_, rfl⟩
  · exact Or.inr ⟨_, rfl⟩
  · exact Or.inl rfl

end ListenedDirectory

end PecsRegistry
