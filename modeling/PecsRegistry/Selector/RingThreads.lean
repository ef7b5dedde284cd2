import PecsRegistry.Machinery.DoubleChecked
import PecsRegistry.Selector.ConsistentHash

/-!
# Selector/RingThreads — consistent hashing under any number of threads

`get_or_build_ring` looks for the ring of a service under the read lock, and again under the write
lock before it builds one: the rings are a double-checked cache (`ringCache`).  So concurrent
selections answer as they would one by one (`linearized`), and **a ring is built once**, however
many threads miss it together, as long as the lists of its service have one fingerprint
(`built_once`).
-/

open Transition DoubleChecked

namespace PecsRegistry

namespace ConsistentHashSelector

/-- The rings, as a double-checked cache: a list of fewer than two instances needs none, and a ring
fits the lists of its fingerprint.  The answer `none` is an index out of range. -/
def ringCache (virtualNodes : ℕ) :
    Cache SelectCall String RingCache (Option (Option ServiceInstance)) where
  direct call := if call.2.length < 2 then some (some call.2.head?) else none
  key call := call.1.serviceName
  fits call cached := cached.fingerprint = computeFingerprint call.2
  build call := ⟨computeFingerprint call.2, buildRing virtualNodes call.2⟩
  answer call cached := route cached.ring call.1 call.2

/-- The selector, with the calls of its threads. -/
abbrev RingThreads :=
  DoubleChecked.State SelectCall String RingCache (Option (Option ServiceInstance))

variable {n : ℕ} {s : RingThreads} {w : List (Label SelectCall)}

theorem getOrBuildRing_eq_get (n : ℕ) (rings : HashMap String RingCache) (call : SelectCall) :
    getOrBuildRing ⟨n, rings⟩ call.1.serviceName call.2
      = (((ringCache n).get rings call).1, ⟨n, ((ringCache n).get rings call).2⟩) := by
  have hfound : (rings.lookup call.1.serviceName).filter
      (fun cached => cached.fingerprint = computeFingerprint call.2)
        = (ringCache n).found rings call := rfl
  rw [getOrBuildRing, Cache.get, hfound]
  cases (ringCache n).found rings call <;> rfl

theorem direct_of_lt_two {call : SelectCall} (h : call.2.length < 2) :
    (ringCache n).direct call = some (some call.2.head?) := if_pos h

theorem direct_of_two_le {call : SelectCall} (h : 2 ≤ call.2.length) :
    (ringCache n).direct call = none := if_neg h.not_gt

/-- A selection on its own is a request with the cache to itself. -/
theorem select_eq_handle (n : ℕ) (rings : HashMap String RingCache) (call : SelectCall) :
    select ⟨n, rings⟩ call = ((ringCache n).handle rings call).1.map fun answer =>
      (answer, ⟨n, ((ringCache n).handle rings call).2⟩) := by
  rcases lt_or_ge call.2.length 2 with hshort | hlong
  · rw [select_of_lt_two _ _ hshort, Cache.handle_of_direct _ (direct_of_lt_two hshort)]
    rfl
  · rw [select_of_two_le _ _ hlong, getOrBuildRing_eq_get,
      Cache.handle_of_needed _ (direct_of_two_le hlong)]
    rfl

/-- No selection runs out of its ring. -/
theorem exists_answer (n : ℕ) (rings : HashMap String RingCache) (call : SelectCall) :
    ∃ answer, ((ringCache n).handle rings call).1 = some answer := by
  rcases lt_or_ge call.2.length 2 with hshort | hlong
  · exact ⟨_, by rw [Cache.handle_of_direct _ (direct_of_lt_two hshort)]⟩
  · obtain ⟨answer, hanswer⟩ := Option.isSome_iff_exists.mp
      (route_isSome ((ringCache n).get rings call).1.ring call.1 call.2)
    refine ⟨answer, ?_⟩
    rw [Cache.handle_of_needed _ (direct_of_two_le hlong)]
    exact hanswer

theorem serve_select {rings rings' : HashMap String RingCache} {calls : List SelectCall}
    {answers : List (Option (Option ServiceInstance))}
    (h : serve (fun rings call => some ((ringCache n).handle rings call)) rings calls
      = some (answers, rings')) :
    ∃ chosen, answers = chosen.map some
      ∧ serve select ⟨n, rings⟩ calls = some (chosen, ⟨n, rings'⟩) := by
  induction calls generalizing rings answers with
  | nil =>
    obtain ⟨rfl, rfl⟩ := Prod.mk.inj (Option.some.inj h)
    exact ⟨[], rfl, rfl⟩
  | cons call calls ih =>
    obtain ⟨b, rings₁, answers', hcall, hrest, rfl⟩ := serve_cons_eq_some.mp h
    obtain ⟨chosen, rfl, hserve⟩ := ih hrest
    obtain ⟨answer, hanswer⟩ := exists_answer n rings call
    obtain ⟨rfl, rfl⟩ : _ ∧ _ := Prod.ext_iff.mp (Option.some.inj hcall)
    refine ⟨answer :: chosen, by rw [List.map_cons, hanswer], ?_⟩
    exact serve_cons_eq_some.mpr ⟨answer, _, chosen,
      by rw [select_eq_handle, hanswer]; rfl, hserve, rfl⟩

/-- The selections of a run, each with its thread and its answer, in the order they got their
ring. -/
def history (n : ℕ) (w : List (Label SelectCall)) :
    List (ℕ × SelectCall × Option (Option ServiceInstance)) :=
  log (ringCache n).step (ringCache n).serving .start w

theorem served_iff (hrun : run (ringCache n).step .start w = some s) {i : ℕ} {call : SelectCall}
    {answer : Option (Option ServiceInstance)} :
    s.phase i = .served call answer ↔ (i, call, answer) ∈ history n w := by
  have hphase : s.phase i = .served call answer ↔ (s.phase i).done = some (call, answer) := by
    cases s.phase i <;> simp [Phase.done]
  rw [hphase, (Cache.done_of_run _ (ringCache n).due_start hrun).2.2]
  exact or_iff_right (by simp [State.start, Phase.done])

/-- **Concurrent selections are as good as one by one.**  However the threads interleave, no index
is out of range, every finished call is in the history, once, and the answers of the history, and
the rings at the end, are those of one thread that makes the calls of the history in order. -/
theorem linearized (virtualNodes : ℕ)
    (hrun : run (ringCache (max virtualNodes 1)).step .start w = some s) :
    let calls := history (max virtualNodes 1) w
    (∃ chosen, calls.map (fun e => e.2.2) = chosen.map some
      ∧ serve select (withVirtualNodes virtualNodes) (calls.map fun e => e.2.1)
        = some (chosen, ⟨max virtualNodes 1, s.entries⟩))
    ∧ (calls.map Prod.fst).Nodup
    ∧ ∀ i call answer, s.phase i = .served call answer ↔ (i, call, answer) ∈ calls := by
  have hdue := (ringCache (max virtualNodes 1)).due_start
  exact ⟨serve_select (Cache.serve_of_run _ hdue hrun), (Cache.done_of_run _ hdue hrun).1,
    fun i call answer => served_iff hrun⟩

/-- Two threads miss the ring together; both take the write lock. -/
def missedTogether : List (Label SelectCall) :=
  [.ask 0 (cacheCall ["ab", "c"]), .ask 1 (cacheCall ["ab", "c"]), .look 0, .look 1, .build 1,
    .build 0]

/-- `linearized` for two threads that miss together. -/
theorem linearized_missed : ∃ s, run (ringCache 1).step .start missedTogether = some s
    ∧ ((history 1 missedTogether).map Prod.fst).Nodup := by
  obtain ⟨s, hrun⟩ := Option.isSome_iff_exists.mp
    (by decide +kernel : (run (ringCache 1).step .start missedTogether).isSome)
  exact ⟨s, hrun, (linearized 1 hrun).2.1⟩

/-- **Threads do not spoil each other's rings**: where successive lists of one service have their
own fingerprints, every call is answered as by a fresh selector. -/
theorem answered_fresh (virtualNodes : ℕ)
    (hrun : run (ringCache (max virtualNodes 1)).step .start w = some s)
    (hsep : FingerprintsSeparate ((history (max virtualNodes 1) w).map fun e => e.2.1)) {i : ℕ}
    {call : SelectCall} {answer : Option (Option ServiceInstance)}
    (hserved : s.phase i = .served call answer) :
    answer.map (fun inst => inst.map (·.serviceId)) = freshId virtualNodes call := by
  obtain ⟨chosen, hchosen, hserve⟩ :=
    serve_select (Cache.serve_of_run _ (ringCache (max virtualNodes 1)).due_start hrun)
  have hstart : CachesLast (max virtualNodes 1) [] (withVirtualNodes virtualNodes) :=
    ⟨rfl, fun svc cached hl => by simp [withVirtualNodes] at hl⟩
  have hfresh : chosen.map (fun inst => some (inst.map (·.serviceId)))
      = ((history (max virtualNodes 1) w).map fun e => e.2.1).map (freshId virtualNodes) :=
    Option.some.inj ((congrArg (Option.map _) hserve).symm.trans (serve_agrees hstart hsep))
  have hall : (history (max virtualNodes 1) w).map
        (fun e => e.2.2.map fun inst => inst.map (·.serviceId))
      = (history (max virtualNodes 1) w).map fun e => freshId virtualNodes e.2.1 := by
    calc _ = ((history (max virtualNodes 1) w).map fun e => e.2.2).map
          (Option.map fun inst => inst.map (·.serviceId)) := by rw [List.map_map]; rfl
      _ = chosen.map fun inst => some (inst.map (·.serviceId)) := by
        rw [history, hchosen, List.map_map]
        rfl
      _ = _ := by rw [hfresh, List.map_map]; rfl
  exact List.map_inj_left.mp hall _ ((served_iff hrun).mp hserved)

/-- `answered_fresh` for two threads that miss together. -/
theorem answered_fresh_missed : ∃ s answer, run (ringCache 1).step .start missedTogether = some s
    ∧ s.phase 0 = .served (cacheCall ["ab", "c"]) answer
    ∧ answer.map (fun inst => inst.map (·.serviceId)) = freshId 1 (cacheCall ["ab", "c"]) := by
  obtain ⟨s, hrun⟩ := Option.isSome_iff_exists.mp
    (by decide +kernel : (run (ringCache 1).step .start missedTogether).isSome)
  have hcalls : (history 1 missedTogether).map (fun e => (e.1, e.2.1))
      = [(1, cacheCall ["ab", "c"]), (0, cacheCall ["ab", "c"])] := by decide +kernel
  have hmem : (0, cacheCall ["ab", "c"]) ∈ (history 1 missedTogether).map
      fun e => (e.1, e.2.1) := by
    rw [hcalls]
    exact List.mem_cons_of_mem _ List.mem_cons_self
  obtain ⟨⟨i, call, answer⟩, he, heq⟩ := List.mem_map.mp hmem
  obtain ⟨rfl, rfl⟩ := Prod.mk.inj heq
  have hserved := (served_iff hrun).mpr he
  refine ⟨s, answer, hrun, hserved, answered_fresh 1 hrun ?_ hserved⟩
  have hsame : ∀ c ∈ (history 1 missedTogether).map (fun e => e.2.1),
      c = cacheCall ["ab", "c"] := by decide +kernel
  intro pre c mid d post heq _ _
  have hmem' : ∀ c' ∈ pre ++ c :: mid ++ d :: post, c' = cacheCall ["ab", "c"] :=
    fun c' hc' => hsame c' (heq ▸ hc')
  rw [hmem' c (by simp), hmem' d (by simp)]

/-- **A ring is built once.**  Where the lists of two instances or more that threads select from for
a service all have one fingerprint, its ring is built at most once, whatever number of threads miss
it together, and whatever they select from for other services. -/
theorem built_once (virtualNodes : ℕ) (hrun : run (ringCache virtualNodes).step .start w = some s)
    (serviceName : String)
    (hsame : ∀ i j c d, .ask i c ∈ w → .ask j d ∈ w → c.1.serviceName = serviceName →
      d.1.serviceName = serviceName → 2 ≤ c.2.length → 2 ≤ d.2.length →
      computeFingerprint c.2 = computeFingerprint d.2) :
    (log (ringCache virtualNodes).step (ringCache virtualNodes).building .start w).count
      serviceName ≤ 1 := by
  have hlong : ∀ c : SelectCall, (ringCache virtualNodes).direct c = none → 2 ≤ c.2.length :=
    fun c hneeded => by
      by_contra hshort
      rw [direct_of_lt_two (not_le.mp hshort)] at hneeded
      cases hneeded
  have hasks : ∀ l ∈ w, (ringCache virtualNodes).Asks
      (fun c => 2 ≤ c.2.length ∧ ∃ i, .ask i c ∈ w) l := fun l hl => by
    cases l with
    | ask i c => exact fun hneeded => ⟨hlong c hneeded, i, hl⟩
    | _ => trivial
  have hsuits : (ringCache virtualNodes).Suits (fun c => 2 ≤ c.2.length ∧ ∃ i, .ask i c ∈ w)
      serviceName := by
    rintro c d ⟨hc, i, hi⟩ ⟨hd, j, hj⟩ hcname hdname
    exact decide_eq_true (hsame i j c d hi hj hcname hdname hc hd).symm
  exact (Cache.count_building _ hsuits (Cache.stocked_start _) (Cache.due_start _) hasks hrun).1

/-- Two threads miss the ring together, while two others select from two lists of another
service. -/
def otherService : List (Label SelectCall) :=
  missedTogether ++ [.ask 2 (SelectContext.new "pay-svc", (cacheCall ["a", "b"]).2),
    .ask 3 (SelectContext.new "pay-svc", (cacheCall ["a", "c"]).2), .look 2, .look 3, .build 3,
    .build 2]

/-- `built_once` for those threads. -/
theorem built_once_missed :
    (log (ringCache 1).step (ringCache 1).building .start otherService).count "cache-svc"
      ≤ 1 := by
  obtain ⟨s, hrun⟩ := Option.isSome_iff_exists.mp
    (by decide +kernel : (run (ringCache 1).step .start otherService).isSome)
  refine built_once 1 hrun "cache-svc" ?_
  have hcall : ∀ i c, .ask i c ∈ otherService → c.1.serviceName = "cache-svc" →
      c = cacheCall ["ab", "c"] := by
    intro i c hc hname
    rcases (by simpa [otherService, missedTogether] using hc) with
      ⟨-, rfl⟩ | ⟨-, rfl⟩ | ⟨-, rfl⟩ | ⟨-, rfl⟩
    · rfl
    · rfl
    · exact absurd hname (by decide)
    · exact absurd hname (by decide)
  rintro i j c d hc hd hcname hdname - -
  rw [hcall i c hc hcname, hcall j d hd hdname]

end ConsistentHashSelector

end PecsRegistry
