import PecsRegistry.Machinery.Residues
import PecsRegistry.Machinery.Transition
import PecsRegistry.Selector.RoundRobin
import Mathlib.Tactic.Simps.Basic

/-!
# Selector/RoundRobinThreads — round-robin under any number of threads

The map of a `RoundRobinSelector` leads from a service to a shared counter.  A counter is looked up
under the read lock and, when it is not there, inserted under the write lock, where it is looked up
again; so threads that miss together end up with one counter.  Every counter counts the selections
of its service, in every run (`Counted`), and so they take turns: `picks_fair`.
-/

namespace PecsRegistry

open Transition Residues

/-- Where a call of `select` stands; `a` is the address of a counter. -/
inductive RoundRobinCall
  | idle
  | looking (call : SelectCall)
  | inserting (call : SelectCall)
  | adding (call : SelectCall) (a : ℕ)
  | returned (answer : Option ServiceInstance)

/-- The call a thread is at, if it needs a turn. -/
def RoundRobinCall.pending : RoundRobinCall → Option SelectCall
  | .looking call | .inserting call | .adding call _ => some call
  | _ => none

/-- What a `fetch_add` has picked: the call it was made for, the index, and the answer. -/
structure Pick where
  call : SelectCall
  index : ℕ
  answer : Option ServiceInstance

/-- The selector, with its counters on the heap, its calls, and the picks so far, in the order of
their `fetch_add`s. -/
structure RoundRobinSystem where
  counters : HashMap String ℕ
  counter : ℕ → ℕ
  next : ℕ
  calls : ℕ → RoundRobinCall
  picks : List Pick

/-- The steps of call `i`: it begins, looks its counter up, inserts it, adds one to it. -/
inductive RoundRobinLabel
  | select (i : ℕ) (call : SelectCall)
  | lookUp (i : ℕ)
  | insert (i : ℕ)
  | fetchAdd (i : ℕ)

namespace RoundRobinSystem

variable {w : ℕ} {s s' : RoundRobinSystem} {l : RoundRobinLabel} {ls : List RoundRobinLabel}
  {serviceName : String} {i a : ℕ} {call : SelectCall}

def new : RoundRobinSystem := ⟨∅, fun _ => 0, 0, fun _ => .idle, []⟩

@[simps]
def setCall (s : RoundRobinSystem) (i : ℕ) (c : RoundRobinCall) : RoundRobinSystem :=
  { s with calls := Function.update s.calls i c }

/-- A service is given a new counter. -/
@[simps]
def enter (s : RoundRobinSystem) (serviceName : String) : RoundRobinSystem :=
  { s with
    counters := s.counters.insert serviceName s.next
    counter := Function.update s.counter s.next 0
    next := s.next + 1 }

/-- What the counter at `a` picks for a call. -/
def pick (s : RoundRobinSystem) (call : SelectCall) (a : ℕ) : Pick :=
  let index := s.counter a % call.2.length
  ⟨call, index, call.2[index]?⟩

/-- The counter at `a`, of `w` bits, is moved on. -/
@[simps]
def fetchAdd (w : ℕ) (s : RoundRobinSystem) (call : SelectCall) (a : ℕ) : RoundRobinSystem :=
  { s with
    counter := Function.update s.counter a ((s.counter a + 1) % 2 ^ w)
    picks := s.picks ++ [s.pick call a] }

/-- One step of a call, where a `usize` has `w` bits. -/
def step (w : ℕ) (s : RoundRobinSystem) : RoundRobinLabel → Option RoundRobinSystem
  | .select i call =>
      match s.calls i, call.2 with
      | .idle, [] => some (s.setCall i (.returned none))
      | .idle, [inst] => some (s.setCall i (.returned (some inst)))
      | .idle, _ => some (s.setCall i (.looking call))
      | _, _ => none
  | .lookUp i =>
      match s.calls i with
      | .looking call =>
          match s.counters.lookup call.1.serviceName with
          | some a => some (s.setCall i (.adding call a))
          | none => some (s.setCall i (.inserting call))
      | _ => none
  | .insert i =>
      match s.calls i with
      | .inserting call =>
          match s.counters.lookup call.1.serviceName with
          | some a => some (s.setCall i (.adding call a))
          | none => some ((s.enter call.1.serviceName).setCall i (.adding call s.next))
      | _ => none
  | .fetchAdd i =>
      match s.calls i with
      | .adding call a =>
          some ((s.fetchAdd w call a).setCall i (.returned (s.pick call a).answer))
      | _ => none

/-- The moves of a call. -/
inductive Move (w : ℕ) (s : RoundRobinSystem) : RoundRobinLabel → RoundRobinSystem → Prop
  | answer {i : ℕ} {call : SelectCall} (answer : Option ServiceInstance) :
      Move w s (.select i call) (s.setCall i (.returned answer))
  | begin {i : ℕ} (call : SelectCall) (spread : 2 ≤ call.2.length) :
      Move w s (.select i call) (s.setCall i (.looking call))
  | found {i a : ℕ} {call : SelectCall} {l : RoundRobinLabel}
      (at_ : (s.calls i).pending = some call)
      (entered : s.counters.lookup call.1.serviceName = some a) :
      Move w s l (s.setCall i (.adding call a))
  | missed {i : ℕ} {call : SelectCall} (at_ : (s.calls i).pending = some call) :
      Move w s (.lookUp i) (s.setCall i (.inserting call))
  | enter {i : ℕ} {call : SelectCall} (at_ : (s.calls i).pending = some call)
      (absent : s.counters.lookup call.1.serviceName = none) :
      Move w s (.insert i) ((s.enter call.1.serviceName).setCall i (.adding call s.next))
  | fetchAdd {i a : ℕ} {call : SelectCall} (at_ : s.calls i = .adding call a) :
      Move w s (.fetchAdd i)
        ((s.fetchAdd w call a).setCall i (.returned (s.pick call a).answer))

theorem move_of_step (h : s.step w l = some s') : Move w s l s' := by
  cases l with
  | select i call =>
    rw [step] at h
    split at h <;> cases h
    case h_1 => exact .answer none
    case h_2 => exact .answer _
    case h_3 hidle hnil hone =>
      have hzero : call.2.length ≠ 0 := fun h => hnil (List.length_eq_zero_iff.mp h)
      have hsingle : call.2.length ≠ 1 := fun h => by
        obtain ⟨inst, hinst⟩ := List.length_eq_one_iff.mp h
        exact hone inst hinst
      exact .begin call (by omega)
  | lookUp i =>
    rw [step] at h
    split at h
    case h_1 call at_ =>
      split at h <;> obtain rfl := Option.some.inj h
      case h_1 a entered => exact .found (by rw [at_]; rfl) entered
      case h_2 => exact .missed (by rw [at_]; rfl)
    case h_2 => cases h
  | insert i =>
    rw [step] at h
    split at h
    case h_1 call at_ =>
      split at h <;> obtain rfl := Option.some.inj h
      case h_1 a entered => exact .found (by rw [at_]; rfl) entered
      case h_2 absent => exact .enter (by rw [at_]; rfl) absent
    case h_2 => cases h
  | fetchAdd i =>
    rw [step] at h
    split at h
    case h_1 call a at_ =>
      obtain rfl := Option.some.inj h
      exact .fetchAdd at_
    case h_2 => cases h

/-! ## One counter for each service -/

/-- The picks for a service. -/
def picksOf (s : RoundRobinSystem) (serviceName : String) : List Pick :=
  s.picks.filter fun p => p.call.1.serviceName = serviceName

/-- **Every counter counts the selections of its service**: a service has no picks before it has a
counter, and then all by this one. -/
structure Counted (w : ℕ) (s : RoundRobinSystem) : Prop where
  fresh : ∀ serviceName a, s.counters.lookup serviceName = some a → a < s.next
  one : ∀ serviceName serviceName' a, s.counters.lookup serviceName = some a →
    s.counters.lookup serviceName' = some a → serviceName = serviceName'
  adding : ∀ i call a, s.calls i = .adding call a → s.counters.lookup call.1.serviceName = some a
  unused : ∀ serviceName, s.counters.lookup serviceName = none → s.picksOf serviceName = []
  counts : ∀ serviceName a, s.counters.lookup serviceName = some a →
    s.counter a = (s.picksOf serviceName).length % 2 ^ w
  picks : ∀ serviceName k p, (s.picksOf serviceName)[k]? = some p →
    p.index = k % 2 ^ w % p.call.2.length ∧ p.answer = p.call.2[p.index]?

theorem counted_new (w : ℕ) : Counted w new := by
  constructor <;> simp [new, picksOf]

/-- A call moves, and nothing else. -/
theorem Counted.setCall (h : Counted w s) {c : RoundRobinCall}
    (hc : ∀ call a, c = .adding call a → s.counters.lookup call.1.serviceName = some a) :
    Counted w (s.setCall i c) := by
  refine { h with adding := fun j call a hj => ?_ }
  rw [setCall_calls, Function.update_apply] at hj
  split_ifs at hj
  · exact hc call a hj
  · exact h.adding j call a hj

theorem Counted.enter (h : Counted w s) (habsent : s.counters.lookup serviceName = none) :
    Counted w (s.enter serviceName) := by
  have hne : ∀ svc a, s.counters.lookup svc = some a → svc ≠ serviceName := by
    rintro svc a ha rfl
    simp [habsent] at ha
  have hlookup : ∀ svc, (s.enter serviceName).counters.lookup svc
      = if svc = serviceName then some s.next else s.counters.lookup svc :=
    fun svc => HashMap.lookup_insert _ _ _ _
  constructor
  case fresh =>
    intro svc a ha
    rw [hlookup] at ha
    split_ifs at ha
    · obtain rfl := Option.some.inj ha
      exact Nat.lt_succ_self _
    · exact Nat.lt_succ_of_lt (h.fresh svc a ha)
  case one =>
    intro svc svc' a ha ha'
    rw [hlookup] at ha ha'
    split_ifs at ha ha' with hsvc hsvc' hsvc'
    · rw [hsvc, hsvc']
    · exact absurd (h.fresh svc' a ha') (by rw [← Option.some.inj ha]; exact lt_irrefl _)
    · exact absurd (h.fresh svc a ha) (by rw [← Option.some.inj ha']; exact lt_irrefl _)
    · exact h.one svc svc' a ha ha'
  case adding =>
    intro j call a hj
    have ha := h.adding j call a hj
    rw [hlookup, if_neg (hne _ a ha), ha]
  case unused =>
    intro svc hsvc
    rw [hlookup] at hsvc
    split_ifs at hsvc
    exact h.unused svc hsvc
  case counts =>
    intro svc a ha
    rw [hlookup] at ha
    split_ifs at ha with hsvc
    · obtain rfl := Option.some.inj ha
      have hunused : (s.enter serviceName).picksOf svc = [] := hsvc ▸ h.unused serviceName habsent
      rw [enter_counter, Function.update_self, hunused, List.length_nil, Nat.zero_mod]
    · rw [enter_counter, Function.update_of_ne (h.fresh svc a ha).ne]
      exact h.counts svc a ha
  case picks => exact h.picks

theorem picksOf_fetchAdd (serviceName : String) : (s.fetchAdd w call a).picksOf serviceName
    = s.picksOf serviceName
      ++ if call.1.serviceName = serviceName then [s.pick call a] else [] := by
  by_cases hsvc : call.1.serviceName = serviceName <;> simp [picksOf, pick, hsvc]

theorem Counted.fetchAdd (h : Counted w s) (hcall : s.counters.lookup call.1.serviceName = some a) :
    Counted w (s.fetchAdd w call a) := by
  constructor <;> simp only [fetchAdd_counters, fetchAdd_counter, fetchAdd_next, fetchAdd_calls,
    picksOf_fetchAdd]
  case fresh => exact h.fresh
  case one => exact h.one
  case adding => exact h.adding
  case unused =>
    intro svc hsvc
    have hne : call.1.serviceName ≠ svc := by
      rintro rfl
      simp [hcall] at hsvc
    rw [h.unused svc hsvc, if_neg hne, List.append_nil]
  case counts =>
    intro svc b hb
    by_cases hsvc : call.1.serviceName = svc
    · subst hsvc
      obtain rfl := Option.some.inj (hcall.symm.trans hb)
      rw [Function.update_self, h.counts _ a hcall, if_pos rfl, List.length_append,
        List.length_singleton, Nat.mod_add_mod]
    · have hne : b ≠ a := fun heq => hsvc (h.one _ _ a hcall (heq ▸ hb))
      rw [Function.update_of_ne hne, if_neg hsvc, List.append_nil, h.counts svc b hb]
  case picks =>
    intro svc k p hp
    by_cases hsvc : call.1.serviceName = svc
    · subst hsvc
      rw [if_pos rfl, List.getElem?_append] at hp
      split_ifs at hp with hk
      · exact h.picks _ k p hp
      · obtain ⟨hk', rfl⟩ : k - (s.picksOf call.1.serviceName).length = 0 ∧ s.pick call a = p := by
          simpa [List.getElem?_singleton] using hp
        obtain rfl : (s.picksOf call.1.serviceName).length = k := by omega
        exact ⟨by rw [← h.counts _ a hcall]; rfl, rfl⟩
    · rw [if_neg hsvc, List.append_nil] at hp
      exact h.picks svc k p hp

/-- **A step keeps the counts.** -/
theorem Counted.step (h : Counted w s) (hstep : s.step w l = some s') : Counted w s' := by
  cases move_of_step hstep with
  | answer answer => exact h.setCall (by simp)
  | begin call spread => exact h.setCall (by simp)
  | found at_ entered => exact h.setCall (by rintro _ _ ⟨⟩; exact entered)
  | missed at_ => exact h.setCall (by simp)
  | enter at_ absent =>
    exact (h.enter absent).setCall (by rintro _ _ ⟨⟩; exact Finmap.lookup_insert _)
  | fetchAdd at_ => exact (h.fetchAdd (h.adding _ _ _ at_)).setCall (by simp)

/-! ## A fixed list -/

/-- The calls for a service, and its picks, are made on a list. -/
structure Fixed (serviceName : String) (list : List ServiceInstance) (s : RoundRobinSystem) :
    Prop where
  calls : ∀ i call, (s.calls i).pending = some call → call.1.serviceName = serviceName →
    call.2 = list
  picks : ∀ p ∈ s.picksOf serviceName, p.call.2 = list

/-- The step begins no call for the service on another list. -/
def KeepsList (serviceName : String) (list : List ServiceInstance) : RoundRobinLabel → Prop
  | .select _ call => call.1.serviceName = serviceName → call.2 = list
  | _ => True

variable {list : List ServiceInstance}

theorem fixed_new (serviceName : String) (list : List ServiceInstance) :
    Fixed serviceName list new := by
  constructor <;> simp [new, picksOf, RoundRobinCall.pending]

theorem Fixed.setCall (h : Fixed serviceName list s) {c : RoundRobinCall}
    (hc : ∀ call, c.pending = some call → call.1.serviceName = serviceName → call.2 = list) :
    Fixed serviceName list (s.setCall i c) := by
  refine ⟨fun j call hj => ?_, h.picks⟩
  rw [setCall_calls, Function.update_apply] at hj
  split_ifs at hj
  · exact hc call hj
  · exact h.calls j call hj

theorem Fixed.step (h : Fixed serviceName list s) (hl : KeepsList serviceName list l)
    (hstep : s.step w l = some s') : Fixed serviceName list s' := by
  cases move_of_step hstep with
  | answer answer => exact h.setCall (by simp [RoundRobinCall.pending])
  | begin call spread => exact h.setCall (by rintro _ ⟨⟩; exact hl)
  | found at_ entered => exact h.setCall (by rintro _ ⟨⟩; exact h.calls _ _ at_)
  | missed at_ => exact h.setCall (by rintro _ ⟨⟩; exact h.calls _ _ at_)
  | @enter i call at_ absent =>
    have hentered : Fixed serviceName list (s.enter call.1.serviceName) := ⟨h.calls, h.picks⟩
    exact hentered.setCall (by rintro _ ⟨⟩; exact h.calls _ _ at_)
  | @fetchAdd i a call at_ =>
    have hadded : Fixed serviceName list (s.fetchAdd w call a) := by
      refine ⟨h.calls, fun p hp => ?_⟩
      rw [picksOf_fetchAdd, List.mem_append] at hp
      rcases hp with hp | hp
      · exact h.picks p hp
      · split_ifs at hp with hsvc
        · obtain rfl := List.mem_singleton.mp hp
          exact h.calls i call (by rw [at_]; rfl) hsvc
        · simp at hp
    exact hadded.setCall (by simp [RoundRobinCall.pending])

/-- **The threads take turns.**  The `k`-th pick for a service is the instance at `k`, cut to a
`usize` and taken modulo the length of its list; and among consecutive picks between which the
counter does not wrap, each instance gets its fair share. -/
theorem picks_fair (hfix : ∀ l ∈ ls, KeepsList serviceName list l)
    (hrun : run (step w) new ls = some s) :
    (∀ k p, (s.picksOf serviceName)[k]? = some p →
        p.index = k % 2 ^ w % list.length ∧ p.answer = list[p.index]?)
      ∧ ∀ a m, a + m ≤ (s.picksOf serviceName).length → a % 2 ^ w + m ≤ 2 ^ w →
        ∀ j < list.length, FairShare list.length m
          ((((s.picksOf serviceName).drop a).take m).countP fun p => p.index = j) := by
  have hcounted : Counted w s :=
    preserved_run (fun _ _ _ h hstep => h.step hstep) (counted_new w) hrun
  have hfixed : Fixed serviceName list s :=
    invariant_run (fun _ _ _ h hl hstep => h.step hl hstep) (fixed_new serviceName list)
      (eachStep_of_forall_mem hfix) hrun
  have hpicks : ∀ k p, (s.picksOf serviceName)[k]? = some p →
      p.index = k % 2 ^ w % list.length ∧ p.answer = list[p.index]? := by
    intro k p hp
    have h := hcounted.picks serviceName k p hp
    rwa [hfixed.picks p (List.mem_of_getElem? hp)] at h
  refine ⟨hpicks, fun a m hlen hwrap j hj => ?_⟩
  have hwindow : (((s.picksOf serviceName).drop a).take m).map (·.index)
      = (List.range m).map fun i => (a % 2 ^ w + i) % list.length := by
    have hlength : (((s.picksOf serviceName).drop a).take m).length = m := by
      rw [List.length_take, List.length_drop]
      omega
    refine List.ext_getElem (by rw [List.length_map, hlength, List.length_map, List.length_range])
      fun i hi hi' => ?_
    rw [List.length_map, hlength] at hi
    have hlt : a + i < (s.picksOf serviceName).length := by omega
    rw [List.getElem_map, List.getElem_map, List.getElem_range, List.getElem_take,
      List.getElem_drop, (hpicks _ _ (List.getElem?_eq_getElem hlt)).1, ← Nat.mod_add_mod,
      Nat.mod_eq_of_lt (by omega : a % 2 ^ w + i < 2 ^ w)]
  have hcount := congrArg (List.countP fun r => r = j) hwindow
  rw [List.countP_map, List.countP_map] at hcount
  exact hcount ▸ count_add_mod (Nat.zero_lt_of_lt hj) hj _ m

/-- Two instances. -/
def pair : List ServiceInstance :=
  [.simple "order-svc" "127.0.0.1" 8080, .simple "order-svc" "127.0.0.2" 8080]

/-- Two threads miss the counter together, and both go on to insert it. -/
def racing : List RoundRobinLabel :=
  [.select 0 (SelectContext.new "order-svc", pair), .select 1 (SelectContext.new "order-svc", pair),
    .lookUp 0, .lookUp 1, .insert 1, .insert 0, .fetchAdd 0, .fetchAdd 1]

/-- `picks_fair` where they do. -/
theorem picks_fair_racing : ∃ s, run (step 64) new racing = some s
    ∧ ∀ j < 2, FairShare 2 2 (((s.picksOf "order-svc").take 2).countP fun p => p.index = j) := by
  obtain ⟨s, hs⟩ : ∃ s, run (step 64) new racing = some s := ⟨_, rfl⟩
  have hfix : ∀ l ∈ racing, KeepsList "order-svc" pair l := by simp [racing, KeepsList]
  refine ⟨s, hs, (picks_fair hfix hs).2 0 2 ?_ (by decide)⟩
  obtain rfl := Option.some.inj hs
  decide

/-! ## One caller instead of many threads -/

/-- The value of the counter of a service, zero if it has none yet. -/
def value (s : RoundRobinSystem) (serviceName : String) : ℕ :=
  ((s.counters.lookup serviceName).map s.counter).getD 0

theorem value_of_lookup (h : s.counters.lookup serviceName = some a) :
    s.value serviceName = s.counter a := by
  rw [value, h, Option.map_some, Option.getD_some]

theorem Counted.value_enter (h : Counted w s) (habsent : s.counters.lookup serviceName = none)
    (serviceName' : String) : (s.enter serviceName).value serviceName' = s.value serviceName' := by
  rw [value, enter_counters, HashMap.lookup_insert, value]
  split_ifs with hname
  · rw [hname, habsent]
    simp
  · cases ha : s.counters.lookup serviceName' with
    | none => rfl
    | some a => simp [(h.fresh _ a ha).ne]

theorem Counted.value_fetchAdd (h : Counted w s)
    (hcall : s.counters.lookup call.1.serviceName = some a) (serviceName : String) :
    (s.fetchAdd w call a).value serviceName = if serviceName = call.1.serviceName
      then (s.counter a + 1) % 2 ^ w else s.value serviceName := by
  rw [value, fetchAdd_counters, value]
  split_ifs with hname
  · rw [hname, hcall]
    simp
  · cases hb : s.counters.lookup serviceName with
    | none => rfl
    | some b =>
      have hne : b ≠ a := fun heq => hname (h.one _ _ a (heq ▸ hb) hcall)
      simp [hne]

/-- What one caller is left with who has made the same selections, and that he has made them. -/
structure Mirrored (s : RoundRobinSystem) (sel : RoundRobinSelector) : Prop where
  served : serve RoundRobinSelector.select .new (s.picks.map (·.call))
    = some (s.picks.map (·.answer), sel)
  value : ∀ serviceName, (sel.getCounter serviceName).toNat = s.value serviceName
  spread : ∀ i call, (s.calls i).pending = some call → 2 ≤ call.2.length

theorem Mirrored.setCall {sel : RoundRobinSelector} (h : Mirrored s sel) {c : RoundRobinCall}
    (hc : ∀ call, c.pending = some call → 2 ≤ call.2.length) : Mirrored (s.setCall i c) sel := by
  refine ⟨h.served, h.value, fun j call hj => ?_⟩
  rw [setCall_calls, Function.update_apply] at hj
  split_ifs at hj
  · exact hc call hj
  · exact h.spread j call hj

theorem Mirrored.fetchAdd {sel : RoundRobinSelector} (h : Mirrored s sel) (hcounted : Counted 64 s)
    (hcall : s.counters.lookup call.1.serviceName = some a) (hspread : 2 ≤ call.2.length) :
    Mirrored (s.fetchAdd 64 call a) (sel.after call.1.serviceName call.2.length) := by
  have hvalue : (sel.getCounter call.1.serviceName).toNat = s.counter a :=
    (h.value _).trans (value_of_lookup hcall)
  refine ⟨?_, fun svc => ?_, h.spread⟩
  · rw [fetchAdd_picks, List.map_append, List.map_append]
    refine serve_concat h.served ?_
    rw [pick, ← hvalue]
    exact sel.select_eq call.1 call.2
  · rw [hcounted.value_fetchAdd hcall, RoundRobinSelector.getCounter_after]
    by_cases hname : svc = call.1.serviceName
    · rw [if_pos ⟨hname, hspread⟩, if_pos hname, UInt64.toNat_add, UInt64.toNat_one, hvalue]
    · rw [if_neg fun hturn => hname hturn.1, if_neg hname, h.value]

theorem Mirrored.step {sel : RoundRobinSelector} (h : Mirrored s sel) (hcounted : Counted 64 s)
    (hstep : s.step 64 l = some s') : ∃ sel', Mirrored s' sel' := by
  cases move_of_step hstep with
  | answer answer => exact ⟨sel, h.setCall (by simp [RoundRobinCall.pending])⟩
  | begin call spread => exact ⟨sel, h.setCall (by rintro _ ⟨⟩; exact spread)⟩
  | found at_ entered => exact ⟨sel, h.setCall (by rintro _ ⟨⟩; exact h.spread _ _ at_)⟩
  | missed at_ => exact ⟨sel, h.setCall (by rintro _ ⟨⟩; exact h.spread _ _ at_)⟩
  | @enter i call at_ absent =>
    have hentered : Mirrored (s.enter call.1.serviceName) sel :=
      ⟨h.served, fun svc => (h.value svc).trans (hcounted.value_enter absent svc).symm, h.spread⟩
    exact ⟨sel, hentered.setCall (by rintro _ ⟨⟩; exact h.spread _ _ at_)⟩
  | @fetchAdd i a call at_ =>
    have hspread : 2 ≤ call.2.length := h.spread i call (by rw [at_]; rfl)
    exact ⟨_, (h.fetchAdd hcounted (hcounted.adding i call a at_) hspread).setCall
      (by simp [RoundRobinCall.pending])⟩

theorem mirrored_new : Mirrored new .new := by
  refine ⟨rfl, fun _ => rfl, fun _ _ h => ?_⟩
  simp [new, RoundRobinCall.pending] at h

/-- **The threads select like one caller**, in the order of their `fetch_add`s. -/
theorem linearizable (hrun : run (step 64) new ls = some s) :
    ∃ sel, serve RoundRobinSelector.select .new (s.picks.map (·.call))
      = some (s.picks.map (·.answer), sel) := by
  obtain ⟨-, sel, hsel⟩ := preserved_run (I := fun s => Counted 64 s ∧ ∃ sel, Mirrored s sel)
    (fun _ _ _ ⟨hcounted, _, hsel⟩ hstep => ⟨hcounted.step hstep, hsel.step hcounted hstep⟩)
    ⟨counted_new 64, .new, mirrored_new⟩ hrun
  exact ⟨sel, hsel.served⟩

end RoundRobinSystem

end PecsRegistry
