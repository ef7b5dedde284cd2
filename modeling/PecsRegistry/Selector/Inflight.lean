import PecsRegistry.Foundations.Numeric
import PecsRegistry.Machinery.Census
import PecsRegistry.Machinery.Transition
import PecsRegistry.Selector.P2C

/-!
# Selector/Inflight — the in-flight counters, under any number of threads

The map of a `P2CSelector` leads from an id to a shared counter: a guard keeps the counter, adds one
to it when it is taken, and subtracts one when it is dropped.  A counter is looked up under the read
lock and, when it is not there, inserted under the write lock, so several threads may miss together.
Still every counter equals the number of its live guards, in every run: `inflight_exact`.
-/

namespace PecsRegistry

open Census Transition

/-- Where a call of the selector stands.  `withGuard` is `select_with_guard`; `a` is the address of
a counter. -/
inductive P2CCall
  | idle
  | drawing (withGuard : Bool) (instances : List ServiceInstance)
  | scoring (withGuard : Bool) (inst1 inst2 : ServiceInstance)
  | comparing (withGuard : Bool) (score1 : ℚ) (inst1 inst2 : ServiceInstance)
  | looking (serviceId : String)
  | inserting (serviceId : String)
  | adding (serviceId : String) (a : ℕ)
  | guarding (serviceId : String) (a : ℕ)
  | finished

/-- A selection returns, and `select_with_guard` goes on to `acquire`. -/
def P2CCall.answered : Bool → Option ServiceInstance → P2CCall
  | true, some inst => .looking inst.serviceId
  | _, _ => .finished

/-- The guard of the call is live, and is for the id. -/
def P2CCall.Guards (serviceId : String) (c : P2CCall) : Prop := ∃ a, c = .guarding serviceId a

/-- The call keeps the counter at `a`, which it got for the id. -/
def P2CCall.Keeps (serviceId : String) (a : ℕ) (c : P2CCall) : Prop :=
  c = .adding serviceId a ∨ c = .guarding serviceId a

/-- The call keeps no counter. -/
def P2CCall.Free : P2CCall → Prop
  | .adding _ _ | .guarding _ _ => False
  | _ => True

theorem P2CCall.Free.not_keeps {c : P2CCall} (h : c.Free) (serviceId : String) (a : ℕ) :
    ¬ c.Keeps serviceId a := by
  rintro (rfl | rfl) <;> exact h

theorem P2CCall.Free.not_guards {c : P2CCall} (h : c.Free) (serviceId : String) :
    ¬ c.Guards serviceId :=
  fun ⟨a, ha⟩ => h.not_keeps serviceId a (Or.inr ha)

theorem P2CCall.keeps_adding {serviceId serviceId' : String} {a b : ℕ} :
    (adding serviceId a).Keeps serviceId' b ↔ serviceId' = serviceId ∧ b = a := by
  simp [Keeps, eq_comm]

theorem P2CCall.keeps_guarding {serviceId serviceId' : String} {a b : ℕ} :
    (guarding serviceId a).Keeps serviceId' b ↔ serviceId' = serviceId ∧ b = a := by
  simp [Keeps, eq_comm]

theorem P2CCall.free_answered (withGuard : Bool) (r : Option ServiceInstance) :
    (answered withGuard r).Free := by
  cases withGuard <;> cases r <;> trivial

/-- The selector, with its counters on the heap (their values, and how many share each), and its
calls: where each stands, and what it has selected. -/
structure P2CSystem where
  inflight : HashMap String ℕ
  counter : ℕ → UInt64
  strong : ℕ → ℕ
  next : ℕ
  seedCounter : UInt64
  calls : ℕ → P2CCall
  selected : ℕ → Option (Option ServiceInstance)

/-- The steps of call `i`: it begins, as an `acquire` or as a selection; draws two instances from a
seed (the clock, plus the sequence number); scores the first, or the second; looks its counter up;
inserts it; takes the guard; drops it. -/
inductive P2CLabel
  | acquire (i : ℕ) (serviceId : String)
  | select (i : ℕ) (withGuard : Bool) (instances : List ServiceInstance)
  | draw (i : ℕ) (seed : UInt64)
  | score (i : ℕ)
  | lookUp (i : ℕ)
  | insert (i : ℕ)
  | fetchAdd (i : ℕ)
  | drop (i : ℕ)

/-- The call that takes the step. -/
def P2CLabel.call : P2CLabel → ℕ
  | .acquire i _ | .select i _ _ | .draw i _ | .score i | .lookUp i | .insert i | .fetchAdd i
  | .drop i => i

namespace P2CSystem

variable {s s' t : P2CSystem} {l : P2CLabel} {w : List P2CLabel} {serviceId : String} {a i : ℕ}
  {c : P2CCall}

/-- A new selector. -/
def new : P2CSystem := ⟨∅, fun _ => 0, fun _ => 0, 0, 0, fun _ => .idle, fun _ => none⟩

@[simps]
def setCall (s : P2CSystem) (i : ℕ) (c : P2CCall) : P2CSystem :=
  { s with calls := Function.update s.calls i c }

/-- The requests in flight for an id, as a selection reads them. -/
def load (s : P2CSystem) (serviceId : String) : UInt64 :=
  ((s.inflight.lookup serviceId).map s.counter).getD 0

def computeLoadScore (s : P2CSystem) (inst : ServiceInstance) : ℚ :=
  ((s.load inst.serviceId).toNat + 1) / max inst.weight (1 / 10)

def answer (s : P2CSystem) (i : ℕ) (withGuard : Bool) (r : Option ServiceInstance) : P2CSystem :=
  { s with selected := Function.update s.selected i (some r) }.setCall i (.answered withGuard r)

@[simp] theorem answer_selected (s : P2CSystem) (i : ℕ) (withGuard : Bool)
    (r : Option ServiceInstance) :
    (s.answer i withGuard r).selected = Function.update s.selected i (some r) := rfl

/-- A counter is shared with one more call; too many shares abort the process. -/
def share (s : P2CSystem) (i : ℕ) (serviceId : String) (a : ℕ) : Option P2CSystem :=
  if s.strong a ≤ isizeMax then
    some ({ s with strong := Function.update s.strong a (s.strong a + 1) }.setCall i
      (.adding serviceId a))
  else none

/-- A new counter, shared by the map and the call. -/
def create (s : P2CSystem) (i : ℕ) (serviceId : String) : P2CSystem :=
  { s with
    inflight := s.inflight.insert serviceId s.next
    counter := Function.update s.counter s.next 0
    strong := Function.update s.strong s.next 2
    next := s.next + 1 }.setCall i (.adding serviceId s.next)

/-- A selection without instances, or with one, returns at once; of two it scores both, and of more
it draws two. -/
def beginSelect (s : P2CSystem) (i : ℕ) (withGuard : Bool) : List ServiceInstance → P2CSystem
  | [] => s.answer i withGuard none
  | [inst] => s.answer i withGuard (some inst)
  | [inst1, inst2] => s.setCall i (.scoring withGuard inst1 inst2)
  | instances => s.setCall i (.drawing withGuard instances)

/-- One step of the calls. -/
def step (s : P2CSystem) : P2CLabel → Option P2CSystem
  | .acquire i serviceId =>
      match s.calls i with
      | .idle => some (s.setCall i (.looking serviceId))
      | _ => none
  | .select i withGuard instances =>
      match s.calls i with
      | .idle => some (s.beginSelect i withGuard instances)
      | _ => none
  | .draw i seed =>
      match s.calls i with
      | .drawing withGuard instances => do
          let (idx1, idx2) := P2CSelector.indices seed instances.length
          let inst1 ← instances[idx1]?
          let inst2 ← instances[idx2]?
          some ({ s with seedCounter := s.seedCounter + 1 }.setCall i
            (.scoring withGuard inst1 inst2))
      | _ => none
  | .score i =>
      match s.calls i with
      | .scoring withGuard inst1 inst2 =>
          some (s.setCall i (.comparing withGuard (s.computeLoadScore inst1) inst1 inst2))
      | .comparing withGuard score1 inst1 inst2 =>
          some (s.answer i withGuard
            (some (if score1 ≤ s.computeLoadScore inst2 then inst1 else inst2)))
      | _ => none
  | .lookUp i =>
      match s.calls i with
      | .looking serviceId =>
          match s.inflight.lookup serviceId with
          | some a => s.share i serviceId a
          | none => some (s.setCall i (.inserting serviceId))
      | _ => none
  | .insert i =>
      match s.calls i with
      | .inserting serviceId =>
          match s.inflight.lookup serviceId with
          | some a => s.share i serviceId a
          | none => some (s.create i serviceId)
      | _ => none
  | .fetchAdd i =>
      match s.calls i with
      | .adding serviceId a =>
          some ({ s with counter := Function.update s.counter a (s.counter a + 1) }.setCall i
            (.guarding serviceId a))
      | _ => none
  | .drop i =>
      match s.calls i with
      | .guarding _ a =>
          some ({ s with
            counter := Function.update s.counter a (s.counter a - 1)
            strong := Function.update s.strong a (s.strong a - 1) }.setCall i .finished)
      | _ => none

/-! ## What a step does to the counters -/

/-- The effect of a step of call `i`: nothing for the counters, or a share, a new counter, an
addition, or a subtraction. -/
inductive Effect (s : P2CSystem) (i : ℕ) : P2CSystem → Prop
  | quiet (c : P2CCall) (selected : ℕ → Option (Option ServiceInstance)) (seedCounter : UInt64)
      (before : (s.calls i).Free) (after : c.Free)
      (others : ∀ j ≠ i, selected j = s.selected j) :
      Effect s i ({ s with selected := selected, seedCounter := seedCounter }.setCall i c)
  | share (serviceId : String) (a : ℕ) (before : (s.calls i).Free)
      (found : s.inflight.lookup serviceId = some a) (room : s.strong a ≤ isizeMax) :
      Effect s i ({ s with strong := Function.update s.strong a (s.strong a + 1) }.setCall i
        (.adding serviceId a))
  | create (serviceId : String) (before : (s.calls i).Free)
      (missed : s.inflight.lookup serviceId = none) : Effect s i (s.create i serviceId)
  | fetchAdd (serviceId : String) (a : ℕ) (before : s.calls i = .adding serviceId a) :
      Effect s i ({ s with counter := Function.update s.counter a (s.counter a + 1) }.setCall i
        (.guarding serviceId a))
  | drop (serviceId : String) (a : ℕ) (before : s.calls i = .guarding serviceId a) :
      Effect s i ({ s with
        counter := Function.update s.counter a (s.counter a - 1)
        strong := Function.update s.strong a (s.strong a - 1) }.setCall i .finished)

theorem effect_of_quiet {c₀ : P2CCall} {selected : ℕ → Option (Option ServiceInstance)}
    {seedCounter : UInt64} (hi : s.calls i = c₀) (before : c₀.Free)
    (h : some ({ s with selected := selected, seedCounter := seedCounter }.setCall i c) = some s')
    (after : c.Free) (others : ∀ j ≠ i, selected j = s.selected j) : Effect s i s' := by
  obtain rfl := Option.some.inj h
  exact .quiet c selected seedCounter (hi.symm ▸ before) after others

theorem effect_of_share {c₀ : P2CCall} (hi : s.calls i = c₀) (before : c₀.Free)
    (found : s.inflight.lookup serviceId = some a) (h : s.share i serviceId a = some s') :
    Effect s i s' := by
  rw [share] at h
  split_ifs at h with room
  obtain rfl := Option.some.inj h
  exact .share serviceId a (hi.symm ▸ before) found room

theorem effect_of_beginSelect {withGuard : Bool} {instances : List ServiceInstance}
    (hi : s.calls i = .idle) (hstep : some (s.beginSelect i withGuard instances) = some s') :
    Effect s i s' := by
  rcases instances with _ | ⟨inst1, _ | ⟨inst2, _ | ⟨inst3, rest⟩⟩⟩
  · exact effect_of_quiet hi trivial hstep (P2CCall.free_answered _ _)
      fun _ hj => Function.update_of_ne hj _ _
  · exact effect_of_quiet hi trivial hstep (P2CCall.free_answered _ _)
      fun _ hj => Function.update_of_ne hj _ _
  · exact effect_of_quiet hi trivial hstep trivial fun _ _ => rfl
  · exact effect_of_quiet hi trivial hstep trivial fun _ _ => rfl

theorem effect_of_step (hstep : s.step l = some s') : Effect s l.call s' := by
  revert hstep
  fun_cases P2CSystem.step s l <;> intro hstep
  case case1 i serviceId hi =>
    exact effect_of_quiet hi trivial hstep trivial fun _ _ => rfl
  case case3 i withGuard instances hi => exact effect_of_beginSelect hi hstep
  case case5 i seed withGuard instances hi idx1 idx2 _ =>
    obtain ⟨inst1, -, hstep⟩ := Option.bind_eq_some_iff.mp hstep
    obtain ⟨inst2, -, hstep⟩ := Option.bind_eq_some_iff.mp hstep
    exact effect_of_quiet hi trivial hstep trivial fun _ _ => rfl
  case case7 i withGuard inst1 inst2 hi =>
    exact effect_of_quiet hi trivial hstep trivial fun _ _ => rfl
  case case8 i withGuard score1 inst1 inst2 hi =>
    exact effect_of_quiet hi trivial hstep (P2CCall.free_answered _ _)
      fun _ hj => Function.update_of_ne hj _ _
  case case10 i serviceId hi a found => exact effect_of_share hi trivial found hstep
  case case11 i serviceId hi _ =>
    exact effect_of_quiet hi trivial hstep trivial fun _ _ => rfl
  case case13 i serviceId hi a found => exact effect_of_share hi trivial found hstep
  case case14 i serviceId hi missed =>
    obtain rfl := Option.some.inj hstep
    exact .create serviceId (show (s.calls i).Free from hi.symm ▸ trivial) missed
  case case16 i serviceId a hi =>
    obtain rfl := Option.some.inj hstep
    exact .fetchAdd serviceId a hi
  case case18 i serviceId a hi =>
    obtain rfl := Option.some.inj hstep
    exact .drop serviceId a hi
  all_goals cases hstep

/-! ## Counting -/

/-- The live guards for an id. -/
def guards (s : P2CSystem) (serviceId : String) : Set ℕ :=
  census s.calls fun _ c => c.Guards serviceId

/-- The calls that keep the counter of an id. -/
def keepers (s : P2CSystem) (serviceId : String) : Set ℕ :=
  census s.calls fun _ c => ∃ a, c.Keeps serviceId a

/-- The counter of each id is its own, as is the count of its shares; a call keeps the counter of
its id; the counter equals the number of live guards, and its shares are the map's and those of the
calls. -/
structure Counted (s : P2CSystem) : Prop where
  allotted : ∀ serviceId a, s.inflight.lookup serviceId = some a → a < s.next
  own : ∀ serviceId serviceId' a, s.inflight.lookup serviceId = some a →
    s.inflight.lookup serviceId' = some a → serviceId = serviceId'
  kept : ∀ i serviceId a, (s.calls i).Keeps serviceId a → s.inflight.lookup serviceId = some a
  count : ∀ serviceId a, s.inflight.lookup serviceId = some a →
    (s.guards serviceId).encard = (s.counter a).toNat
  shares : ∀ serviceId a, s.inflight.lookup serviceId = some a →
    (s.keepers serviceId).encard + 1 = s.strong a
  room : ∀ serviceId a, s.inflight.lookup serviceId = some a → (s.strong a : ℤ) ≤ isizeMax + 1

theorem keeps_of_calls {j : ℕ} (hcalls : s'.calls = Function.update s.calls i c)
    (h : (s'.calls j).Keeps serviceId a) : c.Keeps serviceId a ∨ (s.calls j).Keeps serviceId a := by
  rw [hcalls, Function.update_apply] at h
  split_ifs at h
  · exact Or.inl h
  · exact Or.inr h

theorem guards_stay (hcalls : s'.calls = Function.update s.calls i c)
    (before : ∀ a, ¬ (s.calls i).Keeps serviceId a) (after : ∀ a, ¬ c.Keeps serviceId a) :
    s'.guards serviceId = s.guards serviceId := by
  rw [guards, hcalls]
  exact census_stay (iff_of_false (fun ⟨a, ha⟩ => after a (Or.inr ha))
    fun ⟨a, ha⟩ => before a (Or.inr ha))

theorem keepers_stay (hcalls : s'.calls = Function.update s.calls i c)
    (before : ∀ a, ¬ (s.calls i).Keeps serviceId a) (after : ∀ a, ¬ c.Keeps serviceId a) :
    s'.keepers serviceId = s.keepers serviceId := by
  rw [keepers, hcalls]
  exact census_stay (iff_of_false (fun ⟨a, ha⟩ => after a ha) fun ⟨a, ha⟩ => before a ha)

/-- A step of a call that keeps no counter before it, and none after it. -/
theorem Counted.quiet (h : s.Counted) (hinflight : s'.inflight = s.inflight)
    (hcounter : s'.counter = s.counter) (hstrong : s'.strong = s.strong) (hnext : s'.next = s.next)
    (hcalls : s'.calls = Function.update s.calls i c) (before : (s.calls i).Free) (after : c.Free) :
    s'.Counted := by
  refine ⟨?_, ?_, fun j serviceId a hj => ?_, fun serviceId a ha => ?_,
    fun serviceId a ha => ?_, ?_⟩
  · rw [hinflight, hnext]
    exact h.allotted
  · rw [hinflight]
    exact h.own
  · rw [hinflight]
    exact h.kept j serviceId a
      ((keeps_of_calls hcalls hj).resolve_left (after.not_keeps serviceId a))
  · rw [guards_stay hcalls (before.not_keeps serviceId) (after.not_keeps serviceId), hcounter]
    exact h.count serviceId a (hinflight ▸ ha)
  · rw [keepers_stay hcalls (before.not_keeps serviceId) (after.not_keeps serviceId), hstrong]
    exact h.shares serviceId a (hinflight ▸ ha)
  · rw [hinflight, hstrong]
    exact h.room

/-- A step of a call that touches the counter `a` of one id only: the other ids count as before. -/
theorem Counted.touch (h : s.Counted) (hself : s'.inflight.lookup serviceId = some a)
    (hlt : a < s'.next) (hle : s.next ≤ s'.next)
    (hold : ∀ b, s.inflight.lookup serviceId = some b → b = a)
    (hother : ∀ serviceId', serviceId' ≠ serviceId →
      s'.inflight.lookup serviceId' = s.inflight.lookup serviceId'
        ∧ s.inflight.lookup serviceId' ≠ some a)
    {v : UInt64} {n : ℕ} (hcounter : s'.counter = Function.update s.counter a v)
    (hstrong : s'.strong = Function.update s.strong a n)
    (hcalls : s'.calls = Function.update s.calls i c)
    (before : ∀ serviceId' b, (s.calls i).Keeps serviceId' b → serviceId' = serviceId)
    (after : ∀ serviceId' b, c.Keeps serviceId' b → serviceId' = serviceId ∧ b = a)
    (count : (census (Function.update s.calls i c) fun _ c => c.Guards serviceId).encard = v.toNat)
    (shares : (census (Function.update s.calls i c) fun _ c => ∃ a, c.Keeps serviceId a).encard + 1
      = n)
    (room : (n : ℤ) ≤ isizeMax + 1) : s'.Counted := by
  have hcases : ∀ serviceId' b, s'.inflight.lookup serviceId' = some b →
      (serviceId' = serviceId ∧ b = a) ∨ (serviceId' ≠ serviceId ∧ b ≠ a
        ∧ s.inflight.lookup serviceId' = some b) := by
    intro serviceId' b hb
    rcases eq_or_ne serviceId' serviceId with rfl | hne
    · exact Or.inl ⟨rfl, Option.some.inj (hb.symm.trans hself)⟩
    · obtain ⟨heq, hnot⟩ := hother serviceId' hne
      rw [heq] at hb
      exact Or.inr ⟨hne, fun hba => hnot (hba ▸ hb), hb⟩
  refine ⟨fun serviceId' b hb => ?_, fun id₁ id₂ b hb₁ hb₂ => ?_, fun j serviceId' b hj => ?_,
    fun serviceId' b hb => ?_, fun serviceId' b hb => ?_, fun serviceId' b hb => ?_⟩
  · rcases hcases serviceId' b hb with ⟨-, rfl⟩ | ⟨-, -, hb⟩
    · exact hlt
    · exact (h.allotted serviceId' b hb).trans_le hle
  · rcases hcases id₁ b hb₁ with ⟨rfl, rfl⟩ | ⟨-, hba, hb₁⟩
    · rcases hcases id₂ b hb₂ with ⟨rfl, -⟩ | ⟨-, hba, -⟩
      · rfl
      · exact absurd rfl hba
    · rcases hcases id₂ b hb₂ with ⟨-, rfl⟩ | ⟨-, -, hb₂⟩
      · exact absurd rfl hba
      · exact h.own id₁ id₂ b hb₁ hb₂
  · rcases keeps_of_calls hcalls hj with hc | hj
    · obtain ⟨rfl, rfl⟩ := after serviceId' b hc
      exact hself
    · have hb := h.kept j serviceId' b hj
      rcases eq_or_ne serviceId' serviceId with rfl | hne
      · exact hold b hb ▸ hself
      · exact (hother serviceId' hne).1.trans hb
  · rcases hcases serviceId' b hb with ⟨rfl, rfl⟩ | ⟨hne, hba, hb⟩
    · rw [guards, hcalls, hcounter, Function.update_self]
      exact count
    · rw [guards_stay hcalls (fun b hb => hne (before serviceId' b hb))
        (fun b hb => hne (after serviceId' b hb).1), hcounter, Function.update_of_ne hba]
      exact h.count serviceId' b hb
  · rcases hcases serviceId' b hb with ⟨rfl, rfl⟩ | ⟨hne, hba, hb⟩
    · rw [keepers, hcalls, hstrong, Function.update_self]
      exact shares
    · rw [keepers_stay hcalls (fun b hb => hne (before serviceId' b hb))
        (fun b hb => hne (after serviceId' b hb).1), hstrong, Function.update_of_ne hba]
      exact h.shares serviceId' b hb
  · rcases hcases serviceId' b hb with ⟨rfl, rfl⟩ | ⟨-, hba, hb⟩
    · rw [hstrong, Function.update_self]
      exact room
    · rw [hstrong, Function.update_of_ne hba]
      exact h.room serviceId' b hb

/-- The step touches a counter that is in the map. -/
theorem Counted.touch_found (h : s.Counted) (found : s.inflight.lookup serviceId = some a)
    (hinflight : s'.inflight = s.inflight) (hnext : s'.next = s.next)
    {v : UInt64} {n : ℕ} (hcounter : s'.counter = Function.update s.counter a v)
    (hstrong : s'.strong = Function.update s.strong a n)
    (hcalls : s'.calls = Function.update s.calls i c)
    (before : ∀ serviceId' b, (s.calls i).Keeps serviceId' b → serviceId' = serviceId)
    (after : ∀ serviceId' b, c.Keeps serviceId' b → serviceId' = serviceId ∧ b = a)
    (count : (census (Function.update s.calls i c) fun _ c => c.Guards serviceId).encard = v.toNat)
    (shares : (census (Function.update s.calls i c) fun _ c => ∃ a, c.Keeps serviceId a).encard + 1
      = n)
    (room : (n : ℤ) ≤ isizeMax + 1) : s'.Counted := by
  refine h.touch (hinflight.symm ▸ found) (hnext.symm ▸ h.allotted serviceId a found) hnext.ge
    (fun b hb => Option.some.inj (hb.symm.trans found)) (fun serviceId' hne => ⟨by rw [hinflight],
      fun hb => hne (h.own serviceId' serviceId a hb found)⟩)
    hcounter hstrong hcalls before after count shares room

theorem Counted.share (h : s.Counted) (before : (s.calls i).Free)
    (found : s.inflight.lookup serviceId = some a) (room : (s.strong a : ℤ) ≤ isizeMax) :
    ({ s with strong := Function.update s.strong a (s.strong a + 1) }.setCall i
      (.adding serviceId a)).Counted := by
  refine h.touch_found found rfl rfl (Function.update_eq_self a s.counter).symm rfl rfl
    (fun _ b hb => absurd hb (before.not_keeps _ b)) (fun _ _ => P2CCall.keeps_adding.mp) ?_ ?_ ?_
  · rw [census_stay (iff_of_false (fun ⟨b, hb⟩ => by cases hb)
      fun ⟨b, hb⟩ => before.not_keeps serviceId b (Or.inr hb))]
    exact h.count serviceId a found
  · rw [census_enter (fun ⟨b, hb⟩ => before.not_keeps serviceId b hb) ⟨a, Or.inl rfl⟩, Nat.cast_add,
      ← h.shares serviceId a found]
    rfl
  · push_cast
    exact Int.add_le_add_right room 1

theorem Counted.create (h : s.Counted) (before : (s.calls i).Free)
    (missed : s.inflight.lookup serviceId = none) : (s.create i serviceId).Counted := by
  have hnone : ∀ j b, ¬ (s.calls j).Keeps serviceId b := fun j b hj => by
    cases missed.symm.trans (h.kept j serviceId b hj)
  have hkeepers : (census s.calls fun _ c => ∃ a, c.Keeps serviceId a) = ∅ :=
    Set.eq_empty_of_forall_notMem fun j ⟨b, hj⟩ => hnone j b hj
  have hguards : (census s.calls fun _ c => c.Guards serviceId) = ∅ :=
    Set.eq_empty_of_forall_notMem fun j ⟨b, hj⟩ => hnone j b (Or.inr hj)
  refine h.touch (Finmap.lookup_insert _) (Nat.lt_succ_self _) (Nat.le_succ _)
    (fun b hb => by cases missed.symm.trans hb)
    (fun serviceId' hne => ⟨Finmap.lookup_insert_of_ne _ hne,
      fun hb => absurd (h.allotted serviceId' s.next hb) (Nat.lt_irrefl _)⟩) rfl rfl rfl
    (fun _ b hb => absurd hb (before.not_keeps _ b)) (fun _ _ => P2CCall.keeps_adding.mp) ?_ ?_ ?_
  · rw [census_stay (iff_of_false (fun ⟨b, hb⟩ => by cases hb)
      fun ⟨b, hb⟩ => hnone i b (Or.inr hb)), hguards, Set.encard_empty]
    rfl
  · rw [census_enter (fun ⟨b, hb⟩ => hnone i b hb) ⟨s.next, Or.inl rfl⟩, hkeepers, Set.encard_empty]
    rfl
  · decide

/-- A call that is about to add to a counter is one of its keepers, and no guard. -/
theorem Counted.toNat_lt (h : s.Counted) (hi : s.calls i = .adding serviceId a) :
    (s.counter a).toNat + 2 ≤ s.strong a := by
  have found := h.kept i serviceId a (Or.inl hi)
  have hsubset : insert i (s.guards serviceId) ⊆ s.keepers serviceId := by
    refine Set.insert_subset ⟨a, Or.inl hi⟩ fun j hj => ?_
    obtain ⟨b, hj⟩ := hj
    exact ⟨b, Or.inr hj⟩
  have hnot : i ∉ s.guards serviceId := by
    rintro ⟨b, hb⟩
    cases hi.symm.trans hb
  have hle := Set.encard_le_encard hsubset
  rw [Set.encard_insert_of_notMem hnot, h.count serviceId a found] at hle
  have hshares := h.shares serviceId a found
  have : ((s.counter a).toNat + 1 + 1 : ℕ∞) ≤ s.strong a := hshares ▸ add_le_add_left hle 1
  exact_mod_cast this

theorem Counted.fetchAdd (h : s.Counted) (hi : s.calls i = .adding serviceId a) :
    ({ s with counter := Function.update s.counter a (s.counter a + 1) }.setCall i
      (.guarding serviceId a)).Counted := by
  have found := h.kept i serviceId a (Or.inl hi)
  have hroom := h.room serviceId a found
  have hlt := h.toNat_lt hi
  have hadd : (s.counter a + 1).toNat = (s.counter a).toNat + 1 := by
    rw [UInt64.toNat_add]
    refine Nat.mod_eq_of_lt ?_
    simp only [isizeMax] at hroom
    have hone : (1 : UInt64).toNat = 1 := rfl
    omega
  refine h.touch_found found rfl rfl rfl (Function.update_eq_self a s.strong).symm rfl
    (fun _ b hb => (P2CCall.keeps_adding.mp (hi ▸ hb)).1) (fun _ _ => P2CCall.keeps_guarding.mp)
    ?_ ?_ hroom
  · have hadding : ¬ (s.calls i).Guards serviceId := by
      rw [hi]
      rintro ⟨b, hb⟩
      cases hb
    rw [census_enter hadding ⟨a, rfl⟩, hadd, Nat.cast_add, ← h.count serviceId a found]
    rfl
  · rw [census_stay (iff_of_true ⟨a, Or.inr rfl⟩ ⟨a, Or.inl hi⟩)]
    exact h.shares serviceId a found

theorem Counted.drop (h : s.Counted) (hi : s.calls i = .guarding serviceId a) :
    ({ s with
      counter := Function.update s.counter a (s.counter a - 1)
      strong := Function.update s.strong a (s.strong a - 1) }.setCall i .finished).Counted := by
  have found := h.kept i serviceId a (Or.inr hi)
  have hguards := census_leave (P := fun _ c => c.Guards serviceId) (f := s.calls) (c := .finished)
    ⟨a, hi⟩ (by rintro ⟨b, hb⟩; cases hb)
  have hkeepers := census_leave (P := fun _ c => ∃ a, c.Keeps serviceId a) (f := s.calls)
    (c := .finished) ⟨a, Or.inr hi⟩ (by rintro ⟨b, hb | hb⟩ <;> cases hb)
  obtain ⟨hpos, hcount⟩ := eq_pred_of_add_one (hguards.trans (h.count serviceId a found))
  have hsub : (s.counter a - 1).toNat = (s.counter a).toNat - 1 :=
    UInt64.toNat_sub_of_le _ _ (UInt64.le_iff_toNat_le.mpr hpos)
  have hshares : (census s.calls fun _ c => ∃ a, c.Keeps serviceId a).encard + 1 = s.strong a :=
    h.shares serviceId a found
  rw [← hkeepers] at hshares
  refine h.touch_found found rfl rfl rfl rfl rfl
    (fun _ b hb => (P2CCall.keeps_guarding.mp (hi ▸ hb)).1)
    (fun _ b hb => by rcases hb with hb | hb <;> cases hb) ?_ (eq_pred_of_add_one hshares).2 ?_
  · rw [hcount, hsub]
  · have := h.room serviceId a found
    omega

theorem Counted.step (h : s.Counted) (hstep : s.step l = some s') : s'.Counted := by
  cases effect_of_step hstep with
  | quiet c selected seedCounter before after _ => exact h.quiet rfl rfl rfl rfl rfl before after
  | share serviceId a before found room => exact h.share before found room
  | create serviceId before missed => exact h.create before missed
  | fetchAdd serviceId a before => exact h.fetchAdd before
  | drop serviceId a before => exact h.drop before

theorem counted_new : new.Counted := by
  refine ⟨fun serviceId a ha => ?_, fun serviceId _ a ha => ?_, fun i serviceId a hi => ?_,
    fun serviceId a ha => ?_, fun serviceId a ha => ?_, fun serviceId a ha => ?_⟩
  · cases (Finmap.lookup_empty serviceId).symm.trans ha
  · cases (Finmap.lookup_empty serviceId).symm.trans ha
  · rcases hi with hi | hi <;> cases hi
  · cases (Finmap.lookup_empty serviceId).symm.trans ha
  · cases (Finmap.lookup_empty serviceId).symm.trans ha
  · cases (Finmap.lookup_empty serviceId).symm.trans ha

/-- What a selection reads is the number of live guards, also where there is no counter yet. -/
theorem Counted.encard_guards (h : s.Counted) (serviceId : String) :
    (s.guards serviceId).encard = (s.load serviceId).toNat := by
  rcases hfound : s.inflight.lookup serviceId with _ | a
  · have hempty : s.guards serviceId = ∅ := by
      refine Set.eq_empty_of_forall_notMem fun j hj => ?_
      obtain ⟨b, hj⟩ := hj
      cases hfound.symm.trans (h.kept j serviceId b (Or.inr hj))
    rw [hempty, Set.encard_empty, load, hfound]
    rfl
  · rw [load, hfound]
    exact h.count serviceId a hfound

/-- The counters are exact: each equals the number of live guards of its id, which all keep it; so
a guard never subtracts from zero, and without guards the counter is zero. -/
structure Exact (s : P2CSystem) : Prop where
  counter_eq : ∀ serviceId a, s.inflight.lookup serviceId = some a →
    (s.guards serviceId).encard = (s.counter a).toNat
  shared : ∀ i serviceId a, s.calls i = .guarding serviceId a →
    s.inflight.lookup serviceId = some a
  positive : ∀ i serviceId a, s.calls i = .guarding serviceId a → 0 < (s.counter a).toNat
  zero : ∀ serviceId a, s.guards serviceId = ∅ → s.inflight.lookup serviceId = some a →
    s.counter a = 0

theorem Counted.exact (h : s.Counted) : s.Exact := by
  refine ⟨h.count, fun i serviceId a hi => h.kept i serviceId a (Or.inr hi),
    fun i serviceId a hi => ?_, fun serviceId a hempty ha => ?_⟩
  · have hcount := h.count serviceId a (h.kept i serviceId a (Or.inr hi))
    refine Nat.pos_of_ne_zero fun hzero => ?_
    rw [hzero, Nat.cast_zero, Set.encard_eq_zero] at hcount
    exact (Set.mem_empty_iff_false i).mp (hcount ▸ ⟨a, hi⟩)
  · have hcount := h.count serviceId a ha
    rw [hempty, Set.encard_empty] at hcount
    exact UInt64.toNat_inj.mp (by exact_mod_cast hcount.symm)

/-- **The counters are exact in every state of every run**, whatever the order in which the calls
look up, insert, add and subtract. -/
theorem inflight_exact (w : List P2CLabel) : EachState step Exact new w :=
  (eachState_of_invariant (C := fun _ _ => True) (fun _ _ _ h _ hstep => h.step hstep) counted_new
    (eachStep_of_forall_mem fun _ _ => trivial)).imp fun _ h => h.exact

/-! ## A call that runs alone -/

/-- The counters of the selector, read as numbers. -/
def Reads (s : P2CSystem) (sel : P2CSelector) : Prop :=
  ∀ serviceId, (sel.inflight.lookup serviceId).getD 0 = s.load serviceId

@[simp] theorem answer_setCall (s : P2CSystem) (i : ℕ) (c : P2CCall) (withGuard : Bool)
    (r : Option ServiceInstance) :
    (s.setCall i c).answer i withGuard r = s.answer i withGuard r := by
  simp [answer, setCall]

/-- The two scores of a call that runs alone. -/
theorem run_score {sel : P2CSelector} (hreads : s.Reads sel) {withGuard : Bool}
    {inst1 inst2 : ServiceInstance} (hi : s.calls i = .scoring withGuard inst1 inst2) :
    run step s [.score i, .score i]
      = some (s.answer i withGuard (some (sel.better inst1 inst2))) := by
  have hscore : ∀ inst, sel.computeLoadScore inst = s.computeLoadScore inst := by
    intro inst
    rw [P2CSelector.computeLoadScore, hreads, computeLoadScore]
  have hfirst : s.step (.score i)
      = some (s.setCall i (.comparing withGuard (s.computeLoadScore inst1) inst1 inst2)) := by
    rw [step, hi]
  have hsecond : (s.setCall i (.comparing withGuard (s.computeLoadScore inst1) inst1 inst2)).step
      (.score i) = some (s.answer i withGuard (some (sel.better inst1 inst2))) := by
    rw [step, setCall_calls, Function.update_self, P2CSelector.better, hscore, hscore]
    exact congrArg some (answer_setCall _ _ _ _ _)
  exact run_cons_eq_some.mpr ⟨_, hfirst, run_cons_eq_some.mpr ⟨_, hsecond, rfl⟩⟩

/-- **A call that runs alone selects as the selector does**, and leaves the counters alone. -/
theorem select_alone {sel sel' : P2CSelector} {clock : Clock} {call : SelectCall}
    {r : Option ServiceInstance} (hreads : s.Reads sel) (hidle : s.calls i = .idle)
    (withGuard : Bool) (h : sel.select clock call = some (r, sel')) :
    ∃ w seedCounter, (∀ l ∈ w, l.call = i)
      ∧ run step s w = some ({ s with seedCounter := seedCounter }.answer i withGuard r)
      ∧ sel'.inflight = sel.inflight := by
  obtain ⟨ctx, instances⟩ := call
  rcases instances with _ | ⟨inst1, _ | ⟨inst2, _ | ⟨inst3, rest⟩⟩⟩
  · obtain ⟨rfl, rfl⟩ := Prod.mk.inj (Option.some.inj h)
    refine ⟨[.select i withGuard []], s.seedCounter, by simp [P2CLabel.call], ?_, rfl⟩
    simp [step, hidle, beginSelect]
  · obtain ⟨rfl, rfl⟩ := Prod.mk.inj (Option.some.inj h)
    refine ⟨[.select i withGuard [inst1]], s.seedCounter, by simp [P2CLabel.call], ?_, rfl⟩
    simp [step, hidle, beginSelect]
  · obtain ⟨rfl, rfl⟩ := Prod.mk.inj (Option.some.inj h)
    have hselect : s.step (.select i withGuard [inst1, inst2])
        = some (s.setCall i (.scoring withGuard inst1 inst2)) := by
      simp [step, hidle, beginSelect]
    have hscores := run_score (s := s.setCall i (.scoring withGuard inst1 inst2)) hreads
      (Function.update_self ..)
    rw [answer_setCall] at hscores
    exact ⟨_, s.seedCounter, by simp [P2CLabel.call],
      run_cons_eq_some.mpr ⟨_, hselect, hscores⟩, rfl⟩
  · obtain ⟨inst, hinst, h⟩ := Option.bind_eq_some_iff.mp h
    obtain ⟨inst', hinst', h⟩ := Option.bind_eq_some_iff.mp h
    obtain ⟨rfl, rfl⟩ := Prod.mk.inj (Option.some.inj h)
    set instances := inst1 :: inst2 :: inst3 :: rest
    have hselect : s.step (.select i withGuard instances)
        = some (s.setCall i (.drawing withGuard instances)) := by
      simp [step, hidle, beginSelect, instances]
    have hdraw : (s.setCall i (.drawing withGuard instances)).step
        (.draw i (clock 0 + sel.seedCounter))
        = some (({ s with seedCounter := s.seedCounter + 1 }.setCall i
          (.drawing withGuard instances)).setCall i (.scoring withGuard inst inst')) := by
      have hinst : instances[(P2CSelector.indices (clock 0 + sel.seedCounter) instances.length).1]?
          = some inst := hinst
      have hinst' : instances[(P2CSelector.indices (clock 0 + sel.seedCounter) instances.length).2]?
          = some inst' := hinst'
      rw [step, setCall_calls, Function.update_self]
      simp only [hinst, hinst', Option.bind_eq_bind, Option.bind_some, setCall_seedCounter]
      rfl
    have hscores := run_score (s := ({ s with seedCounter := s.seedCounter + 1 }.setCall i
      (.drawing withGuard instances)).setCall i (.scoring withGuard inst inst')) hreads
      (Function.update_self ..)
    rw [answer_setCall, answer_setCall] at hscores
    exact ⟨_, s.seedCounter + 1, by simp [P2CLabel.call],
      run_cons_eq_some.mpr ⟨_, hselect, run_cons_eq_some.mpr ⟨_, hdraw, hscores⟩⟩, rfl⟩

/-- Where no other call is between its share of a counter and its addition, the shares of a counter
are its guards' and the map's. -/
theorem Counted.strong_eq (h : s.Counted) (hsettled : ∀ j id b, s.calls j ≠ .adding id b)
    (found : s.inflight.lookup serviceId = some a) : s.strong a = (s.counter a).toNat + 1 := by
  have hsame : s.keepers serviceId = s.guards serviceId := by
    ext j
    refine ⟨fun ⟨b, hb⟩ => hb.elim (fun hb => absurd hb (hsettled j _ _)) fun hb => ⟨b, hb⟩, ?_⟩
    exact fun ⟨b, hb⟩ => ⟨b, .inr hb⟩
  have hshares := h.shares serviceId a found
  rw [hsame, h.count serviceId a found] at hshares
  exact_mod_cast hshares.symm

theorem step_fetchAdd (hi : s.calls i = .adding serviceId a) : s.step (.fetchAdd i)
    = some ({ s with counter := Function.update s.counter a (s.counter a + 1) }.setCall i
      (.guarding serviceId a)) := by
  simp only [step, hi]

/-- The steps of an `acquire` that runs alone: there is room for one more share. -/
theorem run_acquire (h : s.Counted) (hsettled : ∀ j id b, s.calls j ≠ .adding id b)
    (hi : s.calls i = .looking serviceId) (hroom : ((s.load serviceId).toNat : ℤ) < isizeMax) :
    ∃ w s' a, (∀ l ∈ w, l.call = i) ∧ run step s w = some s'
      ∧ s'.calls = Function.update s.calls i (.guarding serviceId a)
      ∧ s'.selected = s.selected := by
  cases found : s.inflight.lookup serviceId with
  | some a =>
    have hstrong := h.strong_eq hsettled found
    have hlook : s.step (.lookUp i)
        = some ({ s with strong := Function.update s.strong a (s.strong a + 1) }.setCall i
          (.adding serviceId a)) := by
      simp only [step, hi, found]
      refine if_pos ?_
      rw [load, found] at hroom
      rw [hstrong]
      push_cast
      exact hroom
    refine ⟨[.lookUp i, .fetchAdd i], _, a, by simp [P2CLabel.call], run_cons_eq_some.mpr
      ⟨_, hlook, (run_singleton ..).trans (step_fetchAdd (Function.update_self ..))⟩, ?_, rfl⟩
    exact Function.update_idem ..
  | none =>
    have hlook : s.step (.lookUp i) = some (s.setCall i (.inserting serviceId)) := by
      simp only [step, hi, found]
    have hinsert : (s.setCall i (.inserting serviceId)).step (.insert i)
        = some ((s.setCall i (.inserting serviceId)).create i serviceId) := by
      simp only [step, setCall_calls, Function.update_self, setCall_inflight, found]
    refine ⟨[.lookUp i, .insert i, .fetchAdd i], _, s.next, by simp [P2CLabel.call],
      run_cons_eq_some.mpr ⟨_, hlook, run_cons_eq_some.mpr ⟨_, hinsert,
        (run_singleton ..).trans (step_fetchAdd (Function.update_self ..))⟩⟩, ?_, rfl⟩
    exact (Function.update_idem ..).trans (Function.update_idem ..)

/-- One more guard is one more request in flight. -/
theorem Counted.load_guarding (h : s.Counted) (h' : s'.Counted)
    (hcalls : s'.calls = Function.update s.calls i (.guarding serviceId a))
    (hbefore : ∀ id, ¬ (s.calls i).Guards id) (id : String) :
    (s'.load id).toNat = (s.load id).toNat + if id = serviceId then 1 else 0 := by
  have hguards : (s'.guards id).encard
      = (s.guards id).encard + ((if id = serviceId then 1 else 0 : ℕ) : ℕ∞) := by
    rw [guards, hcalls]
    split_ifs with hid
    · exact census_enter (hbefore id) ⟨a, hid ▸ rfl⟩
    · rw [census_stay (iff_of_false (fun ⟨b, hb⟩ => hid (P2CCall.guarding.inj hb).1.symm)
        (hbefore id))]
      exact (add_zero _).symm
  rw [h.encard_guards, h'.encard_guards] at hguards
  exact_mod_cast hguards

/-- **A `select_with_guard` that runs alone is the selector's.** -/
theorem selectWithGuard_alone (h : s.Counted) (hsettled : ∀ j id b, s.calls j ≠ .adding id b)
    {sel sel' : P2CSelector} (hreads : s.Reads sel) (hidle : s.calls i = .idle) {clock : Clock}
    {call : SelectCall} {inst : ServiceInstance}
    (hselect : sel.selectWithGuard clock call = some (some inst, sel')) :
    ∃ w s' a, (∀ l ∈ w, l.call = i) ∧ run step s w = some s' ∧ s'.selected i = some (some inst)
      ∧ s'.calls i = .guarding inst.serviceId a ∧ s'.Reads sel' := by
  obtain ⟨mid, hchosen, hacquire⟩ := P2CSelector.selectWithGuard_eq_some.mp hselect
  obtain ⟨u, seedCounter, hu, hrun, hinflight⟩ := select_alone hreads hidle true hchosen
  obtain ⟨t, ht⟩ : ∃ t, { s with seedCounter := seedCounter }.answer i true (some inst) = t :=
    ⟨_, rfl⟩
  have htcalls : t.calls = Function.update s.calls i (.looking inst.serviceId) := ht ▸ rfl
  have htcounted : t.Counted := preserved_run (fun _ _ _ h hstep => h.step hstep) h (ht ▸ hrun)
  have htsettled : ∀ j id b, t.calls j ≠ .adding id b := fun j id b => by
    rw [htcalls, Function.update_apply]
    split_ifs
    · exact P2CCall.noConfusion
    · exact hsettled j id b
  have htload : ∀ id, mid.load id = (t.load id).toNat := fun id => by
    rw [P2CSelector.load, hinflight, hreads, ← ht]
    rfl
  have hroom : ((t.load inst.serviceId).toNat : ℤ) < isizeMax := by
    rw [P2CSelector.acquire] at hacquire
    split_ifs at hacquire with hroom
    rwa [htload] at hroom
  obtain ⟨v, s', a, hv, hrun', hcalls', hselected⟩ := run_acquire htcounted htsettled
    (by rw [htcalls, Function.update_self]) hroom
  have hcounted' : s'.Counted := preserved_run (fun _ _ _ h hstep => h.step hstep) htcounted hrun'
  refine ⟨u ++ v, s', a, fun l hl => (List.mem_append.mp hl).elim (hu l) (hv l),
    run_append_eq_some.mpr ⟨t, ht ▸ hrun, hrun'⟩, ?_, ?_, fun id => ?_⟩
  · rw [hselected, ← ht]
    exact Function.update_self ..
  · rw [hcalls', Function.update_self]
  · have hlooking : ∀ id, ¬ (t.calls i).Guards id := by
      rintro id ⟨b, hb⟩
      rw [htcalls, Function.update_self] at hb
      cases hb
    have hload := htcounted.load_guarding hcounted' hcalls' hlooking id
    rw [← htload, ← P2CSelector.load_acquire hacquire] at hload
    exact UInt64.toNat_inj.mp hload.symm

end P2CSystem

end PecsRegistry
