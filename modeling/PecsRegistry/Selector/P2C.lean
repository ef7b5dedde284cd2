import PecsRegistry.Foundations.Numeric
import PecsRegistry.Machinery.OrderedPairs
import PecsRegistry.Selector.Context

/-!
# Selector/P2C — power of two choices

`P2CSelector` counts the requests in flight for each instance id.  A selection compares the load
scores of two instances, `(inflight + 1) / max(weight, 0.1)` read as exact rationals, and takes the
first unless the second's is smaller; of three instances and more, the two are drawn from the clock
and a sequence number (`pickTwo`).  `selectWithGuard` also counts the instance it takes as one more
request in flight.
-/

namespace PecsRegistry

/-- The P2C selector: requests in flight by instance id, and the sequence number of draws. -/
structure P2CSelector where
  inflight : HashMap String UInt64
  seedCounter : UInt64

namespace P2CSelector

def new : P2CSelector := ⟨∅, 0⟩

/-- Two distinct indices below `len`, from a seed. -/
def indices (seed : UInt64) (len : ℕ) : ℕ × ℕ :=
  let idx1 := seed.toNat % len
  let offset := 1 + seed.toNat / len % (len - 1)
  (idx1, (idx1 + offset) % len)

/-- Draw two indices; the sequence number moves on, wrapping. -/
def pickTwo (sel : P2CSelector) (now : UInt64) (len : ℕ) : (ℕ × ℕ) × P2CSelector :=
  (indices (now + sel.seedCounter) len, { sel with seedCounter := sel.seedCounter + 1 })

/-- The load score of an instance: the lower, the better. -/
def computeLoadScore (sel : P2CSelector) (inst : ServiceInstance) : ℚ :=
  (((sel.inflight.lookup inst.serviceId).getD 0).toNat + 1) / max inst.weight (1 / 10)

/-- The better of two instances. -/
def better (sel : P2CSelector) (inst1 inst2 : ServiceInstance) : ServiceInstance :=
  if sel.computeLoadScore inst1 ≤ sel.computeLoadScore inst2 then inst1 else inst2

/-- One selection. -/
def select (sel : P2CSelector) (clock : Clock) (call : SelectCall) :
    Option (Option ServiceInstance × P2CSelector) :=
  match call.2 with
  | [] => some (none, sel)
  | [inst] => some (some inst, sel)
  | [inst1, inst2] => some (some (sel.better inst1 inst2), sel)
  | instances => do
    let ((idx1, idx2), sel) := sel.pickTwo (clock 0) instances.length
    let inst1 ← instances[idx1]?
    let inst2 ← instances[idx2]?
    some (some (sel.better inst1 inst2), sel)

instance : Selector P2CSelector := ⟨select⟩

/-- The live guards of an id. -/
def load (sel : P2CSelector) (serviceId : String) : ℕ :=
  ((sel.inflight.lookup serviceId).getD 0).toNat

/-- Take a guard for an id: its counter, made if it is not there, goes up by one.  The map and the
guards share the counter; sharing it more than `isize::MAX` times aborts. -/
def acquire (sel : P2CSelector) (serviceId : String) : Option P2CSelector :=
  if sel.load serviceId < isizeMax then
    let inflight := (sel.inflight.lookup serviceId).getD 0
    some { sel with inflight := sel.inflight.insert serviceId (inflight + 1) }
  else none

/-- A selection, and a guard for the instance selected. -/
def selectWithGuard (sel : P2CSelector) (clock : Clock) (call : SelectCall) :
    Option (Option ServiceInstance × P2CSelector) :=
  (sel.select clock call).bind fun (chosen, sel) =>
    match chosen with
    | some inst => (sel.acquire inst.serviceId).map fun sel => (some inst, sel)
    | none => some (none, sel)

/-- An instance is selected with a guard where it is selected, and a guard for it is taken. -/
theorem selectWithGuard_eq_some {sel sel' : P2CSelector} {clock : Clock} {call : SelectCall}
    {inst : ServiceInstance} :
    sel.selectWithGuard clock call = some (some inst, sel')
      ↔ ∃ mid, sel.select clock call = some (some inst, mid)
        ∧ mid.acquire inst.serviceId = some sel' := by
  rw [selectWithGuard, Option.bind_eq_some_iff]
  constructor
  · rintro ⟨⟨_ | chosen, mid⟩, hselect, hguard⟩
    · cases (Prod.mk.inj (Option.some.inj hguard)).1
    · obtain ⟨sel'', hacquire, heq⟩ := Option.map_eq_some_iff.mp hguard
      obtain ⟨hinst, rfl⟩ := Prod.mk.inj heq
      obtain rfl := Option.some.inj hinst
      exact ⟨mid, hselect, hacquire⟩
  · rintro ⟨mid, hselect, hacquire⟩
    exact ⟨_, hselect, Option.map_eq_some_iff.mpr ⟨sel', hacquire, rfl⟩⟩

theorem better_mem (sel : P2CSelector) {inst1 inst2 : ServiceInstance}
    {instances : List ServiceInstance} (h1 : inst1 ∈ instances) (h2 : inst2 ∈ instances) :
    sel.better inst1 inst2 ∈ instances := by
  rw [better]
  split_ifs
  · exact h1
  · exact h2

theorem mem_of_select {sel sel' : P2CSelector} {clock : Clock} {call : SelectCall}
    {inst : ServiceInstance} (h : sel.select clock call = some (some inst, sel')) :
    inst ∈ call.2 := by
  obtain ⟨ctx, instances⟩ := call
  match instances with
  | [] => simp [select] at h
  | [i] =>
    obtain ⟨rfl, -⟩ : i = inst ∧ sel = sel' := by simpa [select] using h
    exact List.mem_singleton.mpr rfl
  | [i, j] =>
    obtain ⟨rfl, -⟩ : sel.better i j = inst ∧ sel = sel' := by simpa [select] using h
    exact sel.better_mem (by simp) (by simp)
  | i :: j :: k :: rest =>
    obtain ⟨inst1, h1, h⟩ := Option.bind_eq_some_iff.mp h
    obtain ⟨inst2, h2, h⟩ := Option.bind_eq_some_iff.mp h
    obtain rfl := Option.some.inj (congrArg Prod.fst (Option.some.inj h))
    exact better_mem _ (List.mem_of_getElem? h1) (List.mem_of_getElem? h2)

/-- **A guard is counted**, for its id and no other. -/
theorem load_acquire {sel sel' : P2CSelector} {serviceId : String}
    (h : sel.acquire serviceId = some sel') (id : String) :
    sel'.load id = sel.load id + if id = serviceId then 1 else 0 := by
  rw [acquire] at h
  split_ifs at h with hroom
  obtain rfl := Option.some.inj h
  rw [load, HashMap.lookup_insert]
  split_ifs with hid
  · have hlt : ((sel.inflight.lookup serviceId).getD 0).toNat < 2 ^ 63 - 1 := by
      simp only [load, isizeMax] at hroom
      omega
    have hone : (1 : UInt64).toNat = 1 := rfl
    rw [Option.getD_some, UInt64.toNat_add, hid, load, hone]
    exact Nat.mod_eq_of_lt (by omega)
  · rfl

/-! ## The two choices -/

/-- **Two indices below the length, and distinct.** -/
theorem indices_spec (seed : UInt64) {len : ℕ} (hlen : 2 ≤ len) :
    (indices seed len).1 < len ∧ (indices seed len).2 < len
      ∧ (indices seed len).1 ≠ (indices seed len).2 := by
  obtain ⟨hfirst, hsecond, hne⟩ :=
    Finset.mem_offDiag.mp (OrderedPairs.draw_mem_offDiag hlen seed.toNat)
  exact ⟨Finset.mem_range.mp hfirst, Finset.mem_range.mp hsecond, hne⟩

/-- The better of two instances is one of them, and the other scores no less. -/
theorem better_spec (sel : P2CSelector) (inst1 inst2 : ServiceInstance) :
    (sel.better inst1 inst2 = inst1 ∧ sel.computeLoadScore inst1 ≤ sel.computeLoadScore inst2)
      ∨ (sel.better inst1 inst2 = inst2
        ∧ sel.computeLoadScore inst2 ≤ sel.computeLoadScore inst1) := by
  rw [better]
  split_ifs with h
  · exact .inl ⟨rfl, h⟩
  · exact .inr ⟨rfl, (not_le.mp h).le⟩

/-- A selection leaves the counters alone. -/
theorem select_of_two_le (sel : P2CSelector) (clock : Clock) (ctx : SelectContext)
    {instances : List ServiceInstance} (hn : 2 ≤ instances.length) :
    ∃ i j : Fin instances.length, i ≠ j ∧ ∃ seedCounter, sel.select clock (ctx, instances)
      = some (some (sel.better (instances.get i) (instances.get j)),
        { sel with seedCounter := seedCounter }) := by
  match instances, hn with
  | [inst1, inst2], _ => exact ⟨⟨0, by simp⟩, ⟨1, by simp⟩, by simp, sel.seedCounter, rfl⟩
  | inst1 :: inst2 :: inst3 :: rest, hn =>
    set instances := inst1 :: inst2 :: inst3 :: rest
    obtain ⟨h1, h2, hne⟩ := indices_spec (clock 0 + sel.seedCounter) hn
    refine ⟨⟨_, h1⟩, ⟨_, h2⟩, fun h => hne (congrArg Fin.val h), sel.seedCounter + 1, ?_⟩
    have hdraw : sel.select clock (ctx, instances)
        = (instances[(indices (clock 0 + sel.seedCounter) instances.length).1]?).bind fun inst1 =>
          (instances[(indices (clock 0 + sel.seedCounter) instances.length).2]?).bind fun inst2 =>
            some (some (({ sel with seedCounter := sel.seedCounter + 1 } : P2CSelector).better
              inst1 inst2), { sel with seedCounter := sel.seedCounter + 1 }) := rfl
    rw [hdraw, List.getElem?_eq_getElem h1, List.getElem?_eq_getElem h2]
    rfl

/-- **The worst is never picked.**  A selection among two instances or more answers one of two
instances at distinct positions, whose score is not above the other's; so the instance at a position
that scores above every other position is not selected. -/
theorem never_worst (sel : P2CSelector) (clock : Clock) (ctx : SelectContext)
    {instances : List ServiceInstance} (hn : 2 ≤ instances.length) :
    (∃ i j : Fin instances.length, i ≠ j
      ∧ sel.computeLoadScore (instances.get i) ≤ sel.computeLoadScore (instances.get j)
      ∧ (sel.select clock (ctx, instances)).map Prod.fst = some (some (instances.get i)))
    ∧ ∀ p : Fin instances.length, (∀ q ≠ p,
        sel.computeLoadScore (instances.get q) < sel.computeLoadScore (instances.get p)) →
      (sel.select clock (ctx, instances)).map Prod.fst ≠ some (some (instances.get p)) := by
  obtain ⟨i, j, hne, hscore, hselect⟩ : ∃ i j : Fin instances.length, i ≠ j
      ∧ sel.computeLoadScore (instances.get i) ≤ sel.computeLoadScore (instances.get j)
      ∧ (sel.select clock (ctx, instances)).map Prod.fst = some (some (instances.get i)) := by
    obtain ⟨i, j, hne, seedCounter, hselect⟩ := sel.select_of_two_le clock ctx hn
    rw [hselect, Option.map_some]
    rcases sel.better_spec (instances.get i) (instances.get j) with ⟨hi, hle⟩ | ⟨hj, hle⟩
    · exact ⟨i, j, hne, hle, by rw [hi]⟩
    · exact ⟨j, i, hne.symm, hle, by rw [hj]⟩
  refine ⟨⟨i, j, hne, hscore, hselect⟩, fun p hworst hp => ?_⟩
  have hsame : instances.get i = instances.get p :=
    Option.some.inj (Option.some.inj (hselect.symm.trans hp))
  rcases eq_or_ne i p with rfl | hip
  · exact absurd hscore (not_le.mpr (hworst j hne.symm))
  · exact absurd (hworst i hip) (by rw [hsame]; exact lt_irrefl _)

/-- Of three instances, the one with a request in flight is not selected. -/
theorem never_worst_busy : ((⟨(∅ : HashMap String UInt64).insert "svc-a-80" 1, 0⟩ :
      P2CSelector).select (fun _ => 7) (.new "svc", [.simple "svc" "a" 80, .simple "svc" "b" 80,
        .simple "svc" "c" 80])).map Prod.fst ≠ some (some (.simple "svc" "a" 80)) :=
  (never_worst _ _ _ (by decide)).2 ⟨0, by decide⟩ (by decide +kernel)

end P2CSelector

end PecsRegistry
