import PecsRegistry.Selector.Context

/-!
# Selector/RoundRobin — the round-robin and the random selector

`RoundRobinSelector` keeps one wrapping counter for each service and takes the instance at the
counter's value modulo the length of the list; `RandomSelector` keeps nothing and takes the
clock's.
-/

namespace PecsRegistry

/-- The round-robin selector: a counter for each service. -/
structure RoundRobinSelector where
  counters : HashMap String UInt64

namespace RoundRobinSelector

def new : RoundRobinSelector := ⟨∅⟩

/-- The value of a service's counter, zero if it has none yet. -/
def getCounter (sel : RoundRobinSelector) (serviceName : String) : UInt64 :=
  (sel.counters.lookup serviceName).getD 0

/-- One selection: `counter.fetch_add(1) % len`. -/
def select (sel : RoundRobinSelector) (call : SelectCall) :
    Option (Option ServiceInstance × RoundRobinSelector) :=
  match call.2 with
  | [] => some (none, sel)
  | [inst] => some (some inst, sel)
  | instances =>
    let counter := sel.getCounter call.1.serviceName
    (instances[counter.toNat % instances.length]?).map fun chosen =>
      (some chosen, ⟨sel.counters.insert call.1.serviceName (counter + 1)⟩)

instance : Selector RoundRobinSelector := ⟨fun sel _ call => sel.select call⟩

theorem mem_of_select {sel sel' : RoundRobinSelector} {call : SelectCall} {inst : ServiceInstance}
    (h : sel.select call = some (some inst, sel')) : inst ∈ call.2 := by
  obtain ⟨ctx, instances⟩ := call
  match instances with
  | [] => simp [select] at h
  | [i] =>
    obtain ⟨rfl, -⟩ : i = inst ∧ sel = sel' := by simpa [select] using h
    exact List.mem_singleton.mpr rfl
  | i :: j :: rest =>
    obtain ⟨chosen, hchosen, heq⟩ := Option.map_eq_some_iff.mp h
    obtain rfl : chosen = inst := by simpa using congrArg Prod.fst heq
    exact List.mem_of_getElem? hchosen

/-- The selector after a selection among `n` instances: one instance needs no turn. -/
def after (sel : RoundRobinSelector) (serviceName : String) (n : ℕ) : RoundRobinSelector :=
  if 2 ≤ n then ⟨sel.counters.insert serviceName (sel.getCounter serviceName + 1)⟩ else sel

/-- A selection takes the instance whose turn it is. -/
theorem select_eq (sel : RoundRobinSelector) (ctx : SelectContext) (l : List ServiceInstance) :
    sel.select (ctx, l) = some (l[(sel.getCounter ctx.serviceName).toNat % l.length]?,
      sel.after ctx.serviceName l.length) := by
  match l with
  | [] => simp [select, after]
  | [i] => simp [select, after, Nat.mod_one]
  | i :: j :: rest =>
    have hlt : (sel.getCounter ctx.serviceName).toNat % (i :: j :: rest).length
        < (i :: j :: rest).length := Nat.mod_lt _ (by simp)
    simp only [select, List.getElem?_eq_getElem hlt]
    simp [after]

/-- A turn moves the counter of its service on. -/
theorem getCounter_after (sel : RoundRobinSelector) (serviceName serviceName' : String) (n : ℕ) :
    (sel.after serviceName n).getCounter serviceName' = if serviceName' = serviceName ∧ 2 ≤ n
      then sel.getCounter serviceName + 1 else sel.getCounter serviceName' := by
  rw [after]
  by_cases hn : 2 ≤ n
  · rw [if_pos hn, getCounter, HashMap.lookup_insert]
    split_ifs with hname hname' hname'
    · rfl
    · exact absurd ⟨hname, hn⟩ hname'
    · exact absurd hname'.1 hname
    · rfl
  · rw [if_neg hn, if_neg fun h => hn h.2]

end RoundRobinSelector

/-- The random selector. -/
structure RandomSelector where

namespace RandomSelector

/-- One selection: the clock's nanoseconds modulo the length of the list. -/
def select (sel : RandomSelector) (clock : Clock) (call : SelectCall) :
    Option (Option ServiceInstance × RandomSelector) :=
  match call.2 with
  | [] => some (none, sel)
  | [inst] => some (some inst, sel)
  | instances =>
    (instances[(clock 0).toNat % instances.length]?).map fun chosen => (some chosen, sel)

instance : Selector RandomSelector := ⟨select⟩

theorem mem_of_select {sel sel' : RandomSelector} {clock : Clock} {call : SelectCall}
    {inst : ServiceInstance} (h : sel.select clock call = some (some inst, sel')) :
    inst ∈ call.2 := by
  obtain ⟨ctx, instances⟩ := call
  match instances with
  | [] => simp [select] at h
  | [i] =>
    obtain rfl : i = inst := by simpa [select] using h
    exact List.mem_singleton.mpr rfl
  | i :: j :: rest =>
    obtain ⟨chosen, hchosen, heq⟩ := Option.map_eq_some_iff.mp h
    obtain rfl : chosen = inst := by simpa using congrArg Prod.fst heq
    exact List.mem_of_getElem? hchosen

end RandomSelector

end PecsRegistry
