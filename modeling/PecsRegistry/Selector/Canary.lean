import PecsRegistry.Selector.Context

/-!
# Selector/Canary — the tag filter around another selector

`TagFilterSelector` lets its inner selector choose among the instances that match the required tag,
and looks the chosen id up in the whole list.  A request without a tag, a tag nobody matches (unless
the fallback is off), or an inner selector that declines the matching instances, goes to the inner
selector with the whole list.
-/

namespace PecsRegistry

/-- The tag filter. -/
structure TagFilterSelector (S : Type) where
  inner : S
  fallbackOnMiss : Bool

namespace TagFilterSelector

variable {S : Type}

def new (inner : S) : TagFilterSelector S := ⟨inner, true⟩

def withFallback (sel : TagFilterSelector S) (fallback : Bool) : TagFilterSelector S :=
  { sel with fallbackOnMiss := fallback }

/-- A string holds another as a part. -/
def contains (s part : String) : Bool := part.toList <:+: s.toList

/-- An instance matches a tag by metadata, by group or namespace, or by its id. -/
def hasTag (tag : String × String) (inst : ServiceInstance) : Bool :=
  inst.metadata.lookup tag.1 = some tag.2 || inst.group = tag.2 || inst.namespace = tag.2
    || contains inst.serviceId tag.2

/-- The inner selector on the whole list. -/
def selectWhole (inner : S → Clock → SelectCall → Option (Option ServiceInstance × S))
    (sel : TagFilterSelector S) (clock : Clock) (call : SelectCall) :
    Option (Option ServiceInstance × TagFilterSelector S) :=
  (inner sel.inner (fun n => clock (2 * n + 1)) call).map fun r => (r.1, { sel with inner := r.2 })

/-- One selection, by the inner selector's `select`; its two inner selections read the clock at
different times. -/
def selectWith (inner : S → Clock → SelectCall → Option (Option ServiceInstance × S))
    (sel : TagFilterSelector S) (clock : Clock) (call : SelectCall) :
    Option (Option ServiceInstance × TagFilterSelector S) :=
  match call.1.requiredTag with
  | some tag =>
      match call.2.filter (hasTag tag) with
      | [] => if sel.fallbackOnMiss then selectWhole inner sel clock call else some (none, sel)
      | filtered =>
          (inner sel.inner (fun n => clock (2 * n)) (call.1, filtered)).bind fun r =>
            match r.1 with
            | some target =>
                some (call.2.find? (fun i => i.serviceId = target.serviceId),
                  { sel with inner := r.2 })
            | none => selectWhole inner { sel with inner := r.2 } clock call
  | none => selectWhole inner sel clock call

instance [Selector S] : Selector (TagFilterSelector S) := ⟨selectWith Selector.select⟩

section Membership

variable {inner : S → Clock → SelectCall → Option (Option ServiceInstance × S)}
  {sel sel' : TagFilterSelector S} {clock : Clock} {call : SelectCall} {inst : ServiceInstance}

theorem mem_of_selectWhole (hinner : ∀ state state' clock call inst,
      inner state clock call = some (some inst, state') → inst ∈ call.2)
    (h : selectWhole inner sel clock call = some (some inst, sel')) : inst ∈ call.2 := by
  obtain ⟨⟨answer, state'⟩, hanswer, heq⟩ := Option.map_eq_some_iff.mp h
  obtain rfl : answer = some inst := congrArg Prod.fst heq
  exact hinner _ _ _ _ _ hanswer

/-- **The filter selects from the list it is given**, if its inner selector does. -/
theorem mem_of_select (hinner : ∀ state state' clock call inst,
      inner state clock call = some (some inst, state') → inst ∈ call.2)
    (h : selectWith inner sel clock call = some (some inst, sel')) : inst ∈ call.2 := by
  rw [selectWith] at h
  split at h
  case h_1 tag _ =>
    split at h
    case h_1 =>
      split_ifs at h
      · exact mem_of_selectWhole hinner h
      · simp at h
    case h_2 =>
      obtain ⟨⟨answer, state'⟩, hanswer, h⟩ := Option.bind_eq_some_iff.mp h
      cases answer with
      | some target => exact List.mem_of_find?_eq_some (congrArg Prod.fst (Option.some.inj h))
      | none => exact mem_of_selectWhole hinner h
  case h_2 => exact mem_of_selectWhole hinner h

end Membership

end TagFilterSelector

end PecsRegistry
