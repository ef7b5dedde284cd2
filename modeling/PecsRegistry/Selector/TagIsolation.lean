import PecsRegistry.Directory.Snapshot
import PecsRegistry.Selector.Canary

/-!
# Selector/TagIsolation — whether tagged requests stay on tagged instances

With the fallback off, a tag that nobody matches is answered with none.  But an inner selector that
declines the matching instances is asked again with the whole list, and the instance it picks among
them is replaced by the first of the whole list with its id.  Both ways may lead to an instance
without the tag.  Which lists are proof against that depends on what inner selectors may decline:
`isolated_iff`.
-/

namespace PecsRegistry

namespace TagFilterSelector

variable {S : Type} {inner : S → Clock → SelectCall → Option (Option ServiceInstance × S)}
  {sel' : TagFilterSelector S} {clock : Clock} {ctx : SelectContext} {tag : String × String}
  {list : List ServiceInstance} {answer : Option ServiceInstance}

/-- A selection keeps to the list it is given. -/
def Selects (inner : S → Clock → SelectCall → Option (Option ServiceInstance × S)) : Prop :=
  ∀ state state' clock call inst, inner state clock call = some (some inst, state') → inst ∈ call.2

/-- Besides empty lists, a selection declines none but the `declinable` calls. -/
def DeclinesOnly (declinable : SelectCall → Prop)
    (inner : S → Clock → SelectCall → Option (Option ServiceInstance × S)) : Prop :=
  ∀ state state' clock call, inner state clock call = some (none, state') → call.2 ≠ [] →
    declinable call

/-- With the fallback off, whatever the inner selector has seen before, a request of the context is
answered with none or with an instance that has the tag. -/
def Isolated (inner : S → Clock → SelectCall → Option (Option ServiceInstance × S))
    (ctx : SelectContext) (tag : String × String) (list : List ServiceInstance) : Prop :=
  ∀ state clock answer sel',
    selectWith inner ((new state).withFallback false) clock (ctx, list) = some (answer, sel') →
      ∀ inst ∈ answer, hasTag tag inst

/-- The id of an instance with the tag leads to an instance with the tag. -/
def IdsKeepTag (tag : String × String) (list : List ServiceInstance) : Prop :=
  ∀ target ∈ list, hasTag tag target → ∀ inst ∈ byId list target.serviceId, hasTag tag inst

theorem idsKeepTag_of_distinct (hid : Distinct list) : IdsKeepTag tag list := by
  intro target hmem htarget inst hinst
  obtain ⟨hmem', hsame⟩ := hid.byId_eq_some.mp hinst
  rwa [List.inj_on_of_nodup_map hid hmem' hmem hsame]

theorem selectWhole_eq_some {sel : TagFilterSelector S} {call : SelectCall}
    (h : selectWhole inner sel clock call = some (answer, sel')) :
    inner sel.inner (fun n => clock (2 * n + 1)) call = some (answer, sel'.inner) := by
  obtain ⟨⟨_, state'⟩, hanswer, heq⟩ := Option.map_eq_some_iff.mp h
  obtain ⟨rfl, rfl⟩ := Prod.mk.inj heq
  exact hanswer

variable {declinable : SelectCall → Prop}

/-- Where ids keep the tag, and the matching instances are not declined unless all match, a request
stays on tagged instances. -/
theorem isolated_of_idsKeepTag (htag : ctx.requiredTag = some tag) (hids : IdsKeepTag tag list)
    (hall : list.filter (hasTag tag) ≠ [] → declinable (ctx, list.filter (hasTag tag)) →
      ∀ inst ∈ list, hasTag tag inst)
    (hselects : Selects inner) (hdeclines : DeclinesOnly declinable inner) :
    Isolated inner ctx tag list := by
  intro state clock answer sel' h inst hinst
  rw [selectWith, htag] at h
  simp only at h
  split at h
  case h_1 hnone =>
    obtain ⟨rfl, -⟩ : none = answer ∧ _ := by simpa [new, withFallback] using h
    cases hinst
  case h_2 hsome =>
    obtain ⟨⟨picked, state'⟩, hpicked, h⟩ := Option.bind_eq_some_iff.mp h
    cases picked with
    | some target =>
      obtain ⟨rfl, -⟩ := Prod.mk.inj (Option.some.inj h)
      obtain ⟨hmem, htarget⟩ := List.mem_filter.mp (hselects _ _ _ _ _ hpicked)
      exact hids target hmem htarget inst hinst
    | none =>
      obtain rfl : answer = some inst := hinst
      exact hall hsome (hdeclines _ _ _ _ hpicked hsome) inst
        (hselects _ _ _ _ _ (selectWhole_eq_some h))

/-- With distinct ids, an inner selector that keeps to its list and declines no list but the empty
one stays on tagged instances. -/
theorem isolated_of_distinct (htag : ctx.requiredTag = some tag) (hid : Distinct list)
    (hselects : Selects inner) (hpicks : DeclinesOnly (fun _ => False) inner) :
    Isolated inner ctx tag list :=
  isolated_of_idsKeepTag htag (idsKeepTag_of_distinct hid) (fun _ h => h.elim) hselects hpicks

/-! ## The inner selectors that get out -/

section Prefer

variable (favourite : ServiceInstance) (declined : SelectCall)

/-- Picks its favourite where it is there; else declines one call, and picks the first of others. -/
def prefer (state : Unit) (_ : Clock) (call : SelectCall) :
    Option (Option ServiceInstance × Unit) :=
  some (if favourite ∈ call.2 then some favourite
    else if call = declined then none else call.2.head?, state)

variable {favourite declined}

theorem selects_prefer : Selects (prefer favourite declined) := by
  intro _ _ _ call inst h
  have hanswer := congrArg Prod.fst (Option.some.inj h)
  simp only at hanswer
  split_ifs at hanswer with hmem
  · rwa [← Option.some.inj hanswer]
  · exact List.mem_of_mem_head? hanswer

theorem prefer_eq_none {state state' : Unit} {clock : Clock} {call : SelectCall}
    (h : prefer favourite declined state clock call = some (none, state')) (hne : call.2 ≠ []) :
    call = declined := by
  have hanswer := congrArg Prod.fst (Option.some.inj h)
  simp only at hanswer
  split_ifs at hanswer with hmem heq
  · exact heq
  · exact absurd (List.head?_eq_none_iff.mp hanswer) hne

/-- A favourite with the tag is picked among those that match, and looked up by its id. -/
theorem selectWith_prefer_tagged (htag : ctx.requiredTag = some tag) (hmem : favourite ∈ list)
    (hfavourite : hasTag tag favourite) :
    ∃ sel', selectWith (prefer favourite declined) ((new ()).withFallback false) clock (ctx, list)
      = some (byId list favourite.serviceId, sel') := by
  have hfilter : favourite ∈ list.filter (hasTag tag) := List.mem_filter.mpr ⟨hmem, hfavourite⟩
  rw [selectWith, htag]
  simp only
  split
  case h_1 hnone => simp [hnone] at hfilter
  case h_2 => exact ⟨_, by simp only [prefer, if_pos hfilter]; rfl⟩

/-- A favourite without the tag is picked from the whole list, where those that match are
declined. -/
theorem selectWith_prefer_untagged (htag : ctx.requiredTag = some tag) (hmem : favourite ∈ list)
    (hfavourite : ¬ hasTag tag favourite) (hsome : list.filter (hasTag tag) ≠ []) :
    ∃ sel', selectWith (prefer favourite (ctx, list.filter (hasTag tag)))
      ((new ()).withFallback false) clock (ctx, list) = some (some favourite, sel') := by
  have hfilter : favourite ∉ list.filter (hasTag tag) := fun h =>
    hfavourite (List.mem_filter.mp h).2
  refine ⟨(new ()).withFallback false, ?_⟩
  rw [selectWith, htag]
  simp only [prefer, if_neg hfilter, if_true, Option.bind_some, selectWhole, if_pos hmem,
    Option.map_some]

end Prefer

/-- **Which lists keep tagged requests on tagged instances, exactly**: with every inner selector
that keeps to its list and declines none but the `declinable` calls, the requests of a context stay
on tagged instances, if and only if ids keep the tag and, where the matching instances are
declinable, all instances match. -/
theorem isolated_iff (htag : ctx.requiredTag = some tag) :
    (∀ (S : Type) (inner : S → Clock → SelectCall → Option (Option ServiceInstance × S)),
      Selects inner → DeclinesOnly declinable inner → Isolated inner ctx tag list)
      ↔ IdsKeepTag tag list ∧ (list.filter (hasTag tag) ≠ [] →
        declinable (ctx, list.filter (hasTag tag)) → ∀ inst ∈ list, hasTag tag inst) := by
  constructor
  · intro h
    refine ⟨fun target hmem htarget inst hinst => ?_, fun hsome hdeclinable inst hmem => ?_⟩
    · have hpicks : DeclinesOnly declinable (prefer target (ctx, [])) :=
        fun _ _ _ _ hnone hne => absurd (congrArg Prod.snd (prefer_eq_none hnone hne)) hne
      obtain ⟨sel', hselect⟩ := selectWith_prefer_tagged htag hmem htarget
      exact h Unit _ selects_prefer hpicks () (fun _ => 0) _ sel' hselect inst hinst
    · by_contra huntagged
      have hdeclines : DeclinesOnly declinable (prefer inst (ctx, list.filter (hasTag tag))) :=
        fun _ _ _ _ hnone hne => prefer_eq_none hnone hne ▸ hdeclinable
      obtain ⟨sel', hselect⟩ := selectWith_prefer_untagged htag hmem huntagged hsome
      exact huntagged (h Unit _ selects_prefer hdeclines () (fun _ => 0) _ sel' hselect inst rfl)
  · rintro ⟨hids, hall⟩ S inner hselects hdeclines
    exact isolated_of_idsKeepTag htag hids hall hselects hdeclines

/-- An inner selector that always picks the second instance, and declines a list of one. -/
def second (state : Unit) (_ : Clock) (call : SelectCall) :
    Option (Option ServiceInstance × Unit) := some (call.2[1]?, state)

/-- A canary, and an instance of the stable version. -/
def canary : ServiceInstance :=
  { ServiceInstance.simple "order-svc" "127.0.0.1" 8080 with
    metadata := (∅ : HashMap String String).insert "version" "v2" }

def stable : ServiceInstance := .simple "order-svc" "127.0.0.2" 8080

/-- A request for the canary. -/
def forCanary : SelectContext := { SelectContext.new "order-svc" with
  requiredTag := some ("version", "v2") }

theorem select_forCanary : ∃ sel', selectWith second ((new ()).withFallback false) (fun _ => 0)
    (forCanary, [canary, stable]) = some (some stable, sel') := by
  obtain ⟨⟨answer, sel'⟩, hselect, rfl⟩ := Option.map_eq_some_iff.mp (show (selectWith second
    ((new ()).withFallback false) (fun _ => 0) (forCanary, [canary, stable])).map Prod.fst
      = some (some stable) by decide)
  exact ⟨sel', hselect⟩

/-- `isolated_iff` there: with inner selectors that decline no list of one. -/
theorem isolated_iff_forCanary : forCanary.requiredTag = some ("version", "v2") ∧
    ∀ (S : Type) (inner : S → Clock → SelectCall → Option (Option ServiceInstance × S)),
      Selects inner → DeclinesOnly (fun call => call.2.length ≠ 1) inner →
        Isolated inner forCanary ("version", "v2") [canary, stable] :=
  ⟨rfl, (isolated_iff rfl).mpr ⟨idsKeepTag_of_distinct (by decide), by decide⟩⟩

/-- **Canary traffic on a stable instance.**  The selector inside declines the one canary, and picks
the stable instance from the whole list. -/
theorem canary_reaches_stable : ¬ ∀ (S : Type)
    (inner : S → Clock → SelectCall → Option (Option ServiceInstance × S)), Selects inner →
    ∀ state clock (ctx : SelectContext) tag list answer sel', ctx.requiredTag = some tag →
      selectWith inner ((new state).withFallback false) clock (ctx, list) = some (answer, sel') →
      ∀ inst ∈ answer, hasTag tag inst := by
  intro h
  have hselects : Selects second := fun _ _ _ call inst hinst =>
    List.mem_of_getElem? (congrArg Prod.fst (Option.some.inj hinst))
  obtain ⟨sel', hselect⟩ := select_forCanary
  exact absurd (h Unit second hselects () (fun _ => 0) forCanary ("version", "v2")
    [canary, stable] (some stable) sel' rfl hselect stable rfl) (by decide)

end TagFilterSelector

end PecsRegistry
