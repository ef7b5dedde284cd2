import PecsRegistry.Directory.Snapshot
import PecsRegistry.Machinery.Residues
import PecsRegistry.Machinery.Transition
import PecsRegistry.Selector.Canary
import PecsRegistry.Selector.RoundRobin

/-!
# Selector/TagRotation — whose turn it is under a tag filter around round-robin

`RoundRobinSelector` keeps one counter for a service.  Under a tag filter the requests of all tags
advance it, and each takes its value modulo the number of its own candidates.  So which candidate
a request gets depends on the requests of other tags before it: `rotation`.
-/

namespace PecsRegistry

open Transition Residues

namespace TagFilterSelector

variable {list : List ServiceInstance} {sel sel' : TagFilterSelector RoundRobinSelector}

/-- The instances a request may get: those that match its tag; without a tag, or where none matches
and the fallback is on, all. -/
def candidates (fallback : Bool) (list : List ServiceInstance) (tag : Option (String × String)) :
    List ServiceInstance :=
  match tag with
  | none => list
  | some tag =>
      match list.filter (hasTag tag) with
      | [] => if fallback then list else []
      | filtered => filtered

theorem selectWhole_eq (sel : TagFilterSelector RoundRobinSelector) (clock : Clock)
    (ctx : SelectContext) :
    selectWhole Selector.select sel clock (ctx, list)
      = some (list[(sel.inner.getCounter ctx.serviceName).toNat % list.length]?,
        { sel with inner := sel.inner.after ctx.serviceName list.length }) := by
  rw [selectWhole, Selector.select, RoundRobinSelector.instSelector]
  simp only [RoundRobinSelector.select_eq, Option.map_some]

/-- With distinct ids, an instance is found again by its id. -/
theorem find_of_mem (hid : Distinct list) {target : ServiceInstance} (h : target ∈ list) :
    list.find? (fun i => i.serviceId = target.serviceId) = some target :=
  hid.byId_eq_some.mpr ⟨h, rfl⟩

/-- **A selection takes the candidate whose turn it is.** -/
theorem select_eq (hid : Distinct list) (sel : TagFilterSelector RoundRobinSelector) (clock : Clock)
    (ctx : SelectContext) {cs : List ServiceInstance}
    (hcs : candidates sel.fallbackOnMiss list ctx.requiredTag = cs) :
    Selector.select sel clock (ctx, list)
      = some (cs[(sel.inner.getCounter ctx.serviceName).toNat % cs.length]?,
        { sel with inner := sel.inner.after ctx.serviceName cs.length }) := by
  change selectWith Selector.select sel clock (ctx, list) = _
  unfold candidates at hcs
  rw [selectWith]
  cases htag : ctx.requiredTag with
  | none =>
    rw [htag] at hcs
    subst hcs
    exact selectWhole_eq sel clock ctx
  | some tag =>
    rw [htag] at hcs
    simp only at hcs ⊢
    cases hfiltered : list.filter (hasTag tag) with
    | nil => 
      rw [hfiltered] at hcs
      simp only at hcs ⊢
      split_ifs at hcs ⊢ with hfallback
      · subst hcs
        exact selectWhole_eq sel clock ctx
      · subst hcs
        simp [RoundRobinSelector.after]
    | cons inst rest =>
      rw [hfiltered] at hcs
      subst hcs
      obtain ⟨target, htarget⟩ : ∃ target, (inst :: rest)[(sel.inner.getCounter
          ctx.serviceName).toNat % (inst :: rest).length]? = some target :=
        ⟨_, List.getElem?_eq_getElem (Nat.mod_lt _ (by simp))⟩
      have hmem : target ∈ list :=
        List.mem_of_mem_filter (hfiltered ▸ List.mem_of_getElem? htarget)
      have hinner := sel.inner.select_eq ctx (inst :: rest)
      rw [htarget] at hinner ⊢
      change ((sel.inner.select (ctx, inst :: rest)).bind _) = _
      rw [hinner]
      exact congrArg (fun found => some (found, _)) (find_of_mem hid hmem)

/-! ## Requests one after the other -/

/-- A request, with the clock it reads. -/
abbrev Request := Clock × SelectContext

/-- The request takes a turn: it has two candidates at least. -/
def TakesTurn (fallback : Bool) (list : List ServiceInstance) (q : Request) : Prop :=
  2 ≤ (candidates fallback list q.2.requiredTag).length

instance (fallback : Bool) (list : List ServiceInstance) :
    DecidablePred (TakesTurn fallback list) := fun _ => inferInstanceAs (Decidable (_ ≤ _))

/-- The counter at each of the requests: every turn taken moves it on by one. -/
def counters (fallback : Bool) (list : List ServiceInstance) : ℕ → List Request → List ℕ
  | _, [] => []
  | c, q :: qs => c :: counters fallback list (if TakesTurn fallback list q then c + 1 else c) qs

/-- The counter at each of the requests that carry the tag. -/
def countersOf (fallback : Bool) (list : List ServiceInstance) (tag : Option (String × String))
    (c : ℕ) (qs : List Request) : List ℕ :=
  ((qs.zip (counters fallback list c qs)).filter fun p => p.1.2.requiredTag = tag).map Prod.snd

/-- How often the requests that carry the tag are answered with the instance. -/
def selections (tag : Option (String × String)) (inst : ServiceInstance) (qs : List Request)
    (answers : List (Option ServiceInstance)) : ℕ :=
  (qs.zip answers).countP fun p => p.1.2.requiredTag = tag ∧ p.2 = some inst

/-- The answers to requests for one service, from a fixed list. -/
def serveAll (list : List ServiceInstance) (sel : TagFilterSelector RoundRobinSelector)
    (qs : List Request) :
    Option (List (Option ServiceInstance) × TagFilterSelector RoundRobinSelector) :=
  serve (fun sel (q : Request) => Selector.select sel q.1 (q.2, list)) sel qs

variable {qs : List Request} {answers : List (Option ServiceInstance)} {serviceName : String}

/-- **Each request takes the candidate whose turn it is**, by the counter of the service. -/
theorem serveAll_eq (hid : Distinct list) (hsvc : ∀ q ∈ qs, q.2.serviceName = serviceName)
    (hwrap : (sel.inner.getCounter serviceName).toNat
      + qs.countP (TakesTurn sel.fallbackOnMiss list) < 2 ^ 64)
    (h : serveAll list sel qs = some (answers, sel')) :
    answers = List.zipWith (fun q c =>
        let cs := candidates sel.fallbackOnMiss list q.2.requiredTag
        cs[c % cs.length]?) qs
      (counters sel.fallbackOnMiss list (sel.inner.getCounter serviceName).toNat qs) := by
  induction qs generalizing sel answers with
  | nil => exact (Prod.mk.inj (Option.some.inj h)).1.symm
  | cons q qs ih =>
    obtain ⟨b, sel₁, bs, hb, hbs, rfl⟩ := serve_cons_eq_some.mp h
    obtain ⟨hq, hqs⟩ := List.forall_mem_cons.mp hsvc
    rw [select_eq hid sel q.1 q.2 rfl, hq] at hb
    obtain ⟨rfl, hsel₁⟩ := Prod.mk.inj (Option.some.inj hb)
    rw [List.countP_cons] at hwrap
    have hfallback : sel₁.fallbackOnMiss = sel.fallbackOnMiss := by rw [← hsel₁]
    have hcounter : (sel₁.inner.getCounter serviceName).toNat
        = if TakesTurn sel.fallbackOnMiss list q then (sel.inner.getCounter serviceName).toNat + 1
          else (sel.inner.getCounter serviceName).toNat := by
      rw [← hsel₁]
      rw [RoundRobinSelector.getCounter_after]
      by_cases hturn : TakesTurn sel.fallbackOnMiss list q
      · rw [if_pos (decide_eq_true hturn)] at hwrap
        rw [if_pos ⟨rfl, hturn⟩, if_pos hturn, UInt64.toNat_add, UInt64.toNat_one]
        exact Nat.mod_eq_of_lt (by omega)
      · rw [if_neg fun h => hturn h.2, if_neg hturn]
    have hrest := ih hqs (by
      rw [hcounter, hfallback]
      split_ifs with hturn
      · rw [if_pos (decide_eq_true hturn)] at hwrap
        omega
      · omega) hbs
    rw [hrest, hcounter, hfallback]
    rfl

/-! ## Who gets how much -/

variable {fallback : Bool} {tag : Option (String × String)} {inst : ServiceInstance} {j : ℕ}

theorem candidates_sublist : (candidates fallback list tag).Sublist list := by
  unfold candidates
  split
  case h_1 => exact List.Sublist.refl list
  case h_2 tag =>
    split
    case h_1 =>
      split_ifs
      · exact List.Sublist.refl list
      · exact List.nil_sublist list
    case h_2 => exact List.filter_sublist

/-- A candidate is the one whose turn it is at one place only. -/
theorem getElem?_mod_eq_some_iff (hid : Distinct list)
    (hj : (candidates fallback list tag)[j]? = some inst) (c : ℕ) :
    (candidates fallback list tag)[c % (candidates fallback list tag).length]? = some inst
      ↔ c % (candidates fallback list tag).length = j := by
  have hnodup : (candidates fallback list tag).Nodup := (hid.of_map _).sublist candidates_sublist
  constructor
  · intro hc
    exact (List.getElem?_inj (List.getElem?_eq_some_iff.mp hc).1 hnodup).mp (hc.trans hj.symm)
  · rintro rfl
    exact hj

/-- The requests of a tag get a candidate when its turn comes. -/
theorem selections_zipWith (hid : Distinct list)
    (hj : (candidates fallback list tag)[j]? = some inst) (c : ℕ) (qs : List Request) :
    selections tag inst qs (List.zipWith (fun q c =>
        let cs := candidates fallback list q.2.requiredTag
        cs[c % cs.length]?) qs (counters fallback list c qs))
      = (countersOf fallback list tag c qs).countP fun c =>
          c % (candidates fallback list tag).length = j := by
  induction qs generalizing c with
  | nil => rfl
  | cons q qs ih =>
    have hrest := ih (if TakesTurn fallback list q then c + 1 else c)
    rw [selections, countersOf] at hrest ⊢
    rw [counters, List.zipWith_cons_cons, List.zip_cons_cons, List.zip_cons_cons, List.countP_cons,
      hrest, List.filter_cons]
    by_cases htag : q.2.requiredTag = tag
    · simp [htag, getElem?_mod_eq_some_iff hid hj, List.countP_cons]
    · simp [htag]

theorem length_countersOf (c : ℕ) (qs : List Request) :
    (countersOf fallback list tag c qs).length = qs.countP fun q => q.2.requiredTag = tag := by
  induction qs generalizing c with
  | nil => rfl
  | cons q qs ih =>
    have hrest := ih (if TakesTurn fallback list q then c + 1 else c)
    rw [countersOf] at hrest ⊢
    rw [counters, List.zip_cons_cons, List.filter_cons, List.countP_cons, ← hrest]
    by_cases htag : q.2.requiredTag = tag <;> simp [htag]

theorem getElem?_counters (fallback : Bool) (list : List ServiceInstance) {c m : ℕ} {q : Request}
    (hq : qs[m]? = some q) : ∃ c', (counters fallback list c qs)[m]? = some c' := by
  induction qs generalizing c m with
  | nil => cases hq
  | cons q' qs ih =>
    cases m with
    | zero => exact ⟨c, rfl⟩
    | succ m => exact ih hq

/-- **Whose turn it is, under a tag filter around round-robin.**  The requests that carry a tag get
its `j`-th candidate exactly where the counter of the service, which the requests of all tags
advance, leaves the remainder `j`; and where it has gone up by one, modulo the number of candidates,
from each of these requests to the next, every candidate gets its fair share of them. -/
theorem rotation (hid : Distinct list) (hsvc : ∀ q ∈ qs, q.2.serviceName = serviceName)
    (hwrap : (sel.inner.getCounter serviceName).toNat
      + qs.countP (TakesTurn sel.fallbackOnMiss list) < 2 ^ 64)
    (h : serveAll list sel qs = some (answers, sel'))
    (hj : (candidates sel.fallbackOnMiss list tag)[j]? = some inst) :
    let n := (candidates sel.fallbackOnMiss list tag).length
    let c := (sel.inner.getCounter serviceName).toNat
    let cs := countersOf sel.fallbackOnMiss list tag c qs
    (∀ (m : ℕ) (q : Request), qs[m]? = some q → q.2.requiredTag = tag →
      ∃ c', (counters sel.fallbackOnMiss list c qs)[m]? = some c'
        ∧ (answers[m]? = some (some inst) ↔ c' % n = j))
      ∧ selections tag inst qs answers = cs.countP (fun c => c % n = j)
      ∧ ((cs.IsChain fun c c' => c' ≡ c + 1 [MOD n]) →
        FairShare n (qs.countP fun q => q.2.requiredTag = tag)
          (selections tag inst qs answers)) := by
  intro n c cs
  have hanswers := serveAll_eq hid hsvc hwrap h
  have hcount : selections tag inst qs answers = cs.countP fun c => c % n = j := by
    rw [hanswers, selections_zipWith hid hj]
  refine ⟨fun m q hq htag => ?_, hcount, fun hchain => ?_⟩
  · obtain ⟨c', hc'⟩ := getElem?_counters sel.fallbackOnMiss list (c := c) hq
    refine ⟨c', hc', ?_⟩
    rw [hanswers, List.getElem?_zipWith, hq, hc', ← getElem?_mod_eq_some_iff hid hj, ← htag]
    simp
  · obtain ⟨hlt, -⟩ := List.getElem?_eq_some_iff.mp hj
    rw [hcount, ← length_countersOf]
    exact countP_of_isChain (Nat.zero_lt_of_lt hlt) hlt hchain

/-- Where no other requests take turns, the counter goes up by one from each request to the next. -/
theorem countersOf_alone {c : ℕ} (hn : 2 ≤ (candidates fallback list tag).length)
    (halone : ∀ q ∈ qs, TakesTurn fallback list q → q.2.requiredTag = tag) :
    countersOf fallback list tag c qs
      = List.range' c (qs.countP fun q => q.2.requiredTag = tag) := by
  induction qs generalizing c with
  | nil => rfl
  | cons q qs ih =>
    obtain ⟨hq, hqs⟩ := List.forall_mem_cons.mp halone
    have hrest := @ih (if TakesTurn fallback list q then c + 1 else c) hqs
    rw [countersOf] at hrest ⊢
    rw [counters, List.zip_cons_cons, List.filter_cons, List.countP_cons]
    by_cases htag : q.2.requiredTag = tag
    · have hturn : TakesTurn fallback list q := by rwa [TakesTurn, htag]
      rw [if_pos hturn] at hrest ⊢
      simp [htag, hrest, List.range'_succ]
    · rw [if_neg fun hturn => htag (hq hturn)] at hrest ⊢
      simp [htag, hrest]

/-- An instance of version 2. -/
def version2 (host : String) : ServiceInstance :=
  { ServiceInstance.simple "order-svc" host 8080 with
    metadata := (∅ : HashMap String String).insert "version" "v2" }

def twins : List ServiceInstance := [version2 "127.0.0.1", version2 "127.0.0.2"]

/-- Requests for version 2, with a request without a tag after each. -/
def alternating : List Request :=
  let untagged := SelectContext.new "order-svc"
  let tagged := { untagged with requiredTag := some ("version", "v2") }
  [tagged, untagged, tagged, untagged].map fun ctx => (fun _ => 0, ctx)

/-- `rotation` there: the requests for version 2 find the counter at 0 and at 2. -/
theorem rotation_alternating : ∃ answers sel',
    serveAll twins (new .new) alternating = some (answers, sel')
      ∧ selections (some ("version", "v2")) (version2 "127.0.0.1") alternating answers = 2 := by
  obtain ⟨⟨answers, sel'⟩, h⟩ := Option.isSome_iff_exists.mp
    (by decide +kernel : (serveAll twins (new .new) alternating).isSome)
  have hsvc : ∀ q ∈ alternating, q.2.serviceName = "order-svc" := by decide +kernel
  exact ⟨answers, sel', h, (rotation (j := 0) (by decide +kernel) hsvc (by decide +kernel) h
    (by decide +kernel)).2.1.trans (by decide +kernel)⟩

/-- **One of two gets it all**, where requests without a tag take every second turn. -/
theorem one_gets_all : ¬ ∀ (fallback : Bool) (list : List ServiceInstance)
    (serviceName : String) (qs : List Request) (answers : List (Option ServiceInstance))
    (sel' : TagFilterSelector RoundRobinSelector), Distinct list →
    (∀ q ∈ qs, q.2.serviceName = serviceName) → qs.length < 2 ^ 64 →
    serveAll list ((new .new).withFallback fallback) qs = some (answers, sel') →
    ∀ tag, ∀ inst ∈ candidates true list tag, FairShare (candidates true list tag).length
      (qs.countP fun q => q.2.requiredTag = tag) (selections tag inst qs answers) := by
  intro h
  obtain ⟨⟨answers, sel'⟩, hserve, rfl⟩ := Option.map_eq_some_iff.mp
    (by decide +kernel : (serveAll twins ((new .new).withFallback true) alternating).map Prod.fst
      = some [some (version2 "127.0.0.1"), some (version2 "127.0.0.2"),
        some (version2 "127.0.0.1"), some (version2 "127.0.0.2")])
  have hshare := h true twins "order-svc" alternating _ sel' (by decide +kernel)
    (by decide +kernel) (by decide +kernel) hserve (some ("version", "v2"))
    (version2 "127.0.0.1") (by decide +kernel)
  exact absurd hshare (by decide +kernel)

end TagFilterSelector

end PecsRegistry
