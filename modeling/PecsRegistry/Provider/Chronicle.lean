import PecsRegistry.Provider.Feed

/-!
# Provider/Chronicle — a registry that numbers its updates

A registry of any services, seen from outside: each service has a log of updates, and a stream of a
service reads its log from where it stood at the watch.  A stream may skip updates, or end; listings
and watches may fail.  The log says which update an event is, so that one can tell those before a
listing from those after it.
-/

namespace PecsRegistry

open Transition Writes

/-- Logs by service; for each open stream, its service and the number of the update it reads
next. -/
structure Chronicle where
  logs : HashMap String (List ServiceEvent)
  streams : HashMap ℕ (String × ℕ)
  nextStream : ℕ

inductive ChronicleOp
  | update (name : String) (event : ServiceEvent)
  | skip (stream : ℕ)

namespace Chronicle

def empty : Chronicle := ⟨∅, ∅, 0⟩

/-- The updates of a service, oldest first. -/
def log (reg : Chronicle) (name : String) : List ServiceEvent := (reg.logs.lookup name).getD []

/-- The list that updates lead to. -/
def listAfter (events : List ServiceEvent) : List ServiceInstance := events.foldl newList []

/-- The map that updates lead to. -/
def mapAfter (events : List ServiceEvent) : String → Option ServiceInstance :=
  byId (listAfter events)

theorem mapAfter_snoc (events : List ServiceEvent) (event : ServiceEvent) :
    mapAfter (events ++ [event]) = event.write.apply (mapAfter events) := by
  rw [mapAfter, listAfter, List.foldl_append]
  exact newList_byId _ event

def act (reg : Chronicle) : ChronicleOp → Option Chronicle
  | .update name event => some { reg with logs := reg.logs.insert name (reg.log name ++ [event]) }
  | .skip stream =>
      match reg.streams.lookup stream with
      | some (name, pos) => some { reg with streams := reg.streams.insert stream (name, pos + 1) }
      | none => none

def answer (reg : Chronicle) : Query → Option Chronicle
  | .list name (.ok list) => if SameMap list (listAfter (reg.log name)) then some reg else none
  | .list _ (.error _) => some reg
  | .watch name (.ok stream) =>
      if stream = reg.nextStream then
        some { reg with
          streams := reg.streams.insert stream (name, (reg.log name).length)
          nextStream := stream + 1 }
      else none
  | .watch _ (.error _) => some reg
  | .next stream (some event) =>
      match reg.streams.lookup stream with
      | some (name, pos) =>
          if (reg.log name)[pos]? = some event then
            some { reg with streams := reg.streams.insert stream (name, pos + 1) }
          else none
      | none => none
  | .next stream none => some { reg with streams := reg.streams.erase stream }

def provider : Provider Chronicle ChronicleOp := ⟨act, answer⟩

variable {reg reg' : Chronicle} {name : String}

/-! ## What the registry does to its logs -/

theorem log_of_answer {q : Query} (h : answer reg q = some reg') :
    reg'.log name = reg.log name := by
  revert h
  fun_cases answer reg q <;> intro h <;> simp only [reduceCtorEq, Option.some.injEq] at h
  all_goals
    subst h
    rfl

/-- A log only grows. -/
theorem log_of_act {op : ChronicleOp} (h : reg.act op = some reg') :
    reg.log name <+: reg'.log name := by
  revert h
  fun_cases act reg op <;> intro h <;> simp only [reduceCtorEq, Option.some.injEq] at h
  case case1 name' event =>
    subst h
    rw [log, log, HashMap.lookup_insert]
    split_ifs with hname
    · rw [hname]
      exact List.prefix_append _ _
    · exact List.prefix_rfl
  case case2 =>
    subst h
    exact List.prefix_rfl

theorem log_of_step {sys sys' : Deployment Chronicle} {l : DirectoryLabel ⊕ ChronicleOp}
    (h : provider.step sys l = some sys') :
    sys.registry.log name <+: sys'.registry.log name := by
  rcases l with l | op
  · rcases Provider.registry_of_step h with hsame | ⟨q, hanswer⟩
    · rw [hsame]
    · rw [log_of_answer hanswer]
  · exact log_of_act (Provider.step_inr_eq_some.mp h).1

theorem log_of_run {sys sys' : Deployment Chronicle} {w : List (DirectoryLabel ⊕ ChronicleOp)}
    (h : run provider.step sys w = some sys') :
    sys.registry.log name <+: sys'.registry.log name :=
  preserved_run (I := fun s => sys.registry.log name <+: s.registry.log name)
    (fun _ _ _ hs hstep => hs.trans (log_of_step hstep)) List.prefix_rfl h

/-- What a listing and a delivery show of the log. -/
theorem listed_of_answer {list : List ServiceInstance}
    (h : answer reg (.list name (.ok list)) = some reg') : byId list = mapAfter (reg.log name) := by
  rw [answer] at h
  split_ifs at h with hsame
  exact hsame

theorem next_of_answer {stream pos : ℕ} {event : ServiceEvent}
    (hstream : reg.streams.lookup stream = some (name, pos))
    (h : answer reg (.next stream (some event)) = some reg') :
    (reg.log name)[pos]? = some event := by
  simp only [answer, hstream] at h
  split_ifs at h with hevent
  exact hevent

end Chronicle

end PecsRegistry
