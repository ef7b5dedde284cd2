import PecsRegistry.Directory.Following

/-!
# Provider/Feed — any registry whose streams may break

A registry of one service, seen from outside: its instances change, every change is an event, and an
event reaches the stream only while the stream is live.  A stream may be severed, or end and take
what was pending with it; a watch may fail; a listing always succeeds and reads the instances in
some order.
-/

namespace PecsRegistry

open Writes

/-- Two lists that stand for one map. -/
def SameMap (list list' : List ServiceInstance) : Prop := byId list = byId list'

theorem sameMap_iff {list list' : List ServiceInstance} :
    SameMap list list'
      ↔ ∀ id ∈ (list ++ list').map (·.serviceId), byId list id = byId list' id := by
  refine ⟨fun h id _ => congrFun h id, fun h => funext fun id => ?_⟩
  by_cases hid : id ∈ (list ++ list').map (·.serviceId)
  · exact h id hid
  · rw [List.map_append, List.mem_append, not_or] at hid
    rw [byId_eq_none hid.1, byId_eq_none hid.2]

instance (list list' : List ServiceInstance) : Decidable (SameMap list list') :=
  decidable_of_iff _ sameMap_iff.symm

/-- An event stream: what it has yet to deliver, and whether the registry still feeds it. -/
structure FeedStream where
  id : ℕ
  queue : List ServiceEvent
  live : Bool
deriving DecidableEq

structure Feed where
  instances : List ServiceInstance
  stream : Option FeedStream
  nextStream : ℕ

/-- The registry changes, as an event reports; the connection of the stream breaks. -/
inductive FeedOp
  | update (event : ServiceEvent)
  | sever

namespace Feed

def act (reg : Feed) : FeedOp → Option Feed
  | .update event =>
      some { reg with
        instances := newList reg.instances event
        stream := reg.stream.map fun s =>
          if s.live then { s with queue := s.queue ++ [event] } else s }
  | .sever => some { reg with stream := reg.stream.map fun s => { s with live := false } }

def answer (reg : Feed) : Query → Option Feed
  | .list _ (.ok list) => if SameMap list reg.instances then some reg else none
  | .list _ (.error _) => none
  | .watch _ (.ok stream) =>
      if stream = reg.nextStream then
        some { reg with stream := some ⟨stream, [], true⟩, nextStream := stream + 1 }
      else none
  | .watch _ (.error _) => some reg
  | .next stream (some event) =>
      match reg.stream with
      | some ⟨id, head :: queue, live⟩ =>
          if id = stream ∧ head = event then some { reg with stream := some ⟨id, queue, live⟩ }
          else none
      | _ => none
  | .next _ none => some { reg with stream := none }

def provider : Provider Feed FeedOp := ⟨act, answer⟩

/-- The stream is up. -/
def Live (reg : Feed) : Prop := ∃ id queue, reg.stream = some ⟨id, queue, true⟩

/-- What the stream has yet to deliver. -/
def backlog (reg : Feed) : List (Write String ServiceInstance) :=
  match reg.stream with
  | some s => s.queue.map ServiceEvent.write
  | none => []

/-- **A live stream is a source.** -/
def source (name : String) (r : ℕ) : Source provider name r where
  Open reg := ∃ queue, reg.stream = some ⟨r, queue, true⟩
  origin reg := byId reg.instances
  backlog := backlog
  writes
    | .update event => [event.write]
    | .sever => []
  Fair op _ := op ≠ .sever
  act {reg reg' op} hopen hact hfair := by
    obtain ⟨queue, hstream⟩ := hopen
    cases op with
    | sever => exact absurd rfl hfair
    | update event =>
      obtain rfl := Option.some.inj hact
      refine ⟨⟨queue ++ [event], by simp [hstream]⟩, newList_byId _ _, ?_⟩
      simp [backlog, hstream]
  deliver {reg reg' event} hopen hnext := by
    obtain ⟨queue, hstream⟩ := hopen
    cases queue with
    | nil => simp [provider, answer, hstream] at hnext
    | cons head queue =>
      simp only [provider, answer, hstream] at hnext
      split_ifs at hnext with hhead
      obtain ⟨-, rfl⟩ := hhead
      obtain rfl := Option.some.inj hnext
      exact ⟨⟨queue, rfl⟩, rfl, by simp [backlog, hstream]⟩
  listed {reg reg' list} hlist := by
    replace hlist : (if SameMap list reg.instances then some reg else none) = some reg' := hlist
    split_ifs at hlist with hsame
    exact ⟨(Option.some.inj hlist).symm, hsame⟩
  unlisted _ _ := rfl

end Feed

end PecsRegistry
