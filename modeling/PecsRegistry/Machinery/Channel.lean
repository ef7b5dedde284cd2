import Mathlib.Data.List.Basic

/-!
# Machinery/Channel — a bounded first-in first-out channel

A channel holds what was sent and not yet received, at most `capacity` entries.  `trySend` drops its
entry when the channel is full; an awaited send is a `push` that waits for room.  What has been
accepted so far, received or not, is `sent`: sending with room appends to it, receiving leaves it.
-/

/-- A channel: what it holds, and what its consumer has received so far. -/
structure Channel (α : Type*) where
  queue : List α
  received : List α
deriving DecidableEq

namespace Channel

variable {α : Type*}

def empty : Channel α := ⟨[], []⟩

/-- Everything the channel has accepted, oldest first. -/
def sent (c : Channel α) : List α := c.received ++ c.queue

def HasRoom (c : Channel α) (capacity : ℕ) : Prop := c.queue.length < capacity

instance (c : Channel α) (capacity : ℕ) : Decidable (c.HasRoom capacity) :=
  inferInstanceAs (Decidable (_ < _))

def push (c : Channel α) (a : α) : Channel α := { c with queue := c.queue ++ [a] }

/-- A send that does not wait: without room the entry is lost. -/
def trySend (c : Channel α) (capacity : ℕ) (a : α) : Channel α :=
  if c.HasRoom capacity then c.push a else c

/-- The consumer receives the oldest entry. -/
def receive (c : Channel α) : Option (Channel α) :=
  match c.queue with
  | a :: queue => some ⟨queue, c.received ++ [a]⟩
  | [] => none

@[simp] theorem sent_push (c : Channel α) (a : α) : (c.push a).sent = c.sent ++ [a] :=
  (List.append_assoc ..).symm

theorem sent_trySend {c : Channel α} {capacity : ℕ} (h : c.HasRoom capacity) (a : α) :
    (c.trySend capacity a).sent = c.sent ++ [a] := by
  rw [trySend, if_pos h, sent_push]

/-- **Receiving loses nothing.** -/
theorem sent_receive {c c' : Channel α} (h : c.receive = some c') : c'.sent = c.sent := by
  rw [receive] at h
  split at h
  case h_1 a queue hqueue =>
    obtain rfl := Option.some.inj h
    rw [sent, sent, hqueue, List.append_assoc, List.singleton_append]
  case h_2 => cases h

/-- A drained channel has handed over all it accepted. -/
theorem sent_of_drained {c : Channel α} (h : c.queue = []) : c.sent = c.received := by
  rw [sent, h, List.append_nil]

/-- What was accepted first is received first. -/
theorem prefix_of_sent {c : Channel α} {first : List α} (h : first <+: c.sent) :
    c.received <+: first ∨ first <+: c.received :=
  List.prefix_or_prefix_of_prefix (List.prefix_append _ _) h

end Channel
