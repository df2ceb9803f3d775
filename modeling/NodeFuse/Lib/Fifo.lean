import Mathlib.Data.List.Infix

/-!
# A lossless first-in first-out channel

What has been received and what still waits make up what was sent, in order. A channel carries the
proof, so one that lost, repeated or reordered an item cannot be built.
-/

/-- A channel with all that was ever sent on it and received from it. -/
structure Fifo (α : Type*) where
  sent : List α
  received : List α
  queue : List α
  ordered : sent = received ++ queue

namespace Fifo

variable {α : Type*}

def empty : Fifo α := ⟨[], [], [], rfl⟩

def send (c : Fifo α) (a : α) : Fifo α :=
  ⟨c.sent ++ [a], c.received, c.queue ++ [a], by simp [c.ordered]⟩

def receive (c : Fifo α) : Option (α × Fifo α) :=
  match h : c.queue with
  | [] => none
  | a :: q => some (a, ⟨c.sent, c.received ++ [a], q, by simp [c.ordered, h]⟩)

inductive Event (α : Type*)
  | send (a : α)
  | receive

def step (c : Fifo α) : Event α → Option (Fifo α)
  | .send a => some (c.send a)
  | .receive => c.receive.map Prod.snd

@[simp] theorem empty_queue : (empty : Fifo α).queue = [] := rfl
@[simp] theorem send_sent (c : Fifo α) (a : α) : (c.send a).sent = c.sent ++ [a] := rfl
@[simp] theorem send_queue (c : Fifo α) (a : α) : (c.send a).queue = c.queue ++ [a] := rfl

theorem receive_eq_some {c c' : Fifo α} {a : α} (h : c.receive = some (a, c')) :
    c.queue = a :: c'.queue ∧ c'.received = c.received ++ [a] ∧ c'.sent = c.sent := by
  unfold receive at h
  split at h
  · cases h
  · simp only [Option.some.injEq, Prod.mk.injEq] at h
    obtain ⟨rfl, rfl⟩ := h
    exact ⟨by assumption, rfl, rfl⟩

theorem receive_of_queue {c : Fifo α} {a : α} {q : List α} (h : c.queue = a :: q) :
    ∃ c', c.receive = some (a, c') ∧ c'.queue = q ∧ c'.received = c.received ++ [a]
      ∧ c'.sent = c.sent := by
  obtain ⟨sent, received, queue, ordered⟩ := c
  simp only at h
  subst h
  exact ⟨_, rfl, rfl, rfl, rfl⟩

theorem received_prefix (c : Fifo α) : c.received <+: c.sent := ⟨c.queue, c.ordered.symm⟩

end Fifo
