import Mathlib.Data.List.Basic
import Mathlib.Data.List.Forall2
import Mathlib.Tactic.Common

set_option autoImplicit false

/-! # Bounded channels

A queue of at most `capacity` messages. A sender waits while it is full, a receiver while it is
empty. What is sent goes to the end and what is received comes from the front, so the messages
received so far followed by those in the queue are the messages sent, in their order. -/

/-- A channel with at most `capacity` messages in it, the oldest first. -/
structure Channel (α : Type) (capacity : Nat) where
  items : List α
  bounded : items.length ≤ capacity

namespace Channel

variable {α : Type} {capacity : Nat} {c c' : Channel α capacity} {x : α}

def empty (α : Type) (capacity : Nat) : Channel α capacity := ⟨[], Nat.zero_le _⟩

theorem length_concat_le {items : List α} (x : α) (h : items.length < capacity) :
    (items ++ [x]).length ≤ capacity := by
  rw [List.length_append, List.length_singleton]
  exact h

/-- The channel after a message was sent, `none` while there is no room for it. -/
def send (c : Channel α capacity) (x : α) : Option (Channel α capacity) :=
  if h : c.items.length < capacity then
    some ⟨c.items ++ [x], length_concat_le x h⟩
  else none

/-- The oldest message and the channel without it, `none` while there is no message. -/
def recv (c : Channel α capacity) : Option (α × Channel α capacity) :=
  match c with
  | ⟨[], _⟩ => none
  | ⟨x :: items, h⟩ => some (x, ⟨items, Nat.le_of_succ_le h⟩)

@[simp] theorem items_empty : (empty α capacity).items = [] := rfl

theorem items_send (h : c.send x = some c') : c'.items = c.items ++ [x] := by
  unfold send at h
  split at h
  · cases h; rfl
  · cases h

theorem items_recv (h : c.recv = some (x, c')) : c.items = x :: c'.items := by
  obtain ⟨items, hitems⟩ := c
  cases items with
  | nil => cases h
  | cons y items => cases h; rfl

theorem items_of_recv_none (h : c.recv = none) : c.items = [] := by
  obtain ⟨items, hitems⟩ := c
  cases items with
  | nil => rfl
  | cons y items => cases h

theorem length_recv (h : c.recv = some (x, c')) : c.items.length = c'.items.length + 1 := by
  rw [items_recv h, List.length_cons]

theorem length_send (h : c.send x = some c') : c'.items.length = c.items.length + 1 := by
  rw [items_send h, List.length_append, List.length_singleton]

/-- Where there is no room, there is a message. -/
theorem recv_of_send_none (hcap : 0 < capacity) (h : c.send x = none) :
    ∃ y c', c.recv = some (y, c') := by
  obtain ⟨items, hitems⟩ := c
  cases items with
  | nil => simp [send, hcap] at h
  | cons y items => exact ⟨y, _, rfl⟩

end Channel
