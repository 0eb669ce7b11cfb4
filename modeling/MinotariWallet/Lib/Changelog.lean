import Mathlib.Data.List.Perm.Basic

set_option autoImplicit false

/-! # Logs of what comes and goes

A log says of each thing that it is added or removed; whoever replays it holds what has been added
and not removed since. -/

namespace Changelog

inductive Entry (α : Type) where
  | added (a : α)
  | removed (a : α)
deriving DecidableEq

variable {α : Type} [DecidableEq α]

def Entry.apply (held : List α) : Entry α → List α
  | .added a => held ++ [a]
  | .removed a => held.erase a

/-- What is held after the log, from what was held before it. -/
def replay (held : List α) (log : List (Entry α)) : List α := log.foldl Entry.apply held

@[simp] theorem replay_nil (held : List α) : replay held [] = held := rfl

@[simp] theorem replay_cons (held : List α) (entry : Entry α) (log : List (Entry α)) :
    replay held (entry :: log) = replay (entry.apply held) log := rfl

theorem replay_append (held : List α) (log log' : List (Entry α)) :
    replay held (log ++ log') = replay (replay held log) log' := List.foldl_append

/-- The order in which things are held does not matter. -/
theorem replay_perm {held held' : List α} (log : List (Entry α)) (h : held.Perm held') :
    (replay held log).Perm (replay held' log) := by
  induction log generalizing held held' with
  | nil => exact h
  | cons entry log ih =>
      refine ih ?_
      cases entry with
      | added a => exact h.append_right [a]
      | removed a => exact h.erase a

/-- What is removed from something that holds it besides what is kept. -/
theorem replay_removed {held kept gone : List α} (h : held.Perm (kept ++ gone)) :
    (replay held (gone.map .removed)).Perm kept := by
  induction gone generalizing held with
  | nil => simpa using h
  | cons a gone ih =>
      refine ih ?_
      have hfirst : held.Perm (a :: (kept ++ gone)) := h.trans List.perm_middle
      simpa [Entry.apply] using hfirst.erase a

end Changelog
