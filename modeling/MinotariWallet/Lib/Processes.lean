import Mathlib.Data.List.Basic
import Mathlib.Tactic.Common

set_option autoImplicit false

/-! # Processes on shared state

A list of processes, of which one at a time takes a step and new ones start at the end. An invariant
of such a system says what holds of each process; the rules below split its proof as usual: the
process that moves reaches its new assertion, and no other assertion is disturbed. -/

namespace Processes

variable {π : Type} {procs : List π} {i j : Nat} {p q : π}

/-- A process after process `i` has moved: it is the one that did, or it stayed. -/
theorem getElem?_set_cases (h : (procs.set i p)[j]? = some q) :
    (j = i ∧ q = p) ∨ (j ≠ i ∧ procs[j]? = some q) := by
  rw [List.getElem?_set] at h
  by_cases hj : i = j
  · subst hj
    simp only [if_true] at h
    split at h
    · cases h; exact Or.inl ⟨rfl, rfl⟩
    · cases h
  · rw [if_neg hj] at h
    exact Or.inr ⟨Ne.symm hj, h⟩

/-- A process after one has started: it is the new one, or it was there. -/
theorem getElem?_append_cases (h : (procs ++ [p])[j]? = some q) :
    procs[j]? = some q ∨ (j = procs.length ∧ q = p) := by
  rw [List.getElem?_append] at h
  split at h
  · exact Or.inl h
  · next hj =>
      rw [List.getElem?_singleton] at h
      split at h
      · cases h
        exact Or.inr ⟨by omega, rfl⟩
      · cases h

/-- Every process has the assertion `K`, which may refer to its number. -/
def Each (K : Nat → π → Prop) (procs : List π) : Prop := ∀ i p, procs[i]? = some p → K i p

variable {K K' : Nat → π → Prop}

instance [∀ i p, Decidable (K i p)] : Decidable (Each K procs) :=
  decidable_of_iff (∀ q ∈ procs.zipIdx, K q.2 q.1)
    ⟨fun h i p hp => h (p, i) (List.mem_zipIdx_iff_getElem?.mpr hp),
      fun h q hq => h q.2 q.1 (List.mem_zipIdx_iff_getElem?.mp hq)⟩

theorem each_nil : Each K [] := by
  intro i p h
  simp at h

theorem Each.mono (h : Each K procs) (hK : ∀ i p, procs[i]? = some p → K i p → K' i p) :
    Each K' procs :=
  fun i p hp => hK i p hp (h i p hp)

/-- One process moves. -/
theorem Each.set (h : Each K procs) (hself : K' i p)
    (hothers : ∀ j q, j ≠ i → procs[j]? = some q → K j q → K' j q) : Each K' (procs.set i p) := by
  intro j q hq
  rcases getElem?_set_cases hq with ⟨rfl, rfl⟩ | ⟨hj, hq⟩
  · exact hself
  · exact hothers j q hj hq (h j q hq)

/-- A process starts. -/
theorem Each.append (h : Each K procs) (hself : K' procs.length p)
    (hothers : ∀ j q, procs[j]? = some q → K j q → K' j q) : Each K' (procs ++ [p]) := by
  intro j q hq
  rcases getElem?_append_cases hq with hq | ⟨rfl, rfl⟩
  · exact hothers j q hq (h j q hq)
  · exact hself

end Processes
