import Mathlib.Algebra.Order.BigOperators.Group.List
import Mathlib.Algebra.Ring.Int.Defs
import Mathlib.Algebra.Ring.Nat
import Mathlib.Data.List.Perm.Subperm

set_option autoImplicit false

/-! # Subset sums of a list

`Attains c l t` says that some elements of `l`, each taken at most once, add up to `t` from `c`. A
search that goes through the list takes or leaves its head (`attains_cons`), and may give up where
the rest cannot reach the target (`Attains.le_sum`). -/

namespace SubsetSum

variable {ι M : Type}

/-- The elements whose entry in the assignment is set, in their order. -/
def picked {α : Type} (l : List α) (assignment : List Bool) : List α :=
  ((l.zip assignment).filter (·.2)).map (·.1)

section Picked

variable {α β : Type}

@[simp] theorem picked_nil (assignment : List Bool) : picked ([] : List α) assignment = [] := rfl

@[simp] theorem picked_nil_right (l : List α) : picked l [] = [] := by
  simp [picked]

@[simp] theorem picked_cons_true (a : α) (l : List α) (assignment : List Bool) :
    picked (a :: l) (true :: assignment) = a :: picked l assignment := rfl

@[simp] theorem picked_cons_false (a : α) (l : List α) (assignment : List Bool) :
    picked (a :: l) (false :: assignment) = picked l assignment := rfl

@[simp] theorem picked_replicate_false (l : List α) (n : Nat) :
    picked l (List.replicate n false) = [] := by
  induction l generalizing n with
  | nil => rfl
  | cons a l ih =>
      cases n with
      | zero => simp
      | succ n => simp [List.replicate_succ, ih]

theorem picked_map (f : α → β) (l : List α) (assignment : List Bool) :
    picked (l.map f) assignment = (picked l assignment).map f := by
  induction l generalizing assignment with
  | nil => rfl
  | cons a l ih =>
      cases assignment with
      | nil => simp
      | cons taken assignment => cases taken <;> simp [ih]

theorem picked_sublist (l : List α) (assignment : List Bool) : (picked l assignment).Sublist l := by
  induction l generalizing assignment with
  | nil => exact .refl _
  | cons a l ih =>
      cases assignment with
      | nil => simp
      | cons taken assignment =>
          cases taken with
          | false => exact (ih assignment).cons _
          | true => exact (ih assignment).cons_cons _

end Picked

/-! ## What can be attained -/

section AddCommMonoid

variable [AddCommMonoid M] {c v t : M} {l l' : List M}

/-- Some elements of `l` add up to `t` from `c`. -/
def Attains (c : M) (l : List M) (t : M) : Prop := ∃ sub : List M, sub.Sublist l ∧ c + sub.sum = t

theorem attains_nil : Attains c [] t ↔ c = t := by
  simp [Attains]

/-- The head is taken or left. -/
theorem attains_cons : Attains c (v :: l) t ↔ Attains (c + v) l t ∨ Attains c l t := by
  constructor
  · rintro ⟨sub, hsub, hsum⟩
    rcases List.sublist_cons_iff.mp hsub with hsub | ⟨rest, rfl, hrest⟩
    · exact Or.inr ⟨sub, hsub, hsum⟩
    · exact Or.inl ⟨rest, hrest, by simpa [add_assoc] using hsum⟩
  · rintro (⟨sub, hsub, hsum⟩ | ⟨sub, hsub, hsum⟩)
    · exact ⟨v :: sub, hsub.cons_cons v, by simpa [add_assoc] using hsum⟩
    · exact ⟨sub, hsub.cons v, hsum⟩

/-- The order of the elements does not matter, nor the order in which they are taken. -/
theorem attains_iff_subperm :
    Attains c l t ↔ ∃ sub : List M, sub.Subperm l ∧ c + sub.sum = t := by
  constructor
  · rintro ⟨sub, hsub, hsum⟩
    exact ⟨sub, hsub.subperm, hsum⟩
  · rintro ⟨sub, ⟨sub', hperm, hsub⟩, hsum⟩
    exact ⟨sub', hsub, hperm.sum_eq ▸ hsum⟩

theorem attains_perm (h : l.Perm l') : Attains c l t ↔ Attains c l' t := by
  simp only [attains_iff_subperm, h.subperm_left]

/-- What the elements of a pool are worth. -/
theorem attains_map_iff {value : ι → M} {pool : List ι} :
    Attains c (pool.map value) t ↔
      ∃ sub : List ι, sub.Subperm pool ∧ c + (sub.map value).sum = t := by
  constructor
  · rintro ⟨values, hvalues, hsum⟩
    obtain ⟨sub, hsub, rfl⟩ := List.sublist_map_iff.mp hvalues
    exact ⟨sub, hsub.subperm, hsum⟩
  · rintro ⟨sub, ⟨sub', hperm, hsub⟩, hsum⟩
    exact ⟨sub'.map value, hsub.map value, (hperm.map value).sum_eq ▸ hsum⟩

end AddCommMonoid

section Ordered

variable [AddCommMonoid M] [PartialOrder M] [CanonicallyOrderedAdd M] {c t : M} {l : List M}

/-- Nothing is taken away again. -/
theorem Attains.le (h : Attains c l t) : c ≤ t := by
  obtain ⟨sub, -, rfl⟩ := h
  exact le_self_add

variable [IsOrderedAddMonoid M]

/-- Taking everything bounds what can be attained. -/
theorem Attains.le_sum (h : Attains c l t) : t ≤ c + l.sum := by
  obtain ⟨sub, hsub, rfl⟩ := h
  have hle : sub.sum ≤ l.sum := hsub.sum_le_sum (fun _ _ => zero_le)
  gcongr

/-- An element above the target is of no use. -/
theorem attains_filter_le [DecidableLE M] :
    Attains 0 (l.filter (· ≤ t)) t ↔ Attains 0 l t := by
  constructor
  · rintro ⟨sub, hsub, hsum⟩
    exact ⟨sub, hsub.trans List.filter_sublist, hsum⟩
  · rintro ⟨sub, hsub, hsum⟩
    have hle : ∀ a ∈ sub, decide (a ≤ t) = true := by
      intro a ha
      have hsingle := List.single_le_sum (fun _ _ => zero_le) a ha
      simpa [← hsum] using hsingle
    exact ⟨sub, List.filter_eq_self.mpr hle ▸ hsub.filter _, hsum⟩

end Ordered

end SubsetSum
