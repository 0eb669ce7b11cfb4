import Mathlib.Data.Set.Basic
import Mathlib.Tactic.Common

set_option autoImplicit false

/-! # Families of sets with an element in common

`Shared F` says that one element is in all nonempty sets of the family. A protocol in which every
party takes the whole of what it finds keeps it: what is taken later contains what was there. -/

namespace SetFamily

variable {α : Type} {F F' : Set (Set α)}

/-- One element is in all nonempty sets of the family. -/
def Shared (F : Set (Set α)) : Prop := ∃ f, ∀ H ∈ F, H.Nonempty → f ∈ H

/-- Two nonempty sets of the family meet. -/
theorem Shared.inter_nonempty (h : Shared F) {H K : Set α} (hH : H ∈ F) (hK : K ∈ F)
    (hHne : H.Nonempty) (hKne : K.Nonempty) : (H ∩ K).Nonempty := by
  obtain ⟨f, hf⟩ := h
  exact ⟨f, hf H hH hHne, hf K hK hKne⟩

/-- Each nonempty set of the new family contains one of the old. -/
theorem Shared.of_contains (h : Shared F)
    (hsup : ∀ K ∈ F', K.Nonempty → ∃ H ∈ F, H.Nonempty ∧ H ⊆ K) : Shared F' := by
  obtain ⟨f, hf⟩ := h
  refine ⟨f, fun K hK hne => ?_⟩
  obtain ⟨H, hH, hHne, hsub⟩ := hsup K hK hne
  exact hsub (hf H hH hHne)

theorem Shared.mono (h : Shared F) (hsub : ∀ K ∈ F', K.Nonempty → K ∈ F) : Shared F' :=
  h.of_contains (fun K hK hne => ⟨K, hsub K hK hne, hne, subset_rfl⟩)

/-- Only one set of the family is not empty. -/
theorem shared_of_eq [Nonempty α] (S : Set α) (h : ∀ K ∈ F, K.Nonempty → K = S) : Shared F := by
  rcases S.eq_empty_or_nonempty with rfl | ⟨f, hf⟩
  · refine ⟨Classical.arbitrary α, fun K hK hne => ?_⟩
    rw [h K hK hne] at hne
    exact absurd rfl hne.ne_empty
  · exact ⟨f, fun K hK hne => by rw [h K hK hne]; exact hf⟩

end SetFamily
