import MinotariWallet.Lib.Table
import Mathlib.Order.Defs.Unbundled

set_option autoImplicit false

/-! # Tables whose rows stay

`t.Retains R t'` says that no row of `t` is gone from `t'`: under the key of each there is still a
row, and `R` relates the two. With a preorder `R` this is a preorder on tables, which inserts and
the updates within `R` keep; a system whose statements are of these two kinds never forgets a row. -/

namespace Sql.Table

variable {ρ κ : Type} [Keyed ρ κ]

/-- Every row of `t` is still in `t'` under its key, changed within `R`. -/
def Retains (R : ρ → ρ → Prop) (t t' : Table ρ) : Prop :=
  ∀ r ∈ t.rows, ∃ r' ∈ t'.rows, key r' = key r ∧ R r r'

namespace Retains

variable {R S : ρ → ρ → Prop} {t t' t'' : Table ρ}

theorem mono (h : t.Retains R t') (hRS : ∀ r r', R r r' → S r r') : t.Retains S t' := by
  intro r hr
  obtain ⟨r', hr', hkey, hR⟩ := h r hr
  exact ⟨r', hr', hkey, hRS r r' hR⟩

theorem refl [Std.Refl R] (t : Table ρ) : t.Retains R t :=
  fun r hr => ⟨r, hr, rfl, Std.Refl.refl r⟩

theorem trans [IsTrans ρ R] (h : t.Retains R t') (h' : t'.Retains R t'') : t.Retains R t'' := by
  intro r hr
  obtain ⟨r', hr', hkey, hR⟩ := h r hr
  obtain ⟨r'', hr'', hkey', hR'⟩ := h' r' hr'
  exact ⟨r'', hr'', hkey'.trans hkey, IsTrans.trans r r' r'' hR hR'⟩

theorem insert? [DecidableEq κ] [Std.Refl R] {r : ρ} (h : t.insert? r = some t') :
    t.Retains R t' :=
  fun r₀ hr₀ => ⟨r₀, (mem_insert? h).mpr (Or.inl hr₀), rfl, Std.Refl.refl r₀⟩

theorem updateWhere [Std.Refl R] {p : ρ → Bool} {f : ρ → ρ} (h : ∀ r, p r = true → R r (f r))
    (hf : ∀ r, key (f r) = key r) : t.Retains R (t.updateWhere p f hf) := by
  intro r hr
  refine ⟨_, (mem_updateWhere hf).mpr ⟨r, hr, rfl⟩, ?_⟩
  by_cases hp : p r = true
  · rw [if_pos hp]
    exact ⟨hf r, h r hp⟩
  · rw [if_neg hp]
    exact ⟨rfl, Std.Refl.refl r⟩

end Retains

/-- An update within `R`, looked at from its rows. -/
theorem exists_of_mem_updateWhere {R : ρ → ρ → Prop} [Std.Refl R] {t : Table ρ} {p : ρ → Bool}
    {f : ρ → ρ} (h : ∀ r, p r = true → R r (f r)) (hf : ∀ r, key (f r) = key r) :
    ∀ r' ∈ (t.updateWhere p f hf).rows, ∃ r ∈ t.rows, R r r' := by
  intro r' hr'
  obtain ⟨r, hr, rfl⟩ := (mem_updateWhere hf).mp hr'
  refine ⟨r, hr, ?_⟩
  by_cases hp : p r = true
  · rw [if_pos hp]
    exact h r hp
  · rw [if_neg hp]
    exact Std.Refl.refl r

/-- An insert under the next automatic key forgets no row. -/
theorem retains_insert {ρ : Type} [Keyed ρ Nat] {R : ρ → ρ → Prop} [Std.Refl R] (t : AutoTable ρ)
    {mk : Nat → ρ} (hmk : ∀ k, key (mk k) = k) : t.Retains R (t.insert mk hmk).toTable :=
  fun r hr => ⟨r, (AutoTable.mem_insert hmk).mpr (Or.inl hr), rfl, Std.Refl.refl r⟩

/-- An update within `R` of a table with an automatic key. -/
theorem retains_updateWhere {ρ : Type} [Keyed ρ Nat] {R : ρ → ρ → Prop} [Std.Refl R]
    (t : AutoTable ρ) {p : ρ → Bool} {f : ρ → ρ} (h : ∀ r, p r = true → R r (f r))
    (hf : ∀ r, key (f r) = key r) : t.Retains R (t.updateWhere p f hf).toTable :=
  Retains.updateWhere (t := t.toTable) h hf

end Sql.Table
