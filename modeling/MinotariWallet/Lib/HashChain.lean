import Mathlib.Data.List.Chain
import Mathlib.Tactic.Common

set_option autoImplicit false

/-! # Hash-linked chains

A header commits to its parent, so where hashes do not collide the parent's hash is a function `prev`
of a block's own. A chain lists the hashes of its blocks by height, each the parent of the next. Two
chains that have the same hash at a height then have the same blocks up to it: one comparison
decides about everything below. -/

/-- A chain whose blocks are linked by `prev`. -/
structure HashChain {η : Type} (prev : η → η) where
  hashes : List η
  linked : hashes.IsChain (fun parent child => prev child = parent)

namespace HashChain

variable {η : Type} {prev : η → η} {A B : HashChain prev}

/-- The hash at a height, if the chain is that long. -/
def hashAt (A : HashChain prev) (height : Nat) : Option η := A.hashes[height]?

/-- The parent of a block is on the chain, one height below. -/
theorem hashAt_parent {height : Nat} {x : η} (h : A.hashAt (height + 1) = some x) :
    A.hashAt height = some (prev x) := by
  obtain ⟨hlt, hx⟩ := List.getElem?_eq_some_iff.mp h
  have hlink := A.linked.getElem height hlt
  rw [hx] at hlink
  exact List.getElem?_eq_some_iff.mpr ⟨Nat.lt_of_succ_lt hlt, hlink.symm⟩

/-- Two chains that agree at a height agree at every height below. -/
theorem agree_below {k height : Nat} {x : η} (hA : A.hashAt height = some x)
    (hB : B.hashAt height = some x) (hk : k ≤ height) : A.hashAt k = B.hashAt k := by
  induction height generalizing x with
  | zero =>
      obtain rfl : k = 0 := by omega
      rw [hA, hB]
  | succ n ih =>
      rcases Nat.lt_or_ge k (n + 1) with hlt | hge
      · exact ih (hashAt_parent hA) (hashAt_parent hB) (by omega)
      · obtain rfl : k = n + 1 := by omega
        rw [hA, hB]

/-- The block is on the chain, for a height that may come from a signed column. -/
def Has (A : HashChain prev) (height : Int) (x : η) : Prop :=
  0 ≤ height ∧ A.hashAt height.toNat = some x

theorem has_natCast {height : Nat} {x : η} : A.Has height x ↔ A.hashAt height = some x := by
  simp [Has]

theorem Has.unique {height : Int} {x y : η} (hx : A.Has height x) (hy : A.Has height y) :
    x = y :=
  Option.some.inj (hx.2.symm.trans hy.2)

/-- What is on one of two chains at or below a height where they agree is on the other. -/
theorem Has.of_agree {height height' : Int} {x y : η} (hx : A.Has height x)
    (hA : A.Has height' y) (hB : B.Has height' y) (hle : height ≤ height') : B.Has height x := by
  have hagree := agree_below hA.2 hB.2 (Int.toNat_le_toNat hle)
  exact ⟨hx.1, hagree ▸ hx.2⟩

/-- Two chains that differ at a height differ at every height above that both have. -/
theorem not_has_above {height height' : Int} {x y : η} (hx : A.Has height x) (hB : ¬B.Has height x)
    (hy : A.Has height' y) (hle : height ≤ height') : ¬B.Has height' y :=
  fun hy' => hB (hx.of_agree hy hy' hle)

instance (A : HashChain prev) [DecidableEq η] (height : Int) (x : η) :
    Decidable (A.Has height x) := by
  unfold Has; infer_instance

end HashChain
