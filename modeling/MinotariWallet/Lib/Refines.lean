import Mathlib.Tactic.Common

set_option autoImplicit false

/-! # Programs that may fail in more cases

`Refines x y`: when `x` returns, it returns what `y` does. A program with checks refines the one
without them, by the rules below along its structure. -/

/-- `x` fails, or returns what `y` returns. -/
def Refines {ε α : Type} (x y : Except ε α) : Prop := ∀ a, x = .ok a → y = .ok a

namespace Refines

variable {ε α β γ σ : Type} {x y : Except ε α}

theorem refl (x : Except ε α) : Refines x x := fun _ h => h

theorem error (e : ε) : Refines (.error e) y := fun _ h => nomatch h

/-- A program that does not fail returns what it should. -/
theorem eq_ok {b : α} (h : Refines x (.ok b)) (hx : ∃ a, x = .ok a) : x = .ok b := by
  obtain ⟨a, ha⟩ := hx
  rw [ha, h a ha]

/-- A check in front of a value. -/
theorem guard {c : Prop} [Decidable c] {a : α} {e : ε} :
    Refines (if c then .ok a else .error e) (.ok a) := by
  split
  · exact refl _
  · exact error e

theorem bind {f g : α → Except ε β} (hx : Refines x y) (hf : ∀ a, Refines (f a) (g a)) :
    Refines (x >>= f) (y >>= g) := by
  intro b hb
  cases hxa : x with
  | error e =>
      rw [hxa] at hb
      cases hb
  | ok a =>
      rw [hxa] at hb
      rw [hx a hxa]
      exact hf a b hb

/-- The same before a value that is computed without failing. -/
theorem bind_ok {a : α} {f : α → Except ε β} {z : Except ε β} (hx : Refines x (.ok a))
    (hf : Refines (f a) z) : Refines (x >>= f) z := by
  intro b hb
  cases hxa : x with
  | error e =>
      rw [hxa] at hb
      cases hb
  | ok a' =>
      rw [hxa] at hb
      cases hx a' hxa
      exact hf b hb

/-- The same before a value that is computed from what `z` returns. -/
theorem bind_map {z : Except ε β} {h : β → α} {f : α → Except ε γ} {g : β → Except ε γ}
    (hx : Refines x (z >>= fun b => .ok (h b))) (hf : ∀ b, Refines (f (h b)) (g b)) :
    Refines (x >>= f) (z >>= g) := by
  have hbind := hx.bind (fun a => refl (f a))
  rw [bind_assoc] at hbind
  intro c hc
  exact (refl z).bind hf c (hbind c hc)

theorem ite {c : Prop} [Decidable c] {x' y' : Except ε α} (hx : c → Refines x y)
    (hx' : ¬c → Refines x' y') : Refines (if c then x else x') (if c then y else y') := by
  split
  · next hc => exact hx hc
  · next hc => exact hx' hc

theorem foldlM {f g : σ → α → Except ε σ} (hf : ∀ s a, Refines (f s a) (g s a)) (l : List α)
    (s : σ) : Refines (l.foldlM f s) (l.foldlM g s) := by
  induction l generalizing s with
  | nil => exact refl _
  | cons a l ih =>
      rw [List.foldlM_cons, List.foldlM_cons]
      exact bind (hf s a) ih

end Refines
