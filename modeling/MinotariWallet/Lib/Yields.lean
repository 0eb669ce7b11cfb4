import Mathlib.Tactic.Common

set_option autoImplicit false

/-! # What a program returns

`Yields x P`: if `x` returns, what it returns has `P`. The rules go along the structure of a program
in `Except`, as those for a postcondition do. -/

/-- `x` fails, or returns a value with `P`. -/
def Yields {ε α : Type} (x : Except ε α) (P : α → Prop) : Prop := ∀ a, x = .ok a → P a

namespace Yields

variable {ε α β σ : Type} {x : Except ε α} {P : α → Prop} {Q : β → Prop}

theorem ok {a : α} (h : P a) : Yields (.ok a : Except ε α) P := fun _ ha => Except.ok.inj ha ▸ h

theorem error (e : ε) : Yields (.error e : Except ε α) P := fun _ h => nomatch h

theorem bind {f : α → Except ε β} (hx : Yields x P) (hf : ∀ a, P a → Yields (f a) Q) :
    Yields (x >>= f) Q := by
  intro b hb
  cases hxa : x with
  | error e =>
      rw [hxa] at hb
      cases hb
  | ok a =>
      rw [hxa] at hb
      exact hf a (hx a hxa) b hb

/-- Every element of the result comes from one of the list. -/
theorem mapM {f : α → Except ε β} {l : List α} (hf : ∀ a ∈ l, Yields (f a) Q) :
    Yields (l.mapM f) (fun bs => ∀ b ∈ bs, Q b) := by
  induction l with
  | nil => exact ok (fun b hb => nomatch hb)
  | cons a l ih =>
      rw [List.mapM_cons]
      refine bind (hf a List.mem_cons_self) (fun b hb => ?_)
      refine bind (ih (fun a ha => hf a (List.mem_cons_of_mem _ ha))) (fun bs hbs => ok ?_)
      exact List.forall_mem_cons.mpr ⟨hb, hbs⟩

/-- An invariant of the loop's body. -/
theorem foldlM {I : σ → Prop} {f : σ → α → Except ε σ} {l : List α}
    (hf : ∀ s, I s → ∀ a ∈ l, Yields (f s a) I) {s : σ} (hs : I s) :
    Yields (l.foldlM f s) I := by
  induction l generalizing s with
  | nil => exact ok hs
  | cons a l ih =>
      rw [List.foldlM_cons]
      exact bind (hf s hs a List.mem_cons_self)
        (fun s' hs' => ih (fun s hs a ha => hf s hs a (List.mem_cons_of_mem _ ha)) hs')

end Yields
