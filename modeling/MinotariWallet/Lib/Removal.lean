import Mathlib.Data.List.Induction
import Mathlib.Data.List.Forall2
import Mathlib.Data.List.Perm.Basic
import Mathlib.Data.List.Range
import Mathlib.Data.List.Sort
import Mathlib.Tactic.Common
import MinotariWallet.Lib.Yields

set_option autoImplicit false

/-! # Loops that take elements out of a list by index

`for i in … { if p(items[i]) { built.push(build(items.remove(i))?) } }`. Every removal shifts the
elements behind it, so such a loop is right only if it goes from the back to the front. -/

namespace Removal

variable {α β ε : Type}

/-! ## The elements at given indices -/

def pick (items : List α) (is : List Nat) : List α := is.filterMap (items[·]?)

@[simp] theorem pick_nil {items : List α} : pick items [] = [] := rfl

theorem pick_append {items : List α} {is js : List Nat} :
    pick items (is ++ js) = pick items is ++ pick items js := List.filterMap_append

theorem pick_cons {items : List α} {i : Nat} {is : List Nat} {x : α} (h : items[i]? = some x) :
    pick items (i :: is) = x :: pick items is := List.filterMap_cons_some h

theorem pick_perm {items : List α} {is js : List Nat} (h : is.Perm js) :
    (pick items is).Perm (pick items js) := h.filterMap _

/-- Every element once, when every index is there once. -/
theorem pick_range {items : List α} : pick items (List.range items.length) = items := by
  induction items using List.reverseRecOn with
  | nil => rfl
  | append_singleton items x ih =>
      have hsame : (List.range items.length).filterMap ((items ++ [x])[·]?) =
          (List.range items.length).filterMap (items[·]?) :=
        List.filterMap_congr (fun i hi => List.getElem?_append_left (List.mem_range.mp hi))
      rw [pick, List.length_append, List.length_singleton, List.range_succ, List.filterMap_append,
        hsame]
      unfold pick at ih
      rw [ih]
      simp

/-! ## The loop -/

/-- The loop over the given indices: what is left of the items, and what was built, in the order in
    which it was. `noElement` is the failure to find an index. -/
def takeOut (noElement : ε) (p : α → Bool) (build : α → Except ε β) :
    List Nat → List α → Except ε (List α × List β)
  | [], items => .ok (items, [])
  | i :: is, items =>
      match items[i]? with
      | none => .error noElement
      | some x =>
          if p x then do
            let b ← build x
            let (rest, built) ← takeOut noElement p build is (items.eraseIdx i)
            pure (rest, b :: built)
          else takeOut noElement p build is items

variable {noElement : ε} {p : α → Bool} {build : α → Except ε β} {R : α → β → Prop}

/-- From the back to the front, the loop splits the list: nothing is dropped and nothing is looked
    at twice. -/
theorem takeOut_reverse_range (noElement : ε)
    (hbuild : ∀ x, p x = true → ∃ b, build x = .ok b ∧ R x b) (items kept : List α) :
    ∃ built, takeOut noElement p build (List.range items.length).reverse (items ++ kept) =
        .ok (items.filter (fun x => !p x) ++ kept, built) ∧
      List.Forall₂ R (items.filter p).reverse built := by
  -- the elements behind the index have been decided
  induction items using List.reverseRecOn generalizing kept with
  | nil => exact ⟨[], rfl, .nil⟩
  | append_singleton items x ih =>
      have hrange : (List.range (items ++ [x]).length).reverse =
          items.length :: (List.range items.length).reverse := by
        rw [List.length_append, List.length_singleton, List.range_succ, List.reverse_append]
        rfl
      have hget : (items ++ [x] ++ kept)[items.length]? = some x := by simp
      rw [hrange]
      simp only [takeOut, hget]
      by_cases hp : p x = true
      · obtain ⟨b, hb, hR⟩ := hbuild x hp
        obtain ⟨built, hrun, hbuilt⟩ := ih kept
        have herase : (items ++ [x] ++ kept).eraseIdx items.length = items ++ kept := by
          rw [List.append_assoc, List.eraseIdx_append_of_length_le (le_refl _), Nat.sub_self]
          rfl
        refine ⟨b :: built, ?_, ?_⟩
        · rw [if_pos hp, herase, hb, hrun]
          simp [hp, bind, Except.bind, pure, Except.pure]
        · simpa [hp] using ⟨hR, hbuilt⟩
      · obtain ⟨built, hrun, hbuilt⟩ := ih (x :: kept)
        refine ⟨built, ?_, ?_⟩
        · simpa [hp] using hrun
        · simpa [hp] using hbuilt

/-- Indices in descending order take out exactly the elements that they had at the start. -/
theorem takeOut_descending (noElement : ε) {is : List Nat} {items : List α} (hsorted : is.Pairwise (· > ·))
    (hlt : ∀ i ∈ is, i < items.length) :
    ∃ rest, takeOut noElement (fun _ => true) (fun x => .ok x) is items =
        .ok (rest, pick items is) ∧ items.Perm (pick items is ++ rest) := by
  induction is generalizing items with
  | nil => exact ⟨items, rfl, .refl _⟩
  | cons i is ih =>
      obtain ⟨habove, hsorted⟩ := List.pairwise_cons.mp hsorted
      have hi : i < items.length := hlt i List.mem_cons_self
      have hrest : ∀ j ∈ is, j < (items.eraseIdx i).length := by
        intro j hj
        have hji := habove j hj
        rw [List.length_eraseIdx_of_lt hi]
        omega
      obtain ⟨rest, hrun, hperm⟩ := ih hsorted hrest
      have hsome : items[i]? = some items[i] := List.getElem?_eq_getElem hi
      -- the indices to come are below, where nothing has shifted
      have hsame : pick (items.eraseIdx i) is = pick items is :=
        List.filterMap_congr (fun j hj => List.getElem?_eraseIdx_of_lt (habove j hj))
      rw [hsame] at hrun hperm
      refine ⟨rest, ?_, ?_⟩
      · rw [takeOut, hsome, pick_cons hsome]
        simp [bind, Except.bind, pure, Except.pure, hrun]
      · rw [pick_cons hsome]
        exact (List.getElem_cons_eraseIdx_perm hi).symm.trans (hperm.cons _)

/-- Whatever the indices: what is left was there, and what was built was built from what was there. -/
theorem takeOut_yields {Q : β → Prop} {is : List Nat} {items : List α}
    (hbuild : ∀ x ∈ items, p x = true → Yields (build x) Q) :
    Yields (takeOut noElement p build is items)
      (fun r => r.1 ⊆ items ∧ ∀ b ∈ r.2, Q b) := by
  induction is generalizing items with
  | nil => exact .ok ⟨List.Subset.refl _, fun b hb => nomatch hb⟩
  | cons i is ih =>
      unfold takeOut
      cases hget : items[i]? with
      | none => exact .error _
      | some x =>
          dsimp only
          split
          · next hp =>
              have hsub : items.eraseIdx i ⊆ items := List.eraseIdx_subset
              refine .bind (hbuild x (List.mem_of_getElem? hget) hp) (fun b hb => ?_)
              refine .bind (ih (fun x hx => hbuild x (hsub hx))) (fun r hr => .ok ⟨?_, ?_⟩)
              · exact List.Subset.trans hr.1 hsub
              · exact List.forall_mem_cons.mpr ⟨hb, hr.2⟩
          · exact ih hbuild

end Removal
