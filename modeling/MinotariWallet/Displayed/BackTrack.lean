import Mathlib.Algebra.Order.Group.Nat
import MinotariWallet.Displayed.Shows
import MinotariWallet.Lib.SubsetSum

set_option autoImplicit false

/-! # The search for the inputs of a target

`back_track` shares one assignment between its branches. A branch that fails leaves the entries from
its step on as it found them, so those of a branch that succeeds are set by that branch alone. -/

namespace MinotariWallet

namespace DisplayedTransactionProcessor

open SubsetSum

variable {std : StdOrder} {nums : List MicroMinotari} {target : MicroMinotari} {pool : List Nat}

/-! ## `back_track` -/

theorem suffixSums_head? (vals : List MicroMinotari) : (suffixSums vals).head? = some vals.sum := by
  induction vals with
  | nil => rfl
  | cons v vals ih =>
      simp [suffixSums, ih]

/-- The sum of the values after `step`, where `vals` are those from `step` on. -/
theorem suffix_getElem? {suffix : List MicroMinotari} {step : Nat} {v : MicroMinotari}
    {vals : List MicroMinotari} (h : suffix.drop step = suffixSums (v :: vals)) :
    suffix.drop (step + 1) = suffixSums vals ∧ suffix[step + 1]? = some vals.sum := by
  have hdrop : suffix.drop (step + 1) = suffixSums vals := by
    rw [← List.drop_drop, h]
    rfl
  refine ⟨hdrop, ?_⟩
  rw [← suffixSums_head?, ← hdrop, List.head?_drop]

/-- What a branch returns: an assignment of its values that reaches the target, or, if there is
    none, the assignment as it was. -/
inductive Explored (target : MicroMinotari) (vals : List MicroMinotari) (done : List Bool)
    (current : MicroMinotari) : Bool × List Bool → Prop where
  | found (bits : List Bool) (hlength : bits.length = vals.length)
      (hsum : current + (picked vals bits).sum = target) :
      Explored target vals done current (true, done ++ bits)
  | exhausted (hnone : ¬Attains current vals target) :
      Explored target vals done current (false, done ++ List.replicate vals.length false)

theorem Explored.of_eq {vals : List MicroMinotari} {done : List Bool} {current : MicroMinotari}
    (h : current = target) :
    Explored target vals done current (true, done ++ List.replicate vals.length false) :=
  .found _ List.length_replicate (by simp [h])

/-- The branch that takes the value has reached the target. -/
theorem Explored.of_taken {v : MicroMinotari} {vals : List MicroMinotari} {done : List Bool}
    {current : MicroMinotari} {r : Bool × List Bool}
    (h : Explored target vals (done ++ [true]) (current + v) r) (hr : r.1 = true) :
    Explored target (v :: vals) done current r := by
  cases h with
  | found bits hlength hsum =>
      rw [List.append_assoc]
      exact .found (true :: bits) (by simp [hlength]) (by simpa [add_assoc] using hsum)
  | exhausted => cases hr

/-- The branch that skips the value, where taking it leads nowhere. -/
theorem Explored.of_skipped {v : MicroMinotari} {vals : List MicroMinotari} {done : List Bool}
    {current : MicroMinotari} {r : Bool × List Bool}
    (htake : ¬Attains (current + v) vals target)
    (h : Explored target vals (done ++ [false]) current r) :
    Explored target (v :: vals) done current r := by
  cases h with
  | found bits hlength hsum =>
      rw [List.append_assoc]
      exact .found (false :: bits) (by simp [hlength]) (by simpa using hsum)
  | exhausted hskip =>
      rw [List.append_assoc]
      exact .exhausted (fun h => (attains_cons.mp h).elim htake hskip)

theorem backTrack_explored (suffix : List MicroMinotari) (target : MicroMinotari)
    (vals : List MicroMinotari) (step : Nat) (current : MicroMinotari) (done : List Bool)
    (hdone : done.length = step)
    (hsuffix : suffix.drop step = suffixSums vals) (hcurrent : current ≤ target) :
    Explored target vals done current
      (backTrack suffix target vals step current
        (done ++ List.replicate vals.length false)) := by
  induction vals generalizing step current done with
  | nil =>
      rw [backTrack]
      by_cases heq : current = target
      · rw [beq_iff_eq.mpr heq]
        exact .of_eq heq
      · rw [beq_eq_false_iff_ne.mpr heq]
        exact .exhausted (fun h => heq (attains_nil.mp h))
  | cons v vals ih =>
      obtain ⟨hsuffix', hrem⟩ := suffix_getElem? hsuffix
      rw [backTrack]
      by_cases heq : current = target
      · rw [if_pos heq]
        exact .of_eq heq
      rw [if_neg heq, hrem]
      dsimp only
      by_cases hreach : current + vals.sum + v < target
      · rw [if_pos hreach]
        refine .exhausted (fun h => Nat.not_le.mpr hreach ?_)
        have hle := h.le_sum
        rwa [List.sum_cons, add_comm v, ← add_assoc] at hle
      rw [if_neg hreach, if_neg (Nat.not_lt.mpr hcurrent), if_neg (by simp [hdone])]
      -- the entry of this step is the first after `done`
      have hset : ∀ taken : Bool, (done ++ List.replicate (v :: vals).length false).set step taken =
          (done ++ [taken]) ++ List.replicate vals.length false := by
        intro taken
        simp [← hdone, List.replicate_succ]
      have hskip := ih (step + 1) current (done ++ [false]) (by simp [hdone]) hsuffix' hcurrent
      by_cases hfit : current + v ≤ target
      · have htake := ih (step + 1) (current + v) (done ++ [true]) (by simp [hdone]) hsuffix' hfit
        rw [if_pos hfit, hset true]
        generalize backTrack suffix target vals (step + 1) (current + v)
          ((done ++ [true]) ++ List.replicate vals.length false) = taken at htake ⊢
        by_cases htaken : taken.1 = true
        · rw [if_pos htaken]
          exact htake.of_taken htaken
        · rw [if_neg htaken]
          cases htake with
          | found => exact absurd rfl htaken
          | exhausted hnone =>
              have hback : ((done ++ [true]) ++ List.replicate vals.length false).set step false =
                  (done ++ [false]) ++ List.replicate vals.length false := by
                simp [← hdone]
              rw [hback]
              exact hskip.of_skipped hnone
      · rw [if_neg hfit, if_neg (by simp), hset false]
        exact hskip.of_skipped (fun h => hfit h.le)

/-! ## `backtrack_subset` -/

theorem candidates_eq (hpool : ∀ i ∈ pool, i < nums.length) :
    candidates nums target pool = some (pool.filter (fun i => nums.getD i 0 ≤ target)) := by
  induction pool with
  | nil => rfl
  | cons index pool ih =>
      have hindex : index < nums.length := hpool index List.mem_cons_self
      have hrest := ih (fun i hi => hpool i (List.mem_cons_of_mem _ hi))
      have hget : nums.getD index 0 = nums[index] := by simp [hindex]
      simp only [candidates, List.getElem?_eq_getElem hindex, hrest, Option.bind_eq_bind,
        Option.bind_some, List.filter_cons, hget, decide_eq_true_eq]
      split <;> rfl

/-- Only values up to the target can contribute, and their order does not matter. -/
theorem attains_candidates {value : Nat → MicroMinotari} {sorted : List Nat}
    (hsorted : sorted.Perm (pool.filter (fun i => value i ≤ target))) :
    Attains 0 (sorted.map value) target ↔ Attains 0 (pool.map value) target := by
  have hfilter : (pool.filter (fun i => value i ≤ target)).map value =
      (pool.map value).filter (· ≤ target) := by
    rw [List.filter_map]
    rfl
  rw [attains_perm (hsorted.map value), hfilter]
  exact attains_filter_le

/-- The search finds indices of the pool whose values add up to the target, if there are any. -/
theorem backtrackSubset_spec (std : StdOrder) (target : MicroMinotari)
    (hpool : ∀ i ∈ pool, i < nums.length) :
    match backtrackSubset std pool nums target with
    | some used => used.Subperm pool ∧ (used.map (nums.getD · 0)).sum = target
    | none => ¬Attains 0 (pool.map (nums.getD · 0)) target := by
  simp only [backtrackSubset, candidates_eq hpool, Option.bind_eq_bind, Option.bind_some,
    suffixSums_head?]
  have hsorted := std.sort_perm (fun i => -(nums.getD i 0 : Int))
    (pool.filter (fun i => nums.getD i 0 ≤ target))
  generalize std.sortUnstableByKey (fun i => -(nums.getD i 0 : Int))
    (pool.filter (fun i => nums.getD i 0 ≤ target)) = sorted at hsorted ⊢
  rw [← attains_candidates hsorted]
  generalize hvals : sorted.map (nums.getD · 0) = vals
  by_cases htotal : vals.sum < target
  · rw [if_pos htotal]
    intro h
    exact Nat.not_le.mpr htotal (by simpa using h.le_sum)
  · rw [if_neg htotal]
    have hsearch := backTrack_explored (suffixSums vals) target vals 0 0 []
      rfl rfl (Nat.zero_le target)
    rw [List.nil_append] at hsearch
    generalize backTrack (suffixSums vals) target vals 0 0 (List.replicate vals.length false) = r
      at hsearch ⊢
    cases hsearch with
    | found bits hlength hsum =>
        rw [if_pos rfl]
        refine ⟨?_, ?_⟩
        · exact (picked_sublist sorted bits).subperm.trans
            (hsorted.subperm.trans List.filter_sublist.subperm)
        · rw [← hvals, picked_map, zero_add] at hsum
          exact hsum
    | exhausted hnone =>
        rw [if_neg (by simp)]
        exact hnone

/-! ## `solve_back_track` -/

/-- The targets are solved in their order, with indices of the pool: each by indices whose values
    add up to it, and by none only if those that are left cannot add up to it. -/
structure SolvesTargets (value : Nat → MicroMinotari) (pool : List Nat)
    (targets : List (MicroMinotari × Nat)) (solutions : List (Nat × List Nat)) : Prop where
  outputs : solutions.map (·.1) = targets.map (·.2)
  disjoint : (solutions.flatMap (·.2)).Nodup
  ofPool : ∀ i ∈ solutions.flatMap (·.2), i ∈ pool
  sums : ∀ (k : Nat) target solution, targets[k]? = some target → solutions[k]? = some solution →
    solution.2 ≠ [] → (solution.2.map value).sum = target.1
  complete : ∀ (k : Nat) target solution, targets[k]? = some target →
    solutions[k]? = some solution → solution.2 = [] → 0 < target.1 →
      ∀ subset : List Nat, subset.Nodup →
        (∀ i ∈ subset, i ∈ pool ∧ i ∉ (solutions.take k).flatMap (·.2)) →
          (subset.map value).sum ≠ target.1

/-- What is found for one target. -/
theorem solveTarget_spec (std : StdOrder) (hpool : ∀ i ∈ pool, i < nums.length) {used : List Nat}
    (hused : (backtrackSubset std pool nums target).getD [] = used) :
    (used ≠ [] → (used.map (nums.getD · 0)).sum = target) ∧
      (used = [] → 0 < target → ¬Attains 0 (pool.map (nums.getD · 0)) target) := by
  have hspec := backtrackSubset_spec std target hpool
  cases hsubset : backtrackSubset std pool nums target with
  | none =>
      rw [hsubset] at hspec hused
      refine ⟨fun hne => absurd hused.symm hne, fun _ _ => hspec⟩
  | some found =>
      rw [hsubset] at hspec hused
      obtain rfl : found = used := hused
      refine ⟨fun _ => hspec.2, fun hempty hpos => ?_⟩
      rw [hempty] at hspec
      exact absurd hspec.2 (Nat.ne_of_lt hpos)

theorem solveTargets_solves (std : StdOrder) (nums : List MicroMinotari)
    (targets : List (MicroMinotari × Nat)) (pool : List Nat)
    (hpool : ∀ i ∈ pool, i < nums.length) (hnodup : pool.Nodup) :
    SolvesTargets (nums.getD · 0) pool targets (solveTargets std nums targets pool) where
  outputs := solveTargets_fst
  disjoint := nodup_of_subperm (solveTargets_subperm hnodup) hnodup
  ofPool := fun i hi => (solveTargets_subperm hnodup).subset hi
  sums := by
    induction targets generalizing pool with
    | nil => simp
    | cons head targets ih =>
        intro k target solution htarget hsolution hne
        rw [solveTargets] at hsolution
        cases k with
        | zero =>
            cases htarget
            cases hsolution
            exact (solveTarget_spec std hpool rfl).1 hne
        | succ k =>
            refine @ih (pool.filter _) ?_ (hnodup.filter _) k target solution htarget
              hsolution hne
            exact fun i hi => hpool i (List.mem_filter.mp hi).1
  complete := by
    induction targets generalizing pool with
    | nil => simp
    | cons head targets ih =>
        intro k target solution htarget hsolution hempty hpos subset hsubset hfree
        rw [solveTargets] at hsolution hfree
        cases k with
        | zero =>
            cases htarget
            cases hsolution
            intro hsum
            refine (solveTarget_spec std hpool rfl).2 hempty hpos (attains_map_iff.mpr ⟨subset, ?_⟩)
            refine ⟨List.subperm_of_subset hsubset (fun i hi => (hfree i hi).1), ?_⟩
            rw [zero_add]
            exact hsum
        | succ k =>
            refine @ih (pool.filter _) ?_ (hnodup.filter _) k target solution htarget
              hsolution hempty hpos subset hsubset (fun i hi => ?_)
            · exact fun i hi => hpool i (List.mem_filter.mp hi).1
            · obtain ⟨hmem, hnot⟩ := hfree i hi
              rw [List.take_succ_cons, List.flatMap_cons, List.mem_append, not_or] at hnot
              exact ⟨List.mem_filter.mpr ⟨hmem, by simpa using hnot.1⟩, hnot.2⟩

end DisplayedTransactionProcessor

end MinotariWallet
