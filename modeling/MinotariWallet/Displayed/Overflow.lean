import MinotariWallet.Displayed.BackTrack
import MinotariWallet.Displayed.Checked
import MinotariWallet.Ledger.Machine

set_option autoImplicit false

/-! # Sums that fit into 64 bits

The search adds up values of inputs only, so it does not overflow when all of them together fit. The
targets are built from what the memos of the outputs claim. -/

namespace MinotariWallet

theorem MicroMinotari.add_eq_ok {a b : MicroMinotari} (h : a + b < 2 ^ 64) :
    MicroMinotari.add a b = .ok (a + b) := if_pos h

namespace DisplayedTransactionProcessor

open SubsetSum Removal

variable {ext : Externals} {std : StdOrder} {proc : DisplayedTransactionProcessor}
  {nums : List Nat} {target : Nat} {pool : List Nat}

/-! ## The search -/

theorem backTrack_returns (suffix : List Nat) (target : Nat) (vals : List Nat)
    (step current : Nat) (assignment : List Bool) (hsuffix : suffix.drop step = suffixSums vals)
    (hsum : current + vals.sum < 2 ^ 64) :
    ∃ r, Checked.backTrack suffix target vals step current assignment = .ok r := by
  induction vals generalizing step current assignment with
  | nil => exact ⟨_, rfl⟩
  | cons v vals ih =>
      obtain ⟨hsuffix', hrem⟩ := suffix_getElem? hsuffix
      rw [List.sum_cons] at hsum
      have hrest : current + vals.sum < 2 ^ 64 := by omega
      have hall : current + vals.sum + v < 2 ^ 64 := by omega
      have hthis : current + v < 2 ^ 64 := by omega
      have htake : current + v + vals.sum < 2 ^ 64 := by omega
      rw [Checked.backTrack]
      split
      · exact ⟨_, rfl⟩
      rw [hrem]
      simp only [MicroMinotari.add_eq_ok hrest, MicroMinotari.add_eq_ok hall,
        MicroMinotari.add_eq_ok hthis, bind, Except.bind]
      split
      · exact ⟨_, rfl⟩
      split
      · exact ⟨_, rfl⟩
      split
      · exact ⟨_, rfl⟩
      split
      · obtain ⟨taken, htaken⟩ := ih (step + 1) (current + v) (assignment.set step true) hsuffix'
          htake
        rw [htaken]
        dsimp only
        split
        · exact ⟨_, rfl⟩
        · exact ih (step + 1) current _ hsuffix' hrest
      · exact ih (step + 1) current _ hsuffix' hrest

theorem suffixSums_returns (vals : List Nat) (hsum : vals.sum < 2 ^ 64) :
    Checked.suffixSums vals = .ok (suffixSums vals) := by
  refine (Checked.suffixSums_refines vals).eq_ok ?_
  induction vals with
  | nil => exact ⟨_, rfl⟩
  | cons v vals ih =>
      rw [List.sum_cons] at hsum
      have hrest : vals.sum < 2 ^ 64 := by omega
      have hall : vals.sum + v < 2 ^ 64 := by omega
      have hsuffix : Checked.suffixSums vals = .ok (suffixSums vals) :=
        (Checked.suffixSums_refines vals).eq_ok (ih hrest)
      have hhead : (suffixSums vals).headD 0 = vals.sum := by
        rw [List.headD_eq_head?_getD, suffixSums_head?, Option.getD_some]
      refine ⟨(vals.sum + v) :: suffixSums vals, ?_⟩
      simp only [Checked.suffixSums, hsuffix, hhead, MicroMinotari.add_eq_ok hall, bind,
        Except.bind]
      rfl

/-- The search for the inputs of one target. -/
theorem backtrackSubset_returns (hpool : ∀ i ∈ pool, i < nums.length)
    (hsum : (pool.map (nums.getD · 0)).sum < 2 ^ 64) :
    Checked.backtrackSubset std pool nums target = .ok (backtrackSubset std pool nums target) := by
  refine (Checked.backtrackSubset_refines pool nums target).eq_ok ?_
  simp only [Checked.backtrackSubset, candidates_eq hpool]
  have hsorted := std.sort_perm (fun i => -(nums.getD i 0 : Int))
    (pool.filter (fun i => nums.getD i 0 ≤ target))
  generalize std.sortUnstableByKey (fun i => -(nums.getD i 0 : Int))
    (pool.filter (fun i => nums.getD i 0 ≤ target)) = sorted at hsorted ⊢
  have hvals : (sorted.map (nums.getD · 0)).sum < 2 ^ 64 := by
    rw [(hsorted.map _).sum_eq]
    exact lt_of_le_of_lt ((List.filter_sublist.map _).sum_le_sum (fun _ _ => Nat.zero_le _)) hsum
  rw [suffixSums_returns _ hvals]
  simp only [bind, Except.bind, suffixSums_head?]
  split
  · exact ⟨_, rfl⟩
  · obtain ⟨r, hr⟩ := backTrack_returns (suffixSums (sorted.map (nums.getD · 0))) target
      (sorted.map (nums.getD · 0)) 0 0
      (List.replicate (sorted.map (nums.getD · 0)).length false) rfl (by simpa using hvals)
    rw [hr]
    exact ⟨_, rfl⟩

theorem solveTargets_returns (targets : List (MicroMinotari × Nat))
    (hpool : ∀ i ∈ pool, i < nums.length) (hsum : (pool.map (nums.getD · 0)).sum < 2 ^ 64) :
    Checked.solveTargets std nums targets pool = .ok (solveTargets std nums targets pool) := by
  induction targets generalizing pool with
  | nil => rfl
  | cons head targets ih =>
      have hlater := fun used : List Nat => @ih (pool.filter (fun i => !used.contains i))
        (fun i hi => hpool i (List.mem_filter.mp hi).1)
        (lt_of_le_of_lt ((List.filter_sublist.map _).sum_le_sum (fun _ _ => Nat.zero_le _)) hsum)
      simp only [Checked.solveTargets, solveTargets, backtrackSubset_returns hpool hsum, bind,
        Except.bind, hlater]
      rfl

theorem map_getD_range (nums : List Nat) : (List.range nums.length).map (nums.getD · 0) = nums := by
  refine List.ext_getElem (by simp) (fun i h₁ h₂ => ?_)
  simp [h₂]

/-- The search for the inputs of all targets does not overflow when the inputs together fit. -/
theorem solveBackTrack_returns (std : StdOrder) {inputs : List Debit}
    (targets : List (MicroMinotari × Nat))
    (htotal : (inputs.map (·.2.output.value)).sum < 2 ^ 64) :
    Checked.solveBackTrack std inputs targets = .ok (solveBackTrack std inputs targets) := by
  have hperm := std.sort_perm (fun v : Nat => (v : Int)) (inputs.map (·.2.output.value))
  refine solveTargets_returns _ (fun i hi => ?_) ?_
  · rw [hperm.length_eq]
    exact List.mem_range.mp hi
  · rw [← hperm.length_eq, map_getD_range, hperm.sum_eq]
    exact htotal

/-! ## The solver is exact -/

/-- What the inputs are worth, by their index. -/
def inputValue (inputs : List Debit) (i : Nat) : MicroMinotari :=
  (inputs.map (·.2.output.value)).getD i 0

theorem sortUnstableByKey_of_sorted {nums : List Nat} (h : nums.Pairwise (· ≤ ·)) :
    std.sortUnstableByKey (fun v : Nat => (v : Int)) nums = nums := by
  have hperm := std.sort_perm (fun v : Nat => (v : Int)) nums
  have hsorted := (std.sort_sorted (fun v : Nat => (v : Int)) nums).imp Int.ofNat_le.mp
  exact hperm.eq_of_pairwise' hsorted h

/-- The solver gives every target indices of inputs that add up to it, and leaves one without only
    if the inputs that are left cannot add up to it; the search for one target succeeds if and only
    if some of the pool add up to it. -/
theorem solveBackTrack_exact (std : StdOrder) (inputs : List Debit)
    (targets : List (MicroMinotari × Nat))
    (hsorted : inputs.Pairwise (fun a b => a.2.output.value ≤ b.2.output.value))
    (htotal : (inputs.map (·.2.output.value)).sum < 2 ^ 64) :
    (∃ sorted solutions, sorted.Perm targets ∧ sorted.Pairwise (fun a b => a.1 ≤ b.1) ∧
      Checked.solveBackTrack std inputs targets = .ok solutions ∧
      SolvesTargets (inputValue inputs) (List.range inputs.length) sorted solutions) ∧
    ∀ (nums : List MicroMinotari) (pool : List Nat) (target : MicroMinotari),
      (∀ i ∈ pool, i < nums.length) → (pool.map (nums.getD · 0)).sum < 2 ^ 64 →
        ∃ found, Checked.backtrackSubset std pool nums target = .ok found ∧
          (found.isSome ↔
            ∃ sub : List Nat, sub.Subperm pool ∧ (sub.map (nums.getD · 0)).sum = target) := by
  constructor
  · have hnums : (inputs.map (·.2.output.value)).Pairwise (· ≤ ·) := List.pairwise_map.mpr hsorted
    have hsolves := solveTargets_solves std (inputs.map (·.2.output.value))
      (std.sortUnstableByKey (fun t : MicroMinotari × Nat => (t.1 : Int)) targets)
      (List.range inputs.length) (fun i hi => by simpa using hi) List.nodup_range
    refine ⟨_, _, std.sort_perm (fun t : MicroMinotari × Nat => (t.1 : Int)) targets, ?_,
      solveBackTrack_returns std targets htotal, ?_⟩
    · exact (std.sort_sorted (fun t : MicroMinotari × Nat => (t.1 : Int)) targets).imp
        Int.ofNat_le.mp
    · rw [solveBackTrack, sortUnstableByKey_of_sorted hnums, List.length_map]
      exact hsolves
  · intro nums pool target hpool hsum
    refine ⟨_, backtrackSubset_returns hpool hsum, ?_⟩
    have hspec := backtrackSubset_spec std target hpool
    rw [attains_map_iff] at hspec
    simp only [zero_add] at hspec
    cases hfound : backtrackSubset std pool nums target with
    | none =>
        rw [hfound] at hspec
        simpa using hspec
    | some used =>
        rw [hfound] at hspec
        exact ⟨fun _ => ⟨used, hspec⟩, fun _ => rfl⟩

/-- An input of block 12. -/
def inputOf (id : Id) (value : MicroMinotari) : Debit :=
  (makeBalanceChangeForInput 1 id value ⟨12, 112, [], [], 1240⟩ 0,
    ⟨112, 12, id, { outputHash := 500 + id, value }⟩)

theorem solveBackTrack_exact_three :
    (∃ sorted solutions, sorted.Perm [(8, 1), (9, 0)] ∧
      sorted.Pairwise (fun a b : MicroMinotari × Nat => a.1 ≤ b.1) ∧
      Checked.solveBackTrack .stable [inputOf 1 3, inputOf 2 5, inputOf 3 9] [(8, 1), (9, 0)] =
        .ok solutions ∧
      SolvesTargets (inputValue [inputOf 1 3, inputOf 2 5, inputOf 3 9]) (List.range 3) sorted
        solutions) ∧
    ∀ (nums : List MicroMinotari) (pool : List Nat) (target : MicroMinotari),
      (∀ i ∈ pool, i < nums.length) → (pool.map (nums.getD · 0)).sum < 2 ^ 64 →
        ∃ found, Checked.backtrackSubset .stable pool nums target = .ok found ∧
          (found.isSome ↔
            ∃ sub : List Nat, sub.Subperm pool ∧ (sub.map (nums.getD · 0)).sum = target) :=
  solveBackTrack_exact .stable [inputOf 1 3, inputOf 2 5, inputOf 3 9] [(8, 1), (9, 0)]
    (by decide) (by decide)

/-! ## What the memos claim -/

theorem totalSend_returns_iff (output : DetectedOutput) (amount : MicroMinotari) :
    (∃ r, Checked.totalSend output amount = .ok r) ↔ totalSend output amount < 2 ^ 64 := by
  unfold Checked.totalSend totalSend MicroMinotari.add
  generalize output.output.paymentId.fee.getD 0 = fee
  by_cases hvalue : amount + output.output.value < 2 ^ 64
  · simp only [if_pos hvalue, bind, Except.bind]
    split
    · next htotal => exact ⟨fun _ => htotal, fun _ => ⟨_, rfl⟩⟩
    · next htotal => exact ⟨fun ⟨r, hr⟩ => (nomatch hr), fun h => absurd h htotal⟩
  · simp only [if_neg hvalue, bind, Except.bind]
    refine ⟨fun ⟨r, hr⟩ => (nomatch hr), fun h => absurd (lt_of_le_of_lt ?_ h) hvalue⟩
    exact Nat.le_add_right _ fee

/-- The claim of a change output's memo, with the value and the fee, fits into 64 bits. -/
def ClaimFits (c : Credit) : Prop :=
  ∀ details ∈ c.2.output.paymentId.transactionInfoDetails, totalSend c.2 details.2 < 2 ^ 64

theorem searchTargets_returns_iff {outputs : List (Credit × Nat)} :
    (∃ r, Checked.searchTargets outputs = .ok r) ↔ ∀ c ∈ outputs, ClaimFits c.1 := by
  induction outputs with
  | nil => simp [Checked.searchTargets]
  | cons output outputs ih =>
      rw [List.forall_mem_cons, ← ih, Checked.searchTargets, ClaimFits]
      cases output.1.2.output.paymentId.transactionInfoDetails with
      | none => simp
      | some details =>
          have htotal := totalSend_returns_iff output.1.2 details.2
          simp only [Option.mem_some_iff, forall_eq', ← htotal]
          cases Checked.totalSend output.1.2 details.2 with
          | error e => simp [bind, Except.bind]
          | ok total =>
              cases Checked.searchTargets outputs with
              | error e => simp [bind, Except.bind]
              | ok targets => simp [bind, Except.bind, pure, Except.pure]

/-! ## The transactions of the block -/

section Search

variable (ext proc) (accumulator : BlockEventAccumulator) {inputs : List Debit}
  {outputs : List Credit}

theorem transferTransaction_returns (change : Credit) (txInputs : List TransactionInput)
    (debitValue : MicroMinotari) :
    ∃ tx, proc.transferTransaction ext accumulator change txInputs debitValue = .ok tx := by
  obtain ⟨tx, hbuild, -⟩ := build_blockchainInfo ext {
    accountId := some accumulator.accountId
    source := some .transfer
    status := some (proc.calculateStatusAndConfirmations change.2.height).1
    counterpartyAddress := change.2.output.paymentId.senderAddress
    fee := change.2.output.paymentId.fee
    message := (MemoInfo.fromOutput change.2.output).parsed
    memoHex := (MemoInfo.fromOutput change.2.output).hex
    outputs := [change.2.toTransactionOutput .standard]
    outputType := some .standard
    sentOutputHashes := change.2.output.paymentId.sentHashes.getD []
    inputs := txInputs }
    change.1.balanceCredit debitValue accumulator.height change.2.minedInBlockHash
    change.1.effectiveDate (proc.calculateStatusAndConfirmations change.2.height).2
    (ext.newDeterministic proc.viewKey change.2.output.outputHash)
  exact ⟨tx, hbuild⟩

theorem gatherInputs_returns {indices : List Nat} (balance : Nat)
    (h : ∀ i ∈ indices, i < inputs.length)
    (hsum : balance + ((pick inputs indices).map (·.2.output.value)).sum < 2 ^ 64) :
    ∃ r, Checked.gatherInputs inputs indices balance = .ok r := by
  induction indices generalizing balance with
  | nil => exact ⟨_, rfl⟩
  | cons index indices ih =>
      have hindex : index < inputs.length := h index List.mem_cons_self
      have hget : inputs[index]? = some inputs[index] := List.getElem?_eq_getElem hindex
      rw [pick_cons hget, List.map_cons, List.sum_cons, ← add_assoc] at hsum
      have hhead : balance + inputs[index].2.output.value < 2 ^ 64 :=
        lt_of_le_of_lt (Nat.le_add_right _ _) hsum
      obtain ⟨r, hr⟩ := ih _ (fun i hi => h i (List.mem_cons_of_mem _ hi)) hsum
      refine ⟨(inputs[index].2 :: r.1, r.2), ?_⟩
      simp only [Checked.gatherInputs, hget, MicroMinotari.add_eq_ok hhead, hr, bind, Except.bind]
      rfl

/-- The inputs of a solution are worth no more than all of them. -/
theorem sum_pick_le {indices : List Nat} (hnodup : indices.Nodup)
    (h : ∀ i ∈ indices, i < inputs.length) :
    ((pick inputs indices).map (·.2.output.value)).sum ≤ (inputs.map (·.2.output.value)).sum := by
  obtain ⟨rest, -, hperm⟩ := removeUsed_ok hnodup h
  rw [(hperm.map _).sum_eq, List.map_append, List.sum_append]
  exact Nat.le_add_right _ _

/-- What the loop over the solutions has gathered can be looked up afterwards. -/
structure Gathered (inputs : List Debit) (outputs : List Credit) (solutions : List (Nat × List Nat))
    (st : SearchState) : Prop where
  unmatched : ∀ i ∈ st.unmatchedIndex, i < outputs.length
  used : st.usedInputs.Sublist (solutions.flatMap (·.2))

theorem processSolution_returns {solutions : List (Nat × List Nat)} {st : SearchState}
    {solution : Nat × List Nat} (hst : Gathered inputs outputs solutions st)
    (hchange : ∃ change, outputs[solution.1]? = some change ∧
      change.2.output.paymentId.transactionInfoDetails.isSome ∧ ClaimFits change)
    (hnodup : solution.2.Nodup) (hindices : ∀ i ∈ solution.2, i < inputs.length)
    (htotal : (inputs.map (·.2.output.value)).sum < 2 ^ 64) :
    ∃ st', Checked.processSolution ext proc accumulator inputs outputs st solution = .ok st' ∧
      Gathered inputs outputs (solutions ++ [solution]) st' := by
  obtain ⟨change, hget, hsome, hfits⟩ := hchange
  obtain ⟨details, hdetails⟩ := Option.isSome_iff_exists.mp hsome
  obtain ⟨r, hr⟩ := gatherInputs_returns 0 hindices
    (by simpa using lt_of_le_of_lt (sum_pick_le hnodup hindices) htotal)
  obtain ⟨total, hsend⟩ := (totalSend_returns_iff change.2 details.2).mpr (hfits details hdetails)
  simp only [Checked.processSolution, hr, hget, hdetails, hsend, bind, Except.bind]
  by_cases hbalance : total ≠ r.2
  · rw [if_pos hbalance]
    refine ⟨_, rfl, fun i hi => ?_, ?_⟩
    · rcases List.mem_append.mp hi with hi | hi
      · exact hst.unmatched i hi
      · obtain ⟨hlt, -⟩ := List.getElem?_eq_some_iff.mp hget
        exact (List.mem_singleton.mp hi) ▸ hlt
    · rw [List.flatMap_append]
      exact hst.used.trans (List.sublist_append_left _ _)
  · rw [if_neg hbalance]
    obtain ⟨tx, htx⟩ := transferTransaction_returns ext proc accumulator change
      (r.1.map (·.toTransactionInput)) r.2
    rw [htx]
    refine ⟨_, rfl, hst.unmatched, ?_⟩
    rw [List.flatMap_append]
    exact hst.used.append (by simp)

theorem processSolutions_returns {done solutions : List (Nat × List Nat)} {st : SearchState}
    (hst : Gathered inputs outputs done st)
    (hchanges : ∀ s ∈ solutions, ∃ change, outputs[s.1]? = some change ∧
      change.2.output.paymentId.transactionInfoDetails.isSome ∧ ClaimFits change)
    (hnodup : ∀ s ∈ solutions, s.2.Nodup) (hindices : ∀ s ∈ solutions, ∀ i ∈ s.2, i < inputs.length)
    (htotal : (inputs.map (·.2.output.value)).sum < 2 ^ 64) :
    ∃ st', solutions.foldlM (Checked.processSolution ext proc accumulator inputs outputs) st =
        .ok st' ∧ Gathered inputs outputs (done ++ solutions) st' := by
  induction solutions generalizing done st with
  | nil => exact ⟨st, rfl, by simpa using hst⟩
  | cons solution solutions ih =>
      obtain ⟨st₁, hstep, h₁⟩ := processSolution_returns ext proc accumulator hst
        (hchanges _ List.mem_cons_self) (hnodup _ List.mem_cons_self) (hindices _ List.mem_cons_self) htotal
      obtain ⟨st₂, hrun, h₂⟩ := ih h₁ (fun s hs => hchanges s (List.mem_cons_of_mem _ hs))
        (fun s hs => hnodup s (List.mem_cons_of_mem _ hs))
        (fun s hs => hindices s (List.mem_cons_of_mem _ hs))
      refine ⟨st₂, ?_, by simpa using h₂⟩
      rw [List.foldlM_cons, hstep]
      exact hrun

/-- The search returns if and only if every claim fits. -/
theorem searchInputs_returns_iff (std : StdOrder)
    (htotal : (inputs.map (·.2.output.value)).sum < 2 ^ 64) :
    (∃ txs, Checked.searchInputs ext std proc accumulator inputs outputs = .ok txs) ↔
      ∀ c ∈ outputs, ClaimFits c := by
  have hzip : (∀ c ∈ outputs.zipIdx, ClaimFits c.1) ↔ ∀ c ∈ outputs, ClaimFits c := by
    constructor
    · intro h c hc
      obtain ⟨i, hi⟩ := List.mem_iff_getElem?.mp hc
      exact h (c, i) (List.mem_zipIdx_iff_getElem?.mpr hi)
    · rintro h ⟨c, i⟩ hc
      exact h c (List.mem_of_getElem? (List.mem_zipIdx_iff_getElem?.mp hc))
  rw [← hzip, ← searchTargets_returns_iff]
  constructor
  · rintro ⟨txs, htxs⟩
    cases htargets : Checked.searchTargets outputs.zipIdx with
    | error e =>
        rw [Checked.searchInputs, htargets] at htxs
        cases htxs
    | ok targets => exact ⟨targets, rfl⟩
  · intro hreturns
    have hfits := hzip.mp (searchTargets_returns_iff.mp hreturns)
    have heq := (Checked.searchTargets_refines outputs.zipIdx).eq_ok hreturns
    obtain ⟨targets, htargets⟩ := hreturns
    have htargetsEq := Except.ok.inj (htargets.symm.trans heq)
    have hperm := targets_perm outputs
    rw [← htargetsEq] at hperm
    unfold Checked.searchInputs
    rw [htargets]
    generalize hstart : List.map _ (List.filter _ outputs.zipIdx) = start at hperm ⊢
    have hchanges : ∀ t ∈ targets, ∃ change, outputs[t.2]? = some change ∧
        change.2.output.paymentId.transactionInfoDetails.isSome ∧ ClaimFits change := by
      intro t ht
      rw [htargetsEq] at ht
      obtain ⟨⟨change, i⟩, hmem, hsome⟩ := List.mem_filterMap.mp ht
      obtain ⟨details, hdetails, rfl⟩ := Option.map_eq_some_iff.mp hsome
      have hget := List.mem_zipIdx_iff_getElem?.mp hmem
      exact ⟨change, hget, by simp [hdetails], hfits change (List.mem_of_getElem? hget)⟩
    simp only [bind, Except.bind, solveBackTrack_returns std targets htotal]
    -- the solutions: one for each target, with indices of inputs, each used once
    generalize hsolutions : solveBackTrack std inputs targets = solutions
    have hfst : (solutions.map (·.1)).Perm (targets.map (·.2)) := by
      rw [← hsolutions, solveBackTrack, solveTargets_fst]
      exact (std.sort_perm _ targets).map _
    have hused : (solutions.flatMap (·.2)).Subperm (List.range inputs.length) := by
      rw [← hsolutions, solveBackTrack, List.length_map]
      exact solveTargets_subperm List.nodup_range
    have hnodup := nodup_of_subperm hused List.nodup_range
    have hlt : ∀ i ∈ solutions.flatMap (·.2), i < inputs.length :=
      fun i hi => List.mem_range.mp (hused.subset hi)
    have hbegin : Gathered inputs outputs [] { unmatchedIndex := start } :=
      ⟨fun i hi => List.mem_range.mp (hperm.subset (List.mem_append_left _ hi)), .refl _⟩
    obtain ⟨st, hrun, hst⟩ := processSolutions_returns ext proc accumulator hbegin
      (fun s (hs : s ∈ solutions) => by
        obtain ⟨t, ht, heq⟩ := List.mem_map.mp (hfst.subset (List.mem_map_of_mem hs))
        exact heq ▸ hchanges t ht)
      (fun s hs => (List.nodup_flatMap.mp hnodup).1 s hs)
      (fun s hs i hi => hlt i (List.mem_flatMap.mpr ⟨s, hs, hi⟩)) htotal
    obtain ⟨rest, hrest, -⟩ := @removeUsed_ok inputs _ (hnodup.sublist hst.used)
      (fun i hi => hlt i (hst.used.subset hi))
    obtain ⟨unmatched, hunmatched, -⟩ := handleUnmatched_shows ext proc accumulator
      hst.unmatched rest
    rw [hrun]
    simp only [hrest, hunmatched]
    exact ⟨_, rfl⟩

end Search

/-- With inputs whose values fit together, the processor returns if and only if the claim of every
    new output that is not a coinbase fits. -/
theorem createNewUpdatedDisplayTransactions_returns_iff (ext : Externals) (std : StdOrder)
    (proc : DisplayedTransactionProcessor) (accumulator : BlockEventAccumulator)
    (current : List DisplayedTransaction)
    (hreal : (accumulator.debitBalanceChanges.map (·.2.output.value)).sum < 2 ^ 64) :
    (∃ r, Checked.createNewUpdatedDisplayTransactions ext std proc accumulator current = .ok r) ↔
      ∀ c ∈ newCredits current accumulator.creditBalanceChanges, c.2.output.isCoinbase = false →
        ClaimFits c := by
  have hcredits : (proc.matchCredits current accumulator.creditBalanceChanges []).2 =
      newCredits current accumulator.creditBalanceChanges := matchChanges_unmatched
  have hdebits : (proc.matchDebits current accumulator.debitBalanceChanges
      (proc.matchCredits current accumulator.creditBalanceChanges []).1).2 =
      newDebits current accumulator.debitBalanceChanges := matchChanges_unmatched
  unfold Checked.createNewUpdatedDisplayTransactions
  simp only [hcredits, hdebits]
  generalize newCredits current accumulator.creditBalanceChanges = credits
  have hsorted := Sql.perm_orderBy (fun d : Debit => (d.2.output.value : Int))
    (newDebits current accumulator.debitBalanceChanges)
  generalize Sql.orderBy (fun d : Debit => (d.2.output.value : Int))
    (newDebits current accumulator.debitBalanceChanges) = debits at hsorted ⊢
  have htotal : (debits.map (·.2.output.value)).sum < 2 ^ 64 := by
    rw [(hsorted.map _).sum_eq]
    exact lt_of_le_of_lt ((List.filter_sublist.map _).sum_le_sum (fun _ _ => Nat.zero_le _)) hreal
  obtain ⟨coinbases, hcoinbases, -⟩ := takeOut_reverse_range
    (ProcessorError.panicked "should exist") (p := fun c : Credit => c.2.output.isCoinbase)
    (fun c _ => coinbaseTransaction_shows ext proc accumulator c) credits []
  obtain ⟨received, hreceived, -⟩ := takeOut_reverse_range
    (ProcessorError.panicked "should exist")
    (p := fun c : Credit => c.2.output.paymentId.transactionInfoDetails.isNone)
    (fun c _ => receivedTransaction_shows ext proc accumulator c)
    (credits.filter (fun c => !c.2.output.isCoinbase)) []
  rw [List.append_nil, List.append_nil] at hcoinbases hreceived
  simp only [hcoinbases, hreceived, bind, Except.bind]
  -- what is left for the search are the outputs with a claim
  generalize hleft : (credits.filter (fun c => !c.2.output.isCoinbase)).filter (fun c =>
    !c.2.output.paymentId.transactionInfoDetails.isNone) = left
  have hclaims : (∀ c ∈ left, ClaimFits c) ↔
      ∀ c ∈ credits, c.2.output.isCoinbase = false → ClaimFits c := by
    rw [← hleft]
    constructor
    · intro h c hc hcoinbase details hdetails
      refine h c ?_ details hdetails
      simp only [List.mem_filter, hcoinbase, Option.mem_def.mp hdetails]
      exact ⟨⟨hc, rfl⟩, rfl⟩
    · intro h c hc
      simp only [List.mem_filter, Bool.not_eq_true'] at hc
      exact h c hc.1.1 hc.1.2
  rw [← hclaims, ← searchInputs_returns_iff ext proc accumulator std htotal]
  cases Checked.searchInputs ext std proc accumulator debits left with
  | error e => exact ⟨fun ⟨r, hr⟩ => (nomatch hr), fun ⟨txs, htxs⟩ => (nomatch htxs)⟩
  | ok found => exact ⟨fun _ => ⟨found, rfl⟩, fun _ => ⟨_, rfl⟩⟩

/-! ## A change output whose memo claims too much -/

/-- An output of 1 whose memo claims that the largest amount was sent. -/
def hostileOutput : WalletOutput where
  outputHash := 700
  value := 1
  paymentId := { transactionInfoDetails := some (9, 2 ^ 64 - 1) }

/-- A change output of 30, of a transfer of 60 with a fee of 10. -/
def changeOutput : WalletOutput where
  outputHash := 701
  value := 30
  paymentId := { fee := some 10, transactionInfoDetails := some (9, 60) }

/-- The changes of block 12, with the output and an input of 100. -/
def blockWith (output : WalletOutput) : BlockEventAccumulator where
  accountId := 1
  height := 12
  blockHash := 112
  creditBalanceChanges :=
    [(makeBalanceChangeForOutput 1 2 1240 12 output 0, ⟨12, 112, output⟩)]
  debitBalanceChanges := [inputOf 1 100]

theorem createNewUpdatedDisplayTransactions_returns_change :
    (∃ r, Checked.createNewUpdatedDisplayTransactions plainEnv.toExternals .stable ⟨12, 3, 7⟩
        (blockWith changeOutput) [] = .ok r) ↔
      ∀ c ∈ newCredits [] (blockWith changeOutput).creditBalanceChanges,
        c.2.output.isCoinbase = false → ClaimFits c :=
  createNewUpdatedDisplayTransactions_returns_iff plainEnv.toExternals .stable ⟨12, 3, 7⟩
    (blockWith changeOutput) [] (by decide)

/-- The addition of the claimed amount panics. -/
theorem hostileOutput_panics :
    ¬∀ (ext : Externals) (std : StdOrder) (proc : DisplayedTransactionProcessor)
      (accumulator : BlockEventAccumulator) (current : List DisplayedTransaction),
      (accumulator.debitBalanceChanges.map (·.2.output.value)).sum < 2 ^ 64 →
      (accumulator.creditBalanceChanges.map (·.2.output.value)).sum < 2 ^ 64 →
        ∃ r, Checked.createNewUpdatedDisplayTransactions ext std proc accumulator current =
          .ok r := by
  intro hall
  obtain ⟨r, hr⟩ := hall plainEnv.toExternals .stable ⟨12, 3, 7⟩ (blockWith hostileOutput) []
    (by decide) (by decide)
  have hpanics : Checked.createNewUpdatedDisplayTransactions plainEnv.toExternals .stable
      ⟨12, 3, 7⟩ (blockWith hostileOutput) [] =
        .error (.panicked "attempt to add with overflow") := by
    decide +kernel
  rw [hpanics] at hr
  cases hr

/-- The block with the output is not processed. -/
example : Exec.runOk ((BlockProcessor.withEventSender [(1, 7)] 3).processBlock
    (plainEnv.toExternals.scanEnv .stable) 0 ⟨12, 112, [(700, hostileOutput, 0)], [], 1240⟩ 1)
      .empty = none := by
  decide +kernel

end DisplayedTransactionProcessor

end MinotariWallet
