import MinotariWallet.Transactions.Burn
import MinotariWallet.Transactions.Consistent

set_option autoImplicit false

/-! # What a burn has recorded when it is submitted

`persist_burn_records` propagates a failure to insert the burn proof only: the others are logged, a
pending transaction that is not found is passed over, and the burn is submitted. What it has stored
by then no other call deletes. -/

namespace MinotariWallet

open Sql Exec Processes Transition

namespace BurnTxResult

/-- The completed transaction of the burn is stored for the pending transaction. -/
def StoredFor (db : Db) (result : BurnTxResult) (pendingTxId : RequestId) : Prop :=
  ∃ c ∈ db.completedTransactions.rows, c.id = result.txId ∧ c.pendingTxId = pendingTxId

instance (db : Db) (result : BurnTxResult) (pendingTxId : RequestId) :
    Decidable (result.StoredFor db pendingTxId) := by
  unfold StoredFor
  infer_instance

end BurnTxResult

/-- A statement of `persist_burn_records` that fails with a warning. -/
inductive BurnWarning where
  | findPending
  | setCompleted
  | createCompleted
deriving DecidableEq

namespace BurnState

/-- The burn may still be submitted. -/
def inProgress : BurnState → Bool
  | .markBroadcasted => false
  | .ok => false
  | .failed _ => false
  | _ => true

def submits : BurnState → Bool
  | .submit _ => true
  | _ => false

/-- The burn when its statement fails, and the warning that is logged. -/
def onError (e : String) : BurnState → Option (BurnState × Option BurnWarning)
  | .insertBurnProof => some (.failed (.dbError s!"Failed to insert burn proof: {e}"), none)
  | .findPending => some (.connect, some .findPending)
  | .setCompleted pendingTxId => some (.createCompleted pendingTxId, some .setCompleted)
  | .createCompleted _ => some (.connect, some .createCompleted)
  | .markBroadcasted => some (.failed (.dbError e), none)
  | _ => none

end BurnState

/-- The burns, with what has been stored, logged and found. -/
structure LoggedBurns where
  system : BurnSystem
  /-- The outputs that have a row in `burn_proofs`. -/
  burnProofs : List FixedHash := []
  /-- The warnings that have been logged for the burns. -/
  warned : List (Nat × BurnWarning) := []
  /-- The pending transactions that the lookups of the burns have found. -/
  found : List (Nat × RequestId) := []

inductive LoggedBurnAction where
  | system (a : BurnAction)
  /-- The next statement of burn `i` fails. -/
  | statementFails (i : Nat) (e : String)

namespace LoggedBurns

abbrev db (t : LoggedBurns) : Db := t.system.wallet.db

instance (t : LoggedBurns) (warning : Nat × BurnWarning) : Decidable (warning ∈ t.warned) :=
  inferInstance

def start : LoggedBurns := { system := { wallet := { db := .empty } } }

/-- The burn proof that the action inserts. -/
def inserts (t : LoggedBurns) : BurnAction → List FixedHash
  | .statement i ch =>
    match t.system.burns[i]?, ch.external with
    | some (result, .insertBurnProof), .ok _ => [result.outputHash]
    | _, _ => []
  | _ => []

/-- The warning that is logged in the action: a completed transaction violates a constraint. -/
def warns (t : LoggedBurns) : BurnAction → List (Nat × BurnWarning)
  | .statement i ch =>
    match t.system.burns[i]?.bind (fun (result, st) => st.next ch t.db result) with
    | some (.createCompletedTransaction new, _) =>
      match t.db.createCompleted new with
      | .error _ => [(i, .createCompleted)]
      | .ok _ => []
    | _ => []
  | _ => []

/-- The pending transaction that burn `i` finds if its next statement is the lookup. -/
def lookup (t : LoggedBurns) (i : Nat) : List RequestId :=
  match t.system.burns[i]? with
  | some (result, .findPending) =>
    ((t.db.findPendingTransactionByIdempotencyKey result.idempotencyKey result.accountId).map
      (·.id)).toList
  | _ => []

def finds (t : LoggedBurns) : BurnAction → List (Nat × RequestId)
  | .statement i _ => (t.lookup i).map (fun pendingTxId => (i, pendingTxId))
  | _ => []

def step (env : TransactionEnv) (t : LoggedBurns) : LoggedBurnAction → Option LoggedBurns
  | .system a => (t.system.step env a).map (fun system => {
      system
      burnProofs := t.burnProofs ++ t.inserts a
      warned := t.warned ++ t.warns a
      found := t.found ++ t.finds a })
  | .statementFails i e =>
    t.system.burns[i]?.bind (fun (result, st) => (st.onError e).map (fun (st', warning) =>
      { t with
        system := t.system.move i result st'
        warned := t.warned ++ warning.toList.map (fun w => (i, w)) }))

/-- The pending transaction that burn `i` has found. -/
def foundBy (t : LoggedBurns) (i : Nat) : List RequestId :=
  (t.found.filter (·.1 == i)).map (·.2)

/-- A burn is submitted, and returns `Ok`, only when its burn proof is stored; whenever it is about
    to be submitted, its completed transaction is stored too for the pending transaction that it has
    found, unless that could not be created. -/
def SubmitsRecorded (t : LoggedBurns) : Prop :=
  Each (fun i b => (b.2.submits = true ∨ b.2 = .ok → b.1.outputHash ∈ t.burnProofs) ∧
    (b.2.submits = true → (i, .createCompleted) ∉ t.warned → ∀ pendingTxId ∈ t.foundBy i,
      b.1.StoredFor t.db pendingTxId)) t.system.burns

instance (t : LoggedBurns) : Decidable (SubmitsRecorded t) := by
  unfold SubmitsRecorded
  infer_instance

/-! ## What every step keeps -/

variable {env : TransactionEnv} {id : RequestId} {db db' : Db}

/-- Pending transactions keep their keys, and completed transactions are never deleted. -/
structure KeepsRecords (db db' : Db) : Prop where
  hasKey : ∀ id key accountId, HasKey db.pendingTransactions id key accountId →
    HasKey db'.pendingTransactions id key accountId
  stored : ∀ (result : BurnTxResult) id, result.StoredFor db id → result.StoredFor db' id

theorem KeepsRecords.of_eq (h : db' = db) : KeepsRecords db db' := by
  subst h
  exact ⟨fun _ _ _ h => h, fun _ _ h => h⟩

theorem storedFor_of_rowsFrom {rejects : Option TxId} {result : BurnTxResult}
    (h : RowsFrom rejects db.completedTransactions db'.completedTransactions)
    (hstored : result.StoredFor db id) : result.StoredFor db' id := by
  obtain ⟨c, hc, hid, hpending⟩ := hstored
  obtain ⟨c', hc', hid', -, hpending'⟩ := h.kept c hc
  exact ⟨c', hc', hid'.trans hid, hpending'.trans hpending⟩

theorem KeepsRecords.apply (db : Db) (x : Statement) : KeepsRecords db (x.apply db) :=
  ⟨fun _ _ _ h => h.apply x, fun _ _ h => storedFor_of_rowsFrom (rowsFrom_apply db x) h⟩

theorem KeepsRecords.wallet {a : SystemAction} {s s' : WalletSystem}
    (h : s.step env a = some s') : KeepsRecords s.db s'.db := by
  rcases WalletSystem.step_db h with heq | ⟨j, ch, rfl⟩ | ⟨bp, block, accountId, now, rfl⟩ |
    ⟨accountId, height, webhookConfig, now, rfl⟩
  · exact .of_eq heq
  · obtain ⟨c, x, c', -, -, -, rfl⟩ := WalletSystem.step_statement h
    exact .apply s.db x
  · obtain ⟨db, rfl, -, hpending, hcompleted⟩ := WalletSystem.step_processBlock h
    refine ⟨fun id key accountId hkey => ?_, fun result id hstored => ?_⟩
    · rwa [hpending]
    · unfold BurnTxResult.StoredFor at hstored ⊢
      rwa [hcompleted]
  · obtain ⟨db, rfl, -, hpending, hcompleted⟩ := WalletSystem.step_rollbackFromHeight h
    refine ⟨fun id key account hkey => ?_, fun result id hstored => ?_⟩
    · rw [hpending]
      exact (hasKey_updateWhere _ _ _ id key account).mpr hkey
    · have hrows := rowsFrom_reset s.db accountId height now
      rw [← hcompleted] at hrows
      exact storedFor_of_rowsFrom hrows hstored

/-! ## What has been recorded -/

/-- What has been done for a burn when it comes to a state. -/
def Done (db : Db) (inserted warned : Prop) (found : List RequestId) (result : BurnTxResult) :
    BurnState → Prop
  | .insertBurnProof => found = []
  | .findPending => inserted ∧ found = []
  | .setCompleted pendingTxId => inserted ∧ found = [pendingTxId]
  | .createCompleted pendingTxId => inserted ∧ found = [pendingTxId]
  | .connect | .submit _ | .await _ _ =>
    inserted ∧ (¬warned → ∀ pendingTxId ∈ found, result.StoredFor db pendingTxId)
  | .markBroadcasted => inserted
  | .ok => inserted
  | .failed _ => True

/-- What the burn has found has its key, and its records are there as far as it has come. -/
structure Recorded (t : LoggedBurns) (i : Nat) (b : BurnTxResult × BurnState) : Prop where
  hasKey : ∀ id ∈ t.foundBy i, HasKey t.db.pendingTransactions id b.1.idempotencyKey b.1.accountId
  done : Done t.db (b.1.outputHash ∈ t.burnProofs) ((i, .createCompleted) ∈ t.warned)
    (t.foundBy i) b.1 b.2

structure AllRecorded (t : LoggedBurns) : Prop where
  burns : Each (Recorded t) t.system.burns
  unused : ∀ i, t.system.burns.length ≤ i → t.foundBy i = []

theorem Done.mono {inserted inserted' warned warned' : Prop} {found : List RequestId}
    {result : BurnTxResult} {st : BurnState} (h : Done db inserted warned found result st)
    (hdb : KeepsRecords db db') (hinserted : inserted → inserted') (hwarned : warned → warned') :
    Done db' inserted' warned' found result st := by
  cases st with
  | insertBurnProof => exact h
  | findPending | setCompleted | createCompleted => exact ⟨hinserted h.1, h.2⟩
  | connect | submit | await =>
      refine ⟨hinserted h.1, fun hnot id hid => hdb.stored result id (h.2 (mt hwarned hnot) id hid)⟩
  | markBroadcasted | ok => exact hinserted h
  | failed => trivial

theorem Done.moved {inserted warned : Prop} {found : List RequestId} {result : BurnTxResult}
    {st st' : BurnState} (h : Done db inserted warned found result st)
    (hmoved : BurnSystem.Moved st st') : Done db inserted warned found result st' := by
  cases hmoved with
  | send | retry => exact h
  | respond retries messageId response =>
      unfold BurnState.ofResponse
      split
      · trivial
      · split
        · exact h.1
        · trivial

section Records

variable {t t' : LoggedBurns} {i : Nat} {result : BurnTxResult} {st st' : BurnState}

/-- A burn stays where it is while another step keeps the records. -/
theorem Recorded.mono {b : BurnTxResult × BurnState} (h : Recorded t i b)
    (hdb : KeepsRecords t.db t'.db) (hproofs : t.burnProofs ⊆ t'.burnProofs)
    (hwarned : t.warned ⊆ t'.warned) (hfound : t'.foundBy i = t.foundBy i) : Recorded t' i b := by
  refine ⟨fun id hid => hdb.hasKey id _ _ (h.hasKey id (hfound ▸ hid)), ?_⟩
  rw [hfound]
  exact h.done.mono hdb (fun hmem => hproofs hmem) (fun hmem => hwarned hmem)

theorem foundBy_statement {ch : Choice} (h : t'.found = t.found ++ t.finds (.statement i ch))
    (j : Nat) : t'.foundBy j = t.foundBy j ++ if j = i then t.lookup i else [] := by
  unfold foundBy
  rw [h, List.filter_append, List.map_append, finds, List.filter_map, List.map_map]
  refine congrArg (_ ++ ·) ?_
  split
  · next hj =>
      subst hj
      simp [Function.comp_def]
  · next hj => simp [Function.comp_def, Ne.symm hj]

/-- The pending transaction that is looked up has the key of the burn. -/
theorem hasKey_lookup (hi : t.system.burns[i]? = some (result, st)) (hid : id ∈ t.lookup i) :
    HasKey t.db.pendingTransactions id result.idempotencyKey result.accountId := by
  unfold lookup at hid
  rw [hi] at hid
  cases st with
  | findPending =>
      obtain ⟨pendingTx, hfind, rfl⟩ := Option.map_eq_some_iff.mp (Option.mem_toList.mp hid)
      obtain ⟨p, hp, rfl⟩ := Option.map_eq_some_iff.mp hfind
      obtain ⟨hp, hmatch⟩ := Table.find?_some hp
      simp only [PendingTransactionRow.hasKey, Bool.and_eq_true, beq_iff_eq] at hmatch
      exact ⟨p, hp, rfl, hmatch.1⟩
  | _ => cases hid

/-- The next statement of a burn. -/
theorem Recorded.statement {ch : Choice} {x : Statement} (h : Recorded t i (result, st))
    (hburn : t.system.burns[i]? = some (result, st))
    (hnext : st.next ch t.db result = some (x, st')) (hdb : t'.db = x.apply t.db)
    (hproofs : t'.burnProofs = t.burnProofs ++ t.inserts (.statement i ch))
    (hwarned : t'.warned = t.warned ++ t.warns (.statement i ch))
    (hfound : t'.found = t.found ++ t.finds (.statement i ch)) : Recorded t' i (result, st') := by
  have hkeeps : KeepsRecords t.db t'.db := hdb ▸ .apply t.db x
  have hfoundBy : t'.foundBy i = t.foundBy i ++ t.lookup i := by
    rw [foundBy_statement hfound, if_pos rfl]
  have hinserted : result.outputHash ∈ t.burnProofs → result.outputHash ∈ t'.burnProofs := by
    rw [hproofs]
    exact List.mem_append_left _
  have hquiet : (i, .createCompleted) ∉ t'.warned →
      (i, .createCompleted) ∉ t.warned ∧ (i, .createCompleted) ∉ t.warns (.statement i ch) := by
    rw [hwarned, List.mem_append, not_or]
    exact id
  have hdone := h.done
  refine ⟨fun id hid => ?_, ?_⟩
  · rw [hfoundBy] at hid
    rcases List.mem_append.mp hid with hid | hid
    · exact hkeeps.hasKey id _ _ (h.hasKey id hid)
    · exact hkeeps.hasKey id _ _ (hasKey_lookup hburn hid)
  · rw [hfoundBy]
    cases st with
    | insertBurnProof =>
        simp only [lookup, hburn, List.append_nil]
        simp only [BurnState.next] at hnext
        split at hnext
        · cases hnext
          trivial
        · next hok =>
            cases hnext
            exact ⟨by simp [hproofs, inserts, hburn, hok], hdone⟩
    | findPending =>
        obtain ⟨hin, hnone⟩ := hdone
        simp only [lookup, hburn, hnone, List.nil_append]
        simp only [BurnState.next] at hnext
        split at hnext
        · next pendingTx hfind =>
            cases hnext
            exact ⟨hinserted hin, by simp [hfind]⟩
        · next hfind =>
            cases hnext
            exact ⟨hinserted hin, fun _ id hid => by simp [hfind] at hid⟩
    | setCompleted pendingTxId =>
        cases hnext
        simp only [lookup, hburn, List.append_nil]
        exact ⟨hinserted hdone.1, hdone.2⟩
    | createCompleted pendingTxId =>
        obtain ⟨hin, hown⟩ := hdone
        obtain ⟨new, rfl, rfl, htxId, hpendingTxId⟩ :
            ∃ new, x = .createCompletedTransaction new ∧ st' = .connect ∧
              new.txId = result.txId ∧ new.pendingTxId = pendingTxId := by
          cases hnext
          exact ⟨_, rfl, rfl, rfl, rfl⟩
        simp only [lookup, hburn, List.append_nil, hown]
        refine ⟨hinserted hin, fun hnot id hid => ?_⟩
        obtain rfl := List.mem_singleton.mp hid
        -- without a warning the row has been stored
        cases hcreated : t.db.createCompleted new with
        | error e =>
            have hwarns := (hquiet hnot).2
            simp [warns, hburn, hnext, hcreated] at hwarns
        | ok db' =>
            rw [hdb, apply_createCompleted hcreated]
            obtain ⟨row, hrow, hpending, -, -, -, table, hinsert, rfl⟩ :=
              createCompleted_ok hcreated
            exact ⟨row, (Table.mem_insert? hinsert).mpr (Or.inr rfl), hrow.trans htxId,
              hpending.trans hpendingTxId⟩
    | connect =>
        simp only [lookup, hburn, List.append_nil]
        simp only [BurnState.next] at hnext
        split at hnext
        · cases hnext
          trivial
        · cases hnext
          exact ⟨hinserted hdone.1, fun hnot id hid =>
            hkeeps.stored result id (hdone.2 (hquiet hnot).1 id hid)⟩
    | markBroadcasted =>
        cases hnext
        exact hinserted hdone
    | _ => cases hnext

/-- Burn `i` moves. -/
theorem AllRecorded.move (h : AllRecorded t) (hi : t.system.burns[i]? = some (result, st))
    (hburns : t'.system.burns = t.system.burns.set i (result, st'))
    (hself : Recorded t' i (result, st')) (hdb : KeepsRecords t.db t'.db)
    (hproofs : t.burnProofs ⊆ t'.burnProofs) (hwarned : t.warned ⊆ t'.warned)
    (hfound : ∀ j, j ≠ i → t'.foundBy j = t.foundBy j) : AllRecorded t' where
  burns := by
    rw [hburns]
    exact h.burns.set hself (fun j b hj _ hb => hb.mono hdb hproofs hwarned (hfound j hj))
  unused j hj := by
    rw [hburns, List.length_set] at hj
    have hlt : i < t.system.burns.length := (List.getElem?_eq_some_iff.mp hi).1
    rw [hfound j (by omega)]
    exact h.unused j hj

/-- Burn `i` moves, and the database stays as it is. -/
theorem AllRecorded.moveQuietly (h : AllRecorded t) (hi : t.system.burns[i]? = some (result, st))
    (hburns : t'.system.burns = t.system.burns.set i (result, st')) (hdb : t'.db = t.db)
    (hproofs : t.burnProofs ⊆ t'.burnProofs) (hwarned : t.warned ⊆ t'.warned)
    (hfound : ∀ j, t'.foundBy j = t.foundBy j)
    (hdone : Done t.db (result.outputHash ∈ t.burnProofs) ((i, .createCompleted) ∈ t.warned)
        (t.foundBy i) result st →
      Done t.db (result.outputHash ∈ t'.burnProofs) ((i, .createCompleted) ∈ t'.warned)
        (t.foundBy i) result st') :
    AllRecorded t' := by
  have hself := h.burns i _ hi
  refine h.move hi hburns ⟨?_, ?_⟩ (.of_eq hdb) hproofs hwarned (fun j _ => hfound j)
  · rw [hfound, hdb]
    exact hself.hasKey
  · rw [hfound, hdb]
    exact hdone hself.done

theorem AllRecorded.stepSystem {a : BurnAction} {system : BurnSystem} (h : AllRecorded t)
    (hstep : t.system.step env a = some system) :
    AllRecorded {
      system
      burnProofs := t.burnProofs ++ t.inserts a
      warned := t.warned ++ t.warns a
      found := t.found ++ t.finds a } := by
  have hproofs : t.burnProofs ⊆ t.burnProofs ++ t.inserts a := List.subset_append_left _ _
  have hwarned : t.warned ⊆ t.warned ++ t.warns a := List.subset_append_left _ _
  cases a with
  | wallet b =>
      obtain ⟨w, hw, rfl⟩ := Option.map_eq_some_iff.mp hstep
      refine ⟨h.burns.mono (fun j b _ hb => hb.mono (.wallet hw) hproofs hwarned ?_),
        fun j hj => ?_⟩
      · simp [foundBy, finds]
      · simpa [foundBy, finds] using h.unused j hj
  | burn lockCall kernelExcess outputHash txId =>
      obtain ⟨result, -, rfl⟩ := Option.map_eq_some_iff.mp hstep
      have hnone := h.unused _ (Nat.le_refl _)
      refine ⟨h.burns.append ⟨fun id hid => ?_, ?_⟩ (fun j b _ hb =>
        hb.mono (.of_eq rfl) hproofs hwarned (by simp [foundBy, finds])), fun j hj => ?_⟩
      · have hmem : id ∈ t.foundBy t.system.burns.length := by simpa [foundBy, finds] using hid
        rw [hnone] at hmem
        cases hmem
      · simpa [foundBy, finds, Done] using hnone
      · simp only [List.length_append, List.length_singleton] at hj
        simpa [foundBy, finds] using h.unused j (by omega)
  | statement i ch =>
      obtain ⟨⟨result, st⟩, hi, hstep⟩ := Option.bind_eq_some_iff.mp hstep
      obtain ⟨⟨x, st'⟩, hnext, rfl⟩ := Option.map_eq_some_iff.mp hstep
      refine h.move hi rfl ((h.burns i _ hi).statement hi hnext rfl rfl rfl rfl) (.apply t.db x)
        hproofs hwarned (fun j hj => ?_)
      rw [foundBy_statement rfl, if_neg hj, List.append_nil]
  | send | receive | transportError =>
      obtain ⟨i, result, st, st', hi, hmoved, hburns, hdb, -⟩ :=
        BurnSystem.step_moved hstep (by simp) (by simp) (by simp)
      exact h.moveQuietly hi hburns hdb hproofs hwarned (by simp [foundBy, finds])
        (fun hdone => (hdone.mono (.of_eq rfl) (fun hmem => hproofs hmem)
          (fun hmem => hwarned hmem)).moved hmoved)

/-- The next statement of burn `i` fails. -/
theorem AllRecorded.statementFails {e : String} (h : AllRecorded t)
    (hstep : t.step env (.statementFails i e) = some t') : AllRecorded t' := by
  obtain ⟨⟨result, st⟩, hi, hstep⟩ := Option.bind_eq_some_iff.mp hstep
  obtain ⟨⟨st', warning⟩, herror, rfl⟩ := Option.map_eq_some_iff.mp hstep
  refine h.moveQuietly hi rfl rfl (fun _ hmem => hmem) (List.subset_append_left _ _)
    (fun _ => rfl) (fun hdone => ?_)
  cases st with
  | findPending =>
      -- a failed lookup has found nothing
      cases herror
      refine ⟨hdone.1, fun _ id hid => ?_⟩
      rw [hdone.2] at hid
      cases hid
  | setCompleted pendingTxId =>
      cases herror
      exact hdone
  | createCompleted pendingTxId =>
      cases herror
      exact ⟨hdone.1, fun hnot => absurd (by simp) hnot⟩
  | insertBurnProof | markBroadcasted =>
      cases herror
      trivial
  | _ => cases herror

theorem AllRecorded.step {a : LoggedBurnAction} (h : AllRecorded t)
    (hstep : t.step env a = some t') : AllRecorded t' := by
  cases a with
  | system a =>
      obtain ⟨system, hsystem, rfl⟩ := Option.map_eq_some_iff.mp hstep
      exact h.stepSystem hsystem
  | statementFails i e => exact h.statementFails hstep

theorem AllRecorded.submitsRecorded (h : AllRecorded t) : SubmitsRecorded t := by
  intro i b hb
  obtain ⟨result, st⟩ := b
  have hdone := (h.burns i _ hb).done
  cases st with
  | submit retries => exact ⟨fun _ => hdone.1, fun _ => hdone.2⟩
  | ok => exact ⟨fun _ => hdone, by simp [BurnState.submits]⟩
  | _ => exact ⟨by simp [BurnState.submits], by simp [BurnState.submits]⟩

end Records

theorem allRecorded_start : AllRecorded start := ⟨each_nil, fun _ _ => rfl⟩

end LoggedBurns

end MinotariWallet
