import MinotariWallet.Transactions.System

set_option autoImplicit false

/-! # `api/accounts/burn.rs` and `transactions/burn`

A burn locks its funds with `FundLocker::lock`, builds the transaction, and then runs
`persist_burn_records` and the submission. `BurnSystem` is the wallet system with such submissions
beside its calls; they use the same database and the same network. The states of a submission are
named after the statement it runs next. -/

namespace MinotariWallet

open Sql Exec

/-- The fields of `BurnTxResult` that the submission reads, and its arguments. -/
structure BurnTxResult where
  accountId : AccountId
  idempotencyKey : IdempotencyKey
  transaction : Transaction
  outputHash : FixedHash
  txId : TxId
deriving DecidableEq

inductive ApiError where
  | dbError (e : String)
  | failedToBurnFunds (reason : String)
  | internalServerError (e : String)
deriving DecidableEq

inductive BurnState where
  | insertBurnProof
  | findPending
  | setCompleted (pendingTxId : RequestId)
  | createCompleted (pendingTxId : RequestId)
  | connect
  | submit (retries : Nat)
  | await (retries messageId : Nat)
  | markBroadcasted
  | ok
  | failed (e : ApiError)
deriving DecidableEq

/-- The branch of `api_burn_funds` for the result of `submit_transaction`. -/
def BurnState.ofResponse : Except String TxSubmissionResponse → BurnState
  | .error e => .failed (.failedToBurnFunds s!"Broadcast failed: {e}")
  | .ok response =>
    if response.accepted then .markBroadcasted
    else .failed (.failedToBurnFunds
      ("Transaction rejected: " ++ response.rejectionReason.toString))

/-- The `burn_proofs` table is read by no other call, so its insert shows in the choice only. A
    completed transaction that cannot be created is logged, and the burn goes on. -/
def BurnState.next (ch : Choice) (db : Db) (result : BurnTxResult) :
    BurnState → Option (Statement × BurnState)
  | .insertBurnProof =>
    match ch.external with
    | .error e => some (.read, .failed (.dbError s!"Failed to insert burn proof: {e}"))
    | .ok _ => some (.read, .findPending)
  | .findPending =>
    match db.findPendingTransactionByIdempotencyKey result.idempotencyKey result.accountId with
    | some pendingTx => some (.read, .setCompleted pendingTx.id)
    | none => some (.read, .connect)
  | .setCompleted pendingTxId =>
    some (.updatePendingTransactionStatus pendingTxId .completed, .createCompleted pendingTxId)
  | .createCompleted pendingTxId =>
    some (.createCompletedTransaction {
      accountId := result.accountId
      pendingTxId
      serializedTransaction := result.transaction
      sentOutputHash := some result.outputHash
      txId := result.txId
      now := ch.now }, .connect)
  | .connect =>
    match ch.external with
    | .error e => some (.read, .failed (.internalServerError e))
    | .ok _ => some (.read, .submit maxRetries)
  | .markBroadcasted => some (.markCompletedTransactionAsBroadcasted result.txId 1 ch.now, .ok)
  | .submit _ => none
  | .await _ _ => none
  | .ok => none
  | .failed _ => none

structure BurnSystem where
  wallet : WalletSystem
  burns : List (BurnTxResult × BurnState) := []

inductive BurnAction where
  | wallet (a : SystemAction)
  /-- Submit the burn for the funds that the lock call `lockCall` has locked. -/
  | burn (lockCall : Nat) (kernelExcess outputHash : FixedHash) (txId : TxId)
  /-- The next database statement of burn `i`. -/
  | statement (i : Nat) (ch : Choice)
  | send (i : Nat)
  | receive (i : Nat)
  | transportError (i : Nat) (retry : Bool) (message : String)

namespace BurnSystem

/-- The burn that a lock call has locked funds for. -/
def burnOf? (s : BurnSystem) (lockCall : Nat) (kernelExcess outputHash : FixedHash) (txId : TxId) :
    Option BurnTxResult :=
  match s.wallet.calls[lockCall]? with
  | some (.lock req (.ok _ utxos _)) =>
    req.idempotencyKey.map (fun idempotencyKey => {
      accountId := req.selector.accountId
      idempotencyKey
      transaction := ⟨kernelExcess, utxos.map (·.output.outputHash)⟩
      outputHash, txId })
  | _ => none

/-- Burn `i` goes on to `st`. -/
def move (s : BurnSystem) (i : Nat) (result : BurnTxResult) (st : BurnState) : BurnSystem :=
  { s with burns := s.burns.set i (result, st) }

/-- The system after one action, `none` when the action is not possible. -/
def step (env : TransactionEnv) (s : BurnSystem) : BurnAction → Option BurnSystem
  | .wallet a => (s.wallet.step env a).map (fun wallet => { s with wallet })
  | .burn lockCall kernelExcess outputHash txId =>
    (s.burnOf? lockCall kernelExcess outputHash txId).map (fun result =>
      { s with burns := s.burns ++ [(result, .insertBurnProof)] })
  | .statement i ch =>
    s.burns[i]?.bind (fun (result, st) => (st.next ch s.wallet.db result).map (fun (x, st') =>
      { s.move i result st' with wallet := { s.wallet with db := x.apply s.wallet.db } }))
  | .send i =>
    match s.burns[i]? with
    | some (result, .submit retries) =>
      let network := s.wallet.network
      some { s.move i result (.await retries network.nextId) with
        wallet := { s.wallet with
          network := { network with
            nextId := network.nextId + 1
            requests := network.requests ++ [(network.nextId, result.transaction)] } } }
    | _ => none
  | .receive i =>
    match s.burns[i]? with
    | some (result, .await _ messageId) =>
      let network := s.wallet.network
      (network.responses.lookup messageId).map (fun response =>
        { s.move i result (.ofResponse response) with
          wallet := { s.wallet with
            network := { network with
              responses := network.responses.filter (·.1 != messageId) } } })
    | _ => none
  | .transportError i retry message =>
    match s.burns[i]? with
    | some (result, .await retries _) =>
      match retry, retries with
      | true, retries + 1 => some (s.move i result (.submit retries))
      | true, 0 => none
      | false, _ => some (s.move i result (.ofResponse (.error message)))
    | _ => none

/-- Sending the transaction, the response to it or its loss moves a burn. -/
inductive Moved : BurnState → BurnState → Prop
  | send (retries messageId : Nat) : Moved (.submit retries) (.await retries messageId)
  | respond (retries messageId : Nat) (response : Except String TxSubmissionResponse) :
      Moved (.await retries messageId) (.ofResponse response)
  | retry (retries messageId : Nat) : Moved (.await (retries + 1) messageId) (.submit retries)

variable {env : TransactionEnv} {s s' : BurnSystem}

/-- An action that is neither one of the wallet nor the start or a statement of a burn moves a burn,
    and changes nothing of the wallet but its network. -/
theorem step_moved {a : BurnAction} (h : s.step env a = some s') (hwallet : ∀ b, a ≠ .wallet b)
    (hburn : ∀ lockCall kernelExcess outputHash txId,
      a ≠ .burn lockCall kernelExcess outputHash txId) (hstatement : ∀ i ch, a ≠ .statement i ch) :
    ∃ i result st st', s.burns[i]? = some (result, st) ∧ Moved st st' ∧
      s'.burns = s.burns.set i (result, st') ∧
      s'.wallet.db = s.wallet.db ∧ s'.wallet.calls = s.wallet.calls := by
  cases a with
  | wallet b => exact absurd rfl (hwallet b)
  | burn lockCall kernelExcess outputHash txId => exact absurd rfl (hburn _ _ _ _)
  | statement i ch => exact absurd rfl (hstatement i ch)
  | send i =>
      simp only [step] at h
      split at h
      · next result retries hi =>
          cases h
          exact ⟨i, result, _, _, hi, .send retries _, rfl, rfl, rfl⟩
      · cases h
  | receive i =>
      simp only [step] at h
      split at h
      · next result retries messageId hi =>
          obtain ⟨response, -, rfl⟩ := Option.map_eq_some_iff.mp h
          exact ⟨i, result, _, _, hi, .respond retries messageId response, rfl, rfl, rfl⟩
      · cases h
  | transportError i retry message =>
      simp only [step] at h
      split at h
      · next result retries messageId hi =>
          split at h
          · cases h
            exact ⟨i, result, _, _, hi, .retry _ messageId, rfl, rfl, rfl⟩
          · cases h
          · cases h
            exact ⟨i, result, _, _, hi, .respond _ messageId (.error message), rfl, rfl, rfl⟩
      · cases h

/-- What an action does to the database: what a wallet action does, one statement of a burn, or
    nothing. -/
theorem step_db {a : BurnAction} (h : s.step env a = some s') :
    (∃ b, a = .wallet b ∧ s.wallet.step env b = some s'.wallet) ∨
      (∃ i ch result st x st', a = .statement i ch ∧ s.burns[i]? = some (result, st) ∧
        st.next ch s.wallet.db result = some (x, st') ∧ s'.wallet.db = x.apply s.wallet.db) ∨
      (∀ b, a ≠ .wallet b) ∧ (∀ i ch, a ≠ .statement i ch) ∧ s'.wallet.db = s.wallet.db := by
  cases a with
  | wallet b =>
      obtain ⟨w, hw, rfl⟩ := Option.map_eq_some_iff.mp h
      exact Or.inl ⟨b, rfl, hw⟩
  | statement i ch =>
      obtain ⟨⟨result, st⟩, hburn, h⟩ := Option.bind_eq_some_iff.mp h
      obtain ⟨⟨x, st'⟩, hnext, rfl⟩ := Option.map_eq_some_iff.mp h
      exact Or.inr (Or.inl ⟨i, ch, result, st, x, st', rfl, hburn, hnext, rfl⟩)
  | burn lockCall kernelExcess outputHash txId =>
      obtain ⟨result, -, rfl⟩ := Option.map_eq_some_iff.mp h
      exact Or.inr (Or.inr ⟨by simp, by simp, rfl⟩)
  | send | receive | transportError =>
      obtain ⟨_, _, _, _, -, -, -, hdb, -⟩ := step_moved h (by simp) (by simp) (by simp)
      exact Or.inr (Or.inr ⟨by simp, by simp, hdb⟩)

/-- The calls change only with the wallet. -/
theorem step_calls {a : BurnAction} (h : s.step env a = some s') (ha : ∀ b, a ≠ .wallet b) :
    s'.wallet.calls = s.wallet.calls := by
  cases a with
  | wallet b => exact absurd rfl (ha b)
  | burn lockCall kernelExcess outputHash txId =>
      obtain ⟨result, -, rfl⟩ := Option.map_eq_some_iff.mp h
      rfl
  | statement i ch =>
      obtain ⟨⟨result, st⟩, -, h⟩ := Option.bind_eq_some_iff.mp h
      obtain ⟨⟨x, st'⟩, -, rfl⟩ := Option.map_eq_some_iff.mp h
      rfl
  | send | receive | transportError =>
      obtain ⟨_, _, _, _, -, -, -, -, hcalls⟩ := step_moved h (by simp) (by simp) (by simp)
      exact hcalls

end BurnSystem

end MinotariWallet
