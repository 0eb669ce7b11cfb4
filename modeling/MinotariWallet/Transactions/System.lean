import MinotariWallet.Lib.Transition
import MinotariWallet.Ledger.Machine
import MinotariWallet.Transactions.FundLocker
import MinotariWallet.Transactions.Monitor

set_option autoImplicit false

/-! # Concurrent calls, the network and the node

Any number of calls run on one database, one statement at a time in any order; scanning and rollbacks
are database transactions, so each is one step. A submission is a request message, the node's answer
and a response message, and the network may lose or delay both messages. -/

namespace MinotariWallet

open Sql Exec

inductive Call where
  | lock (req : LockFundsRequest) (st : LockState)
  | start (req : StartRequest) (st : StartState)
  | finalize (prepared : PreparedTransaction) (signed : SignedTransaction) (st : FinalizeState)
  | unlocker (st : UnlockerState)
  | monitor (m : TransactionMonitor) (st : MonitorState)

namespace Call

/-- The next database statement of the call and its state after it; `none` when the call has
    returned or is at the network. -/
def next (env : TransactionEnv) (ch : Choice) (db : Db) : Call → Option (Statement × Call)
  | .lock req st => (st.next env ch db req).map (fun (x, st') => (x, .lock req st'))
  | .start req st => (st.next env ch db req).map (fun (x, st') => (x, .start req st'))
  | .finalize prepared signed st =>
    (st.next ch db prepared signed).map (fun (x, st') => (x, .finalize prepared signed st'))
  | .unlocker st => (st.step ch db).map (fun (x, st') => (x, .unlocker st'))
  | .monitor m st => (st.next env ch db m).map (fun (x, st') => (x, .monitor m st'))

/-- The transaction the call is about to send, with its pending transaction. -/
def toSend : Call → Option (RequestId × Transaction)
  | .finalize prepared signed (.submit _) => some (prepared.id, signed.transaction)
  | .monitor _ (.submit tx _ _) => some (tx.pendingTxId, tx.serializedTransaction)
  | _ => none

/-- The call once its request has been sent as message `messageId`. -/
def sent (messageId : Nat) : Call → Call
  | .finalize prepared signed (.submit retries) =>
    .finalize prepared signed (.await retries messageId)
  | .monitor m (.submit tx retries todo) => .monitor m (.await tx retries messageId todo)
  | c => c

/-- The message the call waits for the response to. -/
def awaiting : Call → Option Nat
  | .finalize _ _ (.await _ messageId) => some messageId
  | .monitor _ (.await _ _ messageId _) => some messageId
  | _ => none

/-- The call once `submit_transaction` has returned. -/
def received (result : Except String TxSubmissionResponse) : Call → Call
  | .finalize prepared signed (.await _ _) => .finalize prepared signed (.ofResponse result)
  | .monitor m (.await tx _ _ todo) => .monitor m (.ofResponse tx todo result)
  | c => c

/-- The call when it sends its request again, while retries are left. -/
def retry : Call → Option Call
  | .finalize prepared signed (.await (retries + 1) _) =>
    some (.finalize prepared signed (.submit retries))
  | .monitor m (.await tx (retries + 1) _ todo) => some (.monitor m (.submit tx retries todo))
  | _ => none

end Call

/-- The messages under way, by message id, and the transactions that the node has and those it has
    rejected. -/
structure Network where
  nextId : Nat := 0
  requests : List (Nat × Transaction) := []
  responses : List (Nat × Except String TxSubmissionResponse) := []
  held : List Transaction := []
  rejected : List Transaction := []

/-- A transaction sent to the node, by which call and for which pending transaction. -/
structure Submission where
  call : Nat
  pendingTxId : RequestId
  transaction : Transaction
deriving DecidableEq

structure WalletSystem where
  db : Db
  calls : List Call := []
  network : Network := {}
  /-- Everything sent so far. -/
  submissions : List Submission := []

inductive SystemAction where
  | lock (req : LockFundsRequest)
  | startNewTransaction (req : StartRequest)
  /-- Finalize what the start call `startCall` prepared, once it is signed. -/
  | finalize (startCall : Nat) (kernelExcess : FixedHash) (sentOutputHash : Option FixedHash)
      (displayed : Except String DisplayedTransaction)
  | unlockExpiredTransactions
  | monitor (m : TransactionMonitor)
  /-- The next database statement of call `i`. -/
  | statement (i : Nat) (ch : Choice)
  | send (i : Nat)
  /-- The response to what call `i` sent last arrives. -/
  | receive (i : Nat)
  /-- The transport fails call `i`: it retries, or `submit_transaction` returns the error. -/
  | transportError (i : Nat) (retry : Bool) (message : String)
  /-- The request arrives, and the node answers it. -/
  | answer (messageId : Nat) (result : Except String TxSubmissionResponse)
  | loseRequest (messageId : Nat)
  | loseResponse (messageId : Nat)
  | processBlock (bp : BlockProcessor) (block : BlockScanResult) (accountId : AccountId)
      (now : Timestamp)
  | rollbackFromHeight (accountId : AccountId) (height : Nat)
      (webhookConfig : Option WebhookTriggerConfig) (now : Timestamp)

/-- The call whose database statement the action runs. -/
def SystemAction.caller? : SystemAction → Option Nat
  | .statement i _ => some i
  | _ => none

namespace WalletSystem

def begin (s : WalletSystem) (c : Call) : WalletSystem := { s with calls := s.calls ++ [c] }

/-- What a start call has prepared. -/
def prepared? (s : WalletSystem) (i : Nat) : Option PreparedTransaction :=
  match s.calls[i]? with
  | some (.start _ (.ok prepared)) => some prepared
  | _ => none

/-- Whether the node has the transaction with this answer: it takes it in, or it is mined. -/
def accepts : Except String TxSubmissionResponse → Bool
  | .ok response => response.accepted || response.rejectionReason == .alreadyMined
  | .error _ => false

/-- Whether the node turns the transaction down with this answer. -/
def rejects : Except String TxSubmissionResponse → Bool
  | .ok response => !response.accepted && response.rejectionReason != .alreadyMined
  | .error _ => false

/-- The system after one action, `none` when the action is not possible. -/
def step (env : TransactionEnv) (s : WalletSystem) : SystemAction → Option WalletSystem
  | .lock req => some (s.begin (.lock req .find))
  | .startNewTransaction req => some (s.begin (.start req .validate))
  | .finalize startCall kernelExcess sentOutputHash displayed =>
    (s.prepared? startCall).map (fun prepared =>
      s.begin (.finalize prepared (prepared.sign kernelExcess sentOutputHash displayed)
        .checkExpired))
  | .unlockExpiredTransactions => some (s.begin (.unlocker .list))
  | .monitor m => some (s.begin (.monitor m .list))
  | .statement i ch =>
    s.calls[i]?.bind (fun c => (c.next env ch s.db).map (fun (x, c') =>
      { s with db := x.apply s.db, calls := s.calls.set i c' }))
  | .send i =>
    s.calls[i]?.bind (fun c => c.toSend.map (fun (id, tx) =>
      { s with
        calls := s.calls.set i (c.sent s.network.nextId)
        network := { s.network with
          nextId := s.network.nextId + 1
          requests := s.network.requests ++ [(s.network.nextId, tx)] }
        submissions := s.submissions ++ [⟨i, id, tx⟩] }))
  | .receive i =>
    s.calls[i]?.bind (fun c => c.awaiting.bind (fun messageId =>
      (s.network.responses.lookup messageId).map (fun result =>
        { s with
          calls := s.calls.set i (c.received result)
          network := { s.network with
            responses := s.network.responses.filter (·.1 != messageId) } })))
  | .transportError i true _ =>
    s.calls[i]?.bind (fun c => c.retry.map (fun c' => { s with calls := s.calls.set i c' }))
  | .transportError i false message =>
    s.calls[i]?.bind (fun c => c.awaiting.map (fun _ =>
      { s with calls := s.calls.set i (c.received (.error message)) }))
  | .answer messageId result =>
    (s.network.requests.lookup messageId).map (fun tx =>
      { s with
        network := { s.network with
          requests := s.network.requests.filter (·.1 != messageId)
          responses := s.network.responses ++ [(messageId, result)]
          held := if accepts result then s.network.held ++ [tx] else s.network.held
          rejected := if rejects result then s.network.rejected ++ [tx]
            else s.network.rejected } })
  | .loseRequest messageId =>
    some { s with
      network := { s.network with requests := s.network.requests.filter (·.1 != messageId) } }
  | .loseResponse messageId =>
    some { s with
      network := { s.network with responses := s.network.responses.filter (·.1 != messageId) } }
  | .processBlock bp block accountId now =>
    (runOk (bp.processBlock env.toScanEnv now block accountId) s.db).map (fun (_, db) =>
      { s with db })
  | .rollbackFromHeight accountId height webhookConfig now =>
    (runOk (rollbackFromHeight accountId height webhookConfig now) s.db).map (fun (_, db) =>
      { s with db })

end WalletSystem

/-- The outputs from the front of the list until their sum reaches the target. -/
def takeUntilCovered (target : Nat) : List DbWalletOutput → Option (List DbWalletOutput)
  | [] => if target = 0 then some [] else none
  | utxo :: rest =>
    if target = 0 then some []
    else (takeUntilCovered (target - utxo.output.value) rest).map (utxo :: ·)

theorem mem_of_takeUntilCovered {target : Nat} {utxos selected : List DbWalletOutput}
    (h : takeUntilCovered target utxos = some selected) : ∀ u ∈ selected, u ∈ utxos := by
  induction utxos generalizing target selected with
  | nil =>
      unfold takeUntilCovered at h
      split at h <;> cases h
      exact fun u hu => hu
  | cons utxo rest ih =>
      unfold takeUntilCovered at h
      split at h
      · cases h; intro u hu; cases hu
      · obtain ⟨tail, htail, rfl⟩ := Option.map_eq_some_iff.mp h
        intro u hu
        rcases List.mem_cons.mp hu with rfl | hu
        · exact List.mem_cons_self
        · exact List.mem_cons_of_mem _ (ih htail u hu)

/-- An environment to run the calls in: the largest outputs are selected first, and a transaction
    costs its weight with two outputs. -/
def plainTransactionEnv : TransactionEnv where
  toScanEnv := plainEnv
  calculateFee := fun feePerGram kernels inputs outputs _ =>
    feePerGram * (10 * kernels + 8 * inputs + 53 * outputs)
  getDefaultFeaturesAndScriptsSize := .ok 0
  search := fun utxos params =>
    .ok ((takeUntilCovered (params.targetAmount + params.totalOutputFee + params.feePerInput)
      utxos).map (fun selected => {
        selectedUtxos := selected
        currentValue := (selected.map (·.output.value)).sum
        hasChange := true
        finalFee := params.totalOutputFee + params.changeFee
          + params.feePerInput * selected.length }))
  search_mem := by
    intro utxos params r h
    simp only [Except.ok.injEq] at h
    obtain ⟨selected, hsel, rfl⟩ := Option.map_eq_some_iff.mp h
    exact mem_of_takeUntilCovered hsel
  transactionFee := fun inputs => 5 * (10 + 8 * inputs.length + 53 * 2)

end MinotariWallet
