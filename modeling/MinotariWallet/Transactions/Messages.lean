import MinotariWallet.Transactions.Steps

set_option autoImplicit false

/-! # Messages and the calls that wait for them

Message ids are given out once, so what arrives under the id that a call waits for is about the
transaction that the call sent. -/

namespace MinotariWallet

open Sql Processes WalletSystem

/-- The message that the call waits for the response to, with the transaction sent in it. -/
def Call.awaited : Call → Option (Nat × Transaction)
  | .finalize _ signed (.await _ messageId) => some (messageId, signed.transaction)
  | .monitor _ (.await tx _ messageId _) => some (messageId, tx.serializedTransaction)
  | _ => none

/-- The messages with the id are about the transaction. -/
structure About (net : Network) (messageId : Nat) (tx : Transaction) : Prop where
  lt : messageId < net.nextId
  request : ∀ m ∈ net.requests, m.1 = messageId → m.2 = tx
  accepted : ∀ m ∈ net.responses, m.1 = messageId → accepts m.2 = true → tx ∈ net.held
  rejected : ∀ m ∈ net.responses, m.1 = messageId → rejects m.2 = true → tx ∈ net.rejected

structure MessagesMatch (s : WalletSystem) : Prop where
  requests : ∀ m ∈ s.network.requests, m.1 < s.network.nextId
  responses : ∀ m ∈ s.network.responses, m.1 < s.network.nextId
  awaited : Each (fun _ c => ∀ m ∈ c.awaited, About s.network m.1 m.2) s.calls

variable {env : TransactionEnv} {ch : Choice} {db : Db} {x : Statement} {c c' : Call}

theorem CallStep.awaited_none (h : CallStep env ch db c x c') : c'.awaited = none := by
  cases h with
  | lock h => rfl
  | start h => rfl
  | finalize h => cases h <;> rfl
  | unlocker h => rfl
  | monitor h => cases h <;> rfl

theorem Call.awaited_of_awaiting {messageId : Nat} (h : c.awaiting = some messageId) :
    ∃ tx, c.awaited = some (messageId, tx) := by
  unfold Call.awaiting at h
  split at h <;> cases h
  · exact ⟨_, rfl⟩
  · exact ⟨_, rfl⟩

theorem Call.awaited_sent {id : RequestId} {tx : Transaction} (h : c.toSend = some (id, tx))
    (messageId : Nat) : (c.sent messageId).awaited = some (messageId, tx) := by
  unfold Call.toSend at h
  split at h <;> cases h <;> rfl

theorem FinalizeState.awaited_ofResponse (prepared : PreparedTransaction)
    (signed : SignedTransaction) (result : Except String TxSubmissionResponse) :
    (Call.finalize prepared signed (.ofResponse result)).awaited = none := by
  cases result with
  | error e => rfl
  | ok response =>
      unfold FinalizeState.ofResponse
      dsimp only
      split
      · rfl
      · split <;> rfl

theorem MonitorState.awaited_ofResponse (m : TransactionMonitor) (tx : CompletedTransactionRow)
    (todo : PendingTransactionsByStatus) (result : Except String TxSubmissionResponse) :
    (Call.monitor m (.ofResponse tx todo result)).awaited = none := by
  cases result with
  | error e => rfl
  | ok response =>
      unfold MonitorState.ofResponse
      dsimp only
      split <;> rfl

theorem Call.awaited_received {messageId : Nat} (h : c.awaiting = some messageId)
    (result : Except String TxSubmissionResponse) : (c.received result).awaited = none := by
  unfold Call.awaiting at h
  split at h <;> cases h
  · exact FinalizeState.awaited_ofResponse _ _ result
  · exact MonitorState.awaited_ofResponse _ _ _ result

theorem Call.awaited_retry (h : c.retry = some c') : c'.awaited = none := by
  unfold Call.retry at h
  split at h <;> cases h <;> rfl

/-- A call that moves to where it waits for nothing. -/
theorem MessagesMatch.set {s : WalletSystem} (h : MessagesMatch s) (i : Nat) {c' : Call}
    (hc' : c'.awaited = none) :
    Each (fun _ c => ∀ m ∈ c.awaited, About s.network m.1 m.2) (s.calls.set i c') := by
  refine h.awaited.set (fun m hm => ?_) (fun j q _ _ hq => hq)
  rw [hc'] at hm
  cases hm

theorem MessagesMatch.begin {s : WalletSystem} (h : MessagesMatch s) {c : Call}
    (hc : c.awaited = none) : MessagesMatch (s.begin c) where
  requests := h.requests
  responses := h.responses
  awaited := by
    refine h.awaited.append (fun m hm => ?_) (fun j q _ hq => hq)
    rw [hc] at hm
    cases hm

/-- Messages can only get lost: what was true of them stays true. -/
theorem About.lose {net net' : Network} {messageId : Nat} {tx : Transaction}
    (h : About net messageId tx) (hid : net'.nextId = net.nextId)
    (hreq : ∀ m ∈ net'.requests, m ∈ net.requests)
    (hres : ∀ m ∈ net'.responses, m ∈ net.responses) (hheld : net'.held = net.held)
    (hrej : net'.rejected = net.rejected) : About net' messageId tx where
  lt := hid ▸ h.lt
  request m hm := h.request m (hreq m hm)
  accepted m hm := by rw [hheld]; exact h.accepted m (hres m hm)
  rejected m hm := by rw [hrej]; exact h.rejected m (hres m hm)

theorem messagesMatch_step {s s' : WalletSystem} {a : SystemAction} (h : MessagesMatch s)
    (hstep : s.step env a = some s') : MessagesMatch s' := by
  cases a with
  | lock req => cases hstep; exact h.begin rfl
  | startNewTransaction req => cases hstep; exact h.begin rfl
  | finalize startCall kernelExcess sentOutputHash displayed =>
      obtain ⟨req, prepared, -, rfl⟩ := step_finalize hstep
      exact h.begin rfl
  | unlockExpiredTransactions => cases hstep; exact h.begin rfl
  | monitor m => cases hstep; exact h.begin rfl
  | statement i ch =>
      obtain ⟨c, x, c', -, -, hcall, rfl⟩ := step_statement hstep
      exact ⟨h.requests, h.responses, h.set i hcall.awaited_none⟩
  | send i =>
      obtain ⟨c, id, tx, hc, hsend, rfl⟩ := step_send hstep
      have hlt : ∀ m ∈ s.network.requests ++ [(s.network.nextId, tx)], m.1 < s.network.nextId + 1 := by
        intro m hm
        rcases List.mem_append.mp hm with hm | hm
        · exact Nat.lt_succ_of_lt (h.requests m hm)
        · rw [List.mem_singleton.mp hm]
          exact Nat.lt_succ_self _
      refine ⟨hlt, fun m hm => Nat.lt_succ_of_lt (h.responses m hm),
        h.awaited.set (fun m hm => ?_) (fun j q _ _ hq m hm => ?_)⟩
      · rw [Call.awaited_sent hsend] at hm
        cases hm
        -- the id is new: only the request just sent has it
        refine ⟨Nat.lt_succ_self _, fun m hm hid => ?_, fun m hm hid => ?_, fun m hm hid => ?_⟩
        · rcases List.mem_append.mp hm with hm | hm
          · exact absurd hid (Nat.ne_of_lt (h.requests m hm))
          · rw [List.mem_singleton.mp hm]
        · exact absurd hid (Nat.ne_of_lt (h.responses m hm))
        · exact absurd hid (Nat.ne_of_lt (h.responses m hm))
      · have hq := hq m hm
        refine ⟨Nat.lt_succ_of_lt hq.lt, fun r hr hid => ?_, hq.accepted, hq.rejected⟩
        rcases List.mem_append.mp hr with hr | hr
        · exact hq.request r hr hid
        · rw [List.mem_singleton.mp hr] at hid
          exact absurd hid (Nat.ne_of_gt hq.lt)
  | receive i =>
      obtain ⟨c, messageId, result, -, hawait, -, rfl⟩ := step_receive hstep
      refine ⟨h.requests, fun m hm => h.responses m (List.mem_of_mem_filter hm), ?_⟩
      refine (h.set i (Call.awaited_received hawait result)).mono (fun j q _ hq m hm => ?_)
      exact (hq m hm).lose rfl (fun r hr => hr) (fun r hr => List.mem_of_mem_filter hr) rfl rfl
  | transportError i retry message =>
      obtain ⟨c, c', -, rfl, hcase⟩ := step_transportError hstep
      refine ⟨h.requests, h.responses, h.set i ?_⟩
      rcases hcase with ⟨-, hretry⟩ | ⟨-, ⟨messageId, hawait⟩, rfl⟩
      · exact Call.awaited_retry hretry
      · exact Call.awaited_received hawait _
  | answer messageId result =>
      obtain ⟨tx, htx, rfl⟩ := step_answer hstep
      refine ⟨fun m hm => h.requests m (List.mem_of_mem_filter hm), fun m hm => ?_,
        h.awaited.mono (fun j q _ hq m hm => ?_)⟩
      · rcases List.mem_append.mp hm with hm | hm
        · exact h.responses m hm
        · rw [List.mem_singleton.mp hm]
          exact h.requests _ htx
      · have hq := hq m hm
        refine ⟨hq.lt, fun r hr hid => hq.request r (List.mem_of_mem_filter hr) hid,
          fun r hr hid hacc => ?_, fun r hr hid hrej => ?_⟩
        · rcases List.mem_append.mp hr with hr | hr
          · have hheld := hq.accepted r hr hid hacc
            dsimp only
            split
            · exact List.mem_append_left _ hheld
            · exact hheld
          · rw [List.mem_singleton.mp hr] at hid hacc
            dsimp only
            rw [if_pos hacc, ← hq.request _ htx hid]
            exact List.mem_append_right _ List.mem_cons_self
        · rcases List.mem_append.mp hr with hr | hr
          · have hrejected := hq.rejected r hr hid hrej
            dsimp only
            split
            · exact List.mem_append_left _ hrejected
            · exact hrejected
          · rw [List.mem_singleton.mp hr] at hid hrej
            dsimp only
            rw [if_pos hrej, ← hq.request _ htx hid]
            exact List.mem_append_right _ List.mem_cons_self
  | loseRequest messageId =>
      cases hstep
      exact ⟨fun m hm => h.requests m (List.mem_of_mem_filter hm), h.responses,
        h.awaited.mono (fun j q _ hq m hm => (hq m hm).lose rfl
          (fun r hr => List.mem_of_mem_filter hr) (fun r hr => hr) rfl rfl)⟩
  | loseResponse messageId =>
      cases hstep
      exact ⟨h.requests, fun m hm => h.responses m (List.mem_of_mem_filter hm),
        h.awaited.mono (fun j q _ hq m hm => (hq m hm).lose rfl (fun r hr => hr)
          (fun r hr => List.mem_of_mem_filter hr) rfl rfl)⟩
  | processBlock bp block accountId now =>
      obtain ⟨_, -, rfl⟩ := Option.map_eq_some_iff.mp hstep
      exact ⟨h.requests, h.responses, h.awaited⟩
  | rollbackFromHeight accountId height webhookConfig now =>
      obtain ⟨_, -, rfl⟩ := Option.map_eq_some_iff.mp hstep
      exact ⟨h.requests, h.responses, h.awaited⟩

end MinotariWallet
