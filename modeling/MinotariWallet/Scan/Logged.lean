import MinotariWallet.Transactions.Records

set_option autoImplicit false

/-! # What a rollback logs

A rollback stores events for the blocks, the outputs and the pending transactions that it takes back,
and queues their webhooks at the end; its other statements touch neither events nor webhooks. -/

namespace MinotariWallet

open Sql Exec

/-- The events of a rollback, from the recorded blocks and the database at its start. -/
def Db.rollbackEvents (db : Db) (accountId : AccountId) (height : Nat)
    (tipBlocks : List ScannedTipBlock) : List WalletEvent :=
  let affectedOutputs := db.getActiveOutputsFromHeight accountId height
  (tipBlocks.filter (fun b => height ≤ b.height)).map (blockRolledBackEvent accountId) ++
    affectedOutputs.map (outputRolledBackEvent accountId height) ++
    (cancelledPendingTxIds affectedOutputs).map (pendingTransactionCancelledEvent accountId)

/-- The view misses all tables but those of the events and the webhooks. -/
structure LogView {τ : Type} (v : Db → τ) : Prop extends StatementView v, BlockView v where
  displayed : ∀ (db : Db) displayedTransactions, v { db with displayedTransactions } = v db
  history : ∀ (db : Db) payrefHistory, v { db with payrefHistory } = v db

theorem LogView.of_tables {τ : Type} (w : AutoTable EventRow → AutoTable WebhookQueueRow → τ) :
    LogView (fun db => w db.events db.webhookQueue) where
  outputs _ _ := rfl
  inputs _ _ := rfl
  balanceChanges _ _ := rfl
  pending _ _ := rfl
  completed _ _ := rfl
  tips _ _ := rfl
  displayed _ _ := rfl
  history _ _ := rfl

variable {τ : Type} {v : Db → τ} {accountId : AccountId} {height : Nat} {now : Timestamp}
  {webhookConfig : Option WebhookTriggerConfig}

/-! ## The other statements -/

theorem softDeleteInputs_keepsView (hv : LogView v) :
    Keeps v (softDeleteInputsFromHeight accountId height now) :=
  Keeps.bind Keeps.query (fun _ => Keeps.bind
    (Keeps.forM (fun _ => reverseBalanceChange_keepsView hv.balanceChanges _ _))
    (fun _ => Keeps.update (fun db => hv.inputs db _)))

theorem softDeleteOutputs_keepsView (hv : LogView v) :
    Keeps v (softDeleteOutputsFromHeight accountId height now) :=
  Keeps.bind Keeps.query (fun _ => Keeps.bind
    (Keeps.forM (fun _ => reverseBalanceChange_keepsView hv.balanceChanges _ _))
    (fun _ => Keeps.update (fun db => hv.toBlockView.outputs db _)))

theorem cancelPendingTransactionsByIds_keepsView (hv : LogView v) (ids : List RequestId) :
    Keeps v (cancelPendingTransactionsByIds ids .cancelled) :=
  Keeps.ite Keeps.pure (Keeps.update (fun db => hv.pending db _))

theorem saveDisplayedTransactionPayrefs_keepsView (hv : LogView v) :
    Keeps v (saveDisplayedTransactionPayrefsBeforeReorg accountId height now) :=
  Keeps.bind Keeps.query (fun _ => Keeps.forM (fun _ => Keeps.forM (fun _ =>
    Keeps.update (fun db => hv.history db _))))

theorem markDisplayedTransactionsReorganized_keepsView (hv : LogView v) :
    Keeps v (markDisplayedTransactionsReorganizedAndReturn accountId height) :=
  Keeps.bind Keeps.query (fun _ => Keeps.foldlM (fun _ _ =>
    Keeps.bind (Keeps.update (fun db => hv.displayed db _)) (fun _ => Keeps.pure)))

theorem saveCompletedTransactionPayrefs_keepsView (hv : LogView v) :
    Keeps v (saveCompletedTransactionPayrefsBeforeReorg accountId height now) := by
  refine Keeps.bind Keeps.query (fun _ => Keeps.forM (fun row => ?_))
  cases row.sentPayref with
  | none => exact Keeps.pure
  | some old => exact Keeps.bind (Keeps.update (fun db => hv.history db _)) (fun _ => Keeps.pure)

/-! ## The rule -/

section Rule

variable {P : List (Id × WalletEvent) → Db → Prop} {db₀ : Db}

/-- What follows every event follows a list of them, which is then what has been stored. -/
theorem logWalletEvents_logged
    (hlog : ∀ generatedEvents event, Ensures (P generatedEvents)
      (insert (·.insertWalletEvent accountId event) : DbM Id)
      (fun eventId => P (generatedEvents ++ [(eventId, event)])))
    (events before : List WalletEvent) (generatedEvents : List (Id × WalletEvent)) :
    Ensures (fun db => P generatedEvents db ∧ generatedEvents.map (·.2) = before)
      (events.foldlM (logWalletEvent accountId) generatedEvents)
      (fun generatedEvents db => P generatedEvents db ∧
        generatedEvents.map (·.2) = before ++ events) := by
  induction events generalizing before generatedEvents with
  | nil =>
      rw [List.append_nil]
      exact Ensures.pure (fun _ h => h)
  | cons event events ih =>
      rw [List.foldlM_cons, show before ++ event :: events = before ++ [event] ++ events by simp]
      refine Ensures.bind (Q := fun generatedEvents db => P generatedEvents db ∧
        generatedEvents.map (·.2) = before ++ [event]) ?_ (fun generatedEvents =>
          ih (before ++ [event]) generatedEvents)
      have hstored : Ensures (fun _ : Db => generatedEvents.map (·.2) = before)
          (insert (·.insertWalletEvent accountId event) : DbM Id)
          (fun eventId _ => (generatedEvents ++ [(eventId, event)]).map (·.2) = before ++ [event]) :=
        Ensures.insert (fun db h => by rw [List.map_append, h, List.map_singleton])
      exact Ensures.bind ((hlog generatedEvents event).and hstored) (fun eventId =>
        Ensures.pure (fun _ h => h))

/-- An assertion that depends on events and webhooks only, and follows the events that are logged,
    holds when the webhooks are triggered, for the events of the rollback. -/
theorem rollbackFromHeight_logs (hv : LogView v)
    (hP : ∀ generatedEvents db db', v db' = v db → P generatedEvents db → P generatedEvents db')
    (hlog : ∀ generatedEvents event, Ensures (P generatedEvents)
      (insert (·.insertWalletEvent accountId event) : DbM Id)
      (fun eventId => P (generatedEvents ++ [(eventId, event)])))
    {Q : Db → Prop}
    (htrigger : ∀ generatedEvents tipBlocks,
      generatedEvents.map (·.2) = db₀.rollbackEvents accountId height tipBlocks →
      Ensures (P generatedEvents) (triggerWebhooks accountId generatedEvents webhookConfig now)
        (fun _ => Q)) :
    Ensures (fun db => P [] db ∧ db.outputs = db₀.outputs)
      (rollbackFromHeight accountId height webhookConfig now) (fun _ => Q) := by
  have hrest : ∀ {α : Type} {x : DbM α} {generatedEvents : List (Id × WalletEvent)}
      {events : List WalletEvent}, Keeps v x →
      Ensures (fun db => P generatedEvents db ∧ generatedEvents.map (·.2) = events) x
        (fun _ db => P generatedEvents db ∧ generatedEvents.map (·.2) = events) :=
    fun hx => hx.carries (fun db db' heq h => ⟨hP _ db db' heq h.1, h.2⟩)
  have hlog₀ : ∀ generatedEvents event, Ensures
      (fun db => P generatedEvents db ∧ db.outputs = db₀.outputs)
      (insert (·.insertWalletEvent accountId event) : DbM Id)
      (fun eventId db => P (generatedEvents ++ [(eventId, event)]) db ∧
        db.outputs = db₀.outputs) :=
    fun generatedEvents event => (hlog generatedEvents event).and (Ensures.insert (fun _ h => h))
  unfold rollbackFromHeight
  refine Ensures.bind (Q := fun _ db => (P [] db ∧ db.outputs = db₀.outputs) ∧
    ([] : List (Id × WalletEvent)).map (·.2) = []) (Ensures.tryQuery (fun db _ h _ => ⟨h, rfl⟩))
    (fun tipBlocks => ?_)
  refine Ensures.bind (logWalletEvents_logged hlog₀ _ _ _) (fun generatedEvents => ?_)
  -- the outputs are still those of the start when they are looked up
  refine Ensures.bind (Q := fun affected db =>
      (P generatedEvents db ∧ generatedEvents.map (·.2) = _) ∧
        affected = db₀.getActiveOutputsFromHeight accountId height)
    (Ensures.query (fun db h => ⟨⟨h.1.1, h.2⟩, ?_⟩)) (fun affected => ?_)
  · unfold Db.getActiveOutputsFromHeight
    rw [h.1.2]
  refine Ensures.of_pre (fun haffected => ?_)
  subst haffected
  refine Ensures.bind (logWalletEvents_logged hlog _ _ _) (fun _ => ?_)
  refine Ensures.bind (hrest (cancelPendingTransactionsByIds_keepsView hv _)) (fun _ => ?_)
  refine Ensures.bind (logWalletEvents_logged hlog _ _ _) (fun generatedEvents => ?_)
  refine Ensures.bind (hrest (softDeleteInputs_keepsView hv)) (fun _ => ?_)
  refine Ensures.bind (hrest (softDeleteOutputs_keepsView hv)) (fun _ => ?_)
  refine Ensures.bind (hrest (Keeps.update (fun db => hv.tips db _))) (fun _ => ?_)
  refine Ensures.bind (hrest (saveDisplayedTransactionPayrefs_keepsView hv)) (fun _ => ?_)
  refine Ensures.bind (hrest (markDisplayedTransactionsReorganized_keepsView hv)) (fun _ => ?_)
  refine Ensures.bind (hrest (saveCompletedTransactionPayrefs_keepsView hv)) (fun _ => ?_)
  refine Ensures.bind (hrest (Keeps.update (fun db => hv.completed db _))) (fun _ => ?_)
  refine Ensures.of_pre (fun hevents => ?_)
  exact Ensures.bind (htrigger generatedEvents tipBlocks hevents) (fun _ =>
    Ensures.pure (fun _ h => h))

end Rule

end MinotariWallet
