import MinotariWallet.Db.Outputs

set_option autoImplicit false

/-! # `db/events.rs`, `db/accounts.rs::get_balance` and `webhooks/utils.rs` -/

namespace MinotariWallet

open Sql Exec

namespace Db

def insertWalletEvent (db : Db) (accountId : AccountId) (event : WalletEvent) : Id × Db :=
  (db.events.seq + 1, { db with
    events := db.events.insert (fun id => {
      id, accountId
      eventType := event.eventType.toKeyString
      description := event.description
      data := event.eventType }) })

def enqueueWebhook (db : Db) (eventId : Option Id) (eventType : String) (payload : WebhookPayload)
    (targetUrl : String) (now : Timestamp) : Id × Db :=
  (db.webhookQueue.seq + 1, { db with
    webhookQueue := db.webhookQueue.insert (fun id => {
      id, eventId, eventType, payload, targetUrl
      status := .pending
      attemptCount := 0
      nextRetryAt := now }) })

end Db

structure AccountBalance where
  total : MicroMinotari
  available : MicroMinotari
  locked : MicroMinotari
  unconfirmed : MicroMinotari
  totalCredits : MicroMinotari
  totalDebits : MicroMinotari
  maxHeight : Option Int
  maxDate : Option Timestamp
deriving DecidableEq

/-- `x.saturating_add(y)` for unsigned 64-bit amounts. -/
def saturatingAdd (x y : MicroMinotari) : MicroMinotari := min (x + y) (2 ^ 64 - 1)

def getBalance (accountId : AccountId) : DbM AccountBalance := do
  let historyAgg ← tryQuery (·.getBalanceAggregatesForAccount accountId)
  let (locked, unconfirmed, lockedAndUnconfirmed) ← tryQuery (·.getOutputTotalsForAccount accountId)
  let totalCredits := asU64 (historyAgg.totalCredits.getD 0)
  let totalDebits := asU64 (historyAgg.totalDebits.getD 0)
  let total := totalCredits - totalDebits
  let unavailable := saturatingAdd locked unconfirmed - lockedAndUnconfirmed
  pure {
    total
    available := total - unavailable
    locked, unconfirmed, totalCredits, totalDebits
    maxHeight := historyAgg.maxHeight
    maxDate := historyAgg.maxDate }

/-- Whether the configuration asks for events of this kind. -/
def WebhookTriggerConfig.allows (config : WebhookTriggerConfig) (eventKey : String) : Bool :=
  match config.sendOnlyEventTypes with
  | none => true
  | some allowedEvents => allowedEvents.isEmpty || allowedEvents.contains eventKey

def triggerWebhookWithBalance (accountId : AccountId) (eventId : Id) (event : WalletEvent)
    (config : WebhookTriggerConfig) (now : Timestamp) : DbM Unit := do
  let eventKey := event.eventType.toKeyString
  if config.allows eventKey then
    let balance ← getBalance accountId
    let payload : WebhookPayload := {
      eventId
      eventType := eventKey
      createdAt := now
      balance := some {
        available := balance.available
        pendingIncoming := balance.unconfirmed
        pendingOutgoing := balance.locked }
      data := event.eventType }
    let _ ← insert (·.enqueueWebhook (some eventId) eventKey payload config.url now)

/-- The webhooks for the events a step generated, when webhooks are configured. -/
def triggerWebhooks (accountId : AccountId) (generatedEvents : List (Id × WalletEvent))
    (webhookConfig : Option WebhookTriggerConfig) (now : Timestamp) : DbM Unit :=
  match webhookConfig with
  | none => pure ()
  | some config => generatedEvents.forM (fun (eventId, event) =>
      triggerWebhookWithBalance accountId eventId event config now)

end MinotariWallet
