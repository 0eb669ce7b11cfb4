import MinotariWallet.Scan.Logged

set_option autoImplicit false

/-! # Events and the webhooks queued for them

Whatever stores events also queues the webhooks for them: block processing and rollbacks at the end
of their loops, the monitor after each event, which is in no database transaction. So the queue lists
the events that the configuration asks for in their order, short of those that the monitor stored
before it failed. -/

namespace MinotariWallet

open Sql Exec Processes

/-- What a webhook says about an event, and where it goes. -/
structure Announcement where
  eventId : Option Id
  eventType : String
  payloadEventId : Id
  payloadEventType : String
  data : WalletEventType
  targetUrl : String
deriving DecidableEq

def WebhookQueueRow.announcement (row : WebhookQueueRow) : Announcement where
  eventId := row.eventId
  eventType := row.eventType
  payloadEventId := row.payload.eventId
  payloadEventType := row.payload.eventType
  data := row.payload.data
  targetUrl := row.targetUrl

/-- What the configuration asks to be sent of an event. -/
def announce (webhookConfig : Option WebhookTriggerConfig) (eventId : Id) (eventType : String)
    (data : WalletEventType) : List Announcement :=
  match webhookConfig with
  | none => []
  | some config =>
    if config.allows eventType then
      [⟨some eventId, eventType, eventId, eventType, data, config.url⟩]
    else []

def Db.queued (db : Db) : List Announcement := db.webhookQueue.rows.map (·.announcement)

/-- What the configuration asks to be sent of the stored events. -/
def Db.wanted (webhookConfig : Option WebhookTriggerConfig) (db : Db) : List Announcement :=
  db.events.rows.flatMap (fun e => announce webhookConfig e.id e.eventType e.data)

/-- The same of events that are stored, and still to be queued. -/
def toAnnounce (webhookConfig : Option WebhookTriggerConfig)
    (generatedEvents : List (Id × WalletEvent)) : List Announcement :=
  generatedEvents.flatMap (fun e => announce webhookConfig e.1 e.2.eventType.toKeyString
    e.2.eventType)

/-- The tables that events and webhooks are in. -/
def Db.outbox (db : Db) : AutoTable EventRow × AutoTable WebhookQueueRow :=
  (db.events, db.webhookQueue)

/-- The queue, with what is still to be queued, is to what is wanted as `R` says. -/
def UpTo (R : List Announcement → List Announcement → Prop)
    (webhookConfig : Option WebhookTriggerConfig) (generatedEvents : List (Id × WalletEvent))
    (db : Db) : Prop :=
  R (db.queued ++ toAnnounce webhookConfig generatedEvents) (db.wanted webhookConfig)

/-- Both lists may grow by the same. -/
def Together (R : List Announcement → List Announcement → Prop) : Prop :=
  ∀ l l' xs, R l l' → R (l ++ xs) (l' ++ xs)

/-- The first list may lag behind. -/
def Behind (R : List Announcement → List Announcement → Prop) : Prop :=
  ∀ l l' xs, R l l' → R l (l' ++ xs)

/-! ## What queues webhooks -/

section Triggers

variable {R : List Announcement → List Announcement → Prop}
  {webhookConfig : Option WebhookTriggerConfig} {accountId : AccountId} {now : Timestamp}

@[simp] theorem toAnnounce_nil : toAnnounce webhookConfig [] = [] := rfl

@[simp] theorem toAnnounce_none (generatedEvents : List (Id × WalletEvent)) :
    toAnnounce none generatedEvents = [] := by
  simp [toAnnounce, announce]

theorem toAnnounce_append (generatedEvents generatedEvents' : List (Id × WalletEvent)) :
    toAnnounce webhookConfig (generatedEvents ++ generatedEvents') =
      toAnnounce webhookConfig generatedEvents ++ toAnnounce webhookConfig generatedEvents' :=
  List.flatMap_append

theorem wanted_insertWalletEvent (db : Db) (event : WalletEvent) :
    (db.insertWalletEvent accountId event).2.wanted webhookConfig =
      db.wanted webhookConfig ++
        toAnnounce webhookConfig [((db.insertWalletEvent accountId event).1, event)] := by
  simp [Db.wanted, Db.insertWalletEvent, AutoTable.insert, toAnnounce]

theorem queued_enqueueWebhook (db : Db) (eventId : Id) (event : WalletEvent)
    {config : WebhookTriggerConfig} (hallows : config.allows event.eventType.toKeyString = true)
    (balance : Option WebhookBalanceSnapshot) :
    (db.enqueueWebhook (some eventId) event.eventType.toKeyString
      ⟨eventId, event.eventType.toKeyString, now, balance, event.eventType⟩ config.url
      now).2.queued = db.queued ++ toAnnounce (some config) [(eventId, event)] := by
  simp [Db.queued, Db.enqueueWebhook, AutoTable.insert, toAnnounce, announce, hallows,
    WebhookQueueRow.announcement]

/-- An event that is stored is still to be queued. -/
theorem insertWalletEvent_upTo (hR : Together R)
    (event : WalletEvent) (generatedEvents : List (Id × WalletEvent)) :
    Ensures (UpTo R webhookConfig generatedEvents)
      (insert (·.insertWalletEvent accountId event) : DbM Id)
      (fun eventId => UpTo R webhookConfig (generatedEvents ++ [(eventId, event)])) := by
  refine Ensures.insert (fun db h => ?_)
  unfold UpTo
  rw [wanted_insertWalletEvent, toAnnounce_append, ← List.append_assoc]
  exact hR _ _ _ h

theorem triggerWebhookWithBalance_upTo (config : WebhookTriggerConfig) (eventId : Id)
    (event : WalletEvent) (rest : List (Id × WalletEvent)) :
    Ensures (UpTo R (some config) ((eventId, event) :: rest))
      (triggerWebhookWithBalance accountId eventId event config now)
      (fun _ => UpTo R (some config) rest) := by
  unfold triggerWebhookWithBalance
  refine Ensures.ite (fun hallows => ?_) (fun hnot => Ensures.pure (fun db h => ?_))
  · refine Ensures.bind (Q := fun _ db => UpTo R (some config) ((eventId, event) :: rest) db)
      ?_ (fun balance => Ensures.bind (Ensures.insert (Q := fun _ => UpTo R (some config) rest)
        (fun db h => ?_)) (fun _ => Ensures.pure (fun _ h => h)))
    · exact Ensures.bind (Ensures.tryQuery (fun _ _ h _ => h)) (fun _ =>
        Ensures.bind (Ensures.tryQuery (fun _ _ h _ => h)) (fun _ => Ensures.pure (fun _ h => h)))
    · unfold UpTo at h ⊢
      rw [queued_enqueueWebhook db eventId event hallows, List.append_assoc, ← toAnnounce_append]
      exact h
  · unfold UpTo at h ⊢
    rw [← List.singleton_append, toAnnounce_append] at h
    simpa [toAnnounce, announce, hnot] using h

/-- The events of a step are queued. -/
theorem triggerWebhooks_upTo (generatedEvents : List (Id × WalletEvent)) :
    Ensures (UpTo R webhookConfig generatedEvents)
      (triggerWebhooks accountId generatedEvents webhookConfig now)
      (fun _ => UpTo R webhookConfig []) := by
  unfold triggerWebhooks
  cases webhookConfig with
  | none =>
      refine Ensures.pure (fun db h => ?_)
      unfold UpTo at h ⊢
      rwa [toAnnounce_none] at h ⊢
  | some config =>
      exact Ensures.forM (I := fun rest => UpTo R (some config) rest) generatedEvents
        (fun e rest => triggerWebhookWithBalance_upTo config e.1 e.2 rest)

theorem UpTo.of_outbox {db db' : Db} {generatedEvents : List (Id × WalletEvent)}
    (h : UpTo R webhookConfig generatedEvents db) (heq : db'.outbox = db.outbox) :
    UpTo R webhookConfig generatedEvents db' := by
  obtain ⟨hevents, hqueue⟩ := Prod.mk.inj heq
  unfold UpTo Db.queued Db.wanted at h ⊢
  rwa [hevents, hqueue]

/-- A program that touches neither table. -/
theorem upTo_of_keeps {α : Type} {x : DbM α} (h : Keeps Db.outbox x)
    {generatedEvents : List (Id × WalletEvent)} :
    Ensures (UpTo R webhookConfig generatedEvents) x
      (fun _ => UpTo R webhookConfig generatedEvents) :=
  h.carries (fun _ _ heq hupTo => hupTo.of_outbox heq)

end Triggers

/-! ## Blocks and rollbacks -/

section Ledger

variable {R : List Announcement → List Announcement → Prop} {env : ScanEnv} {bp : BlockProcessor}
  {block : BlockScanResult} {accountId : AccountId} {now : Timestamp}

theorem processOutput_upTo (hR : Together R) (key : PrivateKey)
    (st : BlockProcessor.LoopState) (w : FixedHash × WalletOutput × Nat) :
    Ensures (UpTo R bp.webhookConfig st.generatedEvents)
      (BlockProcessor.processOutput env bp now block accountId key st w)
      (fun st' => UpTo R bp.webhookConfig st'.generatedEvents) := by
  obtain ⟨hash, output, walletIdx⟩ := w
  unfold BlockProcessor.processOutput
  dsimp only
  split
  · exact Ensures.pure (fun _ h => h)
  · refine Ensures.ite (fun _ => Ensures.pure (fun _ h => h)) (fun _ => ?_)
    refine Ensures.bind (upTo_of_keeps (Keeps.stmt (fun db id db' hins => ?_))) (fun outputId => ?_)
    · obtain ⟨_, -, -, -, rfl⟩ := insertOutput_ok hins
      rfl
    · exact Ensures.bind (insertWalletEvent_upTo hR _ _) (fun eventId =>
        Ensures.bind (upTo_of_keeps (Keeps.insert (fun _ => rfl))) (fun _ =>
          Ensures.pure (fun _ h => h)))

theorem processOutputs_upTo (hR : Together R) (key : PrivateKey)
    (acc : BlockEventAccumulator) :
    Ensures (UpTo R bp.webhookConfig [])
      (BlockProcessor.processOutputs env bp now block accountId key acc)
      (fun _ => UpTo R bp.webhookConfig []) :=
  Ensures.bind (Ensures.foldlM
      (I := fun _ st => UpTo R bp.webhookConfig st.generatedEvents) block.walletOutputs { acc }
      (fun w _ st => processOutput_upTo hR key st w))
    (fun st => Ensures.bind (triggerWebhooks_upTo st.generatedEvents)
      (fun _ => Ensures.pure (fun _ h => h)))

theorem processConfirmations_upTo (hR : Together R) :
    Ensures (UpTo R bp.webhookConfig []) (bp.processConfirmations now block accountId)
      (fun _ => UpTo R bp.webhookConfig []) := by
  refine Ensures.bind (upTo_of_keeps Keeps.query) (fun rows => ?_)
  refine Ensures.bind (Q := fun generatedEvents => UpTo R bp.webhookConfig generatedEvents)
    (Ensures.foldlM (I := fun _ generatedEvents => UpTo R bp.webhookConfig generatedEvents) rows []
      (fun row _ generatedEvents => ?_)) (fun generatedEvents => ?_)
  · exact Ensures.bind (insertWalletEvent_upTo hR _ _) (fun eventId =>
      Ensures.bind (Ensures.update (fun _ h => h)) (fun _ => Ensures.pure (fun _ h => h)))
  · exact Ensures.bind (triggerWebhooks_upTo generatedEvents) (fun _ => Ensures.pure (fun _ h => h))

theorem processInputs_keepsOutbox (acc : BlockEventAccumulator) :
    Keeps Db.outbox (BlockProcessor.processInputs now block accountId acc) :=
  processInputs_keepsView (fun _ _ => rfl) (fun _ _ => rfl) (fun _ _ => rfl) acc

theorem processBlock_upTo (hR : Together R) :
    Ensures (UpTo R bp.webhookConfig []) (bp.processBlock env now block accountId)
      (fun _ => UpTo R bp.webhookConfig []) :=
  processBlock_carries (fun key acc => processOutputs_upTo hR key acc)
    (fun acc => upTo_of_keeps (processInputs_keepsOutbox acc)) (processConfirmations_upTo hR)
    (fun _ _ h => h.of_outbox rfl) (fun _ _ h => h.of_outbox rfl)

variable {webhookConfig : Option WebhookTriggerConfig} {height : Nat}

theorem rollbackFromHeight_upTo (hR : Together R) :
    Ensures (UpTo R webhookConfig []) (rollbackFromHeight accountId height webhookConfig now)
      (fun _ => UpTo R webhookConfig []) := by
  intro c info c' h hx
  exact rollbackFromHeight_logs (LogView.of_tables Prod.mk) (fun _ _ _ heq h => h.of_outbox heq)
    (fun generatedEvents event => insertWalletEvent_upTo hR event generatedEvents)
    (fun generatedEvents _ _ => triggerWebhooks_upTo generatedEvents) c info c' ⟨h, rfl⟩ hx

end Ledger

/-! ## The monitor -/

section Monitor

variable {R : List Announcement → List Announcement → Prop}
  {webhookConfig : Option WebhookTriggerConfig} {accountId : AccountId} {now : Timestamp}

/-- A step that records: it keeps the queue up to date, or fails before it has queued anything. -/
structure Announces (webhookConfig : Option WebhookTriggerConfig) (x : DbM Unit) : Prop where
  ok : ∀ R, Together R → Ensures (UpTo R webhookConfig []) x (fun _ => UpTo R webhookConfig [])
  error : ∀ R, Behind R → ∀ c e c', UpTo R webhookConfig [] c.store → x c = .error e c' →
    UpTo R webhookConfig [] c'.store

theorem Announces.of_keeps {x : DbM Unit} (h : Keeps Db.outbox x) : Announces webhookConfig x where
  ok _ _ := upTo_of_keeps h
  error R _ c e c' hupTo hx := by
    have hkept := h c
    unfold after at hkept
    rw [hx] at hkept
    exact hupTo.of_outbox hkept

theorem getBalance_error {c c' : Conn Db} {e : WalletDbError}
    (h : getBalance accountId c = .error e c') : c'.store = c.store := by
  rcases bind_error.mp h with h | ⟨_, c₁, h₁, h⟩
  · exact stmt_error h
  · obtain ⟨-, hstore⟩ := tryQuery_ok h₁
    rcases bind_error.mp h with h | ⟨_, c₂, -, h⟩
    · exact (stmt_error h).trans hstore
    · cases h

theorem getBalance_ok {c c' : Conn Db} {balance : AccountBalance}
    (h : getBalance accountId c = .ok balance c') : c'.store = c.store := by
  obtain ⟨_, c₁, h₁, h⟩ := bind_ok.mp h
  obtain ⟨_, c₂, h₂, h⟩ := bind_ok.mp h
  obtain ⟨-, rfl⟩ := pure_ok.mp h
  exact (tryQuery_ok h₂).2.trans (tryQuery_ok h₁).2

/-- A webhook that is not queued leaves nothing behind. -/
theorem triggerWebhookWithBalance_error {config : WebhookTriggerConfig} {eventId : Id}
    {event : WalletEvent} {c c' : Conn Db} {e : WalletDbError}
    (h : triggerWebhookWithBalance accountId eventId event config now c = .error e c') :
    c'.store = c.store := by
  unfold triggerWebhookWithBalance at h
  dsimp only at h
  split at h
  · rcases bind_error.mp h with h | ⟨balance, c₁, hbalance, h⟩
    · exact getBalance_error h
    · rcases bind_error.mp h with h | ⟨_, _, -, h⟩
      · exact (stmt_error h).trans (getBalance_ok hbalance)
      · cases h
  · cases h

theorem triggerWebhooks_singleton_error {e : Id × WalletEvent} {c c' : Conn Db} {err : WalletDbError}
    (h : triggerWebhooks accountId [e] webhookConfig now c = .error err c') :
    c'.store = c.store := by
  unfold triggerWebhooks at h
  cases webhookConfig with
  | none => cases h
  | some config =>
      rcases bind_error.mp h with h | ⟨_, _, -, h⟩
      · exact triggerWebhookWithBalance_error h
      · cases h

namespace TransactionMonitor

variable (m : TransactionMonitor)

theorem persistEvent_announces (event : WalletEvent) :
    Announces m.webhookConfig (m.persistEvent event now) where
  ok R hR := Ensures.bind (insertWalletEvent_upTo hR event []) (fun eventId =>
    triggerWebhooks_upTo [(eventId, event)])
  error R hR c e c' h hx := by
    rcases bind_error.mp hx with hx | ⟨eventId, c₁, hinsert, hx⟩
    · rw [stmt_error hx]
      exact h
    · have hdb := stmt_ok hinsert
      simp only [Except.ok.injEq] at hdb
      rw [triggerWebhooks_singleton_error hx, show c₁.store = _ from (congrArg Prod.snd hdb).symm]
      unfold UpTo at h ⊢
      rw [wanted_insertWalletEvent]
      exact hR _ _ _ h

theorem persistRejected_announces (txId : TxId) (event : WalletEvent) :
    Announces m.webhookConfig (m.persistRejected txId event now) := by
  have hmark : Keeps Db.outbox (markDisplayedTransactionRejected txId) := by
    refine Keeps.bind Keeps.query (fun row => ?_)
    cases row with
    | none => exact Keeps.pure
    | some row => exact Keeps.bind (Keeps.update (fun _ => rfl)) (fun _ => Keeps.pure)
  refine ⟨fun R hR => ?_, fun R hR c e c' h hx => ?_⟩
  · exact Ensures.bind (upTo_of_keeps hmark) (fun _ => (m.persistEvent_announces event).ok R hR)
  · have hkept := hmark c
    unfold after at hkept
    rcases bind_error.mp hx with hx | ⟨_, c₁, hx₁, hx⟩
    · rw [hx] at hkept
      exact h.of_outbox hkept
    · exact (m.persistEvent_announces event).error R hR c₁ e c' (upTo_of_keeps hmark c _ c₁ h hx₁) hx

end TransactionMonitor

/-- The monitor is set up with the configuration. -/
def Call.Configured (webhookConfig : Option WebhookTriggerConfig) : Call → Prop
  | .monitor m _ => m.webhookConfig = webhookConfig
  | _ => True

variable {env : TransactionEnv} {ch : Choice} {db : Db} {y : DbM Unit} {hy : Keeps Db.ledger y}

theorem Call.next_announces {c c' : Call} (h : c.next env ch db = some (.record y hy, c'))
    (hc : c.Configured webhookConfig) : Announces webhookConfig y := by
  rcases Call.next_record h with ⟨tx, rfl⟩ | ⟨m, st, rfl, event, now, -, rfl | ⟨txId, rfl⟩⟩
  · exact .of_keeps (Keeps.update (fun db =>
      insertDisplayedTransaction_keepsView (v := Db.outbox) (fun _ _ => rfl) db tx))
  · exact hc ▸ m.persistEvent_announces event
  · exact hc ▸ m.persistRejected_announces txId event

end Monitor

/-! ## Runs -/

/-- All that an action sets up has the configuration. -/
def SystemAction.Configured (webhookConfig : Option WebhookTriggerConfig) : SystemAction → Prop
  | .monitor m => m.webhookConfig = webhookConfig
  | .processBlock bp _ _ _ => bp.webhookConfig = webhookConfig
  | .rollbackFromHeight _ _ config _ => config = webhookConfig
  | _ => True

def BurnAction.Configured (webhookConfig : Option WebhookTriggerConfig) : BurnAction → Prop
  | .wallet a => a.Configured webhookConfig
  | _ => True

/-- What the statement records is recorded without an error. -/
def Statement.Recorded (db : Db) : Statement → Prop
  | .record x _ => (runOk x db).isSome = true
  | _ => True

theorem Statement.recorded_of_ne {db : Db} {x : Statement} (h : ∀ y hy, x ≠ .record y hy) :
    x.Recorded db := by
  cases x with
  | record y hy => exact absurd rfl (h y hy)
  | _ => trivial

/-- The same of the statement that the action runs; burns record nothing. -/
def StepRecorded (env : TransactionEnv) (s : BurnSystem) : BurnAction → Prop
  | .wallet (.statement i ch) =>
    ∀ c ∈ s.wallet.calls[i]?, ∀ p ∈ c.next env ch s.wallet.db, p.1.Recorded s.wallet.db
  | _ => True

section Runs

variable {R : List Announcement → List Announcement → Prop}
  {webhookConfig : Option WebhookTriggerConfig} {env : TransactionEnv} {ch : Choice} {db : Db}
  {x : Statement} {c c' : Call}

theorem Call.Configured.sent (h : c.Configured webhookConfig) (messageId : Nat) :
    (c.sent messageId).Configured webhookConfig := by
  unfold Call.sent
  split <;> exact h

theorem Call.Configured.received (h : c.Configured webhookConfig)
    (result : Except String TxSubmissionResponse) : (c.received result).Configured webhookConfig := by
  unfold Call.received
  split <;> exact h

theorem Call.Configured.retry (h : c.Configured webhookConfig) (hretry : c.retry = some c') :
    c'.Configured webhookConfig := by
  unfold Call.retry at hretry
  split at hretry <;> cases hretry <;> exact h

theorem CallStep.configured (h : CallStep env ch db c x c') (hc : c.Configured webhookConfig) :
    c'.Configured webhookConfig := by
  cases h <;> exact hc

theorem WalletSystem.calls_configured {w w' : WalletSystem} {a : SystemAction}
    (h : Each (fun _ c => c.Configured webhookConfig) w.calls) (ha : a.Configured webhookConfig)
    (hstep : w.step env a = some w') : Each (fun _ c => c.Configured webhookConfig) w'.calls := by
  intro j c hj
  cases WalletSystem.step_calls hstep hj with
  | stay hc => exact h j c hc
  | statement hc hcall hdb => exact hcall.configured (h j _ hc)
  | send hc hsend => exact (h j _ hc).sent _
  | receive hc hawait hresult => exact (h j _ hc).received _
  | retry hc hretry => exact (h j _ hc).retry hretry
  | fail hc hawait => exact (h j _ hc).received _
  | monitor m => exact ha
  | _ => trivial

/-- A statement keeps the queue up to date, unless it fails to record and the queue may lag. -/
theorem Statement.apply_upTo (hR : Together R) (h : UpTo R webhookConfig [] db)
    (hrecord : ∀ y hy, x = .record y hy → Announces webhookConfig y)
    (hrecorded : x.Recorded db ∨ Behind R) : UpTo R webhookConfig [] (x.apply db) := by
  by_cases hx : ∃ y hy, x = .record y hy
  · obtain ⟨y, hy, rfl⟩ := hx
    have hy' := hrecord y hy rfl
    show UpTo R webhookConfig [] (after y ⟨db, none⟩).store
    unfold after
    cases hrun : y ⟨db, none⟩ with
    | ok u conn => exact hy'.ok R hR ⟨db, none⟩ u conn h hrun
    | error e conn =>
        refine hy'.error R ?_ ⟨db, none⟩ e conn h hrun
        refine hrecorded.resolve_left (fun hrec => ?_)
        simp [Statement.Recorded, runOk, hrun] at hrec
  · have hview : (x.apply db).outbox = db.outbox := Statement.apply_view
      ⟨fun _ _ => rfl, fun _ _ => rfl, fun _ _ => rfl⟩ (fun y hy hrec => absurd ⟨y, hy, hrec⟩ hx)
    exact h.of_outbox hview

/-- The queue is up to date, and will be: all monitors are set up with the configuration. -/
structure QueueUpTo (R : List Announcement → List Announcement → Prop)
    (webhookConfig : Option WebhookTriggerConfig) (s : BurnSystem) : Prop where
  upTo : UpTo R webhookConfig [] s.wallet.db
  calls : Each (fun _ c => c.Configured webhookConfig) s.wallet.calls

theorem queueUpTo_step {s s' : BurnSystem} {a : BurnAction} (hR : Together R)
    (h : QueueUpTo R webhookConfig s) (ha : a.Configured webhookConfig)
    (hrecorded : StepRecorded env s a ∨ Behind R) (hstep : s.step env a = some s') :
    QueueUpTo R webhookConfig s' := by
  rcases BurnSystem.step_db hstep with ⟨b, rfl, hb⟩ |
    ⟨i, ch, result, st, x, st', rfl, -, hnext, hdb⟩ | ⟨hwallet, -, hdb⟩
  · refine ⟨?_, WalletSystem.calls_configured h.calls ha hb⟩
    cases b with
    | processBlock bp block account now =>
        obtain ⟨⟨outcome, db⟩, hrun, heq⟩ := Option.map_eq_some_iff.mp hb
        obtain rfl : bp.webhookConfig = webhookConfig := ha
        rw [← heq]
        exact (processBlock_upTo hR).of_runOk h.upTo hrun
    | rollbackFromHeight account height config now =>
        obtain ⟨⟨info, db⟩, hrun, heq⟩ := Option.map_eq_some_iff.mp hb
        obtain rfl : config = webhookConfig := ha
        rw [← heq]
        exact (rollbackFromHeight_upTo hR).of_runOk h.upTo hrun
    | statement i ch =>
        obtain ⟨c, x, c', hc, hnext, -, heq⟩ := WalletSystem.step_statement hb
        rw [heq]
        refine Statement.apply_upTo hR h.upTo (fun y hy hx => ?_)
          (hrecorded.imp_left (fun hrec => hrec c hc _ hnext))
        exact Call.next_announces (hx ▸ hnext) (h.calls i c hc)
    | _ =>
        rcases WalletSystem.step_db hb with hdb | ⟨_, _, h'⟩ | ⟨_, _, _, _, h'⟩ | ⟨_, _, _, _, h'⟩
        · rw [hdb]
          exact h.upTo
        all_goals cases h'
  · refine ⟨?_, BurnSystem.step_calls hstep (by simp) ▸ h.calls⟩
    rw [hdb]
    exact Statement.apply_upTo hR h.upTo
      (fun y hy hx => absurd (hx ▸ hnext) BurnState.next_noRecord)
      (Or.inl (Statement.recorded_of_ne (fun y hy hx => BurnState.next_noRecord (hx ▸ hnext))))
  · exact ⟨hdb ▸ h.upTo, BurnSystem.step_calls hstep hwallet ▸ h.calls⟩

/-- A run without statements of calls records nothing that could fail. -/
theorem along_recorded (s : BurnSystem) {as : List BurnAction}
    (h : ∀ a ∈ as, ∀ i ch, a ≠ .wallet (.statement i ch)) :
    Transition.Along (BurnSystem.step env) (StepRecorded env) s as := by
  refine Transition.along_of_along (I := fun _ => True) (fun _ _ _ _ _ _ => trivial) ?_ trivial
    (Transition.along_of_forall s h)
  intro t a _ _ ha _
  unfold StepRecorded
  split
  · exact absurd rfl (ha _ _)
  · trivial

end Runs

/-- Every webhook is about an event of its own. -/
theorem wanted_nodup (db : Db) (webhookConfig : Option WebhookTriggerConfig) :
    ((db.wanted webhookConfig).map (·.eventId)).Nodup := by
  have hids : (db.events.rows.map (fun e => some (EventRow.id e))).Nodup := by
    have hkeys := db.events.nodup.map (Option.some_injective Id)
    rwa [List.map_map] at hkeys
  refine hids.sublist ?_
  unfold Db.wanted
  induction db.events.rows with
  | nil => exact List.Sublist.slnil
  | cons e rest ih =>
      have hhead : ((announce webhookConfig e.id e.eventType e.data).map (·.eventId)).Sublist
          [some e.id] := by
        cases webhookConfig with
        | none => simp [announce]
        | some config => by_cases hallows : config.allows e.eventType <;> simp [announce, hallows]
      rw [List.flatMap_cons, List.map_append, List.map_cons]
      exact hhead.append ih

/-- In every run of calls, burns, blocks and rollbacks with one webhook configuration, the queue
    lists, in the order of the events and each at most once, what the configuration asks for; nothing
    is left out where everything that is recorded is recorded without an error. The order is that of
    the scan task, which alone writes events. -/
theorem queue_announces_events (env : TransactionEnv) {webhookConfig : Option WebhookTriggerConfig}
    {s : BurnSystem} {as : List BurnAction} (hconfig : ∀ a ∈ as, a.Configured webhookConfig)
    (hrun : Transition.run (BurnSystem.step env) { wallet := { db := Db.empty } } as = some s) :
    s.wallet.db.queued.Sublist (s.wallet.db.wanted webhookConfig) ∧
      (s.wallet.db.queued.map (·.eventId)).Nodup ∧
      (Transition.Along (BurnSystem.step env) (StepRecorded env) { wallet := { db := Db.empty } } as →
        s.wallet.db.queued = s.wallet.db.wanted webhookConfig) := by
  have hstart : ∀ R, R [] [] → QueueUpTo R webhookConfig { wallet := { db := Db.empty } } :=
    fun R h => ⟨h, each_nil⟩
  have hall : Transition.Along (BurnSystem.step env) (fun _ a => a.Configured webhookConfig)
      { wallet := { db := Db.empty } } as := Transition.along_of_forall _ hconfig
  have hsublist : s.wallet.db.queued.Sublist (s.wallet.db.wanted webhookConfig) := by
    have hR : Together List.Sublist := fun l l' xs h => h.append (List.Sublist.refl xs)
    have hlag : Behind List.Sublist := fun l l' xs h => h.trans (List.sublist_append_left l' xs)
    have h := Transition.inv_of_run (I := QueueUpTo List.Sublist webhookConfig)
      (fun _ _ _ h ha hstep => queueUpTo_step hR h ha (Or.inr hlag) hstep)
      (hstart _ List.Sublist.slnil) hall hrun
    simpa [UpTo] using h.upTo
  refine ⟨hsublist, (wanted_nodup _ _).sublist (hsublist.map _), fun hrecorded => ?_⟩
  have hR : Together Eq := fun l l' xs h => congrArg (· ++ xs) h
  have h := Transition.inv_of_run (I := QueueUpTo Eq webhookConfig)
    (fun _ _ _ h ha hstep => queueUpTo_step hR h ha.1 (Or.inl ha.2) hstep)
    (hstart _ rfl) (hall.and hrecorded) hrun
  simpa [UpTo] using h.upTo

def outputsOnly : WebhookTriggerConfig where
  url := "https://wallet.example/hook"
  sendOnlyEventTypes := some ["OutputDetected", "OutputRolledBack"]

def deposit : BurnAction :=
  .wallet (.processBlock { BlockProcessor.withEventSender [(1, 7)] 3 with
      webhookConfig := some outputsOnly }
    { height := 10, blockHash := 100, walletOutputs := [(5, { outputHash := 5, value := 70 }, 0)]
      inputs := [], minedTimestamp := 10 } 1 20)

def depositRolledBack : BurnAction := .wallet (.rollbackFromHeight 1 10 (some outputsOnly) 30)

theorem queue_announces_events_depositRolledBack : ∃ s,
    Transition.run (BurnSystem.step plainTransactionEnv) { wallet := { db := Db.empty } }
      [deposit, depositRolledBack] = some s ∧
    s.wallet.db.events.rows.map (·.eventType) =
      ["OutputDetected", "BlockRolledBack", "OutputRolledBack"] ∧
    s.wallet.db.queued = s.wallet.db.wanted (some outputsOnly) ∧
    s.wallet.db.queued.map (·.eventId) = [some 1, some 3] := by
  obtain ⟨s, hrun, hq⟩ := Transition.exists_run_of_any (f := BurnSystem.step plainTransactionEnv)
    (s := { wallet := { db := Db.empty } }) (l := [deposit, depositRolledBack])
    (q := fun s => decide (s.wallet.db.events.rows.map (·.eventType) =
        ["OutputDetected", "BlockRolledBack", "OutputRolledBack"] ∧
      s.wallet.db.queued.map (·.eventId) = [some 1, some 3])) (by decide +kernel)
  obtain ⟨hevents, hqueue⟩ := of_decide_eq_true hq
  have hconfig : ∀ a ∈ [deposit, depositRolledBack], a.Configured (some outputsOnly) :=
    List.forall_mem_cons.mpr ⟨rfl, List.forall_mem_singleton.mpr rfl⟩
  -- for every run, so that this one is not evaluated again
  have hall : ∀ as, (∀ a ∈ as, a.Configured (some outputsOnly)) →
      (∀ a ∈ as, ∀ i ch, a ≠ .wallet (.statement i ch)) → ∀ s : BurnSystem,
      Transition.run (BurnSystem.step plainTransactionEnv) { wallet := { db := Db.empty } } as =
        some s → s.wallet.db.queued = s.wallet.db.wanted (some outputsOnly) :=
    fun as hconfig hstatements s hrun =>
      (queue_announces_events plainTransactionEnv hconfig hrun).2.2 (along_recorded _ hstatements)
  exact ⟨s, hrun, hevents, hall _ hconfig (by simp [deposit, depositRolledBack]) s hrun, hqueue⟩

end MinotariWallet
