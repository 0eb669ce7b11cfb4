import MinotariWallet.Ledger.Chain
import MinotariWallet.Transactions.Accounts

set_option autoImplicit false

/-! # The wallet follows its chain

Blocks and rollbacks of all accounts interleave with the statements of calls and burns. The chain of
an account is what the actions say: a block that is processed for it goes on top, a rollback of it
cuts. The books, the recorded blocks and the balance of the account are those of this chain. -/

namespace MinotariWallet

open Sql Exec

/-! ## Statements -/

/-- A fact about the ledger that the calls of `transactions` keep: it says nothing about pending and
    completed transactions, and outputs may be locked and unlocked. -/
structure StatementRule (P : Ledger → Prop) : Prop where
  transactions : ∀ (L : Ledger) pendingTransactions completedTransactions, P L →
    P { L with pendingTransactions, completedTransactions }
  lock : ∀ (db : Db) outputId req now, P db.ledger → P (db.lockOutput outputId req now).ledger
  unlock : ∀ (db : Db) req, P db.ledger → P (db.unlockOutputsForRequest req).ledger

section Rule

variable {P : Ledger → Prop} {db : Db}

theorem StatementRule.lockOutputs (rule : StatementRule P) {req : RequestId} {now : Timestamp}
    (utxos : List DbWalletOutput) (h : P db.ledger) : P (db.lockOutputs utxos req now).ledger := by
  induction utxos generalizing db with
  | nil => exact h
  | cons u rest ih => exact ih (rule.lock db u.id req now h)

theorem StatementRule.apply (rule : StatementRule P) (x : Statement) (h : P db.ledger) :
    P (x.apply db).ledger := by
  cases x with
  | read => exact h
  | record y hy =>
      rwa [show ((Statement.record y hy).apply db).ledger = db.ledger from record_ledger hy db]
  | createPendingTransaction new =>
      cases hc : db.createPending new with
      | error e => simpa [Statement.apply, hc, Except.toOption] using h
      | ok db' =>
          rw [apply_createPending hc]
          obtain ⟨_, -, -, -, -, -, _, -, rfl⟩ := createPending_ok hc
          exact rule.transactions _ _ _ h
  | createPendingTransactionAndLock new =>
      cases hc : db.createPending new with
      | error e =>
          simpa [Statement.apply, Db.createPendingAndLock, hc, Except.toOption, Except.map] using h
      | ok db' =>
          rw [apply_createPendingAndLock hc]
          obtain ⟨_, -, -, -, -, -, _, -, rfl⟩ := createPending_ok hc
          exact rule.lockOutputs _ (rule.transactions _ _ _ h)
  | lockOutput outputId req now => exact rule.lock db outputId req now h
  | unlockOutputsForRequest req => exact rule.unlock db req h
  | expireAndUnlock req =>
      have hexpired : P (db.updatePendingTransactionStatus req .expired).ledger :=
        rule.transactions _ _ _ h
      exact rule.unlock _ req hexpired
  | createCompletedTransaction new =>
      cases hc : db.createCompleted new with
      | error e => simpa [Statement.apply, hc, Except.toOption] using h
      | ok db' =>
          rw [apply_createCompleted hc]
          obtain ⟨_, -, -, -, -, -, _, -, rfl⟩ := createCompleted_ok hc
          exact rule.transactions _ _ _ h
  | _ => exact rule.transactions _ _ _ h

end Rule

theorem ledgerBooked_statementRule : StatementRule LedgerBooked where
  transactions _ _ _ h := h
  lock db outputId req now h :=
    ledgerBooked_step (a := .lockOutput outputId req now) h trivial
      (rfl : ledgerStep plainEnv db _ = some _)
  unlock db req h :=
    ledgerBooked_step (a := .unlockOutputsForRequest req) h trivial
      (rfl : ledgerStep plainEnv db _ = some _)

theorem follows_statementRule (accountId : AccountId) (chain : List ChainBlock) :
    StatementRule (Ledger.Follows accountId chain) where
  transactions _ _ _ h := ⟨h.increasing, h.tips, h.books, h.refs⟩
  lock _ outputId req now h :=
    h.updateOutputs (p := fun o => o.id == outputId && o.status == .unspent)
      (f := fun o => { o with
        status := .locked
        lockedByRequestId := some req
        lockedAt := some now }) (fun _ hp => OutputRow.ages_locked hp req now) (fun _ _ => rfl)
      (by intro _; rfl)
  unlock _ req h :=
    h.updateOutputs (p := fun o => o.lockedByRequestId == some req && o.status == .locked)
      (f := fun o => { o with status := .unspent, lockedAt := none, lockedByRequestId := none })
      (fun _ hp => OutputRow.ages_unlocked hp) (fun _ _ => rfl) (by intro _; rfl)

/-! ## Steps -/

/-- The chain of the account after a step. -/
def chainAfter (accountId : AccountId) (chain : List ChainBlock) :
    BurnAction → List ChainBlock
  | .wallet (.processBlock bp block account _) =>
    if account = accountId then chain ++ [block.forAccount bp accountId] else chain
  | .wallet (.rollbackFromHeight account height _ _) =>
    if account = accountId then Coins.cut (asI64 height) chain else chain
  | _ => chain

/-- The blocks that the account has scanned and not rolled back. -/
def chainOf (accountId : AccountId) (as : List BurnAction) : List ChainBlock :=
  as.foldl (chainAfter accountId) []

/-- The blocks are well formed. -/
def WellFormedAction (s : BurnSystem) : BurnAction → Prop
  | .wallet (.processBlock _ block accountId _) => WellFormedBlock s.wallet.db block accountId
  | _ => True

instance (s : BurnSystem) : ∀ a, Decidable (WellFormedAction s a)
  | .wallet (.processBlock _ block accountId _) =>
    inferInstanceAs (Decidable (WellFormedBlock s.wallet.db block accountId))
  | .wallet (.rollbackFromHeight ..) | .wallet (.lock ..) | .wallet (.startNewTransaction ..)
  | .wallet (.finalize ..) | .wallet .unlockExpiredTransactions | .wallet (.monitor ..)
  | .wallet (.statement ..) | .wallet (.send ..) | .wallet (.receive ..)
  | .wallet (.transportError ..) | .wallet (.answer ..) | .wallet (.loseRequest ..)
  | .wallet (.loseResponse ..) | .burn .. | .statement .. | .send .. | .receive ..
  | .transportError .. => isTrue trivial

/-- The books are kept, and the account is where its chain leaves it. -/
structure Replayed (accountId : AccountId) (chain : List ChainBlock) (L : Ledger) : Prop where
  booked : LedgerBooked L
  follows : L.Follows accountId chain

section Steps

variable {env : TransactionEnv} {accountId : AccountId} {chain : List ChainBlock}

theorem replayed_empty : Replayed accountId [] Db.empty.ledger where
  booked := ledgerBooked_empty
  follows := {
    increasing := .nil
    tips := rfl
    books := rfl
    refs := fun i hi => by cases hi }

theorem Replayed.apply {db : Db} (h : Replayed accountId chain db.ledger) (x : Statement) :
    Replayed accountId chain (x.apply db).ledger where
  booked := ledgerBooked_statementRule.apply x h.booked
  follows := (follows_statementRule accountId chain).apply x h.follows

theorem Replayed.processBlock {db db' : Db} {bp : BlockProcessor} {now : Timestamp}
    {block : BlockScanResult} {account : AccountId} {outcome : BlockOutcome} {scanEnv : ScanEnv}
    (h : Replayed accountId chain db.ledger) (hgood : WellFormedBlock db block account)
    (hrun : runOk (bp.processBlock scanEnv now block account) db = some (outcome, db')) :
    Replayed accountId (chainAfter accountId chain (.wallet (.processBlock bp block account now)))
      db'.ledger where
  booked := by
    have hstep : ledgerStep scanEnv db (.processBlock bp block account now) = some db' :=
      Option.map_eq_some_iff.mpr ⟨_, hrun, rfl⟩
    exact ledgerBooked_step (a := .processBlock bp block account now) h.booked hgood hstep
  follows := by
    by_cases hacc : account = accountId
    · subst hacc
      simpa only [chainAfter, if_true] using processBlock_follows h.booked hgood h.follows hrun
    · simp only [chainAfter, if_neg hacc]
      exact (processBlock_ensures (follows_blockRule scanEnv bp now block chain hacc)).of_runOk
        h.follows hrun

theorem Replayed.rollbackFromHeight {db db' : Db} {account : AccountId} {height : Nat}
    {webhookConfig : Option WebhookTriggerConfig} {now : Timestamp} {info : ReorgInformation}
    (h : Replayed accountId chain db.ledger)
    (hrun : runOk (rollbackFromHeight account height webhookConfig now) db = some (info, db')) :
    Replayed accountId
      (chainAfter accountId chain (.wallet (.rollbackFromHeight account height webhookConfig now)))
      db'.ledger where
  booked := by
    have hstep : ledgerStep plainEnv db (.rollbackFromHeight account height webhookConfig now) =
        some db' := Option.map_eq_some_iff.mpr ⟨_, hrun, rfl⟩
    exact ledgerBooked_step (a := .rollbackFromHeight account height webhookConfig now) h.booked
      trivial hstep
  follows := by
    obtain ⟨c', hret, rfl⟩ := runOk_eq_some.mp hrun
    have hrolled := rollbackFromHeight_rolledBack hret
    by_cases hacc : account = accountId
    · subst hacc
      simpa only [chainAfter, if_true] using follows_rolledBack h.follows hrolled
    · simp only [chainAfter, if_neg hacc]
      exact follows_rolledBack_other hacc h.follows hrolled

theorem replayed_walletStep {s s' : WalletSystem} {b : SystemAction}
    (h : Replayed accountId chain s.db.ledger) (hgood : WellFormedAction { wallet := s } (.wallet b))
    (hstep : s.step env b = some s') :
    Replayed accountId (chainAfter accountId chain (.wallet b)) s'.db.ledger := by
  cases b with
  | processBlock bp block account now =>
      obtain ⟨⟨outcome, db⟩, hrun, rfl⟩ := Option.map_eq_some_iff.mp hstep
      exact h.processBlock hgood hrun
  | rollbackFromHeight account height webhookConfig now =>
      obtain ⟨⟨info, db⟩, hrun, rfl⟩ := Option.map_eq_some_iff.mp hstep
      exact h.rollbackFromHeight hrun
  | statement i ch =>
      obtain ⟨c, x, c', -, -, -, rfl⟩ := WalletSystem.step_statement hstep
      exact h.apply x
  | _ =>
      rcases WalletSystem.step_db hstep with hdb | ⟨_, _, h'⟩ | ⟨_, _, _, _, h'⟩ | ⟨_, _, _, _, h'⟩
      · rw [hdb]
        exact h
      all_goals cases h'

theorem replayed_step {s s' : BurnSystem} {a : BurnAction}
    (h : Replayed accountId chain s.wallet.db.ledger) (hgood : WellFormedAction s a)
    (hstep : s.step env a = some s') :
    Replayed accountId (chainAfter accountId chain a) s'.wallet.db.ledger := by
  rcases BurnSystem.step_db hstep with ⟨b, rfl, hb⟩ |
    ⟨i, ch, result, st, x, st', rfl, -, -, hdb⟩ | ⟨hwallet, -, hdb⟩
  · refine replayed_walletStep h ?_ hb
    cases b <;> exact hgood
  · rw [hdb]
    exact h.apply x
  · rw [hdb]
    cases a with
    | wallet b => exact absurd rfl (hwallet b)
    | _ => exact h

end Steps

/-! ## Runs -/

theorem replayed_of_run {env : TransactionEnv} {s : BurnSystem} {as : List BurnAction}
    (hgood : Transition.Along (BurnSystem.step env) WellFormedAction
      { wallet := { db := Db.empty } } as)
    (hrun : Transition.run (BurnSystem.step env) { wallet := { db := Db.empty } } as = some s)
    (accountId : AccountId) : Replayed accountId (chainOf accountId as) s.wallet.db.ledger :=
  Transition.inv_of_run_ghost
    (J := fun chain (s : BurnSystem) => Replayed accountId chain s.wallet.db.ledger)
    (f := chainAfter accountId) (fun _ _ _ _ h hg hstep => replayed_step h hg hstep)
    replayed_empty hgood hrun

/-- After every run of well-formed blocks, rollbacks, calls and burns, interleaved in any way, the
    wallet is a function of the chain: the undeleted outputs and inputs of an account, its recorded
    blocks and all its balances are those of the blocks it has scanned and not rolled back. -/
theorem ledger_of_chain (env : TransactionEnv) {s : BurnSystem} {as : List BurnAction}
    (hgood : Transition.Along (BurnSystem.step env) WellFormedAction
      { wallet := { db := Db.empty } } as)
    (hrun : Transition.run (BurnSystem.step env) { wallet := { db := Db.empty } } as = some s)
    (accountId : AccountId) :
    s.wallet.db.ledger.booksOf accountId = Coins.replay (chainOf accountId as) ∧
      s.wallet.db.ledger.tipsOf accountId = chainTips (chainOf accountId as) ∧
      s.wallet.db.unspentValue accountId = chainValue (chainOf accountId as) ∧
      BalancesAgree s.wallet.db accountId := by
  obtain ⟨hbooked, hfollows⟩ := replayed_of_run hgood hrun accountId
  have hunique := (BurnSystem.inAccounts_of_run hrun).same.hashes
  exact ⟨hfollows.books, hfollows.tips, hfollows.unspentValue_eq hbooked hunique,
    balancesAgree_of_booked hbooked accountId⟩

/-- Account 1 spends the output 500 in block 2, which is orphaned: the chain goes on with a block 2
    that spends the output 501 and brings 300. -/
def spendOrphaned : List BurnAction :=
  let bp := BlockProcessor.withEventSender [(1, 7), (2, 8)] 3
  [.wallet (.processBlock bp ⟨2, 102, [], [500], 1120⟩ 1 1120),
    .wallet (.rollbackFromHeight 1 2 none 1200),
    .wallet (.processBlock bp ⟨2, 202, [(502, { outputHash := 502, value := 300 }, 0)], [501], 1240⟩
      1 1240)]

theorem spendOrphaned_value : ∃ s, Transition.run (BurnSystem.step plainTransactionEnv)
    { wallet := { db := Db.empty } } (bothFunded ++ spendOrphaned) = some s ∧
    s.wallet.db.unspentValue 1 = 100300 := by
  obtain ⟨s, hrun, -⟩ := Transition.exists_run_of_any (f := BurnSystem.step plainTransactionEnv)
    (s := { wallet := { db := Db.empty } }) (l := bothFunded ++ spendOrphaned) (q := fun _ => true)
    (by decide +kernel)
  refine ⟨s, hrun, ?_⟩
  rw [(ledger_of_chain plainTransactionEnv (by decide +kernel) hrun 1).2.2.1]
  decide +kernel

/-! ## Orphaned branches -/

/-- The blocks and rollbacks of the account are at the height or above. -/
def FromHeight (accountId : AccountId) (height : Nat) : BurnAction → Prop
  | .wallet (.processBlock _ block account _) =>
    account = accountId → asI64 height ≤ asI64 block.height
  | .wallet (.rollbackFromHeight account h _ _) => account = accountId → asI64 height ≤ asI64 h
  | _ => True

section Branch

variable {accountId : AccountId} {chain branch : List ChainBlock} {height : Nat} {a : BurnAction}

/-- Such a step changes the branch above the height, and nothing below it. -/
theorem chainAfter_branch (hbelow : ∀ b ∈ chain, b.height < asI64 height)
    (hbranch : ∀ b ∈ branch, asI64 height ≤ b.height) (ha : FromHeight accountId height a) :
    ∃ branch', (∀ b ∈ branch', asI64 height ≤ b.height) ∧
      chainAfter accountId (chain ++ branch) a = chain ++ branch' := by
  unfold chainAfter
  split
  · next bp block account now =>
      by_cases hacc : account = accountId
      · refine ⟨branch ++ [block.forAccount bp accountId], fun b hb => ?_, by simp [hacc]⟩
        rcases List.mem_append.mp hb with hb | hb
        · exact hbranch b hb
        · obtain rfl := List.mem_singleton.mp hb
          exact ha hacc
      · exact ⟨branch, hbranch, if_neg hacc⟩
  · next account h webhookConfig now =>
      by_cases hacc : account = accountId
      · have hle := ha hacc
        have hkept : chain.filter (fun b => decide (b.height < asI64 h)) = chain :=
          List.filter_eq_self.mpr (fun b hb => by
            have hlt := hbelow b hb
            simpa using (by omega : b.height < asI64 h))
        refine ⟨Coins.cut (asI64 h) branch, fun b hb => hbranch b (List.mem_of_mem_filter hb), ?_⟩
        rw [if_pos hacc, Coins.cut, List.filter_append, hkept]
        rfl
      · exact ⟨branch, hbranch, if_neg hacc⟩
  · exact ⟨branch, hbranch, rfl⟩

theorem foldl_chainAfter_branch (hbelow : ∀ b ∈ chain, b.height < asI64 height)
    (hbranch : ∀ b ∈ branch, asI64 height ≤ b.height) {bs : List BurnAction}
    (hbs : ∀ a ∈ bs, FromHeight accountId height a) :
    ∃ branch', (∀ b ∈ branch', asI64 height ≤ b.height) ∧
      bs.foldl (chainAfter accountId) (chain ++ branch) = chain ++ branch' := by
  induction bs generalizing branch with
  | nil => exact ⟨branch, hbranch, rfl⟩
  | cons a rest ih =>
      obtain ⟨branch', hbranch', heq⟩ := chainAfter_branch hbelow hbranch (hbs a List.mem_cons_self)
      rw [List.foldl_cons, heq]
      exact ih hbranch' (fun b hb => hbs b (List.mem_cons_of_mem a hb))

/-- What comes after the rollback goes on from where the branch began. -/
theorem chainOf_rollback {as bs cs : List BurnAction} {webhookConfig : Option WebhookTriggerConfig}
    {now : Timestamp} (hbelow : ∀ b ∈ chainOf accountId as, b.height < asI64 height)
    (hbranch : ∀ a ∈ bs, FromHeight accountId height a) :
    chainOf accountId
      (as ++ bs ++ .wallet (.rollbackFromHeight accountId height webhookConfig now) :: cs) =
    chainOf accountId (as ++ cs) := by
  obtain ⟨branch, habove, heq⟩ :=
    foldl_chainAfter_branch hbelow (List.forall_mem_nil _) hbranch
  rw [List.append_nil] at heq
  have hcut := Coins.cut_append hbelow habove
  simp only [chainOf, List.foldl_append, List.foldl_cons] at heq hcut ⊢
  rw [heq, chainAfter, if_pos rfl, hcut]

end Branch

/-- A rollback forgets the orphaned branch: where a wallet has scanned a branch from some height on,
    rolled it back and gone on, the account has the outputs, inputs, recorded blocks and balance
    that it has in a wallet that never saw the branch, whatever calls ran in between. -/
theorem rollback_forgets_branch (env : TransactionEnv) {s₁ s₂ : BurnSystem}
    {as bs cs : List BurnAction} {accountId : AccountId} {height : Nat}
    {webhookConfig : Option WebhookTriggerConfig} {now : Timestamp}
    (hbelow : ∀ b ∈ chainOf accountId as, b.height < asI64 height)
    (hbranch : ∀ a ∈ bs, FromHeight accountId height a)
    (hgood₁ : Transition.Along (BurnSystem.step env) WellFormedAction { wallet := { db := Db.empty } }
      (as ++ bs ++ .wallet (.rollbackFromHeight accountId height webhookConfig now) :: cs))
    (hrun₁ : Transition.run (BurnSystem.step env) { wallet := { db := Db.empty } }
      (as ++ bs ++ .wallet (.rollbackFromHeight accountId height webhookConfig now) :: cs) = some s₁)
    (hgood₂ : Transition.Along (BurnSystem.step env) WellFormedAction { wallet := { db := Db.empty } }
      (as ++ cs))
    (hrun₂ : Transition.run (BurnSystem.step env) { wallet := { db := Db.empty } } (as ++ cs) =
      some s₂) :
    s₁.wallet.db.ledger.booksOf accountId = s₂.wallet.db.ledger.booksOf accountId ∧
      s₁.wallet.db.ledger.tipsOf accountId = s₂.wallet.db.ledger.tipsOf accountId ∧
      ∀ agg₁ agg₂, s₁.wallet.db.getBalanceAggregatesForAccount accountId = .ok agg₁ →
        s₂.wallet.db.getBalanceAggregatesForAccount accountId = .ok agg₂ →
        agg₁.totalCredits.getD 0 - agg₁.totalDebits.getD 0 =
          agg₂.totalCredits.getD 0 - agg₂.totalDebits.getD 0 := by
  obtain ⟨hbooked₁, hfollows₁⟩ := replayed_of_run hgood₁ hrun₁ accountId
  obtain ⟨hbooked₂, hfollows₂⟩ := replayed_of_run hgood₂ hrun₂ accountId
  have hunique₁ := (BurnSystem.inAccounts_of_run hrun₁).same.hashes
  have hunique₂ := (BurnSystem.inAccounts_of_run hrun₂).same.hashes
  rw [chainOf_rollback hbelow hbranch] at hfollows₁
  refine ⟨hfollows₁.books.trans hfollows₂.books.symm, hfollows₁.tips.trans hfollows₂.tips.symm,
    fun agg₁ agg₂ hagg₁ hagg₂ => ?_⟩
  rw [(balancesAgree_of_booked hbooked₁ accountId).reported agg₁ hagg₁,
    (balancesAgree_of_booked hbooked₂ accountId).reported agg₂ hagg₂,
    hfollows₁.unspentValue_eq hbooked₁ hunique₁, hfollows₂.unspentValue_eq hbooked₂ hunique₂]

/-- What goes on after the branch of `spendOrphaned`. -/
def afterBranch : List BurnAction :=
  [.wallet (.processBlock (BlockProcessor.withEventSender [(1, 7), (2, 8)] 3)
    ⟨2, 202, [(502, { outputHash := 502, value := 300 }, 0)], [501], 1240⟩ 1 1240)]

theorem spendOrphaned_forgotten : ∃ s₁ s₂,
    Transition.run (BurnSystem.step plainTransactionEnv) { wallet := { db := Db.empty } }
      (bothFunded ++ spendOrphaned) = some s₁ ∧
    Transition.run (BurnSystem.step plainTransactionEnv) { wallet := { db := Db.empty } }
      (bothFunded ++ afterBranch) = some s₂ ∧
    s₁.wallet.db.ledger.booksOf 1 = s₂.wallet.db.ledger.booksOf 1 := by
  obtain ⟨s₁, hrun₁, -⟩ := Transition.exists_run_of_any (f := BurnSystem.step plainTransactionEnv)
    (s := { wallet := { db := Db.empty } }) (l := bothFunded ++ spendOrphaned) (q := fun _ => true)
    (by decide +kernel)
  obtain ⟨s₂, hrun₂, -⟩ := Transition.exists_run_of_any (f := BurnSystem.step plainTransactionEnv)
    (s := { wallet := { db := Db.empty } }) (l := bothFunded ++ afterBranch) (q := fun _ => true)
    (by decide +kernel)
  refine ⟨s₁, s₂, hrun₁, hrun₂, ?_⟩
  refine (@rollback_forgets_branch plainTransactionEnv s₁ s₂ bothFunded (spendOrphaned.take 1)
    afterBranch 1 2 none 1200 (by decide +kernel) (fun a ha => ?_) (by decide +kernel) hrun₁
    (by decide +kernel) hrun₂).1
  obtain rfl := List.mem_singleton.mp ha
  exact fun _ => le_refl _

end MinotariWallet
