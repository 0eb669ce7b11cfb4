import MinotariWallet.Burns.Recorded
import MinotariWallet.Transactions.HandedOut

set_option autoImplicit false

/-! # Whether a burn is still reserved when it is submitted

Nothing looks at the reservation of a burn after its pending transaction has been found. Where the
unlocker, other calls, blocks and rollbacks leave it alone, the burn is submitted while its pending
transaction is `Completed` and its inputs are locked. -/

namespace MinotariWallet

open Sql Exec Processes Transition

/-- An output of the hash is locked for the pending transaction. -/
def LockedFor (outputs : AutoTable OutputRow) (req : RequestId) (outputHash : FixedHash) : Prop :=
  ∃ o ∈ outputs.rows, o.outputHash = outputHash ∧ o.status = .locked ∧
    o.lockedByRequestId = some req

instance (outputs : AutoTable OutputRow) (req : RequestId) (outputHash : FixedHash) :
    Decidable (LockedFor outputs req outputHash) := by
  unfold LockedFor
  infer_instance

namespace BurnTxResult

/-- Its pending transaction is `Completed`, its completed transaction is stored, and its inputs are
    locked. -/
def ReservedAndStored (db : Db) (result : BurnTxResult) : Prop :=
  ∃ p ∈ db.pendingTransactions.rows, p.hasKey result.idempotencyKey result.accountId = true ∧
    p.status = .completed ∧ result.StoredFor db p.id ∧
    ∀ h ∈ result.transaction.inputs, LockedFor db.outputs p.id h

instance (db : Db) (result : BurnTxResult) : Decidable (result.ReservedAndStored db) := by
  unfold ReservedAndStored
  infer_instance

end BurnTxResult

namespace LoggedBurns

/-- It, as long as the burn may still be submitted. -/
def reservation (t : LoggedBurns) (i : Nat) : List RequestId :=
  if t.system.burns[i]?.any (·.2.inProgress) then t.foundBy i else []

/-- Whenever a burn is about to be submitted, it is reserved and stored. -/
def SubmitsReserved (t : LoggedBurns) : Prop :=
  ∀ b ∈ t.system.burns, b.2.submits = true → b.1.ReservedAndStored t.db

/-- Whenever burn `i` is about to be submitted, its inputs are locked for the pending transaction
    that it has found, which is `Completed` unless it could not be set so. -/
def SubmitsWhatItFound (i : Nat) (t : LoggedBurns) : Prop :=
  ∀ b ∈ t.system.burns[i]?, b.2.submits = true → ∀ pendingTxId ∈ t.foundBy i,
    ∃ p ∈ t.db.pendingTransactions.rows, p.id = pendingTxId ∧
      p.hasKey b.1.idempotencyKey b.1.accountId = true ∧
      ((i, .setCompleted) ∉ t.warned → p.status = .completed) ∧
      ∀ h ∈ b.1.transaction.inputs, LockedFor t.db.outputs pendingTxId h

/-- The inputs of burn `i` are locked for the pending transaction that it finds. From then on no
    statement of another call unlocks its funds or sets its status to anything but `Completed`, no
    rollback cancels it and no block spends an input. -/
def LeavesBurn (env : TransactionEnv) (i : Nat) (t : LoggedBurns) : LoggedBurnAction → Prop
  | .system (.statement j _) => j = i → ∀ b ∈ t.system.burns[i]?, ∀ pendingTxId ∈ t.lookup i,
      ∀ h ∈ b.1.transaction.inputs, LockedFor t.db.outputs pendingTxId h
  | .system (.wallet (.statement j ch)) =>
    ∀ y ∈ t.system.wallet.calls[j]?.bind (fun c => c.next env ch t.db),
      ∀ pendingTxId ∈ t.reservation i, y.1.unlocks ≠ some pendingTxId ∧
        ∀ set ∈ y.1.sets, set.1 = pendingTxId → set.2 = .completed
  | .system (.wallet (.rollbackFromHeight accountId height _ _)) =>
    ∀ pendingTxId ∈ t.reservation i,
      pendingTxId ∉ cancelledPendingTxIds (t.db.getActiveOutputsFromHeight accountId height)
  | .system (.wallet (.processBlock _ block _ _)) => t.reservation i ≠ [] →
    ∀ b ∈ t.system.burns[i]?, ∀ h ∈ b.1.transaction.inputs, h ∉ block.inputs
  | _ => True

instance (t : LoggedBurns) : Decidable (SubmitsReserved t) := by
  unfold SubmitsReserved
  infer_instance

instance (i : Nat) (t : LoggedBurns) : Decidable (SubmitsWhatItFound i t) := by
  unfold SubmitsWhatItFound
  infer_instance

instance (env : TransactionEnv) (i : Nat) (t : LoggedBurns) (a : LoggedBurnAction) :
    Decidable (LeavesBurn env i t a) := by
  unfold LeavesBurn
  split <;> infer_instance

/-! ## What leaves a pending transaction alone -/

variable {env : TransactionEnv} {id : RequestId} {db db' : Db}

/-- A pending transaction that is `Completed` stays so, and the inputs stay locked for it. -/
structure Untouched (inputs : List FixedHash) (id : RequestId) (db db' : Db) : Prop where
  completed : HasStatus db.pendingTransactions id .completed →
    HasStatus db'.pendingTransactions id .completed
  locked : ∀ h ∈ inputs, LockedFor db.outputs id h → LockedFor db'.outputs id h

variable {inputs : List FixedHash}

theorem Untouched.of_eq (h : db' = db) : Untouched inputs id db db' := by
  subst h
  exact ⟨fun h => h, fun _ _ h => h⟩

theorem lockedFor_apply {h : FixedHash} (hlocked : LockedFor db.outputs id h) (x : Statement)
    (hunlocks : x.unlocks ≠ some id) : LockedFor (x.apply db).outputs id h := by
  obtain ⟨o, ho, hhash, hstatus, hreq⟩ := hlocked
  obtain ⟨o', ho', hchange⟩ := (outputsFrom_apply db x).forward o ho
  cases hchange with
  | stays => exact ⟨o, ho', hhash, hstatus, hreq⟩
  | locks hlocks hid hunspent => exact absurd (hstatus.symm.trans hunspent) (by decide)
  | unlocks hun _ hreq' =>
      rw [hreq] at hreq'
      exact absurd (Option.some.inj hreq' ▸ hun) hunlocks

theorem Untouched.apply (db : Db) (x : Statement) (hunlocks : x.unlocks ≠ some id)
    (hsets : ∀ set ∈ x.sets, set.1 = id → set.2 = .completed) :
    Untouched inputs id db (x.apply db) where
  completed h := by
    obtain ⟨status, hstatus⟩ := (h.recorded.apply x).hasStatus
    rcases hasStatus_apply hstatus with hbefore | ⟨-, hnew⟩ | hset
    · exact h.unique hbefore ▸ hstatus
    · exact absurd h.recorded hnew
    · exact hsets _ hset rfl ▸ hstatus
  locked _ _ h := lockedFor_apply h x hunlocks

/-- An output of a hash that the block does not spend stays locked. -/
theorem lockedFor_rule (env : ScanEnv) (bp : BlockProcessor) (now : Timestamp)
    (block : BlockScanResult) (accountId : AccountId) (id : RequestId) {h : FixedHash}
    (hunspent : h ∉ block.inputs) :
    BlockRule env bp now block accountId (fun _ L => LockedFor L.outputs id h)
      (fun rest L => LockedFor L.outputs id h ∧ h ∉ rest) (fun L => LockedFor L.outputs id h) where
  skip _ _ _ _ hlocked := hlocked
  credit w rest key memo payref outputId db db' _ hins hlocked := by
    obtain ⟨timestamp, -, -, -, rfl⟩ := insertOutput_ok hins
    obtain ⟨o, ho, hrest⟩ := hlocked
    exact ⟨o, (AutoTable.mem_insert (by intro _; rfl)).mpr (Or.inl ho), hrest⟩
  outputsDone _ hlocked := ⟨hlocked, hunspent⟩
  ignore _ _ _ _ hlocked := ⟨hlocked.1, fun hmem => hlocked.2 (List.mem_cons_of_mem _ hmem)⟩
  debit hash rest info timestamp inputId db hinfo _ hlocked := by
    obtain ⟨⟨o, ho, hhash, hlock⟩, hne⟩ := hlocked
    refine ⟨?_, fun hmem => hne (List.mem_cons_of_mem _ hmem)⟩
    obtain ⟨spent, hspent, -, -, hspentHash, rfl⟩ := getOutputInfoByHashForAccount_some hinfo
    have houtputs : (db.insertOrIgnoreInput accountId spent.toDbWalletOutput.id block.height
        block.blockHash timestamp).outputs = db.outputs := by
      unfold Db.insertOrIgnoreInput
      split <;> rfl
    have hother : (o.id == spent.id) = false := by
      refine beq_false_of_ne (fun hid => ?_)
      obtain rfl : o = spent := db.outputs.eq_of_key_eq ho hspent hid
      rw [← hhash, hspentHash] at hne
      exact hne List.mem_cons_self
    have ho' : o ∈ (db.insertOrIgnoreInput accountId spent.toDbWalletOutput.id block.height
        block.blockHash timestamp).outputs.rows := houtputs ▸ ho
    refine ⟨o, (AutoTable.mem_updateWhere (by intro _; rfl)).mpr ⟨o, ho', ?_⟩, hhash, hlock⟩
    simp only [OutputRow.toDbWalletOutput, hother, Bool.false_eq_true, if_false]
  record db hlocked := by
    unfold Db.insertScannedTipBlock
    split <;> exact hlocked.1
  confirm db hash hlocked := by
    obtain ⟨o, ho, hhash, hlock⟩ := hlocked
    refine ⟨_, (AutoTable.mem_updateWhere (by intro _; rfl)).mpr ⟨o, ho, rfl⟩, ?_⟩
    split <;> exact ⟨hhash, hlock⟩

theorem Untouched.processBlock {s s' : WalletSystem} {bp : BlockProcessor} {block : BlockScanResult}
    {accountId : AccountId} {now : Timestamp}
    (h : s.step env (.processBlock bp block accountId now) = some s')
    (hunspent : ∀ h ∈ inputs, h ∉ block.inputs) : Untouched inputs id s.db s'.db where
  completed hcompleted := by
    obtain ⟨db, rfl, -, hpending, -⟩ := WalletSystem.step_processBlock h
    rwa [hpending]
  locked hash hmem hlocked := by
    obtain ⟨⟨outcome, db⟩, hrun, rfl⟩ := Option.map_eq_some_iff.mp h
    exact (processBlock_ensures (lockedFor_rule _ bp now block accountId id
      (hunspent hash hmem))).of_runOk hlocked hrun

theorem Untouched.rollback {s s' : WalletSystem} {accountId : AccountId} {height : Nat}
    {webhookConfig : Option WebhookTriggerConfig} {now : Timestamp}
    (h : s.step env (.rollbackFromHeight accountId height webhookConfig now) = some s')
    (hid : id ∉ cancelledPendingTxIds (s.db.getActiveOutputsFromHeight accountId height)) :
    Untouched inputs id s.db s'.db := by
  obtain ⟨db, rfl, houtputs, hpending, -⟩ := WalletSystem.step_rollbackFromHeight h
  refine ⟨fun hcompleted => ?_, fun hash _ hlocked => ?_⟩
  · rw [hpending, hasStatus_cancel, if_neg hid]
    exact hcompleted
  · obtain ⟨o, ho, hhash, hlock⟩ := hlocked
    rw [houtputs]
    refine ⟨_, (AutoTable.mem_updateWhere (by intro _; rfl)).mpr ⟨o, ho, rfl⟩, ?_⟩
    split <;> exact ⟨hhash, hlock⟩

/-- The statements of burns unlock nothing, and set no status but `Completed`. -/
theorem Untouched.statement {st st' : BurnState} {result : BurnTxResult} {ch : Choice}
    {x : Statement} (hnext : st.next ch db result = some (x, st')) :
    Untouched inputs id db (x.apply db) := by
  have hx : x.unlocks = none ∧ ∀ set ∈ x.sets, set.2 = .completed := by
    cases st with
    | insertBurnProof | findPending | connect =>
        simp only [BurnState.next] at hnext
        split at hnext <;> cases hnext <;> simp [Statement.unlocks, Statement.sets]
    | setCompleted | createCompleted | markBroadcasted =>
        cases hnext
        simp [Statement.unlocks, Statement.sets]
    | _ => cases hnext
  exact .apply db x (by simp [hx.1]) (fun set hset _ => hx.2 set hset)

/-! ## What is still held -/

/-- The inputs are locked for what the burn has found, which is `Completed` once it is set so. -/
def Held (db : Db) (warned : Prop) (inputs : List FixedHash) (id : RequestId) : BurnState → Prop
  | .setCompleted _ => ∀ h ∈ inputs, LockedFor db.outputs id h
  | .createCompleted _ | .connect | .submit _ | .await _ _ =>
    (∀ h ∈ inputs, LockedFor db.outputs id h) ∧
      (¬warned → HasStatus db.pendingTransactions id .completed)
  | _ => True

def HeldBy (i : Nat) (t : LoggedBurns) : Prop :=
  ∀ b ∈ t.system.burns[i]?, ∀ id ∈ t.foundBy i,
    Held t.db ((i, .setCompleted) ∈ t.warned) b.1.transaction.inputs id b.2

theorem Held.mono {warned warned' : Prop} {st : BurnState} (h : Held db warned inputs id st)
    (hdb : Untouched inputs id db db') (hwarned : warned → warned') :
    Held db' warned' inputs id st := by
  cases st with
  | setCompleted => exact fun hash hmem => hdb.locked hash hmem (h hash hmem)
  | createCompleted | connect | submit | await =>
      exact ⟨fun hash hmem => hdb.locked hash hmem (h.1 hash hmem),
        fun hnot => hdb.completed (h.2 (mt hwarned hnot))⟩
  | _ => trivial

theorem held_of_not_inProgress {warned : Prop} {st : BurnState} (h : st.inProgress = false) :
    Held db warned inputs id st := by
  cases st with
  | markBroadcasted | ok | failed => trivial
  | _ => cases h

theorem Held.moved {warned : Prop} {st st' : BurnState} (h : Held db warned inputs id st)
    (hmoved : BurnSystem.Moved st st') : Held db warned inputs id st' := by
  cases hmoved with
  | send | retry => exact h
  | respond retries messageId response =>
      unfold BurnState.ofResponse
      split
      · trivial
      · split <;> trivial

section Holds

variable {t t' : LoggedBurns} {i : Nat} {result : BurnTxResult} {st st' : BurnState}

/-- A step of the wallet leaves alone what a burn in progress has found. -/
theorem Untouched.wallet {a : SystemAction} {w : WalletSystem} {b : BurnTxResult × BurnState}
    (h : t.system.wallet.step env a = some w)
    (hmeets : LeavesBurn env i t (.system (.wallet a))) (hb : t.system.burns[i]? = some b)
    (hprogress : b.2.inProgress = true) (hid : id ∈ t.foundBy i) :
    Untouched b.1.transaction.inputs id t.db w.db := by
  have hreserved : id ∈ t.reservation i := by simpa [reservation, hb, hprogress] using hid
  rcases WalletSystem.step_db h with heq | ⟨j, ch, rfl⟩ | ⟨bp, block, accountId, now, rfl⟩ |
    ⟨accountId, height, webhookConfig, now, rfl⟩
  · exact .of_eq heq
  · obtain ⟨c, x, c', hc, hnext, -, rfl⟩ := WalletSystem.step_statement h
    have hy : (x, c') ∈ t.system.wallet.calls[j]?.bind (fun c => c.next env ch t.db) := by
      rw [hc]
      exact hnext
    obtain ⟨hunlocks, hsets⟩ := hmeets (x, c') hy id hreserved
    exact .apply _ x hunlocks hsets
  · exact .processBlock h (hmeets (List.ne_nil_of_mem hreserved) b hb)
  · exact .rollback h (hmeets id hreserved)

/-- The next statement of the burn. -/
theorem HeldBy.statement {ch : Choice} {x : Statement} (h : HeldBy i t)
    (hrecorded : Recorded t i (result, st)) (hi : t.system.burns[i]? = some (result, st))
    (hmeets : ∀ pendingTxId ∈ t.lookup i, ∀ hash ∈ result.transaction.inputs,
      LockedFor t.db.outputs pendingTxId hash)
    (hnext : st.next ch t.db result = some (x, st')) {warned : Prop}
    (hwarned : (i, .setCompleted) ∈ t.warned → warned) (hid : id ∈ t.foundBy i ++ t.lookup i) :
    Held (x.apply t.db) warned result.transaction.inputs id st' := by
  have huntouched : Untouched result.transaction.inputs id t.db (x.apply t.db) :=
    .statement hnext
  have hdone := hrecorded.done
  cases st with
  | insertBurnProof =>
      have hnone : t.foundBy i = [] := hdone
      rw [hnone, lookup, hi] at hid
      cases hid
  | findPending =>
      rw [hdone.2, List.nil_append] at hid
      have hlocked := hmeets id hid
      simp only [BurnState.next] at hnext
      split at hnext
      · cases hnext
        exact fun hash hmem => huntouched.locked hash hmem (hlocked hash hmem)
      · next hfind =>
          rw [lookup, hi] at hid
          simp [hfind] at hid
  | setCompleted pendingTxId =>
      rw [lookup, hi, List.append_nil] at hid
      have hlocked := h _ hi id hid
      have hexists := (hrecorded.hasKey id hid).exists
      rw [hdone.2, List.mem_singleton] at hid
      subst hid
      cases hnext
      refine ⟨fun hash hmem => huntouched.locked hash hmem (hlocked hash hmem), fun _ => ?_⟩
      exact (hasStatus_update id id _ _).mpr (by simpa using hexists)
  | createCompleted pendingTxId =>
      rw [lookup, hi, List.append_nil] at hid
      have hheld := (h _ hi id hid).mono huntouched hwarned
      cases hnext
      exact hheld
  | connect =>
      rw [lookup, hi, List.append_nil] at hid
      have hheld := (h _ hi id hid).mono huntouched hwarned
      simp only [BurnState.next] at hnext
      split at hnext
      · cases hnext
        trivial
      · cases hnext
        exact hheld
  | markBroadcasted =>
      cases hnext
      trivial
  | _ => cases hnext

/-- Burn `j` moves without a statement, and keeps what it holds. -/
theorem HeldBy.move {j : Nat} {t' : LoggedBurns} (h : HeldBy i t)
    (hj : t.system.burns[j]? = some (result, st))
    (hburns : t'.system.burns = t.system.burns.set j (result, st')) (hdb : t'.db = t.db)
    (hwarned : t.warned ⊆ t'.warned) (hfound : t'.foundBy i = t.foundBy i)
    (hself : j = i → ∀ id ∈ t.foundBy i,
      Held t.db ((i, .setCompleted) ∈ t.warned) result.transaction.inputs id st →
        Held t.db ((i, .setCompleted) ∈ t'.warned) result.transaction.inputs id st') :
    HeldBy i t' := by
  intro b hb id hid
  rw [hburns] at hb
  rw [hfound] at hid
  rw [hdb]
  rcases getElem?_set_cases hb with ⟨rfl, rfl⟩ | ⟨-, hb⟩
  · exact hself rfl id hid (h _ hj id hid)
  · exact (h b hb id hid).mono (.of_eq rfl) (fun hmem => hwarned hmem)

theorem HeldBy.stepSystem {a : BurnAction} {system : BurnSystem} (h : HeldBy i t)
    (hrecorded : AllRecorded t) (hmeets : LeavesBurn env i t (.system a))
    (hstep : t.system.step env a = some system) :
    HeldBy i {
      system
      burnProofs := t.burnProofs ++ t.inserts a
      warned := t.warned ++ t.warns a
      found := t.found ++ t.finds a } := by
  have hwarned : t.warned ⊆ t.warned ++ t.warns a := List.subset_append_left _ _
  cases a with
  | wallet a =>
      obtain ⟨w, hw, rfl⟩ := Option.map_eq_some_iff.mp hstep
      intro b hb id hid
      have hid : id ∈ t.foundBy i := by simpa [foundBy, finds] using hid
      cases hprogress : b.2.inProgress with
      | false => exact held_of_not_inProgress hprogress
      | true =>
          exact (h b hb id hid).mono (.wallet hw hmeets hb hprogress hid)
            (fun hmem => hwarned hmem)
  | burn lockCall kernelExcess outputHash txId =>
      obtain ⟨result, -, rfl⟩ := Option.map_eq_some_iff.mp hstep
      intro b hb id hid
      have hid : id ∈ t.foundBy i := by simpa [foundBy, finds] using hid
      rcases getElem?_append_cases hb with hb | ⟨rfl, rfl⟩
      · exact (h b hb id hid).mono (.of_eq rfl) (fun hmem => hwarned hmem)
      · trivial
  | statement j ch =>
      obtain ⟨⟨result, st⟩, hj, hstep⟩ := Option.bind_eq_some_iff.mp hstep
      obtain ⟨⟨x, st'⟩, hnext, rfl⟩ := Option.map_eq_some_iff.mp hstep
      intro b hb id hid
      rw [foundBy_statement rfl] at hid
      rcases getElem?_set_cases hb with ⟨rfl, rfl⟩ | ⟨hne, hb⟩
      · rw [if_pos rfl] at hid
        exact h.statement (hrecorded.burns i _ hj) hj (hmeets rfl _ hj) hnext
          (fun hmem => hwarned hmem) hid
      · rw [if_neg hne, List.append_nil] at hid
        exact (h b hb id hid).mono (.statement hnext) (fun hmem => hwarned hmem)
  | send | receive | transportError =>
      obtain ⟨j, result, st, st', hj, hmoved, hburns, hdb, -⟩ :=
        BurnSystem.step_moved hstep (by simp) (by simp) (by simp)
      exact h.move hj hburns hdb hwarned (by simp [foundBy, finds]) (fun _ id _ hheld =>
        (hheld.mono (.of_eq rfl) (fun hmem => hwarned hmem)).moved hmoved)

/-- The next statement of burn `j` fails. -/
theorem HeldBy.statementFails {j : Nat} {e : String} (h : HeldBy i t) (hrecorded : AllRecorded t)
    (hstep : t.step env (.statementFails j e) = some t') : HeldBy i t' := by
  obtain ⟨⟨result, st⟩, hj, hstep⟩ := Option.bind_eq_some_iff.mp hstep
  obtain ⟨⟨st', warning⟩, herror, rfl⟩ := Option.map_eq_some_iff.mp hstep
  have hwarned : t.warned ⊆ t.warned ++ warning.toList.map (fun w => (j, w)) :=
    List.subset_append_left _ _
  refine h.move hj rfl rfl hwarned rfl (fun hji id hid hheld => ?_)
  subst hji
  cases st with
  | findPending =>
      rw [(hrecorded.burns j _ hj).done.2] at hid
      cases hid
  | setCompleted pendingTxId =>
      cases herror
      exact ⟨hheld, fun hnot => absurd (by simp) hnot⟩
  | createCompleted pendingTxId =>
      cases herror
      exact ⟨hheld.1, fun hnot => hheld.2 (fun hmem => hnot (hwarned hmem))⟩
  | insertBurnProof | markBroadcasted =>
      cases herror
      trivial
  | _ => cases herror

/-- All burns are recorded, and burn `i` holds what it has found. -/
structure RecordedAndHeld (i : Nat) (t : LoggedBurns) : Prop where
  recorded : AllRecorded t
  held : HeldBy i t

theorem RecordedAndHeld.step {a : LoggedBurnAction} (h : RecordedAndHeld i t)
    (hmeets : LeavesBurn env i t a) (hstep : t.step env a = some t') : RecordedAndHeld i t' := by
  refine ⟨h.recorded.step hstep, ?_⟩
  cases a with
  | system a =>
      obtain ⟨system, hsystem, rfl⟩ := Option.map_eq_some_iff.mp hstep
      exact h.held.stepSystem h.recorded hmeets hsystem
  | statementFails j e => exact h.held.statementFails h.recorded hstep

/-- Where burn `i` is about to be submitted, what it has found is reserved. -/
theorem RecordedAndHeld.submits (h : RecordedAndHeld i t) : SubmitsWhatItFound i t := by
  rintro ⟨result, st⟩ hb hsubmits id hid
  cases st with
  | submit retries =>
      obtain ⟨hlocked, hstatus⟩ := h.held _ hb id hid
      obtain ⟨p, hp, rfl, hkey, haccount⟩ := (h.recorded.burns i _ hb).hasKey id hid
      refine ⟨p, hp, rfl, by simp [PendingTransactionRow.hasKey, hkey, haccount], fun hnot => ?_,
        hlocked⟩
      obtain ⟨p', hp', hid', hcompleted⟩ := hstatus hnot
      obtain rfl : p' = p := t.db.pendingTransactions.eq_of_key_eq hp' hp hid'
      exact hcompleted
  | _ => cases hsubmits

end Holds

/-- In every run a burn that is submitted, or returns `Ok`, has its burn proof stored, and when it
    is submitted its completed transaction for the pending transaction that it has found, unless
    that could not be created. In a run that leaves what it has found alone, its inputs are locked
    for it, and it is `Completed` unless that could not be set. -/
theorem submitsRecorded_of_run (env : TransactionEnv) (actions : List LoggedBurnAction) :
    Always (LoggedBurns.step env) SubmitsRecorded start actions ∧
      ∀ i, Along (LoggedBurns.step env) (LeavesBurn env i) start actions →
        Always (LoggedBurns.step env) (SubmitsWhatItFound i) start actions := by
  refine ⟨?_, fun i hmeets => ?_⟩
  · exact always_of_steps (fun _ _ _ h hstep => AllRecorded.step h hstep)
      (fun _ h => h.submitsRecorded) allRecorded_start
  · refine always_of_along (I := RecordedAndHeld i) (fun _ _ _ h hg hstep => h.step hg hstep)
      (fun _ h => h.submits) ⟨allRecorded_start, fun b hb => ?_⟩ hmeets
    cases hb

/-- Account 1 receives two outputs and locks funds for a burn. -/
def lockedForBurn : List SystemAction :=
  .processBlock (.withEventSender [(1, 7)] 3) ⟨1, 101,
    [(500, { outputHash := 500, value := 100000 }, 0),
      (501, { outputHash := 501, value := 90000 }, 0)], [], 1000⟩ 1 1000 ::
    .lock (lockRequest "burn") :: selectStatements 0 ++ [.statement 0 { uuid := 11 }]

/-- The burn runs up to its submission. -/
def burnSubmitted : List LoggedBurnAction :=
  lockedForBurn.map (fun a => .system (.wallet a)) ++
    .system (.burn 0 900 700 77) :: List.replicate 5 (.system (.statement 0 {}))

theorem burnSubmitted_recorded :
    Always (LoggedBurns.step plainTransactionEnv) SubmitsRecorded start burnSubmitted ∧
      Always (LoggedBurns.step plainTransactionEnv) (SubmitsWhatItFound 0) start burnSubmitted ∧
      (Transition.run (LoggedBurns.step plainTransactionEnv) start burnSubmitted).any (fun t =>
        decide ((∃ b ∈ t.system.burns[0]?, b.2.submits = true) ∧ t.warned = [] ∧
          t.foundBy 0 ≠ [])) = true :=
  ⟨(submitsRecorded_of_run plainTransactionEnv burnSubmitted).1,
    (submitsRecorded_of_run plainTransactionEnv burnSubmitted).2 0 (by decide +kernel),
    by decide +kernel⟩

/-- The pending transaction cannot be looked up, and the burn is submitted without its completed
    transaction. -/
theorem lookupFails_not_reserved :
    ¬∀ (env : TransactionEnv) (actions : List LoggedBurnAction),
      Always (LoggedBurns.step env) SubmitsReserved start actions := by
  intro hall
  have hfails : ¬Always (LoggedBurns.step plainTransactionEnv) SubmitsReserved start
      (lockedForBurn.map (fun a => .system (.wallet a)) ++
        [.system (.burn 0 900 700 77), .system (.statement 0 {}), .statementFails 0 "busy",
          .system (.statement 0 {})]) := by
    decide +kernel
  exact hfails (hall plainTransactionEnv _)

/-- The unlocker expires the pending transaction before it is set `Completed`. -/
example : ¬Always (LoggedBurns.step plainTransactionEnv) SubmitsReserved start
    (lockedForBurn.map (fun a => .system (.wallet a)) ++
      [.system (.burn 0 900 700 77), .system (.statement 0 {}), .system (.statement 0 {}),
        .system (.wallet .unlockExpiredTransactions),
        .system (.wallet (.statement 1 { now := 100 })),
        .system (.wallet (.statement 1 { now := 100 })), .system (.statement 0 {}),
        .system (.statement 0 {}), .system (.statement 0 {})]) := by
  decide +kernel

end LoggedBurns

end MinotariWallet
